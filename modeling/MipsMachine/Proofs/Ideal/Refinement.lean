import MipsMachine.Proofs.Arithmetic
import MipsMachine.Proofs.Ideal.Machine
import MipsMachine.Proofs.Immediate
import MipsMachine.Proofs.Simulation.Run

set_option autoImplicit false

/-!
# Refinement of the ideal machine

As long as every integer that the ideal machine computes is in the range of 64 bits, the
simulation does what the ideal machine does.  `Represents` relates the states of the two.
Every instruction keeps it (`Represents.execute_ok`), so a step does (`Represents.step`), so a
run of any length does, with the same result (`Represents.runFor`).
-/

namespace MipsMachine

open Arithmetic

/-! ## Operations -/

theorem Arithmetic.toInt_truthValue_lt (a b : Int64) :
    (truthValue (a < b)).toInt = if a.toInt < b.toInt then 1 else 0 := by
  rw [toInt_truthValue]
  simp only [Int64.lt_iff_toInt_lt]

theorem BranchTest.holds_toInt (test : BranchTest) (a b : Int64) :
    test.holds a.toInt b.toInt = test.passes a b := by
  cases test with
  | equal => simp [holds, passes, Int64.toInt_inj, beq_eq_decide]
  | different => simp [holds, passes, Int64.toInt_inj, bne, beq_eq_decide]

namespace IdealMachine

/-- The two machines are in the same state: in registers and memory, the integers are those
that the values stand for, and nothing is stored at an address that no value stands for. -/
structure Represents (i : IdealMachine) (s : Simulation) : Prop where
  registers : ∀ r, i.read r = (s.machine.registers.read r).toInt
  words : ∀ a : Int64, i.memory a.toInt = (s.machine.memory.words.find? a).map Int64.toInt
  beyond : ∀ a, ¬InRange a → i.memory a = none
  pc : i.pc = s.machine.pc
  product : i.product = s.machine.product
  program : i.program = s.program
  output : i.output = s.output

theorem represents_load (s : Simulation) (lines : List String) :
    (start (.assemble lines) s.machine.product).Represents (s.load lines).state := by
  refine ⟨?_, fun a => rfl, fun a _ => rfl, rfl, rfl, rfl, rfl⟩
  intro r
  have hread : (s.load lines).state.machine.registers.read r = 0 := Bank.read_cleared r
  rw [hread, read]
  split <;> rfl

/-- Every simulation is in the state of an ideal machine. -/
theorem exists_represents (s : Simulation) : ∃ i : IdealMachine, i.Represents s := by
  let words (a : Int) : Option Int :=
    (s.machine.memory.words.find? (Int64.ofInt a)).map Int64.toInt
  refine ⟨⟨fun r => (s.machine.registers.read r).toInt,
    fun a => if InRange a then words a else none, s.machine.pc, s.machine.product, s.program,
    s.output⟩, ?_, ?_, ?_, rfl, rfl, rfl, rfl⟩
  · intro r
    unfold read
    split
    next hzero => simp [hzero]
    next => rfl
  · intro a
    simp [words, inRange_toInt]
  · intro a ha
    exact if_neg ha

variable {i : IdealMachine} {s : Simulation}

/-! ## Reading -/

theorem Represents.load (h : i.Represents s) (a : Int64) :
    i.load a.toInt = (s.machine.memory.load a).toInt := by
  rw [IdealMachine.load, h.words, Memory.load]
  cases s.machine.memory.words.find? a <;> rfl

theorem Represents.address (h : i.Represents s) (base : Register) (offset : Int64)
    (hrange : InRange (i.address base offset.toInt)) :
    i.address base offset.toInt = (s.machine.address base offset).toInt := by
  rw [IdealMachine.address, h.registers] at hrange ⊢
  exact (toInt_add_of_inRange hrange).symm

/-! ## Changing -/

theorem read_put (i : IdealMachine) (r q : Register) (value : Int) :
    (i.put r value).read q = if q = r ∧ r ≠ .zero then value else i.read q := by
  unfold read put
  by_cases hq : q = r
  · subst hq
    by_cases hzero : q = .zero <;> simp [hzero]
  · simp [hq]

/-- An effect that puts a value into a register. -/
theorem Represents.put (h : i.Represents s) (instruction : Instruction) (r : Register)
    {v : Int} {value : Int64} (hvalue : value.toInt = v) :
    (i.put r v).next.Represents (s.commit instruction (.set r value)) := by
  subst hvalue
  refine ⟨?_, h.words, h.beyond, congrArg (· + 1) h.pc, h.product, h.program, ?_⟩
  · intro q
    show (i.put r value.toInt).read q = ((s.machine.registers.write r value).read q).toInt
    rw [read_put, Bank.read_write, h.registers]
    split <;> rfl
  · simpa [next, goto, IdealMachine.put, Simulation.commit, Effect.set] using h.output

/-- An effect that stores a word. -/
theorem Represents.store (h : i.Represents s) (instruction : Instruction) {a : Int}
    {address value : Int64} (haddress : a = address.toInt) {v : Int} (hvalue : v = value.toInt) :
    (i.store a v).next.Represents
      (s.commit instruction { write? := some (.memory address value) }) := by
  subst haddress hvalue
  refine ⟨h.registers, ?_, ?_, congrArg (· + 1) h.pc, h.product, h.program, ?_⟩
  · intro b
    show (if b.toInt = address.toInt then some value.toInt else i.memory b.toInt) =
      ((s.machine.memory.words.insert address value).find? b).map Int64.toInt
    rw [Table.find?_insert, h.words]
    by_cases hb : b = address
    · simp [hb]
    · simp [hb, Int64.toInt_inj]
  · intro b hb
    show (if b = address.toInt then some value.toInt else i.memory b) = none
    have hne : b ≠ address.toInt := by
      rintro rfl
      exact hb (inRange_toInt address)
    rw [if_neg hne, h.beyond b hb]
  · simpa [next, goto, IdealMachine.store, Simulation.commit] using h.output

/-- An effect that only moves the program counter. -/
theorem Represents.goto (h : i.Represents s) (instruction : Instruction) (flow : Flow) {pc : Nat}
    (hpc : pc = flow.target s.machine.pc) :
    (i.goto pc).Represents (s.commit instruction { flow }) := by
  refine ⟨h.registers, h.words, h.beyond, hpc, h.product, h.program, ?_⟩
  simpa [IdealMachine.goto, Simulation.commit] using h.output

/-- An effect that prints a line. -/
theorem Represents.say (h : i.Represents s) (instruction : Instruction) (line : String) :
    (i.say line).next.Represents (s.commit instruction { output? := some line }) := by
  refine ⟨h.registers, h.words, h.beyond, congrArg (· + 1) h.pc, h.product, h.program, ?_⟩
  simp [next, IdealMachine.goto, IdealMachine.say, Simulation.commit, h.output]

/-! ## One instruction -/

theorem Represents.toInt_alu (h : i.Represents s) {op : AluOp} {rd rs rt : Register}
    (hrange : ∀ v ∈ i.computed? (.alu op rd rs rt), InRange v) :
    (op.apply (s.machine.registers.read rs) (s.machine.registers.read rt)).toInt =
      op.exact (i.read rs) (i.read rt) := by
  cases op with
  | add =>
      have hsum : InRange (i.read rs + i.read rt) := hrange _ rfl
      rw [h.registers, h.registers] at hsum ⊢
      exact toInt_add_of_inRange hsum
  | sub =>
      have hdifference : InRange (i.read rs - i.read rt) := hrange _ rfl
      rw [h.registers, h.registers] at hdifference ⊢
      exact toInt_sub_of_inRange hdifference
  | and =>
      rw [h.registers, h.registers]
      exact toInt_and _ _
  | or =>
      rw [h.registers, h.registers]
      exact toInt_or _ _
  | slt =>
      rw [h.registers, h.registers]
      exact toInt_truthValue_lt _ _

theorem Represents.toInt_aluImmediate (h : i.Represents s) {op : ImmediateOp} {rt rs : Register}
    {value : Int64} (hrange : ∀ v ∈ i.computed? (.aluImmediate op rt rs value), InRange v) :
    (op.apply (s.machine.registers.read rs) value).toInt = op.exact (i.read rs) value.toInt := by
  cases op with
  | addi =>
      have hsum : InRange (i.read rs + value.toInt) := hrange _ rfl
      rw [h.registers] at hsum ⊢
      exact toInt_add_of_inRange hsum
  | slti =>
      rw [h.registers]
      exact toInt_truthValue_lt _ _

/-- A branch that is not refused goes to the same place on both machines. -/
theorem Represents.branch (h : i.Represents s) {test : BranchTest} {rs rt : Register}
    {label : String} {e : Effect}
    (heffect : s.machine.effect s.program (.branch test rs rt label) = .ok e) :
    ∃ j, i.execute (.branch test rs rt label) = .ok j ∧
      j.Represents (s.commit (.branch test rs rt label) e) := by
  rw [Machine.effect] at heffect
  cases hlabel : s.program.label? label with
  | none => simp [hlabel] at heffect
  | some target =>
      simp only [hlabel] at heffect
      have hexecute : i.execute (.branch test rs rt label) =
          .ok (if test.passes (s.machine.registers.read rs) (s.machine.registers.read rt)
            then i.goto target else i.next) := by
        simp [execute, h.program, hlabel, h.registers, BranchTest.holds_toInt]
      refine ⟨_, hexecute, ?_⟩
      split at heffect
      next htaken =>
        obtain rfl := Except.ok.inj heffect
        rw [if_pos htaken]
        exact h.goto _ (.jump target) rfl
      next htaken =>
        obtain rfl := Except.ok.inj heffect
        rw [if_neg htaken]
        exact h.goto _ .next (congrArg (· + 1) h.pc)

/-- An instruction with an effect does to both machines the same, if the integer it computes is
in range. -/
theorem Represents.execute_ok (h : i.Represents s) {instruction : Instruction} {e : Effect}
    (hrange : ∀ v ∈ i.computed? instruction, InRange v)
    (heffect : s.machine.effect s.program instruction = .ok e) :
    ∃ j, i.execute instruction = .ok j ∧ j.Represents (s.commit instruction e) := by
  cases instruction with
  | alu op rd rs rt =>
      obtain rfl := Except.ok.inj heffect
      exact ⟨_, rfl, h.put _ rd (h.toInt_alu hrange)⟩
  | shiftLeft rd rt amount =>
      obtain rfl := Except.ok.inj heffect
      refine ⟨_, rfl, h.put _ rd ?_⟩
      have hshifted := hrange _ rfl
      rw [h.registers] at hshifted ⊢
      exact toInt_shiftLeft_of_inRange hshifted
  | multiply rs rt =>
      obtain rfl := Except.ok.inj heffect
      refine ⟨_, rfl, ?_⟩
      rw [h.product]
      refine h.put _ s.machine.product ?_
      have hproduct := hrange _ rfl
      rw [h.registers, h.registers] at hproduct ⊢
      exact toInt_mul_of_inRange hproduct
  | aluImmediate op rt rs value =>
      obtain rfl := Except.ok.inj heffect
      exact ⟨_, rfl, h.put _ rt (h.toInt_aluImmediate hrange)⟩
  | load rt offset base =>
      obtain rfl := Except.ok.inj heffect
      refine ⟨_, rfl, h.put _ rt ?_⟩
      rw [h.address base offset (hrange _ rfl), h.load]
  | store rt offset base =>
      obtain rfl := Except.ok.inj heffect
      exact ⟨_, rfl, h.store _ (h.address base offset (hrange _ rfl)) (h.registers rt)⟩
  | loadUpper rt value =>
      obtain rfl := Except.ok.inj heffect
      refine ⟨_, rfl, h.put _ rt ?_⟩
      exact toInt_shiftLeft_of_inRange (n := upperShift) (hrange _ rfl)
  | branch test rs rt label => exact h.branch heffect
  | print source =>
      obtain rfl := Except.ok.inj heffect
      refine ⟨_, rfl, ?_⟩
      rw [h.registers, ← Numeral.integer_eq_toString]
      exact h.say _ _
  | printString constant =>
      obtain rfl := Except.ok.inj heffect
      refine ⟨_, rfl, ?_⟩
      rw [h.program]
      exact h.say _ _
  | halt =>
      obtain rfl := Except.ok.inj heffect
      refine ⟨_, rfl, ?_⟩
      rw [h.program]
      exact h.goto _ (.jump s.program.size) rfl

/-- A refused instruction is refused by both machines with the same fault. -/
theorem Represents.execute_error (h : i.Represents s) {instruction : Instruction} {fault : Fault}
    (heffect : s.machine.effect s.program instruction = .error fault) :
    i.execute instruction = .error fault := by
  obtain ⟨test, rs, rt, label, rfl, hlabel, rfl⟩ := Machine.effect_eq_error_iff.mp heffect
  rw [execute, h.program, hlabel]

/-! ## One step -/

theorem Represents.fetch?_eq (h : i.Represents s) :
    i.fetch? = s.current?.map Instruction.read := by
  rw [fetch?, h.program, h.pc]
  rfl

/-- A step comes to the same on both machines, if the integer it computes is in range. -/
theorem Represents.step (h : i.Represents s) (hrange : ∀ v ∈ i.computing?, InRange v) :
    s.step.result = i.step.1 ∧ i.step.2.Represents s.step.state := by
  have hfetch := h.fetch?_eq
  have hs := s.stepped
  generalize s.step = o at hs
  cases hs with
  | finished hnone =>
      rw [hnone] at hfetch
      rw [IdealMachine.step, hfetch]
      exact ⟨rfl, h⟩
  | @refused text fault htext hresolve =>
      rw [htext, Option.map_some] at hfetch
      have hstep : i.step = (.error fault, i) := by
        rw [IdealMachine.step, hfetch]
        rcases Simulation.resolve_eq_error_iff.mp hresolve with hread | ⟨j, hread, heffect⟩
        · simp only [hread]
        · simp only [hread, h.execute_error heffect]
      rw [hstep]
      exact ⟨rfl, h⟩
  | @executed text instruction e htext hresolve =>
      obtain ⟨hread, heffect⟩ := Simulation.resolve_eq_ok_iff.mp hresolve
      rw [htext, Option.map_some, hread] at hfetch
      rw [computing?, hfetch] at hrange
      obtain ⟨j, hexecute, hj⟩ := h.execute_ok hrange heffect
      have hstep : i.step = (.ok .executed, j) := by
        rw [IdealMachine.step, hfetch]
        simp only [hexecute]
      rw [hstep]
      exact ⟨rfl, hj⟩

/-! ## Runs -/

/-- Each integer that the first `n` steps compute is in range. -/
def StaysInRange (i : IdealMachine) (n : Nat) : Prop :=
  ∀ k < n, ∀ v ∈ (i.after k).computing?, InRange v

theorem StaysInRange.mono {n k : Nat} (h : i.StaysInRange n) (hle : k ≤ n) : i.StaysInRange k :=
  fun j hj => h j (Nat.lt_of_lt_of_le hj hle)

theorem StaysInRange.tail {n : Nat} (h : i.StaysInRange (n + 1)) : i.step.2.StaysInRange n :=
  fun k hk => h (k + 1) (Nat.succ_lt_succ hk)

theorem Represents.step_of_staysInRange (h : i.Represents s) {n : Nat}
    (hrange : i.StaysInRange (n + 1)) :
    s.step.result = i.step.1 ∧ i.step.2.Represents s.step.state :=
  h.step (hrange 0 (Nat.succ_pos n))

theorem Represents.after {n : Nat} (h : i.Represents s) (hrange : i.StaysInRange n) :
    (i.after n).Represents (s.after n) := by
  induction n generalizing i s with
  | zero => exact h
  | succ n ih => exact ih (h.step_of_staysInRange hrange).2 hrange.tail

/-- A bounded run comes to the same on both machines. -/
theorem Represents.runFor {n : Nat} (h : i.Represents s) (hrange : i.StaysInRange n) :
    (s.runFor n).result = (i.runFor n).1 ∧ (i.runFor n).2.Represents (s.runFor n).state := by
  induction n generalizing i s with
  | zero => exact ⟨rfl, h⟩
  | succ n ih =>
      obtain ⟨hresult, hstate⟩ := h.step_of_staysInRange hrange
      rw [IdealMachine.runFor]
      cases hs : s.step.result with
      | error fault =>
          have hrun : s.runFor (n + 1) = ⟨.error fault, s, #[] ++ s.step.journal⟩ :=
            Simulation.runForFrom_succ_of_error hs n 0 #[]
          have hi : i.step = (.error fault, i.step.2) := by rw [← hs, hresult]
          rw [Simulation.step_state_of_not_executed (by simp [hs])] at hstate
          rw [hrun, hi]
          exact ⟨rfl, hstate⟩
      | ok r =>
          have hi : i.step = (.ok r, i.step.2) := by rw [← hs, hresult]
          cases r with
          | finished =>
              have hrun : s.runFor (n + 1) = ⟨.ok 0, s, #[]⟩ :=
                Simulation.runForFrom_succ_of_finished hs n 0 #[]
              rw [Simulation.step_state_of_not_executed (by simp [hs])] at hstate
              rw [hrun, hi]
              exact ⟨rfl, hstate⟩
          | executed =>
              obtain ⟨hrunState, hrunResult⟩ := Simulation.runFor_succ_of_executed hs n
              obtain ⟨ihResult, ihState⟩ := ih hstate hrange.tail
              rw [hrunState, hrunResult, ihResult, hi]
              exact ⟨rfl, ihState⟩

/-- From equal states, and as long as every sum, difference, product, shifted value and address
of the ideal machine is in the range of 64 bits, the simulation executes the same steps: step
by step the results and the states are equal, and so are the result and the last state of the
run. -/
theorem run_refines_ideal {n : Nat} (hsame : i.Represents s)
    (hrange : ∀ k < n, ∀ v ∈ (i.after k).computing?, InRange v) :
    (∀ k < n, (s.after k).step.result = (i.after k).step.1) ∧
    (∀ k ≤ n, (i.after k).Represents (s.after k)) ∧
    (s.runFor n).result = (i.runFor n).1 ∧
    (i.runFor n).2.Represents (s.runFor n).state := by
  have hafter : ∀ k ≤ n, (i.after k).Represents (s.after k) := by
    intro k hk
    exact hsame.after (StaysInRange.mono hrange hk)
  refine ⟨?_, hafter, hsame.runFor hrange⟩
  intro k hk
  exact ((hafter k (Nat.le_of_lt hk)).step (hrange k hk)).1

/-- Negative operands and addresses, near the end of the range, up to a branch that fails: a
word is stored at -14 and loaded into `$zero`, which drops it. -/
theorem run_refines_ideal_below_zero :
    let lines := ["addi $t1, $zero, -6", "sll $t2, $t1, 60", "sw $t2, -8($t1)",
      "lw $zero, -14($zero)", "bne $t2, $zero, away"]
    let i := start (.assemble lines) .t0
    let s := (Simulation.fresh.load lines).state
    i.Represents s ∧ (∀ k < 7, ∀ v ∈ (i.after k).computing?, InRange v) ∧
      (i.runFor 7).1 = .error (.unknownLabel "away") ∧
      (i.runFor 7).2.memory (-14) = some (-6917529027641081856) ∧
      (i.runFor 7).2.Represents (s.runFor 7).state := by
  intro lines i s
  have hsame : i.Represents s := represents_load .fresh lines
  have hrange : ∀ k < 7, ∀ v ∈ (i.after k).computing?, InRange v := by decide +kernel
  obtain ⟨-, -, hresult, hstate⟩ := run_refines_ideal hsame hrange
  refine ⟨hsame, hrange, ?_, ?_, hstate⟩
  · rw [← hresult]
    decide +kernel
  · rw [show (-14 : Int) = (-14 : Int64).toInt from rfl, hstate.words]
    decide +kernel

end IdealMachine

end MipsMachine
