import MipsMachine.Proofs.Program
import MipsMachine.Proofs.Simulation.History

set_option autoImplicit false

/-!
# The program counter

From a load on, and as long as nobody moves the program counter by hand, it stays between 0 and
the number of instructions.  At that number the program has ended, for good; `HALT` goes there
at once, so it is executed one time at most.  `Placed` is the invariant.
-/

namespace MipsMachine

/-- Where labels are in range, an instruction leads to an instruction or to the end. -/
theorem Machine.Leads.le_size {m : Machine} {p : Program} {i : Instruction} {next : Nat}
    (h : m.Leads p i next) (hlabels : p.LabelsInRange) (hpc : m.pc < p.size) : next ≤ p.size := by
  cases h with
  | halt => exact Nat.le_refl p.size
  | taken hlabel => exact hlabels _ _ hlabel
  | notTaken | next => exact hpc

theorem Tally.halt_record (t : Tally) (c : InstructionClass) (flow : Flow) :
    (t.record c flow).halt = t.halt + if c = .halt then 1 else 0 := by
  cases c <;> cases flow <;> simp [record, countClass, countFlow]

theorem Instruction.classOf_eq_halt_iff {i : Instruction} : i.classOf = .halt ↔ i = .halt := by
  cases i <;> simp [classOf]

theorem Instruction.opcode_halt : (encode .halt).word.opcode = Opcode.halt := by
  decide

namespace Simulation

/-- The lines are loaded, the program counter is in their program, and a `HALT` among the executed
instructions was the last of them and left the counter at the end. -/
structure Placed (lines : List String) (s : Simulation) : Prop where
  program : s.program = .assemble lines
  counter : s.machine.pc ≤ s.program.size
  halt : s.tally.halt ≤ 1
  halted : s.tally.halt = 1 →
    s.machine.pc = s.program.size ∧ ∃ w, s.trace.back? = some w ∧ w.opcode = Opcode.halt

/-- The program has ended, and nothing that is executed changes that. -/
structure Ended (s : Simulation) : Prop where
  step : s.step = ⟨.ok .finished, s, #[]⟩
  runFor : ∀ n, s.runFor n = ⟨.ok 0, s, #[]⟩
  run : ∀ o, s.EndsIn o ↔ o = ⟨.ok 0, s, #[.log (.runFinished 0 s.machine.pc)]⟩

/-! ## The end of the program -/

theorem ended_of_isFinished {s : Simulation} (h : s.isFinished = true) : s.Ended := by
  have hfinished : s.step.result = .ok .finished :=
    step_result_eq_finished_iff.mpr (current?_eq_none_iff.mpr (isFinished_iff.mp h))
  refine ⟨step_eq_of_finished hfinished, ?_, endsIn_iff_of_finished s.executes_zero hfinished⟩
  intro n
  have hstops : s.StopsAfter n 0 :=
    .of_not_executed (Nat.zero_le n) s.executes_zero (by simp [after, hfinished])
  exact runFor_eq_ok hstops (Or.inr hfinished)

/-! ## The invariant -/

theorem placed_of_load {s : Simulation} {c : Call} {o : Outcome Answer} {lines : List String}
    (hreturns : Returns s c o) (hlines : c.lines? = some lines) : Placed lines o.state := by
  rw [hreturns.state_eq_load hlines]
  exact ⟨rfl, Nat.zero_le _, Nat.zero_le 1, fun h => absurd h (Nat.zero_ne_one)⟩

theorem Placed.step {lines : List String} {s : Simulation} (h : Placed lines s) :
    Placed lines s.step.state := by
  have hs := s.stepped
  generalize s.step = o at hs
  cases hs with
  | finished => exact h
  | refused => exact h
  | @executed text i e htext hresolve =>
      have hpc : s.machine.pc < s.program.size := pc_lt_of_current? htext
      -- an instruction is left to execute, so none of those before it was a `HALT`
      have hnone : s.tally.halt = 0 := by
        have hne : s.tally.halt ≠ 1 := fun h1 => Nat.ne_of_lt hpc (h.halted h1).1
        have hle := h.halt
        omega
      obtain ⟨_, heffect⟩ := resolve_eq_ok_iff.mp hresolve
      have hlabels : s.program.LabelsInRange := by
        rw [h.program]
        exact Program.labelsInRange_assemble lines
      have htally : (s.commit i e).tally.halt = if i = .halt then 1 else 0 := by
        simp [commit, Tally.halt_record, hnone, Instruction.classOf_eq_halt_iff]
      refine ⟨h.program, ?_, ?_, ?_⟩
      · simpa [commit, Machine.advance] using (Machine.leads_of_effect heffect).le_size hlabels hpc
      · rw [htally]
        split <;> decide
      · intro hhalt
        have hi : i = .halt := by
          rw [htally] at hhalt
          by_cases hi : i = .halt
          · exact hi
          · simp [hi] at hhalt
        subst hi
        obtain rfl := Except.ok.inj heffect
        refine ⟨rfl, _, ?_, Instruction.opcode_halt⟩
        simp [commit]

theorem Placed.call {lines : List String} {s : Simulation} {c : Call} {o : Outcome Answer}
    (h : Placed lines s) (hc : c.Executing ∨ c.Writing) (hreturns : Returns s c o) :
    Placed lines o.state := by
  rcases hc with hexecuting | hwriting
  · exact hreturns.preserves_of_executing Placed.step hexecuting h
  · obtain ⟨w, hw⟩ := hreturns.exists_change_of_writing hwriting
    rw [hw]
    exact ⟨h.program, by simpa using h.counter, h.halt, by simpa using h.halted⟩

/-- The end of the program is left neither by executing nor by writing. -/
theorem isFinished_call {s : Simulation} {c : Call} {o : Outcome Answer} (h : s.isFinished = true)
    (hc : c.Executing ∨ c.Writing) (hreturns : Returns s c o) : o.state.isFinished = true := by
  rcases hc with hexecuting | hwriting
  · have hstep : ∀ {u : Simulation}, u.isFinished = true → u.step.state.isFinished = true := by
      intro u hu
      rw [(ended_of_isFinished hu).step]
      exact hu
    exact hreturns.preserves_of_executing (P := fun u => u.isFinished = true) hstep hexecuting h
  · obtain ⟨w, hw⟩ := hreturns.exists_change_of_writing hwriting
    rw [isFinished_iff] at h ⊢
    rw [hw]
    simpa using h

/-! ## Safety -/

/-- A counter of 64 bits that stays within a program of fewer than `2 ^ 64` instructions does
not wrap. -/
theorem toNat_ofNat_add_one {n size : Nat} (hn : n + 1 ≤ size) (hsize : size < UInt64.size) :
    (UInt64.ofNat n + 1).toNat = n + 1 := by
  have hlt : n + 1 < 2 ^ 64 := Nat.lt_of_le_of_lt hn hsize
  have hn64 : n % 2 ^ 64 = n := Nat.mod_eq_of_lt (Nat.lt_of_succ_lt hlt)
  rw [UInt64.toNat_add, UInt64.toNat_ofNat', hn64]
  exact Nat.mod_eq_of_lt hlt

/-- After a load, executing and writing never take the program counter out of the program.  The
three ways to ask whether the program has ended agree with each other and with the counter
being at the number of instructions; from there on nothing is executed any more.  A `HALT` is
executed at most one time, as the last instruction of all, and where an instruction is executed
the counter can be moved on by one without wrapping. -/
theorem counter_stays_in_program {s₀ s : Simulation} {c : Call} {o : Outcome Answer}
    {lines : List String} (hreturns : Returns s₀ c o) (hlines : c.lines? = some lines)
    (hreaches : Reaches (fun c => c.Executing ∨ c.Writing) o.state s) :
    s.program = .assemble lines ∧
    (∀ entry ∈ s.program.labels.toList, entry.2 ≤ s.program.size) ∧
    s.machine.pc ≤ s.program.size ∧
    (s.step.result = .ok .finished ↔ s.isFinished = true) ∧
    (s.isFinished = true ↔ s.current? = none) ∧
    (s.current? = none ↔ s.machine.pc = s.program.size) ∧
    (s.isFinished = true → ∀ t, Reaches (fun c => c.Executing ∨ c.Writing) s t → t.Ended) ∧
    s.tally.halt ≤ 1 ∧
    (s.tally.halt = 1 →
      s.isFinished = true ∧ ∃ w, s.trace.back? = some w ∧ w.opcode = Opcode.halt) ∧
    (s.step.result = .ok .executed →
      s.machine.pc + 1 ≤ s.program.size ∧ s.program.size ≤ lines.length ∧
      (s.program.size < UInt64.size →
        (UInt64.ofNat s.machine.pc + 1).toNat = s.machine.pc + 1)) := by
  have hplaced : Placed lines s :=
    hreaches.invariant (placed_of_load hreturns hlines) fun hu hc hr => hu.call hc hr
  have hfinished : s.isFinished = true ↔ s.current? = none := by
    rw [isFinished_iff, current?_eq_none_iff]
  refine ⟨hplaced.program, ?_, hplaced.counter, ?_, hfinished, ?_, ?_, hplaced.halt, ?_, ?_⟩
  · intro entry hentry
    have hlabels := Program.labelsInRange_assemble lines
    rw [← hplaced.program] at hlabels
    exact hlabels entry.1 entry.2 (Table.find?_eq_some_iff.mpr hentry)
  · rw [step_result_eq_finished_iff, hfinished]
  · rw [current?_eq_none_iff]
    exact ⟨Nat.le_antisymm hplaced.counter, fun h => Nat.le_of_eq h.symm⟩
  · intro h t ht
    exact ended_of_isFinished (ht.invariant h isFinished_call)
  · intro h
    obtain ⟨hpc, hlast⟩ := hplaced.halted h
    exact ⟨isFinished_iff.mpr (Nat.le_of_eq hpc.symm), hlast⟩
  · intro h
    have hpc : s.machine.pc + 1 ≤ s.program.size := pc_lt_size_of_executed h
    refine ⟨hpc, ?_, toNat_ofNat_add_one hpc⟩
    rw [hplaced.program]
    exact Program.size_assemble_le lines

/-- A branch over one instruction to a `HALT`, with a write to memory in between. -/
theorem counter_stays_in_program_past_halt :
    let lines := ["beq $zero, $zero, stop", "print $t0", "stop: halt", "behind:"]
    let loaded := (fresh.load lines).state
    let s := ((loaded.runFor 1).state.setMemory 4 9).step.state
    Reaches (fun c => c.Executing ∨ c.Writing) loaded s ∧ s.program = .assemble lines ∧
      s.machine.pc ≤ s.program.size ∧ s.tally.halt = 1 ∧
      (∃ w, s.trace.back? = some w ∧ w.opcode = Opcode.halt) ∧ s.Ended := by
  intro lines loaded s
  have hreaches : Reaches (fun c => c.Executing ∨ c.Writing) loaded s :=
    ((Reaches.refl.runFor (Or.inl trivial)).setMemory (Or.inr trivial)).step (Or.inl trivial)
  have hhalt : s.tally.halt = 1 := by decide +kernel
  obtain ⟨hprogram, -, hpc, -, -, -, hended, -, hhalted, -⟩ :=
    counter_stays_in_program (.load lines) rfl hreaches
  obtain ⟨hfinished, hlast⟩ := hhalted hhalt
  exact ⟨hreaches, hprogram, hpc, hhalt, hlast, hended hfinished s .refl⟩

end Simulation

end MipsMachine
