import MipsMachine.Proofs.Simulation.Step

set_option autoImplicit false

/-!
# Steps that fail

A step fails for one of two causes: the instruction at the program counter cannot be read, or
it is a branch whose label the program does not define.  Whatever the cause, nothing is left of
the attempt.

That holds of `step` by the way it is put together, since it works an effect out before it
commits anything.  So it is proved for `stepInPlace` as well, which changes the simulation as
it goes, one record after the other, and which a fault leaves with all the changes made so far.
The two come to the same (`outcome_stepInPlace`): by the time a step can still fail, nothing
has been changed.
-/

namespace MipsMachine.Simulation

/-! ## Changing a simulation as one goes -/

/-- A computation that changes a simulation.  A fault ends it, and the changes that it made
before stay. -/
abbrev Action (α : Type) := ExceptT Fault (StateM Simulation) α

namespace Action

/-- Result and simulation that an action comes to. -/
def outcome {α : Type} (a : Action α) (s : Simulation) : Except Fault α × Simulation := a.run.run s

def register (r : Register) : Action Int64 := do return (← get).machine.registers.read r

def address (base : Register) (offset : Int64) : Action Int64 :=
  do return (← register base) + offset

def write (w : Write) : Action Unit :=
  modify fun s => { s with machine := s.machine.change (some w) }

def target (label : String) : Action Nat := do
  match (← get).program.label? label with
  | some index => return index
  | none => throw (.unknownLabel label)

/-- Carry out an instruction up to where the program counter goes and the line that is printed. -/
def execute : Instruction → Action (Flow × Option String)
  | .alu op rd rs rt => do
    let value := op.apply (← register rs) (← register rt)
    write (.register rd value)
    return (.next, none)
  | .shiftLeft rd rt amount => do
    let value := Arithmetic.shiftLeft (← register rt) amount.toNat
    write (.register rd value)
    return (.next, none)
  | .multiply rs rt => do
    let product := (← register rs) * (← register rt)
    write (.register (← get).machine.product product)
    return (.next, none)
  | .aluImmediate op rt rs value => do
    let value := op.apply (← register rs) value
    write (.register rt value)
    return (.next, none)
  | .load rt offset base => do
    let value := (← get).machine.memory.load (← address base offset)
    write (.register rt value)
    return (.next, none)
  | .store rt offset base => do
    let place ← address base offset
    write (.memory place (← register rt))
    return (.next, none)
  | .loadUpper rt value => do
    write (.register rt (Arithmetic.shiftLeft value Arithmetic.upperShift))
    return (.next, none)
  | .branch test rs rt label => do
    let taken := test.passes (← register rs) (← register rt)
    let index ← target label
    return (if taken then .jump index else .next, none)
  | .print source => do
    return (.next, some (Numeral.integer (← register source).toInt))
  | .printString constant => do
    return (.next, some (((← get).program.string? constant).getD constant))
  | .halt => do
    return (.jump (← get).program.size, none)

/-- Put what an instruction did on record: the line it printed, its word and its class, and
then move the program counter. -/
def finish (i : Instruction) (flow : Flow) (line? : Option String) : Action Unit := do
  modify fun s => { s with output := s.output ++ line?.toList }
  modify fun s => { s with trace := s.trace.push i.encode.word }
  modify fun s => { s with tally := s.tally.record i.classOf flow }
  modify fun s => { s with machine := s.machine.advance flow }

/-- Read an instruction text, carry the instruction out and put it on record. -/
def executeText (text : String) : Action StepResult := do
  let i ← liftExcept (Instruction.read text)
  let (flow, line?) ← execute i
  finish i flow line?
  return .executed

/-! ## What actions come to -/

theorem outcome_pure {α : Type} (x : α) (s : Simulation) :
    (pure x : Action α).outcome s = (.ok x, s) := rfl

theorem outcome_bind {α β : Type} (a : Action α) (f : α → Action β) (s : Simulation) :
    (a >>= f).outcome s =
      match a.outcome s with
      | (.ok x, t) => (f x).outcome t
      | (.error fault, t) => (.error fault, t) := by
  have hrun : (a >>= f).outcome s =
      (ExceptT.bindCont f (a.outcome s).1).run (a.outcome s).2 := rfl
  rw [hrun]
  generalize a.outcome s = p
  obtain ⟨result, t⟩ := p
  cases result with
  | error fault => rfl
  | ok x => rfl

theorem outcome_liftExcept {α : Type} (e : Except Fault α) (s : Simulation) :
    (liftExcept e : Action α).outcome s = (e, s) := by
  cases e with
  | error fault => rfl
  | ok x => rfl

theorem outcome_register (r : Register) (s : Simulation) :
    (register r).outcome s = (.ok (s.machine.registers.read r), s) := rfl

theorem outcome_target (label : String) (s : Simulation) :
    (target label).outcome s =
      match s.program.label? label with
      | some index => (.ok index, s)
      | none => (.error (.unknownLabel label), s) := by
  have hget : (target label).outcome s =
      (match s.program.label? label with
      | some index => pure index
      | none => throw (Fault.unknownLabel label) : Action Nat).outcome s := rfl
  rw [hget]
  cases s.program.label? label with
  | none => rfl
  | some index => rfl

/-- Carrying an instruction out comes to its effect, or to its fault before anything is changed. -/
theorem outcome_execute (s : Simulation) (i : Instruction) :
    (execute i).outcome s =
      match s.machine.effect s.program i with
      | .ok e => (.ok (e.flow, e.output?), { s with machine := s.machine.change e.write? })
      | .error fault => (.error fault, s) := by
  cases i with
  | branch test rs rt label =>
      simp only [execute, outcome_bind, outcome_register, outcome_target, Machine.effect]
      cases s.program.label? label with
      | none => rfl
      | some index =>
          cases test.passes (s.machine.registers.read rs) (s.machine.registers.read rt) with
          | false => rfl
          | true => rfl
  | _ => rfl

theorem outcome_finish (s : Simulation) (i : Instruction) (e : Effect) :
    (finish i e.flow e.output?).outcome { s with machine := s.machine.change e.write? } =
      (.ok (), s.commit i e) := rfl

theorem outcome_executeText (s : Simulation) (text : String) :
    (executeText text).outcome s =
      match s.resolve text with
      | .ok (i, e) => (.ok .executed, s.commit i e)
      | .error fault => (.error fault, s) := by
  rw [executeText, outcome_bind, outcome_liftExcept, resolve]
  cases Instruction.read text with
  | error fault => rfl
  | ok i =>
      simp only [outcome_bind, outcome_execute]
      cases s.machine.effect s.program i with
      | error fault => rfl
      | ok e => simp only [outcome_finish, outcome_pure]

end Action

/-- Execute the instruction at the program counter and change the simulation on the way. -/
def stepInPlace : Action StepResult := do
  match (← get).current? with
  | none => return .finished
  | some text => Action.executeText text

/-- Changing a simulation on the way comes to the same as changing it at the end. -/
theorem outcome_stepInPlace (s : Simulation) :
    stepInPlace.outcome s = (s.step.result, s.step.state) := by
  have hget : stepInPlace.outcome s =
      (match s.current? with
      | none => pure .finished
      | some text => Action.executeText text : Action StepResult).outcome s := rfl
  rw [hget]
  have hs := s.stepped
  generalize s.step = o at hs
  cases hs with
  | finished hnone => rw [hnone, Action.outcome_pure]
  | refused htext hresolve => simp only [htext, Action.outcome_executeText, hresolve]
  | executed htext hresolve => simp only [htext, Action.outcome_executeText, hresolve]

/-! ## The causes of failure -/

theorem execute_eq_error_iff {m : Machine} {p : Program} {i : Instruction} {fault : Fault} :
    m.execute p i = .error fault ↔ m.effect p i = .error fault := by
  rw [Machine.execute]
  cases m.effect p i with
  | error fault' => simp
  | ok e => simp

/-- A step fails exactly at an instruction that cannot be read, or at a branch without its
label, taken or not; no other instruction can fail.  A step that fails has changed nothing,
even if each change is made as soon as it is known, and so it fails in the same way when it is
tried again. -/
theorem failed_step_leaves_nothing (s : Simulation) (fault : Fault) :
    (s.step.result = .error fault ↔
      s.machine.pc < s.program.size ∧
        ∃ text, s.program.instruction? s.machine.pc = some text ∧
          (Instruction.read text = .error fault ∨
            ∃ test rs rt label, Instruction.read text = .ok (.branch test rs rt label) ∧
              s.program.label? label = none ∧ fault = .unknownLabel label)) ∧
    (∀ i, s.machine.execute s.program i = .error fault ↔
      ∃ test rs rt label, i = .branch test rs rt label ∧ s.program.label? label = none ∧
        fault = .unknownLabel label) ∧
    stepInPlace.outcome s = (s.step.result, s.step.state) ∧
    (s.step.result = .error fault →
      stepInPlace.outcome s = (.error fault, s) ∧ s.step.state = s ∧
        s.step.state.step = s.step) := by
  refine ⟨?_, ?_, outcome_stepInPlace s, ?_⟩
  · rw [step_result_eq_error_iff]
    constructor
    · rintro ⟨text, htext, hresolve⟩
      refine ⟨pc_lt_of_current? htext, text, htext, ?_⟩
      rcases resolve_eq_error_iff.mp hresolve with hread | ⟨i, hread, heffect⟩
      · exact Or.inl hread
      · obtain ⟨test, rs, rt, label, rfl, hlabel, hfault⟩ := Machine.effect_eq_error_iff.mp heffect
        exact Or.inr ⟨test, rs, rt, label, hread, hlabel, hfault⟩
    · rintro ⟨-, text, htext, hcause⟩
      refine ⟨text, htext, resolve_eq_error_iff.mpr ?_⟩
      rcases hcause with hread | ⟨test, rs, rt, label, hread, hlabel, hfault⟩
      · exact Or.inl hread
      · exact Or.inr ⟨_, hread,
          Machine.effect_eq_error_iff.mpr ⟨test, rs, rt, label, rfl, hlabel, hfault⟩⟩
  · intro i
    rw [execute_eq_error_iff, Machine.effect_eq_error_iff]
  · intro h
    have hstate : s.step.state = s := step_state_of_not_executed (by simp [h])
    refine ⟨?_, hstate, by rw [hstate]⟩
    rw [outcome_stepInPlace, h, hstate]

/-- A branch that would not be taken, behind instructions that wrote and printed. -/
theorem failed_step_leaves_nothing_at_branch_not_taken :
    let s :=
      ((fresh.load ["addi $t0, $zero, 7", "print $t0", "bne $t0, $t0, away"]).state.runFor 2).state
    s.output = #["7"] ∧ s.step.result = .error (.unknownLabel "away") ∧
      stepInPlace.outcome s = (.error (.unknownLabel "away"), s) ∧ s.step.state = s ∧
      s.step.state.step = s.step := by
  intro s
  have htext : s.program.instruction? s.machine.pc = some "bne $t0, $t0, away" := by decide +kernel
  have hread : Instruction.read "bne $t0, $t0, away" =
      .ok (.branch .different .t0 .t0 "away") := by rfl
  obtain ⟨hfails, -, -, hleaves⟩ := failed_step_leaves_nothing s (.unknownLabel "away")
  have hfault : s.step.result = .error (.unknownLabel "away") :=
    hfails.mpr ⟨by decide +kernel, _, htext,
      Or.inr ⟨_, _, _, "away", hread, by decide +kernel, rfl⟩⟩
  exact ⟨by decide +kernel, hfault, hleaves hfault⟩

end MipsMachine.Simulation
