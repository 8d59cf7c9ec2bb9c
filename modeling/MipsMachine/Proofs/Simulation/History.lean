import MipsMachine.Proofs.Simulation.Run

set_option autoImplicit false

/-!
# Histories

What a simulation has gone through is a sequence of calls: loads and resets, steps and runs,
and direct writes to registers, memory or the program counter.  `Returns` says what each call
comes to, and `Reaches` which simulations calls of a given kind lead to.  A property that every
step keeps is kept by runs as well (`Returns.preserves_of_executing`), so an invariant has to
be looked at for steps and for the other calls only.
-/

namespace MipsMachine

/-- A call on a simulation. -/
inductive Call where
  /-- load a program, given as lines -/
  | load (lines : List String)
  /-- load a program, given as one text -/
  | loadSource (source : String)
  /-- go back to the simulation as it was set up -/
  | reset
  /-- execute one instruction -/
  | step
  /-- execute instructions until the program ends -/
  | run
  /-- execute instructions until the program ends, but not more than a number of them -/
  | runFor (bound : Nat)
  /-- write to a register -/
  | setRegister (r : Register) (value : Int64)
  /-- write to the register of a name -/
  | setNamed (name : String) (value : Int64)
  /-- write to a word of memory -/
  | setMemory (address value : Int64)
  /-- move the program counter -/
  | setCounter (pc : Nat)
  deriving DecidableEq

namespace Call

/-- Steps and runs. -/
def Executing : Call → Prop
  | .step | .run | .runFor _ => True
  | _ => False

/-- Direct writes to a register or to memory. -/
def Writing : Call → Prop
  | .setRegister .. | .setNamed .. | .setMemory .. => True
  | _ => False

/-- The lines that a call loads. -/
def lines? : Call → Option (List String)
  | .load lines => some lines
  | .loadSource source => some (Program.sourceLines source)
  | _ => none

end Call

/-- The result of a call. -/
inductive Answer where
  /-- the call has no result -/
  | done
  /-- what a step came to -/
  | stepped (r : StepResult)
  /-- the number of instructions that a run executed -/
  | counted (n : Nat)
  deriving DecidableEq, Repr, Inhabited

/-- An outcome with another result. -/
def Outcome.map {α β : Type} (f : α → β) (o : Outcome α) : Outcome β :=
  ⟨o.result.map f, o.state, o.journal⟩

@[simp] theorem Outcome.state_map {α β : Type} (f : α → β) (o : Outcome α) :
    (o.map f).state = o.state := rfl

@[simp] theorem Outcome.journal_map {α β : Type} (f : α → β) (o : Outcome α) :
    (o.map f).journal = o.journal := rfl

namespace Simulation

/-- The simulation with a value written to a register. -/
def withRegister (s : Simulation) (r : Register) (value : Int64) : Simulation :=
  { s with machine := s.machine.change (some (.register r value)) }

/-- What a call comes to.  A run that does not end comes to nothing. -/
inductive Returns (s : Simulation) : Call → Outcome Answer → Prop
  | load (lines : List String) :
      Returns s (.load lines) ((s.load lines).map fun _ => .done)
  | loadSource (source : String) :
      Returns s (.loadSource source) ((s.loadSource source).map fun _ => .done)
  | reset : Returns s .reset (s.reset.map fun _ => .done)
  | step : Returns s .step (s.step.map .stepped)
  | run {o : Outcome Nat} (hends : s.EndsIn o) : Returns s .run (o.map .counted)
  | runFor (bound : Nat) : Returns s (.runFor bound) ((s.runFor bound).map .counted)
  | setRegister (r : Register) (value : Int64) :
      Returns s (.setRegister r value) ⟨.ok .done, s.withRegister r value, #[]⟩
  | setNamed {name : String} {value : Int64} {t : Simulation}
      (hset : s.setRegister name value = .ok t) :
      Returns s (.setNamed name value) ⟨.ok .done, t, #[]⟩
  | setNamedRefused {name : String} {value : Int64} {fault : Fault}
      (hset : s.setRegister name value = .error fault) :
      Returns s (.setNamed name value) ⟨.error fault, s, #[]⟩
  | setMemory (address value : Int64) :
      Returns s (.setMemory address value) ⟨.ok .done, s.setMemory address value, #[]⟩
  | setCounter (pc : Nat) : Returns s (.setCounter pc) ⟨.ok .done, s.setCounter pc, #[]⟩

/-- Calls of the allowed kind lead from one simulation to another. -/
inductive Reaches (allowed : Call → Prop) (s : Simulation) : Simulation → Prop
  | refl : Reaches allowed s s
  | call {t : Simulation} {c : Call} {o : Outcome Answer} (hreaches : Reaches allowed s t)
      (hallowed : allowed c) (hreturns : Returns t c o) : Reaches allowed s o.state

theorem Reaches.load {allowed : Call → Prop} {s t : Simulation} {lines : List String}
    (hreaches : Reaches allowed s t) (hallowed : allowed (.load lines)) :
    Reaches allowed s (t.load lines).state :=
  .call hreaches hallowed (.load lines)

theorem Reaches.step {allowed : Call → Prop} {s t : Simulation} (hreaches : Reaches allowed s t)
    (hallowed : allowed .step) : Reaches allowed s t.step.state :=
  .call hreaches hallowed .step

theorem Reaches.runFor {allowed : Call → Prop} {s t : Simulation} {n : Nat}
    (hreaches : Reaches allowed s t) (hallowed : allowed (.runFor n)) :
    Reaches allowed s (t.runFor n).state :=
  .call hreaches hallowed (.runFor n)

theorem Reaches.setMemory {allowed : Call → Prop} {s t : Simulation} {address value : Int64}
    (hreaches : Reaches allowed s t) (hallowed : allowed (.setMemory address value)) :
    Reaches allowed s (t.setMemory address value) :=
  .call hreaches hallowed (.setMemory address value)

theorem Reaches.setCounter {allowed : Call → Prop} {s t : Simulation} {pc : Nat}
    (hreaches : Reaches allowed s t) (hallowed : allowed (.setCounter pc)) :
    Reaches allowed s (t.setCounter pc) :=
  .call hreaches hallowed (.setCounter pc)

/-- What every allowed call keeps holds as long as only allowed calls are made. -/
theorem Reaches.invariant {allowed : Call → Prop} {P : Simulation → Prop} {s t : Simulation}
    (hreaches : Reaches allowed s t) (hstart : P s)
    (hcall : ∀ {u c o}, P u → allowed c → Returns u c o → P o.state) : P t := by
  induction hreaches with
  | refl => exact hstart
  | call _ hallowed hreturns ih => exact hcall ih hallowed hreturns

/-! ## Runs keep what steps keep -/

theorem after_preserves {P : Simulation → Prop} (hstep : ∀ {u}, P u → P u.step.state)
    {s : Simulation} (h : P s) (k : Nat) : P (s.after k) := by
  induction k with
  | zero => exact h
  | succ k ih =>
      rw [after_succ_last]
      exact hstep ih

/-- A run that ends leaves what some number of executed steps leave. -/
theorem EndsIn.exists_state_eq {s : Simulation} {o : Outcome Nat} (h : s.EndsIn o) :
    ∃ k, s.Executes k ∧ o.state = s.after k := by
  obtain ⟨k, hexecutes, ⟨-, rfl⟩ | ⟨fault, -, rfl⟩⟩ := h.exists_eq
  · exact ⟨k, hexecutes, rfl⟩
  · exact ⟨k, hexecutes, rfl⟩

/-- A property that every step keeps is kept by every step and every run. -/
theorem Returns.preserves_of_executing {P : Simulation → Prop}
    (hstep : ∀ {u}, P u → P u.step.state) {s : Simulation} {c : Call} {o : Outcome Answer}
    (hreturns : Returns s c o) (hexecuting : c.Executing) (h : P s) : P o.state := by
  cases hreturns with
  | step => exact hstep h
  | run hends =>
      obtain ⟨k, _, hstate⟩ := hends.exists_state_eq
      show P _
      rw [Outcome.map, hstate]
      exact after_preserves hstep h k
  | runFor bound =>
      obtain ⟨k, hk⟩ := s.exists_stopsAfter bound
      rw [Outcome.map, runFor_state hk]
      exact after_preserves hstep h k
  | _ => exact hexecuting.elim

/-- A call that loads lines leaves what the load of these lines leaves. -/
theorem Returns.state_eq_load {s : Simulation} {c : Call} {o : Outcome Answer}
    {lines : List String} (hreturns : Returns s c o) (hlines : c.lines? = some lines) :
    o.state = (s.load lines).state := by
  cases hreturns with
  | load | loadSource =>
      obtain rfl := Option.some.inj hlines
      rfl
  | _ => cases hlines

/-- A value that is written by name is written to the register of that name. -/
theorem setRegister_eq_ok_iff {s t : Simulation} {name : String} {value : Int64} :
    s.setRegister name value = .ok t ↔
      ∃ r, Register.ofName name = .ok r ∧ s.withRegister r value = t := by
  rw [Simulation.setRegister, Bank.writeNamed]
  cases Register.ofName name with
  | error fault => simp
  | ok r => simp [withRegister, Machine.change]

/-- Only a name that no register has is refused. -/
theorem setRegister_eq_error_iff {s : Simulation} {name : String} {value : Int64} {fault : Fault} :
    s.setRegister name value = .error fault ↔ Register.ofName name = .error fault := by
  rw [Simulation.setRegister, Bank.writeNamed]
  cases Register.ofName name with
  | error fault' => simp
  | ok r => simp

theorem exists_eq_withRegister {s t : Simulation} {name : String} {value : Int64}
    (h : s.setRegister name value = .ok t) : ∃ r, t = s.withRegister r value := by
  obtain ⟨r, -, rfl⟩ := setRegister_eq_ok_iff.mp h
  exact ⟨r, rfl⟩

/-- A call that executes nothing changes the machine at most, or it starts over with some
program. -/
theorem Returns.of_not_executing {s : Simulation} {c : Call} {o : Outcome Answer}
    (hreturns : Returns s c o) (hexecuting : ¬c.Executing) :
    (∃ machine, o.state = { s with machine }) ∨
      ∃ program, o.state = { s.cleared with program } := by
  cases hreturns with
  | load lines => exact Or.inr ⟨.assemble lines, rfl⟩
  | loadSource source => exact Or.inr ⟨.assemble (Program.sourceLines source), rfl⟩
  | reset => exact Or.inr ⟨∅, rfl⟩
  | setRegister r value => exact Or.inl ⟨s.machine.change (some (.register r value)), rfl⟩
  | @setNamed name value t hset =>
      obtain ⟨r, rfl⟩ := exists_eq_withRegister hset
      exact Or.inl ⟨s.machine.change (some (.register r value)), rfl⟩
  | setNamedRefused => exact Or.inl ⟨s.machine, rfl⟩
  | setMemory address value => exact Or.inl ⟨s.machine.change (some (.memory address value)), rfl⟩
  | setCounter pc => exact Or.inl ⟨{ s.machine with pc }, rfl⟩
  | step => exact absurd trivial hexecuting
  | run => exact absurd trivial hexecuting
  | runFor => exact absurd trivial hexecuting

/-- A direct write changes registers or memory at most. -/
theorem Returns.exists_change_of_writing {s : Simulation} {c : Call} {o : Outcome Answer}
    (hreturns : Returns s c o) (hwriting : c.Writing) :
    ∃ w, o.state = { s with machine := s.machine.change w } := by
  cases hreturns with
  | setRegister r value => exact ⟨some (.register r value), rfl⟩
  | @setNamed name value t hset =>
      obtain ⟨r, rfl⟩ := exists_eq_withRegister hset
      exact ⟨some (.register r value), rfl⟩
  | setNamedRefused => exact ⟨none, rfl⟩
  | setMemory address value => exact ⟨some (.memory address value), rfl⟩
  | _ => exact hwriting.elim

end Simulation

end MipsMachine
