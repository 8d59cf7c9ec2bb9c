import MipsMachine.Machine

set_option autoImplicit false

/-!
# The tally

How many instructions were executed since a program was loaded, in all and by class, and how
the branches among them went.
-/

namespace MipsMachine

/-- Counts of executed instructions. -/
structure Tally where
  /-- All instructions. -/
  retired : Nat := 0
  /-- Arithmetic, logic, shifts and comparisons. -/
  alu : Nat := 0
  /-- Loads. -/
  load : Nat := 0
  /-- Stores. -/
  store : Nat := 0
  /-- Branches. -/
  branch : Nat := 0
  /-- Instructions that print. -/
  output : Nat := 0
  /-- Ends of the program. -/
  halt : Nat := 0
  /-- Branches that went to their label. -/
  taken : Nat := 0
  /-- Branches that went on to the next instruction. -/
  notTaken : Nat := 0
  deriving DecidableEq, Repr, Inhabited

namespace Tally

/-- Count one more instruction of a class. -/
def countClass (t : Tally) : InstructionClass → Tally
  | .alu => { t with alu := t.alu + 1 }
  | .load => { t with load := t.load + 1 }
  | .store => { t with store := t.store + 1 }
  | .branch => { t with branch := t.branch + 1 }
  | .output => { t with output := t.output + 1 }
  | .halt => { t with halt := t.halt + 1 }

/-- Count which way a branch went; other instructions do not count here. -/
def countFlow (t : Tally) : InstructionClass → Flow → Tally
  | .branch, .jump _ => { t with taken := t.taken + 1 }
  | .branch, .next => { t with notTaken := t.notTaken + 1 }
  | _, _ => t

/-- Count one executed instruction. -/
def record (t : Tally) (c : InstructionClass) (flow : Flow) : Tally :=
  { (t.countClass c).countFlow c flow with retired := t.retired + 1 }

/-- The counts with the names under which they are shown, in order. -/
def counts (t : Tally) : List (String × Nat) :=
  [("instructions_retired", t.retired), ("inst_alu", t.alu), ("inst_load", t.load),
   ("inst_store", t.store), ("inst_branch", t.branch), ("inst_output", t.output),
   ("inst_halt", t.halt), ("branches_taken", t.taken), ("branches_not_taken", t.notTaken)]

/-- The sum of the counts by class. -/
def byClass (t : Tally) : Nat := t.alu + t.load + t.store + t.branch + t.output + t.halt

@[simp] theorem retired_record (t : Tally) (c : InstructionClass) (flow : Flow) :
    (t.record c flow).retired = t.retired + 1 := rfl

theorem byClass_record (t : Tally) (c : InstructionClass) (flow : Flow) :
    (t.record c flow).byClass = t.byClass + 1 := by
  cases c <;> cases flow <;> simp [record, countClass, countFlow, byClass] <;> omega

theorem taken_add_notTaken_record (t : Tally) (c : InstructionClass) (flow : Flow) :
    (t.record c flow).taken + (t.record c flow).notTaken
      = t.taken + t.notTaken + if c = .branch then 1 else 0 := by
  cases c <;> cases flow <;> simp [record, countClass, countFlow] <;> omega

theorem branch_record (t : Tally) (c : InstructionClass) (flow : Flow) :
    (t.record c flow).branch = t.branch + if c = .branch then 1 else 0 := by
  cases c <;> cases flow <;> simp [record, countClass, countFlow]

end Tally

end MipsMachine
