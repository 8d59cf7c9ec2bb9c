import MipsMachine.Tally.Report

set_option autoImplicit false

/-!
# The counts of the classes

A tally counts the instructions of each class (`ofClass_record`), and it shows these counts
under the names of the classes: in the snapshot (`counts_eq`, `lookup_counts`) and in the
instruction mix of the report (`sectionLines_instructionMix`).
-/

namespace MipsMachine.Tally

/-- The count of a class. -/
def ofClass (t : Tally) : InstructionClass → Nat
  | .alu => t.alu
  | .load => t.load
  | .store => t.store
  | .branch => t.branch
  | .output => t.output
  | .halt => t.halt

theorem ofClass_record (t : Tally) (c d : InstructionClass) (flow : Flow) :
    (t.record c flow).ofClass d = t.ofClass d + if c = d then 1 else 0 := by
  cases c <;> cases flow <;> cases d <;> rfl

/-! ## What is shown -/

/-- The name under which the count of a class is shown. -/
def countName (name : String) : String := "inst_" ++ name

theorem countName_inj {a b : String} : countName a = countName b ↔ a = b := by
  rw [countName, countName, String.append_right_inj]

/-- Between the count of all instructions and the counts of the branches, every class has its
count. -/
theorem counts_eq (t : Tally) :
    t.counts =
      [("instructions_retired", t.retired)] ++
        InstructionClass.all.map (fun c => (countName c.name, t.ofClass c)) ++
        [("branches_taken", t.taken), ("branches_not_taken", t.notTaken)] := rfl

theorem countName_beq_of_front_ne {name other : String}
    (h : other.toList.take 5 ≠ "inst_".toList) :
    (countName name == other) = false := by
  refine beq_eq_false_iff_ne.mpr fun heq => h ?_
  rw [← heq, countName, String.toList_append]
  rfl

theorem lookup_map_countName (f : InstructionClass → Nat) (name : String)
    (cs : List InstructionClass) :
    (cs.map fun c => (countName c.name, f c)).lookup (countName name) =
      (cs.find? fun c => c.name == name).map f := by
  induction cs with
  | nil => rfl
  | cons c cs ih =>
      rw [List.map_cons, List.lookup_cons, List.find?_cons]
      by_cases h : c.name = name
      · simp [h]
      · have hne : (countName name == countName c.name) = false :=
          beq_eq_false_iff_ne.mpr fun heq => h (countName_inj.mp heq).symm
        have hother : (c.name == name) = false := beq_eq_false_iff_ne.mpr h
        simp only [hne, hother, ih]

/-- The count under the name of a class is that of the class, and no other name has a count
there. -/
theorem lookup_counts (t : Tally) (name : String) :
    t.counts.lookup (countName name) = (InstructionClass.ofName? name).map t.ofClass := by
  have hretired : (countName name == "instructions_retired") = false :=
    countName_beq_of_front_ne (by decide)
  have htaken : (countName name == "branches_taken") = false :=
    countName_beq_of_front_ne (by decide)
  have hnotTaken : (countName name == "branches_not_taken") = false :=
    countName_beq_of_front_ne (by decide)
  rw [counts_eq, List.lookup_append, List.lookup_append, lookup_map_countName]
  simp only [List.lookup_cons, List.lookup_nil, hretired, htaken, hnotTaken, Option.none_or,
    Option.or_none]
  rfl

/-- Each class has a row in the instruction mix. -/
theorem sectionLines_instructionMix (t : Tally) :
    t.sectionLines .instructionMix =
      ["INSTRUCTION MIX"] ++
        InstructionClass.all.map (fun c => t.shareRow ("op." ++ c.name) (t.ofClass c))
        ++ [lightRule] := rfl

end MipsMachine.Tally
