import MipsMachine.Program
import MipsMachine.Proofs.Program.Statement

set_option autoImplicit false

/-!
# Assembled programs

Facts about the program that source lines make, each carried from line to line: a line adds one
instruction at most, and a label is bound to an index that later lines can only leave further
behind.  The instructions are what the lines contribute, in order
(`toList_instructions_assemble`), and a label stands before what the lines contribute from its
last definition on (`label?_assemble_of_last`).  Two texts can be assembled apart and put
together (`assemble_append`).  A string constant has the text that the last line for it gives
(`string?_assemble_eq_some_iff`), and directives matter for nothing else
(`assemble_of_isDirective`).
-/

namespace MipsMachine.Program

/-- Every label stands for the index of an instruction or for the end of the program. -/
def LabelsInRange (p : Program) : Prop :=
  ∀ name target, p.label? name = some target → target ≤ p.size

theorem LabelsInRange.add {p : Program} (h : p.LabelsInRange) (s : Statement) :
    (p.add s).LabelsInRange := by
  intro name target htarget
  rw [label?_add] at htarget
  rw [size_add]
  split at htarget
  · obtain rfl := Option.some.inj htarget
    exact Nat.le_add_right p.size _
  · exact Nat.le_trans (h name target htarget) (Nat.le_add_right p.size _)

theorem LabelsInRange.foldl_add {p : Program} (h : p.LabelsInRange) (ss : List Statement) :
    (ss.foldl Program.add p).LabelsInRange := by
  induction ss generalizing p with
  | nil => exact h
  | cons s ss ih => exact ih (h.add s)

theorem labelsInRange_assemble (lines : List String) : (assemble lines).LabelsInRange := by
  have hempty : empty.LabelsInRange := by
    intro name target htarget
    cases htarget
  exact hempty.foldl_add _

theorem size_foldl_add_le (p : Program) (ss : List Statement) :
    (ss.foldl add p).size ≤ p.size + ss.length := by
  induction ss generalizing p with
  | nil => exact Nat.le_refl _
  | cons s ss ih =>
      have hstatement : s.instruction?.toList.length ≤ 1 := by
        cases s.instruction? <;> simp
      calc (ss.foldl add (p.add s)).size
          ≤ (p.add s).size + ss.length := ih (p.add s)
        _ = p.size + s.instruction?.toList.length + ss.length := by rw [size_add]
        _ ≤ p.size + (s :: ss).length := by rw [List.length_cons]; omega

/-- A program has no more instructions than source lines. -/
theorem size_assemble_le (lines : List String) : (assemble lines).size ≤ lines.length := by
  have h := size_foldl_add_le empty (lines.map Statement.ofLine)
  simpa [assemble, size, empty] using h

/-! ## Contributions -/

/-- The instruction texts that lines contribute, in order. -/
def contributed (lines : List String) : List String :=
  lines.filterMap fun line => (Statement.ofLine line).instruction?

theorem contributed_append (before rest : List String) :
    contributed (before ++ rest) = contributed before ++ contributed rest :=
  List.filterMap_append

theorem toList_instructions_foldl_add (p : Program) (ss : List Statement) :
    (ss.foldl add p).instructions.toList =
      p.instructions.toList ++ ss.filterMap Statement.instruction? := by
  induction ss generalizing p with
  | nil => simp
  | cons s ss ih =>
      rw [List.foldl_cons, ih, toList_instructions_add, List.append_assoc, List.filterMap_cons]
      cases s.instruction? <;> rfl

theorem size_foldl_add_eq_length (p : Program) (ss : List Statement) :
    (ss.foldl add p).size = p.size + (ss.filterMap Statement.instruction?).length := by
  have h := congrArg List.length (toList_instructions_foldl_add p ss)
  rwa [List.length_append, Array.length_toList, Array.length_toList] at h

theorem toList_instructions_assemble (lines : List String) :
    (assemble lines).instructions.toList = contributed lines := by
  rw [assemble, toList_instructions_foldl_add, List.filterMap_map]
  rfl

theorem size_assemble (lines : List String) :
    (assemble lines).size = (contributed lines).length := by
  rw [← toList_instructions_assemble]
  rfl

/-- Behind the instructions of the first lines stands the first one that the other lines
contribute. -/
theorem instruction?_assemble_append (before rest : List String) :
    (assemble (before ++ rest)).instruction? (contributed before).length =
      (contributed rest).head? := by
  rw [instruction?, ← Array.getElem?_toList, toList_instructions_assemble, contributed_append,
    List.getElem?_append_right (Nat.le_refl _), Nat.sub_self, List.head?_eq_getElem?]

/-! ## Labels -/

theorem label?_foldl_add_of_forall_ne {p : Program} {name : String} {ss : List Statement}
    (h : ∀ s ∈ ss, s.label? ≠ some name) : (ss.foldl add p).label? name = p.label? name := by
  induction ss generalizing p with
  | nil => rfl
  | cons s ss ih =>
      rw [List.foldl_cons, ih fun t ht => h t (List.mem_cons_of_mem s ht), label?_add,
        if_neg (h s List.mem_cons_self)]

theorem label?_ne_of_not_defines {name : String} {lines : List String}
    (h : ∀ line ∈ lines, ¬Statement.Defines line name) :
    ∀ s ∈ lines.map Statement.ofLine, s.label? ≠ some name := by
  intro s hs
  obtain ⟨line, hline, rfl⟩ := List.mem_map.mp hs
  exact fun hlabel => h line hline (Statement.label?_ofLine_eq_some_iff.mp hlabel)

/-- A label is bound to the number of instructions before the last line that defines it. -/
theorem label?_assemble_of_last {name line : String} {before behind : List String}
    (hline : Statement.Defines line name) (hbehind : ∀ l ∈ behind, ¬Statement.Defines l name) :
    (assemble (before ++ line :: behind)).label? name = some (contributed before).length := by
  rw [assemble, List.map_append, List.map_cons, List.foldl_append, List.foldl_cons,
    label?_foldl_add_of_forall_ne (label?_ne_of_not_defines hbehind), label?_add,
    if_pos (Statement.label?_ofLine_eq_some_iff.mpr hline), ← size_assemble]
  rfl

/-- Among lines that define a label there is a last one. -/
theorem exists_last_definition {name : String} {lines : List String}
    (h : ∃ line ∈ lines, Statement.Defines line name) :
    ∃ before line behind, lines = before ++ line :: behind ∧ Statement.Defines line name ∧
      ∀ l ∈ behind, ¬Statement.Defines l name := by
  induction lines with
  | nil => simp at h
  | cons first lines ih =>
      by_cases hlater : ∃ line ∈ lines, Statement.Defines line name
      · obtain ⟨before, line, behind, rfl, hline, hbehind⟩ := ih hlater
        exact ⟨first :: before, line, behind, rfl, hline, hbehind⟩
      · have hnone : ∀ l ∈ lines, ¬Statement.Defines l name := fun l hl hdefines =>
          hlater ⟨l, hl, hdefines⟩
        obtain ⟨line, hline, hdefines⟩ := h
        rcases List.mem_cons.mp hline with rfl | hmem
        · exact ⟨[], line, lines, rfl, hdefines, hnone⟩
        · exact absurd hdefines (hnone line hmem)

theorem label?_assemble_eq_none_iff {name : String} {lines : List String} :
    (assemble lines).label? name = none ↔ ∀ line ∈ lines, ¬Statement.Defines line name := by
  constructor
  · intro hnone line hline hdefines
    obtain ⟨before, last, behind, rfl, hlast, hbehind⟩ :=
      exists_last_definition ⟨line, hline, hdefines⟩
    rw [label?_assemble_of_last hlast hbehind] at hnone
    cases hnone
  · intro h
    exact label?_foldl_add_of_forall_ne (label?_ne_of_not_defines h)

/-! ## Two parts -/

/-- Statements add to any program what they add to the empty one. -/
theorem size_foldl_add (p : Program) (ss : List Statement) :
    (ss.foldl add p).size = p.size + (ss.foldl add empty).size := by
  rw [size_foldl_add_eq_length p, size_foldl_add_eq_length empty]
  simp [size, empty]

/-- A label that statements define is moved behind the instructions before them. -/
theorem label?_foldl_add (p : Program) (ss : List Statement) (name : String) :
    (ss.foldl add p).label? name =
      (((ss.foldl add empty).label? name).map (· + p.size)).or (p.label? name) := by
  induction ss using List.reverseRecOn with
  | nil => rfl
  | append_singleton ss s ih =>
      rw [List.foldl_concat, List.foldl_concat, label?_add, label?_add, size_foldl_add, ih]
      split
      · rw [Option.map_some, Option.some_or, Nat.add_comm]
      · rfl

theorem string?_foldl_add (p : Program) (ss : List Statement) (name : String) :
    (ss.foldl add p).string? name = ((ss.foldl add empty).string? name).or (p.string? name) := by
  induction ss using List.reverseRecOn with
  | nil => rfl
  | append_singleton ss s ih =>
      rw [List.foldl_concat, List.foldl_concat, string?_add, string?_add, ih, Option.or_assoc]

theorem assemble_append_eq_foldl (xs ys : List String) :
    assemble (xs ++ ys) = (ys.map Statement.ofLine).foldl add (assemble xs) := by
  rw [assemble, List.map_append, List.foldl_append]
  rfl

/-- The lines of two texts, one after the other, make the instructions of the first and then
those of the second.  A label that the second text defines stands as far behind the
instructions of the first as it stands from the beginning in the second alone, and every other
label stands where it stands in the first.  String constants of the second text take the place
of those of the first. -/
theorem assemble_append (xs ys : List String) :
    (assemble (xs ++ ys)).instructions = (assemble xs).instructions ++ (assemble ys).instructions ∧
    (∀ name, (assemble (xs ++ ys)).label? name =
      match (assemble ys).label? name with
      | some index => some (index + (assemble xs).size)
      | none => (assemble xs).label? name) ∧
    (∀ name, (assemble (xs ++ ys)).string? name =
      match (assemble ys).string? name with
      | some text => some text
      | none => (assemble xs).string? name) := by
  refine ⟨?_, ?_, ?_⟩
  · rw [← Array.toList_inj, Array.toList_append, toList_instructions_assemble,
      toList_instructions_assemble, toList_instructions_assemble, contributed_append]
  · intro name
    rw [assemble_append_eq_foldl, label?_foldl_add, ← assemble]
    cases (assemble ys).label? name <;> rfl
  · intro name
    rw [assemble_append_eq_foldl, string?_foldl_add, ← assemble]
    cases (assemble ys).string? name <;> rfl

/-! ## String constants -/

/-- Some line gives the text to the constant, and no line behind it gives it another one. -/
def LastGives (lines : List String) (name text : String) : Prop :=
  ∃ before line behind, lines = before ++ line :: behind ∧ Statement.Gives line name text ∧
    ∀ l ∈ behind, ∀ other, ¬Statement.Gives l name other

theorem constant?_ofLine_eq_none_iff {line name : String} :
    (Statement.ofLine line).constant? name = none ↔ ∀ text, ¬Statement.Gives line name text := by
  rw [Option.eq_none_iff_forall_ne_some]
  exact forall_congr' fun text => not_congr Statement.constant?_ofLine_eq_some_iff

theorem string?_assemble (lines : List String) (name : String) :
    (assemble lines).string? name =
      lines.reverse.findSome? fun line => (Statement.ofLine line).constant? name := by
  induction lines using List.reverseRecOn with
  | nil => rfl
  | append_singleton lines line ih =>
      rw [assemble_append_eq_foldl, List.map_singleton, List.foldl_cons, List.foldl_nil,
        string?_add, ih, List.reverse_append, List.reverse_singleton, List.singleton_append,
        List.findSome?_cons]
      cases (Statement.ofLine line).constant? name <;> rfl

theorem string?_assemble_eq_none_iff {lines : List String} {name : String} :
    (assemble lines).string? name = none ↔
      ∀ line ∈ lines, ∀ text, ¬Statement.Gives line name text := by
  simp only [string?_assemble, List.findSome?_eq_none_iff, List.mem_reverse,
    constant?_ofLine_eq_none_iff]

theorem string?_assemble_eq_some_iff {lines : List String} {name text : String} :
    (assemble lines).string? name = some text ↔ LastGives lines name text := by
  rw [string?_assemble, List.findSome?_eq_some_iff]
  simp only [Statement.constant?_ofLine_eq_some_iff, constant?_ofLine_eq_none_iff]
  constructor
  · rintro ⟨behind, line, before, hlines, hgives, hbehind⟩
    refine ⟨before.reverse, line, behind.reverse, ?_, hgives,
      fun l hl => hbehind l (List.mem_reverse.mp hl)⟩
    simpa using congrArg List.reverse hlines
  · rintro ⟨before, line, behind, rfl, hgives, hbehind⟩
    exact ⟨behind.reverse, line, before.reverse,
      by simp, hgives, fun l hl => hbehind l (List.mem_reverse.mp hl)⟩

/-! ## Directives -/

/-- Instructions and labels of a program go on by themselves, whatever its string constants are. -/
theorem foldl_add_congr {p q : Program} (hinstructions : p.instructions = q.instructions)
    (hlabels : p.labels = q.labels) (ss : List Statement) :
    (ss.foldl add p).instructions = (ss.foldl add q).instructions ∧
      (ss.foldl add p).labels = (ss.foldl add q).labels := by
  induction ss generalizing p q with
  | nil => exact ⟨hinstructions, hlabels⟩
  | cons s ss ih =>
      apply ih
      · cases s <;> simp [add, hinstructions]
      · cases s <;> simp [add, size, hinstructions, hlabels]

theorem assemble_append_cons (before : List String) (line : String) (behind : List String) :
    assemble (before ++ line :: behind) =
      (behind.map Statement.ofLine).foldl add ((assemble before).add (Statement.ofLine line)) := by
  rw [assemble_append_eq_foldl]
  rfl

/-- A directive with too few words says nothing. -/
theorem assemble_of_isIncomplete {line : String} (h : Statement.IsIncomplete line)
    (before behind : List String) :
    assemble (before ++ line :: behind) = assemble (before ++ behind) := by
  rw [assemble_append_cons, Statement.ofLine_of_isIncomplete h, assemble_append_eq_foldl]
  rfl

theorem add_of_isDirective {line : String} (h : Statement.IsDirective line) (p : Program) :
    (p.add (Statement.ofLine line)).instructions = p.instructions ∧
      (p.add (Statement.ofLine line)).labels = p.labels := by
  rw [Statement.ofLine_of_isDirective h]
  rcases Statement.ofDirective_cases (Statement.stripped line.toList) with ⟨_, _, hcode⟩ | hcode
  · rw [hcode]
    exact ⟨rfl, rfl⟩
  · rw [hcode]
    exact ⟨rfl, rfl⟩

/-- A directive says nothing about instructions and labels. -/
theorem assemble_of_isDirective {line : String} (h : Statement.IsDirective line)
    (before behind : List String) :
    (assemble (before ++ line :: behind)).instructions =
      (assemble (before ++ behind)).instructions ∧
      (assemble (before ++ line :: behind)).labels = (assemble (before ++ behind)).labels := by
  obtain ⟨hinstructions, hlabels⟩ := add_of_isDirective h (assemble before)
  rw [assemble_append_cons, assemble_append_eq_foldl]
  exact foldl_add_congr hinstructions hlabels _

end MipsMachine.Program
