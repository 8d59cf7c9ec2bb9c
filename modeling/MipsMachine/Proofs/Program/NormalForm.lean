import Mathlib.Data.List.Forall2
import MipsMachine.Proofs.Program

set_option autoImplicit false

/-!
# Normal form of instructions

The instructions of an assembled program are in normal form: not empty, without blanks at their
ends and without a comment.  `Contributes` says of the text of a line which instruction stands
in it; there is one at most, and the program is the row of these.  A text in normal form that
is no directive and holds no colon says itself when it stands on a line, so a program of such
instructions is made again of its own instructions (`assemble_instructions_eq_iff`).
-/

namespace MipsMachine

namespace Statement

open Text

/-- No blanks at the ends, no comment, and not empty. -/
structure IsNormal (text : String) : Prop where
  ne_empty : text ≠ ""
  trimmed : IsTrimmed text.toList
  uncommented : commentMark ∉ text.toList

/-- The instruction stands in the line: the line is no directive, and the instruction is what
stands behind the first colon of its code, without blanks at its ends, or all of the code if
there is no colon. -/
def Contributes (line text : String) : Prop :=
  ¬IsDirective line ∧ text ≠ "" ∧
    (labelMark ∉ stripped line.toList ∧ text.toList = stripped line.toList ∨
      ∃ name behind, stripped line.toList = name ++ labelMark :: behind ∧ labelMark ∉ name ∧
        text.toList = trim behind)

theorem contributes_iff_of_not_mem {line text : String} (hdirective : ¬IsDirective line)
    (hmark : labelMark ∉ stripped line.toList) :
    Contributes line text ↔ text ≠ "" ∧ text.toList = stripped line.toList := by
  constructor
  · rintro ⟨-, hne, ⟨-, htext⟩ | ⟨name, behind, hcode, -⟩⟩
    · exact ⟨hne, htext⟩
    · exact absurd (hcode ▸ List.mem_append_right name List.mem_cons_self) hmark
  · rintro ⟨hne, htext⟩
    exact ⟨hdirective, hne, Or.inl ⟨hmark, htext⟩⟩

/-- What stands behind the first colon can be told from the code. -/
theorem contributes_iff_of_eq_append {line text : String} {name behind : List Char}
    (hdirective : ¬IsDirective line) (hcode : stripped line.toList = name ++ labelMark :: behind)
    (hmark : labelMark ∉ name) :
    Contributes line text ↔ text ≠ "" ∧ text.toList = trim behind := by
  constructor
  · rintro ⟨-, hne, ⟨hnot, -⟩ | ⟨name', behind', hcode', hmark', htext⟩⟩
    · exact absurd (hcode ▸ List.mem_append_right name List.mem_cons_self) hnot
    · have hcut : some (name, behind) = some (name', behind') := by
        rw [← cutAt_append_cons hmark, ← cutAt_append_cons hmark', ← hcode, hcode']
      rw [(Prod.mk.inj (Option.some.inj hcut)).2]
      exact ⟨hne, htext⟩
  · rintro ⟨hne, htext⟩
    exact ⟨hdirective, hne, Or.inr ⟨name, behind, hcode, hmark, htext⟩⟩

/-- A text that is made of characters is the one with these characters, and it is not empty if
there are any. -/
theorem ofList_eq_iff {cs : List Char} (hne : cs ≠ []) {text : String} :
    String.ofList cs = text ↔ text ≠ "" ∧ text.toList = cs := by
  constructor
  · rintro rfl
    refine ⟨fun hempty => hne ?_, String.toList_ofList⟩
    rw [← String.toList_ofList (l := cs), hempty]
    rfl
  · rintro ⟨-, rfl⟩
    exact String.ofList_toList

/-- The instruction of a statement is the one that stands in its line. -/
theorem instruction?_ofLine_eq_some_iff {line text : String} :
    (ofLine line).instruction? = some text ↔ Contributes line text := by
  have hreading := reading (stripped line.toList)
  rw [ofLine]
  generalize ofStripped (stripped line.toList) = s at hreading
  cases hreading with
  | blank hcode =>
      have hdirective : ¬IsDirective line := by
        rw [IsDirective, hcode]
        decide
      rw [contributes_iff_of_not_mem hdirective (hcode ▸ List.not_mem_nil), hcode,
        String.toList_eq_nil_iff]
      simp [instruction?]
  | directive hdirective => simp [instruction?_ofDirective, Contributes, IsDirective, hdirective]
  | instruction hne hdirective hmark =>
      rw [contributes_iff_of_not_mem hdirective hmark, instruction?, Option.some.injEq,
        ofList_eq_iff hne]
  | label hdirective hcode hmark hbehind =>
      rw [contributes_iff_of_eq_append hdirective hcode hmark, hbehind, String.toList_eq_nil_iff]
      simp [instruction?]
  | labelled hdirective hcode hmark hbehind =>
      rw [contributes_iff_of_eq_append hdirective hcode hmark, instruction?, Option.some.injEq,
        ofList_eq_iff hbehind]

theorem Contributes.isNormal {line text : String} (h : Contributes line text) : IsNormal text where
  ne_empty := h.2.1
  trimmed := by
    obtain ⟨-, -, ⟨-, htext⟩ | ⟨name, behind, -, -, htext⟩⟩ := h
    · rw [htext, stripped_eq]
      exact isTrimmed_trim _
    · rw [htext]
      exact isTrimmed_trim behind
  uncommented := commentMark_not_mem_of_instruction? (instruction?_ofLine_eq_some_iff.mpr h)

/-! ## Lines in normal form -/

/-- The code of a line in normal form is all of it. -/
theorem IsNormal.stripped_eq {text : String} (h : IsNormal text) :
    stripped text.toList = text.toList := by
  rw [Statement.stripped_eq, uncommented_of_not_mem h.uncommented, h.trimmed.trim_eq]

/-- The line says itself: it holds no colon and does not start as a directive does. -/
def IsPlain (text : String) : Prop := labelMark ∉ text.toList ∧ ¬directiveMark <+: text.toList

instance (text : String) : Decidable (IsPlain text) := inferInstanceAs (Decidable (_ ∧ _))

theorem IsNormal.ofLine_eq {text : String} (h : IsNormal text) (hplain : IsPlain text) :
    ofLine text = .instruction text := by
  have hne : text.toList ≠ [] := fun hnil => h.ne_empty (String.toList_eq_nil_iff.mp hnil)
  rw [ofLine, h.stripped_eq, ofStripped_of_not_mem hne hplain.2 hplain.1, String.ofList_toList]

/-- A line in normal form that does not say itself defines a label, or it contributes nothing. -/
theorem IsNormal.defines_or {text : String} (h : IsNormal text) (hplain : ¬IsPlain text) :
    (∃ name, Defines text name) ∨ (ofLine text).instruction? = none := by
  by_cases hdirective : IsDirective text
  · rw [ofLine_of_isDirective hdirective, instruction?_ofDirective]
    exact Or.inr rfl
  · have hmark : labelMark ∈ text.toList := by
      by_contra hmark
      exact hplain ⟨hmark, h.stripped_eq ▸ hdirective⟩
    obtain ⟨name, behind, hcode, hname⟩ := List.eq_append_cons_of_mem hmark
    exact Or.inl ⟨_, hdirective, name, behind, h.stripped_eq.trans hcode, hname, rfl⟩

end Statement

namespace Program

/-- Each line has its part in the instructions: the one that stands in it, or nothing. -/
theorem exists_parts (lines : List String) :
    ∃ parts : List (List String),
      List.Forall₂ (fun line part =>
        part.length ≤ 1 ∧ ∀ text, text ∈ part ↔ Statement.Contributes line text) lines parts ∧
      contributed lines = parts.flatten := by
  refine ⟨lines.map fun line => (Statement.ofLine line).instruction?.toList, ?_, ?_⟩
  · rw [List.forall₂_map_right_iff, List.forall₂_same]
    intro line _
    refine ⟨?_, fun text => ?_⟩
    · cases (Statement.ofLine line).instruction? <;> simp
    · rw [Option.mem_toList, Statement.instruction?_ofLine_eq_some_iff]
  · rw [contributed, List.filterMap_eq_flatMap_toList, List.flatMap_def]

theorem isNormal_of_mem_contributed {lines : List String} {text : String}
    (h : text ∈ contributed lines) :
    Statement.IsNormal text := by
  obtain ⟨line, -, htext⟩ := List.mem_filterMap.mp h
  exact (Statement.instruction?_ofLine_eq_some_iff.mp htext).isNormal

/-- Lines that say themselves make the program of these instructions, without labels and string
constants. -/
theorem assemble_of_forall_instruction {texts : List String}
    (h : ∀ text ∈ texts, Statement.ofLine text = .instruction text) :
    assemble texts = ⟨texts.toArray, ∅, ∅⟩ := by
  induction texts using List.reverseRecOn with
  | nil => rfl
  | append_singleton texts text ih =>
      obtain ⟨htexts, htext⟩ := List.forall_mem_append.mp h
      rw [assemble_append_eq_foldl, ih htexts, List.map_singleton, htext text List.mem_cons_self]
      simp [add]

/-- The instructions of a program make the program again exactly if none of them is a directive
or holds a colon. -/
theorem assemble_instructions_eq_iff {texts : List String}
    (h : ∀ text ∈ texts, Statement.IsNormal text) :
    assemble texts = ⟨texts.toArray, ∅, ∅⟩ ↔ ∀ text ∈ texts, Statement.IsPlain text := by
  constructor
  · intro hassemble text htext
    by_contra hplain
    rcases (h text htext).defines_or hplain with ⟨name, hdefines⟩ | hnone
    · have hlabel : (assemble texts).label? name = none := by
        rw [hassemble]
        rfl
      exact label?_assemble_eq_none_iff.mp hlabel text htext hdefines
    · -- a line that contributes nothing leaves fewer instructions than lines
      have hfewer : (contributed texts).length < texts.length :=
        List.length_filterMap_lt_length_iff_exists.mpr ⟨text, htext, hnone⟩
      rw [← size_assemble, hassemble] at hfewer
      simp [size] at hfewer
  · intro hplain
    exact assemble_of_forall_instruction fun text htext =>
      (h text htext).ofLine_eq (hplain text htext)

/-- The instructions of a program are in normal form.  They are what stands in its lines, in
order, and no line has more than one.  Assembled again they make a program of the same
instructions without labels and string constants exactly if none of them holds a colon or
starts as a directive does. -/
theorem instructions_are_normal (lines : List String) :
    let p := assemble lines
    (∀ text ∈ p.instructions.toList, Statement.IsNormal text) ∧
    (assemble p.instructions.toList = ⟨p.instructions, ∅, ∅⟩ ↔
      ∀ text ∈ p.instructions.toList, Statement.IsPlain text) ∧
    ∃ parts : List (List String),
      List.Forall₂ (fun line part =>
        part.length ≤ 1 ∧ ∀ text, text ∈ part ↔ Statement.Contributes line text) lines parts ∧
      p.instructions.toList = parts.flatten := by
  intro p
  have hp : p.instructions.toList = contributed lines := toList_instructions_assemble lines
  have hnormal : ∀ text ∈ p.instructions.toList, Statement.IsNormal text := by
    rw [hp]
    exact fun text => isNormal_of_mem_contributed
  refine ⟨hnormal, ?_, hp ▸ exists_parts lines⟩
  rw [← assemble_instructions_eq_iff hnormal, Array.toArray_toList]

/-- A label before an instruction, a label before nothing, a comment right behind an
instruction and a string constant; the second program has an instruction behind two labels,
which keeps the second one. -/
theorem instructions_are_normal_behind_labels :
    let lines := ["\ta: ADD $t0 $t0,$t1# :x", "b:", "  # none", ".data s x", "halt\u3000"]
    let p := assemble lines
    let q := assemble ["a: b: halt"]
    p.instructions = #["ADD $t0 $t0,$t1", "halt"] ∧ "halt" ∈ p.instructions.toList ∧
      Statement.IsNormal "halt" ∧
      (∀ text ∈ p.instructions.toList, Statement.IsPlain text) ∧
      assemble p.instructions.toList = ⟨p.instructions, ∅, ∅⟩ ∧
      "b: halt" ∈ q.instructions.toList ∧ ¬Statement.IsPlain "b: halt" ∧
      assemble q.instructions.toList ≠ ⟨q.instructions, ∅, ∅⟩ := by
  intro lines p q
  have hp : p.instructions = #["ADD $t0 $t0,$t1", "halt"] := by decide +kernel
  have hq : "b: halt" ∈ q.instructions.toList := by decide +kernel
  have hmem : "halt" ∈ p.instructions.toList := by
    rw [hp]
    decide
  have hplain : ∀ text ∈ p.instructions.toList, Statement.IsPlain text := by
    rw [hp]
    decide
  have hlabel : ¬Statement.IsPlain "b: halt" := by decide
  obtain ⟨hnormal, hagain, -⟩ := instructions_are_normal lines
  obtain ⟨-, hother, -⟩ := instructions_are_normal ["a: b: halt"]
  exact ⟨hp, hmem, hnormal "halt" hmem, hplain, hagain.mpr hplain, hq, hlabel,
    fun hsame => hlabel (hother.mp hsame "b: halt" hq)⟩

end Program

end MipsMachine
