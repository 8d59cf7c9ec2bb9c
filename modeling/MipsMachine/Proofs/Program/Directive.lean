import Mathlib.Data.List.Forall2
import Mathlib.Logic.ExistsUnique
import MipsMachine.Proofs.Program

set_option autoImplicit false

/-!
# Words that start like a directive

A line is meant as a directive if its first word is `.data`, and any other line says what
stands in it: a label before its first colon, and an instruction.  `Means` is this rule.
Assembly looks at the first characters of a line instead of its first word, so a first word
that only starts like a directive is misread, and the label and the instruction of its line are
lost.  On all other lines assembly follows the rule.  So the program of a text is the one that
its lines say exactly if none of them is misread (`meant_assemble_iff_not_misread`).
-/

namespace MipsMachine

open Text

namespace Statement

/-! ## What a line says -/

/-- The first word of the line is the mark of directives. -/
def HasDirectiveWord (line : String) : Prop := ∃ ws, HasWords line (directiveMark :: ws)

/-- The line says this: its first word tells whether it is a directive, else a colon tells
whether it has a label. -/
inductive Means (line : String) : Statement → Prop
  | blank (hcode : stripped line.toList = []) : Means line .blank
  | constant {name : String} {rest : List (List Char)}
      (hwords : HasWords line (directiveMark :: name.toList :: rest)) (hrest : rest ≠ []) :
      Means line (.constant name
        (String.ofList (([' '].intercalate rest).filter fun c => c != quotationMark)))
  | incomplete {ws : List (List Char)} (hwords : HasWords line (directiveMark :: ws))
      (hfew : ws.length < 2) :
      Means line (.incomplete (String.ofList (stripped line.toList)))
  | instruction (hword : ¬HasDirectiveWord line) (hne : stripped line.toList ≠ [])
      (hmark : labelMark ∉ stripped line.toList) :
      Means line (.instruction (String.ofList (stripped line.toList)))
  | label {name behind : List Char} (hword : ¬HasDirectiveWord line)
      (hcode : stripped line.toList = name ++ labelMark :: behind) (hmark : labelMark ∉ name)
      (hbehind : trim behind = []) : Means line (.label (String.ofList (trim name)))
  | labelled {name behind : List Char} (hword : ¬HasDirectiveWord line)
      (hcode : stripped line.toList = name ++ labelMark :: behind) (hmark : labelMark ∉ name)
      (hbehind : trim behind ≠ []) :
      Means line (.labelled (String.ofList (trim name)) (String.ofList (trim behind)))

/-- The line starts like a directive, but its first word goes on. -/
def Misread (line : String) : Prop := IsDirective line ∧ ¬HasDirectiveWord line

theorem hasDirectiveWord_iff {line : String} :
    HasDirectiveWord line ↔ (words (stripped line.toList)).head? = some directiveMark := by
  rw [HasDirectiveWord, List.head?_eq_some_iff]
  exact exists_congr fun ws => hasWords_iff

instance (line : String) : Decidable (HasDirectiveWord line) :=
  decidable_of_iff _ hasDirectiveWord_iff.symm

instance (line : String) : Decidable (Misread line) := inferInstanceAs (Decidable (_ ∧ _))

/-! ## The front of a line -/

theorem trimStart_stripped (line : List Char) : trimStart (stripped line) = stripped line := by
  rw [stripped_eq, trim_eq_trimStart_trimEnd, trimStart, trimStart, List.dropWhile_idempotent]

/-- The code of a line has no blanks in front, so its first word is where it starts. -/
theorem HasDirectiveWord.isDirective {line : String} (h : HasDirectiveWord line) :
    IsDirective line := by
  obtain ⟨ws, hwords⟩ := h
  have hfront := trimStart_stripped line.toList
  rw [IsDirective]
  unfold HasWords at hwords
  generalize stripped line.toList = code at hwords hfront
  cases hwords with
  | @word marks _ rest _ hmarks =>
      rw [List.append_assoc, trimStart, List.dropWhile_append_of_pos hmarks] at hfront
      rw [List.append_assoc, ← hfront]
      exact List.prefix_append directiveMark rest

theorem IsDirective.stripped_ne_nil {line : String} (h : IsDirective line) :
    stripped line.toList ≠ [] := by
  intro hnil
  rw [IsDirective, hnil] at h
  exact absurd (List.prefix_nil.mp h) (by decide)

/-- A label looks like a directive if its line does. -/
theorem directiveMark_prefix_trim_iff {line : String} {name behind : List Char}
    (hcode : stripped line.toList = name ++ labelMark :: behind) :
    directiveMark <+: trim name ↔ IsDirective line := by
  have hfront := trimStart_stripped line.toList
  rw [hcode, trimStart_append_cons isBlank_labelMark] at hfront
  have hname : trim name = trimEnd name := by
    rw [trim, List.append_cancel_right hfront]
  rw [IsDirective, hcode, directiveMark_prefix_append_cons, hname]
  constructor
  · exact fun h => h.trans (List.rdropWhile_prefix isBlank name)
  · rintro ⟨more, rfl⟩
    -- the last character of the mark is no blank, so trimming goes no further
    have hkept := trimEnd_append_cons (c := 'a') (by decide) ".dat".toList more
    exact ⟨trimEnd more, hkept.symm⟩

theorem not_prefix_of_defines {line name : String} (h : Defines line name) :
    ¬directiveMark <+: name.toList := by
  obtain ⟨hdirective, front, behind, hcode, -, rfl⟩ := h
  rw [String.toList_ofList, directiveMark_prefix_trim_iff hcode]
  exact hdirective

/-! ## Saying one thing -/

/-- What a line says, worked out from its first word. -/
def meant (line : String) : Statement :=
  if HasDirectiveWord line then ofDirective (stripped line.toList)
  else if stripped line.toList = [] then .blank
  else ofCode (stripped line.toList)

theorem means_meant (line : String) : Means line (meant line) := by
  unfold meant
  split
  next hword =>
    obtain ⟨ws, hwords⟩ := hword
    rw [ofDirective, hasWords_iff.mp hwords]
    rcases ws with _ | ⟨name, _ | ⟨w, ws⟩⟩
    · exact .incomplete hwords (by simp)
    · exact .incomplete hwords (by simp)
    · rw [← String.toList_ofList (l := name)] at hwords
      exact .constant hwords (List.cons_ne_nil w ws)
  next hword =>
    split
    next hcode => exact .blank hcode
    next hne =>
      by_cases hmark : labelMark ∈ stripped line.toList
      · obtain ⟨name, behind, hcode, hname⟩ := List.eq_append_cons_of_mem hmark
        rw [hcode, ofCode_append_cons hname]
        split
        next hbehind => exact .label hword hcode hname hbehind
        next hbehind => exact .labelled hword hcode hname hbehind
      · rw [ofCode_of_not_mem hmark]
        exact .instruction hword hne hmark

theorem Means.eq_meant {line : String} {s : Statement} (h : Means line s) : s = meant line := by
  cases h with
  | blank hcode =>
      have hword : ¬HasDirectiveWord line := fun hword => hword.isDirective.stripped_ne_nil hcode
      rw [meant, if_neg hword, if_pos hcode]
  | @constant name rest hwords hrest =>
      rw [meant, if_pos ⟨_, hwords⟩, ofDirective, hasWords_iff.mp hwords]
      cases rest with
      | nil => exact absurd rfl hrest
      | cons w ws => simp
  | @incomplete ws hwords hfew =>
      rw [meant, if_pos ⟨_, hwords⟩, ofDirective, hasWords_iff.mp hwords]
      rcases ws with _ | ⟨name, _ | ⟨w, ws⟩⟩
      · rfl
      · rfl
      · exact absurd hfew (by simp)
  | instruction hword hne hmark => rw [meant, if_neg hword, if_neg hne, ofCode_of_not_mem hmark]
  | label hword hcode hmark hbehind =>
      rw [meant, if_neg hword, hcode, if_neg (by simp), ofCode_append_cons hmark, if_pos hbehind]
  | labelled hword hcode hmark hbehind =>
      rw [meant, if_neg hword, hcode, if_neg (by simp), ofCode_append_cons hmark, if_neg hbehind]

theorem means_iff {line : String} {s : Statement} : Means line s ↔ meant line = s :=
  ⟨fun h => h.eq_meant.symm, fun h => h ▸ means_meant line⟩

/-! ## Misreading -/

theorem ofLine_of_not_misread {line : String} (h : ¬Misread line) : ofLine line = meant line := by
  rw [meant]
  split
  next hword => exact ofLine_of_isDirective hword.isDirective
  next hword =>
    have hdirective : ¬IsDirective line := fun hdirective => h ⟨hdirective, hword⟩
    split
    next hcode =>
      rw [ofLine, hcode]
      rfl
    next hne => exact ofStripped_of_not_directive hne hdirective

/-- A misread line is taken for a directive, with neither instruction nor label. -/
theorem Misread.ofLine_eq_none {line : String} (h : Misread line) :
    (ofLine line).instruction? = none ∧ (ofLine line).label? = none := by
  rw [ofLine_of_isDirective h.1]
  exact ⟨instruction?_ofDirective _, label?_ofDirective _⟩

/-- A misread line says that there is an instruction, or it defines a label that looks like a
directive. -/
theorem Misread.lost_or_prefix {line : String} (h : Misread line) :
    (meant line).instruction? ≠ none ∨
      ∃ name, (meant line).label? = some name ∧ directiveMark <+: name.toList := by
  rw [meant, if_neg h.2, if_neg h.1.stripped_ne_nil]
  by_cases hmark : labelMark ∈ stripped line.toList
  · obtain ⟨name, behind, hcode, hname⟩ := List.eq_append_cons_of_mem hmark
    have hfront := (directiveMark_prefix_trim_iff hcode).mpr h.1
    rw [hcode, ofCode_append_cons hname]
    split
    next => exact .inr ⟨_, rfl, by rwa [String.toList_ofList]⟩
    next => exact .inl (Option.some_ne_none _)
  · rw [ofCode_of_not_mem hmark]
    exact .inl (Option.some_ne_none _)

theorem Misread.lost {line : String} (h : Misread line) :
    (meant line).instruction? ≠ none ∨ (meant line).label? ≠ none := by
  refine h.lost_or_prefix.imp_right ?_
  rintro ⟨name, hname, -⟩
  exact hname ▸ Option.some_ne_none name

theorem means_ofLine_iff {line : String} : Means line (ofLine line) ↔ ¬Misread line := by
  rw [means_iff]
  refine ⟨fun heq h => ?_, fun h => (ofLine_of_not_misread h).symm⟩
  obtain ⟨hinstruction, hlabel⟩ := h.ofLine_eq_none
  rw [← heq] at hinstruction hlabel
  exact h.lost.elim (fun hne => hne hinstruction) fun hne => hne hlabel

end Statement

namespace Program

/-! ## The program that lines say -/

/-- The program is put together of what the lines say. -/
def Meant (lines : List String) (p : Program) : Prop :=
  ∃ ss, List.Forall₂ Statement.Means lines ss ∧ p = ss.foldl add empty

theorem meant_iff {lines : List String} {p : Program} :
    Meant lines p ↔ p = (lines.map Statement.meant).foldl add empty := by
  have hrule : Statement.Means = fun line s => Statement.meant line = s :=
    funext fun line => funext fun s => propext Statement.means_iff
  have hsaid (ss : List Statement) : List.Forall₂ Statement.Means lines ss ↔
      lines.map Statement.meant = ss := by
    rw [hrule, ← List.forall₂_eq_eq_eq, List.forall₂_map_left_iff]
  simp only [Meant, hsaid, exists_eq_left']

theorem assemble_eq_of_not_misread {lines : List String}
    (h : ∀ line ∈ lines, ¬Statement.Misread line) :
    assemble lines = (lines.map Statement.meant).foldl add empty := by
  have hmeant : lines.map Statement.ofLine = lines.map Statement.meant :=
    List.map_congr_left fun line hline => Statement.ofLine_of_not_misread (h line hline)
  rw [assemble, hmeant]

theorem size_foldl_map (f : String → Statement) (lines : List String) :
    ((lines.map f).foldl add empty).size =
      lines.countP fun line => (f line).instruction?.isSome := by
  rw [size_foldl_add_eq_length, List.filterMap_map, List.length_filterMap_eq_countP]
  exact Nat.zero_add _

/-- An instruction on a misread line is missing, and no other line makes up for it. -/
theorem size_assemble_lt {lines : List String} {line : String} (hline : line ∈ lines)
    (hmisread : Statement.Misread line) (hlost : (Statement.meant line).instruction? ≠ none) :
    (assemble lines).size < ((lines.map Statement.meant).foldl add empty).size := by
  have hle (ls : List String) : ls.countP (fun l => (Statement.ofLine l).instruction?.isSome) ≤
      ls.countP fun l => (Statement.meant l).instruction?.isSome := by
    refine List.countP_mono_left fun l _ hl => ?_
    by_cases h : Statement.Misread l
    · simp [h.ofLine_eq_none] at hl
    · rwa [Statement.ofLine_of_not_misread h] at hl
  obtain ⟨before, behind, rfl⟩ := List.append_of_mem hline
  have hbefore := hle before
  have hbehind := hle behind
  rw [assemble, size_foldl_map, size_foldl_map, List.countP_append, List.countP_append,
    List.countP_cons_of_neg (by simp [hmisread.ofLine_eq_none]),
    List.countP_cons_of_pos (by simpa [Option.isSome_iff_ne_none])]
  omega

theorem label?_foldl_add_ne_none {ss : List Statement} {s : Statement} {name : String}
    (hs : s ∈ ss) (h : s.label? = some name) (p : Program) :
    (ss.foldl add p).label? name ≠ none := by
  obtain ⟨before, behind, rfl⟩ := List.append_of_mem hs
  rw [List.foldl_append, List.foldl_cons, label?_foldl_add, label?_add, if_pos h]
  simp

/-- A label that looks like a directive is bound nowhere. -/
theorem label?_assemble_of_prefix {name : String} (h : Statement.directiveMark <+: name.toList)
    (lines : List String) :
    (assemble lines).label? name = none :=
  label?_assemble_eq_none_iff.mpr fun _ _ hdefines => Statement.not_prefix_of_defines hdefines h

theorem assemble_ne_of_misread {lines : List String} {line : String} (hline : line ∈ lines)
    (hmisread : Statement.Misread line) :
    assemble lines ≠ (lines.map Statement.meant).foldl add empty := by
  intro heq
  -- a lost instruction shows in the size; a line that is a label alone shows in the labels
  rcases hmisread.lost_or_prefix with hlost | ⟨name, hname, hprefix⟩
  · exact Nat.ne_of_lt (size_assemble_lt hline hmisread hlost) (congrArg size heq)
  · refine label?_foldl_add_ne_none (List.mem_map_of_mem hline) hname empty ?_
    rw [← heq, label?_assemble_of_prefix hprefix]

/-- Each line says one thing, so the lines of a text say one program.  Assembly takes a line
for what it says, and makes the program that the lines say, unless a first word only starts
like the mark of directives.  Such a line says that there is an instruction or a label, and
assembly takes neither from it. -/
theorem meant_assemble_iff_not_misread (lines : List String) :
    (∃! p, Meant lines p) ∧
    (Meant lines (assemble lines) ↔ ∀ line ∈ lines, ¬Statement.Misread line) ∧
    ∀ line, (∃! s, Statement.Means line s) ∧
      (Statement.Means line (Statement.ofLine line) ↔ ¬Statement.Misread line) ∧
      (Statement.Misread line → ∀ s, Statement.Means line s →
        (s.instruction? ≠ none ∨ s.label? ≠ none) ∧
        (Statement.ofLine line).instruction? = none ∧ (Statement.ofLine line).label? = none) := by
  refine ⟨⟨_, meant_iff.mpr rfl, fun p => meant_iff.mp⟩, ?_, ?_⟩
  · rw [meant_iff]
    constructor
    · exact fun heq line hline hmisread => assemble_ne_of_misread hline hmisread heq
    · exact assemble_eq_of_not_misread
  · intro line
    refine ⟨⟨_, Statement.means_meant line, fun s => Statement.Means.eq_meant⟩,
      Statement.means_ofLine_iff, ?_⟩
    rintro h s hmeans
    rw [hmeans.eq_meant]
    exact ⟨h.lost, h.ofLine_eq_none⟩

/-- A label that starts like a directive is lost with the instruction behind it, which makes a
string constant.  The mark alone makes a directive, and what is shorter than the mark makes
none. -/
theorem meant_assemble_iff_not_misread_of_longer_word :
    ¬Meant [".dataset: addi $t0, $zero, 7", "halt"]
    (assemble [".dataset: addi $t0, $zero, 7", "halt"]) ∧
    Meant [".data\tgreeting \"hello: world\"", ".dat: halt"]
      (assemble [".data\tgreeting \"hello: world\"", ".dat: halt"]) ∧
    Statement.Means ".dataset: addi $t0, $zero, 7" (.labelled ".dataset" "addi $t0, $zero, 7") ∧
    Statement.ofLine ".dataset: addi $t0, $zero, 7" = .constant "addi" "$t0, $zero, 7" ∧
    (Statement.ofLine ".dataset: addi $t0, $zero, 7").instruction? = none := by
  obtain ⟨-, hlost, hline⟩ :=
    meant_assemble_iff_not_misread [".dataset: addi $t0, $zero, 7", "halt"]
  obtain ⟨-, hkept, -⟩ :=
    meant_assemble_iff_not_misread [".data\tgreeting \"hello: world\"", ".dat: halt"]
  obtain ⟨-, -, hmisreading⟩ := hline ".dataset: addi $t0, $zero, 7"
  have hmisread : Statement.Misread ".dataset: addi $t0, $zero, 7" := by decide +kernel
  have hmeans :
      Statement.Means ".dataset: addi $t0, $zero, 7" (.labelled ".dataset" "addi $t0, $zero, 7") :=
    Statement.means_iff.mpr (by decide +kernel)
  obtain ⟨-, hinstruction, -⟩ := hmisreading hmisread _ hmeans
  refine ⟨fun h => hlost.mp h _ List.mem_cons_self hmisread, hkept.mpr ?_, hmeans,
    by decide +kernel, hinstruction⟩
  decide +kernel

/-- Assembly does not always make the program that the lines say. -/
theorem not_meant_assemble : ¬∀ lines, Meant lines (assemble lines) := by
  intro hlaw
  have hsize := congrArg size (meant_iff.mp (hlaw [".dataset: addi $t0, $zero, 7", "halt"]))
  revert hsize
  decide +kernel

end Program

end MipsMachine
