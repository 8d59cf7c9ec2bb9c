import MipsMachine.Program.Statement
import MipsMachine.Proofs.Text.Runs
import MipsMachine.Proofs.Text.Trim

set_option autoImplicit false

/-!
# What a line says

The code of a line is what stands before the comment, without blanks at its ends
(`stripped_eq`).  It is nothing, a directive, an instruction, or a label with or without an
instruction; `Reading` lists the cases with what tells them apart, and `reading` says that
every line is one of them.  `Defines` and `Gives` say of the text of a line which label it
defines and which string constant it gives a text to.
-/

namespace MipsMachine.Statement

open Text

/-! ## Code and comment -/

/-- What stands before the comment of a line. -/
def uncommented (line : List Char) : List Char := line.takeWhile (· != commentMark)

theorem bne_commentMark_of_mem {cs : List Char} (h : commentMark ∉ cs) :
    ∀ c ∈ cs, (c != commentMark) = true := by
  intro c hc
  have hne : c ≠ commentMark := fun hmark => h (hmark ▸ hc)
  simpa using hne

theorem uncommented_of_not_mem {cs : List Char} (h : commentMark ∉ cs) : uncommented cs = cs :=
  List.takeWhile_eq_self_iff.mpr (bne_commentMark_of_mem h)

theorem uncommented_append_cons {cs : List Char} (h : commentMark ∉ cs) (comment : List Char) :
    uncommented (cs ++ commentMark :: comment) = cs := by
  rw [uncommented, List.takeWhile_append_of_pos (bne_commentMark_of_mem h),
    List.takeWhile_cons_of_neg (by simp), List.append_nil]

/-- The comment of a line, with its mark. -/
def comment (line : List Char) : List Char := line.dropWhile (· != commentMark)

theorem uncommented_append_comment (line : List Char) : uncommented line ++ comment line = line :=
  List.takeWhile_append_dropWhile

theorem commentMark_not_mem_uncommented (line : List Char) : commentMark ∉ uncommented line := by
  intro hmem
  have hmark := List.mem_takeWhile_imp hmem
  simp at hmark

/-- A comment stands behind any code just as well. -/
theorem uncommented_append_comment_of_not_mem {cs : List Char} (h : commentMark ∉ cs)
    (line : List Char) :
    uncommented (cs ++ comment line) = cs := by
  cases hcomment : comment line with
  | nil => rw [List.append_nil, uncommented_of_not_mem h]
  | cons c behind =>
      have hc : (c != commentMark) = false := by
        have hhead := List.head?_dropWhile_not (· != commentMark) line
        rw [← comment, hcomment] at hhead
        exact hhead
      obtain rfl : c = commentMark := by simpa using hc
      exact uncommented_append_cons h behind

theorem commentMark_not_mem_of_blank {bs : List Char} (h : ∀ c ∈ bs, isBlank c = true) :
    commentMark ∉ bs := by
  intro hmem
  have hblank := h commentMark hmem
  revert hblank
  decide

/-- Cutting off the comment between two trims is the same as cutting it off first. -/
theorem stripped_eq (line : List Char) : stripped line = trim (uncommented line) := by
  have hcut : stripped line = trim (uncommented (trim line)) := by
    rw [stripped]
    by_cases hmark : commentMark ∈ trim line
    · obtain ⟨code, comment, heq, hcode⟩ := List.eq_append_cons_of_mem hmark
      simp only [heq, cutAt_append_cons hcode, uncommented_append_cons hcode]
    · simp only [cutAt_eq_none hmark, uncommented_of_not_mem hmark, trim_trim]
  rw [hcut]
  obtain ⟨front, behind, hfront, hbehind, hline⟩ := exists_blanks line
  generalize trim line = t at hline
  subst hline
  -- blanks around the line are blanks around its code, or they stand in the comment
  by_cases hmark : commentMark ∈ t
  · obtain ⟨code, comment, rfl, hcode⟩ := List.eq_append_cons_of_mem hmark
    have hcommented : front ++ (code ++ commentMark :: comment) ++ behind =
        (front ++ code) ++ commentMark :: (comment ++ behind) := by simp
    have hnot : commentMark ∉ front ++ code := by
      simp [commentMark_not_mem_of_blank hfront, hcode]
    rw [hcommented, uncommented_append_cons hnot, uncommented_append_cons hcode,
      trim_blanks_append hfront]
  · have hnot : commentMark ∉ front ++ t ++ behind := by
      simp [commentMark_not_mem_of_blank hfront, commentMark_not_mem_of_blank hbehind, hmark]
    rw [uncommented_of_not_mem hnot, uncommented_of_not_mem hmark, trim_blanks hfront hbehind]

/-! ## Reading code -/

/-- What code can say, with what it looks like then. -/
inductive Reading (code : List Char) : Statement → Prop
  | blank (hcode : code = []) : Reading code .blank
  | directive (hdirective : directiveMark <+: code) : Reading code (ofDirective code)
  | instruction (hne : code ≠ []) (hdirective : ¬directiveMark <+: code)
      (hmark : labelMark ∉ code) :
      Reading code (.instruction (String.ofList code))
  | label {name behind : List Char} (hdirective : ¬directiveMark <+: code)
      (hcode : code = name ++ labelMark :: behind) (hmark : labelMark ∉ name)
      (hbehind : trim behind = []) : Reading code (.label (String.ofList (trim name)))
  | labelled {name behind : List Char} (hdirective : ¬directiveMark <+: code)
      (hcode : code = name ++ labelMark :: behind) (hmark : labelMark ∉ name)
      (hbehind : trim behind ≠ []) :
      Reading code (.labelled (String.ofList (trim name)) (String.ofList (trim behind)))

theorem ofCode_of_not_mem {code : List Char} (hmark : labelMark ∉ code) :
    ofCode code = .instruction (String.ofList code) := by
  rw [ofCode, cutAt_eq_none hmark]

theorem ofCode_append_cons {name : List Char} (hmark : labelMark ∉ name) (behind : List Char) :
    ofCode (name ++ labelMark :: behind) =
      if trim behind = [] then .label (String.ofList (trim name))
      else .labelled (String.ofList (trim name)) (String.ofList (trim behind)) := by
  rw [ofCode, cutAt_append_cons hmark]
  cases htext : trim behind with
  | nil => simp [htext]
  | cons c cs => simp [htext]

theorem ofStripped_of_not_directive {code : List Char} (hne : code ≠ [])
    (hdirective : ¬directiveMark <+: code) :
    ofStripped code = ofCode code := by
  rw [← List.isPrefixOf_iff_prefix] at hdirective
  rw [ofStripped, if_neg (by simpa using hne), if_neg hdirective]

theorem ofStripped_of_not_mem {code : List Char} (hne : code ≠ [])
    (hdirective : ¬directiveMark <+: code) (hmark : labelMark ∉ code) :
    ofStripped code = .instruction (String.ofList code) := by
  rw [ofStripped_of_not_directive hne hdirective, ofCode_of_not_mem hmark]

theorem ofStripped_append_cons {name behind : List Char} (hmark : labelMark ∉ name)
    (hdirective : ¬directiveMark <+: name ++ labelMark :: behind) :
    ofStripped (name ++ labelMark :: behind) =
      if trim behind = [] then .label (String.ofList (trim name))
      else .labelled (String.ofList (trim name)) (String.ofList (trim behind)) := by
  rw [ofStripped_of_not_directive (by simp) hdirective, ofCode_append_cons hmark]

theorem ofStripped_of_directive {code : List Char} (h : directiveMark <+: code) :
    ofStripped code = ofDirective code := by
  have hne : code ≠ [] := by
    rintro rfl
    exact absurd (List.prefix_nil.mp h) (by decide)
  rw [ofStripped, if_neg (by simpa using hne), if_pos (List.isPrefixOf_iff_prefix.mpr h)]

theorem reading (code : List Char) : Reading code (ofStripped code) := by
  by_cases hne : code = []
  · subst hne
    exact .blank rfl
  by_cases hdirective : directiveMark <+: code
  · rw [ofStripped_of_directive hdirective]
    exact .directive hdirective
  by_cases hmark : labelMark ∈ code
  · obtain ⟨name, behind, rfl, hname⟩ := List.eq_append_cons_of_mem hmark
    rw [ofStripped_append_cons hname hdirective]
    split
    next hbehind => exact .label hdirective rfl hname hbehind
    next hbehind => exact .labelled hdirective rfl hname hbehind
  · rw [ofStripped_of_not_mem hne hdirective hmark]
    exact .instruction hne hdirective hmark

theorem ofDirective_cases (code : List Char) :
    (∃ name text, ofDirective code = .constant name text) ∨
      ofDirective code = .incomplete (String.ofList code) := by
  rw [ofDirective]
  split
  · exact Or.inl ⟨_, _, rfl⟩
  · exact Or.inr rfl

/-! ## Lines with an instruction -/

theorem isBlank_labelMark : isBlank labelMark = false := by decide

theorem stripped_of_append_cons {line name rest : List Char}
    (hcode : uncommented line = name ++ labelMark :: rest) :
    stripped line = trimStart name ++ labelMark :: trimEnd rest := by
  rw [stripped_eq, hcode, trim_append_cons isBlank_labelMark]

/-- What stands behind a colon does not make a directive of what stands before it. -/
theorem directiveMark_prefix_append_cons {name rest : List Char} :
    directiveMark <+: name ++ labelMark :: rest ↔ directiveMark <+: name := by
  have hmark : labelMark ∉ directiveMark := by decide
  constructor
  · intro h
    -- the directive mark holds no colon, so as a prefix it ends before the one behind the name
    rw [List.append_cons] at h
    rcases List.prefix_or_prefix_of_prefix h (List.prefix_append _ _) with hshort | hlong
    · rcases List.prefix_concat_iff.mp hshort with heq | hname
      · exact absurd (heq ▸ List.mem_append_right name List.mem_cons_self) hmark
      · exact hname
    · exact absurd (hlong.subset (List.mem_append_right name List.mem_cons_self)) hmark
  · exact fun h => h.trans (List.prefix_append _ _)

/-- A line without a colon. -/
theorem ofLine_of_not_mem {line : String} (hmark : labelMark ∉ uncommented line.toList)
    (hne : trim (uncommented line.toList) ≠ [])
    (hdirective : ¬directiveMark <+: trim (uncommented line.toList)) :
    ofLine line = .instruction (String.ofList (trim (uncommented line.toList))) := by
  rw [ofLine, stripped_eq]
  exact ofStripped_of_not_mem hne hdirective fun h => hmark (mem_of_mem_trim h)

/-- A line with a colon. -/
theorem ofLine_of_append_cons {line : String} {name rest : List Char}
    (hcode : uncommented line.toList = name ++ labelMark :: rest) (hmark : labelMark ∉ name)
    (hdirective : ¬directiveMark <+: trimStart name) :
    ofLine line =
      if trim rest = [] then .label (String.ofList (trim name))
      else .labelled (String.ofList (trim name)) (String.ofList (trim rest)) := by
  have hname : labelMark ∉ trimStart name :=
    fun h => hmark ((List.dropWhile_suffix isBlank).subset h)
  have hnot : ¬directiveMark <+: trimStart name ++ labelMark :: trimEnd rest :=
    fun h => hdirective (directiveMark_prefix_append_cons.mp h)
  rw [ofLine, stripped_of_append_cons hcode, ofStripped_append_cons hname hnot, trim_trimStart,
    trim_trimEnd]

theorem instruction?_ofDirective (code : List Char) : (ofDirective code).instruction? = none := by
  rcases ofDirective_cases code with ⟨_, _, h⟩ | h
  · rw [h]
    rfl
  · rw [h]
    rfl

theorem label?_ofDirective (code : List Char) : (ofDirective code).label? = none := by
  rcases ofDirective_cases code with ⟨_, _, h⟩ | h
  · rw [h]
    rfl
  · rw [h]
    rfl

/-- A line with an instruction says nothing else, or it has a label before its first colon. -/
theorem cases_of_instruction? {line text : String} (h : (ofLine line).instruction? = some text) :
    (labelMark ∉ uncommented line.toList ∧ trim (uncommented line.toList) = text.toList ∧
      ofLine line = .instruction text) ∨
    ∃ name rest, uncommented line.toList = name ++ labelMark :: rest ∧ labelMark ∉ name ∧
      ¬directiveMark <+: trimStart name ∧ trim rest = text.toList ∧
      ofLine line = .labelled (String.ofList (trim name)) text := by
  by_cases hmark : labelMark ∈ uncommented line.toList
  · obtain ⟨name, rest, hcode, hname⟩ := List.eq_append_cons_of_mem hmark
    by_cases hdirective : directiveMark <+: trimStart name
    · rw [ofLine, stripped_of_append_cons hcode,
        ofStripped_of_directive (directiveMark_prefix_append_cons.mpr hdirective),
        instruction?_ofDirective] at h
      cases h
    · have hline := ofLine_of_append_cons hcode hname hdirective
      rw [hline] at h
      split at h
      next => cases h
      next hne =>
        obtain rfl := Option.some.inj h
        rw [if_neg hne] at hline
        exact Or.inr ⟨name, rest, hcode, hname, hdirective, String.toList_ofList.symm, hline⟩
  · by_cases hdirective : directiveMark <+: trim (uncommented line.toList)
    · rw [ofLine, stripped_eq, ofStripped_of_directive hdirective, instruction?_ofDirective] at h
      cases h
    · by_cases hne : trim (uncommented line.toList) = []
      · rw [ofLine, stripped_eq, hne] at h
        cases h
      · have hline := ofLine_of_not_mem hmark hne hdirective
        rw [hline] at h
        obtain rfl := Option.some.inj h
        exact Or.inl ⟨hmark, String.toList_ofList.symm, hline⟩

/-- The instruction of a line holds nothing of its comment. -/
theorem commentMark_not_mem_of_instruction? {line text : String}
    (h : (ofLine line).instruction? = some text) :
    commentMark ∉ text.toList := by
  intro hmem
  apply commentMark_not_mem_uncommented line.toList
  rcases cases_of_instruction? h with ⟨-, htext, -⟩ | ⟨name, rest, hcode, -, -, htext, -⟩
  · exact mem_of_mem_trim (htext ▸ hmem)
  · rw [hcode]
    exact List.mem_append_right name (List.mem_cons_of_mem _ (mem_of_mem_trim (htext ▸ hmem)))

/-! ## Labels -/

/-- The line defines the label: it is no directive, and the label is what stands before the
first colon of its code, without blanks at its ends. -/
def Defines (line name : String) : Prop :=
  ¬directiveMark <+: stripped line.toList ∧
    ∃ front behind, stripped line.toList = front ++ labelMark :: behind ∧ labelMark ∉ front ∧
      name = String.ofList (trim front)

theorem defines_iff {line name : String} {front behind : List Char}
    (hdirective : ¬directiveMark <+: stripped line.toList)
    (hcode : stripped line.toList = front ++ labelMark :: behind) (hmark : labelMark ∉ front) :
    Defines line name ↔ name = String.ofList (trim front) := by
  constructor
  · rintro ⟨-, front', behind', hcode', hmark', rfl⟩
    have hcut : some (front, behind) = some (front', behind') := by
      rw [← cutAt_append_cons hmark, ← cutAt_append_cons hmark', ← hcode, hcode']
    rw [(Prod.mk.inj (Option.some.inj hcut)).1]
  · rintro rfl
    exact ⟨hdirective, front, behind, hcode, hmark, rfl⟩

/-- The label of a statement is the one that its line defines. -/
theorem label?_ofLine_eq_some_iff {line name : String} :
    (ofLine line).label? = some name ↔ Defines line name := by
  have hreading := reading (stripped line.toList)
  rw [ofLine]
  generalize ofStripped (stripped line.toList) = s at hreading
  cases hreading with
  | blank hcode => simp [label?, Defines, hcode]
  | directive hdirective => simp [label?_ofDirective, Defines, hdirective]
  | instruction _ _ hmark =>
      simp only [label?, reduceCtorEq, false_iff]
      rintro ⟨-, front, behind, hcode, -⟩
      exact hmark (hcode ▸ List.mem_append_right front List.mem_cons_self)
  | label hdirective hcode hmark =>
      rw [defines_iff hdirective hcode hmark, label?, Option.some.injEq, eq_comm]
  | labelled hdirective hcode hmark =>
      rw [defines_iff hdirective hcode hmark, label?, Option.some.injEq, eq_comm]

instance (line name : String) : Decidable (Defines line name) :=
  decidable_of_iff _ label?_ofLine_eq_some_iff

/-! ## Directives -/

/-- The line is a directive. -/
def IsDirective (line : String) : Prop := directiveMark <+: stripped line.toList

instance (line : String) : Decidable (IsDirective line) := inferInstanceAs (Decidable (_ <+: _))

/-- The words of a line. -/
def HasWords (line : String) (ws : List (List Char)) : Prop :=
  Spaced isBlank (stripped line.toList) ws

/-- The line gives a text to the constant of a name: it is a directive with three words or
more, the second of which is the name, and the text is the words behind it, joined by single
blanks, without the quotation marks among them. -/
def Gives (line name text : String) : Prop :=
  IsDirective line ∧
    ∃ first rest, HasWords line (first :: name.toList :: rest) ∧ rest ≠ [] ∧
      text = String.ofList (([' '].intercalate rest).filter fun c => c != quotationMark)

/-- The line is a directive with fewer than three words. -/
def IsIncomplete (line : String) : Prop :=
  IsDirective line ∧ ∃ ws, HasWords line ws ∧ ws.length < 3

theorem ofLine_of_isDirective {line : String} (h : IsDirective line) :
    ofLine line = ofDirective (stripped line.toList) := ofStripped_of_directive h

theorem hasWords_iff {line : String} {ws : List (List Char)} :
    HasWords line ws ↔ words (stripped line.toList) = ws :=
  runs_eq_iff.symm

/-- Only a directive gives a text to a constant. -/
theorem constant?_ofLine_of_not_isDirective {line : String} (h : ¬IsDirective line)
    (name : String) :
    (ofLine line).constant? name = none := by
  have hreading := reading (stripped line.toList)
  rw [ofLine]
  generalize ofStripped (stripped line.toList) = s at hreading
  cases hreading with
  | directive hdirective => exact absurd hdirective h
  | blank | instruction | label | labelled => rfl

theorem constant?_ofLine_eq_some_iff {line name text : String} :
    (ofLine line).constant? name = some text ↔ Gives line name text := by
  by_cases hdirective : IsDirective line
  · rw [ofLine_of_isDirective hdirective, ofDirective, Gives]
    simp only [hdirective, true_and, hasWords_iff]
    split
    next first name' w ws hwords =>
      constructor
      · intro h
        rw [constant?] at h
        split at h
        next heq =>
          obtain rfl := Option.some.inj h
          exact ⟨first, w :: ws,
            by rw [hwords, heq, String.toList_ofList], List.cons_ne_nil w ws, rfl⟩
        next => cases h
      · rintro ⟨first', rest, hsame, -, rfl⟩
        rw [hwords] at hsame
        obtain ⟨-, hname, rfl⟩ : first = first' ∧ name' = name.toList ∧ w :: ws = rest := by
          simpa using hsame
        rw [constant?, if_pos (by rw [hname, String.ofList_toList])]
    next hshort =>
      constructor
      · intro h
        cases h
      · rintro ⟨first, rest, hwords, hne, -⟩
        obtain ⟨w, ws, rfl⟩ := List.exists_cons_of_ne_nil hne
        exact absurd hwords (hshort _ _ _ _)
  · rw [constant?_ofLine_of_not_isDirective hdirective]
    simp [Gives, hdirective]

instance (line name text : String) : Decidable (Gives line name text) :=
  decidable_of_iff _ constant?_ofLine_eq_some_iff

theorem ofLine_of_isIncomplete {line : String} (h : IsIncomplete line) :
    ofLine line = .incomplete (String.ofList (stripped line.toList)) := by
  obtain ⟨hdirective, ws, hwords, hlength⟩ := h
  rw [ofLine_of_isDirective hdirective, ofDirective, hasWords_iff.mp hwords]
  match ws, hlength with
  | [], _ | [_], _ | [_, _], _ => rfl

end MipsMachine.Statement
