import Mathlib.Logic.Relation
import MipsMachine.Proofs.Program

set_option autoImplicit false

/-!
# Layout

What a source text has besides its code: blanks at the ends of lines, comments, lines with
nothing else in them, and the way its lines end.  `Edit` is one change of layout.  Lines can be
made of each other by such changes exactly if their code is the same (`eqvGen_edit_iff`), and
the code of lines is all that assembly looks at (`assemble_eq_foldl_codes`).  Carriage returns
before a line feed, and a line feed behind the last line, are layout just as well, so a source
text may be taken apart at its line feeds alone (`ofSource_eq_assemble_splitOn`).
-/

namespace MipsMachine

open Text

namespace Statement

/-! ## The code of a line -/

theorem uncommented_append (line more : List Char) :
    uncommented (line ++ more) =
      if commentMark ∈ line then uncommented line else line ++ uncommented more := by
  split
  next hmark =>
    obtain ⟨code, comment, rfl, hcode⟩ := List.eq_append_cons_of_mem hmark
    rw [List.append_assoc, List.cons_append, uncommented_append_cons hcode,
      uncommented_append_cons hcode]
  next hmark => rw [uncommented, List.takeWhile_append_of_pos (bne_commentMark_of_mem hmark),
    uncommented]

/-- A line is its code, or its code in front of a comment. -/
theorem eq_uncommented_or (line : List Char) :
    line = uncommented line ∨ ∃ comment, line = uncommented line ++ commentMark :: comment := by
  by_cases hmark : commentMark ∈ line
  · obtain ⟨code, comment, rfl, hcode⟩ := List.eq_append_cons_of_mem hmark
    exact Or.inr ⟨comment, by rw [uncommented_append_cons hcode]⟩
  · exact Or.inl (uncommented_of_not_mem hmark).symm

theorem stripped_blanks_append {front : List Char} (h : ∀ c ∈ front, isBlank c = true)
    (line : List Char) :
    stripped (front ++ line) = stripped line := by
  rw [stripped_eq, uncommented_append, if_neg (commentMark_not_mem_of_blank h),
    trim_blanks_append h, stripped_eq]

theorem stripped_append_blanks {behind : List Char} (h : ∀ c ∈ behind, isBlank c = true)
    (line : List Char) :
    stripped (line ++ behind) = stripped line := by
  rw [stripped_eq, uncommented_append, stripped_eq]
  split
  next => rfl
  next hmark =>
    rw [uncommented_of_not_mem (commentMark_not_mem_of_blank h), trim_append_blanks h,
      uncommented_of_not_mem hmark]

theorem stripped_append_comment (line comment : List Char) :
    stripped (line ++ commentMark :: comment) = stripped line := by
  rw [stripped_eq, stripped_eq]
  by_cases hmark : commentMark ∈ line
  · rw [uncommented_append, if_pos hmark]
  · rw [uncommented_append_cons hmark, uncommented_of_not_mem hmark]

theorem stripped_append_return (line : List Char) : stripped (line ++ ['\r']) = stripped line :=
  stripped_append_blanks (List.forall_mem_singleton.mpr (by decide)) line

theorem stripped_dropReturn (line : List Char) : stripped (dropReturn line) = stripped line := by
  rw [dropReturn]
  split
  next h =>
    obtain ⟨front, rfl⟩ := List.getLast?_eq_some_iff.mp h
    rw [List.dropLast_concat, stripped_append_return]
  next => rfl

/-- The line is blank, or it holds only a comment. -/
def IsVoid (line : String) : Prop :=
  ∃ front, (∀ c ∈ front, isBlank c = true) ∧
    (line.toList = front ∨ ∃ comment, line.toList = front ++ commentMark :: comment)

theorem isVoid_iff {line : String} : IsVoid line ↔ stripped line.toList = [] := by
  constructor
  · rintro ⟨front, hfront, hline⟩
    have hvoid : stripped front = [] := by
      rw [← List.append_nil front, stripped_blanks_append hfront]
      rfl
    rcases hline with hline | ⟨comment, hline⟩
    · rw [hline, hvoid]
    · rw [hline, stripped_append_comment, hvoid]
  · intro h
    refine ⟨uncommented line.toList, ?_, eq_uncommented_or line.toList⟩
    rwa [stripped_eq, trim_eq_nil_iff] at h

end Statement

namespace Program

open Statement

/-! ## Changes of layout -/

/-- One change of layout among the lines of a text: blanks at the ends of a line, a comment
behind it, or one more line that is blank or holds only a comment. -/
inductive Edit : List String → List String → Prop
  | pad (before : List String) {front behind : String} (line : String) (after : List String)
      (hfront : ∀ c ∈ front.toList, isBlank c = true)
      (hbehind : ∀ c ∈ behind.toList, isBlank c = true) :
      Edit (before ++ line :: after) (before ++ (front ++ line ++ behind) :: after)
  | comment (before : List String) (line text : String) (after : List String) :
      Edit (before ++ line :: after) (before ++ (line ++ "#" ++ text) :: after)
  | insert (before : List String) {line : String} (after : List String) (hvoid : IsVoid line) :
      Edit (before ++ after) (before ++ line :: after)

/-- What the lines of a text say, comments and blanks left out. -/
def codes (lines : List (List Char)) : List (List Char) :=
  (lines.map stripped).filter fun code => !code.isEmpty

theorem codes_append (xs ys : List (List Char)) : codes (xs ++ ys) = codes xs ++ codes ys := by
  rw [codes, List.map_append, List.filter_append, codes, codes]

theorem codes_cons (line : List Char) (lines : List (List Char)) :
    codes (line :: lines) =
      if stripped line = [] then codes lines else stripped line :: codes lines := by
  rw [codes, List.map_cons, List.filter_cons, codes]
  cases stripped line <;> simp

theorem codes_congr {line other : List Char} (h : stripped line = stripped other)
    (lines : List (List Char)) :
    codes (line :: lines) = codes (other :: lines) := by
  rw [codes_cons, codes_cons, h]

/-- A change of layout leaves the code as it is. -/
theorem Edit.codes_eq {xs ys : List String} (h : Edit xs ys) :
    codes (xs.map String.toList) = codes (ys.map String.toList) := by
  cases h with
  | pad before line after hfront hbehind =>
      simp only [List.map_append, List.map_cons, codes_append, String.toList_append]
      rw [codes_congr]
      rw [stripped_append_blanks hbehind, stripped_blanks_append hfront]
  | comment before line text after =>
      have hmark : "#".toList = [commentMark] := rfl
      simp only [List.map_append, List.map_cons, codes_append, String.toList_append, hmark]
      rw [codes_congr]
      rw [List.append_assoc, List.singleton_append, stripped_append_comment]
  | insert before after hvoid =>
      rw [List.map_append, List.map_append, codes_append, codes_append, List.map_cons, codes_cons,
        if_pos (isVoid_iff.mp hvoid)]

theorem Edit.cons {xs ys : List String} (h : Edit xs ys) (line : String) :
    Edit (line :: xs) (line :: ys) := by
  cases h with
  | pad before other after hfront hbehind => exact .pad (line :: before) other after hfront hbehind
  | comment before other text after => exact .comment (line :: before) other text after
  | insert before after hvoid => exact .insert (line :: before) after hvoid

theorem eqvGen_edit_cons {xs ys : List String} (h : Relation.EqvGen Edit xs ys) (line : String) :
    Relation.EqvGen Edit (line :: xs) (line :: ys) := by
  induction h with
  | rel _ _ h => exact .rel _ _ (h.cons line)
  | refl => exact .refl _
  | symm _ _ _ ih => exact ih.symm
  | trans _ _ _ _ _ ih ih' => exact ih.trans _ _ _ ih'

/-- A line can be made of its code. -/
theorem eqvGen_edit_stripped (line : String) (lines : List String) :
    Relation.EqvGen Edit (String.ofList (stripped line.toList) :: lines) (line :: lines) := by
  obtain ⟨front, behind, hfront, hbehind, hcode⟩ := exists_blanks (uncommented line.toList)
  rw [← stripped_eq] at hcode
  have hpad : Edit (String.ofList (stripped line.toList) :: lines)
      (String.ofList (uncommented line.toList) :: lines) := by
    rw [hcode, String.ofList_append, String.ofList_append]
    exact .pad [] _ lines (by simpa using hfront) (by simpa using hbehind)
  refine .trans _ _ _ (.rel _ _ hpad) ?_
  rcases eq_uncommented_or line.toList with hline | ⟨comment, hline⟩
  · rw [← hline, String.ofList_toList]
    exact .refl _
  · have hcomment :=
      Edit.comment [] (String.ofList (uncommented line.toList)) (String.ofList comment) lines
    have heq : String.ofList (uncommented line.toList) ++ "#" ++ String.ofList comment = line := by
      rw [← String.toList_inj, String.toList_append, String.toList_append, String.toList_ofList,
        String.toList_ofList, String.toList_ofList, List.append_assoc]
      exact hline.symm
    rw [heq] at hcomment
    exact .rel _ _ hcomment

/-- Lines can be made of their code. -/
theorem eqvGen_edit_codes (lines : List String) :
    Relation.EqvGen Edit ((codes (lines.map String.toList)).map String.ofList) lines := by
  induction lines with
  | nil => exact .refl _
  | cons line lines ih =>
      rw [List.map_cons, codes_cons]
      split
      next hvoid => exact ih.trans _ _ _ (.rel _ _ (.insert [] lines (isVoid_iff.mpr hvoid)))
      next => exact (eqvGen_edit_cons ih _).trans _ _ _ (eqvGen_edit_stripped line lines)

/-- Lines can be made of each other by changes of layout exactly if their code is the same. -/
theorem eqvGen_edit_iff {xs ys : List String} :
    Relation.EqvGen Edit xs ys ↔ codes (xs.map String.toList) = codes (ys.map String.toList) := by
  constructor
  · intro h
    induction h with
    | rel _ _ h => exact h.codes_eq
    | refl => rfl
    | symm _ _ _ ih => exact ih.symm
    | trans _ _ _ _ _ ih ih' => exact ih.trans ih'
  · intro h
    have hxs := eqvGen_edit_codes xs
    rw [h] at hxs
    exact hxs.symm.trans _ _ _ (eqvGen_edit_codes ys)

/-! ## Assembly of code -/

theorem foldl_add_codes (p : Program) (lines : List (List Char)) :
    (lines.map fun line => ofStripped (stripped line)).foldl add p =
      ((codes lines).map ofStripped).foldl add p := by
  induction lines generalizing p with
  | nil => rfl
  | cons line lines ih =>
      rw [List.map_cons, List.foldl_cons, ih, codes_cons]
      split
      next hvoid =>
        rw [hvoid]
        rfl
      next => rfl

/-- Assembly looks at the code of the lines only. -/
theorem assemble_eq_foldl_codes (lines : List String) :
    assemble lines = ((codes (lines.map String.toList)).map ofStripped).foldl add empty := by
  rw [← foldl_add_codes, List.map_map]
  rfl

theorem assemble_eq_of_codes_eq {xs ys : List String}
    (h : codes (xs.map String.toList) = codes (ys.map String.toList)) :
    assemble xs = assemble ys := by
  rw [assemble_eq_foldl_codes, h, assemble_eq_foldl_codes]

/-! ## Ends of lines -/

theorem codes_map_dropReturn (lines : List (List Char)) :
    codes (lines.map dropReturn) = codes lines := by
  rw [codes, List.map_map, codes]
  congr 1
  exact List.map_congr_left fun line _ => stripped_dropReturn line

theorem codes_filter (lines : List (List Char)) :
    codes (lines.filter fun line => !line.isEmpty) = codes lines := by
  induction lines with
  | nil => rfl
  | cons line lines ih =>
      cases line with
      | nil => exact ih
      | cons c cs =>
          rw [List.filter_cons_of_pos rfl, codes_cons, codes_cons, ih]

/-- Lines that are cut off at line feeds alone have the same code. -/
theorem codes_lines (cs : List Char) : codes (Text.lines cs) = codes (pieces (· == '\n') cs) := by
  have hlast := List.getLast?_eq_some_getLast (pieces_ne_nil (· == '\n') cs)
  rw [Text.lines, codes_append, codes_map_dropReturn, codes_filter, ← codes_append, ended,
    rest, hlast, Option.getD_some, List.dropLast_concat_getLast]

theorem pieces_eq_splitOn (mark : Char) (cs : List Char) :
    pieces (· == mark) cs = cs.splitOn mark := by
  induction cs with
  | nil => rfl
  | cons c cs ih =>
      rw [pieces, ih, List.splitOn, List.splitOn, List.splitOnP_cons_eq_if_modifyHead]

theorem map_toList_map_ofList (lines : List (List Char)) :
    (lines.map String.ofList).map String.toList = lines := by
  rw [List.map_map]
  exact List.map_id'' (fun _ => String.toList_ofList) lines

theorem toList_sourceLines (source : String) :
    (sourceLines source).map String.toList = Text.lines source.toList :=
  map_toList_map_ofList _

/-- The program of a source text is that of the texts between its line feeds. -/
theorem ofSource_eq_assemble_splitOn (source : String) :
    ofSource source = assemble ((source.toList.splitOn '\n').map String.ofList) := by
  apply assemble_eq_of_codes_eq
  rw [toList_sourceLines, map_toList_map_ofList, codes_lines, pieces_eq_splitOn]

/-- A line feed with a carriage return before it; any other character as it is. -/
def withReturn (c : Char) : List Char := if c = '\n' then ['\r', '\n'] else [c]

/-- A text with a carriage return before each of its line feeds. -/
def withReturns (source : String) : String := String.ofList (source.toList.flatMap withReturn)

theorem pieces_of_not_mem {mark : Char} {line : List Char} (h : mark ∉ line) :
    pieces (· == mark) line = [line] := by
  apply pieces_of_not_sep
  intro c hc
  exact beq_false_of_ne fun heq => h (heq ▸ hc)

theorem pieces_append_mark_cons (mark : Char) (xs ys : List Char) :
    pieces (· == mark) (xs ++ mark :: ys) = pieces (· == mark) xs ++ pieces (· == mark) ys := by
  apply pieces_append_cons
  exact beq_self_eq_true mark

-- the induction is on the text behind the line that is being read, which grows up to its line feed
theorem codes_pieces_append_flatMap {line : List Char} (hline : '\n' ∉ line) (cs : List Char) :
    codes (pieces (· == '\n') (line ++ cs.flatMap withReturn)) =
      codes (pieces (· == '\n') (line ++ cs)) := by
  induction cs generalizing line with
  | nil => rfl
  | cons c cs ih =>
      rw [List.flatMap_cons, withReturn]
      split
      next hc =>
        have hreturned : '\n' ∉ line ++ ['\r'] := by simp [hline]
        have hrest := ih List.not_mem_nil
        rw [List.nil_append, List.nil_append] at hrest
        have hsplit : line ++ (['\r', '\n'] ++ cs.flatMap withReturn) =
            (line ++ ['\r']) ++ '\n' :: cs.flatMap withReturn := by simp
        rw [hc, hsplit, pieces_append_mark_cons, pieces_append_mark_cons,
          pieces_of_not_mem hreturned, pieces_of_not_mem hline, codes_append, codes_append, hrest,
          codes_congr (stripped_append_return line)]
      next hc =>
        have hgrown : '\n' ∉ line ++ [c] := by simp [hline, Ne.symm hc]
        have hrest := ih hgrown
        rwa [List.append_assoc, List.append_assoc] at hrest

theorem ofSource_withReturns (source : String) :
    ofSource (withReturns source) = ofSource source := by
  have hcodes := codes_pieces_append_flatMap List.not_mem_nil source.toList
  rw [List.nil_append, List.nil_append, ← codes_lines, ← codes_lines] at hcodes
  apply assemble_eq_of_codes_eq
  rw [toList_sourceLines, toList_sourceLines, withReturns, String.toList_ofList, hcodes]

/-- The last line may be ended as well. -/
theorem ofSource_append_feed (source : String) : ofSource (source ++ "\n") = ofSource source := by
  have hfeed : "\n".toList = ['\n'] := rfl
  have hnothing : codes [[]] = [] := rfl
  apply assemble_eq_of_codes_eq
  rw [toList_sourceLines, toList_sourceLines, String.toList_append, hfeed, codes_lines,
    codes_lines, pieces_append_mark_cons, pieces_nil, codes_append, hnothing, List.append_nil]

/-- Layout does not matter: lines that can be made of each other by changes of layout, in any
number and either way, make the same program.  A source text makes the program of the texts
between its line feeds, whatever carriage returns stand before them.  One more line feed at the
end changes nothing, and carriage returns before all of them neither. -/
theorem layout_does_not_matter :
    (∀ xs ys, Relation.EqvGen Edit xs ys → assemble xs = assemble ys) ∧
    ∀ source, ofSource source = assemble ((source.toList.splitOn '\n').map String.ofList) ∧
      ofSource (source ++ "\n") = ofSource source ∧
      ofSource (withReturns source) = ofSource source := by
  refine ⟨?_, ?_⟩
  · intro xs ys h
    exact assemble_eq_of_codes_eq (eqvGen_edit_iff.mp h)
  · intro source
    exact ⟨ofSource_eq_assemble_splitOn source, ofSource_append_feed source,
      ofSource_withReturns source⟩

/-- A comment is put on a line of its own, and the line behind it, which has a comment already,
gets blanks at both ends and a second comment. -/
theorem layout_does_not_matter_before_label :
    assemble ["add r1, r2, r3 # a: b", "x: halt # c"] =
      assemble ["add r1, r2, r3 # a: b", "\t # y: halt",
        "\u00a0" ++ "x: halt # c" ++ "\r" ++ "#" ++ ".data z 1"] := by
  have hvoid : IsVoid "\t # y: halt" :=
    ⟨['\t', ' '], List.all_eq_true.mp (by decide), .inr ⟨" y: halt".toList, rfl⟩⟩
  have hinsert : Edit ["add r1, r2, r3 # a: b", "x: halt # c"]
      ["add r1, r2, r3 # a: b", "\t # y: halt", "x: halt # c"] :=
    .insert ["add r1, r2, r3 # a: b"] ["x: halt # c"] hvoid
  have hpad : Edit ["add r1, r2, r3 # a: b", "\t # y: halt", "x: halt # c"]
      ["add r1, r2, r3 # a: b", "\t # y: halt", "\u00a0" ++ "x: halt # c" ++ "\r"] :=
    .pad ["add r1, r2, r3 # a: b", "\t # y: halt"] "x: halt # c" []
      (List.all_eq_true.mp (by decide)) (List.all_eq_true.mp (by decide))
  have hcomment : Edit ["add r1, r2, r3 # a: b", "\t # y: halt", "\u00a0" ++ "x: halt # c" ++ "\r"]
      ["add r1, r2, r3 # a: b", "\t # y: halt",
        "\u00a0" ++ "x: halt # c" ++ "\r" ++ "#" ++ ".data z 1"] :=
    .comment ["add r1, r2, r3 # a: b", "\t # y: halt"] _ _ []
  apply layout_does_not_matter.1
  exact .trans _ _ _ (.rel _ _ hinsert) (.trans _ _ _ (.rel _ _ hpad) (.rel _ _ hcomment))

end Program

end MipsMachine
