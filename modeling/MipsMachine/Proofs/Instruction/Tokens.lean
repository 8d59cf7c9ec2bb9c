import MipsMachine.Instruction.Source
import MipsMachine.Proofs.Text.MaximalRuns

set_option autoImplicit false

/-!
# Tokens of instruction texts

A token is a text that is not empty and holds no separator.  The tokens of a text are its
maximal runs of characters other than separators, and tokens with separators between them are
cut into the same tokens again (`tokens_are_maximal_runs`).
-/

namespace MipsMachine.Instruction

/-- A text that is cut into itself alone. -/
def IsToken (t : String) : Prop :=
  t.toList ≠ [] ∧ ∀ c ∈ t.toList, isSeparator c = false

/-- A row of separators that is not empty. -/
def IsGap (t : String) : Prop :=
  t.toList ≠ [] ∧ ∀ c ∈ t.toList, isSeparator c = true

instance (t : String) : Decidable (IsToken t) :=
  decidable_of_iff (t.toList ≠ [] ∧ t.toList.all fun c => !isSeparator c) (by simp [IsToken])

instance (t : String) : Decidable (IsGap t) :=
  decidable_of_iff (t.toList ≠ [] ∧ t.toList.all isSeparator) (by simp [IsGap])

theorem isToken_of_mem_tokens {text t : String} (h : t ∈ tokens text) : IsToken t := by
  obtain ⟨run, hrun, rfl⟩ := List.mem_map.mp h
  obtain ⟨hpiece, hne⟩ := Text.mem_runs.mp hrun
  rw [IsToken, String.toList_ofList]
  exact ⟨hne, fun c hc => Text.not_sep_of_mem_pieces hpiece hc⟩

/-- The characters of the tokens are those of the text that are no separators. -/
theorem exists_mem_tokens_iff {text : String} {c : Char} :
    (∃ t ∈ tokens text, c ∈ t.toList) ↔ c ∈ text.toList ∧ isSeparator c = false := by
  have hruns : (∃ run ∈ Text.runs isSeparator text.toList, c ∈ run) ↔
      c ∈ text.toList ∧ isSeparator c = false := by
    rw [← List.mem_flatten, Text.flatten_runs, List.mem_filter, Bool.not_eq_true']
  rw [← hruns, tokens]
  constructor
  · rintro ⟨t, ht, hc⟩
    obtain ⟨run, hrun, rfl⟩ := List.mem_map.mp ht
    exact ⟨run, hrun, by rwa [String.toList_ofList] at hc⟩
  · rintro ⟨run, hrun, hc⟩
    exact ⟨String.ofList run, List.mem_map_of_mem hrun, by rwa [String.toList_ofList]⟩

theorem tokens_empty : tokens "" = [] := rfl

theorem IsToken.tokens_eq {t : String} (h : IsToken t) : tokens t = [t] := by
  rw [tokens, Text.runs_of_not_sep h.1 h.2]
  simp

/-- Separators cut a text into the tokens before them and the tokens behind them. -/
theorem IsGap.tokens_append {gap : String} (h : IsGap gap) (s t : String) :
    tokens (s ++ gap ++ t) = tokens s ++ tokens t := by
  rw [tokens, String.toList_append, String.toList_append, List.append_assoc,
    Text.runs_append_separators_append h.1 h.2, List.map_append]
  rfl

/-- Tokens with separators between them are cut into the same tokens again. -/
theorem IsGap.tokens_intercalate {gap : String} (h : IsGap gap) {ts : List String}
    (hts : ∀ t ∈ ts, IsToken t) : tokens (gap.intercalate ts) = ts := by
  induction ts with
  | nil => rfl
  | cons t ts ih =>
      have ht : tokens t = [t] := (hts t List.mem_cons_self).tokens_eq
      cases ts with
      | nil => rw [String.intercalate_singleton, ht]
      | cons u us =>
          have hrest : tokens (gap.intercalate (u :: us)) = u :: us :=
            ih fun v hv => hts v (List.mem_cons_of_mem t hv)
          rw [String.intercalate_cons_cons, h.tokens_append, ht, hrest, List.singleton_append]

/-! ## Maximal runs -/

theorem mem_zip_tokens_iff {starts : List Nat} {start : Nat} {t text : String} :
    (start, t) ∈ starts.zip (tokens text) ↔
      (start, t.toList) ∈ starts.zip (Text.runs isSeparator text.toList) := by
  rw [tokens, List.zip_map_right, List.mem_map]
  constructor
  · rintro ⟨⟨s, run⟩, hmem, heq⟩
    obtain ⟨rfl, rfl⟩ := Prod.mk.inj heq
    rwa [String.toList_ofList]
  · intro hmem
    exact ⟨(start, t.toList), hmem, by simp⟩

/-- The tokens, joined up, are the text without its separators. -/
theorem toList_join_tokens (text : String) :
    (String.join (tokens text)).toList = text.toList.filter fun c => !isSeparator c := by
  rw [String.toList_join, tokens, List.flatMap_map, ← Text.flatten_runs, List.flatten_eq_flatMap]
  congr 1
  funext run
  exact String.toList_ofList

/-- A text made of words, each with what stands behind it, and of what stands in front of them
all. -/
def spacedOut (front : String) (words : List (String × String)) : String :=
  front ++ String.join (words.map fun w => w.1 ++ w.2)

/-- Tokens are found again whatever separators stand around them, if there are some between any
two of them. -/
theorem tokens_spacedOut {front : String} {words : List (String × String)}
    (hfront : ∀ c ∈ front.toList, isSeparator c = true)
    (hwords : ∀ w ∈ words, IsToken w.1 ∧ ∀ c ∈ w.2.toList, isSeparator c = true)
    (hbetween : ∀ gap ∈ (words.map Prod.snd).dropLast, gap ≠ "") :
    tokens (spacedOut front words) = words.map Prod.fst := by
  have hparts : ∀ w ∈ words.map fun w => (w.1.toList, w.2.toList),
      w.1 ≠ [] ∧ (∀ c ∈ w.1, isSeparator c = false) ∧ ∀ c ∈ w.2, isSeparator c = true :=
    List.forall_mem_map.mpr fun w hw => ⟨(hwords w hw).1.1, (hwords w hw).1.2, (hwords w hw).2⟩
  have hgaps : ∀ gap ∈ ((words.map fun w => (w.1.toList, w.2.toList)).map Prod.snd).dropLast,
      gap ≠ [] := by
    have hsnd : (words.map fun w => (w.1.toList, w.2.toList)).map Prod.snd =
        (words.map Prod.snd).map String.toList := by simp
    rw [hsnd, ← List.map_dropLast]
    exact List.forall_mem_map.mpr fun gap hgap hnil =>
      hbetween gap hgap (String.toList_eq_nil_iff.mp hnil)
  have htext : (spacedOut front words).toList =
      front.toList ++
        (words.map fun w => (w.1.toList, w.2.toList)).flatMap fun w => w.1 ++ w.2 := by
    simp [spacedOut, String.toList_append, String.toList_join, List.flatMap_map]
  have hspaced := Text.spaced_flatMap hfront hparts hgaps
  rw [tokens, htext, hspaced.runs_eq]
  simp

/-- The tokens of a text are its maximal runs of characters other than blanks, commas and
parentheses, each once and in the order in which they start.  None is empty or holds a
separator, and joined up they are the text without its separators.  Tokens with separators
around them, and some between any two of them, are cut into the same tokens again, and so an
instruction is read alike, or refused alike, with other separators in the place of some. -/
theorem tokens_are_maximal_runs :
    (∀ c, isSeparator c = true ↔ Text.isBlank c = true ∨ c = ',' ∨ c = '(' ∨ c = ')') ∧
    (∀ text, ∃ starts : List Nat, starts.length = (tokens text).length ∧ starts.Pairwise (· < ·) ∧
      ∀ start t, (start, t) ∈ starts.zip (tokens text) ↔
        Text.IsMaximalRun isSeparator text.toList start t.toList) ∧
    (∀ text, (∀ t ∈ tokens text, t ≠ "" ∧ ∀ c ∈ t.toList, isSeparator c = false) ∧
      (String.join (tokens text)).toList = text.toList.filter fun c => !isSeparator c) ∧
    (∀ front words, (∀ c ∈ front.toList, isSeparator c = true) →
      (∀ w ∈ words, IsToken w.1 ∧ ∀ c ∈ w.2.toList, isSeparator c = true) →
      (∀ gap ∈ (words.map Prod.snd).dropLast, gap ≠ "") →
      tokens (spacedOut front words) = words.map Prod.fst) ∧
    ∀ before gap gap' behind, IsGap gap → IsGap gap' →
      read (before ++ gap ++ behind) = read (before ++ gap' ++ behind) := by
  refine ⟨?_, ?_, ?_, fun front words => tokens_spacedOut, ?_⟩
  · intro c
    simp [isSeparator, operandMarks]
  · intro text
    obtain ⟨starts, hlength, hascending, hruns⟩ := Text.exists_starts_runs isSeparator text.toList
    refine ⟨starts, by rw [hlength, tokens, List.length_map], hascending, fun start t => ?_⟩
    rw [mem_zip_tokens_iff, hruns]
  · intro text
    refine ⟨fun t ht => ?_, toList_join_tokens text⟩
    obtain ⟨hne, hnot⟩ := isToken_of_mem_tokens ht
    exact ⟨fun hempty => hne (String.toList_eq_nil_iff.mpr hempty), hnot⟩
  · intro before gap gap' behind hgap hgap'
    rw [read, read, hgap.tokens_append, hgap'.tokens_append]

/-- A no-break space and marks of all kinds between tokens, and nothing behind the last one. -/
theorem tokens_are_maximal_runs_around_memory_operand :
    let words := [("LW", "\u00a0"), ("$t0", ", ,\t"), ("-4", "("), ("$sp", ")"), ("x", "")]
    (∀ c ∈ "\t".toList, isSeparator c = true) ∧
      (∀ w ∈ words, IsToken w.1 ∧ ∀ c ∈ w.2.toList, isSeparator c = true) ∧
      (∀ gap ∈ (words.map Prod.snd).dropLast, gap ≠ "") ∧
      spacedOut "\t" words = "\tLW\u00a0$t0, ,\t-4($sp)x" ∧
      tokens (spacedOut "\t" words) = ["LW", "$t0", "-4", "$sp", "x"] ∧
      IsGap "\u00a0(" ∧ IsGap "," ∧
        read ("lw $t0 4" ++ "\u00a0(" ++ "$sp") = read ("lw $t0 4" ++ "," ++ "$sp") := by
  intro words
  have hfront : ∀ c ∈ "\t".toList, isSeparator c = true := List.all_eq_true.mp (by decide)
  have hwords : ∀ w ∈ words, IsToken w.1 ∧ ∀ c ∈ w.2.toList, isSeparator c = true := by
    have hall : ∀ w ∈ words, IsToken w.1 ∧ w.2.toList.all isSeparator = true := by decide
    exact fun w hw => (hall w hw).imp_right List.all_eq_true.mp
  have hbetween : ∀ gap ∈ (words.map Prod.snd).dropLast, gap ≠ "" := by decide
  have hgap : IsGap "\u00a0(" ∧ IsGap "," := by decide
  obtain ⟨-, -, -, hspaced, hread⟩ := tokens_are_maximal_runs
  exact ⟨hfront, hwords, hbetween,
    by decide, hspaced "\t" words hfront hwords hbetween, hgap.1, hgap.2,
    hread _ _ _ _ hgap.1 hgap.2⟩

end MipsMachine.Instruction
