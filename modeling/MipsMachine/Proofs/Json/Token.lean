import MipsMachine.Json.Token
import MipsMachine.Proofs.Numeral

set_option autoImplicit false

/-!
# Tokens in a text

A token reads back from its spelling whatever stands behind it, but for a number, which must
not be followed by more of a number (`scanToken_spelling`).  `Spells` says without reading
anything which rows of tokens a text spells; reading follows it (`Spells.scan_eq`), so a text
spells one row at most.  Both ways to write a row of tokens spell it, as long as no two numbers
stand side by side (`spells_compact`, `spells_laidOut`).
-/

namespace MipsMachine.Json.Token

/-- The token is a number. -/
def IsNumber : Token → Prop
  | .number _ => True
  | _ => False

theorem isNumber_iff {t : Token} : t.IsNumber ↔ ∃ cs, t = .number cs := by
  cases t <;> simp [IsNumber]

/-- The token reads back from its spelling: a number is spelt like an integer, and a string
denotes a text. -/
def Readable : Token → Prop
  | .number cs => ∃ v, cs = (Numeral.integer v).toList
  | .string text => text ≠ none
  | _ => True

/-- The character goes on with a number. -/
def extendsNumber (c : Char) : Bool := isDigit c || c == '.' || c == 'e' || c == 'E'

/-- A number may stop before the text. -/
def Ends (rest : List Char) : Prop := ∀ c ∈ rest.head?, extendsNumber c = false

theorem ends_nil : Ends [] := by
  intro c hc
  cases hc

theorem ends_cons {c : Char} {cs : List Char} (h : extendsNumber c = false) : Ends (c :: cs) := by
  intro d hd
  cases hd
  exact h

/-! ## Numbers -/

theorem isDigit_of_mem_digits {n : Nat} {c : Char} (h : c ∈ Numeral.digits 10 n) :
    isDigit c = true := by
  have hdigit := Numeral.isDigit_of_mem_digits h
  simpa [Char.isDigit, isDigit, Char.le_def] using hdigit

theorem scanDigits_append {ds rest : List Char} (hne : ds ≠ []) (hds : ∀ c ∈ ds, isDigit c = true)
    (hrest : Ends rest) : scanDigits (ds ++ rest) = some (ds, rest) := by
  have hstop : rest.takeWhile isDigit = [] ∧ rest.dropWhile isDigit = rest := by
    cases rest with
    | nil => exact ⟨rfl, rfl⟩
    | cons c cs =>
        have hc : isDigit c = false := by
          have hnone := hrest c rfl
          simp only [extendsNumber, Bool.or_eq_false_iff] at hnone
          exact hnone.1.1.1
        simp [hc]
  obtain ⟨d, ds', rfl⟩ := List.exists_cons_of_ne_nil hne
  rw [scanDigits, List.takeWhile_append_of_pos hds, List.dropWhile_append_of_pos hds, hstop.1,
    hstop.2, List.append_nil]

theorem scanWhole_digits (n : Nat) {rest : List Char} (hrest : Ends rest) :
    scanWhole (Numeral.digits 10 n ++ rest) = some (Numeral.digits 10 n, rest) := by
  rcases Nat.eq_zero_or_pos n with rfl | hpos
  · rfl
  · have hhead := @Numeral.head?_digits_ne_zero 10 (by decide) (by decide) n hpos
    rw [scanWhole]
    · exact scanDigits_append (Numeral.digits_ne_nil 10 n) (fun c => isDigit_of_mem_digits) hrest
    · intro cs hcs
      rw [← List.head?_append_of_ne_nil _ (Numeral.digits_ne_nil 10 n), hcs] at hhead
      exact hhead rfl

theorem scanFraction_of_ends {rest : List Char} (h : Ends rest) :
    scanFraction rest = some ([], rest) := by
  rw [scanFraction]
  rintro cs rfl
  exact absurd (h '.' rfl) (by decide)

theorem scanExponent_of_ends {rest : List Char} (h : Ends rest) :
    scanExponent rest = some ([], rest) := by
  rw [scanExponent]
  · rintro cs rfl
    exact absurd (h 'e' rfl) (by decide)
  · rintro cs rfl
    exact absurd (h 'E' rfl) (by decide)

theorem scanMagnitude_digits (n : Nat) {rest : List Char} (hrest : Ends rest) :
    scanMagnitude (Numeral.digits 10 n ++ rest) = some (Numeral.digits 10 n, rest) := by
  simp [scanMagnitude, scanWhole_digits n hrest, scanFraction_of_ends hrest,
    scanExponent_of_ends hrest]

theorem scanNumber_integer (v : Int) {rest : List Char} (hrest : Ends rest) :
    scanNumber ((Numeral.integer v).toList ++ rest) = some ((Numeral.integer v).toList, rest) := by
  cases v with
  | ofNat n =>
      rw [Numeral.integer, Numeral.toList_natural, scanNumber]
      · exact scanMagnitude_digits n hrest
      · intro cs hcs
        have hmem : '-' ∈ Numeral.digits 10 n := by
          apply List.mem_of_mem_head?
          rw [← List.head?_append_of_ne_nil _ (Numeral.digits_ne_nil 10 n), hcs]
          rfl
        exact absurd (isDigit_of_mem_digits hmem) (by decide)
  | negSucc n =>
      rw [Numeral.toList_integer_negSucc, List.cons_append, scanNumber,
        scanMagnitude_digits _ hrest]
      rfl

/-! ## One token -/

/-- No other token starts like a number. -/
theorem scanToken_eq_scanNumber {c : Char} (h : c = '-' ∨ c.isDigit = true) (cs : List Char) :
    scanToken (c :: cs) = (scanNumber (c :: cs)).map fun p => (.number p.1, p.2) := by
  have hne : ∀ d : Char, ¬(d = '-' ∨ d.isDigit = true) → c ≠ d := fun d hd heq => hd (heq ▸ h)
  rw [scanToken]
  all_goals
    intros
    rename_i heq
    exact hne _ (by decide) (List.cons.inj heq).1

theorem scanToken_number (v : Int) {rest : List Char} (hrest : Ends rest) :
    scanToken ((Numeral.integer v).toList ++ rest) =
      some (.number (Numeral.integer v).toList, rest) := by
  have hscan := scanNumber_integer v hrest
  obtain ⟨c, cs, hcs⟩ := List.exists_cons_of_ne_nil (Numeral.toList_integer_ne_nil v)
  have hc : c = '-' ∨ c.isDigit = true := Numeral.mem_integer (hcs ▸ List.mem_cons_self)
  rw [hcs, List.cons_append] at hscan ⊢
  rw [scanToken_eq_scanNumber hc, hscan]
  rfl

/-- A token reads back from its spelling, and reading stops behind it. -/
theorem scanToken_spelling {t : Token} (ht : t.Readable) {rest : List Char}
    (hrest : t.IsNumber → Ends rest) :
    scanToken (t.spelling ++ rest) = some (t, rest) := by
  cases t with
  | number cs =>
      obtain ⟨v, rfl⟩ := ht
      exact scanToken_number v (hrest trivial)
  | string text =>
      cases text with
      | none => exact absurd rfl ht
      | some s =>
          have hspelling : spelling (.string (some s)) =
              '"' :: (s.toList.flatMap escape ++ ['"']) := rfl
          rw [hspelling, List.cons_append, List.append_assoc, scanToken, List.singleton_append,
            scanLiteral_quote, String.ofList_toList]
          rfl
  | bool b => cases b <;> rfl
  | _ => rfl

theorem eq_of_isGap {c : Char} (h : isGap c = true) :
    c = ' ' ∨ c = '\t' ∨ c = '\n' ∨ c = '\r' := by
  simpa [isGap, or_assoc] using h

/-- No token starts with a gap. -/
theorem scanToken_eq_none {c : Char} (h : isGap c = true) (cs : List Char) :
    scanToken (c :: cs) = none := by
  rcases eq_of_isGap h with rfl | rfl | rfl | rfl <;> rfl

theorem extendsNumber_of_isGap {c : Char} (h : isGap c = true) : extendsNumber c = false := by
  rcases eq_of_isGap h with rfl | rfl | rfl | rfl <;> rfl

theorem ends_spelling {t : Token} (h : ¬t.IsNumber) (rest : List Char) :
    Ends (t.spelling ++ rest) := by
  cases t with
  | number cs => exact absurd trivial h
  | bool b => cases b <;> exact ends_cons (by decide)
  | string text => cases text <;> exact ends_cons (by decide)
  | _ => exact ends_cons (by decide)

/-! ## Rows of tokens -/

/-- The text spells the tokens one behind another, with gaps where there are any; a number
stops where no more of a number follows. -/
inductive Spells : List Char → List Token → Prop
  | nil : Spells [] []
  | gap {c : Char} {cs : List Char} {ts : List Token} (hc : isGap c = true) (h : Spells cs ts) :
      Spells (c :: cs) ts
  | token {t : Token} {cs : List Char} {ts : List Token} (ht : t.Readable)
      (hend : t.IsNumber → Ends cs) (h : Spells cs ts) : Spells (t.spelling ++ cs) (t :: ts)

theorem scan_gap {c : Char} (h : isGap c = true) (cs : List Char) : scan (c :: cs) = scan cs := by
  rw [scan, if_pos h]

theorem scan_token {cs rest : List Char} {t : Token} (h : scanToken cs = some (t, rest)) :
    scan cs = (scan rest).map (t :: ·) := by
  cases cs with
  | nil => cases h
  | cons c cs =>
      have hgap : ¬isGap c = true := by
        intro hc
        rw [scanToken_eq_none hc] at h
        cases h
      rw [scan, if_neg hgap]
      split
      · next hnone => rw [h] at hnone; cases hnone
      · next hsome => rw [h] at hsome; cases hsome; rfl

/-- Reading finds the tokens that a text spells. -/
theorem Spells.scan_eq {cs : List Char} {ts : List Token} (h : Spells cs ts) :
    scan cs = some ts := by
  induction h with
  | nil => rw [scan]
  | gap hc _ ih => rw [scan_gap hc, ih]
  | token ht hend _ ih => rw [scan_token (scanToken_spelling ht hend), ih]; rfl

theorem Spells.append_gaps {gaps cs : List Char} {ts : List Token}
    (hgaps : ∀ c ∈ gaps, isGap c = true) (h : Spells cs ts) : Spells (gaps ++ cs) ts := by
  induction gaps with
  | nil => exact h
  | cons c gaps ih =>
      obtain ⟨hc, hgaps⟩ := List.forall_mem_cons.mp hgaps
      exact .gap hc (ih hgaps)

/-- A text in which something other than a number comes first ends the number before it. -/
theorem Spells.ends {cs : List Char} {ts : List Token} (h : Spells cs ts)
    (hts : ∀ t ∈ ts.head?, ¬t.IsNumber) :
    Ends cs := by
  cases h with
  | nil => exact ends_nil
  | gap hc => exact ends_cons (extendsNumber_of_isGap hc)
  | token => exact ends_spelling (hts _ rfl) _

/-! ## Both ways to write tokens -/

/-- The tokens can be told from a text in which they stand one behind another. -/
structure Legible (ts : List Token) : Prop where
  readable : ∀ t ∈ ts, t.Readable
  /-- No two numbers stand side by side. -/
  apart : ts.IsChain fun t u => t.IsNumber → ¬u.IsNumber

theorem Legible.tail {t : Token} {ts : List Token} (h : Legible (t :: ts)) : Legible ts :=
  ⟨(List.forall_mem_cons.mp h.readable).2, h.apart.of_cons⟩

theorem Spells.cons {t : Token} {cs : List Char} {ts : List Token} (hts : Legible (t :: ts))
    (h : Spells cs ts) :
    Spells (t.spelling ++ cs) (t :: ts) := by
  refine .token (hts.readable t List.mem_cons_self) (fun hnumber => h.ends fun u hu => ?_) h
  obtain ⟨us, rfl⟩ := List.head?_eq_some_iff.mp hu
  exact (List.isChain_cons_cons.mp hts.apart).1 hnumber

theorem spells_compact {ts : List Token} (h : Legible ts) : Spells (ts.flatMap spelling) ts := by
  induction ts with
  | nil => exact .nil
  | cons t ts ih => exact (ih h.tail).cons h

theorem Spells.newLine {cs : List Char} {ts : List Token} (h : Spells cs ts) (depth : Nat) :
    Spells (newLine depth ++ cs) ts := by
  refine h.append_gaps fun c hc => ?_
  rcases List.mem_cons.mp hc with rfl | hc
  · rfl
  · rw [List.eq_of_mem_replicate hc]
    rfl

theorem spells_laidOut {ts : List Token} (h : Legible ts) (depth : Nat) :
    Spells (laidOut depth ts) ts := by
  fun_induction laidOut depth ts with
  | case1 => exact .nil
  | case2 depth ts ih => exact ((ih h.tail.tail).cons h.tail).cons h
  | case3 depth ts ih => exact ((ih h.tail.tail).cons h.tail).cons h
  | case4 depth ts _ ih => exact ((ih h.tail).newLine (depth + 1)).cons h
  | case5 depth ts _ ih => exact ((ih h.tail).newLine (depth + 1)).cons h
  | case6 depth ts ih =>
      rw [List.append_assoc]
      exact ((ih h.tail).cons h).newLine (depth - 1)
  | case7 depth ts ih =>
      rw [List.append_assoc]
      exact ((ih h.tail).cons h).newLine (depth - 1)
  | case8 depth ts ih => exact ((ih h.tail).newLine depth).cons h
  | case9 depth ts ih => exact ((ih h.tail).gap rfl).cons h
  | case10 depth t ts _ _ _ _ _ _ _ _ ih => exact (ih h.tail).cons h

end MipsMachine.Json.Token
