import Mathlib.Data.List.Basic
import Mathlib.Data.List.Induction
import MipsMachine.Numeral

set_option autoImplicit false

/-!
# Numerals and the numbers they denote

`Denotes` says without reading anything which number a row of digits stands for: one digit
stands for its own value, and a digit behind a row stands for itself plus the base times the
number of the row.  Zeros in front are allowed, and letters may be in either case.  Reading
follows this rule and accepts nothing else (`value?_eq_some_iff`).  Writing gives one row for
each number, in lower case and without zeros in front (`denotes_digits`,
`head?_digits_ne_zero`) unless zeros are asked for, so texts of different numbers differ
(`digits_injective`, `integer_injective`).
-/

namespace MipsMachine.Numeral

/-! ## Digits -/

/-- The digits with letters in lower case, each at the place of its value. -/
def lowerDigits : List Char := "0123456789abcdef".toList

/-- The digits with letters in upper case, each at the place of its value. -/
def upperDigits : List Char := "0123456789ABCDEF".toList

/-- The character is a digit of the base, and this is its value. -/
def IsDigit (base : Nat) (c : Char) (d : Nat) : Prop :=
  d < base ∧ (lowerDigits[d]? = some c ∨ upperDigits[d]? = some c)

/-- The last digit in the order of characters is the small letter f. -/
theorem toNat_lt_of_digitValue? {c : Char} {d : Nat} (h : digitValue? c = some d) :
    c.toNat < 103 := by
  by_contra hge
  have hbeyond : ∀ e : Char, e.toNat < 103 → ¬c ≤ e := fun e he hle =>
    hge (Nat.lt_of_le_of_lt (UInt32.le_iff_toNat_le.mp hle) he)
  simp [digitValue?, hbeyond] at h

theorem digitValue?_eq_some_iff {c : Char} {d : Nat} :
    digitValue? c = some d ↔ lowerDigits[d]? = some c ∨ upperDigits[d]? = some c := by
  constructor
  · intro h
    have hall : ∀ k : Fin 103, (digitValue? (Char.ofNat k)).all fun e =>
        lowerDigits[e]? = some (Char.ofNat k) || upperDigits[e]? = some (Char.ofNat k) := by
      decide
    have hc := hall ⟨c.toNat, toNat_lt_of_digitValue? h⟩
    rw [Char.ofNat_toNat, h] at hc
    simpa using hc
  · have hlower : ∀ k : Fin 16, lowerDigits[k.val]?.bind digitValue? = some k.val := by decide
    have hupper : ∀ k : Fin 16, upperDigits[k.val]?.bind digitValue? = some k.val := by decide
    rintro (h | h)
    · obtain ⟨hd, -⟩ := List.getElem?_eq_some_iff.mp h
      have hvalue := hlower ⟨d, hd⟩
      rwa [h, Option.bind_some] at hvalue
    · obtain ⟨hd, -⟩ := List.getElem?_eq_some_iff.mp h
      have hvalue := hupper ⟨d, hd⟩
      rwa [h, Option.bind_some] at hvalue

theorem digitIn?_eq_some_iff {base d : Nat} {c : Char} :
    digitIn? base c = some d ↔ IsDigit base c d := by
  rw [digitIn?, Option.filter_eq_some_iff, digitValue?_eq_some_iff, IsDigit,
    decide_eq_true_eq, and_comm]

/-! ## Rows of digits -/

/-- The characters are one or more digits of the base, and they stand for the number. -/
inductive Denotes (base : Nat) : List Char → Nat → Prop
  | digit {c : Char} {d : Nat} (h : IsDigit base c d) : Denotes base [c] d
  | append {cs : List Char} {c : Char} {n d : Nat} (hcs : Denotes base cs n)
      (h : IsDigit base c d) :
      Denotes base (cs ++ [c]) (base * n + d)

theorem Denotes.ne_nil {base n : Nat} {cs : List Char} (h : Denotes base cs n) : cs ≠ [] := by
  cases h with
  | digit => exact List.cons_ne_nil _ _
  | append => simp

theorem Denotes.exists_isDigit {base n : Nat} {cs : List Char} (h : Denotes base cs n) :
    ∀ c ∈ cs, ∃ d, IsDigit base c d := by
  induction h with
  | digit h => exact List.forall_mem_singleton.mpr ⟨_, h⟩
  | append _ h ih => exact List.forall_mem_append.mpr ⟨ih, List.forall_mem_singleton.mpr ⟨_, h⟩⟩

/-- A character without a value stands in no row of digits. -/
theorem Denotes.not_mem {base n : Nat} {cs : List Char} (h : Denotes base cs n) {c : Char}
    (hc : digitValue? c = none) : c ∉ cs := by
  intro hmem
  obtain ⟨d, -, hd⟩ := h.exists_isDigit c hmem
  rw [digitValue?_eq_some_iff.mpr hd] at hc
  cases hc

theorem value?_singleton (base : Nat) (c : Char) : value? base [c] = digitIn? base c := by
  rw [value?, if_neg (by simp), valueFrom?]
  cases digitIn? base c with
  | none => rfl
  | some d => exact congrArg some (Nat.zero_add d)

/-- The last digit is read behind the others. -/
theorem value?_concat {base : Nat} {cs : List Char} (hne : cs ≠ []) (c : Char) :
    value? base (cs ++ [c]) =
      (value? base cs).bind fun n => (digitIn? base c).map fun d => base * n + d := by
  rw [value?, if_neg (by simp), value?, if_neg (by simpa using hne), valueFrom?_append]
  congr 1
  funext n
  rw [valueFrom?]
  cases digitIn? base c <;> rfl

/-- Reading is the decision which number a row of digits stands for. -/
theorem value?_eq_some_iff {base n : Nat} {cs : List Char} :
    value? base cs = some n ↔ Denotes base cs n := by
  constructor
  · intro h
    induction cs using List.reverseRecOn generalizing n with
    | nil => cases h
    | append_singleton cs c ih =>
        by_cases hne : cs = []
        · subst hne
          rw [List.nil_append, value?_singleton] at h
          exact .digit (digitIn?_eq_some_iff.mp h)
        · rw [value?_concat hne, Option.bind_eq_some_iff] at h
          obtain ⟨m, hm, h⟩ := h
          obtain ⟨d, hd, rfl⟩ := Option.map_eq_some_iff.mp h
          exact .append (ih hm) (digitIn?_eq_some_iff.mp hd)
  · intro h
    induction h with
    | digit h => rw [value?_singleton, digitIn?_eq_some_iff.mpr h]
    | @append cs c n d hcs h ih =>
        have hne : cs ≠ [] := by
          rintro rfl
          cases ih
        rw [value?_concat hne, ih, Option.bind_some, digitIn?_eq_some_iff.mpr h]
        rfl

/-- A row of digits stands for one number. -/
theorem Denotes.unique {base m n : Nat} {cs : List Char} (hm : Denotes base cs m)
    (hn : Denotes base cs n) : m = n :=
  Option.some.inj ((value?_eq_some_iff.mpr hm).symm.trans (value?_eq_some_iff.mpr hn))

/-! ## Written digits -/

theorem denotes_digits {base : Nat} (h1 : 1 < base) (hb : base ≤ 16) (n : Nat) :
    Denotes base (digits base n) n :=
  value?_eq_some_iff.mp (value?_digits h1 hb n)

theorem denotes_padded {base : Nat} (h1 : 1 < base) (hb : base ≤ 16) (width n : Nat) :
    Denotes base (padded base width n) n :=
  value?_eq_some_iff.mp (value?_padded h1 hb width n)

theorem mem_lowerDigits_digitChar {d : Nat} (hd : d < 16) : d.digitChar ∈ lowerDigits := by
  have hall : ∀ k : Fin 16, Nat.digitChar k ∈ lowerDigits := by decide
  exact hall ⟨d, hd⟩

/-- The last digit of a number that needs more than one is written behind those of the rest. -/
theorem digits_of_base_le {base n : Nat} (h1 : 1 < base) (hn : base ≤ n) :
    digits base n = digits base (n / base) ++ [(n % base).digitChar] :=
  Nat.toDigits_of_base_le h1 hn

theorem digits_of_lt_base {base n : Nat} (hn : n < base) :
    digits base n = [n.digitChar] := Nat.toDigits_of_lt_base hn

/-- Digits are written in lower case. -/
theorem mem_lowerDigits_of_mem_digits {base : Nat} (h1 : 1 < base) (hb : base ≤ 16)
    {n : Nat} {c : Char} (h : c ∈ digits base n) : c ∈ lowerDigits := by
  induction n using Nat.strongRecOn with
  | _ n ih =>
      by_cases hn : n < base
      · rw [digits_of_lt_base hn, List.mem_singleton] at h
        exact h ▸ mem_lowerDigits_digitChar (Nat.lt_of_lt_of_le hn hb)
      · rw [digits_of_base_le h1 (Nat.le_of_not_lt hn), List.mem_append, List.mem_singleton] at h
        rcases h with h | rfl
        · exact ih (n / base) (Nat.div_lt_self (by omega) h1) h
        · exact mem_lowerDigits_digitChar (Nat.lt_of_lt_of_le (Nat.mod_lt n (by omega)) hb)

/-- No number but zero is written with a zero in front. -/
theorem head?_digits_ne_zero {base : Nat} (h1 : 1 < base) (hb : base ≤ 16) {n : Nat}
    (hpos : 0 < n) :
    (digits base n).head? ≠ some '0' := by
  induction n using Nat.strongRecOn with
  | _ n ih =>
      by_cases hn : n < base
      · have hall : ∀ k : Fin 16, 0 < k.val → Nat.digitChar k ≠ '0' := by decide
        rw [digits_of_lt_base hn, List.head?_cons, ne_eq, Option.some.injEq]
        exact hall ⟨n, Nat.lt_of_lt_of_le hn hb⟩ hpos
      · have hle : base ≤ n := Nat.le_of_not_lt hn
        rw [digits_of_base_le h1 hle,
          List.head?_append_of_ne_nil _ (digits_ne_nil base (n / base))]
        exact ih (n / base) (Nat.div_lt_self hpos h1) (Nat.div_pos hle (by omega))

theorem digits_injective {base : Nat} (h1 : 1 < base) (hb : base ≤ 16) {m n : Nat}
    (h : digits base m = digits base n) : m = n :=
  (denotes_digits h1 hb m).unique (h ▸ denotes_digits h1 hb n)

/-! ## Digits filled up with zeros -/

theorem length_padded (base width n : Nat) :
    (padded base width n).length = max width (digits base n).length := by
  rw [padded, List.length_append, List.length_replicate]
  omega

theorem mem_lowerDigits_of_mem_padded {base width n : Nat} (h1 : 1 < base)
    (hb : base ≤ 16) {c : Char} (h : c ∈ padded base width n) : c ∈ lowerDigits := by
  rcases List.mem_append.mp h with hzero | hdigit
  · rw [List.eq_of_mem_replicate hzero]
    decide
  · exact mem_lowerDigits_of_mem_digits h1 hb hdigit

/-- A number that needs more digits than are asked for is written without a zero in front. -/
theorem head?_padded_ne_zero {base width n : Nat} (h1 : 1 < base) (hb : base ≤ 16)
    (hwidth : 0 < width) (h : width < (padded base width n).length) :
    (padded base width n).head? ≠ some '0' := by
  rw [length_padded] at h
  have hlong : width < (digits base n).length := by omega
  have hpos : 0 < n := by
    rcases Nat.eq_zero_or_pos n with rfl | hpos
    · rw [digits_of_lt_base (Nat.lt_of_succ_lt h1), List.length_singleton] at hlong
      omega
    · exact hpos
  rw [padded, Nat.sub_eq_zero_of_le (Nat.le_of_lt hlong), List.replicate_zero, List.nil_append]
  exact head?_digits_ne_zero h1 hb hpos

/-! ## Decimal texts -/

theorem isDigit_of_mem_digits {n : Nat} {c : Char} (h : c ∈ digits 10 n) : c.isDigit = true :=
  Nat.isDigit_of_mem_toDigits (by decide) (by decide) h

theorem integer_eq_toString (v : Int) : integer v = toString v := by
  cases v <;> rfl

theorem toList_natural (n : Nat) : (natural n).toList = digits 10 n := String.toList_ofList

theorem toList_integer_negSucc (n : Nat) :
    (integer (.negSucc n)).toList = '-' :: digits 10 (n + 1) := by
  rw [integer, String.toList_append, toList_natural]
  rfl

theorem toList_integer_ne_nil (v : Int) : (integer v).toList ≠ [] := by
  cases v with
  | ofNat n => exact toList_natural n ▸ digits_ne_nil 10 n
  | negSucc n => exact toList_integer_negSucc n ▸ List.cons_ne_nil _ _

theorem natural_injective {m n : Nat} (h : natural m = natural n) : m = n := by
  rw [← String.toList_inj, toList_natural, toList_natural] at h
  exact digits_injective (by decide) (by decide) h

theorem natural_ne_integer_negSucc (m n : Nat) : natural m ≠ integer (.negSucc n) := by
  intro h
  rw [← String.toList_inj, toList_natural, toList_integer_negSucc] at h
  have hsign : ('-').isDigit = true := isDigit_of_mem_digits (h ▸ List.mem_cons_self)
  exact absurd hsign (by decide)

theorem integer_injective {v w : Int} (h : integer v = integer w) : v = w := by
  cases v with
  | ofNat m =>
      cases w with
      | ofNat n => rw [natural_injective h]
      | negSucc n => exact absurd h (natural_ne_integer_negSucc m n)
  | negSucc m =>
      cases w with
      | ofNat n => exact absurd h.symm (natural_ne_integer_negSucc n m)
      | negSucc n =>
          rw [← String.toList_inj, toList_integer_negSucc, toList_integer_negSucc] at h
          have hdigits := digits_injective (by decide) (by decide) (List.cons.inj h).2
          rw [Nat.succ.inj hdigits]

/-- The text of an integer holds digits and a minus sign. -/
theorem mem_integer {v : Int} {c : Char} (h : c ∈ (integer v).toList) :
    c = '-' ∨ c.isDigit = true := by
  cases v with
  | ofNat n =>
      rw [integer, toList_natural] at h
      exact Or.inr (isDigit_of_mem_digits h)
  | negSucc n =>
      rw [toList_integer_negSucc, List.mem_cons] at h
      exact h.imp_right isDigit_of_mem_digits

end MipsMachine.Numeral
