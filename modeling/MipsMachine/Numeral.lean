set_option autoImplicit false

/-!
# Numerals

Numbers written with digits in a base up to sixteen, most significant digit first, letters in
lower case.  Readers take letters of either case.  The two directions fit together:
`value?_digits`.
-/

namespace MipsMachine.Numeral

/-! ## Writing -/

/-- The digits of `n` in the given base, without leading zeros; zero is one digit. -/
def digits (base n : Nat) : List Char := Nat.toDigits base n

/-- The digits of `n`, filled up with zeros at the front to at least `width` characters. -/
def padded (base width n : Nat) : List Char :=
  List.replicate (width - (digits base n).length) '0' ++ digits base n

/-- The decimal text of a natural number. -/
def natural (n : Nat) : String := String.ofList (digits 10 n)

/-- The decimal text of an integer: a minus sign only for negative numbers. -/
def integer : Int → String
  | .ofNat n => natural n
  | .negSucc n => "-" ++ natural (n + 1)

/-- Lower-case hexadecimal text behind `0x`, with at least eight digits. -/
def address (n : Nat) : String := "0x" ++ String.ofList (padded 16 8 n)

/-! ## Reading -/

/-- What an ASCII hexadecimal digit of either case stands for. -/
def digitValue? (c : Char) : Option Nat :=
  if '0' ≤ c ∧ c ≤ '9' then some (c.toNat - 48)
  else if 'a' ≤ c ∧ c ≤ 'f' then some (c.toNat - 87)
  else if 'A' ≤ c ∧ c ≤ 'F' then some (c.toNat - 55)
  else none

/-- What a digit stands for in the given base; no digit of the base is that large or larger. -/
def digitIn? (base : Nat) (c : Char) : Option Nat :=
  (digitValue? c).filter (· < base)

/-- Read on from `n`, one digit after another. -/
def valueFrom? (base : Nat) (n : Nat) : List Char → Option Nat
  | [] => some n
  | c :: cs =>
    match digitIn? base c with
    | some d => valueFrom? base (base * n + d) cs
    | none => none

/-- The number that a non-empty row of digits denotes. -/
def value? (base : Nat) (cs : List Char) : Option Nat :=
  if cs.isEmpty then none else valueFrom? base 0 cs

/-! ## Reading what was written -/

/-- The sixteen digits stand for themselves. -/
theorem digitIn?_digitChar {base d : Nat} (hb : base ≤ 16) (hd : d < base) :
    digitIn? base d.digitChar = some d := by
  have key : ∀ k : Fin 16, digitValue? (Nat.digitChar k) = some k.val := by decide
  have := key ⟨d, by omega⟩
  simp only at this
  simp [digitIn?, this, hd]

theorem valueFrom?_append (base n : Nat) (xs ys : List Char) :
    valueFrom? base n (xs ++ ys) = (valueFrom? base n xs).bind fun m => valueFrom? base m ys := by
  induction xs generalizing n with
  | nil => rfl
  | cons c cs ih =>
      simp only [List.cons_append, valueFrom?]
      cases digitIn? base c with
      | none => rfl
      | some d => exact ih _

theorem valueFrom?_digits {base : Nat} (h1 : 1 < base) (hb : base ≤ 16) (n : Nat) :
    valueFrom? base 0 (digits base n) = some n := by
  induction n using Nat.strongRecOn with
  | _ n ih =>
      by_cases hn : n < base
      · simp [digits, Nat.toDigits_of_lt_base hn, valueFrom?, digitIn?_digitChar hb hn]
      · have hlt : n / base < n := Nat.div_lt_self (by omega) h1
        have hmod : n % base < base := Nat.mod_lt _ (by omega)
        have hq : valueFrom? base 0 (Nat.toDigits base (n / base)) = some (n / base) := ih _ hlt
        rw [digits, Nat.toDigits_of_base_le h1 (by omega), valueFrom?_append, hq]
        simp [valueFrom?, digitIn?_digitChar hb hmod, Nat.div_add_mod]

theorem digits_ne_nil (base n : Nat) : digits base n ≠ [] := Nat.toDigits_ne_nil

/-- The digits of a number read back as that number. -/
theorem value?_digits {base : Nat} (h1 : 1 < base) (hb : base ≤ 16) (n : Nat) :
    value? base (digits base n) = some n := by
  simp [value?, digits_ne_nil, valueFrom?_digits h1 hb]

theorem valueFrom?_replicate_zero {base : Nat} (h : 0 < base) (k : Nat) (cs : List Char) :
    valueFrom? base 0 (List.replicate k '0' ++ cs) = valueFrom? base 0 cs := by
  have hz : digitIn? base '0' = some 0 := by
    have : digitValue? '0' = some 0 := by decide
    simp [digitIn?, this, h]
  induction k with
  | zero => rfl
  | succ k ih => simpa [List.replicate_succ, valueFrom?, hz] using ih

/-- Zeros filled in at the front do not change the number. -/
theorem value?_padded {base : Nat} (h1 : 1 < base) (hb : base ≤ 16) (width n : Nat) :
    value? base (padded base width n) = some n := by
  have hne : padded base width n ≠ [] := by simp [padded, digits_ne_nil]
  rw [value?, if_neg (by simpa using hne), padded, valueFrom?_replicate_zero (by omega),
    valueFrom?_digits h1 hb]

end MipsMachine.Numeral
