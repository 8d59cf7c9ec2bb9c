import MipsMachine.Numeral

set_option autoImplicit false

/-!
# Integer literals

An immediate is an optional sign, then decimal digits, or `0x` (or `0X`) and hexadecimal
digits.  The magnitude is at most `2 ^ 63 - 1` whatever the sign, so negation never wraps, and
the least 64-bit number has no literal.
-/

namespace MipsMachine.Immediate

/-- Whether a literal starts with a minus sign, and what follows its sign. -/
def unsign : List Char → Bool × List Char
  | '-' :: cs => (true, cs)
  | '+' :: cs => (false, cs)
  | cs => (false, cs)

/-- The number that a literal without sign denotes. -/
def magnitude? : List Char → Option Nat
  | '0' :: 'x' :: cs => Numeral.value? 16 cs
  | '0' :: 'X' :: cs => Numeral.value? 16 cs
  | cs => Numeral.value? 10 cs

/-- The greatest magnitude of a literal, `2 ^ 63 - 1`. -/
def limit : Nat := 9223372036854775807

/-- The number with the given sign and magnitude. -/
def signed (negative : Bool) (n : Nat) : Int64 :=
  if negative then -Int64.ofNat n else Int64.ofNat n

/-- The value of a literal; nothing for a text that is no literal. -/
def read? (s : String) : Option Int64 :=
  match unsign s.toList with
  | (negative, body) =>
    match magnitude? body with
    | some n => if n ≤ limit then some (signed negative n) else none
    | none => none

/-- The sign and the magnitude decide the value as an integer. -/
theorem toInt_signed {n : Nat} (h : n ≤ limit) (negative : Bool) :
    (signed negative n).toInt = if negative then -(n : Int) else n := by
  have hn : n < 9223372036854775808 := by simp only [limit] at h; omega
  cases negative
  · simp [signed, Int64.toInt_ofNat_of_lt hn]
  · simp only [signed, if_true, Int64.toInt_neg, Int64.toInt_ofNat_of_lt hn]
    exact Int.bmod_eq_of_le (by omega) (by omega)

end MipsMachine.Immediate
