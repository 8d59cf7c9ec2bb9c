import MipsMachine.Numeral

set_option autoImplicit false

/-!
# Two decimal places

A double is written with exactly two decimal places.  The double is taken as the exact number
it is, a whole number times a power of two, and rounded to hundredths in whole-number
arithmetic: to the nearest hundredth, an exact half to the even one.
-/

namespace MipsMachine.Hundredths

/-- The nearest whole number to `num / den`; of two equally near, the even one. -/
def roundDiv (num den : Nat) : Nat :=
  let q := num / den
  let twice := 2 * (num % den)
  if twice < den then q
  else if den < twice then q + 1
  else q + q % 2

/-- Rounding misses the quotient by at most half. -/
theorem roundDiv_near {num den : Nat} (h : 0 < den) :
    2 * num ≤ (2 * roundDiv num den + 1) * den ∧ 2 * roundDiv num den * den ≤ 2 * num + den := by
  have hdiv := Nat.div_add_mod num den
  have hmod := Nat.mod_lt num h
  have hcomm : den * (num / den) = num / den * den := Nat.mul_comm ..
  unfold roundDiv
  simp only
  split
  · constructor <;> grind
  · split
    · constructor <;> grind
    · rcases Nat.mod_two_eq_zero_or_one (num / den) with h2 | h2 <;> rw [h2] <;>
        constructor <;> grind

/-- An exact half goes to the even neighbour. -/
theorem even_roundDiv_of_half {num den : Nat} (h : 2 * (num % den) = den) :
    roundDiv num den % 2 = 0 := by
  unfold roundDiv
  simp only
  rw [if_neg (by omega), if_neg (by omega)]
  omega

/-- The place value of the lowest bit of a double's exponent field, which stands over 52 bits
of fraction. -/
def fieldUnit : Nat := 1 <<< 52

/-- The exponent field of a double, of eleven bits. -/
def exponentField (x : Float) : Nat := x.toBits.toNat / fieldUnit % 2048

/-- The significand of a finite double: with the exponent, the double is the one times two to
the other. -/
def significand (x : Float) : Nat :=
  let fraction := x.toBits.toNat % fieldUnit
  if exponentField x = 0 then fraction else fraction + fieldUnit

/-- The exponent of a finite double. -/
def exponent (x : Float) : Int :=
  if exponentField x = 0 then -1074 else (exponentField x : Int) - 1075

/-- The hundredths nearest to `m` times two to the `e`. -/
def nearest (m : Nat) (e : Int) : Nat :=
  roundDiv ((100 * m) <<< e.toNat) (1 <<< (-e).toNat)

/-- A number of hundredths with a point before the last two digits. -/
def write (n : Nat) : String :=
  Numeral.natural (n / 100) ++ "." ++ String.ofList (Numeral.padded 10 2 (n % 100))

/-- A finite double that is not negative, with two decimal places. -/
def text (x : Float) : String := write (nearest (significand x) (exponent x))

end MipsMachine.Hundredths
