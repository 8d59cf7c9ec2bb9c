import MipsMachine.Immediate
import MipsMachine.Proofs.Numeral

set_option autoImplicit false

/-!
# Literals and decimal text

The decimal text of a value is a literal for it, with one exception: the least 64-bit number,
whose magnitude is above the limit.  And no literal denotes that number
(`ne_minValue_of_read?`).
-/

namespace MipsMachine.Immediate

/-- Decimal digits carry no sign. -/
theorem unsign_of_isDigit {cs : List Char} (h : ∀ c ∈ cs, c.isDigit = true) :
    unsign cs = (false, cs) := by
  unfold unsign
  split
  · exact absurd (h '-' List.mem_cons_self) (by decide)
  · exact absurd (h '+' List.mem_cons_self) (by decide)
  · rfl

/-- Decimal digits are not taken for hexadecimal ones. -/
theorem magnitude?_of_isDigit {cs : List Char} (h : ∀ c ∈ cs, c.isDigit = true) :
    magnitude? cs = Numeral.value? 10 cs := by
  unfold magnitude?
  split
  · exact absurd (h 'x' (List.mem_cons_of_mem _ List.mem_cons_self)) (by decide)
  · exact absurd (h 'X' (List.mem_cons_of_mem _ List.mem_cons_self)) (by decide)
  · rfl

theorem magnitude?_digits (n : Nat) : magnitude? (Numeral.digits 10 n) = some n := by
  rw [magnitude?_of_isDigit fun _ hc => Numeral.isDigit_of_mem_digits hc]
  exact Numeral.value?_digits (by decide) (by decide) n

/-- The decimal text of a magnitude is a literal without sign. -/
theorem read?_natural {n : Nat} (h : n ≤ limit) :
    read? (Numeral.natural n) = some (signed false n) := by
  rw [read?, Numeral.toList_natural,
    unsign_of_isDigit fun _ hc => Numeral.isDigit_of_mem_digits hc]
  simp [magnitude?_digits, h]

theorem read?_integer_negSucc {n : Nat} (h : n + 1 ≤ limit) :
    read? (Numeral.integer (.negSucc n)) = some (signed true (n + 1)) := by
  rw [read?, Numeral.toList_integer_negSucc, unsign]
  simp [magnitude?_digits, h]

/-- The decimal text of every value but the least is a literal for it. -/
theorem read?_integer {v : Int64} (h : v ≠ Int64.minValue) :
    read? (Numeral.integer v.toInt) = some v := by
  have hlower : -9223372036854775808 ≤ v.toInt := v.le_toInt
  have hupper : v.toInt < 9223372036854775808 := v.toInt_lt
  have hmin : v.toInt ≠ -9223372036854775808 := fun hv => h (Int64.toInt_inj.mp hv)
  cases hv : v.toInt with
  | ofNat n =>
      have hn : n ≤ limit := by
        rw [hv, Int.ofNat_eq_natCast] at hupper
        simp only [limit]
        omega
      rw [Numeral.integer, read?_natural hn, Option.some.injEq, ← Int64.toInt_inj,
        toInt_signed hn, hv]
      rfl
  | negSucc n =>
      have hn : n + 1 ≤ limit := by
        rw [hv] at hlower hmin
        simp only [limit]
        omega
      rw [read?_integer_negSucc hn, Option.some.injEq, ← Int64.toInt_inj, toInt_signed hn, hv]
      rfl

/-- No literal denotes the least 64-bit number. -/
theorem ne_minValue_of_read? {s : String} {v : Int64} (h : read? s = some v) :
    v ≠ Int64.minValue := by
  rw [read?] at h
  split at h
  next negative body _ =>
    split at h
    next n _ =>
      split at h
      next hn =>
        obtain rfl := Option.some.inj h
        intro hmin
        have hvalue := toInt_signed hn negative
        have hleast : Int64.minValue.toInt = -9223372036854775808 := rfl
        rw [hmin, hleast] at hvalue
        simp only [limit] at hn
        split at hvalue <;> omega
      next => cases h
    next => cases h

end MipsMachine.Immediate
