import Mathlib.Data.Int.Bitwise
import Mathlib.Data.Int.ModEq
import Mathlib.Tactic.Ring
import MipsMachine.Arithmetic

set_option autoImplicit false

/-!
# Arithmetic on integers

The operations on 64-bit values as operations on the integers that the values stand for.
Bitwise operations are those on two's complement without end (`toInt_and`, `toInt_or`), and a
shift multiplies by a power of two and reduces the product to 64 bits (`toInt_shiftLeft`).
Where the integer result is in range, nothing is reduced; else the one integer in range that is
congruent to it takes its place (`reduced_iff`).
-/

namespace MipsMachine.Arithmetic

/-! ## Shifts -/

/-- Moving a value `n` places up multiplies it by `2 ^ n`. -/
theorem toInt_shiftLeft (value : Int64) (n : Nat) :
    (shiftLeft value n).toInt = (value.toInt * 2 ^ n).bmod 18446744073709551616 := by
  unfold shiftLeft
  split
  next h =>
    have hv : (Int64.ofBitVec (value.toBitVec <<< n)).toInt = (value.toBitVec <<< n).toInt := rfl
    rw [hv, BitVec.toInt_shiftLeft, Nat.shiftLeft_eq, Int.natCast_mul, Int.natCast_pow]
    have hm : ((value.toBitVec.toNat : Int) * 2 ^ n).bmod (2 ^ 64)
        = ((value.toBitVec.toNat : Int).bmod (2 ^ 64) * 2 ^ n).bmod (2 ^ 64) := by
      rw [Int.bmod_mul_bmod]
    rw [show ((2 : Nat) : Int) = 2 from rfl, hm, ← BitVec.toInt_eq_toNat_bmod]
    rfl
  next h =>
    obtain ⟨k, rfl⟩ := Nat.exists_eq_add_of_le (Nat.le_of_not_lt h)
    have : value.toInt * 2 ^ (64 + k) = value.toInt * 2 ^ k * (18446744073709551616 : Nat) := by
      rw [Int.pow_add]
      push_cast
      ring
    rw [this, Int.mul_bmod_left]
    rfl

/-! ## Bits -/

theorem testBit_eq_false_of_le {m k : Nat} (h : m ≤ k) : m.testBit k = false :=
  Nat.testBit_lt_two_pow (Nat.lt_of_le_of_lt h Nat.lt_two_pow_self)

/-- Integers of different signs differ in a bit that is beyond both of them. -/
theorem testBit_ofNat_ne_negSucc (m n : Nat) :
    (Int.ofNat m).testBit (m + n) ≠ (Int.negSucc n).testBit (m + n) := by
  have hm : m.testBit (m + n) = false := testBit_eq_false_of_le (Nat.le_add_right m n)
  have hn : n.testBit (m + n) = false := testBit_eq_false_of_le (Nat.le_add_left n m)
  simp [Int.testBit, hm, hn]

/-- Integers with the same bits are equal. -/
theorem eq_of_testBit_eq {x y : Int} (h : ∀ k, x.testBit k = y.testBit k) : x = y := by
  cases x with
  | ofNat m =>
      cases y with
      | ofNat n => exact congrArg Int.ofNat (Nat.eq_of_testBit_eq h)
      | negSucc n => exact absurd (h (m + n)) (testBit_ofNat_ne_negSucc m n)
  | negSucc m =>
      cases y with
      | ofNat n => exact absurd (h (n + m)).symm (testBit_ofNat_ne_negSucc n m)
      | negSucc n => exact congrArg Int.negSucc (Nat.eq_of_testBit_eq fun k => Bool.not_inj (h k))

/-- The integer that a bit vector stands for has its bits, and its sign from the width on. -/
theorem testBit_toInt {w : Nat} (x : BitVec w) (k : Nat) :
    x.toInt.testBit k = if k < w then x.getLsbD k else x.msb := by
  cases hmsb : x.msb with
  | false =>
      rw [BitVec.toInt_eq_toNat_of_msb hmsb]
      show x.toNat.testBit k = _
      split
      next => rfl
      next hk =>
        have hpow : 2 ^ w ≤ 2 ^ k := Nat.pow_le_pow_right (by decide) (Nat.le_of_not_lt hk)
        exact Nat.testBit_lt_two_pow (Nat.lt_of_lt_of_le x.isLt hpow)
  | true =>
      have hneg : x.toInt = Int.negSucc (2 ^ w - (x.toNat + 1)) := by
        have hlt := x.isLt
        rw [BitVec.toInt_eq_msb_cond, if_pos hmsb]
        omega
      rw [hneg]
      show (!(2 ^ w - (x.toNat + 1)).testBit k) = _
      rw [Nat.testBit_two_pow_sub_succ x.isLt]
      split
      next hk => simp [hk, BitVec.getLsbD]
      next hk => simp [hk]

theorem toInt_and (a b : Int64) : (a &&& b).toInt = a.toInt.land b.toInt := by
  apply eq_of_testBit_eq
  intro k
  have hk := testBit_toInt (a.toBitVec &&& b.toBitVec) k
  rw [BitVec.getLsbD_and, BitVec.msb_and] at hk
  rw [Int.testBit_land]
  refine hk.trans ?_
  show _ = (a.toBitVec.toInt.testBit k && b.toBitVec.toInt.testBit k)
  rw [testBit_toInt, testBit_toInt]
  split <;> rfl

theorem toInt_or (a b : Int64) : (a ||| b).toInt = a.toInt.lor b.toInt := by
  apply eq_of_testBit_eq
  intro k
  have hk := testBit_toInt (a.toBitVec ||| b.toBitVec) k
  rw [BitVec.getLsbD_or, BitVec.msb_or] at hk
  rw [Int.testBit_lor]
  refine hk.trans ?_
  show _ = (a.toBitVec.toInt.testBit k || b.toBitVec.toInt.testBit k)
  rw [testBit_toInt, testBit_toInt]
  split <;> rfl

/-! ## Results in range -/

/-- The integer is one that a 64-bit value stands for. -/
def InRange (v : Int) : Prop :=
  -2 ^ 63 ≤ v ∧ v ≤ 2 ^ 63 - 1

instance (v : Int) : Decidable (InRange v) :=
  inferInstanceAs (Decidable (_ ∧ _))

theorem inRange_toInt (a : Int64) : InRange a.toInt :=
  ⟨a.le_toInt, Int.le_sub_one_of_lt a.toInt_lt⟩

/-- An integer in range is what is left when it is reduced to 64 bits. -/
theorem InRange.bmod_eq {v : Int} (h : InRange v) : v.bmod (2 ^ 64) = v := by
  obtain ⟨hle, hlt⟩ := h
  exact Int.bmod_eq_of_le (by omega) (by omega)

theorem toInt_add_of_inRange {a b : Int64} (h : InRange (a.toInt + b.toInt)) :
    (a + b).toInt = a.toInt + b.toInt := by
  rw [Int64.toInt_add, h.bmod_eq]

theorem toInt_sub_of_inRange {a b : Int64} (h : InRange (a.toInt - b.toInt)) :
    (a - b).toInt = a.toInt - b.toInt := by
  rw [Int64.toInt_sub, h.bmod_eq]

theorem toInt_mul_of_inRange {a b : Int64} (h : InRange (a.toInt * b.toInt)) :
    (a * b).toInt = a.toInt * b.toInt := by
  rw [Int64.toInt_mul, h.bmod_eq]

theorem toInt_shiftLeft_of_inRange {a : Int64} {n : Nat} (h : InRange (a.toInt * 2 ^ n)) :
    (shiftLeft a n).toInt = a.toInt * 2 ^ n := by
  rw [toInt_shiftLeft]
  exact h.bmod_eq

/-! ## Reduction -/

/-- Reduced to 64 bits, `v` is `w`: the integer in range that differs from `v` by a multiple of
`2 ^ 64`. -/
def Reduced (v w : Int) : Prop :=
  InRange w ∧ w ≡ v [ZMOD 2 ^ 64]

theorem reduced_iff {v w : Int} : Reduced v w ↔ w = v.bmod (2 ^ 64) := by
  constructor
  · rintro ⟨hrange, hmod⟩
    have hmod : w % ((2 ^ 64 : Nat) : Int) = v % ((2 ^ 64 : Nat) : Int) := hmod
    calc w = w.bmod (2 ^ 64) := hrange.bmod_eq.symm
      _ = (w % ((2 ^ 64 : Nat) : Int)).bmod (2 ^ 64) := (Int.emod_bmod w _).symm
      _ = v.bmod (2 ^ 64) := by rw [hmod, Int.emod_bmod]
  · rintro rfl
    have hrange := inRange_toInt (Int64.ofInt v)
    rw [Int64.toInt_ofInt] at hrange
    exact ⟨hrange, Int.bmod_emod⟩

/-- Reduction gives one integer. -/
theorem Reduced.unique {v w w' : Int} (h : Reduced v w) (h' : Reduced v w') : w = w' := by
  rw [reduced_iff.mp h, reduced_iff.mp h']

theorem InRange.reduced {v : Int} (h : InRange v) : Reduced v v := ⟨h, Int.ModEq.refl v⟩

theorem reduced_shiftLeft (a : Int64) (n : Nat) :
    Reduced (a.toInt * 2 ^ n) (shiftLeft a n).toInt :=
  reduced_iff.mpr (toInt_shiftLeft a n)

theorem reduced_add (a b : Int64) : Reduced (a.toInt + b.toInt) (a + b).toInt :=
  reduced_iff.mpr (Int64.toInt_add a b)

theorem reduced_sub (a b : Int64) : Reduced (a.toInt - b.toInt) (a - b).toInt :=
  reduced_iff.mpr (Int64.toInt_sub a b)

theorem reduced_mul (a b : Int64) : Reduced (a.toInt * b.toInt) (a * b).toInt :=
  reduced_iff.mpr (Int64.toInt_mul a b)

end MipsMachine.Arithmetic
