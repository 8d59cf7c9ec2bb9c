import MipsMachine.Proofs.Numeral
import MipsMachine.Word

set_option autoImplicit false

/-!
# Bits of words

The bits of a word, written out, are the number of the word in base two (`denotes_bits`), and
so the text of a word tells the word.  A slice of the bits is the bits of a slice
(`take_drop_bitsOf`).
-/

namespace MipsMachine.Word

/-- The bits of a row of bits as `0` and `1`, most significant first. -/
def bitsOf {n : Nat} (v : BitVec n) : List Char :=
  (List.range n).map fun i => if v.getMsbD i then '1' else '0'

theorem length_bitsOf {n : Nat} (v : BitVec n) : (bitsOf v).length = n := by simp [bitsOf]

theorem mem_bitsOf {n : Nat} {v : BitVec n} {c : Char} (h : c ∈ bitsOf v) : c = '0' ∨ c = '1' := by
  obtain ⟨i, -, rfl⟩ := List.mem_map.mp h
  split
  · exact Or.inr rfl
  · exact Or.inl rfl

/-! ## The number of a row of bits -/

/-- The last bit is written behind those above it. -/
theorem bitsOf_succ {n : Nat} (v : BitVec (n + 1)) :
    bitsOf v = bitsOf (v.extractLsb' 1 n) ++ [if v.getLsbD 0 then '1' else '0'] := by
  rw [bitsOf, List.range_succ, List.map_append, List.map_singleton]
  congr 1
  · refine List.map_congr_left fun i hi => ?_
    have hlt : i < n := List.mem_range.mp hi
    have hindex : n + 1 - (1 + n - i) = i := by omega
    rw [BitVec.getMsbD_extractLsb', hindex]
    simp [hlt, show 1 + n - i ≤ n + 1 by omega]
  · rw [BitVec.getMsbD_eq_getLsbD]
    simp

theorem toNat_succ {n : Nat} (v : BitVec (n + 1)) :
    v.toNat = 2 * (v.extractLsb' 1 n).toNat + (v.getLsbD 0).toNat := by
  have hhalf : v.toNat >>> 1 = v.toNat / 2 := rfl
  have hlt := v.isLt
  rw [BitVec.extractLsb'_toNat, BitVec.getLsbD, Nat.toNat_testBit, hhalf,
    Nat.mod_eq_of_lt (by omega)]
  omega

theorem isDigit_bit (b : Bool) : Numeral.IsDigit 2 (if b then '1' else '0') b.toNat := by
  cases b with
  | false => exact ⟨by decide, by decide⟩
  | true => exact ⟨by decide, by decide⟩

theorem denotes_bitsOf {n : Nat} (v : BitVec (n + 1)) : Numeral.Denotes 2 (bitsOf v) v.toNat := by
  induction n with
  | zero =>
      have hvalue : v.toNat = (v.getLsbD 0).toNat := by
        have habove : (v.extractLsb' 1 0).toNat = 0 := BitVec.toNat_of_zero_length rfl _
        rw [toNat_succ, habove, Nat.mul_zero, Nat.zero_add]
      rw [bitsOf_succ, hvalue]
      exact .digit (isDigit_bit _)
  | succ n ih =>
      rw [bitsOf_succ, toNat_succ]
      exact .append (ih _) (isDigit_bit _)

/-- The bits of a word are its number in base two. -/
theorem denotes_bits (w : Word) : Numeral.Denotes 2 w.bits w.toNat := denotes_bitsOf w

/-- A text of bits tells the word. -/
theorem text_injective {v w : Word} (h : v.text = w.text) : v = w := by
  have hbits : v.bits = w.bits := String.ofList_injective h
  exact BitVec.eq_of_toNat_eq ((denotes_bits v).unique (hbits ▸ denotes_bits w))

/-! ## Slices -/

/-- A slice of the bits is the bits of a slice. -/
theorem take_drop_bitsOf {n start width : Nat} (v : BitVec n) (h : start + width ≤ n) :
    ((bitsOf v).drop start).take width = bitsOf (v.extractLsb' (n - (start + width)) width) := by
  apply List.ext_getElem
  · rw [List.length_take, List.length_drop, length_bitsOf, length_bitsOf]
    omega
  · intro i hi hi'
    rw [length_bitsOf] at hi'
    have hindex : n - (n - (start + width) + width - i) = start + i := by omega
    rw [List.getElem_take, List.getElem_drop]
    simp only [bitsOf, List.getElem_map, List.getElem_range, BitVec.getMsbD_extractLsb', hindex]
    simp [hi', show n - (start + width) + width - i ≤ n by omega]

/-- Every field of a word is the word shifted down and masked. -/
structure Masked (w : Word) : Prop where
  opcode : w.opcode.toNat = (w.toNat >>> opcodeShift) &&& codeMask
  rs : w.rs.toNat = (w.toNat >>> rsShift) &&& registerMask
  rt : w.rt.toNat = (w.toNat >>> rtShift) &&& registerMask
  rd : w.rd.toNat = (w.toNat >>> rdShift) &&& registerMask
  shamt : w.shamt.toNat = (w.toNat >>> shamtShift) &&& registerMask
  funct : w.funct.toNat = w.toNat &&& codeMask
  immediate : w.immediate.toNat = w.toNat &&& immediateMask

theorem masked (w : Word) : w.Masked := by
  constructor
  · exact (BitVec.extractLsb'_toNat 26 6 w).trans (Nat.and_two_pow_sub_one_eq_mod _ 6).symm
  · exact (BitVec.extractLsb'_toNat 21 5 w).trans (Nat.and_two_pow_sub_one_eq_mod _ 5).symm
  · exact (BitVec.extractLsb'_toNat 16 5 w).trans (Nat.and_two_pow_sub_one_eq_mod _ 5).symm
  · exact (BitVec.extractLsb'_toNat 11 5 w).trans (Nat.and_two_pow_sub_one_eq_mod _ 5).symm
  · exact (BitVec.extractLsb'_toNat 6 5 w).trans (Nat.and_two_pow_sub_one_eq_mod _ 5).symm
  · exact (BitVec.extractLsb'_toNat 0 6 w).trans (Nat.and_two_pow_sub_one_eq_mod _ 6).symm
  · exact (BitVec.extractLsb'_toNat 0 16 w).trans (Nat.and_two_pow_sub_one_eq_mod _ 16).symm

end MipsMachine.Word
