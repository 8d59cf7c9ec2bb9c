import MipsMachine.Machine
import MipsMachine.Proofs.Arithmetic
import MipsMachine.Proofs.Immediate.Literal
import MipsMachine.Proofs.Instruction.Grammar
import MipsMachine.Proofs.Instruction.Text

set_option autoImplicit false

/-!
# Shifts by a literal

A shift to the left by a literal of value `v` multiplies by `2 ^ v` and keeps what is left of
the product in 64 bits; from 64 on that is 0.  Reading refuses negative amounts.  It refuses
amounts that do not fit in 32 bits as well, although the machine has an answer for them: shifts
are carried out for the amounts from 0 up to `2 ^ 32 - 1` and for no others
(`shifts_by_small_amounts_only`).
-/

namespace MipsMachine

/-! ## Literals are tokens -/

namespace Instruction

/-- No digit separates tokens. -/
theorem not_isSeparator_of_digit {base d : Nat} {c : Char} (h : Numeral.IsDigit base c d) :
    isSeparator c = false := by
  have hall :
      (Numeral.lowerDigits ++ Numeral.upperDigits).all (fun c => !isSeparator c) = true := by
    decide
  have hc := List.all_eq_true.mp hall c
    (List.mem_append.mpr (h.2.imp List.mem_of_getElem? List.mem_of_getElem?))
  simpa using hc

/-- The characters are a token. -/
def AreToken (cs : List Char) : Prop := cs ≠ [] ∧ ∀ c ∈ cs, isSeparator c = false

theorem AreToken.cons {c : Char} (hc : isSeparator c = false) {cs : List Char} (h : AreToken cs) :
    AreToken (c :: cs) :=
  ⟨List.cons_ne_nil c cs, List.forall_mem_cons.mpr ⟨hc, h.2⟩⟩

theorem areToken_of_denotes {base n : Nat} {cs : List Char} (h : Numeral.Denotes base cs n) :
    AreToken cs := by
  refine ⟨h.ne_nil, fun c hc => ?_⟩
  obtain ⟨d, hd⟩ := h.exists_isDigit c hc
  exact not_isSeparator_of_digit hd

theorem areToken_of_isMagnitude {n : Nat} {cs : List Char} (h : Immediate.IsMagnitude cs n) :
    AreToken cs := by
  cases h with
  | decimal h => exact areToken_of_denotes h
  | hexadecimal hx h =>
      rcases hx with rfl | rfl
      · exact .cons (by decide) (.cons (by decide) (areToken_of_denotes h))
      · exact .cons (by decide) (.cons (by decide) (areToken_of_denotes h))

/-- No literal holds a separator. -/
theorem isToken_of_read? {t : String} {v : Int64} (h : Immediate.read? t = some v) :
    IsToken t := by
  obtain ⟨negative, n, hliteral, -, -⟩ := Immediate.read?_eq_some_iff.mp h
  have htoken : AreToken t.toList := by
    generalize t.toList = cs at hliteral
    cases hliteral with
    | plain h => exact areToken_of_isMagnitude h
    | plus h => exact .cons (by decide) (areToken_of_isMagnitude h)
    | minus h => exact .cons (by decide) (areToken_of_isMagnitude h)
  exact htoken

/-! ## The instruction -/

/-- The text is a shift by the literal, however it is spaced and in whatever letter case. -/
def IsShift (text : String) (rd rt : Register) (n : String) : Prop :=
  ∃ head, tokens text = [head, rd.name, rt.name, n] ∧ Mnemonic.upperCase head = Mnemonic.sll.name

/-- The plain text of a shift. -/
def shiftText (rd rt : Register) (n : String) : String :=
  Mnemonic.sll.lowerName ++ " " ++ ", ".intercalate [rd.name, rt.name, n]

theorem isShift_shiftText (rd rt : Register) {n : String} (hn : IsToken n) :
    IsShift (shiftText rd rt n) rd rt n := by
  refine ⟨Mnemonic.sll.lowerName, tokens_lowerName_intercalate .sll ?_,
    Mnemonic.upperCase_lowerName .sll⟩
  simp [rd.isToken_name, rt.isToken_name, hn]

/-- The amount decides. -/
theorem IsShift.read_eq {text n : String} {rd rt : Register} (h : IsShift text rd rt n) :
    read text = (OperandKind.amount.read n).map (.shiftLeft rd rt) := by
  obtain ⟨head, htokens, hhead⟩ := h
  have hm : Mnemonic.ofName head = .ok .sll := ofName_eq_ok_iff.mpr hhead.symm
  have hrd : OperandKind.register.read rd.name = .ok rd := OperandKind.read_eq_ok_iff.mpr rfl
  have hrt : OperandKind.register.read rt.name = .ok rt := OperandKind.read_eq_ok_iff.mpr rfl
  rw [read, htokens, ofTokens_of_length_eq hm rfl]
  simp only [Operands.read, hrd, hrt]
  cases OperandKind.amount.read n <;> rfl

theorem IsShift.read_eq_error_iff {text n : String} {rd rt : Register} {v : Int64}
    (h : IsShift text rd rt n) (hn : Immediate.read? n = some v) :
    read text = .error (.badImmediate n) ↔ v.toInt < 0 ∨ UInt32.size ≤ v.toInt := by
  have hamount : OperandKind.amount.read n = .error (.badImmediate n) ↔
      v.toInt < 0 ∨ UInt32.size ≤ v.toInt := by
    rw [OperandKind.read_eq_error_iff, OperandKind.Refuses]
    simp [hn]
  rw [h.read_eq, ← hamount]
  cases OperandKind.amount.read n <;> simp [Except.map]

theorem IsShift.exists_read_eq {text n : String} {rd rt : Register} {v : Int64}
    (h : IsShift text rd rt n) (hn : Immediate.read? n = some v) (hnonneg : 0 ≤ v.toInt)
    (hlt : v.toInt < UInt32.size) :
    ∃ amount : UInt32, v.toInt = amount.toNat ∧ read text = .ok (.shiftLeft rd rt amount) := by
  have hamount : v.toInt = (UInt32.ofNat v.toInt.toNat).toNat :=
    OperandKind.ofNat_toNat_eq_iff.mp ⟨⟨hnonneg, hlt⟩, rfl⟩
  have hread : OperandKind.amount.read n = .ok (UInt32.ofNat v.toInt.toNat) :=
    OperandKind.read_eq_ok_iff.mpr ⟨v, hn, hamount⟩
  refine ⟨UInt32.ofNat v.toInt.toNat, hamount, ?_⟩
  rw [h.read_eq, hread]
  rfl

end Instruction

/-! ## The machine -/

/-- What a shift of `rt` by `n` into `rd` leaves on a machine: the value of `rt` times `2 ^ n`,
reduced to 64 bits, in `rd`, which is 0 from 64 on.  Nothing else changes, and `$zero` does not
change either. -/
structure Machine.Shifted (m m' : Machine) (rd rt : Register) (n : Nat) : Prop where
  product : rd ≠ .zero → n ≤ 63 →
    (m'.registers.read rd).toInt = ((m.registers.read rt).toInt * 2 ^ n).bmod Int64.size
  cleared : rd ≠ .zero → 64 ≤ n → m'.registers.read rd = 0
  others : ∀ r, r ≠ rd ∨ r = .zero → m'.registers.read r = m.registers.read r
  memory : m'.memory = m.memory
  pc : m'.pc = m.pc
  destination : m'.product = m.product

/-- On every machine and in every program the text is carried out as a shift of `rt` by `n`
into `rd`, and the next instruction follows. -/
def Instruction.ShiftsLeft (text : String) (rd rt : Register) (n : Nat) : Prop :=
  ∃ i, read text = .ok i ∧ ∀ (p : Program) (m : Machine), ∃ m' e, m.execute p i = .ok (m', e) ∧
    e.flow = .next ∧ e.output? = none ∧ m.Shifted m' rd rt n

theorem Machine.shifted_write (m : Machine) (rd rt : Register) (n : Nat) :
    m.Shifted { m with
      registers := m.registers.write rd (Arithmetic.shiftLeft (m.registers.read rt) n) }
      rd rt n where
  product hrd _ := by
    rw [Bank.read_write, if_pos ⟨rfl, hrd⟩]
    exact Arithmetic.toInt_shiftLeft _ n
  cleared hrd hn := by
    rw [Bank.read_write, if_pos ⟨rfl, hrd⟩, Arithmetic.shiftLeft, if_neg (Nat.not_lt.mpr hn)]
  others r hr := by
    rw [Bank.read_write, if_neg]
    rintro ⟨rfl, hne⟩
    exact hr.elim (absurd rfl) hne
  memory := rfl
  pc := rfl
  destination := rfl

theorem Instruction.shiftsLeft_of_read {text : String} {rd rt : Register} {amount : UInt32}
    (h : read text = .ok (.shiftLeft rd rt amount)) : ShiftsLeft text rd rt amount.toNat := by
  refine ⟨_, h, ?_⟩
  intro p m
  exact ⟨_, _, rfl, rfl, rfl, m.shifted_write rd rt amount.toNat⟩

namespace Instruction

/-- A shift by a literal is refused for its amount if the amount is negative or does not fit in
32 bits; it is carried out for all other amounts, and for no amount that is refused. -/
theorem shifts_by_small_amounts_only {n : String} {v : Int64} (hn : Immediate.read? n = some v)
    (rd rt : Register) :
    IsShift (shiftText rd rt n) rd rt n ∧
    ∀ text, IsShift text rd rt n →
      (read text = .error (.badImmediate n) ↔ v.toInt < 0 ∨ UInt32.size ≤ v.toInt) ∧
      (ShiftsLeft text rd rt v.toInt.toNat ↔ 0 ≤ v.toInt ∧ v.toInt < UInt32.size) := by
  refine ⟨isShift_shiftText rd rt (isToken_of_read? hn), ?_⟩
  intro text h
  refine ⟨h.read_eq_error_iff hn, ?_, ?_⟩
  · rintro ⟨i, hi, -⟩
    have hfits : ¬(v.toInt < 0 ∨ UInt32.size ≤ v.toInt) := by
      rw [← h.read_eq_error_iff hn, hi]
      rintro ⟨⟩
    omega
  · rintro ⟨hnonneg, hlt⟩
    obtain ⟨amount, hamount, hread⟩ := h.exists_read_eq hn hnonneg hlt
    rw [hamount, Int.toNat_natCast]
    exact shiftsLeft_of_read hread

/-- The amount 64 in hexadecimal, and the least amount that is refused although it is not
negative. -/
theorem shifts_by_small_amounts_only_at_bounds :
    ShiftsLeft "SLL $t0,$t1 +0X40" ⟨8⟩ ⟨9⟩ 64 ∧
    read "sll $t0, $t1, 4294967296" = .error (.badImmediate "4294967296") := by
  have hsmall := (shifts_by_small_amounts_only (v := 64) (n := "+0X40") (by rfl) ⟨8⟩ ⟨9⟩).2
  have hgreat :=
    (shifts_by_small_amounts_only (v := 4294967296) (n := "4294967296") (by rfl) ⟨8⟩ ⟨9⟩).2
  exact ⟨(hsmall _ ⟨"SLL", rfl, rfl⟩).2.mpr (by decide),
    (hgreat _ ⟨"sll", rfl, rfl⟩).1.mpr (by decide)⟩

/-- Shifts are not carried out for every amount from 64 on. -/
theorem not_shifts_by_every_amount :
    ¬∀ (n : String) (v : Int64) (rd rt : Register), Immediate.read? n = some v →
      (v.toInt < 0 → read (shiftText rd rt n) = .error (.badImmediate n)) ∧
      (0 ≤ v.toInt → ShiftsLeft (shiftText rd rt n) rd rt v.toInt.toNat) := by
  intro hlaw
  have hshift := (hlaw "4294967296" 4294967296 ⟨8⟩ ⟨9⟩ (by rfl)).2 (by decide)
  obtain ⟨i, hi, -⟩ := hshift
  have hrefused : read (shiftText ⟨8⟩ ⟨9⟩ "4294967296") = .error (.badImmediate "4294967296") := by
    rfl
  cases hrefused.symm.trans hi

end Instruction

end MipsMachine
