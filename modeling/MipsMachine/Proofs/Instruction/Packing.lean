import MipsMachine.Proofs.Instruction.Fields

set_option autoImplicit false

/-!
# Words by shifts and masks

The word of an instruction is written with its fields one behind the other.  The same word
comes about by masking what goes into a field, shifting it to its place and joining the fields
bit by bit (`word_encode_eq_packed`).  The shifts and masks are those by which the fields are
read (`Word.Masked`), and the layouts decide them: a field is shifted by what lies behind it
and masked by the greatest number that it can hold (`denotes_field`, `map_shift_register`,
`map_greatest_widths`).
-/

namespace MipsMachine

/-! ## The places of the fields -/

namespace Layout

/-- How many bits of a word lie behind the field at an index. -/
def shift (layout : Layout) (j : Nat) : Nat :=
  Word.width - Encoding.start layout.widths (j + 1)

/-- The greatest number in a field of a width. -/
def greatest (width : Nat) : Nat := (1 <<< width) - 1

theorem testBit_greatest (width i : Nat) : (greatest width).testBit i = decide (i < width) := by
  rw [greatest, Nat.one_shiftLeft]
  exact Nat.testBit_two_pow_sub_one width i

/-- The fields in front of a function code are read with the shifts that the layout makes. -/
theorem map_shift_register : (List.range 5).map Layout.register.shift = Word.shifts := by decide

/-- The masks are the greatest numbers in the widths of codes, registers and immediates. -/
theorem map_greatest_widths : [6, 5, 16].map greatest = Word.masks := by decide

theorem shift_print : Layout.print.shift 2 = Word.sourceShift := by decide

end Layout

namespace Encoding

theorem start_succ {widths : List Nat} {j width : Nat} (h : widths[j]? = some width) :
    start widths (j + 1) = start widths j + width := by
  induction widths generalizing j with
  | nil => cases h
  | cons first widths ih =>
      cases j with
      | zero =>
          obtain rfl := Option.some.inj h
          cases widths <;> simp [start]
      | succ j =>
          rw [start, ih h, start, Nat.add_assoc]

theorem width_pos {layout : Layout} {j width : Nat} (h : layout.widths[j]? = some width) :
    0 < width := by
  have hall : ∀ layout : Layout, ∀ width ∈ layout.widths, 0 < width := by
    intro layout
    cases layout <;> decide
  exact hall layout width (List.mem_of_getElem? h)

/-- Every field of an encoding shows the word shifted down to the field and masked by its width. -/
theorem denotes_field {e : Encoding} {j width : Nat} (h : e.layout.widths[j]? = some width) :
    ∃ field, e.fields[j]? = some field ∧
      Numeral.Denotes 2 field ((e.word.toNat >>> e.layout.shift j) &&& Layout.greatest width) := by
  obtain ⟨hwithin, hfield⟩ := getElem?_fields h
  refine ⟨_, hfield, ?_⟩
  obtain ⟨n, rfl⟩ := Nat.exists_eq_succ_of_ne_zero (Nat.ne_of_gt (width_pos h))
  have hnumber : (e.word.extractLsb' (e.layout.shift j) (n + 1)).toNat =
      (e.word.toNat >>> e.layout.shift j) &&& Layout.greatest (n + 1) := by
    rw [Layout.greatest, Nat.one_shiftLeft, Nat.and_two_pow_sub_one_eq_mod]
    exact BitVec.extractLsb'_toNat _ _ _
  rw [← hnumber, Layout.shift, start_succ h]
  rw [Word.length_bits] at hwithin
  exact (Word.take_drop_bitsOf e.word hwithin).symm ▸ Word.denotes_bitsOf _

end Encoding

/-! ## Packing -/

namespace Word

/-- The number of a register, cut to the width of its field. -/
def ofRegister (r : Register) : Word := BitVec.ofNat 32 r.index &&& BitVec.ofNat 32 registerMask

/-- The word with a function code that is packed from two sources, a destination and a shift
amount. -/
def packRegisters (rs rt rd shamt : Word) (funct : BitVec 6) : Word :=
  Opcode.special.setWidth 32 <<< opcodeShift ||| rs <<< rsShift ||| rt <<< rtShift
    ||| rd <<< rdShift ||| (shamt &&& BitVec.ofNat 32 registerMask) <<< shamtShift
    ||| funct.setWidth 32

/-- The word that is packed from an opcode, two registers and an immediate. -/
def packImmediate (opcode : BitVec 6) (rs rt : Word) (value : Int64) : Word :=
  opcode.setWidth 32 <<< opcodeShift ||| rs <<< rsShift ||| rt <<< rtShift
    ||| (value.toBitVec.setWidth 32 &&& BitVec.ofNat 32 immediateMask)

/-- Bits that are put in front of others are shifted past them. -/
theorem setWidth_append {m n : Nat} (high : BitVec m) (low : BitVec n) (width : Nat) :
    (high ++ low).setWidth width = high.setWidth width <<< n ||| low.setWidth width := by
  ext i hi
  simp only [BitVec.getElem_setWidth, BitVec.getLsbD_append, BitVec.getElem_or,
    BitVec.getElem_shiftLeft]
  by_cases h : i < n
  · simp [h]
  · have habove : low.getLsbD i = false := BitVec.getLsbD_of_ge low i (Nat.le_of_not_lt h)
    simp [h, habove]

/-- The low bits of a word are what a mask leaves. -/
theorem setWidth_setWidth_eq_and (w : Word) (n : Nat) :
    (w.setWidth n).setWidth 32 = w &&& BitVec.ofNat 32 (Layout.greatest n) := by
  ext i hi
  have hmask : (BitVec.ofNat 32 (Layout.greatest n))[i] = decide (i < n) := by
    rw [← BitVec.getLsbD_eq_getElem hi, BitVec.getLsbD_ofNat, Layout.testBit_greatest]
    simp [hi]
  rw [BitVec.getElem_setWidth, BitVec.getLsbD_setWidth, BitVec.getElem_and, hmask, Bool.and_comm,
    BitVec.getLsbD_eq_getElem hi]

theorem setWidth_number (r : Register) : r.number.setWidth 32 = ofRegister r := by
  have hindex : BitVec.ofNat 32 r.index = r.number.setWidth 32 := BitVec.ofNat_toNat 32 r.number
  have hnumber : (r.number.setWidth 32).setWidth 5 = r.number :=
    (BitVec.setWidth_setWidth_of_le r.number (by decide)).trans (BitVec.setWidth_eq _)
  calc r.number.setWidth 32 = ((r.number.setWidth 32).setWidth 5).setWidth 32 := by rw [hnumber]
    _ = r.number.setWidth 32 &&& BitVec.ofNat 32 registerMask := setWidth_setWidth_eq_and _ 5
    _ = ofRegister r := by rw [ofRegister, hindex]

end Word

namespace Encoding

open Word

/-! What is appended is shifted in one step past everything behind it. -/

theorem word_ofRegisters (rs rt rd : Register) (shamt : Word) (funct : BitVec 6) :
    (ofRegisters rs rt rd (shamt.setWidth 5) funct).word =
      packRegisters (ofRegister rs) (ofRegister rt) (ofRegister rd) shamt funct := by
  have hshamt : (shamt.setWidth 5).setWidth 32 = shamt &&& BitVec.ofNat 32 registerMask :=
    setWidth_setWidth_eq_and shamt 5
  rw [← BitVec.setWidth_eq (ofRegisters rs rt rd (shamt.setWidth 5) funct).word]
  simp only [ofRegisters, setWidth_append, setWidth_number, hshamt, BitVec.shiftLeft_or_distrib,
    ← BitVec.shiftLeft_add]
  rfl

/-- The ten zeros stand where a destination and a shift amount would. -/
theorem word_ofFactors (rs rt : Register) :
    (ofFactors rs rt).word =
      packRegisters (ofRegister rs) (ofRegister rt) 0 0 FunctionCode.mult := by
  have hregisters : (ofFactors rs rt).word = (ofRegisters rs rt .zero 0 FunctionCode.mult).word :=
    (fields_ofFactors rs rt).unique (fields_ofRegisters rs rt .zero 0 FunctionCode.mult)
  rw [hregisters]
  exact word_ofRegisters rs rt .zero 0 FunctionCode.mult

theorem word_ofImmediate (opcode : BitVec 6) (rs rt : Register) (value : Int64) :
    (ofImmediate opcode rs rt (lowHalf value)).word =
      packImmediate opcode (ofRegister rs) (ofRegister rt) value := by
  have hvalue : (lowHalf value).setWidth 32 =
      value.toBitVec.setWidth 32 &&& BitVec.ofNat 32 immediateMask := by
    have hlow : lowHalf value = (value.toBitVec.setWidth 32).setWidth 16 :=
      (BitVec.setWidth_setWidth_of_le value.toBitVec (by decide)).symm
    rw [hlow]
    exact setWidth_setWidth_eq_and _ 16
  rw [← BitVec.setWidth_eq (ofImmediate opcode rs rt (lowHalf value)).word]
  simp only [ofImmediate, setWidth_append, setWidth_number, hvalue, BitVec.shiftLeft_or_distrib,
    ← BitVec.shiftLeft_add]
  rfl

theorem word_ofSource (source : Register) :
    (ofSource source).word =
      Opcode.print.setWidth 32 <<< opcodeShift ||| ofRegister source <<< sourceShift := by
  rw [← BitVec.setWidth_eq (ofSource source).word]
  simp only [ofSource, setWidth_append, setWidth_number, BitVec.shiftLeft_or_distrib,
    ← BitVec.shiftLeft_add, BitVec.setWidth_zero, BitVec.or_zero]
  rfl

theorem word_ofOpcode (opcode : BitVec 6) :
    (ofOpcode opcode).word = opcode.setWidth 32 <<< opcodeShift := by
  rw [← BitVec.setWidth_eq (ofOpcode opcode).word]
  simp only [ofOpcode, setWidth_append, BitVec.setWidth_zero, BitVec.or_zero]
  rfl

end Encoding

namespace Instruction

open Word

/-- The word of an instruction, packed. -/
def packed : Instruction → Word
  | .alu op rd rs rt =>
    packRegisters (ofRegister rs) (ofRegister rt) (ofRegister rd) 0 op.functionCode
  | .shiftLeft rd rt amount =>
    packRegisters 0 (ofRegister rt) (ofRegister rd) amount.toBitVec FunctionCode.sll
  | .multiply rs rt => packRegisters (ofRegister rs) (ofRegister rt) 0 0 FunctionCode.mult
  | .aluImmediate op rt rs value => packImmediate op.opcode (ofRegister rs) (ofRegister rt) value
  | .load rt offset base => packImmediate Opcode.lw (ofRegister base) (ofRegister rt) offset
  | .store rt offset base => packImmediate Opcode.sw (ofRegister base) (ofRegister rt) offset
  | .loadUpper rt value => packImmediate Opcode.lui 0 (ofRegister rt) value
  | .branch test rs rt _ => packImmediate test.opcode (ofRegister rs) (ofRegister rt) 0
  | .print source => Opcode.print.setWidth 32 <<< opcodeShift ||| ofRegister source <<< sourceShift
  | .printString _ => Opcode.prints.setWidth 32 <<< opcodeShift
  | .halt => Opcode.halt.setWidth 32 <<< opcodeShift

/-- The word of every instruction is its fields, masked, shifted to their places and joined. -/
theorem word_encode_eq_packed (i : Instruction) : i.encode.word = i.packed := by
  cases i with
  | alu op rd rs rt => exact Encoding.word_ofRegisters rs rt rd 0 op.functionCode
  | shiftLeft rd rt amount =>
      exact Encoding.word_ofRegisters .zero rt rd amount.toBitVec FunctionCode.sll
  | multiply rs rt => exact Encoding.word_ofFactors rs rt
  | aluImmediate op rt rs value => exact Encoding.word_ofImmediate op.opcode rs rt value
  | load rt offset base => exact Encoding.word_ofImmediate Opcode.lw base rt offset
  | store rt offset base => exact Encoding.word_ofImmediate Opcode.sw base rt offset
  | loadUpper rt value => exact Encoding.word_ofImmediate Opcode.lui .zero rt value
  | branch test rs rt label => exact Encoding.word_ofImmediate test.opcode rs rt 0
  | print source => exact Encoding.word_ofSource source
  | printString constant => exact Encoding.word_ofOpcode Opcode.prints
  | halt => exact Encoding.word_ofOpcode Opcode.halt

end Instruction

end MipsMachine
