set_option autoImplicit false

/-!
# Instruction words

An encoded instruction is a word of 32 bits.  The fields of a word are fixed stretches of its
bits; which of them carry meaning depends on the layout of the instruction.
-/

namespace MipsMachine

/-- An encoded instruction. -/
abbrev Word := BitVec 32

namespace Word

/-- The number of bits of a word. -/
def width : Nat := 32

/-! ## Fields -/

/-- How many bits lie below the opcode. -/
def opcodeShift : Nat := 26

/-- How many bits lie below `rs`. -/
def rsShift : Nat := 21

/-- How many bits lie below `rt`. -/
def rtShift : Nat := 16

/-- How many bits lie below `rd`. -/
def rdShift : Nat := 11

/-- How many bits lie below the shift amount. -/
def shamtShift : Nat := 6

/-- The greatest opcode or function code. -/
def codeMask : Nat := 0x3F

/-- The greatest number of a register or shift amount. -/
def registerMask : Nat := 0x1F

/-- The greatest immediate. -/
def immediateMask : Nat := 0xFFFF

/-- How many bits lie below each field that has others below it, most significant field first. -/
def shifts : List Nat := [opcodeShift, rsShift, rtShift, rdShift, shamtShift]

/-- The greatest values of the fields, by kind. -/
def masks : List Nat := [codeMask, registerMask, immediateMask]

/-- The primary opcode: bits 26 to 31. -/
def opcode (w : Word) : BitVec 6 := w.extractLsb' opcodeShift 6

/-- The first source register: bits 21 to 25. -/
def rs (w : Word) : BitVec 5 := w.extractLsb' rsShift 5

/-- The second source register: bits 16 to 20. -/
def rt (w : Word) : BitVec 5 := w.extractLsb' rtShift 5

/-- The destination register: bits 11 to 15. -/
def rd (w : Word) : BitVec 5 := w.extractLsb' rdShift 5

/-- The shift amount: bits 6 to 10. -/
def shamt (w : Word) : BitVec 5 := w.extractLsb' shamtShift 5

/-- The function code: bits 0 to 5. -/
def funct (w : Word) : BitVec 6 := w.extractLsb' 0 6

/-- The immediate: bits 0 to 15, without regard to sign. -/
def immediate (w : Word) : BitVec 16 := w.extractLsb' 0 16

/-! ## Text -/

/-- The bits of a word as `0` and `1`, most significant first. -/
def bits (w : Word) : List Char :=
  (List.range width).map fun i => if w.getMsbD i then '1' else '0'

/-- The bits of a word as text. -/
def text (w : Word) : String := String.ofList w.bits

@[simp] theorem length_bits (w : Word) : w.bits.length = 32 := by simp [bits, width]

end Word

end MipsMachine
