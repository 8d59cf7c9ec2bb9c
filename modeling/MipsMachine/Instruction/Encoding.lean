import MipsMachine.Instruction
import MipsMachine.Word

set_option autoImplicit false

/-!
# Encoding instructions

Every instruction has a word of 32 bits, put together from its fields, most significant first:

```text
Register   opcode(6) rs(5) rt(5) rd(5) shamt(5) funct(6)
Multiply   opcode(6) rs(5) rt(5) 0(10) funct(6)
Immediate  opcode(6) rs(5) rt(5) immediate(16)
Print      opcode(6) 0(16) source(5) 0(5)
Bare       opcode(6) 0(26)
```

Of an immediate the low sixteen bits are kept, of a shift amount the low five.  A label leaves
no trace in the word: branches carry the immediate 0.
-/

namespace MipsMachine

/-- How the bits of a word are divided into fields. -/
inductive Layout where
  /-- three registers, a shift amount and a function code -/
  | register
  /-- two registers and a function code -/
  | multiply
  /-- two registers and an immediate -/
  | immediate
  /-- one register, out of its usual place -/
  | print
  /-- an opcode alone -/
  | bare
  deriving DecidableEq, Repr, Inhabited

namespace Layout

/-- The name of a layout. -/
def name : Layout → String
  | .register => "Register"
  | .multiply => "Multiply"
  | .immediate => "Immediate"
  | .print => "Print"
  | .bare => "Bare"

/-- The widths of the fields, most significant first. -/
def widths : Layout → List Nat
  | .register => [6, 5, 5, 5, 5, 6]
  | .multiply => [6, 5, 5, 10, 6]
  | .immediate => [6, 5, 5, 16]
  | .print => [6, 16, 5, 5]
  | .bare => [6, 26]

/-- The fields fill the word. -/
theorem foldl_widths (layout : Layout) :
    layout.widths.foldl (· + ·) 0 = 32 := by cases layout <;> rfl

/-- Layouts of one name divide a word in one way, and the other way round. -/
theorem name_eq_iff {a b : Layout} : a.name = b.name ↔ a.widths = b.widths := by
  cases a <;> cases b <;> decide

end Layout

/-! ## Codes -/

namespace Opcode

/-- Operations that are told apart by their function code. -/
def special : BitVec 6 := 0

/-- `BEQ` -/
def beq : BitVec 6 := 4

/-- `BNE` -/
def bne : BitVec 6 := 5

/-- `ADDI` -/
def addi : BitVec 6 := 8

/-- `SLTI` -/
def slti : BitVec 6 := 10

/-- `LUI` -/
def lui : BitVec 6 := 15

/-- `LW` -/
def lw : BitVec 6 := 35

/-- `SW` -/
def sw : BitVec 6 := 43

/-- `PRINTS` -/
def prints : BitVec 6 := 61

/-- `HALT` and `EXIT` -/
def halt : BitVec 6 := 62

/-- `PRINT` -/
def print : BitVec 6 := 63

/-- Every opcode in use. -/
def all : List (BitVec 6) :=
  [special, beq, bne, addi, slti, lui, lw, sw, prints, halt, print]

end Opcode

namespace FunctionCode

/-- `SLL` -/
def sll : BitVec 6 := 0

/-- `MULT` -/
def mult : BitVec 6 := 24

/-- `ADD` -/
def add : BitVec 6 := 32

/-- `SUB` -/
def sub : BitVec 6 := 34

/-- `AND` -/
def and : BitVec 6 := 36

/-- `OR` -/
def or : BitVec 6 := 37

/-- `SLT` -/
def slt : BitVec 6 := 42

/-- Every function code in use. -/
def all : List (BitVec 6) := [sll, mult, add, sub, and, or, slt]

end FunctionCode

/-- The function code of a three-register operation. -/
def AluOp.functionCode : AluOp → BitVec 6
  | .add => FunctionCode.add
  | .sub => FunctionCode.sub
  | .and => FunctionCode.and
  | .or => FunctionCode.or
  | .slt => FunctionCode.slt

/-- The opcode of an operation with an immediate. -/
def ImmediateOp.opcode : ImmediateOp → BitVec 6
  | .addi => Opcode.addi
  | .slti => Opcode.slti

/-- The opcode of a branch. -/
def BranchTest.opcode : BranchTest → BitVec 6
  | .equal => Opcode.beq
  | .different => Opcode.bne

/-! ## Words -/

/-- A word together with its layout. -/
structure Encoding where
  /-- The encoded instruction. -/
  word : Word
  /-- How the word is divided. -/
  layout : Layout
  deriving DecidableEq, Repr, Inhabited

namespace Encoding

/-- Cut a list into stretches of the given lengths. -/
def stretches {α : Type} : List Nat → List α → List (List α)
  | [], _ => []
  | n :: ns, xs => xs.take n :: stretches ns (xs.drop n)

/-- The bits of each field, most significant field first. -/
def fields (e : Encoding) : List (List Char) := stretches e.layout.widths e.word.bits

/-- The bits of the word with a blank between fields. -/
def grouped (e : Encoding) : String :=
  String.ofList ([' '].intercalate e.fields)

/-- A word of the layout `Register`. -/
def ofRegisters (rs rt rd : Register) (shamt : BitVec 5) (funct : BitVec 6) : Encoding :=
  ⟨Opcode.special ++ rs.number ++ rt.number ++ rd.number ++ shamt ++ funct, .register⟩

/-- A word of the layout `Multiply`. -/
def ofFactors (rs rt : Register) : Encoding :=
  ⟨Opcode.special ++ rs.number ++ rt.number ++ 0#10 ++ FunctionCode.mult, .multiply⟩

/-- A word of the layout `Immediate`. -/
def ofImmediate (opcode : BitVec 6) (rs rt : Register) (value : BitVec 16) : Encoding :=
  ⟨opcode ++ rs.number ++ rt.number ++ value, .immediate⟩

/-- A word of the layout `Print`. -/
def ofSource (source : Register) : Encoding :=
  ⟨Opcode.print ++ 0#16 ++ source.number ++ 0#5, .print⟩

/-- A word of the layout `Bare`. -/
def ofOpcode (opcode : BitVec 6) : Encoding := ⟨opcode ++ 0#26, .bare⟩

/-- The low sixteen bits of an immediate. -/
def lowHalf (value : Int64) : BitVec 16 := value.toBitVec.setWidth 16

end Encoding

/-- The word and the layout of an instruction. -/
def Instruction.encode : Instruction → Encoding
  | .alu op rd rs rt => .ofRegisters rs rt rd 0 op.functionCode
  | .shiftLeft rd rt amount =>
    .ofRegisters .zero rt rd (amount.toBitVec.setWidth 5) FunctionCode.sll
  | .multiply rs rt => .ofFactors rs rt
  | .aluImmediate op rt rs value => .ofImmediate op.opcode rs rt (Encoding.lowHalf value)
  | .load rt offset base => .ofImmediate Opcode.lw base rt (Encoding.lowHalf offset)
  | .store rt offset base => .ofImmediate Opcode.sw base rt (Encoding.lowHalf offset)
  | .loadUpper rt value => .ofImmediate Opcode.lui .zero rt (Encoding.lowHalf value)
  | .branch test rs rt _ => .ofImmediate test.opcode rs rt 0
  | .print source => .ofSource source
  | .printString _ => .ofOpcode Opcode.prints
  | .halt => .ofOpcode Opcode.halt

end MipsMachine
