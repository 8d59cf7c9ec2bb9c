import MipsMachine.Register

set_option autoImplicit false

/-!
# Mnemonics and their operands

The eighteen mnemonics of the instruction set and, for each, the kinds of operand it takes, in
the order in which they are written.  `EXIT` and `HALT` are two spellings of one operation;
they are kept apart here because messages about operands repeat the spelling that was used.
-/

namespace MipsMachine

/-- The name of an operation in source text. -/
inductive Mnemonic where
  /-- `ADD rd, rs, rt` -/
  | add
  /-- `SUB rd, rs, rt` -/
  | sub
  /-- `AND rd, rs, rt` -/
  | and
  /-- `OR rd, rs, rt` -/
  | or
  /-- `SLL rd, rt, shamt` -/
  | sll
  /-- `MULT rs, rt` -/
  | mult
  /-- `SLT rd, rs, rt` -/
  | slt
  /-- `ADDI rt, rs, imm` -/
  | addi
  /-- `SLTI rt, rs, imm` -/
  | slti
  /-- `LW rt, offset(base)` -/
  | lw
  /-- `SW rt, offset(base)` -/
  | sw
  /-- `LUI rt, imm` -/
  | lui
  /-- `BEQ rs, rt, label` -/
  | beq
  /-- `BNE rs, rt, label` -/
  | bne
  /-- `PRINT reg` -/
  | print
  /-- `PRINTS label` -/
  | prints
  /-- `EXIT` -/
  | exit
  /-- `HALT` -/
  | halt
  deriving DecidableEq, Repr, Inhabited

/-- What an operand position holds. -/
inductive OperandKind where
  /-- a register name -/
  | register
  /-- an integer literal -/
  | immediate
  /-- an integer literal that fits in 32 bits without a sign -/
  | amount
  /-- any token: the name of a label or of a string constant -/
  | label
  deriving DecidableEq, Repr, Inhabited

/-- The operands of an instruction are values of these types. -/
abbrev OperandKind.Value : OperandKind → Type
  | .register => Register
  | .immediate => Int64
  | .amount => UInt32
  | .label => String

/-- One value for each operand position. -/
abbrev Operands : List OperandKind → Type
  | [] => Unit
  | kind :: kinds => kind.Value × Operands kinds

namespace Mnemonic

/-- Every mnemonic, in the order of the instruction table. -/
def all : List Mnemonic :=
  [.add, .sub, .and, .or, .sll, .mult, .slt, .addi, .slti, .lw, .sw, .lui, .beq, .bne,
   .print, .prints, .exit, .halt]

theorem mem_all (m : Mnemonic) : m ∈ all := by cases m <;> decide

/-- The upper-case spelling. -/
def name : Mnemonic → String
  | .add => "ADD"
  | .sub => "SUB"
  | .and => "AND"
  | .or => "OR"
  | .sll => "SLL"
  | .mult => "MULT"
  | .slt => "SLT"
  | .addi => "ADDI"
  | .slti => "SLTI"
  | .lw => "LW"
  | .sw => "SW"
  | .lui => "LUI"
  | .beq => "BEQ"
  | .bne => "BNE"
  | .print => "PRINT"
  | .prints => "PRINTS"
  | .exit => "EXIT"
  | .halt => "HALT"

/-- The lower-case spelling, in which instructions are written out. -/
def lowerName : Mnemonic → String
  | .add => "add"
  | .sub => "sub"
  | .and => "and"
  | .or => "or"
  | .sll => "sll"
  | .mult => "mult"
  | .slt => "slt"
  | .addi => "addi"
  | .slti => "slti"
  | .lw => "lw"
  | .sw => "sw"
  | .lui => "lui"
  | .beq => "beq"
  | .bne => "bne"
  | .print => "print"
  | .prints => "prints"
  | .exit => "exit"
  | .halt => "halt"

/-- The kinds of the operands, in written order. -/
@[reducible] def operandKinds : Mnemonic → List OperandKind
  | .add | .sub | .and | .or | .slt => [.register, .register, .register]
  | .sll => [.register, .register, .amount]
  | .mult => [.register, .register]
  | .addi | .slti => [.register, .register, .immediate]
  | .lw | .sw => [.register, .immediate, .register]
  | .lui => [.register, .immediate]
  | .beq | .bne => [.register, .register, .label]
  | .print => [.register]
  | .prints => [.label]
  | .exit | .halt => []

/-- The number of operands. -/
def operandCount (m : Mnemonic) : Nat := m.operandKinds.length

/-- A text with its ASCII letters in upper case; other characters stay as they are. -/
def upperCase (s : String) : String := String.ofList (s.toList.map Char.toUpper)

/-- The mnemonic that a token spells, in any mixture of upper and lower case. -/
def ofName? (s : String) : Option Mnemonic := all.find? fun m => m.name == upperCase s

/-! ## Spelling -/

@[simp] theorem upperCase_name (m : Mnemonic) : upperCase m.name = m.name := by
  cases m <;> decide

@[simp] theorem upperCase_lowerName (m : Mnemonic) : upperCase m.lowerName = m.name := by
  cases m <;> decide

theorem name_injective {m n : Mnemonic} (h : m.name = n.name) : m = n := by
  revert h
  cases m <;> cases n <;> decide

/-- A token spells a mnemonic exactly when it is the name up to letter case. -/
theorem ofName?_eq_some_iff {s : String} {m : Mnemonic} :
    ofName? s = some m ↔ m.name = upperCase s := by
  constructor
  · intro h
    simpa using List.find?_some h
  · intro h
    cases hf : ofName? s with
    | none =>
        have := List.find?_eq_none.1 hf m (mem_all m)
        simp [h] at this
    | some n =>
        have hn : n.name = upperCase s := by simpa using List.find?_some hf
        rw [name_injective (hn.trans h.symm)]

end Mnemonic

end MipsMachine
