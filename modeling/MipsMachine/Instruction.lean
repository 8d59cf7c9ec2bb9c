import MipsMachine.Mnemonic

set_option autoImplicit false

/-!
# Instructions

An instruction with its operands read.  Instructions of one shape share a constructor: five
operations take three registers, two take two registers and an immediate, two compare and
branch.  Labels stay names; the program that is running gives them their meaning.
-/

namespace MipsMachine

/-- An operation on two registers with its result in a third. -/
inductive AluOp where
  /-- sum -/
  | add
  /-- difference -/
  | sub
  /-- bitwise conjunction -/
  | and
  /-- bitwise disjunction -/
  | or
  /-- 1 if the first operand is the lesser, else 0 -/
  | slt
  deriving DecidableEq, Repr, Inhabited

/-- An operation on a register and an immediate. -/
inductive ImmediateOp where
  /-- sum -/
  | addi
  /-- 1 if the register is less than the immediate, else 0 -/
  | slti
  deriving DecidableEq, Repr, Inhabited

/-- When a branch is taken. -/
inductive BranchTest where
  /-- the two registers hold the same value -/
  | equal
  /-- the two registers hold different values -/
  | different
  deriving DecidableEq, Repr, Inhabited

/-- An instruction of the machine. -/
inductive Instruction where
  /-- `rd := rs op rt` -/
  | alu (op : AluOp) (rd rs rt : Register)
  /-- `rd := rt * 2 ^ amount` -/
  | shiftLeft (rd rt : Register) (amount : UInt32)
  /-- the product of `rs` and `rt`, into the register set aside for products -/
  | multiply (rs rt : Register)
  /-- `rt := rs op value` -/
  | aluImmediate (op : ImmediateOp) (rt rs : Register) (value : Int64)
  /-- `rt := memory[base + offset]` -/
  | load (rt : Register) (offset : Int64) (base : Register)
  /-- `memory[base + offset] := rt` -/
  | store (rt : Register) (offset : Int64) (base : Register)
  /-- `rt := value * 2 ^ 16` -/
  | loadUpper (rt : Register) (value : Int64)
  /-- go on at `label` if `rs` and `rt` pass the test -/
  | branch (test : BranchTest) (rs rt : Register) (label : String)
  /-- print the value of a register -/
  | print (source : Register)
  /-- print the string constant of the given name, or the name itself if it has none -/
  | printString (constant : String)
  /-- end the program -/
  | halt
  deriving DecidableEq, Repr, Inhabited

/-- What an instruction does, in the broad classes in which executed instructions are counted. -/
inductive InstructionClass where
  /-- arithmetic, logic, shifts and comparisons -/
  | alu
  /-- a read from memory -/
  | load
  /-- a write to memory -/
  | store
  /-- a conditional branch -/
  | branch
  /-- a line of output -/
  | output
  /-- the end of the program -/
  | halt
  deriving DecidableEq, Repr, Inhabited

/-- The mnemonic of a three-register operation. -/
def AluOp.mnemonic : AluOp → Mnemonic
  | .add => .add
  | .sub => .sub
  | .and => .and
  | .or => .or
  | .slt => .slt

/-- The mnemonic of an operation with an immediate. -/
def ImmediateOp.mnemonic : ImmediateOp → Mnemonic
  | .addi => .addi
  | .slti => .slti

/-- The mnemonic of a branch. -/
def BranchTest.mnemonic : BranchTest → Mnemonic
  | .equal => .beq
  | .different => .bne

namespace InstructionClass

/-- The name of a class. -/
def name : InstructionClass → String
  | .alu => "alu"
  | .load => "load"
  | .store => "store"
  | .branch => "branch"
  | .output => "output"
  | .halt => "halt"

/-- Every class. -/
def all : List InstructionClass := [.alu, .load, .store, .branch, .output, .halt]

/-- The class of the given name. -/
def ofName? (s : String) : Option InstructionClass := all.find? fun c => c.name == s

theorem mem_all (c : InstructionClass) : c ∈ all := by cases c <;> decide

/-- A name belongs to one class only, and no other text names a class. -/
theorem ofName?_eq_some_iff {s : String} {c : InstructionClass} :
    ofName? s = some c ↔ c.name = s := by
  constructor
  · intro h
    simpa using List.find?_some h
  · rintro rfl
    cases c <;> decide

end InstructionClass

namespace Instruction

/-- The mnemonic under which an instruction is written; the end of the program is always `HALT`. -/
def mnemonic : Instruction → Mnemonic
  | .alu op .. => op.mnemonic
  | .shiftLeft .. => .sll
  | .multiply .. => .mult
  | .aluImmediate op .. => op.mnemonic
  | .load .. => .lw
  | .store .. => .sw
  | .loadUpper .. => .lui
  | .branch test .. => test.mnemonic
  | .print .. => .print
  | .printString .. => .prints
  | .halt => .halt

/-- The class in which an instruction is counted. -/
def classOf : Instruction → InstructionClass
  | .alu .. | .shiftLeft .. | .multiply .. | .aluImmediate .. | .loadUpper .. => .alu
  | .load .. => .load
  | .store .. => .store
  | .branch .. => .branch
  | .print .. | .printString .. => .output
  | .halt => .halt

/-! ## Operands in written order -/

/-- The instruction that a mnemonic and its operands make. -/
def ofOperands : (m : Mnemonic) → Operands m.operandKinds → Instruction
  | .add, (rd, rs, rt, ()) => .alu .add rd rs rt
  | .sub, (rd, rs, rt, ()) => .alu .sub rd rs rt
  | .and, (rd, rs, rt, ()) => .alu .and rd rs rt
  | .or, (rd, rs, rt, ()) => .alu .or rd rs rt
  | .slt, (rd, rs, rt, ()) => .alu .slt rd rs rt
  | .sll, (rd, rt, amount, ()) => .shiftLeft rd rt amount
  | .mult, (rs, rt, ()) => .multiply rs rt
  | .addi, (rt, rs, value, ()) => .aluImmediate .addi rt rs value
  | .slti, (rt, rs, value, ()) => .aluImmediate .slti rt rs value
  | .lw, (rt, offset, base, ()) => .load rt offset base
  | .sw, (rt, offset, base, ()) => .store rt offset base
  | .lui, (rt, value, ()) => .loadUpper rt value
  | .beq, (rs, rt, label, ()) => .branch .equal rs rt label
  | .bne, (rs, rt, label, ()) => .branch .different rs rt label
  | .print, (source, ()) => .print source
  | .prints, (constant, ()) => .printString constant
  | .exit, () => .halt
  | .halt, () => .halt

/-- The operands of an instruction, in written order. -/
def operands : (i : Instruction) → Operands i.mnemonic.operandKinds
  | .alu .add rd rs rt => (rd, rs, rt, ())
  | .alu .sub rd rs rt => (rd, rs, rt, ())
  | .alu .and rd rs rt => (rd, rs, rt, ())
  | .alu .or rd rs rt => (rd, rs, rt, ())
  | .alu .slt rd rs rt => (rd, rs, rt, ())
  | .shiftLeft rd rt amount => (rd, rt, amount, ())
  | .multiply rs rt => (rs, rt, ())
  | .aluImmediate .addi rt rs value => (rt, rs, value, ())
  | .aluImmediate .slti rt rs value => (rt, rs, value, ())
  | .load rt offset base => (rt, offset, base, ())
  | .store rt offset base => (rt, offset, base, ())
  | .loadUpper rt value => (rt, value, ())
  | .branch .equal rs rt label => (rs, rt, label, ())
  | .branch .different rs rt label => (rs, rt, label, ())
  | .print source => (source, ())
  | .printString constant => (constant, ())
  | .halt => ()

/-- An instruction is made up of its mnemonic and its operands. -/
theorem ofOperands_operands (i : Instruction) : ofOperands i.mnemonic i.operands = i := by
  cases i with
  | alu op => cases op <;> rfl
  | aluImmediate op => cases op <;> rfl
  | branch test => cases test <;> rfl
  | _ => rfl

/-- Only `EXIT` is written under another mnemonic than it was read under. -/
theorem mnemonic_ofOperands {m : Mnemonic} (h : m ≠ .exit) (vs : Operands m.operandKinds) :
    (ofOperands m vs).mnemonic = m := by
  cases m <;> first | rfl | exact absurd rfl h

end Instruction

end MipsMachine
