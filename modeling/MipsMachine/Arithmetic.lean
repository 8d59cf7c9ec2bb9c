import MipsMachine.Instruction

set_option autoImplicit false

/-!
# Arithmetic

What the operations compute on signed 64-bit values.  Sums, differences, products and shifts
are those of the integers, reduced to 64 bits; comparisons are those of the integers.
-/

namespace MipsMachine

namespace Arithmetic

/-- The bits of a value moved `n` places up, with zeros behind them; nothing is left of it from
64 on. -/
def shiftLeft (value : Int64) (n : Nat) : Int64 :=
  if n < 64 then Int64.ofBitVec (value.toBitVec <<< n) else 0

/-- How many places the immediate of `LUI` is moved up. -/
def upperShift : Nat := 16

/-- 1 for a true proposition, 0 for a false one. -/
def truthValue (p : Prop) [Decidable p] : Int64 := if p then 1 else 0

theorem toInt_truthValue (p : Prop) [Decidable p] :
    (truthValue p).toInt = if p then 1 else 0 := by
  unfold truthValue
  split <;> rfl

end Arithmetic

open Arithmetic

/-- The result of a three-register operation. -/
def AluOp.apply : AluOp → Int64 → Int64 → Int64
  | .add, a, b => a + b
  | .sub, a, b => a - b
  | .and, a, b => a &&& b
  | .or, a, b => a ||| b
  | .slt, a, b => truthValue (a < b)

/-- The result of an operation with an immediate. -/
def ImmediateOp.apply : ImmediateOp → Int64 → Int64 → Int64
  | .addi, a, b => a + b
  | .slti, a, b => truthValue (a < b)

/-- Whether two values pass the test of a branch. -/
def BranchTest.passes : BranchTest → Int64 → Int64 → Bool
  | .equal, a, b => a == b
  | .different, a, b => a != b

/-- One of the two branches is taken, and only one. -/
theorem BranchTest.passes_different (a b : Int64) :
    BranchTest.different.passes a b = !BranchTest.equal.passes a b := rfl

end MipsMachine
