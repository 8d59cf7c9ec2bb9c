import Mathlib.Data.Int.Bitwise
import MipsMachine.Simulation

set_option autoImplicit false

/-!
# The ideal machine

The machine of the specification, where registers and words of memory hold integers of any
size.  Sums, products and shifted values are never reduced, an address is any integer, and
bitwise operations work on two's complement without end.  `IdealMachine` has its own state,
step and run; with the machine of 64-bit values it shares the program and the instruction that
a text is read as.
-/

namespace MipsMachine

/-! ## Operations on integers -/

def AluOp.exact : AluOp → Int → Int → Int
  | .add, a, b => a + b
  | .sub, a, b => a - b
  | .and, a, b => a.land b
  | .or, a, b => a.lor b
  | .slt, a, b => if a < b then 1 else 0

def ImmediateOp.exact : ImmediateOp → Int → Int → Int
  | .addi, a, b => a + b
  | .slti, a, b => if a < b then 1 else 0

def BranchTest.holds : BranchTest → Int → Int → Bool
  | .equal, a, b => a = b
  | .different, a, b => a ≠ b

/-! ## States -/

/-- A machine over the integers, with the program it runs and the lines it printed. -/
structure IdealMachine where
  registers : Register → Int
  /-- The stored words; all other addresses read 0. -/
  memory : Int → Option Int
  pc : Nat
  /-- The register that takes the products of `MULT`. -/
  product : Register
  program : Program
  output : Array String

namespace IdealMachine

/-- The machine in front of a program, before anything ran. -/
def start (program : Program) (product : Register) : IdealMachine :=
  ⟨fun _ => 0, fun _ => none, 0, product, program, #[]⟩

/-! ## Reading -/

/-- The value of a register; that of `$zero` is 0, whatever was put there. -/
def read (i : IdealMachine) (r : Register) : Int := if r = .zero then 0 else i.registers r

def load (i : IdealMachine) (address : Int) : Int := (i.memory address).getD 0

def address (i : IdealMachine) (base : Register) (offset : Int) : Int := i.read base + offset

/-! ## Executing -/

def goto (i : IdealMachine) (target : Nat) : IdealMachine := { i with pc := target }

def next (i : IdealMachine) : IdealMachine := i.goto (i.pc + 1)

def put (i : IdealMachine) (r : Register) (value : Int) : IdealMachine :=
  { i with registers := fun q => if q = r then value else i.registers q }

def store (i : IdealMachine) (address value : Int) : IdealMachine :=
  { i with memory := fun a => if a = address then some value else i.memory a }

def say (i : IdealMachine) (line : String) : IdealMachine :=
  { i with output := i.output.push line }

/-- The machine after an instruction.  A branch is refused if its label is not defined, taken
or not. -/
def execute (i : IdealMachine) : Instruction → Except Fault IdealMachine
  | .alu op rd rs rt => .ok (i.put rd (op.exact (i.read rs) (i.read rt))).next
  | .shiftLeft rd rt amount => .ok (i.put rd (i.read rt * 2 ^ amount.toNat)).next
  | .multiply rs rt => .ok (i.put i.product (i.read rs * i.read rt)).next
  | .aluImmediate op rt rs value => .ok (i.put rt (op.exact (i.read rs) value.toInt)).next
  | .load rt offset base => .ok (i.put rt (i.load (i.address base offset.toInt))).next
  | .store rt offset base => .ok (i.store (i.address base offset.toInt) (i.read rt)).next
  | .loadUpper rt value => .ok (i.put rt (value.toInt * 65536)).next
  | .branch test rs rt label =>
    match i.program.label? label with
    | none => .error (.unknownLabel label)
    | some target => .ok (if test.holds (i.read rs) (i.read rt) then i.goto target else i.next)
  | .print source => .ok (i.say (toString (i.read source))).next
  | .printString constant => .ok (i.say ((i.program.string? constant).getD constant)).next
  | .halt => .ok (i.goto i.program.size)

/-- The integer that an instruction computes and that may be out of the range of 64 bits: a
sum, a difference, a product, a shifted value or an address. -/
def computed? (i : IdealMachine) : Instruction → Option Int
  | .alu .add _ rs rt => some (i.read rs + i.read rt)
  | .alu .sub _ rs rt => some (i.read rs - i.read rt)
  | .shiftLeft _ rt amount => some (i.read rt * 2 ^ amount.toNat)
  | .multiply rs rt => some (i.read rs * i.read rt)
  | .aluImmediate .addi _ rs value => some (i.read rs + value.toInt)
  | .load _ offset base | .store _ offset base => some (i.address base offset.toInt)
  | .loadUpper _ value => some (value.toInt * 65536)
  | _ => none

/-! ## Stepping and running -/

/-- The instruction at the program counter, as far as its text can be read. -/
def fetch? (i : IdealMachine) : Option (Except Fault Instruction) :=
  (i.program.instruction? i.pc).map Instruction.read

/-- The integer that the next step computes and that may be out of range. -/
def computing? (i : IdealMachine) : Option Int :=
  match i.fetch? with
  | some (.ok instruction) => i.computed? instruction
  | _ => none

/-- Execute the instruction at the program counter. -/
def step (i : IdealMachine) : Except Fault StepResult × IdealMachine :=
  match i.fetch? with
  | none => (.ok .finished, i)
  | some (.error fault) => (.error fault, i)
  | some (.ok instruction) =>
    match i.execute instruction with
    | .error fault => (.error fault, i)
    | .ok j => (.ok .executed, j)

/-- The machine after `k` steps, whatever they come to. -/
def after : IdealMachine → Nat → IdealMachine
  | i, 0 => i
  | i, k + 1 => i.step.2.after k

/-- Step until the program ends, a step fails or `n` instructions were executed; the result is
their number. -/
def runFor : IdealMachine → Nat → Except Fault Nat × IdealMachine
  | i, 0 => (.ok 0, i)
  | i, n + 1 =>
    match i.step with
    | (.ok .executed, j) => ((j.runFor n).1.map (1 + ·), (j.runFor n).2)
    | (.ok .finished, j) => (.ok 0, j)
    | (.error fault, j) => (.error fault, j)

end IdealMachine

end MipsMachine
