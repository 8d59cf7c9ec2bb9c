import MipsMachine.Arithmetic
import MipsMachine.Memory
import MipsMachine.Program
import MipsMachine.Register.Bank

set_option autoImplicit false

/-!
# The machine

The machine is what instructions read and change: the registers, the data memory and the
program counter, which counts instructions.  What an instruction does is worked out in full
before anything changes.  Its *effect* is at most one write, where the program counter goes,
and at most one line of output; applying an effect cannot fail.  So an instruction that is
refused changes nothing.
-/

namespace MipsMachine

/-- The state that instructions act on. -/
@[ext] structure Machine where
  /-- The registers. -/
  registers : Bank
  /-- The data memory. -/
  memory : Memory
  /-- The index of the next instruction. -/
  pc : Nat
  /-- The register that takes the products of `MULT`. -/
  product : Register
  deriving DecidableEq

/-- Where the program counter goes. -/
inductive Flow where
  /-- to the instruction after this one -/
  | next
  /-- to the instruction at the given index -/
  | jump (target : Nat)
  deriving DecidableEq, Repr, Inhabited

/-- A change to one place. -/
inductive Write where
  /-- to a register -/
  | register (r : Register) (value : Int64)
  /-- to a word of memory -/
  | memory (address value : Int64)
  deriving DecidableEq, Repr, Inhabited

/-- What an instruction does. -/
structure Effect where
  /-- The place it changes, if it changes one. -/
  write? : Option Write := none
  /-- Where the program counter goes. -/
  flow : Flow := .next
  /-- The line it prints, if it prints one. -/
  output? : Option String := none
  deriving DecidableEq, Repr, Inhabited

/-! ## Effects -/

namespace Flow

/-- The program counter after an instruction at `pc`. -/
def target (pc : Nat) : Flow → Nat
  | .next => pc + 1
  | .jump i => i

end Flow

namespace Effect

/-- The effect of putting a value into a register. -/
def set (r : Register) (value : Int64) : Effect := { write? := some (.register r value) }

end Effect

namespace Machine

/-- The machine before anything ran. -/
def initial (product : Register) : Machine := ⟨.cleared, ∅, 0, product⟩

instance : Inhabited Machine := ⟨initial .t0⟩

/-- The machine with registers, memory and program counter as at the start. -/
def reset (m : Machine) : Machine := initial m.product

/-- The address that an offset and a base register give; the sum wraps around. -/
def address (m : Machine) (base : Register) (offset : Int64) : Int64 :=
  m.registers.read base + offset

/-- What an instruction does on this machine, running as part of the given program.  A branch
is refused if its label is not defined, taken or not. -/
def effect (m : Machine) (p : Program) : Instruction → Except Fault Effect
  | .alu op rd rs rt => .ok (.set rd (op.apply (m.registers.read rs) (m.registers.read rt)))
  | .shiftLeft rd rt amount =>
      .ok (.set rd (Arithmetic.shiftLeft (m.registers.read rt) amount.toNat))
  | .multiply rs rt => .ok (.set m.product (m.registers.read rs * m.registers.read rt))
  | .aluImmediate op rt rs value => .ok (.set rt (op.apply (m.registers.read rs) value))
  | .load rt offset base => .ok (.set rt (m.memory.load (m.address base offset)))
  | .store rt offset base =>
    .ok { write? := some (.memory (m.address base offset) (m.registers.read rt)) }
  | .loadUpper rt value => .ok (.set rt (Arithmetic.shiftLeft value Arithmetic.upperShift))
  | .branch test rs rt label =>
    match p.label? label with
    | none => .error (.unknownLabel label)
    | some target =>
      if test.passes (m.registers.read rs) (m.registers.read rt) then .ok { flow := .jump target }
      else .ok {}
  | .print source => .ok { output? := some (Numeral.integer (m.registers.read source).toInt) }
  | .printString constant => .ok { output? := some ((p.string? constant).getD constant) }
  | .halt => .ok { flow := .jump p.size }

/-- Carry out a write. -/
def change (m : Machine) : Option Write → Machine
  | none => m
  | some (.register r value) => { m with registers := m.registers.write r value }
  | some (.memory address value) => { m with memory := m.memory.store address value }

/-- Move the program counter. -/
def advance (m : Machine) (flow : Flow) : Machine := { m with pc := flow.target m.pc }

/-- Execute an instruction without moving the program counter: the machine after its write, and the
effect it had. -/
def execute (m : Machine) (p : Program) (i : Instruction) : Except Fault (Machine × Effect) :=
  match m.effect p i with
  | .ok e => .ok (m.change e.write?, e)
  | .error fault => .error fault

/-! ## What writes leave alone -/

@[simp] theorem pc_change (m : Machine) (w : Option Write) : (m.change w).pc = m.pc := by
  rcases w with _ | ⟨⟩ | ⟨⟩ <;> rfl

@[simp] theorem product_change (m : Machine) (w : Option Write) :
    (m.change w).product = m.product := by
  rcases w with _ | ⟨⟩ | ⟨⟩ <;> rfl

@[simp] theorem product_reset (m : Machine) : m.reset.product = m.product := rfl

/-- A branch whose label is defined moves the program counter and does nothing else. -/
theorem effect_branch_eq_ok_iff {m : Machine} {p : Program} {test : BranchTest} {rs rt : Register}
    {label : String} {e : Effect} :
    m.effect p (.branch test rs rt label) = .ok e ↔
      ∃ target, p.label? label = some target ∧
        e = { flow := if test.passes (m.registers.read rs) (m.registers.read rt) then .jump target
                else .next } := by
  simp only [effect]
  cases p.label? label with
  | none => simp
  | some target =>
      cases test.passes (m.registers.read rs) (m.registers.read rt) with
      | false => simp [eq_comm]
      | true => simp [eq_comm]

/-- Only a branch can be refused, and only for want of its label. -/
theorem effect_eq_error_iff {m : Machine} {p : Program} {i : Instruction} {fault : Fault} :
    m.effect p i = .error fault ↔
      ∃ test rs rt label, i = .branch test rs rt label ∧ p.label? label = none ∧
        fault = .unknownLabel label := by
  constructor
  · intro h
    cases i with
    | branch test rs rt label =>
        refine ⟨test, rs, rt, label, rfl, ?_⟩
        simp only [effect] at h
        split at h
        next hl => exact ⟨hl, (Except.error.inj h).symm⟩
        next => split at h <;> cases h
    | _ => cases h
  · rintro ⟨test, rs, rt, label, rfl, hl, rfl⟩
    simp [effect, hl]

end Machine

end MipsMachine
