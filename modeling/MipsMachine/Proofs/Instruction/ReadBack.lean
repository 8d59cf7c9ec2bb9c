import MipsMachine.Machine
import MipsMachine.Proofs.Instruction.Grammar
import MipsMachine.Proofs.Instruction.Text

set_option autoImplicit false

/-!
# The one value that does not read back

Printing and writing use decimal text, and decimal text reads back as the value it was made
from, but for the least 64-bit number: its magnitude is read before its sign counts, and that
magnitude is above the limit.  So an instruction reads back from its text unless one of its
immediates is that number, and then it is refused for it (`text_reads_back_unless_least`).
Nothing else stands in the way, whether the instruction was ever read or not.
-/

namespace MipsMachine

open Instruction

/-- The decimal text of the least 64-bit number. -/
def Immediate.leastText : String := "-9223372036854775808"

open Immediate (leastText)

theorem Immediate.integer_minValue :
    Numeral.integer Int64.minValue.toInt = leastText := by decide +kernel

theorem Immediate.read?_leastText : read? leastText = none := by decide +kernel

/-! ## One operand -/

namespace OperandKind

/-- The value in the position of an immediate. -/
def immediate? : (kind : OperandKind) → kind.Value → Option Int64
  | .immediate, value => some value
  | .register, _ | .amount, _ | .label, _ => none

/-- The text of the least number is the one that is refused. -/
theorem read_integer (v : Int64) :
    OperandKind.immediate.read (Numeral.integer v.toInt) =
      if v = Int64.minValue then .error (.badImmediate leastText) else .ok v := by
  split
  next hleast =>
    rw [hleast, Immediate.integer_minValue, OperandKind.read, Immediate.read?_leastText]
  next hother => exact @read_write .immediate v hother

theorem read_write_eq (kind : OperandKind) (value : kind.Value) :
    kind.read (kind.write value) =
      if kind.immediate? value = some Int64.minValue then .error (.badImmediate leastText)
        else .ok value := by
  cases kind with
  | register => exact @read_write .register value trivial
  | immediate =>
      simp only [immediate?, Option.some.injEq]
      exact read_integer value
  | amount => exact @read_write .amount value trivial
  | label => rfl

end OperandKind

/-! ## Operands -/

namespace Operands

def immediates : (kinds : List OperandKind) → Operands kinds → List Int64
  | [], _ => []
  | kind :: kinds, (value, values) => (kind.immediate? value).toList ++ immediates kinds values

def names : (kinds : List OperandKind) → Operands kinds → List String
  | [], _ => []
  | kind :: kinds, (value, values) => (kind.name? value).toList ++ names kinds values

theorem isToken_of_mem_write_of_names {kinds : List OperandKind} {values : Operands kinds}
    (h : ∀ name ∈ names kinds values, IsToken name) : ∀ t ∈ write kinds values, IsToken t := by
  induction kinds with
  | nil => exact fun t ht => absurd ht List.not_mem_nil
  | cons kind kinds ih =>
      obtain ⟨value, values⟩ := values
      rw [names, List.forall_mem_append] at h
      rw [write, List.forall_mem_cons]
      exact ⟨OperandKind.isToken_write fun name hname =>
        h.1 name (Option.mem_toList.mpr hname), ih h.2⟩

/-- Operands read back from their tokens unless one of them is refused; whichever that is, the
fault is the same. -/
theorem read_write_eq {kinds : List OperandKind} (values : Operands kinds)
    (hlength : (write kinds values).length = kinds.length) :
    read kinds (write kinds values) hlength =
      if Int64.minValue ∈ immediates kinds values then .error (.badImmediate leastText)
        else .ok values := by
  induction kinds with
  | nil => rfl
  | cons kind kinds ih =>
      obtain ⟨value, values⟩ := values
      simp only [write, read, immediates, List.mem_append, Option.mem_toList,
        OperandKind.read_write_eq, ih values (Nat.succ.inj hlength)]
      by_cases hfirst : kind.immediate? value = some Int64.minValue
      · simp [hfirst]
      · by_cases hrest : Int64.minValue ∈ immediates kinds values <;> simp [hfirst, hrest]

end Operands

/-! ## Instructions -/

namespace Instruction

/-- The immediates and offsets of an instruction, whatever their place. -/
def immediates (i : Instruction) : List Int64 :=
  Operands.immediates i.mnemonic.operandKinds i.operands

/-- The labels and the names of string constants in an instruction. -/
def names (i : Instruction) : List String := Operands.names i.mnemonic.operandKinds i.operands

/-- What the text of an instruction is read as. -/
theorem read_text_eq {i : Instruction} (h : ∀ name ∈ i.names, IsToken name) :
    read i.text =
      if Int64.minValue ∈ i.immediates then .error (.badImmediate leastText) else .ok i := by
  have hlength := Operands.length_write i.mnemonic.operandKinds i.operands
  rw [read, tokens_text (Operands.isToken_of_mem_write_of_names h),
    ofTokens_of_length_eq (ofName_lowerName i.mnemonic) hlength,
    Operands.read_write_eq, immediates]
  split
  next => rfl
  next => exact congrArg Except.ok (ofOperands_operands i)

/-- The decimal text of a value reads back as an immediate, and it is the text that a program
prints for a register with this value.  The text of an instruction whose names are tokens reads
back as the instruction.  The one exception in both is the least 64-bit number, whose text is
refused. -/
theorem text_reads_back_unless_least (v : Int64) (i : Instruction) :
    (OperandKind.immediate.read (Numeral.integer v.toInt) =
      if v = Int64.minValue then .error (.badImmediate leastText) else .ok v) ∧
    (∀ (m : Machine) (p : Program) (r : Register), m.registers.read r = v →
      m.execute p (.print r) = .ok (m, { output? := some (Numeral.integer v.toInt) })) ∧
    ((∀ name ∈ i.names, IsToken name) →
      read i.text =
        if Int64.minValue ∈ i.immediates then .error (.badImmediate leastText) else .ok i) := by
  refine ⟨OperandKind.read_integer v, ?_, read_text_eq⟩
  rintro m p r rfl
  rfl

/-- The least number is printed, but it is refused as an offset; its neighbour is not, and
neither is a label that is spelled like it. -/
theorem text_reads_back_unless_least_at_bounds :
    let m := (Machine.initial .t0).change (some (.register .t0 Int64.minValue))
    m.execute ∅ (.print .t0) = .ok (m, { output? := some "-9223372036854775808" }) ∧
    read "sw $t0, -9223372036854775808($sp)" = .error (.badImmediate "-9223372036854775808") ∧
    read "sw $t0, -9223372036854775807($sp)" = .ok (.store .t0 (-9223372036854775807) .sp) ∧
    read "beq $t0, $sp, -9223372036854775808" =
      .ok (.branch .equal .t0 .sp "-9223372036854775808") := by
  intro m
  have hleast : (Instruction.store .t0 Int64.minValue .sp).text =
      "sw $t0, -9223372036854775808($sp)" := by
    decide +kernel
  have hnext : (Instruction.store .t0 (-9223372036854775807) .sp).text =
      "sw $t0, -9223372036854775807($sp)" := by
    decide +kernel
  have hlabel : (Instruction.branch .equal .t0 .sp leastText).text =
      "beq $t0, $sp, -9223372036854775808" := by
    decide +kernel
  obtain ⟨-, hprint, hleastRead⟩ :=
    text_reads_back_unless_least Int64.minValue (.store .t0 Int64.minValue .sp)
  obtain ⟨-, -, hnextRead⟩ :=
    text_reads_back_unless_least 0 (.store .t0 (-9223372036854775807) .sp)
  obtain ⟨-, -, hlabelRead⟩ := text_reads_back_unless_least 0 (.branch .equal .t0 .sp leastText)
  rw [Immediate.integer_minValue] at hprint
  rw [← hleast, ← hnext, ← hlabel]
  exact ⟨hprint m ∅ .t0 (by decide), hleastRead (by decide), hnextRead (by decide),
    hlabelRead (by decide)⟩

/-- Neither the values nor the instructions all read back. -/
theorem not_text_reads_back :
    (¬∀ v : Int64, OperandKind.immediate.read (Numeral.integer v.toInt) = .ok v) ∧
    ¬∀ i : Instruction, (∀ name ∈ i.names, IsToken name) → read i.text = .ok i := by
  constructor
  · intro hlaw
    have hread := hlaw Int64.minValue
    rw [Immediate.integer_minValue, OperandKind.read, Immediate.read?_leastText] at hread
    cases hread
  · intro hlaw
    have hread := hlaw (.loadUpper .t0 Int64.minValue) (by decide)
    rw [read_text_eq (by decide), if_pos (by decide)] at hread
    cases hread

end Instruction

end MipsMachine
