import MipsMachine.Event
import MipsMachine.Program.Statement
import MipsMachine.Table

set_option autoImplicit false

/-!
# Programs

A program is what its source lines contribute: instructions, in order and still as text, and
two symbol tables.  Assembly is one pass from the first line to the last, and it never fails:
an instruction that cannot be read is found out when it is executed.  A label is bound to the
number of instructions before it, so it may stand behind the last one.  In both tables the last
definition of a name counts.
-/

namespace MipsMachine

/-- An assembled program. -/
structure Program where
  /-- The instruction texts, in order. -/
  instructions : Array String
  /-- For each label, the index of the instruction it stands before. -/
  labels : Table String Nat
  /-- The string constants. -/
  strings : Table String String
  deriving DecidableEq

namespace Program

/-- The program without lines. -/
def empty : Program := ⟨#[], ∅, ∅⟩

instance : EmptyCollection Program := ⟨empty⟩

instance : Inhabited Program := ⟨empty⟩

/-- The number of instructions. -/
def size (p : Program) : Nat := p.instructions.size

/-- Whether there is no instruction. -/
def isEmpty (p : Program) : Bool := p.instructions.isEmpty

/-- The text of the instruction at an index. -/
def instruction? (p : Program) (i : Nat) : Option String := p.instructions[i]?

/-- The index that a label is bound to. -/
def label? (p : Program) (name : String) : Option Nat := p.labels.find? name

/-- The string constant of the given name. -/
def string? (p : Program) (name : String) : Option String := p.strings.find? name

/-! ## Assembly -/

/-- Add what one line contributes. -/
def add (p : Program) : Statement → Program
  | .blank | .incomplete _ => p
  | .constant name text => { p with strings := p.strings.insert name text }
  | .label name => { p with labels := p.labels.insert name p.size }
  | .labelled name text =>
    { p with labels := p.labels.insert name p.size, instructions := p.instructions.push text }
  | .instruction text => { p with instructions := p.instructions.push text }

/-- The program that the lines of a source text make. -/
def assemble (lines : List String) : Program :=
  (lines.map Statement.ofLine).foldl add empty

/-- The lines of a source text. -/
def sourceLines (source : String) : List String :=
  (Text.lines source.toList).map String.ofList

/-- The program that a source text makes. -/
def ofSource (source : String) : Program := assemble (sourceLines source)

/-! ## Warnings -/

/-- What there is to warn of when a line is added to a program. -/
def warning? (p : Program) (line : Nat) (s : Statement) : Option Event :=
  match s with
  | .incomplete directive => some (.directiveIgnored line directive)
  | _ =>
    match s.label? with
    | some name => if p.labels.contains name then some (.labelRedefined line name) else none
    | none => none

/-- The warnings that adding statements gives, the first of them standing on the given line. -/
def warningsFrom (p : Program) (line : Nat) : List Statement → List Event
  | [] => []
  | s :: ss => (p.warning? line s).toList ++ (p.add s).warningsFrom (line + 1) ss

/-- The warnings that assembling the lines of a source text gives, in source order. -/
def warnings (lines : List String) : List Event :=
  empty.warningsFrom 1 (lines.map Statement.ofLine)

/-! ## What a statement adds -/

theorem size_add (p : Program) (s : Statement) :
    (p.add s).size = p.size + s.instruction?.toList.length := by
  cases s <;> simp [add, size, Statement.instruction?]

theorem toList_instructions_add (p : Program) (s : Statement) :
    (p.add s).instructions.toList = p.instructions.toList ++ s.instruction?.toList := by
  cases s <;> simp [add, Statement.instruction?]

theorem label?_add (p : Program) (s : Statement) (name : String) :
    (p.add s).label? name = if s.label? = some name then some p.size else p.label? name := by
  cases s <;> simp [add, label?, Statement.label?, Table.find?_insert, eq_comm]

theorem string?_add (p : Program) (s : Statement) (name : String) :
    (p.add s).string? name = (s.constant? name).or (p.string? name) := by
  cases s with
  | constant other text =>
      by_cases h : name = other <;>
        simp [add, string?, Statement.constant?, Table.find?_insert, h]
  | _ => simp [add, string?, Statement.constant?]

end Program

end MipsMachine
