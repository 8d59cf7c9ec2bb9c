import MipsMachine.Fault
import MipsMachine.Word

set_option autoImplicit false

/-!
# Log events

What the assembler and the simulation tell a reader of the log.  An event is kept as what
happened; its level, its wording and its fields are read off it.  What an operation shows to
the outside is a journal of emissions, in order: log events, and text for the standard output
and the standard error.
-/

namespace MipsMachine

/-- How urgent an event is. -/
inductive Level where
  /-- the program cannot go on -/
  | error
  /-- something is likely wrong -/
  | warn
  /-- a milestone -/
  | info
  /-- a detail -/
  | debug
  /-- the finest detail; no event has this level -/
  | trace
  deriving DecidableEq, Repr, Inhabited

namespace Level

/-- The name of a level in log lines. -/
def name : Level → String
  | .error => "ERROR"
  | .warn => "WARN"
  | .info => "INFO"
  | .debug => "DEBUG"
  | .trace => "TRACE"

/-- The place of a level, the most urgent first. -/
def rank : Level → Nat
  | .error => 1
  | .warn => 2
  | .info => 3
  | .debug => 4
  | .trace => 5

end Level

/-- Something that happened and is worth a line in the log. -/
inductive Event where
  /-- a source line defines a label that an earlier line defined -/
  | labelRedefined (line : Nat) (label : String)
  /-- a `.data` line has too few words -/
  | directiveIgnored (line : Nat) (directive : String)
  /-- the simulation went back to its initial state -/
  | reset
  /-- a program was loaded, with so many instructions, labels and string constants -/
  | loaded (instructions labels strings : Nat)
  /-- the instruction at `pc` could not be read or executed -/
  | stepFailed (pc : Nat) (instruction : String) (fault : Fault)
  /-- the instruction at `pc` was executed -/
  | executed (pc : Nat) (instruction : String) (word : Word)
  /-- a run came to the end of the program, after so many instructions -/
  | runFinished (count pc : Nat)
  /-- a run from the command line ended in a fault -/
  | stopped (pc : Nat)
  deriving DecidableEq, Repr, Inhabited

namespace Event

/-- A named value of an event. -/
structure Field where
  /-- The name. -/
  name : String
  /-- The value as text. -/
  value : String
  /-- Whether the value is text from a program, which log lines put in quotes. -/
  quoted : Bool := false
  deriving DecidableEq, Repr, Inhabited

/-- How urgent an event is. -/
def level : Event → Level
  | .labelRedefined .. | .directiveIgnored .. | .stepFailed .. => .warn
  | .reset | .loaded .. | .runFinished .. => .info
  | .executed .. => .debug
  | .stopped .. => .error

/-- The wording of an event. -/
def message : Event → String
  | .labelRedefined .. => "label redefined; later definition wins"
  | .directiveIgnored .. => "ignoring incomplete .data directive"
  | .reset => "simulator reset"
  | .loaded .. => "program loaded"
  | .stepFailed .. => "step failed"
  | .executed .. => "executed"
  | .runFinished .. => "run finished"
  | .stopped .. => "execution stopped"

/-- A field that holds a number. -/
def number (name : String) (n : Nat) : Field := ⟨name, Numeral.natural n, false⟩

/-- The named values of an event, in order. -/
def fields : Event → List Field
  | .labelRedefined line label => [number "line" line, ⟨"label", label, true⟩]
  | .directiveIgnored line directive => [number "line" line, ⟨"directive", directive, true⟩]
  | .reset => []
  | .loaded instructions labels strings =>
    [number "instructions" instructions, number "labels" labels, number "strings" strings]
  | .stepFailed pc instruction fault =>
    [number "pc" pc, ⟨"instruction", instruction, true⟩, ⟨"error", fault.message, false⟩]
  | .executed pc instruction word =>
    [number "pc" pc, ⟨"instruction", instruction, true⟩, ⟨"bits", word.text, false⟩]
  | .runFinished count pc => [number "executed" count, number "pc" pc]
  | .stopped pc => [number "pc" pc]

end Event

/-! ## Journals -/

/-- One thing shown to the outside. -/
inductive Emission where
  /-- an event for the log -/
  | log (event : Event)
  /-- text for the standard output -/
  | out (text : String)
  /-- text for the standard error -/
  | err (text : String)
  deriving DecidableEq, Repr, Inhabited

/-- What was shown to the outside, in order. -/
abbrev Journal := Array Emission

namespace Journal

/-- The log events of a journal. -/
def events (journal : Journal) : List Event :=
  journal.toList.filterMap fun
    | .log event => some event
    | _ => none

/-- All text for the standard output, joined up. -/
def stdout (journal : Journal) : String :=
  String.join <| journal.toList.filterMap fun
    | .out text => some text
    | _ => none

/-- All text for the standard error, joined up. -/
def stderr (journal : Journal) : String :=
  String.join <| journal.toList.filterMap fun
    | .err text => some text
    | _ => none

end Journal

end MipsMachine
