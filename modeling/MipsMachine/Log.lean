import MipsMachine.Event
import MipsMachine.Text.Quoted

set_option autoImplicit false

/-!
# The log

How events are written to the log of a command, one line each, and which of them are written at
all.
-/

namespace MipsMachine

/-- The least urgent level that is still written; `none` if nothing is. -/
abbrev LogFilter := Option Level

namespace LogFilter

/-- The filter of the given name. -/
def ofName? : String → Option LogFilter
  | "off" => some none
  | "error" => some (some .error)
  | "warn" => some (some .warn)
  | "info" => some (some .info)
  | "debug" => some (some .debug)
  | "trace" => some (some .trace)
  | _ => none

/-- The filter that holds if none is asked for: warnings, and on request the details too. -/
def standard (verbose : Bool) : LogFilter := some (if verbose then .debug else .warn)

/-- Whether an event is written. -/
def admits (filter : LogFilter) (e : Event) : Bool :=
  match filter with
  | some level => e.level.rank ≤ level.rank
  | none => false

end LogFilter

namespace Event

/-- The part of the program that an event comes from. -/
def origin : Event → String
  | .labelRedefined .. | .directiveIgnored .. => "mipsim_core::sim::loader"
  | .stopped .. => "mipsim"
  | _ => "mipsim_core::sim::simulator"

/-- A field as it stands in a log line. -/
def Field.text (f : Field) : String :=
  f.name ++ "=" ++ if f.quoted then Text.quoted f.value else f.value

/-- The log line of an event. -/
def line (e : Event) : String :=
  " ".intercalate
    ((e.level.name ++ " " ++ e.origin ++ ": " ++ e.message) :: e.fields.map Field.text)

end Event

/-- The log lines of a journal. -/
def Journal.logLines (journal : Journal) (filter : LogFilter) : List String :=
  (journal.events.filter filter.admits).map Event.line

end MipsMachine
