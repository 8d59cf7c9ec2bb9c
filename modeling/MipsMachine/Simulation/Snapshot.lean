import MipsMachine.Simulation

set_option autoImplicit false

/-!
# Snapshots

All that can be seen of a simulation at one moment, and its JSON text.  The members stand in a
fixed order; registers are keyed by name in the order of their numbers, memory words by address
in ascending order.
-/

namespace MipsMachine

/-- What can be seen of a simulation. -/
structure Snapshot where
  /-- The index of the next instruction. -/
  pc : Nat
  /-- Whether the program counter is past the last instruction. -/
  finished : Bool
  /-- The registers. -/
  registers : Listing
  /-- The words stored in memory. -/
  memory : Table Int64 Int64
  /-- The printed lines. -/
  output : Array String
  /-- The words of the executed instructions. -/
  trace : Array Word
  /-- The counts of the executed instructions. -/
  tally : Tally
  deriving DecidableEq

/-- What can be seen of a simulation now. -/
def Simulation.snapshot (s : Simulation) : Snapshot where
  pc := s.machine.pc
  finished := s.isFinished
  registers := s.machine.registers.listing
  memory := s.machine.memory.words
  output := s.output
  trace := s.trace
  tally := s.tally

namespace Json

/-- The tokens of an array with the given tokens for its elements. -/
def arrayTokens (elements : List (List Token)) : List Token :=
  .openArray :: [Token.comma].intercalate elements ++ [.closeArray]

/-- The tokens of one member of an object. -/
def memberTokens (key : String) (value : List Token) : List Token :=
  .ofText key :: .colon :: value

/-- The tokens of an object with the given keys and tokens for their values. -/
def objectTokens (members : List (String × List Token)) : List Token :=
  .openObject :: [Token.comma].intercalate (members.map fun m => memberTokens m.1 m.2)
    ++ [.closeObject]

end Json

/-- The JSON tokens of a listing. -/
def Listing.tokens (l : Listing) : List Json.Token :=
  Json.objectTokens (l.map fun entry => (entry.1.name, [.integer entry.2.toInt]))

/-- The JSON tokens of the words in memory. -/
def Memory.tokens (words : Table Int64 Int64) : List Json.Token :=
  Json.objectTokens (words.toList.map fun entry =>
    (Numeral.integer entry.1.toInt, [.integer entry.2.toInt]))

/-- The JSON tokens of a row of lines. -/
def lineTokens (lines : List String) : List Json.Token :=
  Json.arrayTokens (lines.map fun line => [.ofText line])

/-- The JSON tokens of a tally. -/
def Tally.tokens (t : Tally) : List Json.Token :=
  Json.objectTokens (t.counts.map fun count => (count.1, [.integer count.2]))

namespace Snapshot

/-- The JSON tokens of a snapshot. -/
def tokens (s : Snapshot) : List Json.Token :=
  Json.objectTokens
    [("pc", [.integer s.pc]),
     ("finished", [.bool s.finished]),
     ("registers", s.registers.tokens),
     ("memory", Memory.tokens s.memory),
     ("output", lineTokens s.output.toList),
     ("trace", lineTokens (s.trace.toList.map Word.text)),
     ("stats", s.tally.tokens)]

/-- The JSON text of a snapshot on one line. -/
def compact (s : Snapshot) : String := Json.Token.compact s.tokens

/-- The JSON text of a snapshot with one entry to a line. -/
def pretty (s : Snapshot) : String := Json.Token.pretty s.tokens

end Snapshot

end MipsMachine
