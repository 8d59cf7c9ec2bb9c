import MipsMachine.CommandLine.Words
import MipsMachine.Numeral

set_option autoImplicit false

/-!
# Invocations

What a user asks for on the command line.  There are two commands, one to run a program and one
to encode a single instruction, and a request for the version.  Anything else is not
understood.
-/

namespace MipsMachine.CommandLine

/-- How a program is to be run. -/
structure RunOptions where
  /-- The file with the source text. -/
  file : String
  /-- Execute one instruction per line of input. -/
  step : Bool := false
  /-- Execute at most so many instructions. -/
  maxSteps? : Option Nat := none
  /-- Show the final state as JSON. -/
  json : Bool := false
  /-- Show the statistics. -/
  stats : Bool := false
  /-- The file with the settings. -/
  config? : Option String := none
  deriving DecidableEq, Repr, Inhabited

/-- What is to be done. -/
inductive Command where
  /-- show the version -/
  | version
  /-- run a program -/
  | run (options : RunOptions)
  /-- encode one instruction -/
  | encode (text : String)
  deriving DecidableEq, Repr, Inhabited

/-- A command line that was understood. -/
structure Invocation where
  /-- What is to be done. -/
  command : Command
  /-- Log details as well. -/
  verbose : Bool := false
  deriving DecidableEq, Repr, Inhabited

/-- The number that a text denotes: decimal digits, perhaps behind a plus sign, below `2 ^ 64`. -/
def count? (text : String) : Option Nat :=
  (match text.toList with
    | '+' :: cs => Numeral.value? 10 cs
    | cs => Numeral.value? 10 cs).filter (· < 18446744073709551616)

/-- The options that may stand before a command. -/
def openingScope : List Key := [.verbose, .version]

/-- The options of the command that runs a program. -/
def runScope : List Key := [.verbose, .step, .maxSteps, .json, .stats, .config]

/-- The options of the command that encodes an instruction. -/
def encodeScope : List Key := [.verbose]

/-- An option that was not given, or the value that was given, read and found good. -/
def given? {α : Type} (read : String → Option α) : Option String → Option (Option α)
  | none => some none
  | some text => (read text).map some

/-- A path, which is never empty. -/
def path? (text : String) : Option String := if text.isEmpty then none else some text

/-- Read the words behind the command that runs a program. -/
def readRun (verbose : Bool) (words : List String) : Option Invocation :=
  let is := items runScope words
  let keys := keysOf is
  match wellFormed is, plainOf is, given? count? (valueOf? .maxSteps is),
    given? path? (valueOf? .config is) with
  | true, [file], some maxSteps?, some config? =>
    (path? file).map fun file =>
      { command := .run
          { file, maxSteps?, config?, step := keys.contains .step, json := keys.contains .json
            stats := keys.contains .stats }
        verbose := verbose || keys.contains .verbose }
  | _, _, _, _ => none

/-- Read the words behind the command that encodes an instruction. -/
def readEncode (verbose : Bool) (words : List String) : Option Invocation :=
  let is := items encodeScope words
  match wellFormed is, plainOf is with
  | true, [text] =>
    some { command := .encode text, verbose := verbose || (keysOf is).contains .verbose }
  | _, _ => none

/-- What comes of the options in one word before the command. -/
inductive Opening where
  /-- the version is asked for -/
  | version
  /-- the word is not understood -/
  | bad
  /-- the next word counts, with details in the log or without -/
  | goOn (verbose : Bool)
  deriving DecidableEq, Repr, Inhabited

/-- Take the options of one word before the command, from left to right. -/
def opening (verbose : Bool) : List Item → Opening
  | [] => .goOn verbose
  | .flag .version :: _ => .version
  | .flag .verbose :: is => if verbose then .bad else opening true is
  | _ => .bad

/-- Read a command line, with details in the log asked for already or not. -/
def readFrom (verbose : Bool) : List String → Option Invocation
  | [] => none
  | w :: ws =>
    if w = "--" then none
    else if looksLikeOption w.toList then
      match opening verbose (optionItems openingScope w.toList).1 with
      | .version => some { command := .version, verbose }
      | .bad => none
      | .goOn verbose => readFrom verbose ws
    else if w = "run" then readRun verbose ws
    else if w = "encode" then readEncode verbose ws
    else none

/-- What the words of a command line ask for; nothing if they are not understood. -/
def Invocation.ofWords? (words : List String) : Option Invocation := readFrom false words

end MipsMachine.CommandLine
