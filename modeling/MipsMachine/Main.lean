import MipsMachine.CommandLine.Ending

set_option autoImplicit false

/-!
# The command line

The outer layer: it fetches the words, the files and the lines of input that a command needs,
and shows what the command answers.  What a command does is decided elsewhere.
-/

namespace MipsMachine.CommandLine

/-- More steps than can be waited for. -/
def patience : Nat := 1 <<< 62

/-- The environment variable that names the log filter. -/
def filterVariable : String := "RUST_LOG"

/-- What is shown when a command line is not understood. -/
def usageText : String :=
  "usage: mipsim [-v] run FILE [--step] [--max-steps N] [--json] [--stats] [-c FILE]\n"
    ++ "       mipsim [-v] encode INSTRUCTION\n"
    ++ "       mipsim --version\n"

/-- Read the bytes of a file. -/
def fetch (path : String) : IO FileBytes := do
  try
    return .ok (← IO.FS.readBinFile path)
  catch
    | .noFileOrDirectory .. => return .error .missing
    | .inappropriateType none .. => return .error .directory
    | .inappropriateType (some _) .. => return .error .notFolder
    | .invalidArgument .. => return .error .nameTooLong
    | fault => return .error (.refused (toString fault))

/-- Read the given files; the answer gives their contents by path. -/
def fetchAll (paths : List String) : IO (String → FileBytes) := do
  let files ← paths.mapM fun path => do return (path, ← fetch path)
  return fun path =>
    match files.find? fun file => file.1 == path with
    | some file => file.2
    | none => .error .missing

/-- Show a journal. -/
def present (filter : LogFilter) (journal : Journal) : IO Unit := do
  for emission in journal do
    match emission with
    | .out text => (← IO.getStdout).putStr text
    | .err text => (← IO.getStderr).putStr text
    | .log event => if filter.admits event then (← IO.getStderr).putStrLn event.line
  (← IO.getStdout).flush

/-- Read the bytes of one line of the standard input, without its end; nothing at the end of
the input. -/
partial def readLine (input : IO.FS.Stream) (line : Array UInt8) : IO (Option (Array UInt8)) := do
  let bytes ← input.read 1
  match bytes.toList with
  | [] => return if line.isEmpty then none else some line
  | byte :: _ => if byte == 10 then return some line else readLine input (line.push byte)

/-- Run a session with the user: what `Session.followFrom` is on lines that are there from the
start. -/
partial def converse (filter : LogFilter) (x : Session) : IO (Outcome Nat) := do
  match x.prompt? with
  | none => return x.leave #[]
  | some prompt =>
    present filter #[.out prompt]
    match ← readLine (← IO.getStdin) #[] with
    | none => return x.leave #[]
    | some bytes =>
      match x.answer (.ofBytes bytes.toList) with
      | .next next shown =>
        present filter shown
        converse filter next
      | .over ran => return ran

/-- Show how a command ended. -/
def finish (filter : LogFilter) (ending : Ending) : IO UInt32 := do
  present filter ending.journal
  return ending.code

/-- Run a program in a session with the user. -/
def runSession (filter : LogFilter) (o : RunOptions) (readFile : String → FileBytes) :
    IO UInt32 := do
  match o.prepare readFile with
  | .error fault => finish filter (RunOptions.refuse fault)
  | .ok loaded =>
    present filter loaded.journal
    let ran ← converse filter (o.session loaded.state)
    finish filter (o.conclude ran)

/-- Do what the command line asks for. -/
def serve (x : Invocation) (filter : LogFilter) : IO UInt32 := do
  match x.command with
  | .run o =>
    let readFile ← fetchAll o.paths
    if o.step then runSession filter o readFile
    else
      match o.perform? patience ⟨readFile, []⟩ with
      | some ending => finish filter ending
      | none => return 1
  | _ =>
    match x.perform? patience ⟨fun _ => .error .missing, []⟩ with
    | some ending => finish filter ending
    | none => return 1

end MipsMachine.CommandLine

/-- Run the command line. -/
def main (words : List String) : IO UInt32 := do
  match MipsMachine.CommandLine.Invocation.ofWords? words with
  | none =>
    (← IO.getStderr).putStr MipsMachine.CommandLine.usageText
    return MipsMachine.CommandLine.usageCode
  | some x =>
    let name ← IO.getEnv MipsMachine.CommandLine.filterVariable
    MipsMachine.CommandLine.serve x (x.filter (name.bind MipsMachine.LogFilter.ofName?))
