import MipsMachine.CommandLine.Invocation
import MipsMachine.Log
import MipsMachine.Session
import MipsMachine.Simulation.Report
import MipsMachine.Tally.Report

set_option autoImplicit false

/-!
# Performing commands

What a command does, as a function of what it finds: the files it reads and the lines of its
input.  The answer is a journal and an exit code.  A run goes through three stages, so that a
session with a user can take the place of the second: `RunOptions.prepare` loads the program,
then it is executed, and `RunOptions.conclude` shows the final state.
-/

namespace MipsMachine.CommandLine

/-- How a command ends. -/
structure Ending where
  /-- The exit code. -/
  code : UInt32
  /-- What was shown, in order. -/
  journal : Journal
  deriving DecidableEq

/-- The exit code of a command line that is not understood. -/
def usageCode : UInt32 := 2

/-- What a command finds. -/
structure Surroundings where
  /-- The contents of files, by path. -/
  readFile : String → FileBytes
  /-- The lines of the standard input. -/
  input : List InputLine

/-- What the version request shows. -/
def versionText : String := "mipsim 0.3.0\n"

/-- Why a run does not start. -/
inductive StartFault where
  /-- the settings cannot be had -/
  | settings (path : String) (fault : SettingsFault)
  /-- the source text cannot be read -/
  | source (path : String) (fault : FileFault)
  /-- the settings name no register where they should -/
  | unusable (fault : Fault)
  deriving DecidableEq, Repr, Inhabited

/-- The wording of why a run does not start. -/
def StartFault.message : StartFault → String
  | .settings path fault => "Error loading config " ++ path ++ ": " ++ fault.message
  | .source path fault => "Error reading " ++ path ++ ": " ++ fault.message
  | .unusable fault => "Invalid configuration: " ++ fault.message

namespace RunOptions

/-- The files that a run reads. -/
def paths (o : RunOptions) : List String := o.config?.toList ++ [o.file]

/-- The settings of a run; stepping through a program logs its instructions. -/
def settings (o : RunOptions) (readFile : String → FileBytes) : Except StartFault Settings :=
  match o.config? with
  | none => .ok { traceInstructions := o.step }
  | some path =>
    match Settings.ofFile (readFile path) with
    | .error fault => .error (.settings path fault)
    | .ok s => .ok { s with traceInstructions := s.traceInstructions || o.step }

/-- Load the program of a run. -/
def prepare (o : RunOptions) (readFile : String → FileBytes) :
    Except StartFault (Outcome Unit) :=
  match o.settings readFile with
  | .error fault => .error fault
  | .ok settings =>
    match (readFile o.file).text with
    | .error fault => .error (.source o.file fault)
    | .ok source =>
      match Simulation.ofSettings settings with
      | .error fault => .error (.unusable fault)
      | .ok s => .ok (s.loadSource source)

/-- Execute the loaded program all at once, or as far as the limit goes; without a limit,
nothing if `fuel` steps do not do. -/
def execute? (o : RunOptions) (fuel : Nat) (s : Simulation) : Option (Outcome Nat) :=
  match o.maxSteps? with
  | some limit => some (s.runFor limit)
  | none => s.run? fuel

/-- The session that steps through the loaded program. -/
def session (o : RunOptions) (s : Simulation) : Session := ⟨s, o.maxSteps?, 0⟩

/-- What is shown of the instruction at which a run stopped. -/
def complaint (s : Simulation) (fault : Fault) : Journal :=
  #[.log (.stopped s.machine.pc),
    .err ("\n[!] " ++ fault.message ++ " at instruction " ++ Numeral.natural s.machine.pc ++ ": "
      ++ s.current?.getD "<none>" ++ "\n")]

/-- The final state in the form that was asked for. -/
def finalState (o : RunOptions) (s : Simulation) : Journal :=
  #[.out (if o.json then s.snapshot.pretty ++ "\n" else s.report)]
    ++ if o.stats then #[.out (s.tally.report [])] else #[]

/-- End a run: complain of a fault, then show the final state. -/
def conclude (o : RunOptions) (ran : Outcome Nat) : Ending :=
  match ran.result with
  | .ok _ => ⟨0, ran.journal ++ o.finalState ran.state⟩
  | .error fault => ⟨1, ran.journal ++ complaint ran.state fault ++ o.finalState ran.state⟩

/-- End a run that does not start. -/
def refuse (fault : StartFault) : Ending := ⟨1, #[.err (fault.message ++ "\n")]⟩

/-- Run a program. -/
def perform? (o : RunOptions) (fuel : Nat) (found : Surroundings) : Option Ending :=
  match o.prepare found.readFile with
  | .error fault => some (refuse fault)
  | .ok loaded =>
    let ran :=
      if o.step then some ((o.session loaded.state).follow found.input)
      else o.execute? fuel loaded.state
    ran.map fun ran => o.conclude { ran with journal := loaded.journal ++ ran.journal }

end RunOptions

/-- Show the word of an instruction, in several forms. -/
def performEncode (text : String) : Ending :=
  match Instruction.read text with
  | .ok i =>
    ⟨0, #[.out (i.text ++ "\n" ++ i.encode.word.text ++ "\n" ++ i.encode.grouped ++ "\n"
      ++ Numeral.address i.encode.word.toNat ++ "\n")]⟩
  | .error fault => ⟨1, #[.err ("Error: " ++ fault.message ++ "\n")]⟩

/-- Do what a command line asks for; nothing if it runs a program that `fuel` steps do not
bring to its end. -/
def Invocation.perform? (x : Invocation) (fuel : Nat) (found : Surroundings) : Option Ending :=
  match x.command with
  | .version => some ⟨0, #[.out versionText]⟩
  | .run options => options.perform? fuel found
  | .encode text => some (performEncode text)

/-- Which events are logged: as the user asked for, or else by the command line. -/
def Invocation.filter (x : Invocation) (asked : Option LogFilter) : LogFilter :=
  asked.getD (.standard x.verbose)

end MipsMachine.CommandLine
