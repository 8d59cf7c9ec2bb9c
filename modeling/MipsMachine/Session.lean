import MipsMachine.Simulation

set_option autoImplicit false

/-!
# Interactive sessions

A session executes a program one instruction at a time.  Before each instruction it shows a
prompt and waits for a line of input; the line `q`, the end of the input and a line that is no
text end the session.  The lines that an instruction prints are shown behind it.
-/

namespace MipsMachine

/-- A simulation that is stepped through by hand. -/
structure Session where
  /-- The simulation so far. -/
  simulation : Simulation
  /-- The number of instructions to execute at most, if there is a limit. -/
  limit? : Option Nat := none
  /-- The number of instructions executed so far. -/
  executed : Nat := 0
  deriving DecidableEq

/-- A line of input; nothing if its bytes are no text. -/
abbrev InputLine := Option String

namespace InputLine

/-- Whether a line asks for the next instruction. -/
def goesOn : InputLine → Bool
  | some line => Text.trim line.toList != ['q']
  | none => false

/-- The line that bytes make up. -/
def ofBytes (bytes : List UInt8) : InputLine := String.fromUTF8? ⟨bytes.toArray⟩

/-- The lines of an input, given as bytes: each ends at a line feed or at the end of the input. -/
def ofInput (bytes : List UInt8) : List InputLine :=
  (Text.ended (· == 10) bytes ++
    [Text.rest (· == 10) bytes].filter fun piece => !piece.isEmpty).map ofBytes

end InputLine

namespace Session

/-- A number with blanks in front of it, up to four characters. -/
def column (n : Nat) : String :=
  let digits := Numeral.digits 10 n
  String.ofList (List.replicate (4 - digits.length) ' ' ++ digits)

/-- The prompt before the next instruction; nothing if the session has come to its end. -/
def prompt? (x : Session) : Option String :=
  if x.limit?.any (· ≤ x.executed) then none
  else x.simulation.current?.map fun text =>
    "[" ++ column x.simulation.machine.pc ++ "] " ++ text ++ "  (Enter to step, q to quit) "

/-- The lines that the last instruction printed, as they are shown behind it. -/
def printed (before after : Simulation) : Journal :=
  ((after.output.toList.drop before.output.size).map fun line =>
    Emission.out ("       > " ++ line ++ "\n")).toArray

/-- How a session ends that is left where it is. -/
def leave (x : Session) (shown : Journal) : Outcome Nat := ⟨.ok x.executed, x.simulation, shown⟩

/-- What a session comes to by one line of input. -/
inductive Turn where
  /-- an instruction was executed, with this shown meanwhile, and the session goes on -/
  | next (session : Session) (shown : Journal)
  /-- the session is over -/
  | over (ran : Outcome Nat)

/-- Execute the next instruction.  The session is over if the program has ended or the
instruction is refused, with the simulation that the step leaves. -/
def advance (x : Session) : Turn :=
  match x.simulation.step with
  | ⟨.ok .executed, s, shown⟩ =>
    .next { x with simulation := s, executed := x.executed + 1 } (shown ++ printed x.simulation s)
  | ⟨.ok .finished, s, shown⟩ => .over ⟨.ok x.executed, s, shown⟩
  | ⟨.error fault, s, shown⟩ => .over ⟨.error fault, s, shown⟩

/-- Take the line behind the prompt. -/
def answer (x : Session) (line : InputLine) : Turn :=
  if line.goesOn then x.advance else .over (x.leave #[])

/-- Run a session on lines of input, with `shown` behind it already.  The session asks before
it takes a line, and it is left at the end of the input. -/
def followFrom (x : Session) (shown : Journal) : List InputLine → Outcome Nat
  | [] =>
    match x.prompt? with
    | none => x.leave shown
    | some prompt => x.leave (shown.push (.out prompt))
  | line :: lines =>
    match x.prompt? with
    | none => x.leave shown
    | some prompt =>
      let shown := shown.push (.out prompt)
      match x.answer line with
      | .next next more => next.followFrom (shown ++ more) lines
      | .over ran => { ran with journal := shown ++ ran.journal }

/-- Run a session on lines of input. -/
def follow (x : Session) (lines : List InputLine) : Outcome Nat := x.followFrom #[] lines

end Session

end MipsMachine
