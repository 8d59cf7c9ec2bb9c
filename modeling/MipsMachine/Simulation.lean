import MipsMachine.Instruction.Encoding
import MipsMachine.Instruction.Source
import MipsMachine.Machine
import MipsMachine.Settings
import MipsMachine.Tally

set_option autoImplicit false

/-!
# Simulation

A machine together with the program it runs and what the run leaves behind: the printed lines,
the words of the executed instructions and the tally.  Every operation is a function from a
simulation to an outcome: the result, the simulation after it, and the journal of what was
shown meanwhile.  A step that fails leaves the simulation as it was.
-/

namespace MipsMachine

/-- A machine with its program and the records of the run. -/
structure Simulation where
  /-- The machine. -/
  machine : Machine
  /-- The program that is loaded. -/
  program : Program
  /-- The lines printed since loading, in order. -/
  output : Array String
  /-- The words of the instructions executed since loading, in order. -/
  trace : Array Word
  /-- The counts of the instructions executed since loading. -/
  tally : Tally
  /-- What the user has set. -/
  settings : Settings
  deriving DecidableEq

/-- What an operation comes to. -/
structure Outcome (α : Type) where
  /-- The result, or why there is none. -/
  result : Except Fault α
  /-- The simulation after the operation. -/
  state : Simulation
  /-- What the operation showed to the outside, in order. -/
  journal : Journal

/-- What a step that did not fail came to. -/
inductive StepResult where
  /-- one instruction was executed -/
  | executed
  /-- the program had ended already -/
  | finished
  deriving DecidableEq, Repr, Inhabited

namespace Simulation

/-! ## Setting up -/

/-- The simulation without a program, on the given machine. -/
def idle (machine : Machine) (settings : Settings) : Simulation :=
  ⟨machine, ∅, #[], #[], {}, settings⟩

/-- The simulation without a program, with the settings that hold if nothing is set. -/
def fresh : Simulation := idle (.initial .t0) {}

instance : Inhabited Simulation := ⟨fresh⟩

/-- The simulation without a program, with the given settings. -/
def ofSettings (settings : Settings) : Except Fault Simulation :=
  match settings.product with
  | .ok product => .ok (idle (.initial product) settings)
  | .error fault => .error fault

/-- The simulation as it was set up. -/
def cleared (s : Simulation) : Simulation := idle s.machine.reset s.settings

/-- Go back to the simulation as it was set up. -/
def reset (s : Simulation) : Outcome Unit := ⟨.ok (), s.cleared, #[.log .reset]⟩

/-- Load a program in place of everything that went before. -/
def load (s : Simulation) (lines : List String) : Outcome Unit :=
  let program := Program.assemble lines
  let loaded := Event.loaded program.size program.labels.size program.strings.size
  { result := .ok ()
    state := { s.cleared with program }
    journal := s.reset.journal ++ ((Program.warnings lines ++ [loaded]).map Emission.log).toArray }

/-- Load the program that a source text makes. -/
def loadSource (s : Simulation) (source : String) : Outcome Unit :=
  s.load (Program.sourceLines source)

/-! ## Looking -/

/-- The text of the instruction that the next step executes. -/
def current? (s : Simulation) : Option String := s.program.instruction? s.machine.pc

/-- Whether the program counter is past the last instruction. -/
def isFinished (s : Simulation) : Bool := s.program.size ≤ s.machine.pc

/-! ## Stepping -/

/-- What a simulation is left with after an instruction with the given effect. -/
def commit (s : Simulation) (i : Instruction) (e : Effect) : Simulation :=
  { s with
    machine := (s.machine.change e.write?).advance e.flow
    output := s.output ++ e.output?.toList
    trace := s.trace.push i.encode.word
    tally := s.tally.record i.classOf e.flow }

/-- What is shown of an executed instruction, as far as the settings ask for it. -/
def showing (s : Simulation) (text : String) (i : Instruction) (e : Effect) : Journal :=
  let logged := if s.settings.traceInstructions then
      #[Emission.log (.executed s.machine.pc text i.encode.word)] else #[]
  let echoed := if s.settings.echoOutput then
      (e.output?.map fun line => Emission.out (line ++ "\n")).toArray else #[]
  logged ++ echoed

/-- Read the text of an instruction and work out its effect. -/
def resolve (s : Simulation) (text : String) : Except Fault (Instruction × Effect) :=
  match Instruction.read text with
  | .error fault => .error fault
  | .ok i =>
    match s.machine.effect s.program i with
    | .error fault => .error fault
    | .ok e => .ok (i, e)

/-- Execute the instruction at the program counter. -/
def step (s : Simulation) : Outcome StepResult :=
  match s.current? with
  | none => ⟨.ok .finished, s, #[]⟩
  | some text =>
    match s.resolve text with
    | .error fault => ⟨.error fault, s, #[.log (.stepFailed s.machine.pc text fault)]⟩
    | .ok (i, e) => ⟨.ok .executed, s.commit i e, s.showing text i e⟩

/-! ## Running -/

/-- Step until the program ends, a step fails or the bound is used up, with `count` steps and
`journal` behind it already. -/
def runForFrom : (bound : Nat) → (count : Nat) → Journal → Simulation → Outcome Nat
  | 0, count, journal, s => ⟨.ok count, s, journal⟩
  | bound + 1, count, journal, s =>
    match s.step with
    | ⟨.ok .executed, s, shown⟩ => runForFrom bound (count + 1) (journal ++ shown) s
    | ⟨.ok .finished, s, shown⟩ => ⟨.ok count, s, journal ++ shown⟩
    | ⟨.error fault, s, shown⟩ => ⟨.error fault, s, journal ++ shown⟩

/-- Step until the program ends or `bound` instructions were executed; the result is their
number. -/
def runFor (s : Simulation) (bound : Nat) : Outcome Nat := runForFrom bound 0 #[] s

/-- Step until the program ends or a step fails, with `count` steps and `journal` behind it
already; nothing if `fuel` steps do not get there. -/
def runFrom : (fuel : Nat) → (count : Nat) → Journal → Simulation → Option (Outcome Nat)
  | 0, _, _, _ => none
  | fuel + 1, count, journal, s =>
    match s.step with
    | ⟨.ok .executed, s, shown⟩ => runFrom fuel (count + 1) (journal ++ shown) s
    | ⟨.ok .finished, s, shown⟩ =>
      some ⟨.ok count, s, (journal ++ shown).push (.log (.runFinished count s.machine.pc))⟩
    | ⟨.error fault, s, shown⟩ => some ⟨.error fault, s, journal ++ shown⟩

/-- Step until the program ends; the result is the number of executed instructions.  A program
need not end, so the steps that may be tried are bounded by `fuel`, and there is no answer if
they do not do. -/
def run? (s : Simulation) (fuel : Nat) : Option (Outcome Nat) := runFrom fuel 0 #[] s

/-! ## Direct access -/

/-- Give the register of the given name a value. -/
def setRegister (s : Simulation) (name : String) (value : Int64) : Except Fault Simulation :=
  match s.machine.registers.writeNamed name value with
  | .ok registers => .ok { s with machine := { s.machine with registers } }
  | .error fault => .error fault

/-- Store a word in memory. -/
def setMemory (s : Simulation) (address value : Int64) : Simulation :=
  { s with machine := s.machine.change (some (.memory address value)) }

/-- Move the program counter. -/
def setCounter (s : Simulation) (pc : Nat) : Simulation :=
  { s with machine := { s.machine with pc } }

end Simulation

end MipsMachine
