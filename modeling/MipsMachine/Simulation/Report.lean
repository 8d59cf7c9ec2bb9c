import MipsMachine.Simulation.Snapshot

set_option autoImplicit false

/-!
# The state report

The state of a simulation written out for a reader: the printed lines, the registers, the
memory and the words of the executed instructions.
-/

namespace MipsMachine.Simulation

/-- Lines of text, each set in by two blanks. -/
def indented (lines : List String) : List String := lines.map ("  " ++ ·)

/-- The lines of the report. -/
def reportLines (s : Simulation) : List String :=
  "Output:" :: indented s.output.toList
    ++ ["", "Registers:", s.snapshot.registers.text, "", "Memory:"]
    ++ (if s.machine.memory.isEmpty then [] else [s.machine.memory.text])
    ++ ["", "Binary trace:"]
    ++ indented (s.trace.toList.map Word.text)

/-- The state of a simulation as text, each line ended. -/
def report (s : Simulation) : String := String.join (s.reportLines.map (· ++ "\n"))

end MipsMachine.Simulation
