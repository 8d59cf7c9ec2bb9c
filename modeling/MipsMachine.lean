import MipsMachine.FileTree
import MipsMachine.Main
import MipsMachine.Proofs.Ideal.Refinement
import MipsMachine.Proofs.Immediate.Literal
import MipsMachine.Proofs.Program.Canonical
import MipsMachine.Proofs.Program.Directive
import MipsMachine.Proofs.Program.Layout
import MipsMachine.Proofs.Program.Warnings
import MipsMachine.Proofs.Simulation.Account
import MipsMachine.Proofs.Simulation.Branch
import MipsMachine.Proofs.Simulation.Chronicle
import MipsMachine.Proofs.Simulation.Constants
import MipsMachine.Proofs.Simulation.Counter
import MipsMachine.Proofs.Simulation.Events
import MipsMachine.Proofs.Simulation.Failure
import MipsMachine.Proofs.Simulation.Reload
import MipsMachine.Proofs.Simulation.Record
import MipsMachine.Proofs.Simulation.Stores
import MipsMachine.Proofs.Simulation.Forward
import MipsMachine.Proofs.Simulation.Independence
import MipsMachine.Proofs.CommandLine.Ending
import MipsMachine.Proofs.Instruction.Encoding
import MipsMachine.Proofs.Instruction.Grammar
import MipsMachine.Proofs.Instruction.ReadBack
import MipsMachine.Proofs.Instruction.Shift
import MipsMachine.Proofs.Machine.Footprint
import MipsMachine.Proofs.Machine.Semantics
import MipsMachine.Proofs.Simulation.Registers
import MipsMachine.Proofs.Program.NormalForm
import MipsMachine.Proofs.Instruction.Fields
import MipsMachine.Proofs.Simulation.Snapshot
import MipsMachine.Proofs.CommandLine.Files
import MipsMachine.Proofs.FileTree
import MipsMachine.Proofs.Instruction.Packing
import MipsMachine.Proofs.Tally
