import MipsMachine.Mnemonic
import MipsMachine.Numeral

set_option autoImplicit false

/-!
# Faults

Why an instruction cannot be read or executed.  A fault carries the text it is about, exactly
as it was found, and `Fault.message` is the one place where faults are worded.
-/

namespace MipsMachine

/-- Why an instruction was refused. -/
inductive Fault where
  /-- the first token, here in upper case, is no mnemonic; empty for a blank line -/
  | unknownMnemonic (spelling : String)
  /-- the mnemonic is followed by the wrong number of operands -/
  | operandCount (mnemonic : Mnemonic) (found : Nat)
  /-- a branch goes to a label that the program does not define -/
  | unknownLabel (label : String)
  /-- an operand in a register position is no register name -/
  | unknownRegister (token : String)
  /-- an operand in an integer position is no literal that fits there -/
  | badImmediate (token : String)
  deriving DecidableEq, Repr, Inhabited

namespace Fault

/-- The wording of a fault. -/
def message : Fault → String
  | .unknownMnemonic spelling => "unrecognized instruction: " ++ spelling
  | .operandCount mnemonic found =>
    "malformed operands for " ++ mnemonic.name
      ++ ": expected " ++ Numeral.natural mnemonic.operandCount
      ++ ", found " ++ Numeral.natural found
  | .unknownLabel label => "unknown label: " ++ label
  | .unknownRegister token => "unknown register: " ++ token
  | .badImmediate token => "invalid immediate: " ++ token

end Fault

/-- The register of the given name, or the fault that there is none. -/
def Register.ofName (s : String) : Except Fault Register :=
  match Register.ofName? s with
  | some r => .ok r
  | none => .error (.unknownRegister s)

/-- The mnemonic that a token spells, or the fault that it spells none. -/
def Mnemonic.ofName (s : String) : Except Fault Mnemonic :=
  match Mnemonic.ofName? s with
  | some m => .ok m
  | none => .error (.unknownMnemonic (Mnemonic.upperCase s))

end MipsMachine
