import MipsMachine.Fault
import MipsMachine.Immediate
import MipsMachine.Instruction
import MipsMachine.Text.Blank
import MipsMachine.Text.Pieces

set_option autoImplicit false

/-!
# Instructions as source text

An instruction text is cut into tokens at blanks, commas and parentheses; the first token is
the mnemonic, the others are the operands.  So `LW $t0, 4($sp)` and `lw $t0 4 $sp` read the
same.  Faults are found in a fixed order: the mnemonic, the number of operands, then the
operands from left to right.  Writing uses one canonical form for each shape of instruction.
-/

namespace MipsMachine

/-! ## Tokens -/

namespace Instruction

/-- The characters other than blanks that separate tokens. -/
def operandMarks : List Char := [',', '(', ')']

/-- Whether a character separates tokens: a blank, a comma or a parenthesis. -/
def isSeparator (c : Char) : Bool := Text.isBlank c || operandMarks.contains c

/-- The tokens of an instruction text, in order. -/
def tokens (text : String) : List String :=
  (Text.runs isSeparator text.toList).map String.ofList

end Instruction

/-! ## Operands -/

/-- Read the token in an operand position.  A shift amount has 32 bits: it is at least 0 and
below `2 ^ 32`. -/
def OperandKind.read : (kind : OperandKind) → String → Except Fault kind.Value
  | .register, token => Register.ofName token
  | .immediate, token =>
    match Immediate.read? token with
    | some value => .ok value
    | none => .error (.badImmediate token)
  | .amount, token =>
    match Immediate.read? token with
    | some value =>
      if 0 ≤ value.toInt ∧ value.toInt < 4294967296 then .ok (UInt32.ofNat value.toInt.toNat)
      else .error (.badImmediate token)
    | none => .error (.badImmediate token)
  | .label, token => .ok token

/-- The token that an operand is written as. -/
def OperandKind.write : (kind : OperandKind) → kind.Value → String
  | .register, r => r.name
  | .immediate, value => Numeral.integer value.toInt
  | .amount, n => Numeral.natural n.toNat
  | .label, token => token

/-- Read one token for each operand position; the first bad token decides the fault. -/
def Operands.read : (kinds : List OperandKind) → (ts : List String) → ts.length = kinds.length →
    Except Fault (Operands kinds)
  | [], [], _ => .ok ()
  | kind :: kinds, t :: ts, h =>
    match kind.read t with
    | .error fault => .error fault
    | .ok value =>
      match Operands.read kinds ts (Nat.succ.inj h) with
      | .error fault => .error fault
      | .ok values => .ok (value, values)

/-- The tokens that operands are written as. -/
def Operands.write : (kinds : List OperandKind) → Operands kinds → List String
  | [], () => []
  | kind :: kinds, (value, values) => kind.write value :: Operands.write kinds values

theorem Operands.length_write (kinds : List OperandKind) (values : Operands kinds) :
    (Operands.write kinds values).length = kinds.length := by
  induction kinds with
  | nil => rfl
  | cons kind kinds ih => simp [Operands.write, ih values.2]

/-! ## Instructions -/

namespace Instruction

/-- Read an instruction from its tokens. -/
def ofTokens : List String → Except Fault Instruction
  | [] => .error (.unknownMnemonic "")
  | head :: rest =>
    match Mnemonic.ofName head with
    | .error fault => .error fault
    | .ok m =>
      if h : rest.length = m.operandKinds.length then
        match Operands.read m.operandKinds rest h with
        | .error fault => .error fault
        | .ok values => .ok (ofOperands m values)
      else .error (.operandCount m rest.length)

/-- Read an instruction text. -/
def read (text : String) : Except Fault Instruction := ofTokens (tokens text)

/-- The canonical text of an instruction: the mnemonic in lower case, one blank, then the
operands with a comma and a blank between them; a memory operand is an offset with its base
register in parentheses. -/
def text : Instruction → String
  | .load rt offset base => memoryText .lw rt offset base
  | .store rt offset base => memoryText .sw rt offset base
  | i =>
    match Operands.write i.mnemonic.operandKinds i.operands with
    | [] => i.mnemonic.lowerName
    | ts => i.mnemonic.lowerName ++ " " ++ ", ".intercalate ts
where
  /-- The text of an instruction with a memory operand. -/
  memoryText (m : Mnemonic) (rt : Register) (offset : Int64) (base : Register) : String :=
    m.lowerName ++ " " ++ rt.name ++ ", " ++ Numeral.integer offset.toInt ++ "(" ++
      base.name ++ ")"

end Instruction

end MipsMachine
