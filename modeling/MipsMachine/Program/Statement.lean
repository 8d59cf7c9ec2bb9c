import MipsMachine.Text.Blank
import MipsMachine.Text.Pieces

set_option autoImplicit false

/-!
# Statements

What one line of source text contributes.  A comment runs from the first `#` to the end of the
line, and blanks at either end do not count.  What is left is a directive if it starts with
`.data`, else a label definition if it holds a colon, else an instruction; an instruction may
follow a label on the same line.
-/

namespace MipsMachine

/-- What a source line contributes to a program. -/
inductive Statement where
  /-- nothing -/
  | blank
  /-- a string constant -/
  | constant (name text : String)
  /-- nothing: a directive with fewer than three words -/
  | incomplete (directive : String)
  /-- a label before whatever instruction comes next -/
  | label (name : String)
  /-- a label and the instruction it stands before -/
  | labelled (name text : String)
  /-- an instruction -/
  | instruction (text : String)
  deriving DecidableEq, Repr, Inhabited

namespace Statement

/-- The mark that starts a comment. -/
def commentMark : Char := '#'

/-- The mark behind the name of a label. -/
def labelMark : Char := ':'

/-- The mark that is dropped from the text of a constant. -/
def quotationMark : Char := '"'

/-- The word that starts a directive. -/
def directiveMark : List Char := ".data".toList

/-- A line without its comment and without blanks at its ends. -/
def stripped (line : List Char) : List Char :=
  let line := Text.trim line
  match Text.cutAt commentMark line with
  | some (code, _) => Text.trim code
  | none => line

/-- The blank-separated words of a text. -/
def words (cs : List Char) : List (List Char) := Text.runs Text.isBlank cs

/-- Read a directive: the second word names a constant, whose text is the remaining words with
single blanks between them and without quotation marks. -/
def ofDirective (code : List Char) : Statement :=
  match words code with
  | _ :: name :: w :: ws =>
    .constant (String.ofList name)
      (String.ofList (([' '].intercalate (w :: ws)).filter fun c => c != quotationMark))
  | _ => .incomplete (String.ofList code)

/-- Read a line that is no directive. -/
def ofCode (code : List Char) : Statement :=
  match Text.cutAt labelMark code with
  | none => .instruction (String.ofList code)
  | some (name, rest) =>
    match Text.trim rest with
    | [] => .label (String.ofList (Text.trim name))
    | text => .labelled (String.ofList (Text.trim name)) (String.ofList text)

/-- Read a line that has been stripped. -/
def ofStripped (code : List Char) : Statement :=
  if code.isEmpty then .blank
  else if directiveMark.isPrefixOf code then ofDirective code
  else ofCode code

/-- What a source line contributes. -/
def ofLine (line : String) : Statement := ofStripped (stripped line.toList)

/-! ## Contributions -/

/-- The instruction that a statement adds. -/
def instruction? : Statement → Option String
  | .labelled _ text | .instruction text => some text
  | _ => none

/-- The label that a statement defines. -/
def label? : Statement → Option String
  | .label name | .labelled name _ => some name
  | _ => none

/-- The text that a statement gives to the constant of the given name. -/
def constant? (name : String) : Statement → Option String
  | .constant other text => if name = other then some text else none
  | _ => none

end Statement

end MipsMachine
