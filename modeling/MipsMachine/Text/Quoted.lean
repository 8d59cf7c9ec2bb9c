import MipsMachine.Numeral
import MipsMachine.Text.Invisible

set_option autoImplicit false

/-!
# Text: quoted values

How a text from a program stands in a log line: between quotation marks, with every character
that would break the line, or would not show, spelled out.
-/

namespace MipsMachine.Text

/-- One character of a quoted text. -/
def spelledOut (c : Char) : List Char :=
  if c.toNat = 0 then ['\\', '0']
  else if c = '\t' then ['\\', 't']
  else if c = '\r' then ['\\', 'r']
  else if c = '\n' then ['\\', 'n']
  else if c = '"' then ['\\', '"']
  else if c = '\\' then ['\\', '\\']
  else if isInvisible c then
    ['\\', 'u', '\x7b'] ++ Numeral.digits 16 c.toNat ++ ['\x7d']
  else [c]

/-- A text between quotation marks. -/
def quoted (s : String) : String :=
  String.ofList ('"' :: (s.toList.flatMap spelledOut ++ ['"']))

end MipsMachine.Text
