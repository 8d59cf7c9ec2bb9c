set_option autoImplicit false

/-!
# Text files

What comes of reading a file as text, and how it is worded when that fails.
-/

namespace MipsMachine

/-- Why a file cannot be read as text. -/
inductive FileFault where
  /-- there is no such file -/
  | missing
  /-- the path names a directory -/
  | directory
  /-- the path goes on behind something that is no directory -/
  | notFolder
  /-- the path, or a name in it, is longer than the system takes -/
  | nameTooLong
  /-- the bytes are not UTF-8 -/
  | notText
  /-- any other reason, in the words of the system -/
  | refused (reason : String)
  deriving DecidableEq, Repr, Inhabited

/-- The wording of a reason why a file cannot be read. -/
def FileFault.message : FileFault → String
  | .missing => "No such file or directory (os error 2)"
  | .directory => "Is a directory (os error 21)"
  | .notFolder => "Not a directory (os error 20)"
  | .nameTooLong => "File name too long (os error 36)"
  | .notText => "stream did not contain valid UTF-8"
  | .refused reason => reason

/-- The bytes of a file, if they can be had. -/
abbrev FileBytes := Except FileFault ByteArray

/-- The text of a file. -/
def FileBytes.text (file : FileBytes) : Except FileFault String :=
  match file with
  | .error fault => .error fault
  | .ok bytes =>
    match String.fromUTF8? bytes with
    | some text => .ok text
    | none => .error .notText

end MipsMachine
