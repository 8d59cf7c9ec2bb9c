import MipsMachine.Fault
import MipsMachine.Json.Value
import MipsMachine.TextFile

set_option autoImplicit false

/-!
# Settings

What a user can set, and how settings are read from JSON.  Settings come in sections and every
one of them may be left out.  A section, and the whole, is an object with named fields or an
array with the same fields in order.  Fields of other names are skipped, whatever they hold; a
known field must not come twice and must hold a value of its type.
-/

namespace MipsMachine

/-- What a user can set. -/
structure Settings where
  /-- Log every executed instruction. -/
  traceInstructions : Bool := false
  /-- Write each printed line to the standard output at once. -/
  echoOutput : Bool := false
  /-- The name of the register that takes the products of `MULT`. -/
  productName : String := "$t0"
  deriving DecidableEq, Repr, Inhabited

/-- Why settings cannot be had. -/
inductive SettingsFault where
  /-- the file cannot be read -/
  | unreadable (fault : FileFault)
  /-- the text is no JSON, or holds something else than settings -/
  | malformed
  deriving DecidableEq, Repr, Inhabited

/-- The wording of why settings cannot be had.  What a reader of JSON has to say of a malformed
text, and where in the text, is its own; a remark stands here in its place. -/
def SettingsFault.message : SettingsFault → String
  | .unreadable fault => "cannot read config: " ++ fault.message
  | .malformed => "invalid config: not a JSON text with settings"

namespace Settings

/-- The register that takes the products of `MULT`. -/
def product (s : Settings) : Except Fault Register := Register.ofName s.productName

/-! ## Reading -/

/-- The value of the named field among the members of an object, if it comes at most once. -/
def member? (members : List (Json.Denoted × Json.Value)) (name : String) :
    Option (Option Json.Value) :=
  match members.filter fun m => m.1 == some name with
  | [] => some none
  | [m] => some (some m.2)
  | _ => none

/-- The values of the named fields of a section; the inner `none` stands for a field left out. -/
def fields? (names : List String) : Json.Value → Option (List (Option Json.Value))
  | .array vs =>
    if vs.length ≤ names.length then
      some (vs.map some ++ List.replicate (names.length - vs.length) none)
    else none
  | .object ms => if ms.all (fun m => m.1.isSome) then names.mapM (member? ms) else none
  | _ => none

/-- A field that is true or false; false if it is left out. -/
def flag? : Option Json.Value → Option Bool
  | none => some false
  | some (.bool b) => some b
  | _ => none

/-- A field that is a text; `default` if it is left out. -/
def text? (default : String) : Option Json.Value → Option String
  | none => some default
  | some (.string (some s)) => some s
  | _ => none

/-- Read the section with the fields that every simulation has. -/
def readGeneral (s : Settings) : Option Json.Value → Option Settings
  | none => some s
  | some v =>
    match fields? ["trace_instructions", "echo_output"] v with
    | some [trace, echo] =>
      match flag? trace, flag? echo with
      | some trace, some echo => some { s with traceInstructions := trace, echoOutput := echo }
      | _, _ => none
    | _ => none

/-- Read the section about the machine. -/
def readMachine (s : Settings) : Option Json.Value → Option Settings
  | none => some s
  | some v =>
    match fields? ["mult_destination"] v with
    | some [name] => (text? s.productName name).map fun name => { s with productName := name }
    | _ => none

/-- The settings that a JSON value holds. -/
def ofValue? (v : Json.Value) : Option Settings :=
  match fields? ["general", "cpu"] v with
  | some [general, machine] => (readGeneral {} general).bind fun s => readMachine s machine
  | _ => none

/-- The settings that a JSON text holds. -/
def read (text : String) : Except SettingsFault Settings :=
  match (Json.Value.read text).bind ofValue? with
  | some s => .ok s
  | none => .error .malformed

/-- The settings that a file holds. -/
def ofFile (file : FileBytes) : Except SettingsFault Settings :=
  match file.text with
  | .ok text => read text
  | .error fault => .error (.unreadable fault)

end Settings

end MipsMachine
