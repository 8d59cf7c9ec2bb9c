import MipsMachine.Json.Token

set_option autoImplicit false

/-!
# JSON values

A JSON text read as a value.  Reading goes through the tokens once, from left to right, and
keeps the containers that are still open in a list, so that texts of any depth are read in the
same way.  Strings that denote no text, and numbers of any size, are values like others; who
uses a value decides what it may be.
-/

namespace MipsMachine.Json

/-- A JSON value. -/
inductive Value where
  /-- `null` -/
  | null
  /-- `true` or `false` -/
  | bool (value : Bool)
  /-- a number, as it is spelt -/
  | number (spelling : List Char)
  /-- a string -/
  | string (text : Denoted)
  /-- the elements between brackets, in order -/
  | array (elements : List Value)
  /-- the members between braces, in order; a key may come more than once -/
  | object (members : List (Denoted × Value))
  deriving Repr, Inhabited

namespace Value

/-- A container that is still open. -/
inductive Frame where
  /-- an array, with the elements so far, the last one first -/
  | array (done : List Value)
  /-- an object, with the members so far, the last one first, and the key of the next one -/
  | object (done : List (Denoted × Value)) (key : Denoted)

/-- What may come next, inside which containers, the innermost first. -/
inductive State where
  /-- a value, or the end of the array that was just opened -/
  | valueOrEnd (outer : List Frame)
  /-- a value -/
  | value (frames : List Frame)
  /-- a key, or the end of the object that was just opened -/
  | keyOrEnd (outer : List Frame)
  /-- a key -/
  | key (done : List (Denoted × Value)) (outer : List Frame)
  /-- a colon -/
  | colon (done : List (Denoted × Value)) (key : Denoted) (outer : List Frame)
  /-- a comma or the end of an array -/
  | afterElement (done : List Value) (outer : List Frame)
  /-- a comma or the end of an object -/
  | afterMember (done : List (Denoted × Value)) (outer : List Frame)
  /-- nothing: the value is complete -/
  | complete (v : Value)

/-- Put a complete value where it belongs. -/
def close (v : Value) : List Frame → State
  | [] => .complete v
  | .array done :: outer => .afterElement (v :: done) outer
  | .object done key :: outer => .afterMember ((key, v) :: done) outer

/-- Go on with a token where a value is expected. -/
def start (frames : List Frame) : Token → Option State
  | .openObject => some (.keyOrEnd frames)
  | .openArray => some (.valueOrEnd frames)
  | .null => some (close .null frames)
  | .bool b => some (close (.bool b) frames)
  | .number cs => some (close (.number cs) frames)
  | .string text => some (close (.string text) frames)
  | _ => none

/-- Go on with one token. -/
def State.next : State → Token → Option State
  | .valueOrEnd outer, .closeArray => some (close (.array []) outer)
  | .valueOrEnd outer, t => start (.array [] :: outer) t
  | .value frames, t => start frames t
  | .keyOrEnd outer, .closeObject => some (close (.object []) outer)
  | .keyOrEnd outer, .string k => some (.colon [] k outer)
  | .key done outer, .string k => some (.colon done k outer)
  | .colon done k outer, .colon => some (.value (.object done k :: outer))
  | .afterElement done outer, .comma => some (.value (.array done :: outer))
  | .afterElement done outer, .closeArray => some (close (.array done.reverse) outer)
  | .afterMember done outer, .comma => some (.key done outer)
  | .afterMember done outer, .closeObject => some (close (.object done.reverse) outer)
  | _, _ => none

/-- Go on with a row of tokens. -/
def State.follow : State → List Token → Option State
  | state, [] => some state
  | state, t :: ts =>
    match state.next t with
    | some state => state.follow ts
    | none => none

/-- The value that a row of tokens makes up, all of it. -/
def ofTokens (ts : List Token) : Option Value :=
  match State.follow (.value []) ts with
  | some (.complete v) => some v
  | _ => none

/-- The value that a text makes up, all of it. -/
def read (text : String) : Option Value :=
  match Token.scan text.toList with
  | some ts => ofTokens ts
  | none => none

end Value

end MipsMachine.Json
