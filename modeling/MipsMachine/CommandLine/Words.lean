set_option autoImplicit false

/-!
# Command-line words

The words of a command line, taken apart into options and other words.  A long option starts
with two hyphens and may carry its value behind an equals sign; short options start with one
hyphen, may stand together in one word, and the last of them may carry its value in the same
word.  A value may also be the next word, unless that word looks like an option.  After the
word `--` no word is an option.
-/

namespace MipsMachine.CommandLine

/-- An option. -/
inductive Key where
  /-- log details as well -/
  | verbose
  /-- show the version -/
  | version
  /-- execute one instruction per line of input -/
  | step
  /-- execute at most so many instructions -/
  | maxSteps
  /-- show the final state as JSON -/
  | json
  /-- show the statistics -/
  | stats
  /-- read settings from a file -/
  | config
  deriving DecidableEq, Repr, Inhabited

namespace Key

/-- The long spelling, without the hyphens. -/
def long : Key → String
  | .verbose => "verbose"
  | .version => "version"
  | .step => "step"
  | .maxSteps => "max-steps"
  | .json => "json"
  | .stats => "stats"
  | .config => "config"

/-- The short spelling, if there is one. -/
def short? : Key → Option Char
  | .verbose => some 'v'
  | .version => some 'V'
  | .config => some 'c'
  | _ => none

/-- Whether the option carries a value. -/
def takesValue : Key → Bool
  | .maxSteps | .config => true
  | _ => false

end Key

/-- What a word of the command line contributes. -/
inductive Item where
  /-- an option without value -/
  | flag (key : Key)
  /-- an option with its value -/
  | value (key : Key) (text : String)
  /-- a word that is no option -/
  | plain (word : String)
  /-- a word, or an option in it, that is not understood; nothing behind it counts -/
  | bad
  deriving DecidableEq, Repr, Inhabited

/-- Whether a word looks like an option: it starts with a hyphen and is not the hyphen alone. -/
def looksLikeOption (word : List Char) : Bool :=
  match word with
  | '-' :: _ :: _ => true
  | _ => false

/-- What a row of short options contributes, and the option that still waits for its value. -/
def shortItems (scope : List Key) : List Char → List Item × Option Key
  | [] => ([], none)
  | c :: cs =>
    match scope.find? fun key => key.short? == some c with
    | none => ([.bad], none)
    | some key =>
      if key.takesValue then
        match cs with
        | [] => ([], some key)
        | '=' :: text => ([.value key (String.ofList text)], none)
        | text => ([.value key (String.ofList text)], none)
      else
        match shortItems scope cs with
        | (items, waiting) => (.flag key :: items, waiting)

/-- The part of a long option before its equals sign, and the part behind it if there is one. -/
def atEquals : List Char → List Char × Option (List Char)
  | [] => ([], none)
  | '=' :: cs => ([], some cs)
  | c :: cs =>
    match atEquals cs with
    | (name, text) => (c :: name, text)

/-- What a long option contributes, and the option if it still waits for its value. -/
def longItems (scope : List Key) (word : List Char) : List Item × Option Key :=
  match atEquals word with
  | (name, text?) =>
    match scope.find? fun key => key.long == String.ofList name with
    | none => ([.bad], none)
    | some key =>
      match key.takesValue, text? with
      | true, some text => ([.value key (String.ofList text)], none)
      | true, none => ([], some key)
      | false, some _ => ([.bad], none)
      | false, none => ([.flag key], none)

/-- What a word that looks like an option contributes, and the option that still waits for its
value. -/
def optionItems (scope : List Key) : List Char → List Item × Option Key
  | '-' :: '-' :: cs => longItems scope cs
  | _ :: cs => shortItems scope cs
  | [] => ([], none)

/-- What the words of a command contribute, in order, where the options in `scope` are known. -/
def items (scope : List Key) : List String → List Item
  | [] => []
  | w :: ws =>
    if w = "--" then ws.map .plain
    else if looksLikeOption w.toList then
      match optionItems scope w.toList with
      | (found, none) => found ++ items scope ws
      | (found, some key) =>
        match ws with
        | [] => found ++ [.bad]
        | text :: ws =>
          if looksLikeOption text.toList then found ++ [.bad]
          else found ++ .value key text :: items scope ws
    else .plain w :: items scope ws

/-! ## Asking for options -/

/-- The options among items, in order. -/
def keysOf (is : List Item) : List Key :=
  is.filterMap fun
    | .flag key | .value key _ => some key
    | _ => none

/-- The words among items that are no options, in order. -/
def plainOf (is : List Item) : List String :=
  is.filterMap fun
    | .plain word => some word
    | _ => none

/-- The value that an option carries. -/
def valueOf? (key : Key) (is : List Item) : Option String :=
  is.findSome? fun
    | .value other text => if other = key then some text else none
    | _ => none

/-- Whether all words were understood and no option was given twice. -/
def wellFormed (is : List Item) : Bool :=
  !is.contains .bad && decide (keysOf is).Nodup

end MipsMachine.CommandLine
