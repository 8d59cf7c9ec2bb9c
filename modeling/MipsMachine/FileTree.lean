import MipsMachine.Text.Pieces
import MipsMachine.TextFile

set_option autoImplicit false

/-!
# File trees

Files and folders as data, so that a command can be performed without a disk.  A path is
followed one name at a time, and every name but the last must lead to a folder that is there:
`a/../b` is no way to `b` unless `a` is a folder.
-/

namespace MipsMachine

/-- The names from the root of a tree down to a place in it. -/
abbrev Place := List String

/-- Files and folders.  The root and every place above an entry are folders too. -/
structure FileTree where
  /-- The contents of the files, by place. -/
  files : List (Place × ByteArray)
  /-- Folders, which may be empty. -/
  folders : List Place

namespace FileTree

/-- The most bytes that a name may have. -/
def nameLimit : Nat := 255

/-- The most bytes that a path may have. -/
def pathLimit : Nat := 4095

/-- The contents of the file at a place. -/
def file? (t : FileTree) (p : Place) : Option ByteArray :=
  (t.files.find? fun entry => entry.1 == p).map Prod.snd

/-- Whether there is a folder at a place. -/
def hasFolder (t : FileTree) (p : Place) : Bool :=
  p.isEmpty || t.folders.any (p.isPrefixOf ·)
    || t.files.any fun entry => p.isPrefixOf entry.1 && p != entry.1

/-- Go on from a place by one name.  The empty name and `.` stay, `..` goes up, and none of
them leaves the root upwards. -/
def enter (t : FileTree) (p : Place) (name : String) : Except FileFault Place :=
  if !t.hasFolder p then .error .notFolder
  else if name = "" ∨ name = "." then .ok p
  else if name = ".." then .ok p.dropLast
  else if name.utf8ByteSize > nameLimit then .error .nameTooLong
  else
    let q := p ++ [name]
    if (t.file? q).isSome || t.hasFolder q then .ok q else .error .missing

/-- Go on from a place by several names. -/
def follow (t : FileTree) (p : Place) : List String → Except FileFault Place
  | [] => .ok p
  | name :: names =>
    match t.enter p name with
    | .ok q => t.follow q names
    | .error fault => .error fault

/-- The names in a path. -/
def namesOf (path : String) : List String :=
  (Text.pieces (· == '/') path.toList).map String.ofList

/-- The place that a path leads to from the place `here`; a path that starts with a slash
starts at the root. -/
def locate (t : FileTree) (here : Place) (path : String) : Except FileFault Place :=
  if path = "" then .error .missing
  else if path.utf8ByteSize > pathLimit then .error .nameTooLong
  else t.follow (if path.toList.head? = some '/' then [] else here) (namesOf path)

/-- The bytes of the file that a path leads to from the place `here`. -/
def read (t : FileTree) (here : Place) (path : String) : FileBytes :=
  match t.locate here path with
  | .error fault => .error fault
  | .ok p =>
    match t.file? p with
    | some bytes => .ok bytes
    | none => .error .directory

end FileTree

end MipsMachine
