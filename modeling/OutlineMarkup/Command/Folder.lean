/-
  File:      OutlineMarkup/Command/Folder.lean
  Subject:   The files that a command can see.

  A folder holds files by path. A path is a sequence of names between slashes; empty names and `.`
  stand for no step, `..` for a step back, and a slash in front starts at the topmost folder.
  Around the folder lie further folders up to the topmost, which is its own parent, so steps back
  never fail. What else those folders hold is not known: every name in them counts as free.
-/
import OutlineMarkup.Table
import OutlineMarkup.Text.Basic

namespace OutlineMarkup.Command

/-- What is found at a path. -/
inductive Place where
  | file (content : ByteArray)
  | folder
  /-- Nothing, in a folder that exists. -/
  | vacant
  /-- Nothing, and no folder to put a file in. -/
  | unreachable
  /-- Nothing, for a file stands where the path needs a folder. -/
  | blocked

/-! ## Paths -/

/-- Whether a name in a path is no step. -/
def isNoStep (name : Text) : Bool := name.isEmpty || name == ".".toList

/-- The names of a path that are steps. -/
def steps (path : Text) : List Text := (List.splitOn '/' path).filter fun n => !isNoStep n

/-- The last name of a path. -/
def fileName (path : Text) : Text := (steps path).getLast?.getD []

/-- Whether a path starts at the topmost folder. -/
def isAbsolute (path : Text) : Bool := path.head? == some '/'

/-- A path without the names that are no step. -/
def plainPath (path : Text) : Text :=
  (if isAbsolute path then ['/'] else []) ++ Text.join "/" (steps path)

/-- What a file written to a path meets: names that are no step count only where they lead to a
    folder. -/
def targetPlace (place : Text → Place) (path : Text) : Place :=
  match place path with
  | .folder => .folder
  | _ => place (plainPath path)

/-! ## Spots -/

/-- Where a path has led so far: to a path below the folder, or to one of the folders around it. -/
inductive Spot where
  | within (path : List Text)
  | around
  deriving DecidableEq, Repr

namespace Spot

/-- The folder above a spot; above a folder around there are only such folders. -/
def parent : Spot → Spot
  | .within [] => .around
  | .within (name :: names) => .within (name :: names).dropLast
  | .around => .around

/-- The spot under a name. -/
def child (name : Text) : Spot → Spot
  | .within path => .within (path ++ [name])
  | .around => .around

/-- The spot that one step of a path leads to. -/
def step (spot : Spot) (name : Text) : Spot := if name = ".." then spot.parent else spot.child name

/-- The spot at which a path starts. -/
def start (path : Text) : Spot := if isAbsolute path then .around else .within []

/-- The spot that a path leads to. -/
def ofPath (path : Text) : Spot := (steps path).foldl step (start path)

end Spot

/-! ## Folders -/

/-- The files in a folder by path, each path a list of names. -/
structure Folder where
  files : Table (List Text) ByteArray

namespace Folder

/-- The content of the file at a path. -/
def content? (f : Folder) (path : List Text) : Option ByteArray := f.files.get? path

/-- Whether a folder lies at a path: files lie below it. -/
def hasFolder (f : Folder) (path : List Text) : Bool :=
  path.isEmpty || f.files.keys.any fun p => path.isPrefixOf p && p.length != path.length

/-- What lies under a name at a spot. -/
def named (f : Folder) (name : Text) : Spot → Place
  | .within path =>
    if f.hasFolder (path ++ [name]) then .folder
    else
      match f.content? (path ++ [name]) with
      | some content => .file content
      | none => .vacant
  | .around => .vacant

/-- What is found by going from a spot along names. -/
def walk (f : Folder) : Spot → List Text → Place
  | _, [] => .folder
  | spot, name :: names =>
    if isNoStep name then f.walk spot names
    else if name = ".." then f.walk spot.parent names
    else
      match f.named name spot, names with
      | .folder, _ => f.walk (spot.child name) names
      | found, [] => found
      | .file _, _ :: _ => .blocked
      | _, _ :: _ => .unreachable

/-- What is found at a path; nothing is at the empty path. -/
def place (f : Folder) (path : Text) : Place :=
  if path.isEmpty then .unreachable else f.walk (Spot.start path) (List.splitOn '/' path)

/-- The path in the folder of a file that is written and was not there before. -/
def newPath? (f : Folder) (path : Text) : Option Text :=
  match Spot.ofPath path with
  | .within p => if (f.content? p).isSome then none else some (Text.join "/" p)
  | .around => none

end Folder

end OutlineMarkup.Command
