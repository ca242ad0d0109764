import WorkspaceFacts.Path

/-!
# Reading a file of a tree

A file tree is a directory with everything below it. `WorkspaceFacts.FileTree.read`
follows a path from a working directory inside the tree, one component after the
other, and ends with the contents of a file or with the reason why there are none.

Above the top of the tree lies a place of which nothing is known: going up from it
leads nowhere else, and no name is found in it. Absolute paths start there.
-/

namespace WorkspaceFacts

/-- Why a file could not be read. -/
inductive ReadError
  /-- A component of the path names nothing. -/
  | notFound
  /-- The path leads to a directory. -/
  | isADirectory
  /-- The path goes on below a file. -/
  | notADirectory
  /-- A component, or the path as a whole, is longer than the system admits. -/
  | nameTooLong
  /-- The path has a zero byte, with which the system ends a name. -/
  | zeroByte
  /-- The system keeps the file from being read. -/
  | permissionDenied
  /-- Any other reason, in the system's words. -/
  | other (text : String)
  deriving DecidableEq

/-- The wording of the system for a failed reading. -/
def ReadError.message : ReadError → String
  | .notFound => "No such file or directory (os error 2)"
  | .isADirectory => "Is a directory (os error 21)"
  | .notADirectory => "Not a directory (os error 20)"
  | .nameTooLong => "File name too long (os error 36)"
  | .zeroByte => "file name contained an unexpected NUL byte"
  | .permissionDenied => "Permission denied (os error 13)"
  | .other text => text

/-- A file with its contents, or a directory with what it holds under each name. -/
inductive FileTree
  | file (contents : Bytes)
  | directory (members : List (Bytes × FileTree))

namespace FileTree

/-- The members of a directory. -/
abbrev Members := List (Bytes × FileTree)

/-- What a directory holds under a name. -/
def member? (members : Members) (name : Bytes) : Option FileTree :=
  match members with
  | [] => none
  | (n, t) :: rest => if n = name then some t else member? rest name

/-- Gives a name a new meaning in a directory. -/
def setMember (members : Members) (name : Bytes) (t : FileTree) : Members :=
  match members with
  | [] => [(name, t)]
  | (n, u) :: rest => if n = name then (n, t) :: rest else (n, u) :: setMember rest name t

/-- The members of a directory inside another one; none if there is no such directory. -/
def inner (members : Members) (name : Bytes) : Members :=
  match member? members name with
  | some (.directory below) => below
  | _ => []

/-- Puts a file at the end of a chain of names, or a directory if there are no contents.
The directories on the way are made as needed, and one that is there already stays as it
is. -/
def plant (contents : Option Bytes) : List Bytes → Members → Members
  | [], members => members
  | [name], members =>
    setMember members name (contents.elim (.directory (inner members name)) .file)
  | name :: next :: names, members =>
    setMember members name (.directory (plant contents (next :: names) (inner members name)))

/-- The parts of a path between its separators; two separators in a row have an empty
part between them. -/
def split : Bytes → List Bytes
  | [] => [[]]
  | b :: rest =>
    match split rest with
    | [] => [[b]]
    | part :: parts => if b = Path.separator then [] :: part :: parts else (b :: part) :: parts

/-- The name of the directory itself. -/
def here : Bytes := [0x2E]

/-- The name of the directory above. -/
def above : Bytes := [0x2E, 0x2E]

/-- Whether a part of a path leads to where one already is. -/
def isIdle (part : Bytes) : Bool := part.isEmpty || part == here

/-- The top of the tree that has the given files and directories, each with its path from
there. -/
def ofFiles (files : List (Bytes × Option Bytes)) : Members :=
  files.foldl (fun members (path, contents) =>
    plant contents ((split path).filter (! isIdle ·)) members) []

/-- The greatest number of bytes in one component. -/
def longestName : Nat := 255

/-- The greatest number of bytes in a path. -/
def longestPath : Nat := 4095

/-- Follows the parts of a path. The stack `trail` holds the members of the directories
from the current one up to the top of the tree; it is empty above the top. -/
def follow (trail : List Members) : List Bytes → Except ReadError Bytes
  | [] => .error .isADirectory
  | part :: parts =>
    if isIdle part then follow trail parts
    else if part == above then follow trail.tail parts
    else if part.length > longestName then .error .nameTooLong
    else match trail.head?.bind (member? · part) with
      | none => .error .notFound
      | some (.directory members) => follow (members :: trail) parts
      | some (.file contents) => if parts.isEmpty then .ok contents else .error .notADirectory

/-- The directories from a place inside the tree up to its top; a part that names no
directory is left out. -/
def descend (trail : List Members) : List Bytes → List Members
  | [] => trail
  | part :: parts =>
    if isIdle part then descend trail parts
    else if part == above then descend trail.tail parts
    else match trail.head?.bind (member? · part) with
      | some (.directory members) => descend (members :: trail) parts
      | _ => descend trail parts

/-- **Reading a file**: what the path leads to from the working directory `cwd`, which
is given relative to the top of the tree. -/
def read (top : Members) (cwd : Path) (path : Path) : Except ReadError Bytes :=
  if path.bytes.contains 0 then .error .zeroByte
  else if path.bytes.length > longestPath then .error .nameTooLong
  else if path.bytes.isEmpty then .error .notFound
  else follow (if path.isAbsolute then [] else descend [top] (split cwd.bytes))
    (split path.bytes)

end FileTree

end WorkspaceFacts
