import InvariantMachine.Shell.Path

/-!
# Work on files

A task reads, writes and compares files and ends with what it prints. It says what it asks for
and how it goes on from each answer, so the same task runs on a tree of files and outside.
-/

namespace InvariantMachine

/-- Why a file could not be read or written. -/
inductive FileFault where
  | notFound
  | notDirectory
  | isDirectory
  | nameTooLong
  | other (description : String)
deriving DecidableEq, Repr

def FileFault.message : FileFault → String
  | notFound => "No such file or directory (os error 2)"
  | notDirectory => "Not a directory (os error 20)"
  | isDirectory => "Is a directory (os error 21)"
  | nameTooLong => "File name too long (os error 36)"
  | other description => description

/-- What a command prints, and its exit code. -/
structure Printed where
  code : Nat
  out : String
  err : String
deriving DecidableEq, Repr

/-- A task on files. -/
inductive FileTask where
  | done (printed : Printed)
  | read (path : String) (next : Except FileFault (List UInt8) → FileTask)
  | write (path : String) (bytes : List UInt8) (next : Except FileFault Unit → FileTask)
  /-- Whether two paths name the same file. -/
  | sameFile (a b : String) (next : Bool → FileTask)

/-- The segments that lead from the root to a file or a directory. -/
abbrev Location := List (List Char)

/-- Files below a root. Locations above a file or a directory are directories. -/
structure FileTree where
  /-- Regular files and their contents. -/
  files : List (Location × List UInt8)
  /-- The working directory, where relative paths begin. -/
  here : Location := []
  /-- Other directories, which need hold no file. -/
  directories : List Location := []
deriving DecidableEq, Repr

namespace FileTree

inductive Entry where
  | file (bytes : List UInt8)
  | directory
deriving DecidableEq, Repr

/-- Whether a location that is no file is a directory. -/
def isDirectory (tree : FileTree) (location : Location) : Bool :=
  (tree.here :: tree.directories).any (location.isPrefixOf ·) ||
    tree.files.any fun f => location.isPrefixOf f.1

def entry? (tree : FileTree) (location : Location) : Option Entry :=
  match tree.files.find? fun f => f.1 == location with
  | some f => some (.file f.2)
  | none => if tree.isDirectory location then some .directory else none

/-- The location that a segment leads to. -/
def follow (location : Location) (segment : List Char) : Location :=
  if Path.isIdle segment then location
  else if segment = ['.', '.'] then location.dropLast
  else location ++ [segment]

def longestName : Nat := 255

def longestPath : Nat := 4095

def utf8Size (text : List Char) : Nat := (String.ofList text).utf8ByteSize

/-- Follows segments from a location. Every location that is left must be a directory. -/
def walk (tree : FileTree) : Location → List (List Char) → Except FileFault Location
  | location, [] => .ok location
  | location, segment :: rest =>
    match tree.entry? location with
    | none => .error .notFound
    | some (.file _) => .error .notDirectory
    | some .directory =>
      if longestName < utf8Size segment then .error .nameTooLong
      else tree.walk (follow location segment) rest

/-- Where a path begins: at the root if its first character is a slash. -/
def origin (tree : FileTree) (path : List Char) : Location :=
  if path.head? = some '/' then [] else tree.here

/-- The location that a path names, whether something is there or not. -/
def locate (tree : FileTree) (path : List Char) : Except FileFault Location :=
  if path.isEmpty then .error .notFound
  else if longestPath < utf8Size path then .error .nameTooLong
  else tree.walk (tree.origin path) (Path.segments path)

def read (tree : FileTree) (path : String) : Except FileFault (List UInt8) := do
  match tree.entry? (← tree.locate path.toList) with
  | none => throw .notFound
  | some .directory => throw .isDirectory
  | some (.file bytes) => return bytes

def put (tree : FileTree) (location : Location) (bytes : List UInt8) : FileTree :=
  if tree.files.any fun f => f.1 == location then
    { tree with files := tree.files.map fun f => if f.1 == location then (location, bytes) else f }
  else { tree with files := tree.files ++ [(location, bytes)] }

/-- Where a path may be written. A path that ends with a slash can only name a directory. -/
def writable (tree : FileTree) (path : List Char) : Except FileFault Location := do
  if longestPath < utf8Size path then throw .nameTooLong
  let trimmed := (path.reverse.dropWhile (· == '/')).reverse
  let location ← tree.locate (if trimmed.isEmpty then path else trimmed)
  if trimmed.length < path.length ∨ tree.entry? location = some .directory then throw .isDirectory
  return location

def write (tree : FileTree) (path : String) (bytes : List UInt8) : Except FileFault FileTree := do
  return tree.put (← tree.writable path.toList) bytes

/-- The location of something that is there. -/
def existing? (tree : FileTree) (path : List Char) : Option Location :=
  match tree.locate path with
  | .ok location => if (tree.entry? location).isSome then some location else none
  | .error _ => none

/-- The files in the working directory and below it, by the segments that lead there. -/
def filesHere (tree : FileTree) : List (Location × List UInt8) :=
  tree.files.filterMap fun f =>
    if tree.here.isPrefixOf f.1 then some (f.1.drop tree.here.length, f.2) else none

/-- Whether two paths are the same, or lead to the same place. -/
def sameFile (tree : FileTree) (a b : String) : Bool :=
  Path.components a.toList == Path.components b.toList ||
    match tree.existing? a.toList, tree.existing? b.toList with
    | some x, some y => x == y
    | _, _ => false

end FileTree

namespace FileTask

def runOn : FileTask → FileTree → Printed × FileTree
  | done printed, tree => (printed, tree)
  | read path next, tree => (next (tree.read path)).runOn tree
  | write path bytes next, tree =>
    match tree.write path bytes with
    | .ok tree => (next (.ok ())).runOn tree
    | .error fault => (next (.error fault)).runOn tree
  | sameFile a b next, tree => (next (tree.sameFile a b)).runOn tree

end FileTask

end InvariantMachine
