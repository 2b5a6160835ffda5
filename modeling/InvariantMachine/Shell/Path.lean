/-!
# Paths

Texts that name files, read as segments between slashes. Empty segments and single dots lead
nowhere, so they do not tell two paths apart, except a dot that a path begins with.
-/

namespace InvariantMachine.Path

/-- The texts between the slashes of a path. -/
def segments : List Char → List (List Char)
  | [] => [[]]
  | c :: cs =>
    if c = '/' then [] :: segments cs
    else match segments cs with
      | [] => [[c]]
      | s :: rest => (c :: s) :: rest

def isIdle (segment : List Char) : Bool := segment == [] || segment == ['.']

/-- Whether a path begins at the root, and the segments that lead somewhere. -/
def components (path : List Char) : Bool × List (List Char) :=
  match segments path with
  | [] => (false, [])
  | first :: rest =>
    (first.isEmpty && !rest.isEmpty,
      [first].filter (fun s => !s.isEmpty) ++ rest.filter (fun s => !isIdle s))

/-- The last segment that leads somewhere, if it is a name, and the text before it. -/
def name? (path : List Char) : Option (List Char × List Char) :=
  match (segments path).reverse.dropWhile isIdle with
  | [] => none
  | name :: before =>
    if name = ['.', '.'] then none
    else some (before.reverse.flatMap (· ++ ['/']), name)

/-- A name as its stem and its extension. A name that begins with its only point has none. -/
def splitExtension (name : List Char) : List Char × Option (List Char) :=
  let extension := name.reverse.takeWhile (· != '.')
  match name.reverse.drop extension.length with
  | '.' :: stem => if stem.isEmpty then (name, none) else (stem.reverse, some extension.reverse)
  | _ => (name, none)

/-- Sets the extension of the name of a path. What follows the name is dropped, and a path without
a name stays as it is. -/
def setExtension (path extension : List Char) : List Char :=
  match name? path with
  | none => path
  | some (before, name) => before ++ (splitExtension name).1 ++ ['.'] ++ extension

/-- Replaces the extension of a path: as much text as the old one has is cut off the end before
the new one is set. -/
def withExtension (path extension : List Char) : List Char :=
  let old := match name? path with
    | none => []
    | some (_, name) => (splitExtension name).2.getD []
  setExtension (path.take (path.length - old.length)) extension

def storedExtension : List Char := ['t', 'i', 'm']

/-- Where the program of a source is stored if nothing else is said. -/
def stored (source : String) : String :=
  String.ofList (withExtension source.toList storedExtension)

end InvariantMachine.Path
