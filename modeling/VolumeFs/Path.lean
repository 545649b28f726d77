/-!
# Store paths

A store path is absolute: `/`, then names joined by single slashes. Callers may also hand in an
address such as `scheme://volume/dir/file`, of which only the part from the first slash after
the volume counts. Paths are compared and taken apart as lists of names.
-/

namespace VolumeFs

inductive PathError where
  | invalidPath (path : String)
  | noParent (path : String)
  deriving DecidableEq

namespace PathError

def message : PathError → String
  | invalidPath path => "Invalid path: " ++ path
  | noParent path => "Path has no parent: " ++ path

end PathError

namespace Path

/-- A name, or any other piece of a path between two slashes. -/
abbrev Name := List Char

/-- The pieces of a text between its slashes; there is always at least one. -/
def pieces : List Char → List Name
  | [] => [[]]
  | '/' :: cs => [] :: pieces cs
  | c :: cs =>
    match pieces cs with
    | [] => [[c]]
    | p :: ps => (c :: p) :: ps

/-- Takes one more piece on to the names read so far, the latest name first. Empty pieces and
single dots name nothing, and two dots take the latest name away, if there is one. -/
def enter (names : List Name) (piece : Name) : List Name :=
  if piece = [] ∨ piece = ['.'] then names
  else if piece = ['.', '.'] then names.tail
  else piece :: names

def names (cs : List Char) : List Name := ((pieces cs).foldl enter []).reverse

def ofNames : List Name → List Char
  | [] => ['/']
  | ns => ns.flatMap ('/' :: ·)

/-- What follows the first `://` of a text. -/
def afterScheme? : List Char → Option (List Char)
  | [] => none
  | ':' :: '/' :: '/' :: cs => some cs
  | _ :: cs => afterScheme? cs

/-- The part of a text that names an entry within its volume. -/
def withinVolume (cs : List Char) : List Char :=
  match afterScheme? cs with
  | some rest => rest.dropWhile (· ≠ '/')
  | none => cs

/-- The names of the entry that a path or an address stands for. -/
def entryNames (text : String) : List Name := names (withinVolume text.toList)

/-- The path in normal form, taken as it stands. -/
def normalize (text : String) : String := String.ofList (ofNames (names text.toList))

/-- The store path of a path or an address. -/
def ofText (text : String) : String := String.ofList (ofNames (entryNames text))

/-- The path of the directory that holds the entry. The root has none. -/
def parent (text : String) : Except PathError String :=
  match entryNames text with
  | [] => .error (.noParent text)
  | ns => .ok (String.ofList (ofNames ns.dropLast))

/-- The path of a name within a directory. The name is taken as it stands. -/
def join (directory name : String) : String :=
  let base := ofText directory
  if base = "/" then "/" ++ name else base ++ "/" ++ name

def lastPiece (cs : List Char) : Name := (cs.reverse.takeWhile (· ≠ '/')).reverse

/-- The last name of a path, taken as it stands. -/
def fileName (text : String) : String := String.ofList (lastPiece text.toList)

end Path
end VolumeFs
