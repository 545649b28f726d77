import VolumeFs.Errno
import VolumeFs.Path
import VolumeFs.Store.Memory.Node

/-!
# Trees of nodes

The nodes of a volume by number, the root being number one. A path is a list of names, and only
empty pieces are left out of it: single and double dots are names like any other.
-/

namespace VolumeFs.Memory

def rootIno : Ino := 1

/-- The names that a path leads through, one after the other. -/
def components (path : String) : List String :=
  ((Path.pieces path.toList).filter (· ≠ [])).map String.ofList

/-- The nodes of a volume. Numbers from `nextIno` on have never been given out. -/
structure Tree where
  nodes : Std.TreeMap Ino Node
  nextIno : Ino

namespace Tree

def new (now : Time) : Tree :=
  ⟨.ofList [(rootIno, Node.newDirectory 0o755 now)], rootIno + 1⟩

def children (t : Tree) (ino : Ino) : Except Errno (Std.TreeMap String Ino) :=
  match t.nodes[ino]? with
  | some { body := .directory children, .. } => .ok children
  | some { body := .file _, .. } => .error .enotdir
  | none => .error .enoent

def child (t : Tree) (ino : Ino) (name : String) : Except Errno Ino :=
  match t.children ino with
  | .error e => .error e
  | .ok children =>
    match children[name]? with
    | some child => .ok child
    | none => .error .enoent

/-- Follows names downwards from a node. -/
def walk (t : Tree) : Ino → List String → Except Errno Ino
  | ino, [] => .ok ino
  | ino, name :: names =>
    match t.child ino name with
    | .error e => .error e
    | .ok child => t.walk child names

def lookup (t : Tree) (path : String) : Except Errno Ino := t.walk rootIno (components path)

def isDirectory (t : Tree) (ino : Ino) : Bool := t.nodes[ino]?.any Node.isDirectory

/-- The directory that holds the entry at a path, or would hold it, and the name of the entry
there. The root is held by no directory. -/
def lookupParent (t : Tree) (path : String) : Except Errno (Ino × String) :=
  match (components path).getLast? with
  | none => .error .einval
  | some name =>
    match t.walk rootIno (components path).dropLast with
    | .error e => .error e
    | .ok parent => if t.isDirectory parent then .ok (parent, name) else .error .enotdir

/-- Changes the node of a number, if there is one. -/
def modifyNode (t : Tree) (ino : Ino) (change : Node → Node) : Tree :=
  { t with nodes := t.nodes.modify ino change }

def unlinkChild (t : Tree) (parent : Ino) (name : String) : Tree :=
  t.modifyNode parent fun n => n.modifyChildren (·.erase name)

def linkChild (t : Tree) (parent : Ino) (name : String) (ino : Ino) : Tree :=
  t.modifyNode parent fun n => n.modifyChildren (·.insert name ino)

/-- Gives a new node the next number and enters it into a directory. -/
def insertChild (t : Tree) (parent : Ino) (name : String) (node : Node) (now : Time) :
    Except Errno Ino × Tree :=
  match t.children parent with
  | .error e => (.error e, t)
  | .ok _ =>
    let linked := t.linkChild parent name t.nextIno
    (.ok t.nextIno,
      { nodes := (linked.nodes.insert t.nextIno node).modify parent (·.touch now)
        nextIno := t.nextIno + 1 })

/-- Follows names downwards from a node and makes the directories that are missing. The answer
is the last node and whether any was made. -/
def makeWalk (t : Tree) (ino : Ino) (made : Bool) (mode : UInt32) (now : Time) :
    List String → Except Errno (Ino × Bool) × Tree
  | [] => (.ok (ino, made), t)
  | name :: names =>
    match t.children ino with
    | .error e => (.error e, t)
    | .ok children =>
      match children[name]? with
      | some child => t.makeWalk child made mode now names
      | none =>
        match t.insertChild ino name (.newDirectory mode now) now with
        | (.error e, t) => (.error e, t)
        | (.ok child, t) => t.makeWalk child true mode now names

/-- Makes the directory at a path with all that lead to it. There must be something to make. -/
def mkdirs (t : Tree) (path : String) (mode : UInt32) (now : Time) : Except Errno Unit × Tree :=
  match t.makeWalk rootIno false mode now (components path) with
  | (.error e, t) => (.error e, t)
  | (.ok (ino, made), t) =>
    if made then (.ok (), t)
    else if t.isDirectory ino then (.error .eexist, t)
    else (.error .enotdir, t)

def meets (t : Tree) (target : Ino) : Ino → List String → Bool
  | ino, [] => ino = target
  | ino, name :: names =>
    ino = target ||
      match t.child ino name with
      | .ok child => t.meets target child names
      | .error _ => false

def unlink (t : Tree) (path : String) : Except Errno Unit × Tree :=
  match t.lookup path with
  | .error e => (.error e, t)
  | .ok ino =>
    if t.isDirectory ino then (.error .eisdir, t)
    else
      match t.lookupParent path with
      | .error e => (.error e, t)
      | .ok (parent, name) =>
        let unlinked := t.unlinkChild parent name
        (.ok (), { unlinked with nodes := unlinked.nodes.erase ino })

/-- Removes the directory at a path, which must be empty and not the root. -/
def rmdir (t : Tree) (path : String) : Except Errno Unit × Tree :=
  match t.lookup path with
  | .error e => (.error e, t)
  | .ok ino =>
    if ino = rootIno then (.error .eperm, t)
    else
      match t.children ino with
      | .error e => (.error e, t)
      | .ok children =>
        if !children.isEmpty then (.error .enotempty, t)
        else
          match t.lookupParent path with
          | .error e => (.error e, t)
          | .ok (parent, name) =>
            let unlinked := t.unlinkChild parent name
            (.ok (), { unlinked with nodes := unlinked.nodes.erase ino })

/-- Moves the entry at a path to another path, at which there must be none, in a directory that
does not lie below the entry. -/
def rename (t : Tree) (source target : String) (now : Time) : Except Errno Unit × Tree :=
  match t.lookup source with
  | .error e => (.error e, t)
  | .ok ino =>
    if ino = rootIno then (.error .einval, t)
    else if (t.lookup target).isOk then (.error .eexist, t)
    else
      match t.lookupParent target with
      | .error e => (.error e, t)
      | .ok (newParent, newName) =>
        if t.meets ino rootIno (components target) then (.error .einval, t)
        else
          match t.lookupParent source with
          | .error e => (.error e, t)
          | .ok (oldParent, oldName) =>
            let moved := (t.unlinkChild oldParent oldName).linkChild newParent newName ino
            (.ok (), moved.modifyNode ino fun n => { n with ctime := now })

def contents? (t : Tree) (path : String) : Option ByteArray :=
  match t.lookup path with
  | .error _ => none
  | .ok ino =>
    match t.nodes[ino]? with
    | some { body := .file bytes, .. } => some bytes
    | _ => none

/-- Puts a file with the given bytes at a path, making the directories that lead to it. What is
at the path already keeps its number and its mode but becomes a file. Nothing is put where the
path is the root or leads through a file. -/
def putFile (t : Tree) (path : String) (bytes : ByteArray) (now : Time) : Tree :=
  let t := match components path with
    | [] => t
    | names => (t.makeWalk rootIno false 0o755 now names.dropLast).2
  match t.lookupParent path with
  | .error _ => t
  | .ok (parent, name) =>
    match t.child parent name with
    | .ok ino => t.modifyNode ino (·.withBytes bytes now)
    | .error _ =>
      match t.insertChild parent name (.newFile 0o644 now) now with
      | (.ok ino, t) => t.modifyNode ino (·.withBytes bytes now)
      | (.error _, t) => t

end Tree
end VolumeFs.Memory
