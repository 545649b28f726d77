import Std.Data.TreeMap
import VolumeFs.Record.Stat
import VolumeFs.Store.Memory.Clock

/-!
# Nodes of a tree

A node is a directory with named children or a file with its bytes, and keeps a mode and three
times. Children are ordered by name.
-/

namespace VolumeFs.Memory

abbrev Ino := Nat

/-- What a node holds. -/
inductive Body where
  | directory (children : Std.TreeMap String Ino)
  | file (bytes : ByteArray)

/-- An entry of the tree, without its name. -/
structure Node where
  body : Body
  mode : UInt32
  atime : Time
  mtime : Time
  ctime : Time

namespace Node

def newDirectory (mode : UInt32) (now : Time) : Node where
  body := .directory ∅
  mode := Mode.directory ||| Mode.permissions mode
  atime := now
  mtime := now
  ctime := now

def newFile (mode : UInt32) (now : Time) : Node where
  body := .file .empty
  mode := Mode.regular ||| Mode.permissions mode
  atime := now
  mtime := now
  ctime := now

/-- Whether the node has children, or could have. -/
def isDirectory (n : Node) : Bool :=
  match n.body with
  | .directory _ => true
  | .file _ => false

def touch (n : Node) (now : Time) : Node := { n with mtime := now, ctime := now }

/-- Changes the children of a directory. A file is left as it is. -/
def modifyChildren (n : Node) (change : Std.TreeMap String Ino → Std.TreeMap String Ino) : Node :=
  match n.body with
  | .directory children => { n with body := .directory (change children) }
  | .file _ => n

/-- The node as a file with the given bytes, whatever it held before. -/
def withBytes (n : Node) (bytes : ByteArray) (now : Time) : Node :=
  { n with body := .file bytes }.touch now

/-- Replaces the permission bits. The type bits stay. -/
def withPermissions (n : Node) (mode : UInt32) (now : Time) : Node :=
  { n with mode := Mode.type n.mode ||| Mode.permissions mode, ctime := now }

/-- The attributes of a node. A directory counts as empty and has one link more than children,
besides its own. -/
def stat (n : Node) (ino : Ino) : Stat :=
  let (size, links) := match n.body with
    | .file bytes => (bytes.size, 1)
    | .directory children => (0, 2 + children.size)
  { ino := .ofNat ino, size := .ofNat size, blocks := .ofNat ((size + 511) / 512)
    atime := n.atime.sec, mtime := n.mtime.sec, ctime := n.ctime.sec
    atimeNsec := n.atime.nsec, mtimeNsec := n.mtime.nsec, ctimeNsec := n.ctime.nsec
    mode := n.mode, nlink := .ofNat links, blkSize := 4096 }

end Node
end VolumeFs.Memory
