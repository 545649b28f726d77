import VolumeFs.Store.Access
import VolumeFs.Store.Memory.Tree

/-!
# Stores in memory

A tree of nodes with a table of descriptors, a plan of faults, a count of the calls it answered
and a clock. The functions here are for whoever sets a store up and looks at it afterwards; the
calls of a client are in a module of their own.
-/

namespace VolumeFs.Memory

structure Faults where
  /-- No write takes more bytes than this. -/
  shortWrite : Option Nat := none
  /-- Each read reports so many bytes too many. -/
  readOverreport : Option Nat := none
  flushError : Option Errno := none
  closeError : Option Errno := none
  readdirError : Option Errno := none
  batchError : Option Errno := none
  /-- No batch of attributes has more than so many. -/
  batchLimit : Option Nat := none
  /-- So many calls that make directories will fail. -/
  failingMkdirs : UInt32 := 0
  /-- So many calls that remove files will fail. -/
  failingUnlinks : UInt32 := 0
  /-- Making directories succeeds without making any. -/
  mkdirsIsNoop : Bool := false

structure Calls where
  opens : Nat := 0
  reads : Nat := 0
  writes : Nat := 0
  flushes : Nat := 0
  closes : Nat := 0
  readdirs : Nat := 0
  batchGetAttrs : Nat := 0
  mkdirs : Nat := 0
  unlinks : Nat := 0
  rmdirs : Nat := 0
  renames : Nat := 0
  /-- The position and the length of each read. -/
  readLog : Array (Nat × Nat) := #[]
  /-- The position and the length of each write. -/
  writeLog : Array (Nat × Nat) := #[]
  /-- How many entries each listing call gave. -/
  readdirSizes : Array Nat := #[]
  /-- The path of each call that makes directories. -/
  mkdirsPaths : Array String := #[]

/-- What a descriptor stands for. -/
structure OpenFile where
  ino : Ino
  flags : OpenFlags
  /-- The name after which the listing goes on. -/
  cursor : Option String := none

/-- A store in memory. The number of the next descriptor wraps around, so that a number comes back
when all others have been given out, also if it is still in use. -/
structure Store where
  tree : Tree
  openFiles : Std.TreeMap Int OpenFile
  nextFd : Int32
  faults : Faults
  calls : Calls
  isShutDown : Bool
  clock : Clock

namespace Store

/-- A store with an empty root directory, made at the time of the clock. -/
def new (clock : Clock) : Store where
  tree := .new clock.now
  openFiles := ∅
  nextFd := 3
  faults := {}
  calls := {}
  isShutDown := false
  clock

def openFile? (s : Store) (fd : Fd) : Option OpenFile := s.openFiles[fd.number]?

def openDescriptors (s : Store) : Nat := s.openFiles.size

def putFile (s : Store) (path : String) (bytes : ByteArray) : Store :=
  { s with tree := s.tree.putFile path bytes s.clock.now }

/-- Puts a directory at a path, unless there is an entry already. -/
def putDirectory (s : Store) (path : String) : Store :=
  { s with tree := (s.tree.mkdirs path 0o755 s.clock.now).2 }

def contents? (s : Store) (path : String) : Option ByteArray := s.tree.contents? path

def contains (s : Store) (path : String) : Bool := (s.tree.lookup path).isOk

end Store
end VolumeFs.Memory
