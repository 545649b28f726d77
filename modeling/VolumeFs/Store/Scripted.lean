import VolumeFs.Bytes
import VolumeFs.Store.Client

/-!
# Stores under a script

A store that misbehaves as a script tells it: calls fail without reaching the store, buffers
arrive cut short, counts and attributes are changed on the way back. With every script allowed,
this is the model of a store and a network that fail at any point.
-/

namespace VolumeFs

/-- The calls that a script can make fail. -/
inductive Call where
  | openPath
  | read
  | write
  | flush
  | close
  | getAttr
  | mkdirs
  | unlink
  | rmdir
  | rename
  | readdir
  | batchGetAttr
  | fchmod
  deriving DecidableEq

structure StatPatch where
  ino : UInt64
  mode : Option UInt32 := none
  size : Option UInt64 := none
  mtime : Option (Int64 × UInt32) := none
  /-- The number under which a batch shows the inode. -/
  shownIno : Option UInt64 := none

namespace StatPatch

def apply (p : StatPatch) (stat : Stat) : Stat :=
  let stat := { stat with mode := p.mode.getD stat.mode, size := p.size.getD stat.size }
  match p.mtime with
  | some (sec, nsec) => { stat with mtime := sec, mtimeNsec := nsec }
  | none => stat

/-- The attributes as a batch shows them. -/
def applyInBatch (p : StatPatch) (stat : Stat) : Stat :=
  let stat := p.apply stat
  { stat with ino := p.shownIno.getD stat.ino }

end StatPatch

/-- What a store is to do wrong. -/
structure Script where
  /-- What the next calls of each kind answer: a code, or the answer of the store. When nothing
  is left, the store answers. -/
  errors : List (Call × List (Option Errno)) := []
  /-- Reads get at most so many bytes of the buffer. -/
  readCap : Option Nat := none
  /-- What every write that succeeds reports. -/
  writeReport : Option Nat := none
  stats : List StatPatch := []
  /-- Batches of attributes come in reverse order. -/
  batchReverse : Bool := false

/-- A store together with its script. -/
structure Scripted (σ : Type) where
  store : σ
  script : Script := {}

namespace Script

/-- Takes the next entry for a call off the script. -/
def next (script : Script) (call : Call) : Option Errno × Script :=
  match script.errors.lookup call with
  | some (e :: rest) =>
    (e, { script with errors := script.errors.map fun q => if q.1 = call then (call, rest) else q })
  | _ => (none, script)

/-- How many entries are left for all calls together. -/
def length (script : Script) : Nat := script.errors.foldl (fun n q => n + q.2.length) 0

/-- The attributes of an inode under all changes to it, made one after the other. -/
def patched (script : Script) (apply : StatPatch → Stat → Stat) (stat : Stat) : Stat :=
  (script.stats.filter (·.ino = stat.ino)).foldl (fun s p => apply p s) stat

end Script

namespace Scripted

variable {σ α : Type}

/-- A call that fails before it reaches the store if the script says so. -/
def guarded (s : Scripted σ) (call : Call) (forward : σ → Except Errno α × σ) :
    Except Errno α × Scripted σ :=
  match s.script.next call with
  | (some e, script) => (.error e, { s with script })
  | (none, script) =>
    let (answer, store) := forward s.store
    (answer, { store, script })

variable [StoreClient σ]

/-- A read into the first bytes of the buffer only, as many as the script allows. -/
def read (s : Scripted σ) (fd : Fd) (buffer : ByteArray) (offset : Nat) :
    Except Errno Nat × ByteArray × Scripted σ :=
  match s.script.next .read with
  | (some e, script) => (.error e, buffer, { s with script })
  | (none, script) =>
    let passed := match script.readCap with
      | some cap => min buffer.size cap
      | none => buffer.size
    let (answer, front, store) := StoreClient.read s.store fd (buffer.extract 0 passed) offset
    (answer, Bytes.overlay buffer 0 front, { store, script })

/-- A write whose report the script may change. -/
def write (s : Scripted σ) (fd : Fd) (bytes : ByteArray) (offset : Nat) :
    Except Errno Nat × Scripted σ :=
  let (answer, s) := s.guarded .write fun store => StoreClient.write store fd bytes offset
  (answer.map fun count => s.script.writeReport.getD count, s)

/-- A close always reaches the store; the script may only make it fail afterwards. -/
def close (s : Scripted σ) (fd : Fd) : Except Errno Unit × Scripted σ :=
  let (answer, store) := StoreClient.close s.store fd
  match s.script.next .close with
  | (some e, script) => (.error e, { store, script })
  | (none, script) => (answer, { store, script })

def getAttr (s : Scripted σ) (path : String) : Except Errno Stat × Scripted σ :=
  let (answer, s) := s.guarded .getAttr fun store => StoreClient.getAttr store path
  (answer.map (s.script.patched StatPatch.apply), s)

/-- Batches of attributes under the changes of the script, in the order that it asks for. -/
def batchGetAttr (s : Scripted σ) (fd : Fd) (inodes : List UInt64) :
    Except Errno (List Stat) × Scripted σ :=
  let (answer, s) := s.guarded .batchGetAttr fun store => StoreClient.batchGetAttr store fd inodes
  let shown := answer.map fun stats => stats.map (s.script.patched StatPatch.applyInBatch)
  (if s.script.batchReverse then shown.map List.reverse else shown, s)

theorem size_read (s : Scripted σ) (fd : Fd) (buffer : ByteArray) (offset : Nat) :
    (s.read fd buffer offset).2.1.size = buffer.size := by
  unfold read
  split
  · rfl
  · apply Bytes.size_overlay
    rw [StoreClient.size_read, ByteArray.size_extract]
    omega

instance : StoreClient (Scripted σ) where
  openPath s path flags mode := s.guarded .openPath (StoreClient.openPath · path flags mode)
  read
  write
  flush s fd := s.guarded .flush (StoreClient.flush · fd)
  close
  getAttr
  mkdirs s path mode := s.guarded .mkdirs (StoreClient.mkdirs · path mode)
  unlink s path := s.guarded .unlink (StoreClient.unlink · path)
  rmdir s path := s.guarded .rmdir (StoreClient.rmdir · path)
  rename s source target := s.guarded .rename (StoreClient.rename · source target)
  readdir s fd limit := s.guarded .readdir (StoreClient.readdir · fd limit)
  batchGetAttr
  fchmod s fd mode := s.guarded .fchmod (StoreClient.fchmod · fd mode)
  shutdown s := { s with store := StoreClient.shutdown s.store }
  walkBound s := StoreClient.walkBound s.store + s.script.length
  size_read

end Scripted
end VolumeFs
