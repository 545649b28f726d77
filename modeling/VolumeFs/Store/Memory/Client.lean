import VolumeFs.Bytes
import VolumeFs.Store.Client
import VolumeFs.Store.Memory.Basic

/-!
# The calls of a store in memory

Every call but two is refused once the store was shut down: descriptors can still be given back,
and the shutdown itself may be repeated. What the store lists goes through the layout of its
records.
-/

namespace VolumeFs.Memory.Store

/-- Records as they come out of their layout. A store that cannot read its own records fails
with an input error. -/
def transferred {α : Type} (decodeAll : List UInt8 → Nat → Except StoreError (List α))
    (bytes : List UInt8) (count : Nat) : Except Errno (List α) :=
  match decodeAll bytes count with
  | .ok records => .ok records
  | .error _ => .error .eio

/-- Gives out the next descriptor for a node. Whatever still has that number is forgotten. -/
def openNode (s : Store) (ino : Ino) (flags : OpenFlags) : Except Errno Fd × Store :=
  (.ok ⟨s.nextFd.toInt⟩,
    { s with
      openFiles := s.openFiles.insert s.nextFd.toInt { ino, flags }
      nextFd := s.nextFd + 1 })

/-- Opens the entry at a path. A directory cannot be opened for writing; a file is emptied if it
is opened for writing and the flags ask for it. -/
def openPath (s : Store) (path : String) (flags : OpenFlags) (mode : UInt32) :
    Except Errno Fd × Store :=
  if s.isShutDown then (.error .eio, s)
  else
    let s := { s with calls.opens := s.calls.opens + 1 }
    match s.tree.lookup path with
    | .ok ino =>
      if flags.contains (.create ||| .exclusive) then (.error .eexist, s)
      else
        match s.tree.nodes[ino]? with
        | none => (.error .enoent, s)
        | some node =>
          if node.isDirectory && flags.isWritable then (.error .eisdir, s)
          else if flags.contains .truncate && flags.isWritable then
            { s with tree := s.tree.modifyNode ino (·.withBytes .empty s.clock.now) }.openNode
              ino flags
          else s.openNode ino flags
    | .error e =>
      if e = .enoent && flags.contains .create then
        match s.tree.lookupParent path with
        | .error e => (.error e, s)
        | .ok (parent, name) =>
          match s.tree.insertChild parent name (.newFile mode s.clock.now) s.clock.now with
          | (.error e, tree) => (.error e, { s with tree })
          | (.ok ino, tree) => { s with tree }.openNode ino flags
      else (.error e, s)

/-- Reads what the file holds at the position, as far as it fits the buffer. -/
def read (s : Store) (fd : Fd) (buffer : ByteArray) (offset : Nat) :
    Except Errno Nat × ByteArray × Store :=
  if s.isShutDown then (.error .eio, buffer, s)
  else
    let s := { s with
      calls.reads := s.calls.reads + 1
      calls.readLog := s.calls.readLog.push (offset, buffer.size) }
    match s.openFile? fd with
    | none => (.error .ebadf, buffer, s)
    | some file =>
      match s.tree.nodes[file.ino]? with
      | none => (.error .enoent, buffer, s)
      | some { body := .directory _, .. } => (.error .eisdir, buffer, s)
      | some { body := .file bytes, .. } =>
        let piece := Bytes.slice bytes offset buffer.size
        (.ok (piece.size + s.faults.readOverreport.getD 0), Bytes.overlay buffer 0 piece, s)

/-- Writes at a position, beyond the end after a gap of zeros. -/
def write (s : Store) (fd : Fd) (bytes : ByteArray) (offset : Nat) : Except Errno Nat × Store :=
  if s.isShutDown then (.error .eio, s)
  else
    let s := { s with
      calls.writes := s.calls.writes + 1
      calls.writeLog := s.calls.writeLog.push (offset, bytes.size) }
    match s.openFile? fd with
    | none => (.error .ebadf, s)
    | some file =>
      if !file.flags.isWritable then (.error .ebadf, s)
      else
        let accepted := match s.faults.shortWrite with
          | some limit => min bytes.size limit
          | none => bytes.size
        match s.tree.nodes[file.ino]? with
        | none => (.error .enoent, s)
        | some { body := .directory _, .. } => (.error .eisdir, s)
        | some { body := .file held, .. } =>
          let held := Bytes.overlay (Bytes.padded held (offset + accepted)) offset
            (bytes.extract 0 accepted)
          (.ok accepted,
            { s with tree := s.tree.modifyNode file.ino (·.withBytes held s.clock.now) })

def flush (s : Store) (fd : Fd) : Except Errno Unit × Store :=
  if s.isShutDown then (.error .eio, s)
  else
    let s := { s with calls.flushes := s.calls.flushes + 1 }
    match s.openFile? fd with
    | none => (.error .ebadf, s)
    | some _ =>
      match s.faults.flushError with
      | some e => (.error e, s)
      | none => (.ok (), s)

/-- Gives a descriptor back, also when the call then fails. -/
def close (s : Store) (fd : Fd) : Except Errno Unit × Store :=
  let s := { s with calls.closes := s.calls.closes + 1 }
  match s.openFile? fd with
  | none => (.error .ebadf, s)
  | some _ =>
    let s := { s with openFiles := s.openFiles.erase fd.number }
    match s.faults.closeError with
    | some e => (.error e, s)
    | none => (.ok (), s)

def getAttr (s : Store) (path : String) : Except Errno Stat × Store :=
  if s.isShutDown then (.error .eio, s)
  else
    match s.tree.lookup path with
    | .error e => (.error e, s)
    | .ok ino =>
      match s.tree.nodes[ino]? with
      | none => (.error .enoent, s)
      | some node => (.ok (node.stat ino), s)

def mkdirs (s : Store) (path : String) (mode : UInt32) : Except Errno Unit × Store :=
  if s.isShutDown then (.error .eio, s)
  else
    let s := { s with
      calls.mkdirs := s.calls.mkdirs + 1
      calls.mkdirsPaths := s.calls.mkdirsPaths.push path }
    if 0 < s.faults.failingMkdirs then
      (.error .eio, { s with faults.failingMkdirs := s.faults.failingMkdirs - 1 })
    else if s.faults.mkdirsIsNoop then (.ok (), s)
    else
      let (result, tree) := s.tree.mkdirs path mode s.clock.now
      (result, { s with tree })

def unlink (s : Store) (path : String) : Except Errno Unit × Store :=
  if s.isShutDown then (.error .eio, s)
  else
    let s := { s with calls.unlinks := s.calls.unlinks + 1 }
    if 0 < s.faults.failingUnlinks then
      (.error .eio, { s with faults.failingUnlinks := s.faults.failingUnlinks - 1 })
    else
      let (result, tree) := s.tree.unlink path
      (result, { s with tree })

def rmdir (s : Store) (path : String) : Except Errno Unit × Store :=
  if s.isShutDown then (.error .eio, s)
  else
    let s := { s with calls.rmdirs := s.calls.rmdirs + 1 }
    let (result, tree) := s.tree.rmdir path
    (result, { s with tree })

def rename (s : Store) (source target : String) : Except Errno Unit × Store :=
  if s.isShutDown then (.error .eio, s)
  else
    let s := { s with calls.renames := s.calls.renames + 1 }
    let (result, tree) := s.tree.rename source target s.clock.now
    (result, { s with tree })

/-- The children whose names come after the cursor, in the order of their names. -/
def childrenAfter (children : Std.TreeMap String Ino) (cursor : Option String) :
    List (String × Ino) :=
  match cursor with
  | none => children.toList
  | some last => children.toList.filter fun c => last < c.1

def direntOf (t : Tree) (child : String × Ino) : Dirent :=
  .ofName (.ofNat child.2) child.1
    (if t.isDirectory child.2 then Dirent.directoryKind else Dirent.regularKind)

/-- The next entries of an open directory. The listing goes on after the last name given, which
is remembered as the entry tells it. -/
def readdir (s : Store) (fd : Fd) (limit : Nat) : Except Errno (List Dirent) × Store :=
  if s.isShutDown then (.error .eio, s)
  else
    let s := { s with calls.readdirs := s.calls.readdirs + 1 }
    match s.faults.readdirError with
    | some e => (.error e, s)
    | none =>
      match s.openFile? fd with
      | none => (.error .ebadf, s)
      | some file =>
        match s.tree.children file.ino with
        | .error e => (.error e, s)
        | .ok children =>
          let entries := ((childrenAfter children file.cursor).take limit).map (direntOf s.tree)
          let openFiles := match entries.getLast? with
            | some last =>
              s.openFiles.modify fd.number fun f => { f with cursor := some last.name }
            | none => s.openFiles
          (transferred Dirent.decodeAll (entries.flatMap Dirent.encode) entries.length,
            { s with
              openFiles
              calls.readdirSizes := s.calls.readdirSizes.push entries.length })

/-- The attributes of those of the inodes that exist. -/
def batchGetAttr (s : Store) (fd : Fd) (inodes : List UInt64) :
    Except Errno (List Stat) × Store :=
  if s.isShutDown then (.error .eio, s)
  else
    let s := { s with calls.batchGetAttrs := s.calls.batchGetAttrs + 1 }
    match s.openFile? fd with
    | none => (.error .ebadf, s)
    | some _ =>
      match s.faults.batchError with
      | some e => (.error e, s)
      | none =>
        let found := inodes.filterMap fun ino =>
          s.tree.nodes[ino.toNat]?.map fun node => node.stat ino.toNat
        let stats := match s.faults.batchLimit with
          | some limit => found.take limit
          | none => found
        (transferred Stat.decodeAll (stats.flatMap Stat.encode) stats.length, s)

def fchmod (s : Store) (fd : Fd) (mode : UInt32) : Except Errno Unit × Store :=
  if s.isShutDown then (.error .eio, s)
  else
    match s.openFile? fd with
    | none => (.error .ebadf, s)
    | some file =>
      match s.tree.nodes[file.ino]? with
      | none => (.error .enoent, s)
      | some _ =>
        (.ok (),
          { s with tree := s.tree.modifyNode file.ino (·.withPermissions mode s.clock.now) })

def shutdown (s : Store) : Store := { s with isShutDown := true }

theorem size_read (s : Store) (fd : Fd) (buffer : ByteArray) (offset : Nat) :
    (s.read fd buffer offset).2.1.size = buffer.size := by
  simp only [read]
  repeat' split
  all_goals try rfl
  apply Bytes.size_overlay
  rw [Bytes.size_slice]
  omega

instance : StoreClient Store where
  openPath
  read
  write
  flush
  close
  getAttr
  mkdirs
  unlink
  rmdir
  rename
  readdir
  batchGetAttr
  fchmod
  shutdown
  walkBound s := s.tree.nodes.size
  size_read

end VolumeFs.Memory.Store
