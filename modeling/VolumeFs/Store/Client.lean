import VolumeFs.Record.Dirent
import VolumeFs.Record.Stat
import VolumeFs.Store.Access

/-!
# Store clients

The calls that a volume store answers. A store is a value: each call gives its answer and the
store after it, also when the call failed. Everything above this interface works for any store.
-/

namespace VolumeFs

/-- A store that answers calls. -/
class StoreClient (σ : Type) where
  /-- Opens an entry, and creates a file first if the flags say so. -/
  openPath : σ → (path : String) → OpenFlags → (mode : UInt32) → Except Errno Fd × σ
  /-- Reads into a buffer from a position of the file. The answer is the number of bytes that the
  store reports, which need not be true, and the buffer as the store left it. -/
  read : σ → Fd → (buffer : ByteArray) → (offset : Nat) → Except Errno Nat × ByteArray × σ
  /-- Writes at a position of the file. The answer is the number of bytes taken. -/
  write : σ → Fd → (bytes : ByteArray) → (offset : Nat) → Except Errno Nat × σ
  /-- Makes the writes so far durable. -/
  flush : σ → Fd → Except Errno Unit × σ
  /-- Gives a descriptor back. -/
  close : σ → Fd → Except Errno Unit × σ
  /-- The attributes of an entry. -/
  getAttr : σ → (path : String) → Except Errno Stat × σ
  /-- Makes a directory with all that lead to it. -/
  mkdirs : σ → (path : String) → (mode : UInt32) → Except Errno Unit × σ
  /-- Removes a file. -/
  unlink : σ → (path : String) → Except Errno Unit × σ
  /-- Removes an empty directory. -/
  rmdir : σ → (path : String) → Except Errno Unit × σ
  /-- Moves an entry to a path at which there is none. -/
  rename : σ → (source target : String) → Except Errno Unit × σ
  /-- The next entries of an open directory, at most as many as asked for. -/
  readdir : σ → Fd → (limit : Nat) → Except Errno (List Dirent) × σ
  /-- The attributes of several inodes. Some may be missing from the answer. -/
  batchGetAttr : σ → Fd → (inodes : List UInt64) → Except Errno (List Stat) × σ
  /-- Sets the permission bits of an open entry. -/
  fchmod : σ → Fd → (mode : UInt32) → Except Errno Unit × σ
  /-- Ends the work of the client. -/
  shutdown : σ → σ
  /-- A number by which walks over the store end. It is not exceeded by the number of entries of
  a directory, nor by the depth of the tree, nor by the number of answers that do not depend on
  the tree, such as those of a script. -/
  walkBound : σ → Nat
  /-- A buffer keeps its size. -/
  size_read : ∀ s fd buffer offset, (read s fd buffer offset).2.1.size = buffer.size

end VolumeFs
