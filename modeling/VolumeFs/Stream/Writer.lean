import VolumeFs.Bytes
import VolumeFs.Error
import VolumeFs.Handle

/-!
# Write streams

Bytes are collected in a buffer and committed to the store whenever the buffer is full, so that
the calls of the store do not depend on how the bytes were handed over. The first commit or flush
that fails breaks the stream for good: a store that took part of a buffer must not see it again.
-/

namespace VolumeFs

/-- A stream of bytes into an open file. -/
structure Writer where
  /-- The open file, until the stream is closed. -/
  handle : Option Handle
  fd : Fd
  path : String
  /-- The bytes that the store does not have yet. -/
  buffer : ByteArray
  capacity : Nat
  /-- The position in the file at which the buffer begins. -/
  commitOffset : Nat
  isClosed : Bool
  /-- Whether a commit or a flush has failed. -/
  isBroken : Bool

namespace Writer

/-- A stream that begins at a position of the file. The buffer has room for at least a byte. -/
def new (handle : Handle) (offset bufferSize : Nat) : Writer where
  handle := some handle
  fd := handle.fd
  path := handle.path
  buffer := .empty
  capacity := max bufferSize 1
  commitOffset := offset
  isClosed := false
  isBroken := false

def position (w : Writer) : Nat := w.commitOffset + w.buffer.size

def checkWritable (w : Writer) : Except VolumeError Unit :=
  if w.isClosed then .error (.streamClosed w.path)
  else if w.isBroken then .error (.streamBroken w.path)
  else .ok ()

def described (w : Writer) : String :=
  Text.describedRecord "BufferedWriteStream"
    [("handle", Text.describedOption (w.handle.map Handle.described)),
      ("fd", w.fd.described), ("path", Text.quoted w.path),
      ("buffer", Text.describedList (w.buffer.data.toList.map fun b => toString b.toNat)),
      ("capacity", toString w.capacity), ("commit_offset", toString w.commitOffset),
      ("closed", Text.describedBool w.isClosed), ("broken", Text.describedBool w.isBroken)]

variable {σ : Type} [StoreClient σ]

/-- Hands the buffer to the store. It is emptied only if the store took all of it. -/
def commit (w : Writer) (s : σ) : Except VolumeError Unit × Writer × σ :=
  if w.buffer.size = 0 then (.ok (), w, s)
  else
    match w.handle with
    | none => (.error (.streamClosed w.path), w, s)
    | some handle =>
      match StoreClient.write s handle.fd w.buffer w.commitOffset with
      | (.ok count, s) =>
        if count = w.buffer.size then
          (.ok (), { w with commitOffset := w.commitOffset + count, buffer := .empty }, s)
        else
          (.error (.shortWrite w.fd w.buffer.size count), { w with isBroken := true }, s)
      | (.error code, s) =>
        (.error (.ofErrno code w.path), { w with isBroken := true }, s)

def commitAndFlush (w : Writer) (s : σ) : Except VolumeError Unit × Writer × σ :=
  match w.commit s with
  | (.error e, w, s) => (.error e, w, s)
  | (.ok (), w, s) =>
    match w.handle with
    | none => (.error (.streamClosed w.path), w, s)
    | some handle =>
      match StoreClient.flush s handle.fd with
      | (.ok (), s) => (.ok (), w, s)
      | (.error code, s) => (.error (.flushFailed w.fd code), { w with isBroken := true }, s)

def commitIfFull (w : Writer) (s : σ) : Except VolumeError Unit × Writer × σ :=
  if w.buffer.size = w.capacity then w.commit s else (.ok (), w, s)

/-- Fills the buffer again and again until no bytes are left. -/
def fill (w : Writer) (s : σ) (bytes : ByteArray) : Except VolumeError Unit × Writer × σ :=
  let count := min (w.capacity - w.buffer.size) bytes.size
  if count = 0 then (.ok (), w, s)
  else
    match { w with buffer := w.buffer ++ bytes.extract 0 count }.commitIfFull s with
    | (.error e, w, s) => (.error e, w, s)
    | (.ok (), w, s) => fill w s (bytes.extract count bytes.size)
termination_by bytes.size
decreasing_by
  rw [ByteArray.size_extract]
  omega

def writeByte (w : Writer) (s : σ) (byte : UInt8) : Except VolumeError Unit × Writer × σ :=
  match w.checkWritable with
  | .error e => (.error e, w, s)
  | .ok () => { w with buffer := w.buffer.push byte }.commitIfFull s

def writeBytes (w : Writer) (s : σ) (bytes : ByteArray) :
    Except VolumeError Unit × Writer × σ :=
  match w.checkWritable with
  | .error e => (.error e, w, s)
  | .ok () => w.fill s bytes

/-- Takes a range of some bytes, which must lie within them. -/
def writeRange (w : Writer) (s : σ) (bytes : ByteArray) (offset length : Nat) :
    Except VolumeError Unit × Writer × σ :=
  if offset + length ≤ bytes.size then w.writeBytes s (bytes.extract offset (offset + length))
  else (.error (.store w.path .einval), w, s)

/-- Takes pieces of some bytes one after the other, each of them as long as asked for but the
last one, until one fails. -/
def writeChunks (w : Writer) (s : σ) (bytes : ByteArray) (chunk : Nat) :
    Except VolumeError Unit × Writer × σ :=
  let count := min (max chunk 1) bytes.size
  if count = 0 then (.ok (), w, s)
  else
    match w.writeBytes s (bytes.extract 0 count) with
    | (.error e, w, s) => (.error e, w, s)
    | (.ok (), w, s) => writeChunks w s (bytes.extract count bytes.size) chunk
termination_by bytes.size
decreasing_by
  rw [ByteArray.size_extract]
  omega

def flush (w : Writer) (s : σ) : Except VolumeError Unit × Writer × σ :=
  match w.checkWritable with
  | .error e => (.error e, w, s)
  | .ok () => w.commitAndFlush s

/-- What is left to do for the bytes when the stream is closed: on a broken stream nothing, but
bytes that the store does not have are reported. -/
def settle (w : Writer) (s : σ) : Except VolumeError Unit × Writer × σ :=
  if !w.isBroken then w.commitAndFlush s
  else if w.buffer.size ≠ 0 then (.error (.streamBroken w.path), w, s)
  else (.ok (), w, s)

/-- Gives the descriptor back, whatever happened before. -/
def release (w : Writer) (s : σ) : Except VolumeError Unit × Writer × σ :=
  let closed := { w with buffer := .empty, isClosed := true, handle := none }
  match w.handle with
  | none => (.ok (), closed, s)
  | some handle =>
    match handle.close s with
    | (.ok (), s) => (.ok (), closed, s)
    | (.error code, s) => (.error (.closeFailed w.fd code), closed, s)

/-- Closes the stream. Closing once more does nothing. -/
def close (w : Writer) (s : σ) : Except VolumeError Unit × Writer × σ :=
  if w.isClosed then (.ok (), w, s)
  else
    let (settled, w, s) := w.settle s
    let (released, w, s) := w.release s
    (VolumeError.combine settled released, w, s)

end Writer
end VolumeFs
