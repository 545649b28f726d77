import VolumeFs.Pool
import VolumeFs.Stream.Output

/-!
# Read streams

A stream reads whole buffers from the store and hands their bytes out in pieces. The window is
the part of the buffer that was read and not handed out yet; moving to another position empties
it. A read that fails leaves the window as it was.
-/

namespace VolumeFs

/-- A stream of bytes from an open file. -/
structure Reader where
  /-- The open file, until the stream is closed. -/
  handle : Option Handle
  fd : Fd
  path : String
  /-- The buffer, until the stream is closed. -/
  buffer : Option Buffer
  /-- The position in the file of the next byte. -/
  fileOffset : Nat := 0
  /-- Where the window begins in the buffer. -/
  windowStart : Nat := 0
  /-- Where the window ends in the buffer. -/
  windowEnd : Nat := 0
  isClosed : Bool := false

inductive SeekOrigin where
  | start
  | current
  | finish

namespace Reader

/-- A stream cannot be marked and led back to the mark. -/
def supportsMark : Bool := false

def new (handle : Handle) (buffer : Buffer) : Reader where
  handle := some handle
  fd := handle.fd
  path := handle.path
  buffer := some buffer

/-- The reason why the stream gives nothing any more, if it does not. -/
def checkOpen (r : Reader) : Except VolumeError Unit :=
  if r.isClosed then .error (.streamClosed r.path) else .ok ()

/-- The first bytes that were read and not handed out yet, at most so many. -/
def peek (r : Reader) (limit : Nat) : ByteArray :=
  match r.buffer with
  | some buffer =>
    buffer.bytes.extract r.windowStart (min (r.windowStart + limit) r.windowEnd)
  | none => .empty

def advance (r : Reader) (count : Nat) : Reader :=
  { r with windowStart := r.windowStart + count, fileOffset := r.fileOffset + count }

/-- Moves to a position. The window is kept only if that is where the stream is already. -/
def seek (r : Reader) (position : Nat) : Except VolumeError Unit × Reader :=
  match r.checkOpen with
  | .error e => (.error e, r)
  | .ok () =>
    if position = r.fileOffset then (.ok (), r)
    else (.ok (), { r with fileOffset := position, windowStart := 0, windowEnd := 0 })

variable {σ : Type} [StoreClient σ]

/-- Makes sure that the window is not empty, by at most one call on the store. The answer is
`false` at the end of the file. -/
def fill (r : Reader) (s : σ) : Except VolumeError Bool × Reader × σ :=
  match r.checkOpen with
  | .error e => (.error e, r, s)
  | .ok () =>
    if r.windowStart < r.windowEnd then (.ok true, r, s)
    else
      match r.handle, r.buffer with
      | some handle, some buffer =>
        match StoreClient.read s handle.fd buffer.bytes r.fileOffset with
        | (.error code, bytes, s) =>
          (.error (.ofErrno code r.path), { r with buffer := some { buffer with bytes } }, s)
        | (.ok count, bytes, s) =>
          let r := { r with buffer := some { buffer with bytes } }
          if bytes.size < count then (.error (.store r.path .eio), r, s)
          else (.ok (0 < count), { r with windowStart := 0, windowEnd := count }, s)
      | _, _ => (.error (.streamClosed r.path), r, s)

def readByte (r : Reader) (s : σ) : Except VolumeError (Option UInt8) × Reader × σ :=
  match r.fill s with
  | (.error e, r, s) => (.error e, r, s)
  | (.ok false, r, s) => (.ok none, r, s)
  | (.ok true, r, s) => (.ok (r.peek 1)[0]?, r.advance 1, s)

/-- Puts the next bytes at the front of a destination. The answer is how many they are, or
nothing at the end of the file. An empty destination asks for nothing of the store. -/
def read (r : Reader) (s : σ) (dest : ByteArray) :
    Except VolumeError (Option Nat) × ByteArray × Reader × σ :=
  if dest.size = 0 then (r.checkOpen.map fun _ => some 0, dest, r, s)
  else
    match r.fill s with
    | (.error e, r, s) => (.error e, dest, r, s)
    | (.ok false, r, s) => (.ok none, dest, r, s)
    | (.ok true, r, s) =>
      let piece := r.peek dest.size
      (.ok (some piece.size), Bytes.overlay dest 0 piece, r.advance piece.size, s)

/-- Puts the next bytes into a range of a destination, which must lie within it. -/
def readInto (r : Reader) (s : σ) (dest : ByteArray) (offset length : Nat) :
    Except VolumeError (Option Nat) × ByteArray × Reader × σ :=
  if dest.size < offset + length then (.error (.store r.path .einval), dest, r, s)
  else
    let (result, piece, r, s) := r.read s (dest.extract offset (offset + length))
    (result, Bytes.overlay dest offset piece, r, s)

/-- Reads with a destination of the given bytes until the end of the file or a failure, at most
so many times. The answer is what was read, and how many bytes each time. -/
def readAll (r : Reader) (s : σ) (dest : ByteArray) :
    Nat → ByteArray → List Nat → Except VolumeError (ByteArray × List Nat) × Reader × σ
  | 0, taken, counts => (.ok (taken, counts.reverse), r, s)
  | times + 1, taken, counts =>
    match r.read s dest with
    | (.error e, _, r, s) => (.error e, r, s)
    | (.ok none, _, r, s) => (.ok (taken, counts.reverse), r, s)
    | (.ok (some count), piece, r, s) =>
      r.readAll s dest times (taken ++ piece.extract 0 count) (count :: counts)

/-- Closes the stream. The buffer is handed back for the pool it came from. Closing once more
does nothing. -/
def close (r : Reader) (s : σ) : Except VolumeError Unit × Option Buffer × Reader × σ :=
  if r.isClosed then (.ok (), none, r, s)
  else
    let closed :=
      { r with handle := none, buffer := none, windowStart := 0, windowEnd := 0, isClosed := true }
    match r.handle with
    | none => (.ok (), r.buffer, closed, s)
    | some handle =>
      match handle.close s with
      | (.ok (), s) => (.ok (), r.buffer, closed, s)
      | (.error code, s) => (.error (.closeFailed r.fd code), r.buffer, closed, s)

/-- Reads as a byte stream does: at the end of the file no bytes are read. -/
def streamRead (r : Reader) (s : σ) (dest : ByteArray) :
    Except StreamFailure Nat × ByteArray × Reader × σ :=
  let (result, dest, r, s) := r.read s dest
  ((result.mapError StreamFailure.ofVolume).map (·.getD 0), dest, r, s)

/-- The position from which a new one is counted. The end of the file is asked of the store. -/
def origin (r : Reader) (s : σ) : SeekOrigin → Except VolumeError Nat × σ
  | .start => (.ok 0, s)
  | .current => (.ok r.fileOffset, s)
  | .finish =>
    match r.handle with
    | none => (.error (.streamClosed r.path), s)
    | some _ =>
      match StoreClient.getAttr s r.path with
      | (.ok stat, s) => (.ok stat.size.toNat, s)
      | (.error code, s) => (.error (.ofErrno code r.path), s)

/-- Moves as a byte stream does. A position is a number of 64 bits; a move that leads out of that
range is refused and changes nothing. -/
def streamSeek (r : Reader) (s : σ) (whence : SeekOrigin) (distance : Int) :
    Except StreamFailure Nat × Reader × σ :=
  match r.origin s whence with
  | (.error e, s) => (.error (.ofVolume e), r, s)
  | (.ok base, s) =>
    let target := base + distance
    if target < 0 ∨ UInt64.size ≤ target then
      (.error ⟨.invalidInput, "invalid seek to a negative or overflowing position", none⟩, r, s)
    else
      let (result, r) := r.seek target.toNat
      ((result.mapError StreamFailure.ofVolume).map fun _ => target.toNat, r, s)

end Reader
end VolumeFs
