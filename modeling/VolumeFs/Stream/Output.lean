import VolumeFs.Stream.Atomic

/-!
# Output streams

A write stream is direct or atomic. Both take bytes in the same way; they differ in what closing
them does, and in what becomes of one that is let go of without being closed.
-/

namespace VolumeFs

inductive Output where
  | direct (writer : Writer)
  | atomic (writer : AtomicWriter)

/-- The failure that a byte stream reports: its kind, its wording, and the failure of the volume
behind it, if it comes from there. -/
structure StreamFailure where
  kind : FailureKind
  message : String
  cause : Option VolumeError := none

def StreamFailure.ofVolume (e : VolumeError) : StreamFailure := ⟨e.kind, e.message, some e⟩

namespace Output

/-- The stream that takes the bytes. -/
def writer : Output → Writer
  | direct w => w
  | atomic a => a.inner

def withWriter : Output → Writer → Output
  | direct _, w => direct w
  | atomic a, w => atomic { a with inner := w }

/-- The path at which the bytes will be found. -/
def path : Output → String
  | direct w => w.path
  | atomic a => a.finalPath

/-- Whether the file appears only when the stream is closed. -/
def isAtomic : Output → Bool
  | direct _ => false
  | atomic _ => true

/-- The position in the file after all bytes taken so far. -/
def position (o : Output) : Nat := o.writer.position

def described : Output → String
  | direct w => w.described
  | atomic a => a.described

variable {σ α : Type}

def onWriter (o : Output) (s : σ) (act : Writer → σ → Except VolumeError α × Writer × σ) :
    Except VolumeError α × Output × σ :=
  let (result, w, s) := act o.writer s
  (result, o.withWriter w, s)

variable [StoreClient σ]

def writeByte (o : Output) (s : σ) (byte : UInt8) : Except VolumeError Unit × Output × σ :=
  o.onWriter s (·.writeByte · byte)

def writeBytes (o : Output) (s : σ) (bytes : ByteArray) : Except VolumeError Unit × Output × σ :=
  o.onWriter s (·.writeBytes · bytes)

def flush (o : Output) (s : σ) : Except VolumeError Unit × Output × σ :=
  o.onWriter s (·.flush ·)

def close (o : Output) (s : σ) : Except VolumeError Unit × Output × σ :=
  match o with
  | direct w =>
    let (result, w, s) := w.close s
    (result, direct w, s)
  | atomic a =>
    let (result, a, s) := a.close s
    (result, atomic a, s)

/-- Lets go of the stream. A direct stream is closed; an atomic one that was not closed is given
up. Nobody hears of a failure. -/
def drop (o : Output) (s : σ) : σ :=
  match o with
  | direct w => (w.close s).2.2
  | atomic a => (a.abort s).2.2

/-- Takes some bytes as a byte stream does: the answer is how many were taken. -/
def streamWrite (o : Output) (s : σ) (bytes : ByteArray) : Except StreamFailure Nat × Output × σ :=
  let (result, o, s) := o.writeBytes s bytes
  ((result.mapError StreamFailure.ofVolume).map fun _ => bytes.size, o, s)

def streamFlush (o : Output) (s : σ) : Except StreamFailure Unit × Output × σ :=
  let (result, o, s) := o.flush s
  (result.mapError StreamFailure.ofVolume, o, s)

end Output
end VolumeFs
