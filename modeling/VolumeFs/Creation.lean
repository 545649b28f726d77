import VolumeFs.Options
import VolumeFs.Stream.Writer

/-!
# Creation of files

A file is opened for writing, created if it is missing and emptied if it is not. Where its parent
is missing, the parent is made and the file is tried again; whether making the parent worked out
is only seen in the next attempt.
-/

namespace VolumeFs

/-- How files are created. -/
structure Creation where
  retry : CreateRetry
  directoryMode : UInt32
  bufferSize : Nat

namespace Creation

def ofOptions (o : Options) : Creation :=
  ⟨o.createRetry, o.defaultDirMode, o.effectiveWriteBufferSize⟩

/-- What a file is opened for when it is created. -/
def flags : OpenFlags := .writeOnly ||| .create ||| .truncate

variable {σ : Type} [StoreClient σ]

/-- Opens the file, with at most so many attempts after the first one. -/
def openFile (c : Creation) (path : String) (mode : UInt32) (retries : Nat) (s : σ) :
    Except VolumeError Handle × σ :=
  match Handle.openPath s path flags mode with
  | (.ok handle, s) => (.ok handle, s)
  | (.error code, s) =>
    if code ≠ .enoent then (.error (.ofErrno code path), s)
    else
      match retries with
      | 0 => (.error (.notFound path), s)
      | retries + 1 =>
        match Path.parent path with
        | .error e => (.error (.path e), s)
        | .ok parent =>
          openFile c path mode retries (StoreClient.mkdirs s parent c.directoryMode).2

/-- A stream into a new or emptied file. -/
def create (c : Creation) (s : σ) (path : String) (mode : UInt32) :
    Except VolumeError Writer × σ :=
  match c.openFile path mode (c.retry.limit - 1) s with
  | (.ok handle, s) => (.ok (.new handle 0 c.bufferSize), s)
  | (.error e, s) => (.error e, s)

end Creation
end VolumeFs
