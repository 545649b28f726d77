import VolumeFs.Stream.Writer

/-!
# Atomic write streams

The bytes go to a temporary path. When the stream is closed without a failure the file is moved
to its final path, replacing a file that is there; in all other cases the temporary file is
removed.
-/

namespace VolumeFs

/-- A stream whose file appears at its path as a whole or not at all. -/
structure AtomicWriter where
  inner : Writer
  temporaryPath : String
  finalPath : String
  /-- Whether the stream was closed or given up. -/
  isFinished : Bool := false

namespace AtomicWriter

def described (a : AtomicWriter) : String :=
  Text.describedRecord "AtomicWriteStream"
    [("inner", a.inner.described), ("temporary_path", Text.quoted a.temporaryPath),
      ("final_path", Text.quoted a.finalPath), ("finished", Text.describedBool a.isFinished)]

variable {σ : Type} [StoreClient σ]

/-- Removes the temporary file, if it is still there. -/
def removeTemporary (a : AtomicWriter) (s : σ) : Except VolumeError Unit × σ :=
  match StoreClient.unlink s a.temporaryPath with
  | (.ok (), s) => (.ok (), s)
  | (.error code, s) =>
    if code = .enoent then (.ok (), s) else (.error (.ofErrno code a.temporaryPath), s)

def moveIntoPlace (a : AtomicWriter) (s : σ) : Except Errno Unit × σ :=
  StoreClient.rename s a.temporaryPath a.finalPath

/-- Moves the temporary file to the final path, and if there is a file in the way, removes that
one and tries once more. -/
def publish (a : AtomicWriter) (s : σ) : Except VolumeError Unit × σ :=
  let failed (code : Errno) : Except VolumeError Unit := .error (.ofErrno code a.finalPath)
  match a.moveIntoPlace s with
  | (.ok (), s) => (.ok (), s)
  | (.error code, s) =>
    if code ≠ .eexist then (failed code, s)
    else
      match StoreClient.unlink s a.finalPath with
      | (.error code, s) => (failed code, s)
      | (.ok (), s) =>
        match a.moveIntoPlace s with
        | (.ok (), s) => (.ok (), s)
        | (.error code, s) => (failed code, s)

/-- Removes the temporary file after a failure, whose report may grow by that of the removal. -/
def discard (a : AtomicWriter) (s : σ) (failure : VolumeError) : VolumeError × σ :=
  match a.removeTemporary s with
  | (.ok (), s) => (failure, s)
  | (.error cleanup, s) => (failure.withCleanup cleanup, s)

/-- Closes the stream and publishes its file. Closing once more does nothing. -/
def close (a : AtomicWriter) (s : σ) : Except VolumeError Unit × AtomicWriter × σ :=
  if a.isFinished then (.ok (), a, s)
  else
    let (closed, inner, s) := a.inner.close s
    let a := { a with inner, isFinished := true }
    match closed with
    | .error e =>
      let (e, s) := a.discard s e
      (.error e, a, s)
    | .ok () =>
      match a.publish s with
      | (.ok (), s) => (.ok (), a, s)
      | (.error e, s) =>
        let (e, s) := a.discard s e
        (.error e, a, s)

/-- Gives the stream up and removes its file. -/
def abort (a : AtomicWriter) (s : σ) : Except VolumeError Unit × AtomicWriter × σ :=
  if a.isFinished then (.ok (), a, s)
  else
    let (closed, inner, s) := a.inner.close s
    let a := { a with inner, isFinished := true }
    let (removed, s) := a.removeTemporary s
    (VolumeError.combine closed removed, a, s)

end AtomicWriter
end VolumeFs
