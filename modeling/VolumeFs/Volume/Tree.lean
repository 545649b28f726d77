import VolumeFs.Volume.Basic

/-!
# Changes of the tree

The operations of a volume that make, remove and move entries or change their mode, and the one
that ends the session. Making directories and removing files are tried several times; whatever
stands in their way in the end is not an error but the answer `false`.
-/

namespace VolumeFs.Volume

variable {σ : Type}

/-- Carries out a call, and again after failures that are not final, at most so many times. -/
def retrying (call : σ → Except Errno Unit × σ) (isFinal : Errno → Bool) (retries : Nat) (s : σ) :
    Except Errno Unit × σ :=
  match call s with
  | (.ok (), s) => (.ok (), s)
  | (.error code, s) =>
    if isFinal code then (.error code, s)
    else
      match retries with
      | 0 => (.error code, s)
      | retries + 1 => retrying call isFinal retries s

/-- Does something with each of the paths. The first failure, or the first `false`, ends it. -/
def onEach (act : Volume → σ → String → Except VolumeError Bool × Volume × σ) (v : Volume) (s : σ) :
    List String → Except VolumeError Bool × Volume × σ
  | [] => (.ok true, v, s)
  | path :: paths =>
    match act v s path with
    | (.ok true, v, s) => onEach act v s paths
    | (.ok false, v, s) => (.ok false, v, s)
    | (.error e, v, s) => (.error e, v, s)

variable [StoreClient σ]

def parentIsDirectory (v : Volume) (s : σ) (path : String) : Except VolumeError Bool × Volume × σ :=
  match Path.parent path with
  | .error e => (.error (.path e), v, s)
  | .ok parent => v.isDirectory s parent

/-- Makes the directory at a path once all checks have passed. -/
def makeDirectory (v : Volume) (s : σ) (path : String) (mode : UInt32) :
    Except VolumeError Bool × Volume × σ :=
  v.withClient s fun v s =>
    let (made, s) := retrying (StoreClient.mkdirs · path mode) (· = .eexist)
      v.options.metadataRetry.retries s
    (.ok made.isOk, v, s)

/-- Makes a directory, and all that lead to it unless that is ruled out. The answer is whether
it was made. -/
def mkdirs (v : Volume) (s : σ) (path : String) (options : MkdirsOptions) :
    Except VolumeError Bool × Volume × σ :=
  let path := Path.ofText path
  let mode := options.mode.getD v.options.defaultDirMode
  match v.exists? s path with
  | (.error e, v, s) => (.error e, v, s)
  | (.ok true, v, s) => (.ok false, v, s)
  | (.ok false, v, s) =>
    if options.createParent then v.makeDirectory s path mode
    else
      match v.parentIsDirectory s path with
      | (.error e, v, s) => (.error e, v, s)
      | (.ok false, v, s) => (.ok false, v, s)
      | (.ok true, v, s) => v.makeDirectory s path mode

/-- Removes a file. The answer is whether it was removed. -/
def deleteFile (v : Volume) (s : σ) (path : String) : Except VolumeError Bool × Volume × σ :=
  let path := Path.ofText path
  v.withClient s fun v s =>
    let (deleted, s) := retrying (StoreClient.unlink · path)
      (fun code => code = .enoent || code = .eisdir) v.options.metadataRetry.retries s
    (.ok deleted.isOk, v, s)

def deleteEmptied (v : Volume) (s : σ) (path : String) : Except VolumeError Bool × Volume × σ :=
  match StoreClient.rmdir s path with
  | (.ok (), s) => (.ok true, v, s)
  | (.error code, s) =>
    if code = .enoent then (.ok false, v, s) else (.error (.ofErrno code path), v, s)

/-- Removes the entry at a path with all that is below it, down to a given depth. A directory
that holds something is left alone unless all of it may go. The answer is `false` as soon as an
entry turns out to be gone already. -/
def deleteTree (recursive : Bool) :
    Nat → Volume → σ → String → Except VolumeError Bool × Volume × σ
  | 0, v, s, path => (.error (.unfinished path), v, s)
  | depth + 1, v, s, path =>
    match StoreClient.unlink s path with
    | (.ok (), s) => (.ok true, v, s)
    | (.error code, s) =>
      if code = .enoent then (.ok false, v, s)
      else if code ≠ .eisdir then (.error (.ofErrno code path), v, s)
      else
        match v.list s path with
        | (.error e, v, s) => if e.isNotFound then (.ok false, v, s) else (.error e, v, s)
        | (.ok children, v, s) =>
          if !recursive && !children.isEmpty then (.error (.directoryNotEmpty path), v, s)
          else
            match onEach (deleteTree recursive depth) v s (children.map Status.path) with
            | (.ok true, v, s) => v.deleteEmptied s path
            | (.ok false, v, s) => (.ok false, v, s)
            | (.error e, v, s) => (.error e, v, s)

/-- A depth that suffices under a bound for walks. Names such as `..` can lead from an entry back to
a directory above it. A descent that comes to a path for the second time while nothing was removed
goes on for ever, unless a call fails; so there are at most as many levels as paths from one
removal to the next. -/
def depthFor (bound : Nat) : Nat := (bound + 1) * (bound + 1)

def deleteDirectory (v : Volume) (s : σ) (path : String) (options : DeleteOptions) :
    Except VolumeError Bool × Volume × σ :=
  v.withClient s fun v s =>
    deleteTree options.recursive (depthFor (StoreClient.walkBound s)) v s (Path.ofText path)

/-- Moves an entry. The answer is `false` if there is none, or one at the target already. -/
def rename (v : Volume) (s : σ) (source target : String) : Except VolumeError Bool × Volume × σ :=
  let source := Path.ofText source
  v.withClient s fun v s =>
    match StoreClient.rename s source (Path.ofText target) with
    | (.ok (), s) => (.ok true, v, s)
    | (.error code, s) =>
      if code = .enoent || code = .eexist then (.ok false, v, s)
      else (.error (.ofErrno code source), v, s)

def renameFile (v : Volume) (s : σ) (source target : String) :
    Except VolumeError Bool × Volume × σ :=
  match v.isFile s source with
  | (.ok true, v, s) => v.rename s source target
  | (.ok false, v, s) => (.ok false, v, s)
  | (.error e, v, s) => (.error e, v, s)

def renameDirectory (v : Volume) (s : σ) (source target : String) :
    Except VolumeError Bool × Volume × σ :=
  match v.isDirectory s source with
  | (.ok true, v, s) => v.rename s source target
  | (.ok false, v, s) => (.ok false, v, s)
  | (.error e, v, s) => (.error e, v, s)

def setMode (v : Volume) (s : σ) (path : String) (mode : UInt32) :
    Except VolumeError Unit × Volume × σ :=
  let path := Path.ofText path
  v.withClient s fun v s =>
    match Handle.openPath s path .readOnly 0 with
    | (.error code, s) => (.error (.ofErrno code path), v, s)
    | (.ok handle, s) =>
      let (changed, s) := StoreClient.fchmod s handle.fd mode
      let (closed, s) := handle.close s
      (VolumeError.combine (changed.mapError (.ofErrno · path))
        (closed.mapError (.closeFailed handle.fd ·)), v, s)

/-- Sets the owner of an entry: stores keep none, so nothing is done. -/
def setOwner (v : Volume) (s : σ) (_path : String) (_user _group : Option String) :
    Except VolumeError Unit × Volume × σ :=
  (.ok (), v, s)

/-- Ends the session. A client that it held is shut down. -/
def close (v : Volume) (s : σ) : Volume × σ :=
  let (client, session) := v.session.shutdown
  ({ v with pool := v.pool.clear, session },
    match client with
    | some _ => StoreClient.shutdown s
    | none => s)

end VolumeFs.Volume
