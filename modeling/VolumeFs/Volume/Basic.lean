import VolumeFs.Creation
import VolumeFs.Listing
import VolumeFs.Session
import VolumeFs.Stream.Reader
import VolumeFs.Stream.Temporary

/-!
# Volumes

A volume joins a session, options and a pool of read buffers. Its operations take paths or
addresses, and work on the store that the session's client stands for. Here are the operations
that open streams and those that ask for the status of an entry.
-/

namespace VolumeFs

structure Volume where
  session : Session
  options : Options
  pool : Pool
  identity : Identity

namespace Volume

def scheme : String := "cubefs://"

def typeName : String := "cubefs"

/-- Write streams can make their bytes durable before they are closed. -/
def supportsFlush : Bool := true

/-- A volume on a session. The options must be usable. -/
def new (session : Session) (options : Options) (identity : Identity) :
    Except VolumeError Volume :=
  match options.validate with
  | .error e => .error e
  | .ok () => .ok { session, options, pool := { config := options.pool }, identity }

def described (v : Volume) : String :=
  Text.describedRecord "CubeFsUnderFileSystem"
    [("session", v.session.described), ("options", v.options.described),
      ("pool", v.pool.described)]

variable {σ α : Type}

/-- Works with the client of the session, which must be had first. -/
def withClient (v : Volume) (s : σ)
    (act : Volume → σ → Except VolumeError α × Volume × σ) : Except VolumeError α × Volume × σ :=
  match v.session.client with
  | (.error e, session) => (.error (.session e), { v with session }, s)
  | (.ok _, session) => act { v with session } s

variable [StoreClient σ]

/-- A stream into a new or emptied file. The bytes of an atomic one go to the temporary path of
the token until the stream is closed. -/
def create (v : Volume) (s : σ) (path : String) (options : CreateOptions) (token : Token) :
    Except VolumeError Output × Volume × σ :=
  let path := Path.ofText path
  let mode := options.mode.getD v.options.defaultFileMode
  let creation := Creation.ofOptions v.options
  v.withClient s fun v s =>
    if options.atomic then
      let temporaryPath := token.temporaryPath path
      match creation.create s temporaryPath mode with
      | (.error e, s) => (.error e, v, s)
      | (.ok inner, s) => (.ok (.atomic { inner, temporaryPath, finalPath := path }), v, s)
    else
      match creation.create s path mode with
      | (.error e, s) => (.error e, v, s)
      | (.ok writer, s) => (.ok (.direct writer), v, s)

/-- A stream from a file, with a buffer of the pool. -/
def openFile (v : Volume) (s : σ) (path : String) (options : OpenOptions) :
    Except VolumeError Reader × Volume × σ :=
  let path := Path.ofText path
  v.withClient s fun v s =>
    match Handle.openPath s path .readOnly 0 with
    | (.error code, s) => (.error (.ofErrno code path), v, s)
    | (.ok handle, s) =>
      let (buffer, pool) := v.pool.acquire v.options.readBufferSize
      let (sought, reader) := (Reader.new handle buffer).seek options.offset
      (sought.map fun _ => reader, { v with pool }, s)

/-- Closes a stream from a file and takes its buffer back into the pool. -/
def closeReader (v : Volume) (s : σ) (reader : Reader) :
    Except VolumeError Unit × Reader × Volume × σ :=
  match reader.close s with
  | (result, some buffer, reader, s) =>
    (result, reader, { v with pool := v.pool.release buffer }, s)
  | (result, none, reader, s) => (result, reader, v, s)

def stat (v : Volume) (s : σ) (path : String) : Except VolumeError Stat × Volume × σ :=
  v.withClient s fun v s =>
    match StoreClient.getAttr s path with
    | (.ok stat, s) => (.ok stat, v, s)
    | (.error code, s) => (.error (.ofErrno code path), v, s)

def stat? (v : Volume) (s : σ) (path : String) : Except VolumeError (Option Stat) × Volume × σ :=
  v.withClient s fun v s =>
    match StoreClient.getAttr s path with
    | (.ok stat, s) => (.ok (some stat), v, s)
    | (.error code, s) =>
      if code = .enoent then (.ok none, v, s) else (.error (.ofErrno code path), v, s)

def status (v : Volume) (s : σ) (path : String) : Except VolumeError Status × Volume × σ :=
  let path := Path.ofText path
  match v.stat s path with
  | (.error e, v, s) => (.error e, v, s)
  | (.ok stat, v, s) => (Status.ofStat path stat v.identity v.options.blockSize, v, s)

def fileStatus (v : Volume) (s : σ) (path : String) : Except VolumeError FileStatus × Volume × σ :=
  match v.status s path with
  | (.error e, v, s) => (.error e, v, s)
  | (.ok (.file status), v, s) => (.ok status, v, s)
  | (.ok (.directory status), v, s) => (.error (.isDirectory status.path), v, s)

def directoryStatus (v : Volume) (s : σ) (path : String) :
    Except VolumeError DirectoryStatus × Volume × σ :=
  match v.status s path with
  | (.error e, v, s) => (.error e, v, s)
  | (.ok (.directory status), v, s) => (.ok status, v, s)
  | (.ok (.file status), v, s) => (.error (.store status.path .enotdir), v, s)

/-- Whether the entry at a path is there and its attributes pass a test. -/
def holds (v : Volume) (s : σ) (path : String) (test : Stat → Bool) :
    Except VolumeError Bool × Volume × σ :=
  match v.stat? s (Path.ofText path) with
  | (.error e, v, s) => (.error e, v, s)
  | (.ok stat, v, s) => (.ok (stat.any test), v, s)

def exists? (v : Volume) (s : σ) (path : String) : Except VolumeError Bool × Volume × σ :=
  v.holds s path fun _ => true

def isFile (v : Volume) (s : σ) (path : String) : Except VolumeError Bool × Volume × σ :=
  v.holds s path Stat.isFile

def isDirectory (v : Volume) (s : σ) (path : String) : Except VolumeError Bool × Volume × σ :=
  v.holds s path Stat.isDirectory

/-- A listing of the entry, on which nothing was done yet. -/
def listing (v : Volume) (s : σ) (path : String) : Except VolumeError Listing × Volume × σ :=
  v.withClient s fun v s =>
    (.ok (.new (Path.ofText path) v.options.listBatchSize v.identity v.options.blockSize), v, s)

/-- The status of every entry of a directory; none for a file. -/
def list (v : Volume) (s : σ) (path : String) : Except VolumeError (List Status) × Volume × σ :=
  match v.listing s path with
  | (.error e, v, s) => (.error e, v, s)
  | (.ok listing, v, s) =>
    let (results, s) := listing.toList s (Listing.stepsFor (StoreClient.walkBound s))
    (results, v, s)

end Volume
end VolumeFs
