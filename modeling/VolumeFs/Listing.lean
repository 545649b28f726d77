import VolumeFs.Handle
import VolumeFs.Status

/-!
# Listings

A listing walks through a directory in batches: it asks for some entries, then for the attributes
of all of them at once, and hands the results out one by one. It opens the directory only when
the first result is asked for, and gives the descriptor back as soon as the end is known or a
call has failed. Walking is bounded by a number of steps; one step is one exchange with the store.
-/

namespace VolumeFs

inductive ListingState where
  | idle
  | awaitingBatch (handle : Handle)
  | resolving (handle : Handle) (entries : List Dirent)
  | done
  | failed

structure Listing where
  path : String
  batchSize : Nat
  identity : Identity
  blockSize : UInt64
  state : ListingState := .idle
  /-- The results that were not handed out yet. -/
  ready : List Status := []

/-- What a listing answers when it is asked for its next result. -/
inductive ListingAnswer where
  | item (status : Status)
  | failed (error : VolumeError)
  | finished
  /-- The steps ran out. The listing goes on where it stopped. -/
  | pending

namespace ListingState

/-- The descriptor that is held in this state. -/
def handle? : ListingState → Option Handle
  | awaitingBatch handle => some handle
  | resolving handle _ => some handle
  | _ => none

def isFinal : ListingState → Bool
  | done => true
  | failed => true
  | _ => false

end ListingState

namespace Listing

/-- A listing of the entry at a path. A batch has at least one entry. -/
def new (path : String) (batchSize : Nat) (identity : Identity) (blockSize : UInt64) : Listing :=
  { path, batchSize := max batchSize 1, identity, blockSize }

def openMode : UInt32 := 0o777

/-- The name that a batch has for an inode. Of several entries with one inode the last counts. -/
def nameOf? (entries : List Dirent) (ino : UInt64) : Option String :=
  (entries.reverse.find? (·.ino = ino)).map Dirent.name

/-- The results of a batch, in the order of the attributes. Attributes of an inode that was not
asked for, and entries that are neither files nor directories, are passed over. -/
def classify (l : Listing) (entries : List Dirent) (stats : List Stat) : List Status :=
  stats.filterMap fun stat => do
    let name ← nameOf? entries stat.ino
    Status.ofStat? (Path.join l.path name) stat l.identity l.blockSize

variable {σ : Type} [StoreClient σ]

/-- Opens the directory. A file is listed without being opened. -/
def start (l : Listing) (s : σ) : Except VolumeError (Option Handle) × σ :=
  match StoreClient.getAttr s l.path with
  | (.error code, s) => (.error (.ofErrno code l.path), s)
  | (.ok stat, s) =>
    if stat.isFile then (.ok none, s)
    else
      match Handle.openPath s l.path .readOnly openMode with
      | (.error code, s) => (.error (.ofErrno code l.path), s)
      | (.ok handle, s) => (.ok (some handle), s)

/-- Ends the listing after a failure and gives the descriptor back. -/
def fail (l : Listing) (s : σ) (handle : Handle) (error : VolumeError) :
    Option VolumeError × Listing × σ :=
  let l := { l with state := .failed }
  match handle.close s with
  | (.ok (), s) => (some error, l, s)
  | (.error code, s) => (some (error.withCleanup (.closeFailed handle.fd code)), l, s)

/-- Ends the listing after the last batch and gives the descriptor back. -/
def finish (l : Listing) (s : σ) (handle : Handle) : Option VolumeError × Listing × σ :=
  let l := { l with state := .done }
  match handle.close s with
  | (.ok (), s) => (none, l, s)
  | (.error code, s) => (some (.closeFailed handle.fd code), l, s)

/-- Goes one step further. The answer is the failure, if there was one. -/
def step (l : Listing) (s : σ) : Option VolumeError × Listing × σ :=
  match l.state with
  | .idle =>
    match l.start s with
    | (.error e, s) => (some e, { l with state := .failed }, s)
    | (.ok (some handle), s) => (none, { l with state := .awaitingBatch handle }, s)
    | (.ok none, s) => (none, { l with state := .done }, s)
  | .awaitingBatch handle =>
    match StoreClient.readdir s handle.fd l.batchSize with
    | (.error code, s) => l.fail s handle (.readdirFailed l.path code)
    | (.ok [], s) => l.finish s handle
    | (.ok entries, s) => (none, { l with state := .resolving handle entries }, s)
  | .resolving handle entries =>
    match StoreClient.batchGetAttr s handle.fd (entries.map (·.ino)) with
    | (.error code, s) => l.fail s handle (.batchGetAttrFailed l.path code)
    | (.ok stats, s) =>
      let l := { l with ready := l.ready ++ l.classify entries stats }
      if entries.length < l.batchSize then l.finish s handle
      else (none, { l with state := .awaitingBatch handle }, s)
  | .done => (none, l, s)
  | .failed => (none, l, s)

/-- Ends the listing. Results that were not handed out are lost. -/
def giveUp (l : Listing) : Listing := { l with state := .failed, ready := [] }

/-- The next result, after at most so many steps. -/
def next (l : Listing) (s : σ) (steps : Nat) : ListingAnswer × Listing × σ :=
  match l.ready with
  | status :: ready => (.item status, { l with ready }, s)
  | [] =>
    if l.state.isFinal then (.finished, l, s)
    else
      match steps with
      | 0 => (.pending, l, s)
      | steps + 1 =>
        match l.step s with
        | (some e, l, s) => (.failed e, l.giveUp, s)
        | (none, l, s) => next l s steps

/-- All results in front of which the given ones come, after at most so many steps. The first
failure is the answer in place of any results. -/
def drain (l : Listing) (s : σ) (steps : Nat) (results : List Status) :
    Except VolumeError (List Status) × Listing × σ :=
  let results := results ++ l.ready
  let l := { l with ready := [] }
  if l.state.isFinal then (.ok results, l, s)
  else
    match steps with
    | 0 => (.error (.unfinished l.path), l, s)
    | steps + 1 =>
      match l.step s with
      | (some e, l, s) => (.error e, l.giveUp, s)
      | (none, l, s) => drain l s steps results

/-- Lets go of a listing. A descriptor that it still holds is given back. -/
def drop (l : Listing) (s : σ) : σ :=
  match l.state.handle? with
  | some handle => (handle.close s).2
  | none => s

def toList (l : Listing) (s : σ) (steps : Nat) : Except VolumeError (List Status) × σ :=
  let (results, l, s) := l.drain s steps []
  (results, l.drop s)

/-- Steps that suffice under a bound for walks, whatever the size of the batches: one to open the
directory, two for each batch, and one to see that nothing is left. A name that does not fit into
an entry can stand for a place before itself. A walk that comes to a place for the second time goes
on for ever, unless a call fails; so there are at most as many batches as places. -/
def stepsFor (bound : Nat) : Nat := 2 * bound + 2

end Listing
end VolumeFs
