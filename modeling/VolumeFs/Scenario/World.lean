import VolumeFs.Store.Memory.Client
import VolumeFs.Store.Scripted
import VolumeFs.Volume.Tree

/-!
# Worlds

A world is one volume on a scripted store in memory, together with all that is alive on it:
streams, listings, handles and buffers, each under a name. The store of a world is reached in two
ways: past the script by whoever looks at the store itself, and through the script by all others.
-/

namespace VolumeFs.Scenario

abbrev WorldStore := Scripted Memory.Store

/-- Live objects by name. -/
abbrev Slots (α : Type) := List (String × α)

namespace Slots

variable {α : Type}

def get? (slots : Slots α) (name : String) : Option α := slots.lookup name

def erase (slots : Slots α) (name : String) : Slots α := slots.filter (·.1 ≠ name)

def set (slots : Slots α) (name : String) (value : α) : Slots α := (name, value) :: slots.erase name

end Slots

/-- Which pool the buffer of a read stream came from. -/
inductive BufferHome where
  | volume
  | spare
  deriving DecidableEq

/-- A volume, its store, and what is alive on them. -/
structure World where
  store : WorldStore
  volume : Volume
  /-- A pool that does not belong to the volume. -/
  pool : Pool
  /-- How many tokens for temporary names were used. -/
  tokens : Nat := 0
  outputs : Slots Output := []
  readers : Slots (Reader × BufferHome) := []
  listings : Slots Listing := []
  handles : Slots Handle := []
  buffers : Slots Buffer := []

/-- What an action answers. -/
inductive Answer where
  | nothing
  | truth (b : Bool)
  | number (n : Nat)
  | text (t : String)
  | bytes (bytes : ByteArray)
  | contents (bytes : Option ByteArray)
  | calls (calls : Memory.Calls)
  | descriptor (fd : Fd)
  | handle (h : Handle)
  /-- How many bytes were reported, and those of them that are in the buffer. -/
  | filled (count : Nat) (bytes : ByteArray)
  | filledOrEnd (read : Option (Nat × ByteArray))
  | filledWithin (count : Option Nat) (buffer : ByteArray)
  | wholeFile (bytes : ByteArray) (counts : List Nat)
  | nextByte (byte : Option UInt8)
  | stat (stat : Stat)
  | stats (stats : List Stat)
  | dirents (entries : List Dirent)
  | status (status : Status)
  | statuses (statuses : List Status)
  | listed (answers : List ListingAnswer)
  | client (same : Bool) (connects : Nat)
  | connection (isConnected : Bool) (connects : Nat)
  | settings (settings : Settings)
  | options (options : Options)
  | pool (pool : Pool)
  | capabilities (flush : Bool) (typeName : String) (blockSize : UInt64)
  | writerState (output : Output)
  | created (output : Output)
  | publication (temporaryPath finalPath : String)
  | target (path : String) (isAtomic : Bool)
  | opened (reader : Reader)
  | buffer (buffer : Buffer)
  | errno (code : Errno)
  | volumeError (error : VolumeError)
  | clientError (error : StoreError) (connects : Nat)
  | streamFailure (failure : StreamFailure)
  /-- There is nothing under the name, or nothing that the action fits. -/
  | noSlot

namespace Answer

variable {α : Type}

def ofCall (answer : α → Answer) : Except Errno α → Answer
  | .ok a => answer a
  | .error code => .errno code

def ofVolume (answer : α → Answer) : Except VolumeError α → Answer
  | .ok a => answer a
  | .error e => .volumeError e

def ofStream (answer : α → Answer) : Except StreamFailure α → Answer
  | .ok a => answer a
  | .error e => .streamFailure e

end Answer

/-- A buffer to read into, filled with a byte that is easily told from what is read. -/
def markedBuffer (size : Nat) : ByteArray := ⟨Array.replicate size 0xEE⟩

/-- What was read into a buffer, as far as it can be there. -/
def readPart (count : Nat) (buffer : ByteArray) : ByteArray := buffer.extract 0 count

namespace World

def startClock : Memory.Clock := ⟨1700000000, 0⟩

def start (session : Session) (options : Options) (identity : Identity) (poolConfig : PoolConfig) :
    Except VolumeError World :=
  match Volume.new session options identity with
  | .error e => .error e
  | .ok volume =>
    .ok { store := { store := .new startClock }, volume, pool := { config := poolConfig } }

/-- Changes the store itself, past the script. -/
def modifyStore (w : World) (change : Memory.Store → Memory.Store) : World :=
  { w with store.store := change w.store.store }

def tick (w : World) : World :=
  w.modifyStore fun s => { s with clock := s.clock.advance 1 1500000 }

/-- A token that was not used before. -/
def freshToken (w : World) : Token × World :=
  (⟨.ofNat 128 w.tokens⟩, { w with tokens := w.tokens + 1 })

def releaseBuffer (w : World) (home : BufferHome) (buffer : Buffer) : World :=
  match home with
  | .volume => { w with volume.pool := w.volume.pool.release buffer }
  | .spare => { w with pool := w.pool.release buffer }

def closeReader (w : World) (reader : Reader) (home : BufferHome) :
    Except VolumeError Unit × Reader × World :=
  let (result, buffer, reader, store) := reader.close w.store
  let w := { w with store }
  (result, reader, match buffer with
    | some buffer => w.releaseBuffer home buffer
    | none => w)

/-- Puts a write stream under a name. What was there before is let go of. -/
def putOutput (w : World) (name : String) (output : Output) : World :=
  let old := w.outputs.get? name
  let w := { w with outputs := w.outputs.set name output }
  match old with
  | some old => { w with store := old.drop w.store }
  | none => w

def putReader (w : World) (name : String) (reader : Reader) (home : BufferHome) : World :=
  let old := w.readers.get? name
  let w := { w with readers := w.readers.set name (reader, home) }
  match old with
  | some (old, home) => (w.closeReader old home).2.2
  | none => w

def putListing (w : World) (name : String) (listing : Listing) : World :=
  let old := w.listings.get? name
  let w := { w with listings := w.listings.set name listing }
  match old with
  | some old => { w with store := old.drop w.store }
  | none => w

def putHandle (w : World) (name : String) (handle : Handle) : World :=
  let old := w.handles.get? name
  let w := { w with handles := w.handles.set name handle }
  match old with
  | some old => { w with store := (old.close w.store).2 }
  | none => w

/-- Puts a buffer of the spare pool under a name. What was there before goes back to the pool. -/
def putBuffer (w : World) (name : String) (buffer : Buffer) : World :=
  let old := w.buffers.get? name
  let w := { w with buffers := w.buffers.set name buffer }
  match old with
  | some old => w.releaseBuffer .spare old
  | none => w

end World
end VolumeFs.Scenario
