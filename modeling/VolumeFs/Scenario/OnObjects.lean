import VolumeFs.Scenario.World

/-!
# Actions on live objects

Streams, listings, handles and buffers: how they are made without the volume, what they are asked
to do, and how they are let go of.
-/

namespace VolumeFs.Scenario

inductive ListingAction where
  | new (path : String) (batchSize : Nat) (into : String)
  | next (name : String) (count : Nat)
  | toList (name : String)
  | drop (name : String)

inductive HandleAction where
  | openPath (path : String) (flags : OpenFlags) (mode : UInt32) (into : String)
  | read (name : String) (length offset : Nat)
  | write (name : String) (bytes : ByteArray) (offset : Nat)
  | flush (name : String)
  | readdir (name : String) (limit : Nat)
  | batchGetAttr (name : String) (inodes : List UInt64)
  | fchmod (name : String) (mode : UInt32)
  | getAttr (name : String)
  | describe (name : String)
  | close (name : String)
  | drop (name : String)

inductive OutputAction where
  | new (path : String) (flags : OpenFlags) (mode : UInt32) (offset size : Nat) (into : String)
  /-- An atomic stream. Without a temporary path a fresh one is taken. -/
  | newAtomic (path : String) (temporaryPath : Option String) (size : Nat) (into : String)
  | writeByte (name : String) (byte : UInt8)
  | writeBytes (name : String) (bytes : ByteArray)
  /-- Only a direct stream takes ranges. -/
  | writeRange (name : String) (bytes : ByteArray) (offset length : Nat)
  | writeChunks (name : String) (bytes : ByteArray) (chunk : Nat)
  | flush (name : String)
  | close (name : String)
  /-- Only an atomic stream is given up. -/
  | abort (name : String)
  | drop (name : String)
  | streamWrite (name : String) (bytes : ByteArray)
  | streamFlush (name : String)
  | target (name : String)
  | describe (name : String)

inductive ReaderAction where
  | new (path : String) (flags : OpenFlags) (mode : UInt32) (size : Nat) (into : String)
  | readByte (name : String)
  | read (name : String) (length : Nat)
  | readAll (name : String) (length : Nat)
  | readInto (name : String) (size offset length : Nat)
  | seek (name : String) (position : Nat)
  | position (name : String)
  | streamRead (name : String) (length : Nat)
  | streamSeek (name : String) (whence : SeekOrigin) (distance : Int)
  | close (name : String)
  | drop (name : String)

inductive PoolAction where
  | acquire (size : Nat) (into : String)
  | fill (name : String) (byte : UInt8)
  | release (name : String)
  | clear
  | stats
  | describe
  | describeBuffer (name : String)

namespace World

variable {α : Type}

def nextResults (listing : Listing) (store : WorldStore) :
    Nat → List ListingAnswer × Listing × WorldStore
  | 0 => ([], listing, store)
  | count + 1 =>
    let steps := Listing.stepsFor (StoreClient.walkBound store)
    let (answer, listing, store) := listing.next store steps
    let (answers, listing, store) := nextResults listing store count
    (answer :: answers, listing, store)

def onListing (w : World) : ListingAction → Answer × World
  | .new path batchSize into =>
    (.nothing, w.putListing into
      (.new path batchSize w.volume.identity w.volume.options.blockSize))
  | .next name count =>
    match w.listings.get? name with
    | none => (.noSlot, w)
    | some listing =>
      let (answers, listing, store) := nextResults listing w.store count
      (.listed answers, { w with store, listings := w.listings.set name listing })
  | .toList name =>
    match w.listings.get? name with
    | none => (.noSlot, w)
    | some listing =>
      let steps := Listing.stepsFor (StoreClient.walkBound w.store)
      let (result, store) := listing.toList w.store steps
      (.ofVolume .statuses result, { w with store, listings := w.listings.erase name })
  | .drop name =>
    match w.listings.get? name with
    | none => (.noSlot, w)
    | some listing =>
      (.nothing, { w with store := listing.drop w.store, listings := w.listings.erase name })

def callHandle (w : World) (name : String)
    (call : Handle → WorldStore → Except Errno α × WorldStore) (answer : α → Answer) :
    Answer × World :=
  match w.handles.get? name with
  | none => (.noSlot, w)
  | some handle =>
    let (result, store) := call handle w.store
    (.ofCall answer result, { w with store })

def onHandle (w : World) : HandleAction → Answer × World
  | .openPath path flags mode into =>
    match Handle.openPath w.store path flags mode with
    | (.error code, store) => (.errno code, { w with store })
    | (.ok handle, store) => (.handle handle, { w with store }.putHandle into handle)
  | .read name length offset =>
    w.callHandle name
      (fun handle store =>
        let (result, buffer, store) :=
          StoreClient.read store handle.fd (markedBuffer length) offset
        (result.map fun count => (count, readPart count buffer), store))
      fun (count, bytes) => .filled count bytes
  | .write name bytes offset =>
    w.callHandle name (fun h s => StoreClient.write s h.fd bytes offset) .number
  | .flush name => w.callHandle name (fun h s => StoreClient.flush s h.fd) fun _ => .nothing
  | .readdir name limit =>
    w.callHandle name (fun h s => StoreClient.readdir s h.fd limit) .dirents
  | .batchGetAttr name inodes =>
    w.callHandle name (fun h s => StoreClient.batchGetAttr s h.fd inodes) .stats
  | .fchmod name mode =>
    w.callHandle name (fun h s => StoreClient.fchmod s h.fd mode) fun _ => .nothing
  | .getAttr name => w.callHandle name (fun h s => StoreClient.getAttr s h.path) .stat
  | .describe name => w.callHandle name (fun h s => (.ok h.described, s)) .text
  | .close name =>
    let (answer, w) := w.callHandle name Handle.close fun _ => .nothing
    (answer, { w with handles := w.handles.erase name })
  | .drop name =>
    match w.handles.get? name with
    | none => (.noSlot, w)
    | some handle =>
      (.nothing,
        { w with store := (handle.close w.store).2, handles := w.handles.erase name })

def useOutput (w : World) (name : String)
    (act : Output → WorldStore → Answer × Output × WorldStore) : Answer × World :=
  match w.outputs.get? name with
  | none => (.noSlot, w)
  | some output =>
    let (answer, output, store) := act output w.store
    (answer, { w with store, outputs := w.outputs.set name output })

def callOutput (w : World) (name : String)
    (act : Output → WorldStore → Except VolumeError α × Output × WorldStore)
    (answer : α → Answer) : Answer × World :=
  w.useOutput name fun output store =>
    let (result, output, store) := act output store
    (.ofVolume answer result, output, store)

def onOutput (w : World) : OutputAction → Answer × World
  | .new path flags mode offset size into =>
    match Handle.openPath w.store path flags mode with
    | (.error code, store) => (.errno code, { w with store })
    | (.ok handle, store) =>
      (.text path, { w with store }.putOutput into (.direct (.new handle offset size)))
  | .newAtomic path temporaryPath size into =>
    let (token, w) := w.freshToken
    let temporaryPath := temporaryPath.getD (token.temporaryPath path)
    match Handle.openPath w.store temporaryPath (.writeOnly ||| .create) 0o644 with
    | (.error code, store) => (.errno code, { w with store })
    | (.ok handle, store) =>
      let inner := Writer.new handle 0 size
      (.publication temporaryPath path,
        { w with store }.putOutput into (.atomic { inner, temporaryPath, finalPath := path }))
  | .writeByte name byte => w.callOutput name (·.writeByte · byte) fun _ => .nothing
  | .writeBytes name bytes => w.callOutput name (·.writeBytes · bytes) fun _ => .nothing
  | .writeRange name bytes offset length =>
    w.useOutput name fun output store =>
      match output with
      | .direct writer =>
        let (result, writer, store) := writer.writeRange store bytes offset length
        (.ofVolume (fun _ => .nothing) result, .direct writer, store)
      | .atomic _ => (.noSlot, output, store)
  | .writeChunks name bytes chunk =>
    w.callOutput name (fun o s => o.onWriter s (·.writeChunks · bytes chunk)) fun _ => .nothing
  | .flush name => w.callOutput name (·.flush ·) fun _ => .nothing
  | .close name => w.callOutput name (·.close ·) fun _ => .nothing
  | .abort name =>
    w.useOutput name fun output store =>
      match output with
      | .direct _ => (.noSlot, output, store)
      | .atomic writer =>
        let (result, writer, store) := writer.abort store
        (.ofVolume (fun _ => .nothing) result, .atomic writer, store)
  | .drop name =>
    match w.outputs.get? name with
    | none => (.noSlot, w)
    | some output =>
      (.nothing, { w with store := output.drop w.store, outputs := w.outputs.erase name })
  | .streamWrite name bytes =>
    w.useOutput name fun output store =>
      let (result, output, store) := output.streamWrite store bytes
      (.ofStream .number result, output, store)
  | .streamFlush name =>
    w.useOutput name fun output store =>
      let (result, output, store) := output.streamFlush store
      (.ofStream (fun _ => .nothing) result, output, store)
  | .target name =>
    w.useOutput name fun output store => (.target output.path output.isAtomic, output, store)
  | .describe name => w.useOutput name fun output store => (.text output.described, output, store)

def useReader (w : World) (name : String)
    (act : Reader → WorldStore → Answer × Reader × WorldStore) : Answer × World :=
  match w.readers.get? name with
  | none => (.noSlot, w)
  | some (reader, home) =>
    let (answer, reader, store) := act reader w.store
    (answer, { w with store, readers := w.readers.set name (reader, home) })

/-- How often a stream is read at most when all of it is asked for. -/
def readAllLimit : Nat := UInt32.size

def onReader (w : World) : ReaderAction → Answer × World
  | .new path flags mode size into =>
    match Handle.openPath w.store path flags mode with
    | (.error code, store) => (.errno code, { w with store })
    | (.ok handle, store) =>
      let (buffer, pool) := w.pool.acquire size
      (.text path, { w with store, pool }.putReader into (.new handle buffer) .spare)
  | .readByte name =>
    w.useReader name fun reader store =>
      let (result, reader, store) := reader.readByte store
      (.ofVolume .nextByte result, reader, store)
  | .read name length =>
    w.useReader name fun reader store =>
      let (result, buffer, reader, store) := reader.read store (markedBuffer length)
      (.ofVolume (fun count => .filledOrEnd (count.map fun n => (n, readPart n buffer))) result,
        reader, store)
  | .readAll name length =>
    w.useReader name fun reader store =>
      let (result, reader, store) :=
        reader.readAll store (markedBuffer length) readAllLimit .empty []
      (.ofVolume (fun (bytes, counts) => .wholeFile bytes counts) result, reader, store)
  | .readInto name size offset length =>
    w.useReader name fun reader store =>
      let (result, buffer, reader, store) :=
        reader.readInto store (markedBuffer size) offset length
      (.ofVolume (.filledWithin · buffer) result, reader, store)
  | .seek name position =>
    w.useReader name fun reader store =>
      let (result, reader) := reader.seek position
      (.ofVolume (fun _ => .nothing) result, reader, store)
  | .position name =>
    w.useReader name fun reader store => (.number reader.fileOffset, reader, store)
  | .streamRead name length =>
    w.useReader name fun reader store =>
      let (result, buffer, reader, store) := reader.streamRead store (markedBuffer length)
      (.ofStream (fun count => .filled count (readPart count buffer)) result, reader, store)
  | .streamSeek name whence distance =>
    w.useReader name fun reader store =>
      let (result, reader, store) := reader.streamSeek store whence distance
      (.ofStream .number result, reader, store)
  | .close name =>
    match w.readers.get? name with
    | none => (.noSlot, w)
    | some (reader, home) =>
      let (result, reader, w) := w.closeReader reader home
      (.ofVolume (fun _ => .nothing) result,
        { w with readers := w.readers.set name (reader, home) })
  | .drop name =>
    match w.readers.get? name with
    | none => (.noSlot, w)
    | some (reader, home) =>
      let (_, _, w) := w.closeReader reader home
      (.nothing, { w with readers := w.readers.erase name })

def onPool (w : World) : PoolAction → Answer × World
  | .acquire size into =>
    let (buffer, pool) := w.pool.acquire size
    (.buffer buffer, { w with pool }.putBuffer into buffer)
  | .fill name byte =>
    match w.buffers.get? name with
    | none => (.noSlot, w)
    | some buffer =>
      let bytes : ByteArray := ⟨Array.replicate buffer.size byte⟩
      (.bytes bytes, { w with buffers := w.buffers.set name { buffer with bytes } })
  | .release name =>
    match w.buffers.get? name with
    | none => (.noSlot, w)
    | some buffer =>
      (.nothing, { w with buffers := w.buffers.erase name }.releaseBuffer .spare buffer)
  | .clear => (.nothing, { w with pool := w.pool.clear })
  | .stats => (.nothing, w)
  | .describe => (.text w.pool.described, w)
  | .describeBuffer name =>
    match w.buffers.get? name with
    | none => (.noSlot, w)
    | some buffer => (.text buffer.described, w)

end World
end VolumeFs.Scenario
