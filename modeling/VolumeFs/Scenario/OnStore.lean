import VolumeFs.Scenario.World

/-!
# Actions on the store itself

Setting the store up, looking at it, and calling it past the script as another client would.
-/

namespace VolumeFs.Scenario

inductive StoreAction where
  | setClock (sec : Int) (nsec : Nat)
  | setScript (script : Script)
  | putFile (path : String) (bytes : ByteArray)
  | putDirectory (path : String)
  /-- Puts as many files, named by the stem and four digits. -/
  | putMany (stem : String) (count : Nat) (bytes : ByteArray)
  | setFaults (faults : Memory.Faults)
  | resetCalls
  | shutdown
  | contents (path : String)
  | contains (path : String)
  | isShutDown
  | calls
  | openPath (path : String) (flags : OpenFlags) (mode : UInt32)
  | read (fd : Fd) (length offset : Nat)
  | write (fd : Fd) (bytes : ByteArray) (offset : Nat)
  | flush (fd : Fd)
  | close (fd : Fd)
  | getAttr (path : String)
  | mkdirs (path : String) (mode : UInt32)
  | unlink (path : String)
  | rmdir (path : String)
  | rename (source target : String)
  | readdir (fd : Fd) (limit : Nat)
  | batchGetAttr (fd : Fd) (inodes : List UInt64)
  | fchmod (fd : Fd) (mode : UInt32)

namespace World

/-- Calls the store past the script. -/
def callStore {α : Type} (w : World) (call : Memory.Store → Except Errno α × Memory.Store)
    (answer : α → Answer) : Answer × World :=
  let (result, store) := call w.store.store
  (.ofCall answer result, { w with store.store := store })

def onStore (w : World) : StoreAction → Answer × World
  | .setClock sec nsec => (.nothing, w.modifyStore fun s => { s with clock := ⟨sec, nsec⟩ })
  | .setScript script => (.nothing, { w with store.script := script })
  | .putFile path bytes => (.nothing, w.modifyStore (·.putFile path bytes))
  | .putDirectory path => (.nothing, w.modifyStore (·.putDirectory path))
  | .putMany stem count bytes =>
    (.nothing, w.modifyStore fun s => (List.range count).foldl
      (fun s k => s.putFile (stem ++ Radix.padded 10 4 k) bytes) s)
  | .setFaults faults => (.nothing, w.modifyStore fun s => { s with faults })
  | .resetCalls => (.nothing, w.modifyStore fun s => { s with calls := {} })
  | .shutdown => (.nothing, w.modifyStore (·.shutdown))
  | .contents path => (.contents (w.store.store.contents? path), w)
  | .contains path => (.truth (w.store.store.contains path), w)
  | .isShutDown => (.truth w.store.store.isShutDown, w)
  | .calls => (.calls w.store.store.calls, w)
  | .openPath path flags mode => w.callStore (·.openPath path flags mode) .descriptor
  | .read fd length offset =>
    let (result, buffer, store) := w.store.store.read fd (markedBuffer length) offset
    (.ofCall (fun count => .filled count (readPart count buffer)) result,
      { w with store.store := store })
  | .write fd bytes offset => w.callStore (·.write fd bytes offset) .number
  | .flush fd => w.callStore (·.flush fd) fun _ => .nothing
  | .close fd => w.callStore (·.close fd) fun _ => .nothing
  | .getAttr path => w.callStore (·.getAttr path) .stat
  | .mkdirs path mode => w.callStore (·.mkdirs path mode) fun _ => .nothing
  | .unlink path => w.callStore (·.unlink path) fun _ => .nothing
  | .rmdir path => w.callStore (·.rmdir path) fun _ => .nothing
  | .rename source target => w.callStore (·.rename source target) fun _ => .nothing
  | .readdir fd limit => w.callStore (·.readdir fd limit) .dirents
  | .batchGetAttr fd inodes => w.callStore (·.batchGetAttr fd inodes) .stats
  | .fchmod fd mode => w.callStore (·.fchmod fd mode) fun _ => .nothing

end World
end VolumeFs.Scenario
