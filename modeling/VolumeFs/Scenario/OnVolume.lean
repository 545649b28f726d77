import VolumeFs.Scenario.World

/-!
# Actions on the session and the volume

The operations of a volume by themselves. Those that give a live object put it under a name.
-/

namespace VolumeFs.Scenario

inductive SessionAction where
  | client
  | isConnected
  | shutdown
  | settings
  | describe

inductive VolumeAction where
  | create (path : String) (options : CreateOptions) (into : String)
  | openFile (path : String) (options : OpenOptions) (into : String)
  | status (path : String)
  | fileStatus (path : String)
  | directoryStatus (path : String)
  | exists (path : String)
  | isFile (path : String)
  | isDirectory (path : String)
  | list (path : String)
  | listing (path : String) (into : String)
  | mkdirs (path : String) (options : MkdirsOptions)
  | deleteFile (path : String)
  | deleteDirectory (path : String) (options : DeleteOptions)
  | renameFile (source target : String)
  | renameDirectory (source target : String)
  | setMode (path : String) (mode : UInt32)
  | setOwner (path : String) (user group : Option String)
  | close
  | capabilities (path : String)
  | options
  | pool
  | describe
  | isConnected
  /-- Creates a file at the path as it is given, without the help of the volume's session. -/
  | createAt (path : String) (mode : UInt32) (into : String)

namespace World

def onSession (w : World) : SessionAction → Answer × World
  | .client =>
    match w.volume.session.client with
    | (.error e, session) => (.clientError e session.connects, { w with volume.session := session })
    | (.ok first, session) =>
      let (second, session) := session.client
      (.client (second.toOption = some first) session.connects,
        { w with volume.session := session })
  | .isConnected =>
    (.connection w.volume.session.isConnected w.volume.session.connects, w)
  | .shutdown =>
    let (client, session) := w.volume.session.shutdown
    let w := { w with volume.session := session }
    (.nothing, match client with
      | some _ => { w with store := StoreClient.shutdown w.store }
      | none => w)
  | .settings => (.settings w.volume.session.settings, w)
  | .describe => (.text w.volume.session.described, w)

def callVolume {α : Type} (w : World)
    (operation : Volume → WorldStore → Except VolumeError α × Volume × WorldStore)
    (answer : α → Answer) : Answer × World :=
  let (result, volume, store) := operation w.volume w.store
  (.ofVolume answer result, { w with volume, store })

def onVolume (w : World) : VolumeAction → Answer × World
  | .create path options into =>
    let (token, w) := w.freshToken
    match w.volume.create w.store path options token with
    | (.error e, volume, store) => (.volumeError e, { w with volume, store })
    | (.ok output, volume, store) =>
      (.created output, { w with volume, store }.putOutput into output)
  | .openFile path options into =>
    match w.volume.openFile w.store path options with
    | (.error e, volume, store) => (.volumeError e, { w with volume, store })
    | (.ok reader, volume, store) =>
      (.opened reader, { w with volume, store }.putReader into reader .volume)
  | .status path => w.callVolume (·.status · path) .status
  | .fileStatus path => w.callVolume (·.fileStatus · path) fun s => .status (.file s)
  | .directoryStatus path =>
    w.callVolume (·.directoryStatus · path) fun s => .status (.directory s)
  | .exists path => w.callVolume (·.exists? · path) .truth
  | .isFile path => w.callVolume (·.isFile · path) .truth
  | .isDirectory path => w.callVolume (·.isDirectory · path) .truth
  | .list path => w.callVolume (·.list · path) .statuses
  | .listing path into =>
    match w.volume.listing w.store path with
    | (.error e, volume, store) => (.volumeError e, { w with volume, store })
    | (.ok listing, volume, store) =>
      (.text listing.path, { w with volume, store }.putListing into listing)
  | .mkdirs path options => w.callVolume (·.mkdirs · path options) .truth
  | .deleteFile path => w.callVolume (·.deleteFile · path) .truth
  | .deleteDirectory path options => w.callVolume (·.deleteDirectory · path options) .truth
  | .renameFile source target => w.callVolume (·.renameFile · source target) .truth
  | .renameDirectory source target => w.callVolume (·.renameDirectory · source target) .truth
  | .setMode path mode => w.callVolume (·.setMode · path mode) fun _ => .nothing
  | .setOwner path user group =>
    w.callVolume (·.setOwner · path user group) fun _ => .nothing
  | .close =>
    let (volume, store) := w.volume.close w.store
    (.nothing, { w with volume, store })
  | .capabilities _ =>
    (.capabilities Volume.supportsFlush Volume.typeName w.volume.options.blockSize, w)
  | .options => (.options w.volume.options, w)
  | .pool => (.pool w.volume.pool, w)
  | .describe => (.text w.volume.described, w)
  | .isConnected => (.truth w.volume.session.isConnected, w)
  | .createAt path mode into =>
    match (Creation.ofOptions w.volume.options).create w.store path mode with
    | (.error e, store) => (.volumeError e, { w with store })
    | (.ok writer, store) =>
      (.writerState (.direct writer), { w with store }.putOutput into (.direct writer))

end World
end VolumeFs.Scenario
