import VolumeFs.Proofs.Scenario.Descriptors
import VolumeFs.Proofs.Volume.Sessions

/-!
# Closed sessions in a scenario

Of all actions only those on the session and the volume change the session, and a session that was
closed is never opened again. The operations of its volume are refused then. In a world in which no
stream and no listing is alive either, nobody reaches the store any more.
-/

namespace VolumeFs.Scenario

open Memory

/-- An operation of a volume that works with the client of its session. -/
def VolumeAction.NeedsClient : VolumeAction → Prop
  | close => False
  | setOwner .. => False
  | capabilities _ => False
  | options => False
  | pool => False
  | describe => False
  | isConnected => False
  | createAt .. => False
  | _ => True

/-- An action that makes a stream or a listing past the volume, on a client that was had before. -/
def Action.TakesClient : Action → Prop
  | volume (.createAt ..) => True
  | listing (.new ..) => True
  | output (.new ..) => True
  | output (.newAtomic ..) => True
  | reader (.new ..) => True
  | _ => False

def Action.EndsSession : Action → Prop
  | session .shutdown => True
  | volume .close => True
  | _ => False

/-- An action on the volume, its session, or a stream or listing, and not past them on the store.
The faults of the store may change. -/
def Action.Uses : Action → Prop
  | store (.setClock ..) => True
  | store (.setScript _) => True
  | store (.setFaults _) => True
  | store _ => False
  | handle _ => False
  | _ => True

theorem Action.Uses.spares {action : Action} (h : action.Uses) : action.Spares := by
  cases action with
  | store action => cases action <;> trivial
  | handle => exact h.elim
  | _ => trivial

namespace World

variable {w : World}

structure IsBare (w : World) : Prop where
  outputs : w.outputs = []
  readers : w.readers = []
  listings : w.listings = []

/-- A volume that was closed refuses whatever needs the client, and the store hears nothing. -/
theorem onVolume_of_closed (h : w.volume.session.state = .closed) {action : VolumeAction}
    (haction : action.NeedsClient) :
    (w.onVolume action).1 = .volumeError (.session .sessionClosed) ∧
      (w.onVolume action).2.store = w.store ∧ (w.onVolume action).2.volume = w.volume := by
  have hclient {α : Type} (s : WorldStore)
      (act : Volume → WorldStore → Except VolumeError α × Volume × WorldStore) :
      w.volume.withClient s act = (.error (.session .sessionClosed), w.volume, s) :=
    Volume.withClient_of_closed h s act
  cases action with
  | close | setOwner | capabilities | options | pool | describe | isConnected | createAt =>
    exact haction.elim
  | create => simp [onVolume, freshToken, Volume.create, hclient]
  | openFile => simp [onVolume, Volume.openFile, hclient]
  | listing => simp [onVolume, Volume.listing, hclient]
  | status => simp [onVolume, callVolume, Volume.status, Volume.stat, hclient, Answer.ofVolume]
  | fileStatus =>
    simp [onVolume, callVolume, Volume.fileStatus, Volume.status, Volume.stat, hclient,
      Answer.ofVolume]
  | directoryStatus =>
    simp [onVolume, callVolume, Volume.directoryStatus, Volume.status, Volume.stat, hclient,
      Answer.ofVolume]
  | «exists» =>
    simp [onVolume, callVolume, Volume.exists?, Volume.holds, Volume.stat?, hclient,
      Answer.ofVolume]
  | isFile =>
    simp [onVolume, callVolume, Volume.isFile, Volume.holds, Volume.stat?, hclient,
      Answer.ofVolume]
  | isDirectory =>
    simp [onVolume, callVolume, Volume.isDirectory, Volume.holds, Volume.stat?, hclient,
      Answer.ofVolume]
  | list => simp [onVolume, callVolume, Volume.list, Volume.listing, hclient, Answer.ofVolume]
  | mkdirs =>
    simp [onVolume, callVolume, Volume.mkdirs, Volume.exists?, Volume.holds, Volume.stat?,
      hclient, Answer.ofVolume]
  | deleteFile => simp [onVolume, callVolume, Volume.deleteFile, hclient, Answer.ofVolume]
  | deleteDirectory =>
    simp [onVolume, callVolume, Volume.deleteDirectory, hclient, Answer.ofVolume]
  | renameFile =>
    simp [onVolume, callVolume, Volume.renameFile, Volume.isFile, Volume.holds, Volume.stat?,
      hclient, Answer.ofVolume]
  | renameDirectory =>
    simp [onVolume, callVolume, Volume.renameDirectory, Volume.isDirectory, Volume.holds,
      Volume.stat?, hclient, Answer.ofVolume]
  | setMode => simp [onVolume, callVolume, Volume.setMode, hclient, Answer.ofVolume]

private theorem volume_putOutput (w : World) (name : String) (o : Output) :
    (w.putOutput name o).volume = w.volume := by
  unfold putOutput
  dsimp only
  split <;> rfl

private theorem volume_putListing (w : World) (name : String) (l : Listing) :
    (w.putListing name l).volume = w.volume := by
  unfold putListing
  dsimp only
  split <;> rfl

private theorem session_closeReader (w : World) (r : Reader) (home : BufferHome) :
    (w.closeReader r home).2.2.volume.session = w.volume.session := by
  unfold closeReader
  dsimp only
  split
  · cases home <;> rfl
  · rfl

private theorem session_putReader (w : World) (name : String) (r : Reader) (home : BufferHome) :
    (w.putReader name r home).volume.session = w.volume.session := by
  unfold putReader
  dsimp only
  split
  · rw [session_closeReader]
  · rfl

private theorem session_onOutput (w : World) (action : OutputAction) :
    (w.onOutput action).2.volume.session = w.volume.session := by
  have huse (name : String) (act : Output → WorldStore → Answer × Output × WorldStore) :
      (w.useOutput name act).2.volume = w.volume := by
    unfold useOutput
    split <;> rfl
  cases action with
  | new path flags mode offset size into =>
    unfold onOutput
    dsimp only
    split
    · rfl
    · rw [volume_putOutput]
  | newAtomic path temporaryPath size into =>
    unfold onOutput freshToken
    dsimp only
    split
    · rfl
    · rw [volume_putOutput]
  | drop name =>
    unfold onOutput
    dsimp only
    split <;> rfl
  | _ => exact congrArg Volume.session (huse _ _)

private theorem session_onReader (w : World) (action : ReaderAction) :
    (w.onReader action).2.volume.session = w.volume.session := by
  have huse (name : String) (act : Reader → WorldStore → Answer × Reader × WorldStore) :
      (w.useReader name act).2.volume = w.volume := by
    unfold useReader
    split <;> rfl
  cases action with
  | new path flags mode size into =>
    unfold onReader
    dsimp only
    split
    · rfl
    · rw [session_putReader]
  | close name | drop name =>
    unfold onReader
    dsimp only
    split
    · rfl
    · exact session_closeReader w _ _
  | _ => exact congrArg Volume.session (huse _ _)

private theorem session_onListing (w : World) (action : ListingAction) :
    (w.onListing action).2.volume.session = w.volume.session := by
  cases action with
  | new path batchSize into => exact congrArg Volume.session (volume_putListing w into _)
  | next name | toList name | drop name =>
    unfold onListing
    dsimp only
    split <;> rfl

private theorem session_onPool (w : World) (action : PoolAction) :
    (w.onPool action).2.volume.session = w.volume.session := by
  cases action with
  | acquire size into =>
    unfold onPool putBuffer
    dsimp only
    split <;> rfl
  | fill name | release name | describeBuffer name =>
    unfold onPool
    dsimp only
    split <;> rfl
  | clear | stats | describe => rfl

private theorem session_onStore (w : World) (action : StoreAction) :
    (w.onStore action).2.volume.session = w.volume.session := by
  cases action <;> rfl

section Session

variable {keeps : Session → Prop} (hclient : ∀ {s : Session}, keeps s → keeps s.client.2)
include hclient

private theorem session_onSession {action : SessionAction}
    (hshutdown : (Action.session action).EndsSession →
      ∀ {s : Session}, keeps s → keeps s.shutdown.2)
    (hw : keeps w.volume.session) : keeps (w.onSession action).2.volume.session := by
  cases action with
  | client =>
    have hfirst := hclient hw
    unfold onSession
    dsimp only
    generalize w.volume.session.client = result at hfirst ⊢
    obtain ⟨e | client, session⟩ := result
    · exact hfirst
    · exact hclient hfirst
  | shutdown =>
    have hended := hshutdown trivial hw
    unfold onSession
    dsimp only
    generalize w.volume.session.shutdown = result at hended ⊢
    obtain ⟨_ | client, session⟩ := result <;> exact hended
  | isConnected | settings | describe => exact hw

private theorem session_onVolume {action : VolumeAction}
    (hshutdown : (Action.volume action).EndsSession →
      ∀ {s : Session}, keeps s → keeps s.shutdown.2)
    (hw : keeps w.volume.session) : keeps (w.onVolume action).2.volume.session := by
  cases action with
  | create path options into =>
    have hcreate := Volume.session_create hclient hw w.store path options ⟨.ofNat 128 w.tokens⟩
    unfold onVolume freshToken
    dsimp only
    generalize w.volume.create w.store path options _ = result at hcreate ⊢
    obtain ⟨e | output, volume, store⟩ := result
    · exact hcreate
    · exact (volume_putOutput _ into output).symm ▸ hcreate
  | openFile path options into =>
    have hopen := Volume.session_openFile hclient hw w.store path options
    unfold onVolume
    dsimp only
    generalize w.volume.openFile w.store path options = result at hopen ⊢
    obtain ⟨e | reader, volume, store⟩ := result
    · exact hopen
    · exact (session_putReader _ into reader .volume).symm ▸ hopen
  | listing path into =>
    have hlisting := Volume.session_listing hclient hw w.store path
    unfold onVolume
    dsimp only
    generalize w.volume.listing w.store path = result at hlisting ⊢
    obtain ⟨e | listing, volume, store⟩ := result
    · exact hlisting
    · exact (volume_putListing _ into listing).symm ▸ hlisting
  | createAt path mode into =>
    unfold onVolume
    dsimp only
    split
    · exact hw
    · exact (volume_putOutput _ into _).symm ▸ hw
  | status path => exact Volume.session_status hclient hw _ path
  | fileStatus path => exact Volume.session_fileStatus hclient hw _ path
  | directoryStatus path => exact Volume.session_directoryStatus hclient hw _ path
  | «exists» path => exact Volume.session_holds hclient hw _ path _
  | isFile path => exact Volume.session_holds hclient hw _ path _
  | isDirectory path => exact Volume.session_holds hclient hw _ path _
  | list path => exact Volume.session_list hclient hw _ path
  | mkdirs path options => exact Volume.session_mkdirs hclient hw _ path options
  | deleteFile path => exact Volume.session_deleteFile hclient hw _ path
  | deleteDirectory path options => exact Volume.session_deleteDirectory hclient hw _ path options
  | renameFile source target => exact Volume.session_renameFile hclient hw _ source target
  | renameDirectory source target =>
    exact Volume.session_renameDirectory hclient hw _ source target
  | setMode path mode => exact Volume.session_setMode hclient hw _ path mode
  | close => exact hshutdown trivial hw
  | setOwner | capabilities | options | pool | describe | isConnected => exact hw

end Session

theorem session_step (keeps : Session → Prop) {action : Action} (haction : action.Spares)
    (hclient : ∀ {s : Session}, keeps s → keeps s.client.2)
    (hshutdown : action.EndsSession → ∀ {s : Session}, keeps s → keeps s.shutdown.2)
    (hw : keeps w.volume.session) : keeps (w.step action).2.volume.session := by
  have hw : keeps w.tick.volume.session := hw
  unfold step
  generalize w.tick = w at hw ⊢
  cases action with
  | store action => exact (w.session_onStore action).symm ▸ hw
  | handle action => exact haction.elim
  | listing action => exact (w.session_onListing action).symm ▸ hw
  | output action => exact (w.session_onOutput action).symm ▸ hw
  | reader action => exact (w.session_onReader action).symm ▸ hw
  | pool action => exact (w.session_onPool action).symm ▸ hw
  | session action => exact session_onSession hclient hshutdown hw
  | volume action => exact session_onVolume hclient hshutdown hw

theorem isClosed_step (h : w.volume.session.state = .closed) {action : Action}
    (haction : action.Spares) : (w.step action).2.volume.session.state = .closed :=
  session_step (fun s => s.state = .closed) haction
    (fun h => by rwa [Session.client_of_closed h]) (fun _ s _ => s.state_shutdown) h

theorem isClosed_run (h : w.volume.session.state = .closed) {actions : List Action}
    (hactions : ∀ action ∈ actions, action.Spares) :
    (w.run actions).volume.session.state = .closed := by
  induction actions generalizing w with
  | nil => exact h
  | cons action actions ih =>
    exact ih (isClosed_step h (hactions action List.mem_cons_self)) fun action haction =>
      hactions action (List.mem_cons_of_mem _ haction)

private theorem onOutput_of_bare (h : w.IsBare) {action : OutputAction}
    (hclient : ¬ (Action.output action).TakesClient) : (w.onOutput action).2 = w := by
  have hget (name : String) : w.outputs.get? name = none := by
    rw [h.outputs]
    rfl
  have huse (name : String) (act : Output → WorldStore → Answer × Output × WorldStore) :
      (w.useOutput name act).2 = w := by
    unfold useOutput
    rw [hget]
  cases action with
  | new | newAtomic => exact absurd trivial hclient
  | drop name =>
    unfold onOutput
    dsimp only
    rw [hget]
  | _ => exact huse _ _

private theorem onReader_of_bare (h : w.IsBare) {action : ReaderAction}
    (hclient : ¬ (Action.reader action).TakesClient) : (w.onReader action).2 = w := by
  have hget (name : String) : w.readers.get? name = none := by
    rw [h.readers]
    rfl
  have huse (name : String) (act : Reader → WorldStore → Answer × Reader × WorldStore) :
      (w.useReader name act).2 = w := by
    unfold useReader
    rw [hget]
  cases action with
  | new => exact absurd trivial hclient
  | close name | drop name =>
    unfold onReader
    dsimp only
    rw [hget]
  | _ => exact huse _ _

private theorem onListing_of_bare (h : w.IsBare) {action : ListingAction}
    (hclient : ¬ (Action.listing action).TakesClient) : (w.onListing action).2 = w := by
  have hget (name : String) : w.listings.get? name = none := by
    rw [h.listings]
    rfl
  cases action with
  | new => exact absurd trivial hclient
  | next name | toList name | drop name =>
    unfold onListing
    dsimp only
    rw [hget]

private theorem IsBare.of_eq {w' : World} (h : w.IsBare) (houtputs : w'.outputs = w.outputs)
    (hreaders : w'.readers = w.readers) (hlistings : w'.listings = w.listings) : w'.IsBare :=
  ⟨houtputs.trans h.outputs, hreaders.trans h.readers, hlistings.trans h.listings⟩

theorem IsBare.held_eq (h : w.IsBare) : w.held = 0 := by
  rw [held, h.outputs, h.readers, h.listings]
  rfl

private theorem IsBare.onPool (h : w.IsBare) (action : PoolAction) :
    (w.onPool action).2.IsBare := by
  cases action with
  | acquire size into =>
    unfold World.onPool putBuffer
    dsimp only
    split <;> exact h.of_eq rfl rfl rfl
  | fill name | release name | describeBuffer name =>
    unfold World.onPool
    dsimp only
    split <;> exact h.of_eq rfl rfl rfl
  | clear | stats | describe => exact h.of_eq rfl rfl rfl

private theorem IsBare.onSession (h : w.IsBare) (action : SessionAction) :
    (w.onSession action).2.IsBare := by
  cases action with
  | client =>
    unfold World.onSession
    dsimp only
    split <;> exact h.of_eq rfl rfl rfl
  | shutdown =>
    unfold World.onSession
    dsimp only
    split <;> exact h.of_eq rfl rfl rfl
  | isConnected | settings | describe => exact h

private theorem IsBare.onStore (h : w.IsBare) (action : StoreAction) :
    (w.onStore action).2.IsBare := by
  cases action <;> exact h.of_eq rfl rfl rfl

private theorem isConnected_of_gives {action : VolumeAction}
    (hgives : action.Gives (w.onVolume action).1) (hclient : ¬ (Action.volume action).TakesClient) :
    (w.onVolume action).2.volume.session.isConnected = true := by
  cases action with
  | create path options into =>
    have hconnected := @Volume.isConnected_create _ w.volume w.store path _ options
      ⟨.ofNat 128 w.tokens⟩
    unfold onVolume freshToken at hgives ⊢
    dsimp only at hgives ⊢
    generalize w.volume.create w.store path options _ = result at hconnected hgives ⊢
    obtain ⟨e | output, volume, store⟩ := result
    · exact hgives.elim
    · exact (volume_putOutput _ into output).symm ▸ hconnected rfl
  | openFile path options into =>
    have hconnected := @Volume.isConnected_openFile _ w.volume w.store path _ options
    unfold onVolume at hgives ⊢
    dsimp only at hgives ⊢
    generalize w.volume.openFile w.store path options = result at hconnected hgives ⊢
    obtain ⟨e | reader, volume, store⟩ := result
    · exact hgives.elim
    · exact (session_putReader _ into reader .volume).symm ▸ hconnected rfl
  | listing path into =>
    have hconnected := @Volume.isConnected_listing _ w.volume w.store path
    unfold onVolume at hgives ⊢
    dsimp only at hgives ⊢
    generalize w.volume.listing w.store path = result at hconnected hgives ⊢
    obtain ⟨e | listing, volume, store⟩ := result
    · exact hgives.elim
    · exact (volume_putListing _ into listing).symm ▸ hconnected rfl
  | createAt => exact absurd trivial hclient
  | _ => exact hgives.elim

/-- Nothing comes alive as long as the session has not been asked for its client. -/
theorem IsBare.step (h : w.IsBare) {action : Action} (haction : action.Spares)
    (hclient : ¬ action.TakesClient)
    (hidle : (w.step action).2.volume.session.isConnected = false) : (w.step action).2.IsBare := by
  have h : w.tick.IsBare := h.of_eq rfl rfl rfl
  unfold World.step at hidle ⊢
  generalize w.tick = w at h hidle ⊢
  cases action with
  | store action => exact h.onStore action
  | session action => exact h.onSession action
  | handle action => exact haction.elim
  | pool action => exact h.onPool action
  | output action => exact (onOutput_of_bare h hclient).symm ▸ h
  | reader action => exact (onReader_of_bare h hclient).symm ▸ h
  | listing action => exact (onListing_of_bare h hclient).symm ▸ h
  | volume action =>
    have hnone : ¬ action.Gives (w.onVolume action).1 := by
      intro hgives
      have hconnected := isConnected_of_gives hgives hclient
      rw [show (w.onVolume action).2.volume.session.isConnected = false from hidle] at hconnected
      cases hconnected
    obtain ⟨houtputs, hreaders, hlistings⟩ := objects_onVolume hnone
    exact h.of_eq houtputs hreaders hlistings

theorem tree_step_of_bare (hbare : w.IsBare) (hclosed : w.volume.session.state = .closed)
    {action : Action} (haction : action.Uses) (hclient : ¬ action.TakesClient) :
    (w.step action).2.store.store.tree = w.store.store.tree := by
  have hbare : w.tick.IsBare := hbare.of_eq rfl rfl rfl
  have hclosed : w.tick.volume.session.state = .closed := hclosed
  show (w.tick.perform action).2.store.store.tree = w.tick.store.store.tree
  generalize w.tick = w at hbare hclosed ⊢
  have hasked := Session.client_of_closed hclosed
  have hshutdown := Session.shutdown_of_closed hclosed
  unfold perform
  cases action with
  | store action =>
    cases action with
    | setClock | setScript | setFaults => rfl
    | _ => exact haction.elim
  | handle action => exact haction.elim
  | output action => rw [onOutput_of_bare hbare hclient]
  | reader action => rw [onReader_of_bare hbare hclient]
  | listing action => rw [onListing_of_bare hbare hclient]
  | pool action =>
    cases action with
    | acquire size into =>
      unfold onPool putBuffer
      dsimp only
      split <;> rfl
    | fill name | release name | describeBuffer name =>
      unfold onPool
      dsimp only
      split <;> rfl
    | clear | stats | describe => rfl
  | session action =>
    cases action with
    | client => simp only [onSession, hasked]
    | shutdown => simp only [onSession, hshutdown]
    | isConnected | settings | describe => rfl
  | volume action =>
    by_cases hneeds : action.NeedsClient
    · rw [(onVolume_of_closed hclosed hneeds).2.1]
    · cases action with
      | close => simp only [onVolume, Volume.close, hshutdown]
      | createAt => exact absurd trivial hclient
      | setOwner | capabilities | options | pool | describe | isConnected => rfl
      | _ => exact absurd trivial hneeds

end World
end VolumeFs.Scenario
