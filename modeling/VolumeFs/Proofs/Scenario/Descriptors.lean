import VolumeFs.Proofs.Scenario.Held

/-!
# Descriptors of a scenario

After every action the store of a world has exactly those descriptors open that live streams and
listings hold, and each of them is held by one. An operation of the volume that gives no such
object leaves the table of descriptors as it was, and no descriptor is closed a second time.
-/

namespace VolumeFs.Scenario

open Memory

/-- An operation of a volume has given a live object. -/
def VolumeAction.Gives : VolumeAction → Answer → Prop
  | create .., .created _ => True
  | openFile .., .opened _ => True
  | listing .., .text _ => True
  | createAt .., .writerState _ => True
  | _, _ => False

/-- The action opens and closes no descriptor past the streams and listings, and does not make the
store forget how many it has closed. -/
def Action.Spares : Action → Prop
  | handle _ => False
  | store (.openPath ..) => False
  | store (.close _) => False
  | store .resetCalls => False
  | _ => True

namespace World

variable {opened : Multiset Fd → WorldStore → Prop} {w : World} {fds : Multiset Fd}

/-- An operation that gives no live object has given back all that it opened. -/
theorem opened_onVolume (h : Book opened) (hs : opened fds w.store) {action : VolumeAction}
    (hnone : ¬ action.Gives (w.onVolume action).1) : opened fds (w.onVolume action).2.store := by
  cases action with
  | create path options into =>
    unfold World.onVolume World.freshToken at hnone ⊢
    dsimp only at hnone ⊢
    have hcreate := Volume.opened_create h hs w.volume path options ⟨.ofNat 128 w.tokens⟩
    generalize w.volume.create w.store path options _ = result at hcreate hnone ⊢
    obtain ⟨answer, v, s⟩ := result
    cases hcreate with
    | ok => exact absurd trivial hnone
    | error hs' => exact hs'
  | openFile path options into =>
    unfold World.onVolume at hnone ⊢
    dsimp only at hnone ⊢
    have hopen := Volume.opened_openFile h hs w.volume path options
    generalize w.volume.openFile w.store path options = result at hopen hnone ⊢
    obtain ⟨answer, v, s⟩ := result
    cases hopen with
    | ok => exact absurd trivial hnone
    | error hs' => exact hs'
  | listing path into =>
    unfold World.onVolume at hnone ⊢
    dsimp only at hnone ⊢
    have hsame := w.volume.store_listing w.store path
    generalize w.volume.listing w.store path = result at hsame hnone ⊢
    obtain ⟨e | l, v, s⟩ := result
    · obtain rfl : s = w.store := hsame
      exact hs
    · exact absurd trivial hnone
  | createAt path mode into =>
    unfold World.onVolume at hnone ⊢
    dsimp only at hnone ⊢
    have hcreate := (Creation.ofOptions w.volume.options).opened_create h hs path mode
    generalize Creation.create _ w.store path mode = result at hcreate hnone ⊢
    cases hcreate with
    | ok => exact absurd trivial hnone
    | error hs' => exact hs'
  | status path => exact Volume.opened_status h hs _ path
  | fileStatus path => exact Volume.opened_fileStatus h hs _ path
  | directoryStatus path => exact Volume.opened_directoryStatus h hs _ path
  | «exists» path => exact Volume.opened_holds h hs _ path _
  | isFile path => exact Volume.opened_holds h hs _ path _
  | isDirectory path => exact Volume.opened_holds h hs _ path _
  | list path => exact Volume.opened_list h hs _ path
  | mkdirs path options => exact Volume.opened_mkdirs h hs _ path options
  | deleteFile path => exact Volume.opened_deleteFile h hs _ path
  | deleteDirectory path options => exact Volume.opened_deleteDirectory h hs _ path options
  | renameFile source target => exact Volume.opened_renameFile h hs _ source target
  | renameDirectory source target => exact Volume.opened_renameDirectory h hs _ source target
  | setMode path mode => exact Volume.opened_setMode h hs _ path mode
  | close => exact Volume.opened_close h hs _
  | setOwner | capabilities | options | pool | describe | isConnected => exact hs

theorem objects_onVolume {action : VolumeAction} (hnone : ¬ action.Gives (w.onVolume action).1) :
    (w.onVolume action).2.outputs = w.outputs ∧ (w.onVolume action).2.readers = w.readers ∧
      (w.onVolume action).2.listings = w.listings := by
  cases action with
  | create | openFile | listing | createAt =>
    unfold World.onVolume World.freshToken at hnone ⊢
    dsimp only at hnone ⊢
    split at hnone
    · exact ⟨rfl, rfl, rfl⟩
    · exact absurd trivial hnone
  | _ => exact ⟨rfl, rfl, rfl⟩

private theorem Owns.onVolume_of_gives (h : Book opened) (hw : w.Owns opened)
    {action : VolumeAction} (hgives : action.Gives (w.onVolume action).1) :
    (w.onVolume action).2.Owns opened := by
  cases action with
  | create path options into =>
    unfold World.onVolume World.freshToken at hgives ⊢
    dsimp only at hgives ⊢
    have hcreate := Volume.opened_create h hw.opened w.volume path options ⟨.ofNat 128 w.tokens⟩
    generalize w.volume.create w.store path options _ = result at hcreate hgives ⊢
    obtain ⟨answer, volume, store⟩ := result
    cases hcreate with
    | ok ho =>
      exact (hw.of_eq { w with tokens := w.tokens + 1, volume, store } rfl rfl
        rfl).putOutput h ho into
    | error => exact hgives.elim
  | openFile path options into =>
    unfold World.onVolume at hgives ⊢
    dsimp only at hgives ⊢
    have hopen := Volume.opened_openFile h hw.opened w.volume path options
    generalize w.volume.openFile w.store path options = result at hopen hgives ⊢
    obtain ⟨answer, volume, store⟩ := result
    cases hopen with
    | ok hr =>
      exact (hw.of_eq { w with volume, store } rfl rfl rfl).putReader h hr into .volume
    | error => exact hgives.elim
  | listing path into =>
    unfold World.onVolume at hgives ⊢
    dsimp only at hgives ⊢
    have hsame := w.volume.store_listing w.store path
    cases hlisting : w.volume.listing w.store path with
    | mk answer rest =>
      obtain ⟨volume, store⟩ := rest
      rw [hlisting] at hsame hgives
      obtain rfl : store = w.store := hsame
      cases answer with
      | ok l =>
        have hsame : World.Owns opened { w with volume } := hw.owns_of_eq hw.opened rfl rfl rfl
        exact hsame.putListing h (Volume.held_listing hlisting) into
      | error => exact hgives.elim
  | createAt path mode into =>
    unfold World.onVolume at hgives ⊢
    dsimp only at hgives ⊢
    have hcreate := (Creation.ofOptions w.volume.options).opened_create h hw.opened path mode
    generalize Creation.create _ w.store path mode = result at hcreate hgives ⊢
    cases hcreate with
    | @ok writer store hs =>
      have ho : (Output.direct writer).Owns opened w.held store := ⟨hs.1, nofun, hs.2⟩
      exact (hw.of_eq { w with store } rfl rfl rfl).putOutput h ho into
    | error => exact hgives.elim
  | _ => exact hgives.elim

theorem Owns.onVolume (h : Book opened) (hw : w.Owns opened) (action : VolumeAction) :
    (w.onVolume action).2.Owns opened := by
  by_cases hgives : action.Gives (w.onVolume action).1
  · exact hw.onVolume_of_gives h hgives
  · obtain ⟨houtputs, hreaders, hlistings⟩ := objects_onVolume hgives
    exact hw.owns_of_eq (opened_onVolume h hw.opened hgives) houtputs hreaders hlistings

theorem Owns.onSession (h : Book opened) (hw : w.Owns opened) (action : SessionAction) :
    (w.onSession action).2.Owns opened := by
  cases action with
  | client =>
    unfold World.onSession
    dsimp only
    generalize w.volume.session.client = result
    obtain ⟨e | first, session⟩ := result <;> exact hw.owns_of_eq hw.opened rfl rfl rfl
  | shutdown =>
    unfold World.onSession
    dsimp only
    generalize w.volume.session.shutdown = result
    obtain ⟨_ | client, session⟩ := result
    · exact hw.owns_of_eq hw.opened rfl rfl rfl
    · exact hw.owns_of_eq (h.shutdown hw.opened) rfl rfl rfl
  | isConnected | settings | describe => exact hw

theorem Owns.onPool (hw : w.Owns opened) (action : PoolAction) :
    (w.onPool action).2.Owns opened := by
  have hsame {w' : World} (hstore : w'.store = w.store) (houtputs : w'.outputs = w.outputs)
      (hreaders : w'.readers = w.readers) (hlistings : w'.listings = w.listings) :
      w'.Owns opened :=
    hw.owns_of_eq (hstore ▸ hw.opened) houtputs hreaders hlistings
  cases action with
  | acquire size into =>
    unfold World.onPool World.putBuffer
    dsimp only
    split <;> exact hsame rfl rfl rfl rfl
  | fill name byte | release name | describeBuffer name =>
    unfold World.onPool
    dsimp only
    split <;> exact hsame rfl rfl rfl rfl
  | clear | stats | describe => exact hsame rfl rfl rfl rfl

/-- What is open in the store behind the script. -/
abbrev IsOpen (fds : Multiset Fd) (s : WorldStore) : Prop := s.store.Opened fds

private theorem Owns.withStore (hw : w.Owns IsOpen) (op : Operation) (hop : op.KeepsDescriptors)
    {w' : World} (hstore : w'.store.store = op.on w.store.store)
    (houtputs : w'.outputs = w.outputs) (hreaders : w'.readers = w.readers)
    (hlistings : w'.listings = w.listings) : w'.Owns IsOpen := by
  refine hw.owns_of_eq ?_ houtputs hreaders hlistings
  show w'.store.store.Opened w.held
  rw [hstore]
  exact hw.opened.on op hop

private theorem Owns.onStore (hw : w.Owns IsOpen) {action : StoreAction}
    (haction : (Action.store action).Spares) : (w.onStore action).2.Owns IsOpen := by
  cases action with
  | openPath | close | resetCalls => exact haction.elim
  | setScript script => exact hw.owns_of_eq hw.opened rfl rfl rfl
  | putMany stem count bytes =>
    have hfold (numbers : List Nat) {s : Store} (hs : s.Opened w.held) :
        (numbers.foldl (fun s k => s.putFile (stem ++ Radix.padded 10 4 k) bytes) s).Opened
          w.held := by
      induction numbers generalizing s with
      | nil => exact hs
      | cons k numbers ih => exact ih (hs.on (.putFile _ bytes) trivial)
    exact hw.owns_of_eq (hfold (List.range count) hw.opened) rfl rfl rfl
  | setClock sec nsec => exact hw.withStore (.setClock ⟨sec, nsec⟩) trivial rfl rfl rfl rfl
  | putFile path bytes => exact hw.withStore (.putFile path bytes) trivial rfl rfl rfl rfl
  | putDirectory path => exact hw.withStore (.putDirectory path) trivial rfl rfl rfl rfl
  | setFaults faults => exact hw.withStore (.setFaults faults) trivial rfl rfl rfl rfl
  | shutdown => exact hw.withStore .shutdown trivial rfl rfl rfl rfl
  | read fd length offset =>
    exact hw.withStore (.read fd (markedBuffer length) offset) trivial rfl rfl rfl rfl
  | write fd bytes offset =>
    exact hw.withStore (.write fd bytes offset) trivial rfl rfl rfl rfl
  | flush fd => exact hw.withStore (.flush fd) trivial rfl rfl rfl rfl
  | getAttr path => exact hw.withStore (.getAttr path) trivial rfl rfl rfl rfl
  | mkdirs path mode => exact hw.withStore (.mkdirs path mode) trivial rfl rfl rfl rfl
  | unlink path => exact hw.withStore (.unlink path) trivial rfl rfl rfl rfl
  | rmdir path => exact hw.withStore (.rmdir path) trivial rfl rfl rfl rfl
  | rename source target =>
    exact hw.withStore (.rename source target) trivial rfl rfl rfl rfl
  | readdir fd limit => exact hw.withStore (.readdir fd limit) trivial rfl rfl rfl rfl
  | batchGetAttr fd inodes =>
    exact hw.withStore (.batchGetAttr fd inodes) trivial rfl rfl rfl rfl
  | fchmod fd mode => exact hw.withStore (.fchmod fd mode) trivial rfl rfl rfl rfl
  | contents | contains | isShutDown | calls => exact hw

theorem Owns.tick (hw : w.Owns IsOpen) : w.tick.Owns IsOpen :=
  hw.withStore (.setClock _) trivial rfl rfl rfl rfl

theorem Owns.step (hw : w.Owns IsOpen) {action : Action} (haction : action.Spares) :
    (w.step action).2.Owns IsOpen := by
  have h : Book IsOpen := book_opened.scripted
  cases action with
  | store action => exact hw.tick.onStore haction
  | session action => exact hw.tick.onSession h action
  | volume action => exact hw.tick.onVolume h action
  | listing action => exact hw.tick.onListing h action
  | handle action => exact haction.elim
  | output action => exact hw.tick.onOutput h action
  | reader action => exact hw.tick.onReader h action
  | pool action => exact hw.tick.onPool action

private theorem Owns.run (hw : w.Owns IsOpen) {actions : List Action}
    (hactions : ∀ action ∈ actions, action.Spares) : (w.run actions).Owns IsOpen := by
  induction actions generalizing w with
  | nil => exact hw
  | cons action actions ih =>
    exact ih (hw.step (hactions action List.mem_cons_self)) fun action haction =>
      hactions action (List.mem_cons_of_mem _ haction)

theorem owns_start {session : Session} {options : Options} {identity : Identity}
    {poolConfig : PoolConfig} (h : World.start session options identity poolConfig = .ok w) :
    w.Owns IsOpen := by
  unfold World.start at h
  split at h
  · cases h
  · cases h
    refine ⟨⟨Slots.proper_nil, Slots.proper_nil, Slots.proper_nil⟩, ?_⟩
    have hnone (fd : Fd) : fd ∉ (0 : Multiset Fd) := Multiset.notMem_zero fd
    constructor
    · intro fd hopen
      rw [Store.openFile?_new] at hopen
      cases hopen
    · rfl
    · exact Nat.le_refl 0
    · exact fun fd hfd => absurd hfd (hnone fd)
    · exact fun _ fd hfd => absurd hfd (hnone fd)
    · exact fun _ => Multiset.nodup_zero

/-- In every scenario, whatever its script and its faults make fail, exactly those descriptors are
open that live streams and listings hold, each held by one of them. The calls that closed a
descriptor are as many as the descriptors that were given out and are not held any more, so none
was closed twice. An operation of the volume that gives no live object, because it failed or
because it is not made for that, leaves the table of descriptors as it was. There are `2 ^ 32`
numbers of descriptors: all this is so until the store was asked to open more often than that. -/
theorem descriptors_of_run {session : Session} {options : Options} {identity : Identity}
    {poolConfig : PoolConfig} (hstart : World.start session options identity poolConfig = .ok w)
    {actions : List Action} (hactions : ∀ action ∈ actions, action.Spares)
    (hopens : (w.run actions).store.store.calls.opens ≤ Int32.size) :
    let after := w.run actions
    let store := after.store.store
    (∀ fd, (store.openFile? fd).isSome = true ↔ fd ∈ after.held) ∧ after.held.Nodup ∧
      store.calls.closes + Multiset.card after.held ≤ store.calls.opens ∧
      store.nextFd = 3 + Int32.ofNat (store.calls.closes + Multiset.card after.held) ∧
      ∀ action : VolumeAction, ¬ action.Gives (after.step (.volume action)).1 →
        (after.step (.volume action)).2.store.store.calls.opens ≤ Int32.size → ∀ fd,
          (after.step (.volume action)).2.store.store.openFile? fd = store.openFile? fd := by
  intro after store
  have hafter : after.Owns IsOpen := (owns_start hstart).run hactions
  refine ⟨fun fd => ⟨hafter.opened.mem_of_isSome fd, hafter.opened.isSome_of_mem hopens fd⟩,
    hafter.opened.nodup hopens, hafter.opened.le_opens, hafter.opened.nextFd_eq, ?_⟩
  intro action hnone hsize fd
  have h := (book_openedBeside after.tick.store.store after.held).scripted
  have hs := opened_onVolume (w := after.tick) h hafter.tick.opened.beside hnone
  exact hs.openFile?_eq hafter.tick.opened hsize fd

/-- A write stream and a listing are open, and a change of mode could not close its descriptor
without a failure. -/
theorem descriptors_of_run_failed_close :
    let options : Options := { listBatchSize := 1 }
    let actions : List Action := [
      .volume (.create "/d/x" { atomic := true } "x"),
      .volume (.create "/d/y" {} "y"),
      .volume (.listing "/d" "entries"),
      .listing (.next "entries" 1),
      .output (.drop "y"),
      .store (.setScript { errors := [(.close, [some .eio])] }),
      .volume (.setMode "/d" 0o700)]
    let w : World := {
      store := { store := .new startClock }
      volume := {
        session := .withClient {} ⟨0⟩
        options
        pool := { config := {} }
        identity := .ofUser "user" }
      pool := { config := {} } }
    World.start (.withClient {} ⟨0⟩) options (.ofUser "user") {} = .ok w ∧
      (w.run actions).held = {⟨3⟩, ⟨5⟩} ∧ (w.run actions).store.store.calls.closes = 2 ∧
      ∀ fd, ((w.run actions).store.store.openFile? fd).isSome = true ↔
        fd ∈ ({⟨3⟩, ⟨5⟩} : Multiset Fd) := by
  intro options actions w
  have hstart : World.start (.withClient {} ⟨0⟩) options (.ofUser "user") {} = .ok w := rfl
  have hspares : ∀ action ∈ actions, action.Spares := by
    simp [actions, Action.Spares]
  have hheld : (w.run actions).held = {⟨3⟩, ⟨5⟩} ∧
      (w.run actions).store.store.calls.closes = 2 ∧
      (w.run actions).store.store.calls.opens ≤ Int32.size := by
    decide +kernel
  obtain ⟨hopen, -⟩ := descriptors_of_run hstart hspares hheld.2.2
  rw [hheld.1] at hopen
  exact ⟨hstart, hheld.1, hheld.2.1, hopen⟩

end World
end VolumeFs.Scenario
