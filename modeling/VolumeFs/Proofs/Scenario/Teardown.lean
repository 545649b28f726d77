import VolumeFs.Proofs.Scenario.ClosedSession

/-!
# Volumes that were closed

Streams and listings outlive the session of their volume and still reach its client. Once the client
was shut down, what they do can only give descriptors back: the tree stays as it is, and no
descriptor is opened any more. The operations of the volume itself are refused by the session.
-/

namespace VolumeFs

open Memory

namespace Memory

/-- A call that does nothing any more when the store was shut down. -/
private def Operation.EndsWithShutdown : Operation → Prop
  | .close _ => False
  | .putFile .. => False
  | .putDirectory _ => False
  | .setFaults _ => False
  | .setClock _ => False
  | .clearCalls => False
  | _ => True

private theorem Operation.EndsWithShutdown.on_eq {op : Operation} (h : op.EndsWithShutdown)
    {s : Store} (hs : s.isShutDown = true) : op.on s = s := by
  cases op with
  | close | putFile | putDirectory | setFaults | setClock | clearCalls => exact h.elim
  | shutdown =>
    cases s
    cases hs
    rfl
  | openPath path flags mode => simp [Operation.on, Store.openPath, hs]
  | read fd buffer offset => simp [Operation.on, Store.read, hs]
  | write fd bytes offset => simp [Operation.on, Store.write, hs]
  | flush fd => simp [Operation.on, Store.flush, hs]
  | getAttr path => simp [Operation.on, Store.getAttr, hs]
  | mkdirs path mode => simp [Operation.on, Store.mkdirs, hs]
  | unlink path => simp [Operation.on, Store.unlink, hs]
  | rmdir path => simp [Operation.on, Store.rmdir, hs]
  | rename source target => simp [Operation.on, Store.rename, hs]
  | readdir fd limit => simp [Operation.on, Store.readdir, hs]
  | batchGetAttr fd inodes => simp [Operation.on, Store.batchGetAttr, hs]
  | fchmod fd mode => simp [Operation.on, Store.fchmod, hs]

/-- A store that was shut down, with the tree of an earlier one and nothing open that was not open
then. -/
structure Store.Frozen (s before : Store) (fds : Multiset Fd) : Prop where
  isShutDown : s.isShutDown = true
  tree : s.tree = before.tree
  opened : s.Opened fds
  isSome_openFile? : ∀ fd, (s.openFile? fd).isSome = true → (before.openFile? fd).isSome = true

section Frozen

variable {before s : Store} {fds : Multiset Fd}

private theorem Store.Frozen.on (hs : s.Frozen before fds) (op : Operation)
    (h : op.EndsWithShutdown) :
    (op.on s).Frozen before fds := by
  rwa [h.on_eq hs.isShutDown]

private theorem Store.isShutDown_close (s : Store) (fd : Fd) :
    (s.close fd).2.isShutDown = s.isShutDown := by
  unfold Store.close
  dsimp only
  split
  · rfl
  · split <;> rfl

/-- Whoever works with a store that was shut down leaves its tree alone and opens nothing. -/
theorem book_frozen (before : Store) : Book fun fds (s : Store) => s.Frozen before fds where
  openPath_ok hs hopen := by
    have hup := (Store.openPath_eq_ok hopen).1
    rw [hs.isShutDown] at hup
    cases hup
  openPath_error := by
    intro fds s s' path flags mode code hs hopen
    have hopened := hs.on (.openPath path flags mode) trivial
    rwa [show (Operation.openPath path flags mode).on s = s' from congrArg Prod.snd hopen]
      at hopened
  close {fd fds s} hs := {
    isShutDown := (s.isShutDown_close fd).trans hs.isShutDown
    tree := (s.tree_close fd).trans hs.tree
    opened := hs.opened.close
    isSome_openFile? := by
      intro other hopen
      rw [show (StoreClient.close s fd).2.openFile? other = _ from s.openFile?_close fd other]
        at hopen
      split at hopen
      · cases hopen
      · exact hs.isSome_openFile? other hopen }
  read {fd _ _} buffer offset _ hs := hs.on (.read fd buffer offset) trivial
  write {fd _ _} bytes offset _ hs := hs.on (.write fd bytes offset) trivial
  flush {fd _ _} _ hs := hs.on (.flush fd) trivial
  readdir {fd _ _} limit _ hs := hs.on (.readdir fd limit) trivial
  batchGetAttr {fd _ _} inodes _ hs := hs.on (.batchGetAttr fd inodes) trivial
  fchmod {fd _ _} mode _ hs := hs.on (.fchmod fd mode) trivial
  getAttr path hs := hs.on (.getAttr path) trivial
  mkdirs path mode hs := hs.on (.mkdirs path mode) trivial
  unlink path hs := hs.on (.unlink path) trivial
  rmdir path hs := hs.on (.rmdir path) trivial
  rename source target hs := hs.on (.rename source target) trivial
  shutdown hs := hs.on .shutdown trivial

end Frozen

private theorem Operation.isShutDown_on (op : Operation) {s : Store} (hs : s.isShutDown = true) :
    (op.on s).isShutDown = true := by
  cases op with
  | close fd => exact (s.isShutDown_close fd).trans hs
  | putFile | putDirectory | setFaults | setClock | clearCalls => exact hs
  | _ => rwa [Operation.EndsWithShutdown.on_eq (by trivial) hs]

private theorem book_isShutDown : Book fun _ (s : Store) => s.isShutDown = true :=
  book_of_on fun _ => Operation.isShutDown_on _

end Memory

namespace Scenario.World

variable {w : World}

/-- What the object holds that is closed or let go of by the action. -/
def released (w : World) : Action → Multiset Fd
  | .output (.close name) => (w.outputs.get? name).elim 0 Output.held
  | .output (.drop name) => (w.outputs.get? name).elim 0 Output.held
  | .reader (.close name) => (w.readers.get? name).elim 0 (·.1.held)
  | .reader (.drop name) => (w.readers.get? name).elim 0 (·.1.held)
  | .listing (.drop name) => (w.listings.get? name).elim 0 Listing.held
  | _ => 0

def HasConnected (w : World) (actions : List Action) : Prop :=
  ∃ earlier, earlier <+: actions ∧ (w.run earlier).volume.session.isConnected = true

/-- What a scenario makes past the volume it makes on the client of the session. -/
def SharesClient (w : World) (actions : List Action) : Prop :=
  ∀ earlier action, earlier ++ [action] <+: actions → action.TakesClient → w.HasConnected earlier

private theorem exists_operations_onStore (w : World) (action : StoreAction) :
    ∃ ops : List Operation,
      (w.onStore action).2.store.store = ops.foldl (fun s op => op.on s) w.store.store := by
  cases action with
  | setClock sec nsec => exact ⟨[.setClock ⟨sec, nsec⟩], rfl⟩
  | putFile path bytes => exact ⟨[.putFile path bytes], rfl⟩
  | putDirectory path => exact ⟨[.putDirectory path], rfl⟩
  | putMany stem count bytes =>
    refine ⟨(List.range count).map fun k => .putFile (stem ++ Radix.padded 10 4 k) bytes, ?_⟩
    rw [List.foldl_map]
    rfl
  | setFaults faults => exact ⟨[.setFaults faults], rfl⟩
  | resetCalls => exact ⟨[.clearCalls], rfl⟩
  | shutdown => exact ⟨[.shutdown], rfl⟩
  | openPath path flags mode => exact ⟨[.openPath path flags mode], rfl⟩
  | read fd length offset => exact ⟨[.read fd (markedBuffer length) offset], rfl⟩
  | write fd bytes offset => exact ⟨[.write fd bytes offset], rfl⟩
  | flush fd => exact ⟨[.flush fd], rfl⟩
  | close fd => exact ⟨[.close fd], rfl⟩
  | getAttr path => exact ⟨[.getAttr path], rfl⟩
  | mkdirs path mode => exact ⟨[.mkdirs path mode], rfl⟩
  | unlink path => exact ⟨[.unlink path], rfl⟩
  | rmdir path => exact ⟨[.rmdir path], rfl⟩
  | rename source target => exact ⟨[.rename source target], rfl⟩
  | readdir fd limit => exact ⟨[.readdir fd limit], rfl⟩
  | batchGetAttr fd inodes => exact ⟨[.batchGetAttr fd inodes], rfl⟩
  | fchmod fd mode => exact ⟨[.fchmod fd mode], rfl⟩
  | setScript | contents | contains | isShutDown | calls => exact ⟨[], rfl⟩

private theorem isShutDown_step (hw : w.Orderly) (h : w.store.store.isShutDown = true)
    {action : Action} (haction : action.Spares) :
    (w.step action).2.store.store.isShutDown = true := by
  have hbook := book_isShutDown.scripted
  have hw : w.tick.Owns fun _ (s : WorldStore) => s.store.isShutDown = true :=
    hw.owns_of_eq h rfl rfl rfl
  cases action with
  | store action =>
    obtain ⟨ops, hops⟩ := w.tick.exists_operations_onStore action
    show (w.tick.onStore action).2.store.store.isShutDown = true
    rw [hops]
    have hstart : w.tick.store.store.isShutDown = true := h
    generalize w.tick.store.store = s at hstart ⊢
    clear hops
    induction ops generalizing s with
    | nil => exact hstart
    | cons op ops ih => exact ih _ (op.isShutDown_on hstart)
  | session action => exact (hw.onSession hbook action).opened
  | volume action => exact (hw.onVolume hbook action).opened
  | listing action => exact (hw.onListing hbook action).opened
  | handle action => exact haction.elim
  | output action => exact (hw.onOutput hbook action).opened
  | reader action => exact (hw.onReader hbook action).opened
  | pool action => exact (hw.onPool action).opened

private theorem isShutDown_run (hw : w.Owns IsOpen) (h : w.store.store.isShutDown = true)
    {actions : List Action} (hactions : ∀ action ∈ actions, action.Spares) :
    (w.run actions).store.store.isShutDown = true := by
  induction actions generalizing w with
  | nil => exact h
  | cons action actions ih =>
    have haction := hactions action List.mem_cons_self
    exact ih (hw.step haction) (isShutDown_step hw.toOrderly h haction) fun a ha =>
      hactions a (List.mem_cons_of_mem _ ha)

private theorem isShutDown_of_endsSession {client : Client}
    (hstate : w.volume.session.state = .connected client) {action : Action}
    (hends : action.EndsSession) : (w.step action).2.store.store.isShutDown = true := by
  have hshutdown : w.tick.volume.session.shutdown =
      (some client, { w.tick.volume.session with state := .closed }) := by
    unfold Session.shutdown
    rw [show w.tick.volume.session.state = .connected client from hstate]
  cases action with
  | session action =>
    cases action with
    | shutdown =>
      simp only [step, perform, onSession, hshutdown]
      rfl
    | _ => exact hends.elim
  | volume action =>
    cases action with
    | close =>
      simp only [step, perform, onVolume, Volume.close, hshutdown]
      rfl
    | _ => exact hends.elim
  | _ => exact hends.elim

theorem run_concat (w : World) (actions : List Action) (action : Action) :
    w.run (actions ++ [action]) = ((w.run actions).step action).2 := by
  rw [run, List.foldl_append]
  rfl

theorem run_append (w : World) (actions more : List Action) :
    w.run (actions ++ more) = (w.run actions).run more := List.foldl_append

theorem hasConnected_concat {actions : List Action} {action : Action} :
    w.HasConnected (actions ++ [action]) ↔ w.HasConnected actions ∨
      (w.run (actions ++ [action])).volume.session.isConnected = true := by
  constructor
  · rintro ⟨earlier, hearlier, hconnected⟩
    rcases List.prefix_concat_iff.1 hearlier with rfl | hearlier
    · exact .inr hconnected
    · exact .inl ⟨earlier, hearlier, hconnected⟩
  · rintro (⟨earlier, hearlier, hconnected⟩ | hconnected)
    · exact ⟨earlier, hearlier.trans (List.prefix_append _ _), hconnected⟩
    · exact ⟨_, List.prefix_rfl, hconnected⟩

/-- What is alive needs a client. Once the session has held one it is not idle, and when it is
closed then the store was shut down. -/
structure Begun (had : Prop) (w : World) : Prop where
  owns : w.Owns IsOpen
  isBare : ¬ had → w.IsBare
  ne_idle : had → w.volume.session.state ≠ .idle
  isShutDown : had → w.volume.session.state = .closed → w.store.store.isShutDown = true

private theorem Begun.step {had : Prop} (hw : w.Begun had) {action : Action}
    (haction : action.Spares) (hclient : action.TakesClient → had) :
    (w.step action).2.Begun (had ∨ (w.step action).2.volume.session.isConnected = true) where
  owns := hw.owns.step haction
  isBare := by
    intro hnone
    obtain ⟨hnever, hnow⟩ := not_or.1 hnone
    exact (hw.isBare hnever).step haction (fun h => hnever (hclient h)) (Bool.eq_false_iff.2 hnow)
  ne_idle := by
    rintro (hearlier | hnow)
    · refine session_step (·.state ≠ .idle) haction Session.client_ne_idle (fun _ s _ => ?_)
        (hw.ne_idle hearlier)
      rw [s.state_shutdown]
      nofun
    · intro hidle
      rw [Session.isConnected, hidle] at hnow
      cases hnow
  isShutDown := by
    rintro (hearlier | hnow) hclosed
    · cases hstate : w.volume.session.state with
      | idle => exact absurd hstate (hw.ne_idle hearlier)
      | closed =>
        exact isShutDown_step hw.owns.toOrderly (hw.isShutDown hearlier hstate) haction
      | connected client =>
        by_cases hends : action.EndsSession
        · exact isShutDown_of_endsSession hstate hends
        · have hstill := session_step (·.state = .connected client) haction
            (fun h => by rwa [Session.client_of_connected h]) (fun h => absurd h hends) hstate
          rw [hclosed] at hstill
          cases hstill
    · rw [Session.isConnected, hclosed] at hnow
      cases hnow

private theorem begun_run {session : Session} {options : Options} {identity : Identity}
    {poolConfig : PoolConfig} (hstart : World.start session options identity poolConfig = .ok w)
    {actions : List Action} (hactions : ∀ action ∈ actions, action.Spares)
    (hclient : w.SharesClient actions) :
    (w.run actions).Begun (w.HasConnected actions) := by
  -- The induction is on the end of the scenario, since what was had before an action depends on all
  -- that came before it.
  induction actions using List.reverseRecOn with
  | nil =>
    have hbare : w.IsBare := by
      unfold World.start at hstart
      split at hstart
      · cases hstart
      · cases hstart
        exact ⟨rfl, rfl, rfl⟩
    have hconnected (h : w.HasConnected []) : w.volume.session.isConnected = true := by
      obtain ⟨earlier, hearlier, hconnected⟩ := h
      obtain rfl := List.prefix_nil.1 hearlier
      exact hconnected
    refine ⟨owns_start hstart, fun _ => hbare, fun h hidle => ?_, fun h hclosed => ?_⟩
    · have := hconnected h
      rw [Session.isConnected, show w.volume.session.state = .idle from hidle] at this
      cases this
    · have := hconnected h
      rw [Session.isConnected, show w.volume.session.state = .closed from hclosed] at this
      cases this
  | append_singleton actions action ih =>
    have hrun := ih (fun a ha => hactions a (List.mem_append_left _ ha))
      fun earlier a h => hclient earlier a (h.trans (List.prefix_append _ _))
    have hstep := hrun.step
      (hactions action (List.mem_append_right _ List.mem_cons_self))
      (hclient actions action List.prefix_rfl)
    rw [run_concat, hasConnected_concat, run_concat]
    exact hstep

/-- A world whose volume was closed. The store has the tree of an earlier one, and nothing is open
that was not open then. -/
structure Ended (before : Store) (w : World) : Prop where
  owns : w.Owns IsOpen
  isClosed : w.volume.session.state = .closed
  tree : w.store.store.tree = before.tree
  isSome_openFile? : ∀ fd, (w.store.store.openFile? fd).isSome = true →
    (before.openFile? fd).isSome = true
  isOver : w.store.store.isShutDown = true ∨ w.IsBare

variable {before : Store}

private theorem Ended.step_of_isShutDown (hw : w.Ended before)
    (hdown : w.store.store.isShutDown = true) {action : Action} (haction : action.Uses) :
    (w.step action).2.Ended before := by
  have hbook := (book_frozen before).scripted
  have hw' : w.tick.Owns fun fds (s : WorldStore) => s.store.Frozen before fds :=
    hw.owns.owns_of_eq ⟨hdown, hw.tree, hw.owns.tick.opened, hw.isSome_openFile?⟩ rfl rfl rfl
  have hafter :
      (w.step action).2.Owns fun fds (s : WorldStore) => s.store.Frozen before fds := by
    cases action with
    | store action =>
      have hopen := (hw.owns.step haction.spares).opened
      cases action with
      | setClock | setScript | setFaults =>
        exact hw.owns.owns_of_eq ⟨hdown, hw.tree, hopen, hw.isSome_openFile?⟩ rfl rfl rfl
      | _ => exact haction.elim
    | session action => exact hw'.onSession hbook action
    | volume action => exact hw'.onVolume hbook action
    | listing action => exact hw'.onListing hbook action
    | handle action => exact haction.elim
    | output action => exact hw'.onOutput hbook action
    | reader action => exact hw'.onReader hbook action
    | pool action => exact hw'.onPool action
  exact ⟨hafter.toOrderly.owns_of_eq hafter.opened.opened rfl rfl rfl,
    isClosed_step hw.isClosed haction.spares, hafter.opened.tree,
    hafter.opened.isSome_openFile?, .inl hafter.opened.isShutDown⟩

private theorem Ended.step (hw : w.Ended before) {action : Action} (haction : action.Uses)
    (hclient : action.TakesClient → w.store.store.isShutDown = true) :
    (w.step action).2.Ended before := by
  by_cases hdown : w.store.store.isShutDown = true
  · exact hw.step_of_isShutDown hdown haction
  · have hbare := hw.isOver.resolve_left hdown
    have hnone : ¬ action.TakesClient := fun h => hdown (hclient h)
    have hclosed := isClosed_step hw.isClosed haction.spares
    have hafter := hbare.step haction.spares hnone (by rw [Session.isConnected, hclosed])
    have howns := hw.owns.step haction.spares
    refine ⟨howns, hclosed, (tree_step_of_bare hbare hw.isClosed haction hnone).trans hw.tree,
      fun fd hopen => ?_, .inr hafter⟩
    have hheld := howns.opened.mem_of_isSome fd hopen
    rw [hafter.held_eq] at hheld
    exact absurd hheld (Multiset.notMem_zero fd)

private theorem Ended.run (hw : w.Ended before) {actions : List Action}
    (hactions : ∀ action ∈ actions, action.Uses)
    (hclient : ∀ action ∈ actions, action.TakesClient → w.store.store.isShutDown = true) :
    (w.run actions).Ended before := by
  induction actions generalizing w with
  | nil => exact hw
  | cons action actions ih =>
    have haction := hactions action List.mem_cons_self
    refine ih (hw.step haction (hclient action List.mem_cons_self))
      (fun a ha => hactions a (List.mem_cons_of_mem _ ha)) fun a ha h => ?_
    exact isShutDown_step hw.owns.toOrderly (hclient a (List.mem_cons_of_mem _ ha) h)
      haction.spares

private theorem exists_of_mem_released {α : Type} {slots : Slots α} {name : String}
    {holds : α → Multiset Fd} {fd : Fd} (h : fd ∈ (slots.get? name).elim 0 holds) :
    ∃ a, slots.get? name = some a ∧ fd ∈ holds a := by
  cases hget : slots.get? name with
  | none =>
    rw [hget] at h
    exact absurd h (Multiset.notMem_zero fd)
  | some a =>
    rw [hget] at h
    exact ⟨a, rfl, h⟩

/-- What is alive gives its descriptor back when it is closed or let go of. It was open, unless its
number came back and another one with that number was closed. -/
theorem released_step (hw : w.Owns IsOpen) {action : Action} {fd : Fd}
    (hfd : fd ∈ w.released action) :
    (w.store.store.calls.opens ≤ Int32.size → (w.store.store.openFile? fd).isSome = true) ∧
      (w.step action).2.store.store.openFile? fd = none := by
  have hbook := (book_isSome fd).scripted
  have hw := hw.tick
  have hfd : fd ∈ w.tick.released action := hfd
  show (w.tick.store.store.calls.opens ≤ Int32.size →
    (w.tick.store.store.openFile? fd).isSome = true) ∧
    (w.tick.perform action).2.store.store.openFile? fd = none
  generalize w.tick = w at hw hfd ⊢
  have hopen {own others : Multiset Fd} (hs : IsOpen (own + others) w.store) (hfd : fd ∈ own) :
      w.store.store.calls.opens ≤ Int32.size → (w.store.store.openFile? fd).isSome = true :=
    fun hsize => hs.isSome_of_mem hsize fd (Multiset.mem_add.2 (.inl hfd))
  have hown {own : Multiset Fd} (hfd : fd ∈ own) :
      (w.store.store.openFile? fd).isSome = true → fd ∈ own + 0 :=
    fun _ => Multiset.mem_add.2 (.inl hfd)
  have hnone {s : WorldStore}
      (h : (s.store.openFile? fd).isSome = true → fd ∈ (0 : Multiset Fd)) :
      s.store.openFile? fd = none := by
    rw [← Option.isNone_iff_eq_none, ← Option.isSome_eq_false_iff, ← Bool.not_eq_true]
    exact fun hsome => Multiset.notMem_zero fd (h hsome)
  cases action with
  | output action =>
    cases action with
    | close name =>
      obtain ⟨o, hget, hfd⟩ := exists_of_mem_released hfd
      have ho := hw.ofOutputs.of_get? hget
      have hclosed := Output.opened_close hbook (Output.owns_iff.2 ⟨ho.1, hown hfd⟩)
      simp only [perform, onOutput, callOutput, useOutput, hget]
      exact ⟨hopen ho.2 hfd, hnone hclosed⟩
    | drop name =>
      obtain ⟨o, hget, hfd⟩ := exists_of_mem_released hfd
      have ho := hw.ofOutputs.of_get? hget
      have hdropped := Output.Owns.drop hbook (Output.owns_iff.2 ⟨ho.1, hown hfd⟩)
      simp only [perform, onOutput, hget]
      exact ⟨hopen ho.2 hfd, hnone hdropped⟩
    | _ => exact absurd hfd (Multiset.notMem_zero fd)
  | reader action =>
    cases action with
    | close name | drop name =>
      obtain ⟨⟨r, home⟩, hget, hfd⟩ := exists_of_mem_released hfd
      have hr := hw.ofReaders.of_get? hget
      have hclosed := (Reader.Owns.close hbook ⟨hr.1, hown hfd⟩).2
      simp only [perform, onReader, hget]
      rw [(w.closeReader_eq r home).2.1]
      exact ⟨hopen hr.2 hfd, hnone hclosed⟩
    | _ => exact absurd hfd (Multiset.notMem_zero fd)
  | listing action =>
    cases action with
    | drop name =>
      obtain ⟨l, hget, hfd⟩ := exists_of_mem_released hfd
      have hl := (hw.ofListings.of_get? hget).2
      have hdropped := Listing.opened_drop hbook (hown hfd)
      simp only [perform, onListing, hget]
      exact ⟨hopen hl hfd, hnone hdropped⟩
    | _ => exact absurd hfd (Multiset.notMem_zero fd)
  | _ => exact absurd hfd (Multiset.notMem_zero fd)

private theorem Begun.ended {had : Prop} (hw : w.Begun had)
    (hclosed : w.volume.session.state = .closed) :
    w.Ended w.store.store where
  owns := hw.owns
  isClosed := hclosed
  tree := rfl
  isSome_openFile? _ := id
  isOver := by
    by_cases hhad : had
    · exact .inl (hw.isShutDown hhad hclosed)
    · exact .inr (hw.isBare hhad)

theorem hasConnected_of_append {actions more : List Action}
    (hclosed : (w.run actions).volume.session.state = .closed)
    (hmore : ∀ action ∈ more, action.Spares) (h : w.HasConnected (actions ++ more)) :
    w.HasConnected actions := by
  obtain ⟨earlier, hearlier, hconnected⟩ := h
  rcases List.prefix_or_prefix_of_prefix hearlier (List.prefix_append actions more) with
    hbefore | ⟨rest, rfl⟩
  · exact ⟨earlier, hbefore, hconnected⟩
  · have hrest : rest <+: more := (List.prefix_append_right_inj actions).1 hearlier
    rw [run_append, Session.isConnected,
      isClosed_run hclosed fun a ha => hmore a (hrest.subset ha)] at hconnected
    cases hconnected

/-- Once its volume was closed, in whatever state the streams and listings were left, the tree of a
store stays as it is in all that follows. Operations of the volume that need the client are refused,
no descriptor is opened, and what is closed or let go of still gives its descriptor back, which was
open until then unless its number came back earlier. Streams and listings that are not made by the
volume are made on the client that the session has handed out. -/
theorem frozen_of_close {session : Session} {options : Options} {identity : Identity}
    {poolConfig : PoolConfig} (hstart : World.start session options identity poolConfig = .ok w)
    {before later : List Action} (hbefore : ∀ action ∈ before, action.Spares)
    (hlater : ∀ action ∈ later, action.Uses)
    (hclient : w.SharesClient (before ++ [.volume .close] ++ later)) :
    let closed := w.run (before ++ [.volume .close])
    let after := closed.run later
    (∀ action : VolumeAction, action.NeedsClient →
      (after.step (.volume action)).1 = .volumeError (.session .sessionClosed)) ∧
      after.store.store.tree = closed.store.store.tree ∧
      (∀ earlier, earlier <+: later →
        after.store.store.openDescriptors ≤
          (closed.run earlier).store.store.openDescriptors) ∧
      ∀ action fd, fd ∈ after.released action →
        (after.store.store.calls.opens ≤ Int32.size →
          (after.store.store.openFile? fd).isSome = true) ∧
          (after.step action).2.store.store.openFile? fd = none := by
  intro closed after
  have hspares : ∀ action ∈ before ++ [.volume .close], action.Spares := by
    intro action haction
    rcases List.mem_append.1 haction with haction | haction
    · exact hbefore action haction
    · rw [List.mem_singleton.1 haction]
      trivial
  have hbegun := begun_run hstart hspares fun earlier action h =>
    hclient earlier action (h.trans (List.prefix_append _ _))
  have hclosed : closed.volume.session.state = .closed := by
    show (w.run (before ++ [.volume .close])).volume.session.state = .closed
    rw [run_concat]
    exact Session.state_shutdown _
  have hended : closed.Ended closed.store.store := hbegun.ended hclosed
  have hdown : ∀ action ∈ later, action.TakesClient → closed.store.store.isShutDown = true := by
    intro action haction htakes
    obtain ⟨earlier, rest, rfl⟩ := List.append_of_mem haction
    have hpre : before ++ [.volume .close] ++ earlier ++ [action] <+:
        before ++ [.volume .close] ++ (earlier ++ action :: rest) :=
      ⟨rest, by simp⟩
    have hconnected := hclient _ action hpre htakes
    refine hbegun.isShutDown (hasConnected_of_append hclosed (fun a ha => ?_) hconnected) hclosed
    exact (hlater a (List.mem_append_left _ ha)).spares
  have hafter := hended.run hlater hdown
  refine ⟨fun action hneeds => ?_, hafter.tree, ?_, fun action fd hfd =>
    released_step hafter.owns hfd⟩
  · have hrefused : after.tick.volume.session.state = .closed := hafter.isClosed
    exact (onVolume_of_closed hrefused hneeds).1
  · rintro earlier ⟨rest, rfl⟩
    have hmiddle := hended.run (fun a ha => hlater a (List.mem_append_left _ ha)) fun a ha =>
      hdown a (List.mem_append_left _ ha)
    have hrest : (closed.run earlier).Ended (closed.run earlier).store.store :=
      ⟨hmiddle.owns, hmiddle.isClosed, rfl, fun _ => id, hmiddle.isOver⟩
    have hthen := hrest.run (fun a ha => hlater a (List.mem_append_right _ ha)) fun a ha htakes =>
      isShutDown_run hended.owns (hdown a (List.mem_append_right _ ha) htakes) fun a ha =>
        (hlater a (List.mem_append_left _ ha)).spares
    rw [← run_append closed] at hthen
    exact Store.openDescriptors_le hthen.isSome_openFile?

/-- An atomic stream and a listing are alive when the volume is closed. The stream cannot replace
its file any more, and gives its descriptor back; the listing keeps its own. -/
theorem frozen_of_close_atomic_stream :
    let before : List Action := [
      .store (.putFile "/f" "old".toUTF8),
      .volume (.create "/f" { atomic := true } "stream"),
      .output (.writeBytes "stream" "new".toUTF8),
      .volume (.listing "/" "entries"),
      .listing (.next "entries" 1)]
    let later : List Action := [
      .output (.writeBytes "stream" "er".toUTF8),
      .output (.close "stream")]
    let w : World := {
      store := { store := .new startClock }
      volume := {
        session := .withClient {} ⟨0⟩, options := { listBatchSize := 1 },
        pool := { config := {} }, identity := .ofUser "user" }
      pool := { config := {} } }
    let closed := w.run (before ++ [.volume .close])
    let after := closed.run later
    World.start (.withClient {} ⟨0⟩) { listBatchSize := 1 } (.ofUser "user") {} = .ok w ∧
      closed.held = {⟨3⟩, ⟨4⟩} ∧ after.held = {⟨4⟩} ∧
      after.store.store.tree = closed.store.store.tree ∧
      after.store.store.openDescriptors ≤ closed.store.store.openDescriptors ∧
      (after.store.store.contents? "/f").map (·.data) = some "old".toUTF8.data ∧
      (after.step (.volume (.list "/"))).1 = .volumeError (.session .sessionClosed) ∧
      (after.step (.listing (.drop "entries"))).2.store.store.openFile? ⟨4⟩ = none := by
  intro before later w
  have hstart : World.start (.withClient {} ⟨0⟩) { listBatchSize := 1 } (.ofUser "user") {} =
      .ok w := rfl
  have hruns : (w.run (before ++ [.volume .close])).held = {⟨3⟩, ⟨4⟩} ∧
      ((w.run (before ++ [.volume .close])).run later).held = {⟨4⟩} ∧
      ⟨4⟩ ∈ ((w.run (before ++ [.volume .close])).run later).released
        (.listing (.drop "entries")) ∧
      (((w.run (before ++ [.volume .close])).run later).store.store.contents? "/f").map (·.data) =
        some "old".toUTF8.data := by
    decide +kernel
  have hbefore : ∀ action ∈ before, action.Spares := by simp [before, Action.Spares]
  have hlater : ∀ action ∈ later, action.Uses := by simp [later, Action.Uses]
  have hown : ∀ action ∈ before ++ [.volume .close] ++ later, ¬ action.TakesClient := by
    simp [before, later, Action.TakesClient]
  have hclient : w.SharesClient (before ++ [.volume .close] ++ later) := by
    intro earlier action hpre htakes
    exact absurd htakes (hown action
      (hpre.subset (List.mem_append_right _ List.mem_cons_self)))
  have hfrozen := frozen_of_close hstart hbefore hlater hclient
  dsimp only at hfrozen ⊢
  -- The run is kept shut from here on, or it is evaluated again at every comparison.
  generalize w.run (before ++ [.volume .close]) = closed at hfrozen hruns ⊢
  obtain ⟨hheld, hafter, hreleased, hcontents⟩ := hruns
  obtain ⟨hrefused, htree, hcount, hgone⟩ := hfrozen
  exact ⟨hstart, hheld, hafter, htree, hcount [] List.nil_prefix, hcontents,
    hrefused (.list "/") trivial, (hgone (.listing (.drop "entries")) ⟨4⟩ hreleased).2⟩

end Scenario.World
end VolumeFs
