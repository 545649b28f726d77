import VolumeFs.Proofs.ListedNames
import VolumeFs.Proofs.Paths
import VolumeFs.Proofs.Store.Interrupted
import VolumeFs.Volume.Basic

/-!
# What a listing finds

A listing leaves the tree alone, whichever of its calls fail, and shows nothing but children of
the directory, under the names that the store lists for them.
-/

namespace VolumeFs

open Memory

/-- A name that may be listed in the directory at the names. -/
def Memory.Tree.Lists (t : Tree) (dirs : List String) (name : String) : Prop :=
  IsEntryName name ∧ (name = ".." → t.resolve (dirs ++ [".."]) ≠ none)

namespace Memory.Store

variable {s s' : Store} {fd : Fd}

private theorem openFile?_batchGetAttr (s : Store) (fd : Fd) (inodes : List UInt64) (other : Fd) :
    (s.batchGetAttr fd inodes).2.openFile? other = s.openFile? other := by
  simp only [batchGetAttr]
  repeat' split
  all_goals rfl

private theorem exists_openFile?_readdir {file : OpenFile} (h : s.openFile? fd = some file)
    (limit : Nat) :
    ∃ file', (s.readdir fd limit).2.openFile? fd = some file' ∧ file'.ino = file.ino := by
  simp only [openFile?] at h
  simp only [readdir, openFile?, h]
  split
  · exact ⟨file, h, rfl⟩
  · split
    · exact ⟨file, h, rfl⟩
    · split
      · exact ⟨file, h, rfl⟩
      · simp only
        split
        · rename_i last _
          refine ⟨{ file with cursor := some last.name }, ?_, rfl⟩
          rw [Std.TreeMap.getElem?_modify_self, h]
          rfl
        · exact ⟨file, h, rfl⟩

private theorem mem_children_of_mem_childrenAfter {children : Std.TreeMap String Ino}
    {cursor : Option String} {child : String × Ino} (h : child ∈ childrenAfter children cursor) :
    children[child.1]? = some child.2 := by
  apply Std.TreeMap.mem_toList_iff_getElem?_eq_some.1
  unfold childrenAfter at h
  split at h
  · exact h
  · exact (List.mem_filter.1 h).1

private theorem mem_children_of_readdir (hs : s.tree.Forest) {limit : Nat} {entries : List Dirent}
    (h : s.readdir fd limit = (.ok entries, s')) {dirs : List String} {file : OpenFile}
    (hfile : s.openFile? fd = some file) (hdirs : s.tree.resolve dirs = some file.ino) :
    ∀ d ∈ entries, s.tree.Lists dirs d.name := by
  simp only [openFile?] at hfile
  simp only [readdir, openFile?, hfile] at h
  split at h
  · cases h
  · split at h
    · cases h
    · split at h
      · cases h
      · rename_i children hchildren
        obtain ⟨hentries, -⟩ := Prod.mk.inj h
        rw [transferred, Dirent.decodeAll_flatMap_encode] at hentries
        · obtain rfl := Except.ok.inj hentries
          intro d hd
          obtain ⟨child, hchild, rfl⟩ := List.mem_map.1 hd
          have hlink : s.tree.link? file.ino child.1 = some child.2 := by
            rw [Tree.link?, Tree.children_eq_ok_iff.1 hchildren, Option.bind_some]
            exact mem_children_of_mem_childrenAfter (List.mem_of_mem_take hchild)
          refine ⟨Dirent.isEntryName_name_ofName (hs.isEntryName hlink), fun hdots => ?_⟩
          rw [← Dirent.eq_of_name_ofName hdots, Tree.resolve_concat_of_eq hdirs, hlink]
          simp
        · intro d hd
          obtain ⟨child, -, rfl⟩ := List.mem_map.1 hd
          exact Dirent.nameLength_ofName_le _ _ _

end Memory.Store

/-- The status of a child, as far as its path goes. -/
def IsChild (t : Tree) (path : String) (status : Status) : Prop :=
  ∃ name, t.Lists (components path) name ∧ status.path = Path.join path name

theorem Status.path_of_ofStat? {path : String} {stat : Stat} {identity : Identity}
    {blockSize : UInt64} {status : Status}
    (h : ofStat? path stat identity blockSize = some status) :
    status.path = path := by
  unfold ofStat? at h
  split at h
  · cases h
    rfl
  · split at h
    · cases h
      rfl
    · cases h

structure Walking (keeps : Tree → Prop) (t : Tree) (path : String) (l : Listing)
    (s : Interrupted) : Prop where
  always : s.Always keeps
  tree : s.store.tree = t
  path_eq : l.path = path
  ready : ∀ status ∈ l.ready, IsChild t path status
  handle : ∀ handle, l.state.handle? = some handle → ∃ file,
    s.store.openFile? handle.fd = some file ∧ t.resolve (components path) = some file.ino
  entries : ∀ handle entries, l.state = .resolving handle entries →
    ∀ d ∈ entries, t.Lists (components path) d.name

section Walking

variable {α : Type} {keeps : Tree → Prop} {t : Tree} {path : String} {l l' : Listing}
  {s s' : Interrupted}

private theorem always_of_guarded {call : Store → Except Errno α × Store} {answer : Except Errno α}
    (hs : s.Always keeps) (h : s.guarded call = (answer, s'))
    (htree : ∀ s, (call s).2.tree = s.tree) :
    s'.Always keeps ∧ s'.store.tree = s.store.tree := by
  refine ⟨hs.of_guarded h (by rw [htree]; exact hs.now), ?_⟩
  exact Interrupted.store_of_guarded h (·.tree = s.store.tree) rfl (htree s.store)

private theorem Walking.of_final (h : Walking keeps t path l s) (hs : s'.Always keeps)
    (htree : s'.store.tree = t) (hpath : l'.path = l.path)
    (hready : ∀ status ∈ l'.ready, status ∈ l.ready)
    (hstate : l'.state.handle? = none) : Walking keeps t path l' s' where
  always := hs
  tree := htree
  path_eq := hpath.trans h.path_eq
  ready status hstatus := h.ready status (hready status hstatus)
  handle := by
    intro handle hhandle
    rw [hstate] at hhandle
    cases hhandle
  entries := by
    intro handle entries hentries
    rw [hentries] at hstate
    cases hstate

private theorem Walking.of_close (h : Walking keeps t path l s) {handle : Handle}
    {answer : Except Errno Unit} (hclose : StoreClient.close s handle.fd = (answer, s'))
    (hpath : l'.path = l.path) (hready : ∀ status ∈ l'.ready, status ∈ l.ready)
    (hstate : l'.state.handle? = none) : Walking keeps t path l' s' := by
  obtain ⟨hs', htree⟩ := always_of_guarded h.always hclose (fun s => s.tree_close handle.fd)
  exact h.of_final hs' (htree.trans h.tree) hpath hready hstate

private theorem Walking.fail (h : Walking keeps t path l s) (handle : Handle)
    (error : VolumeError) :
    Walking keeps t path (l.fail s handle error).2.1 (l.fail s handle error).2.2 := by
  unfold Listing.fail Handle.close
  generalize hclose : StoreClient.close s handle.fd = result
  obtain ⟨answer, s'⟩ := result
  cases answer with
  | ok => exact h.of_close hclose rfl (fun _ => id) rfl
  | error code => exact h.of_close hclose rfl (fun _ => id) rfl

private theorem Walking.finish (h : Walking keeps t path l s) (handle : Handle) :
    Walking keeps t path (l.finish s handle).2.1 (l.finish s handle).2.2 := by
  unfold Listing.finish Handle.close
  generalize hclose : StoreClient.close s handle.fd = result
  obtain ⟨answer, s'⟩ := result
  cases answer with
  | ok => exact h.of_close hclose rfl (fun _ => id) rfl
  | error code => exact h.of_close hclose rfl (fun _ => id) rfl

private theorem Walking.of_guarded {call : Store → Except Errno α × Store} {answer : Except Errno α}
    (h : Walking keeps t path l s) (hcall : s.guarded call = (answer, s'))
    (htree : ∀ s, (call s).2.tree = s.tree)
    (hopen : ∀ handle file, l.state.handle? = some handle →
      s.store.openFile? handle.fd = some file →
      ∃ file', (call s.store).2.openFile? handle.fd = some file' ∧ file'.ino = file.ino) :
    Walking keeps t path l s' := by
  obtain ⟨hs', htree'⟩ := always_of_guarded h.always hcall htree
  refine ⟨hs', htree'.trans h.tree, h.path_eq, h.ready, ?_, h.entries⟩
  intro handle hhandle
  obtain ⟨file, hfile, hino⟩ := h.handle handle hhandle
  obtain ⟨file', hfile', hino'⟩ := Interrupted.store_of_guarded hcall
    (fun store => ∃ file', store.openFile? handle.fd = some file' ∧ file'.ino = file.ino)
    ⟨file, hfile, rfl⟩ (hopen handle file hhandle hfile)
  exact ⟨file', hfile', by rw [hino, hino']⟩

private theorem Walking.start (h : Walking keeps t path l s) :
    (l.start s).2.Always keeps ∧ (l.start s).2.store.tree = t ∧
      ∀ handle, (l.start s).1 = .ok (some handle) → ∃ file,
        (l.start s).2.store.openFile? handle.fd = some file ∧
        t.resolve (components path) = some file.ino := by
  unfold Listing.start
  generalize hattr : StoreClient.getAttr s l.path = result
  obtain ⟨answer, s₁⟩ := result
  obtain ⟨hs₁, htree⟩ := always_of_guarded h.always hattr (fun s => s.tree_getAttr l.path)
  have htree₁ := htree.trans h.tree
  cases answer with
  | error code => exact ⟨hs₁, htree₁, nofun⟩
  | ok stat =>
    simp only
    split
    · exact ⟨hs₁, htree₁, nofun⟩
    · unfold Handle.openPath
      generalize hopen : StoreClient.openPath s₁ l.path .readOnly Listing.openMode = result
      obtain ⟨answer, s₂⟩ := result
      obtain ⟨hs₂, htree₂⟩ := always_of_guarded hs₁ hopen
        (fun s => s.tree_openPath_readOnly l.path Listing.openMode)
      cases answer with
      | error code => exact ⟨hs₂, htree₂.trans htree₁, nofun⟩
      | ok fd =>
        refine ⟨hs₂, htree₂.trans htree₁, ?_⟩
        rintro handle ⟨⟩
        obtain ⟨store, rfl, hcall | ⟨⟨code, hcode⟩, -⟩⟩ := Interrupted.guarded_eq hopen
        · obtain ⟨-, file, hfile, hlookup⟩ := Store.openPath_readOnly_eq_ok hcall.symm
          refine ⟨file, hfile, ?_⟩
          rw [← htree₁, ← h.path_eq]
          exact Tree.lookup_eq_ok_iff.1 hlookup
        · cases hcode

private theorem Walking.isChild_of_mem_classify (h : Walking keeps t path l s)
    {entries : List Dirent} (hentries : ∀ d ∈ entries, t.Lists (components path) d.name)
    {stats : List Stat} {status : Status} (hstatus : status ∈ l.classify entries stats) :
    IsChild t path status := by
  obtain ⟨stat, -, hfound⟩ := List.mem_filterMap.1 hstatus
  obtain ⟨name, hname, hstatus⟩ := Option.bind_eq_some_iff.1 hfound
  obtain ⟨d, hd, rfl⟩ := Option.map_eq_some_iff.1 hname
  have hmem : d ∈ entries := List.mem_reverse.1 (List.mem_of_find?_eq_some hd)
  refine ⟨d.name, hentries d hmem, ?_⟩
  rw [← h.path_eq]
  exact Status.path_of_ofStat? hstatus

private theorem Walking.step_of_idle (h : Walking keeps t path l s) (hstate : l.state = .idle) :
    Walking keeps t path (l.step s).2.1 (l.step s).2.2 := by
  obtain ⟨hs', htree, hhandle⟩ := h.start
  unfold Listing.step
  rw [hstate]
  simp only
  generalize l.start s = result at hs' htree hhandle
  obtain ⟨answer, s'⟩ := result
  rcases answer with e | _ | handle
  · exact h.of_final hs' htree rfl (fun _ => id) rfl
  · exact h.of_final hs' htree rfl (fun _ => id) rfl
  · refine ⟨hs', htree, h.path_eq, h.ready, ?_, nofun⟩
    rintro handle' ⟨⟩
    exact hhandle handle rfl

private theorem Walking.step_of_awaitingBatch (h : Walking keeps t path l s)
    (hs : s.store.tree.Forest) {handle : Handle} (hstate : l.state = .awaitingBatch handle) :
    Walking keeps t path (l.step s).2.1 (l.step s).2.2 := by
  have hheld : l.state.handle? = some handle := by rw [hstate]; rfl
  unfold Listing.step
  rw [hstate]
  simp only
  generalize hread : StoreClient.readdir s handle.fd l.batchSize = result
  obtain ⟨answer, s'⟩ := result
  have h' : Walking keeps t path l s' := by
    refine h.of_guarded hread (fun s => s.tree_readdir handle.fd l.batchSize) ?_
    intro handle' file hhandle' hfile
    obtain rfl : handle = handle' := Option.some.inj (hheld.symm.trans hhandle')
    exact Store.exists_openFile?_readdir hfile l.batchSize
  rcases answer with code | _ | ⟨first, rest⟩
  · exact h'.fail handle _
  · exact h'.finish handle
  · refine ⟨h'.always, h'.tree, h'.path_eq, h'.ready, ?_, ?_⟩
    · rintro handle' ⟨⟩
      exact h'.handle handle hheld
    · rintro handle' entries ⟨⟩
      obtain ⟨store, rfl, hcall | ⟨⟨code, hcode⟩, -⟩⟩ := Interrupted.guarded_eq hread
      · obtain ⟨file, hfile, hino⟩ := h.handle handle hheld
        rw [← h.tree] at hino ⊢
        exact Store.mem_children_of_readdir hs hcall.symm hfile hino
      · cases hcode

private theorem Walking.step_of_resolving (h : Walking keeps t path l s) {handle : Handle}
    {entries : List Dirent} (hstate : l.state = .resolving handle entries) :
    Walking keeps t path (l.step s).2.1 (l.step s).2.2 := by
  have hheld : l.state.handle? = some handle := by rw [hstate]; rfl
  unfold Listing.step
  rw [hstate]
  simp only
  generalize hbatch : StoreClient.batchGetAttr s handle.fd (entries.map (·.ino)) = result
  obtain ⟨answer, s'⟩ := result
  have h' : Walking keeps t path l s' := by
    refine h.of_guarded hbatch (fun s => s.tree_batchGetAttr handle.fd _) ?_
    intro handle' file _ hfile
    rw [Store.openFile?_batchGetAttr]
    exact ⟨file, hfile, rfl⟩
  cases answer with
  | error code => exact h'.fail handle _
  | ok stats =>
    have hready : ∀ status ∈ l.ready ++ l.classify entries stats, IsChild t path status := by
      intro status hstatus
      rcases List.mem_append.1 hstatus with hstatus | hstatus
      · exact h.ready status hstatus
      · exact h.isChild_of_mem_classify (h.entries handle entries hstate) hstatus
    have hmore :
        Walking keeps t path { l with ready := l.ready ++ l.classify entries stats } s' :=
      ⟨h'.always, h'.tree, h'.path_eq, hready, h'.handle, h'.entries⟩
    simp only
    split
    · exact hmore.finish handle
    · refine ⟨hmore.always, hmore.tree, hmore.path_eq, hmore.ready, ?_, nofun⟩
      rintro handle' ⟨⟩
      exact hmore.handle handle hheld

private theorem Walking.step (h : Walking keeps t path l s) (hs : s.store.tree.Forest) :
    Walking keeps t path (l.step s).2.1 (l.step s).2.2 := by
  cases hstate : l.state with
  | idle => exact h.step_of_idle hstate
  | awaitingBatch handle => exact h.step_of_awaitingBatch hs hstate
  | resolving handle entries => exact h.step_of_resolving hstate
  | done =>
    unfold Listing.step
    rwa [hstate]
  | failed =>
    unfold Listing.step
    rwa [hstate]

private theorem Walking.handOut (h : Walking keeps t path l s) {results : List Status}
    (hresults : ∀ status ∈ results, IsChild t path status) :
    (∀ status ∈ results ++ l.ready, IsChild t path status) ∧
      Walking keeps t path { l with ready := [] } s := by
  refine ⟨fun status hstatus => ?_, h.always, h.tree, h.path_eq, by simp, h.handle, h.entries⟩
  rcases List.mem_append.1 hstatus with hstatus | hstatus
  · exact hresults status hstatus
  · exact h.ready status hstatus

private theorem Walking.drain (h : Walking keeps t path l s) (hs : t.Forest) {results : List Status}
    (hresults : ∀ status ∈ results, IsChild t path status) (steps : Nat) :
    Walking keeps t path (l.drain s steps results).2.1 (l.drain s steps results).2.2 ∧
      ∀ all, (l.drain s steps results).1 = .ok all → ∀ status ∈ all, IsChild t path status := by
  -- What was handed out and what is ready are children before each step.
  induction steps generalizing l s results with
  | zero =>
    obtain ⟨hall, hrest⟩ := h.handOut hresults
    unfold Listing.drain
    simp only
    split
    · refine ⟨hrest, ?_⟩
      rintro all ⟨⟩
      exact hall
    · exact ⟨hrest, nofun⟩
  | succ steps ih =>
    obtain ⟨hall, hrest⟩ := h.handOut hresults
    unfold Listing.drain
    simp only
    split
    · refine ⟨hrest, ?_⟩
      rintro all ⟨⟩
      exact hall
    · have hstep := hrest.step (h.tree ▸ hs)
      generalize ({ l with ready := [] } : Listing).step s = result at hstep
      obtain ⟨failure, l', s'⟩ := result
      cases failure with
      | some e => exact ⟨hstep.of_final hstep.always hstep.tree rfl nofun rfl, nofun⟩
      | none => exact ih hstep hall

private theorem Walking.drop (h : Walking keeps t path l s) :
    (l.drop s).Always keeps ∧ (l.drop s).store.tree = t := by
  unfold Listing.drop Handle.close
  split
  · rename_i handle _
    generalize hclose : StoreClient.close s handle.fd = result
    obtain ⟨answer, s'⟩ := result
    obtain ⟨hs', htree⟩ := always_of_guarded h.always hclose (fun s => s.tree_close handle.fd)
    exact ⟨hs', htree.trans h.tree⟩
  · exact ⟨h.always, h.tree⟩

end Walking

/-- What a volume lists are children, and the listing leaves the tree alone. -/
theorem Volume.children_of_list {keeps : Tree → Prop} {s : Interrupted} (v : Volume)
    (hs : s.Always keeps) (hforest : s.store.tree.Forest) (path : String) :
    (v.list s path).2.2.Always keeps ∧ (v.list s path).2.2.store.tree = s.store.tree ∧
      ∀ all, (v.list s path).1 = .ok all →
        ∀ status ∈ all, IsChild s.store.tree (Path.ofText path) status := by
  unfold Volume.list Volume.listing Volume.withClient
  split
  · rename_i hlisting
    split at hlisting <;> cases hlisting
    exact ⟨hs, rfl, nofun⟩
  · rename_i hlisting
    split at hlisting <;> cases hlisting
    have hnew : Walking keeps s.store.tree (Path.ofText path)
        (.new (Path.ofText path) v.options.listBatchSize v.identity v.options.blockSize) s :=
      ⟨hs, rfl, rfl, nofun, nofun, nofun⟩
    have hnone : ∀ status ∈ ([] : List Status), IsChild s.store.tree (Path.ofText path) status :=
      nofun
    obtain ⟨hdrained, hall⟩ := hnew.drain hforest hnone (Listing.stepsFor (StoreClient.walkBound s))
    obtain ⟨hs', htree⟩ := hdrained.drop
    exact ⟨hs', htree, hall⟩

end VolumeFs
