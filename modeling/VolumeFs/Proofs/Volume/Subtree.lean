import VolumeFs.Proofs.Store.Namespace
import VolumeFs.Proofs.Volume.Deletion
import VolumeFs.Proofs.Volume.Held
import VolumeFs.Proofs.Volume.Sessions
import VolumeFs.Proofs.Volume.StatusList

/-!
# Removal of a subtree

In a store that works, removing a directory takes away what is below it and the directory itself,
and nothing else. Each level is listed before it is emptied; what a listing shows is all that there
is, so that the directory is empty when its turn comes.
-/

namespace VolumeFs

open Memory Memory.Store

private theorem Memory.Tree.Forest.length_lt_size {t : Tree} (ht : t.Forest) {names : List String}
    {ino : Ino} (h : t.resolve names = some ino) : names.length < t.nodes.size := by
  have hfront (k : Nat) : ∃ i, t.resolve (names.take k) = some i := by
    rw [← List.take_append_drop k names, Tree.resolve_append, Option.bind_eq_some_iff] at h
    obtain ⟨i, hi, -⟩ := h
    exact ⟨i, hi⟩
  have hnodup : ((List.range (names.length + 1)).map fun k =>
      (t.resolve (names.take k)).getD rootIno).Nodup := by
    refine List.Nodup.map_on ?_ List.nodup_range
    intro k hk k' hk' heq
    obtain ⟨i, hi⟩ := hfront k
    obtain ⟨i', hi'⟩ := hfront k'
    rw [hi, hi', Option.getD_some, Option.getD_some] at heq
    have hlength := congrArg List.length (ht.resolve_injective hi (heq ▸ hi'))
    simp only [List.length_take, List.mem_range] at hlength hk hk'
    omega
  have hsubset : ((List.range (names.length + 1)).map fun k =>
      (t.resolve (names.take k)).getD rootIno) ⊆ t.nodes.keys := by
    intro i hi
    obtain ⟨k, -, rfl⟩ := List.mem_map.1 hi
    obtain ⟨i, hi⟩ := hfront k
    obtain ⟨e, he⟩ := ht.exists_entryOf? hi
    rw [hi, Option.getD_some, Std.TreeMap.mem_keys]
    exact Tree.mem_nodes_iff.2 ⟨e, he⟩
  have hlength := (hnodup.subperm hsubset).length_le
  rwa [List.length_map, List.length_range, Std.TreeMap.length_keys] at hlength

namespace Memory.Store

/-- A store that runs and shows no faults. Its nodes have numbers that fit into attributes, and its
names, of which a path has less than the bound, fit into entries and lead downwards. -/
structure Works (bound : Nat) (s : Store) : Prop where
  reachable : Reachable s
  isUp : s.isShutDown = false
  faults : s.faults = {}
  numbers : s.tree.nextIno ≤ UInt64.size
  depth : ∀ {names e}, s.tree.entryAt? names = some e → names.length < bound
  names : ∀ {names e}, s.tree.entryAt? names = some e → ∀ name ∈ names,
    name.utf8ByteSize ≤ Dirent.nameCapacity ∧ name ≠ "." ∧ name ≠ ".."

/-- So many descriptors were given out on the way from a store to another one, and closed. -/
structure GivenBack (s s' : Store) (given : Nat) : Prop where
  nextFd : s'.nextFd = s.nextFd + Int32.ofNat given
  opens : s'.calls.opens = s.calls.opens + given
  openFile? : ∀ fd, s'.openFile? fd = s.openFile? fd ∨
    s'.openFile? fd = none ∧ ∃ k < given, fd = .after s.nextFd k

/-- The second store is the first one without the subtrees at the names. -/
structure Cleared (bound : Nat) (s s' : Store) (tops : List (List String)) : Prop where
  works : s'.Works bound
  gone : ∀ top ∈ tops, ∀ names, top <+: names → s'.tree.entryAt? names = none
  kept : ∀ names, (∀ top ∈ tops, ¬ top <+: names) →
    s'.tree.entryAt? names = s.tree.entryAt? names
  givenBack : ∃ given, GivenBack s s' given

variable {bound given given' : Nat} {s s' s'' : Store} {tops tops' : List (List String)}
  {path : String} {e : Entry}

private theorem givenBack_of_openFiles (hnext : s'.nextFd = s.nextFd)
    (hopens : s'.calls.opens = s.calls.opens) (hfiles : s'.openFiles = s.openFiles) :
    GivenBack s s' 0 where
  nextFd := hnext.trans (Int32.add_zero _).symm
  opens := hopens
  openFile? fd := .inl (by rw [openFile?, hfiles, openFile?])

private theorem Turned.givenBack {pages batches : Nat}
    (h : Turned s s' ⟨s.nextFd.toInt⟩ none 1 pages batches) : GivenBack s s' 1 where
  nextFd := h.nextFd
  opens := h.opens
  openFile? fd := by
    rw [h.openFile?]
    split
    · exact .inr ⟨rfl, 0, Nat.one_pos, by rw [Fd.after_zero]; assumption⟩
    · exact .inl rfl

theorem GivenBack.trans (h : GivenBack s s' given) (h' : GivenBack s' s'' given') :
    GivenBack s s'' (given + given') where
  nextFd := by rw [h'.nextFd, h.nextFd, Int32.ofNat_add, Int32.add_assoc]
  opens := by rw [h'.opens, h.opens, Nat.add_assoc]
  openFile? fd := by
    rcases h'.openFile? fd with hsame | ⟨hnone, k, hk, hfd⟩
    · rw [hsame]
      refine (h.openFile? fd).imp_right fun ⟨hnone, k, hk, hfd⟩ => ?_
      exact ⟨hnone, k, Nat.lt_add_right given' hk, hfd⟩
    · rw [h.nextFd, Fd.after_add] at hfd
      exact .inr ⟨hnone, given + k, Nat.add_lt_add_left hk given, hfd⟩

private theorem GivenBack.openFile?_of_some (h : GivenBack s s' given) {fd : Fd} {file : OpenFile}
    (hfile : s'.openFile? fd = some file) : s.openFile? fd = some file := by
  rcases h.openFile? fd with hsame | ⟨hnone, -⟩
  · rwa [← hsame]
  · rw [hnone] at hfile
    cases hfile

/-- As long as no number has come back, what is open stays open. -/
theorem GivenBack.openFile?_of_givesOut (h : GivenBack s s' given) {clock : Clock} {n : Nat}
    (hs : GivesOut (.new clock) n s) (hn : n + given ≤ Int32.size) (fd : Fd) :
    s'.openFile? fd = s.openFile? fd := by
  rcases h.openFile? fd with hsame | ⟨hnone, k, hk, rfl⟩
  · exact hsame
  · rw [hnone, hs.openFile?_after (by omega)]

private theorem Works.forest (h : s.Works bound) : s.tree.Forest := h.reachable.forest

private theorem Works.answers (h : s.Works bound) : s.Answers := .of_faults h.isUp h.faults

private theorem Works.cleared_of_tree (h : s.Works bound) (hreachable : Reachable s')
    (hup : s'.isShutDown = false) (hfaults : s'.faults = {}) (htree : s'.tree = s.tree)
    (hgivenBack : GivenBack s s' given) : Cleared bound s s' [] where
  works := ⟨hreachable, hup, hfaults, htree ▸ h.numbers, htree ▸ h.depth, htree ▸ h.names⟩
  gone := nofun
  kept names _ := by rw [htree]
  givenBack := ⟨given, hgivenBack⟩

private theorem Works.cleared_of_removal (h : s.Works bound) (hreachable : Reachable s')
    (hup : s'.isShutDown = false) (hfaults : s'.faults = {})
    (hnext : s'.tree.nextIno = s.tree.nextIno) {top : List String}
    (hremoval : Tree.Removal s.tree s'.tree top)
    (hbelow : ∀ rest, rest ≠ [] → s.tree.entryAt? (top ++ rest) = none)
    (hgivenBack : GivenBack s s' given) : Cleared bound s s' [top] where
  works := by
    have hless {names : List String} {e : Entry} (he : s'.tree.entryAt? names = some e) :
        s.tree.entryAt? names = some e := by
      rw [hremoval.entryAt?] at he
      split at he
      · cases he
      · exact he
    exact ⟨hreachable, hup, hfaults, hnext ▸ h.numbers, fun he => h.depth (hless he),
      fun he => h.names (hless he)⟩
  gone := by
    rintro _ htop names ⟨rest, rfl⟩
    rw [List.mem_singleton.1 htop, hremoval.entryAt?]
    split
    · rfl
    · rename_i hne
      exact hbelow rest fun hnil => hne (by rw [hnil, List.append_nil])
  kept names hnames := by
    rw [hremoval.entryAt?, if_neg]
    rintro rfl
    exact hnames names List.mem_cons_self List.prefix_rfl
  givenBack := ⟨given, hgivenBack⟩

theorem Cleared.trans (h : Cleared bound s s' tops) (h' : Cleared bound s' s'' tops') :
    Cleared bound s s'' (tops ++ tops') where
  works := h'.works
  gone top htop names hnames := by
    rcases List.mem_append.1 htop with htop | htop
    · by_cases hother : ∃ top' ∈ tops', top' <+: names
      · obtain ⟨top', htop', hnames'⟩ := hother
        exact h'.gone top' htop' names hnames'
      · rw [h'.kept names fun top' htop' hnames' => hother ⟨top', htop', hnames'⟩]
        exact h.gone top htop names hnames
    · exact h'.gone top htop names hnames
  kept names hnames := by
    rw [h'.kept names fun top htop => hnames top (List.mem_append_right _ htop),
      h.kept names fun top htop => hnames top (List.mem_append_left _ htop)]
  givenBack := by
    obtain ⟨given, hgivenBack⟩ := h.givenBack
    obtain ⟨given', hgivenBack'⟩ := h'.givenBack
    exact ⟨given + given', hgivenBack.trans hgivenBack'⟩

private theorem Cleared.of_below {top : List String} (h : Cleared bound s s' (tops ++ [top]))
    (hbelow : ∀ other ∈ tops, top <+: other) : Cleared bound s s' [top] where
  works := h.works
  gone := by
    intro other hother
    rw [List.mem_singleton.1 hother]
    exact h.gone top (List.mem_append_right _ List.mem_cons_self)
  kept names hnames := by
    have htop := hnames top List.mem_cons_self
    refine h.kept names fun other hother => ?_
    rcases List.mem_append.1 hother with hother | hother
    · exact fun hpre => htop ((hbelow other hother).trans hpre)
    · rwa [List.mem_singleton.1 hother]
  givenBack := h.givenBack

private theorem Cleared.emptied {dirs names : List String}
    (h : Cleared bound s s' (names.map fun name => dirs ++ [name]))
    (hnames : ∀ name, name ∈ names ↔ s.tree.entryAt? (dirs ++ [name]) ≠ none) :
    s'.tree.entryAt? dirs = s.tree.entryAt? dirs ∧
      ∀ name, s'.tree.entryAt? (dirs ++ [name]) = none := by
  constructor
  · refine h.kept dirs fun top htop => ?_
    obtain ⟨name, -, rfl⟩ := List.mem_map.1 htop
    exact Tree.not_concat_isPrefix dirs name
  · intro name
    by_cases hname : name ∈ names
    · exact h.gone _ (List.mem_map_of_mem hname) _ List.prefix_rfl
    · rw [h.kept, ← not_ne_iff, ← hnames]
      · exact hname
      · intro top htop hpre
        obtain ⟨other, hother, rfl⟩ := List.mem_map.1 htop
        exact hname (Tree.eq_of_concat_isPrefix hpre ▸ hother)

private theorem Works.components_join (h : s.Works bound)
    (hnormal : components (Path.ofText path) = components path) {name : String}
    (he : s.tree.entryAt? (components path ++ [name]) = some e) :
    components (Path.join path name) = components path ++ [name] ∧
      components (Path.ofText (Path.join path name)) = components (Path.join path name) := by
  have hmem : name ∈ components path ++ [name] := List.mem_append_right _ List.mem_cons_self
  obtain ⟨-, hdot, hdots⟩ := h.names he name hmem
  obtain ⟨parent, child, hlink⟩ := Tree.exists_link?_of_mem he hmem
  have hname := h.forest.isEntryName hlink
  rw [Path.components_ofText_join path hname, if_neg hdot, if_neg hdots,
    Path.components_join path hname, hnormal]
  exact ⟨rfl, rfl⟩

private theorem Works.unlink_of_tree (h : s.Works bound) {answer : Except Errno Unit} {tree : Tree}
    (htree : s.tree.unlink path = (answer, tree)) :
    s.unlink path = (answer, { s with calls.unlinks := s.calls.unlinks + 1, tree }) := by
  have hnone : ¬ (0 : UInt32) < 0 := by decide
  simp only [Store.unlink, h.isUp, h.faults, htree, if_neg hnone]
  rfl

private theorem Works.unlink (h : s.Works bound) (he : s.tree.entryAt? (components path) = some e)
    (hfile : e.bytes ≠ none) :
    ∃ s', s.unlink path = (.ok (), s') ∧ Cleared bound s s' [components path] := by
  obtain ⟨tree, htree⟩ := Tree.exists_unlink_of_file h.forest he hfile
  have hunlink := h.unlink_of_tree htree
  have hreachable := h.reachable.step_of_eq (.unlink path) (congrArg Prod.snd hunlink)
  have hnext := Tree.nextIno_unlink s.tree path
  rw [htree] at hnext
  exact ⟨_, hunlink, h.cleared_of_removal hreachable h.isUp h.faults hnext
    (Tree.removal_of_unlink h.forest htree)
    (fun rest hrest => Tree.entryAt?_append_of_file he hfile hrest)
    (givenBack_of_openFiles rfl rfl rfl)⟩

private theorem Works.unlink_error (h : s.Works bound) {code : Errno}
    (htree : s.tree.unlink path = (.error code, s.tree)) :
    ∃ s', s.unlink path = (.error code, s') ∧ s'.tree = s.tree ∧ Cleared bound s s' [] := by
  have hunlink := h.unlink_of_tree htree
  have hreachable := h.reachable.step_of_eq (.unlink path) (congrArg Prod.snd hunlink)
  exact ⟨_, hunlink, rfl,
    h.cleared_of_tree hreachable h.isUp h.faults rfl (givenBack_of_openFiles rfl rfl rfl)⟩

private theorem Works.rmdir (h : s.Works bound) (hroot : components path ≠ [])
    (he : s.tree.entryAt? (components path) = some e) (hdir : e.bytes = none)
    (hempty : ∀ name, s.tree.entryAt? (components path ++ [name]) = none) :
    ∃ s', s.rmdir path = (.ok (), s') ∧ Cleared bound s s' [components path] := by
  obtain ⟨tree, htree⟩ := Tree.exists_rmdir_of_empty h.forest hroot he hdir hempty
  have hrmdir : s.rmdir path =
      (.ok (), { s with calls.rmdirs := s.calls.rmdirs + 1, tree }) := by
    simp only [Store.rmdir, h.isUp, htree]
    rfl
  have hreachable := h.reachable.step_of_eq (.rmdir path) (congrArg Prod.snd hrmdir)
  have hnext := Tree.nextIno_rmdir s.tree path
  rw [htree] at hnext
  refine ⟨_, hrmdir, h.cleared_of_removal hreachable h.isUp h.faults hnext
    (Tree.removal_of_rmdir h.forest htree) (fun rest hrest => ?_)
    (givenBack_of_openFiles rfl rfl rfl)⟩
  cases rest with
  | nil => exact absurd rfl hrest
  | cons name rest =>
    rw [← List.singleton_append, ← List.append_assoc]
    exact Tree.entryAt?_append_of_none (h.forest.entryAt?_eq_none_iff.1 (hempty name)) rest

end Memory.Store

namespace Volume

variable {bound : Nat} {s : Store} {v : Volume} {client : Client} {path : String}

private theorem reachable_list (h : s.Works bound) (v : Volume) (path : String) :
    Reachable (v.list s path).2.2 ∧ (v.list s path).2.2.faults = {} :=
  @opened_list _ (fun _ s => Reachable s ∧ s.faults = {}) 0 s _
    (book_of_on fun hop hs => ⟨hs.1.step _, (Operation.faultsWane_on hop _).eq_empty hs.2⟩)
    ⟨h.reachable, h.faults⟩ v path

/-- The list of a directory shows all entries that are there, by their paths. -/
theorem exists_list (h : s.Works bound) (hv : v.session.client = (.ok client, v.session))
    {e : Entry} (he : s.tree.entryAt? (components (Path.ofText path)) = some e)
    (hdir : e.bytes = none) :
    ∃ (statuses : List Status) (s' : Store) (names : List String),
      v.list s path = (.ok statuses, v, s') ∧ s'.tree = s.tree ∧ Cleared bound s s' [] ∧
        statuses.map Status.path = names.map (Path.join path) ∧ names.Nodup ∧
        ∀ name, name ∈ names ↔
          s.tree.entryAt? (components (Path.ofText path) ++ [name]) ≠ none := by
  obtain ⟨hr, heOf⟩ := Tree.entryAt?_eq_some_iff.1 he
  obtain ⟨children, hchildren⟩ :=
    Tree.isDirectory_iff.1 (Tree.isDirectory_iff_entryOf?.2 ⟨e, heOf, hdir⟩)
  have hmem (name : String) : name ∈ children.keys ↔
      s.tree.entryAt? (components (Path.ofText path) ++ [name]) ≠ none := by
    rw [Ne, h.forest.entryAt?_eq_none_iff, Tree.resolve_concat_of_eq hr, Tree.link?, hchildren,
      Option.bind_some, Std.TreeMap.mem_keys, Std.TreeMap.mem_iff_isSome_getElem?]
    exact Option.isSome_iff_ne_none
  have hlistable : Listable s.tree e.ino children := by
    refine listable_of_reachable h.reachable h.numbers (Tree.children_eq_ok_iff.2 hchildren)
      fun name hname => ?_
    obtain ⟨e', he'⟩ := Option.ne_none_iff_exists'.1 ((hmem name).1 hname)
    exact (h.names he' name (List.mem_append_right _ List.mem_cons_self)).1
  have hsteps : 2 * children.size + 2 ≤ Listing.stepsFor (StoreClient.walkBound s) := by
    have hsize := hlistable.size_le
    show 2 * children.size + 2 ≤ 2 * s.tree.nodes.size + 2
    omega
  obtain ⟨s', hdrain, hturned⟩ := Listing.drain_of_idle
    (l := .new (Path.ofText path) v.options.listBatchSize v.identity v.options.blockSize)
    rfl rfl (Nat.le_max_right _ _) h.answers hlistable (Tree.lookup_eq_ok_iff.2 hr) hsteps
  have hlist : v.list s path = (.ok (children.toList.filterMap ((Listing.new (Path.ofText path)
      v.options.listBatchSize v.identity v.options.blockSize).statusOf? s.tree)), v, s') := by
    simp only [Volume.list, Volume.listing, withClient, hv, Listing.toList, hdrain]
    rfl
  obtain ⟨hreachable, hfaults⟩ := reachable_list h v path
  rw [hlist] at hreachable hfaults
  have hcleared := h.cleared_of_tree hreachable hturned.answers.isUp hfaults hturned.tree
    hturned.givenBack
  refine ⟨_, s', children.keys, hlist, hturned.tree, hcleared, ?_, Std.TreeMap.nodup_keys, hmem⟩
  rw [← Std.TreeMap.map_fst_toList_eq_keys, List.map_map, List.map_filterMap,
    ← List.filterMap_eq_map']
  refine List.filterMap_congr fun child hchild => ?_
  obtain ⟨status, hstatus, hpath, -⟩ := Listing.exists_statusOf?
    (.new (Path.ofText path) v.options.listBatchSize v.identity v.options.blockSize) hlistable
    (Std.TreeMap.mem_toList_iff_getElem?_eq_some.1 hchild)
  rw [hstatus, Option.map_some, hpath, Function.comp_apply, ← Path.join_ofText path]
  rfl

private theorem exists_onEach
    {act : Volume → Store → String → Except VolumeError Bool × Volume × Store}
    {dirs names : List String} (h : s.Works bound) (hnodup : names.Nodup)
    (hact : ∀ {s : Store} {name e}, s.Works bound → name ∈ names →
      s.tree.entryAt? (dirs ++ [name]) = some e →
      ∃ s', act v s (Path.join path name) = (.ok true, v, s') ∧
        Cleared bound s s' [dirs ++ [name]])
    (hthere : ∀ name ∈ names, s.tree.entryAt? (dirs ++ [name]) ≠ none) :
    ∃ s', onEach act v s (names.map (Path.join path)) = (.ok true, v, s') ∧
      Cleared bound s s' (names.map fun name => dirs ++ [name]) := by
  induction names generalizing s with
  | nil =>
    exact ⟨s, rfl, h.cleared_of_tree h.reachable h.isUp h.faults rfl
      (givenBack_of_openFiles rfl rfl rfl)⟩
  | cons name names ih =>
    obtain ⟨hname, hnodup⟩ := List.nodup_cons.1 hnodup
    obtain ⟨e, he⟩ := Option.ne_none_iff_exists'.1 (hthere name List.mem_cons_self)
    obtain ⟨s₁, hfirst, h₁⟩ := hact h List.mem_cons_self he
    -- The names differ, so that each child is still there when its turn comes.
    have hthere₁ : ∀ other ∈ names, s₁.tree.entryAt? (dirs ++ [other]) ≠ none := by
      intro other hother
      rw [h₁.kept]
      · exact hthere other (List.mem_cons_of_mem _ hother)
      · intro top htop hpre
        rw [List.mem_singleton.1 htop] at hpre
        exact hname (Tree.eq_of_concat_isPrefix hpre ▸ hother)
    obtain ⟨s', hrest, h'⟩ := ih h₁.works hnodup
      (fun hs hmem => hact hs (List.mem_cons_of_mem _ hmem)) hthere₁
    refine ⟨s', ?_, h₁.trans h'⟩
    rw [List.map_cons, onEach, hfirst]
    exact hrest

private theorem exists_deleteEmptied (h : s.Works bound) (v : Volume) (hroot : components path ≠ [])
    {e : Entry} (he : s.tree.entryAt? (components path) = some e) (hdir : e.bytes = none)
    (hempty : ∀ name, s.tree.entryAt? (components path ++ [name]) = none) :
    ∃ s', v.deleteEmptied s path = (.ok true, v, s') ∧
      Cleared bound s s' [components path] := by
  obtain ⟨s', hrmdir, hcleared⟩ := h.rmdir hroot he hdir hempty
  refine ⟨s', ?_, hcleared⟩
  have hrmdir : StoreClient.rmdir s path = _ := hrmdir
  rw [deleteEmptied, hrmdir]

/-- What removing a directory comes down to: its entries, by their names, and then itself. -/
theorem exists_level (h : s.Works bound) (hv : v.session.client = (.ok client, v.session))
    (hnormal : components (Path.ofText path) = components path) {e : Entry}
    (he : s.tree.entryAt? (components path) = some e) (hdir : e.bytes = none) (recursive : Bool)
    (depth : Nat) :
    ∃ (names : List String) (s' : Store), names.Nodup ∧
      (∀ name, name ∈ names ↔ s'.tree.entryAt? (components path ++ [name]) ≠ none) ∧
      s'.tree = s.tree ∧ Cleared bound s s' [] ∧
      (recursive = false → names ≠ [] →
        deleteTree recursive (depth + 1) v s path = (.error (.directoryNotEmpty path), v, s')) ∧
      (recursive = true ∨ names = [] → ∀ emptied : Store,
        onEach (deleteTree recursive depth) v s' (names.map (Path.join path)) =
          (.ok true, v, emptied) →
        deleteTree recursive (depth + 1) v s path = v.deleteEmptied emptied path) := by
  obtain ⟨hr, heOf⟩ := Tree.entryAt?_eq_some_iff.1 he
  have hrefused : s.tree.unlink path = (.error .eisdir, s.tree) := by
    have hisDirectory := Tree.isDirectory_iff_entryOf?.2 ⟨e, heOf, hdir⟩
    simp only [Tree.unlink, Tree.lookup_eq_ok_iff.2 hr, hisDirectory, if_true]
  obtain ⟨s₁, hunlink, htree, h₁⟩ := h.unlink_error hrefused
  rw [← hnormal, ← htree] at he
  obtain ⟨statuses, s', names, hlist, htree', h', hpaths, hnodup, hnames⟩ :=
    exists_list h₁.works hv he hdir
  rw [hnormal, ← htree'] at hnames
  have hunlink : StoreClient.unlink s path = _ := hunlink
  have hempty : statuses.isEmpty = names.isEmpty := by
    rw [← List.isEmpty_map (f := Status.path), hpaths, List.isEmpty_map]
  have hfound : ¬ Errno.eisdir = .enoent := by decide
  refine ⟨names, s', hnodup, hnames, htree'.trans htree, h₁.trans h', fun hrecursive hne => ?_,
    fun hmay emptied heach => ?_⟩
  · have hsome : names.isEmpty = false := List.isEmpty_eq_false_iff.2 hne
    rw [deleteTree, hunlink]
    simp [hfound, hlist, hempty, hrecursive, hsome]
  · have hnot : (!recursive && !names.isEmpty) = false := by
      rcases hmay with rfl | rfl <;> simp
    rw [deleteTree, hunlink]
    simp [hfound, hlist, hempty, hnot, hpaths, heach]

/-- Removing what is at a path, down to a depth that suffices, leaves out what is at its names and
below. -/
theorem exists_deleteTree {recursive : Bool} (hv : v.session.client = (.ok client, v.session))
    {depth : Nat} (h : s.Works bound)
    (hnormal : components (Path.ofText path) = components path) (hroot : components path ≠ [])
    {e : Entry} (he : s.tree.entryAt? (components path) = some e)
    (hdepth : bound ≤ depth + (components path).length)
    (hmay : recursive = true ∨ ∀ name, s.tree.entryAt? (components path ++ [name]) = none) :
    ∃ s', deleteTree recursive depth v s path = (.ok true, v, s') ∧
      Cleared bound s s' [components path] := by
  -- A level deeper the names are one longer, and no entry has as many as the bound.
  induction depth generalizing s path e with
  | zero =>
    have hlt := h.depth he
    omega
  | succ depth ih =>
    cases hbytes : e.bytes with
    | some bytes =>
      have hfile : e.bytes ≠ none := by rw [hbytes]; exact nofun
      obtain ⟨s', hunlink, hcleared⟩ := h.unlink he hfile
      have hunlink : StoreClient.unlink s path = _ := hunlink
      exact ⟨s', by rw [deleteTree, hunlink], hcleared⟩
    | none =>
      obtain ⟨names, s₁, hnodup, hnames, htree, h₁, -, hlevel⟩ :=
        exists_level h hv hnormal he hbytes recursive depth
      have hmay : recursive = true ∨ names = [] := by
        refine hmay.imp_right fun hnone => List.eq_nil_iff_forall_not_mem.2 fun name hname => ?_
        exact (hnames name).1 hname (by rw [htree, hnone name])
      have hchild {s : Store} {name : String} {e : Entry} (hs : s.Works bound)
          (hname : name ∈ names) (he : s.tree.entryAt? (components path ++ [name]) = some e) :
          ∃ s', deleteTree recursive depth v s (Path.join path name) = (.ok true, v, s') ∧
            Cleared bound s s' [components path ++ [name]] := by
        have hrecursive := hmay.resolve_right (List.ne_nil_of_mem hname)
        obtain ⟨hjoin, hnormal'⟩ := hs.components_join hnormal he
        rw [← hjoin] at he ⊢
        refine ih hs hnormal' ?_ he ?_ (.inl hrecursive)
        · rw [hjoin]
          exact List.concat_ne_nil _ _
        · rw [hjoin, List.length_append, List.length_singleton]
          omega
      obtain ⟨s₂, heach, h₂⟩ := exists_onEach h₁.works hnodup hchild fun name => (hnames name).1
      obtain ⟨hkept, hempty⟩ := h₂.emptied hnames
      rw [htree, he] at hkept
      obtain ⟨s', hemptied, h'⟩ := exists_deleteEmptied h₂.works v hroot hkept hbytes hempty
      refine ⟨s', ?_, ((h₁.trans h₂).trans h').of_below fun other hother => ?_⟩
      · rw [hlevel hmay s₂ heach, hemptied]
      · obtain ⟨name, -, rfl⟩ := List.mem_map.1 hother
        exact List.prefix_append _ _

private theorem exists_deleteTree_of_child (h : s.Works bound)
    (hv : v.session.client = (.ok client, v.session))
    (hnormal : components (Path.ofText path) = components path) {name : String}
    (hchild : s.tree.entryAt? (components path ++ [name]) ≠ none) (depth : Nat) :
    ∃ s', deleteTree false (depth + 1) v s path = (.error (.directoryNotEmpty path), v, s') ∧
      s'.tree = s.tree ∧ ∃ given, GivenBack s s' given := by
  obtain ⟨e, he⟩ : ∃ e, s.tree.entryAt? (components path) = some e := by
    cases hdirs : s.tree.entryAt? (components path) with
    | some e => exact ⟨e, rfl⟩
    | none =>
      exact absurd (Tree.entryAt?_append_of_none (h.forest.entryAt?_eq_none_iff.1 hdirs) [name])
        hchild
  have hdir : e.bytes = none := by
    by_contra hfile
    exact hchild (Tree.entryAt?_append_of_file he hfile (List.cons_ne_nil _ _))
  obtain ⟨names, s', -, hnames, htree, hcleared, hlevel, -⟩ :=
    exists_level h hv hnormal he hdir false depth
  rw [htree] at hnames
  exact ⟨s', hlevel rfl (List.ne_nil_of_mem ((hnames name).2 hchild)), htree, hcleared.givenBack⟩

private theorem deleteTree_of_lookup_error (h : s.Works bound) (v : Volume) {code : Errno}
    (hlookup : s.tree.lookup path = .error code) (recursive : Bool) (depth : Nat) :
    ∃ s', deleteTree recursive (depth + 1) v s path =
        (if code = .enoent then .ok false else .error (.ofErrno code path), v, s') ∧
      s'.tree = s.tree ∧ ∃ given, GivenBack s s' given := by
  have hrefused : s.tree.unlink path = (.error code, s.tree) := by
    simp only [Tree.unlink, hlookup]
  obtain ⟨s', hunlink, htree, hcleared⟩ := h.unlink_error hrefused
  have hunlink : StoreClient.unlink s path = _ := hunlink
  have hcode : code ≠ .eisdir := by
    rcases Tree.eq_of_walk_eq_error hlookup with rfl | rfl <;> decide
  refine ⟨s', ?_, htree, hcleared.givenBack⟩
  rw [deleteTree, hunlink]
  simp only [if_pos hcode]
  split <;> rfl

private theorem works_of_reachable (hs : Reachable s) (hup : s.isShutDown = false)
    (hfaults : s.faults = {}) (hnumbers : s.tree.nextIno ≤ UInt64.size)
    (hnames : ∀ {names e}, s.tree.entryAt? names = some e → ∀ name ∈ names,
      name.utf8ByteSize ≤ Dirent.nameCapacity ∧ name ≠ "." ∧ name ≠ "..") :
    s.Works s.tree.nodes.size := by
  refine ⟨hs, hup, hfaults, hnumbers, fun he => ?_, hnames⟩
  exact hs.forest.length_lt_size (Tree.entryAt?_eq_some_iff.1 he).1

section Session

variable {session : Session} (hsession : v.session.client = (.ok client, session))
  (options : DeleteOptions)
include hsession

private theorem exists_depth (s : Store) (path : String) : ∃ depth, s.tree.nodes.size ≤ depth + 1 ∧
    v.deleteDirectory s path options =
      deleteTree options.recursive (depth + 1) { v with session } s (Path.ofText path) := by
  obtain ⟨depth, hdepth⟩ : ∃ depth, depthFor s.tree.nodes.size = depth + 1 :=
    Nat.exists_eq_add_one.2 (Nat.mul_pos (Nat.succ_pos _) (Nat.succ_pos _))
  refine ⟨depth, hdepth ▸ (Nat.le_succ _).trans (Nat.le_mul_self _), ?_⟩
  rw [← hdepth]
  simp only [deleteDirectory, withClient, hsession]
  rfl

variable (h : s.Works s.tree.nodes.size)
include h

private theorem exists_deleteDirectory (hroot : components (Path.ofText path) ≠ [])
    (hthere : s.tree.entryAt? (components (Path.ofText path)) ≠ none)
    (hmay : options.recursive = true ∨
      ∀ name, s.tree.entryAt? (components (Path.ofText path) ++ [name]) = none) :
    ∃ s', v.deleteDirectory s path options = (.ok true, { v with session }, s') ∧
      Cleared s.tree.nodes.size s s' [components (Path.ofText path)] := by
  obtain ⟨depth, hdepth, hdelete⟩ := exists_depth hsession options s path
  obtain ⟨e, he⟩ := Option.ne_none_iff_exists'.1 hthere
  have hv : { v with session }.session.client = (.ok client, session) :=
    Session.client_of_client hsession
  have hnormal := congrArg components (Path.ofText_ofText path)
  rw [hdelete]
  exact exists_deleteTree hv h hnormal hroot he (hdepth.trans (Nat.le_add_right _ _)) hmay

private theorem exists_deleteDirectory_of_child (hrecursive : options.recursive = false)
    {name : String} (hchild : s.tree.entryAt? (components (Path.ofText path) ++ [name]) ≠ none) :
    ∃ s', v.deleteDirectory s path options =
        (.error (.directoryNotEmpty (Path.ofText path)), { v with session }, s') ∧
      s'.tree = s.tree ∧ ∃ given, GivenBack s s' given := by
  obtain ⟨depth, -, hdelete⟩ := exists_depth hsession options s path
  have hv : { v with session }.session.client = (.ok client, session) :=
    Session.client_of_client hsession
  have hnormal := congrArg components (Path.ofText_ofText path)
  rw [hdelete, hrecursive]
  exact exists_deleteTree_of_child h hv hnormal hchild depth

private theorem exists_deleteDirectory_of_lookup_error {code : Errno}
    (hlookup : s.tree.lookup (Path.ofText path) = .error code) :
    ∃ s', v.deleteDirectory s path options =
        (if code = .enoent then .ok false else .error (.ofErrno code (Path.ofText path)),
          { v with session }, s') ∧
      s'.tree = s.tree ∧ ∃ given, GivenBack s s' given := by
  obtain ⟨depth, -, hdelete⟩ := exists_depth hsession options s path
  rw [hdelete]
  exact deleteTree_of_lookup_error h _ hlookup _ depth

/-- However it comes out, a removal closes what it opens. -/
theorem givenBack_deleteDirectory (hroot : components (Path.ofText path) ≠ []) :
    ∃ given, GivenBack s (v.deleteDirectory s path options).2.2 given := by
  cases hlookup : s.tree.lookup (Path.ofText path) with
  | error code =>
    obtain ⟨s', hdelete, -, hgivenBack⟩ :=
      exists_deleteDirectory_of_lookup_error hsession options h hlookup
    rw [hdelete]
    exact hgivenBack
  | ok ino =>
    obtain ⟨e, he, -⟩ := h.forest.exists_entryAt? (Tree.lookup_eq_ok_iff.1 hlookup)
    by_cases hmay : options.recursive = true ∨
        ∀ name, s.tree.entryAt? (components (Path.ofText path) ++ [name]) = none
    · obtain ⟨s', hdelete, hcleared⟩ := exists_deleteDirectory hsession options h hroot
        (Option.ne_none_iff_exists'.2 ⟨e, he⟩) hmay
      rw [hdelete]
      exact hcleared.givenBack
    · rw [not_or, Bool.not_eq_true, not_forall] at hmay
      obtain ⟨hrecursive, name, hname⟩ := hmay
      obtain ⟨s', hdelete, -, hgivenBack⟩ :=
        exists_deleteDirectory_of_child hsession options h hrecursive hname
      rw [hdelete]
      exact hgivenBack

end Session

/-- Removing a directory takes away what is at its path and below, and nothing else. Without leave
to remove all of it, a directory that holds something is left as it was, and so is everything when
there is nothing at the path. No descriptor is left open, and all that were open still are unless
their numbers have come back meanwhile. The numbers of all nodes must fit into attributes, and the
names into entries; they must lead downwards. -/
theorem subtree_of_deleteDirectory {session : Session} (hs : Reachable s)
    (hup : s.isShutDown = false) (hfaults : s.faults = {})
    (hnumbers : s.tree.nextIno ≤ UInt64.size)
    (hnames : ∀ {names e}, s.tree.entryAt? names = some e → ∀ name ∈ names,
      name.utf8ByteSize ≤ Dirent.nameCapacity ∧ name ≠ "." ∧ name ≠ "..")
    (v : Volume) (hsession : v.session.client = (.ok client, session)) (path : String)
    (hroot : Path.ofText path ≠ "/") (options : DeleteOptions) :
    let top := components (Path.ofText path)
    let removed := v.deleteDirectory s path options
    (s.tree.entryAt? top ≠ none →
      (options.recursive = true ∨ ∀ name, s.tree.entryAt? (top ++ [name]) = none) →
      removed.1 = .ok true ∧ ∀ names, removed.2.2.tree.entryAt? names =
        if top <+: names then none else s.tree.entryAt? names) ∧
    (options.recursive = false → ∀ name, s.tree.entryAt? (top ++ [name]) ≠ none →
      removed.1 = .error (.directoryNotEmpty (Path.ofText path)) ∧
        removed.2.2.tree = s.tree) ∧
    (∀ code, s.tree.lookup (Path.ofText path) = .error code →
      removed.1 =
          (if code = .enoent then .ok false else .error (.ofErrno code (Path.ofText path))) ∧
        removed.2.2.tree = s.tree) ∧
    (∀ fd file, removed.2.2.openFile? fd = some file → s.openFile? fd = some file) ∧
    ∀ {clock given}, GivesOut (.new clock) given s →
      given + (removed.2.2.calls.opens - s.calls.opens) ≤ Int32.size →
      ∀ fd, removed.2.2.openFile? fd = s.openFile? fd := by
  dsimp only
  have h := works_of_reachable hs hup hfaults hnumbers hnames
  have htop : components (Path.ofText path) ≠ [] := by
    rw [Path.components_ofText, Ne, List.map_eq_nil_iff, ← Path.ofText_eq_root_iff]
    exact hroot
  refine ⟨fun hthere hmay => ?_, fun hrecursive name hname => ?_, fun code hlookup => ?_, ?_⟩
  · obtain ⟨s', hdelete, hcleared⟩ :=
      exists_deleteDirectory hsession options h htop hthere hmay
    rw [hdelete]
    refine ⟨rfl, fun names => ?_⟩
    split
    · exact hcleared.gone _ List.mem_cons_self names ‹_›
    · refine hcleared.kept names fun other hother => ?_
      rwa [List.mem_singleton.1 hother]
  · obtain ⟨s', hdelete, htree, -⟩ :=
      exists_deleteDirectory_of_child hsession options h hrecursive hname
    rw [hdelete]
    exact ⟨rfl, htree⟩
  · obtain ⟨s', hdelete, htree, -⟩ :=
      exists_deleteDirectory_of_lookup_error hsession options h hlookup
    rw [hdelete]
    exact ⟨rfl, htree⟩
  · obtain ⟨given, hgivenBack⟩ := givenBack_deleteDirectory hsession options h htop
    refine ⟨fun fd file => hgivenBack.openFile?_of_some, fun hgives hgiven => ?_⟩
    rw [hgivenBack.opens, Nat.add_sub_cancel_left] at hgiven
    exact hgivenBack.openFile?_of_givesOut hgives hgiven

/-- Directories in a directory, listed one entry at a time, beside a file whose path begins with the
same characters. -/
theorem subtree_of_deleteDirectory_nested :
    let files := Store.putFile (.putFile (.putDirectory (.putFile (.new {}) "/a/b/x" "1".toUTF8)
      "/a/c") "/a/b/y" "2".toUTF8) "/ab" "3".toUTF8
    let v := { tiny with options.listBatchSize := 1 }
    let removed := v.deleteDirectory files "//a/./" { recursive := true }
    let refused := v.deleteDirectory files "/a/b" { recursive := false }
    removed.1 = .ok true ∧
      (∀ names, removed.2.2.tree.entryAt? names =
        if ["a"] <+: names then none else files.tree.entryAt? names) ∧
      (∀ fd, removed.2.2.openFile? fd = files.openFile? fd) ∧
      refused.1 = .error (.directoryNotEmpty "/a/b") ∧ refused.2.2.tree = files.tree := by
  intro files v
  have hreachable : Reachable files :=
    ((((Reachable.new {}).step (.putFile "/a/b/x" "1".toUTF8)).step (.putDirectory "/a/c")).step
      (.putFile "/a/b/y" "2".toUTF8)).step (.putFile "/ab" "3".toUTF8)
  have hnames {names : List String} {e : Entry} (he : files.tree.entryAt? names = some e) :
      ∀ name ∈ names, name.utf8ByteSize ≤ Dirent.nameCapacity ∧ name ≠ "." ∧ name ≠ ".." := by
    intro name hname
    obtain ⟨parent, child, hlink⟩ := Tree.exists_link?_of_mem he hname
    obtain ⟨children, hchildren, hchild⟩ := Option.bind_eq_some_iff.1 hlink
    obtain ⟨node, hnode, hnodeChildren⟩ := Option.bind_eq_some_iff.1 hchildren
    have hall : ∀ node ∈ files.tree.nodes.toList, ∀ child ∈
        (node.2.children?.map Std.TreeMap.toList).getD [],
        child.1.utf8ByteSize ≤ Dirent.nameCapacity ∧ child.1 ≠ "." ∧ child.1 ≠ ".." := by
      decide +kernel
    have hmem : (name, child) ∈ (node.children?.map Std.TreeMap.toList).getD [] := by
      rw [hnodeChildren]
      exact Std.TreeMap.mem_toList_iff_getElem?_eq_some.2 hchild
    exact hall _ (Std.TreeMap.mem_toList_iff_getElem?_eq_some.2 hnode) _ hmem
  have hthere : files.tree.entryAt? ["a"] ≠ none ∧
      files.tree.entryAt? (["a", "b"] ++ ["x"]) ≠ none := by
    constructor <;> exact Option.ne_none_iff_isSome.2 (by decide +kernel)
  have hpaths : Path.ofText "//a/./" = "/a" ∧ Path.ofText "/a/b" = "/a/b" ∧
      components "/a" = ["a"] ∧ components "/a/b" = ["a", "b"] := by decide +kernel
  have hroots : Path.ofText "//a/./" ≠ "/" ∧ Path.ofText "/a/b" ≠ "/" := by decide +kernel
  have hnumbers : files.tree.nextIno ≤ UInt64.size := by decide +kernel
  have hgives : GivesOut (.new {}) 0 files :=
    (((GivesOut.refl.step (.putFile "/a/b/x" "1".toUTF8)).step (.putDirectory "/a/c")).step
      (.putFile "/a/b/y" "2".toUTF8)).step (.putFile "/ab" "3".toUTF8)
  have hopens : 0 + ((v.deleteDirectory files "//a/./" { recursive := true }).2.2.calls.opens -
      files.calls.opens) ≤ Int32.size := by decide +kernel
  have hremoved := subtree_of_deleteDirectory hreachable rfl rfl hnumbers hnames v rfl
    "//a/./" hroots.1 { recursive := true }
  have hrefused := subtree_of_deleteDirectory hreachable rfl rfl hnumbers hnames v rfl
    "/a/b" hroots.2 { recursive := false }
  dsimp only at hremoved hrefused ⊢
  -- The runs are kept shut from here on, or they are evaluated again at every comparison.
  generalize v.deleteDirectory files "//a/./" { recursive := true } = removed at hopens hremoved ⊢
  generalize v.deleteDirectory files "/a/b" { recursive := false } = refused at hrefused ⊢
  rw [hpaths.1, hpaths.2.2.1] at hremoved
  rw [hpaths.2.1, hpaths.2.2.2] at hrefused
  obtain ⟨hdone, -, -, -, hopen⟩ := hremoved
  obtain ⟨hanswer, htree⟩ := hdone hthere.1 (.inl rfl)
  obtain ⟨hanswer', htree'⟩ := hrefused.2.1 rfl "x" hthere.2
  exact ⟨hanswer, htree, hopen hgives hopens, hanswer', htree'⟩

end Volume
end VolumeFs
