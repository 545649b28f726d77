import VolumeFs.Proofs.Volume.StatusList

/-!
# Batches that come back rearranged

The attributes of a batch may come back in any order; some may be missing, and some may belong to
inodes that were not asked for. A listing still tells about each entry under its own name, because
it goes by the inodes: it gives one result for each of the attributes that were asked for, in the
order in which they came, and that result is the one that the full batch gives for the same name.
-/

namespace VolumeFs

open Memory Memory.Store

/-- A batch: the inodes that were asked for, and the attributes that came back. -/
structure Batch where
  inodes : List UInt64
  stats : List Stat

def Batch.kept (b : Batch) : List Stat := b.stats.filter (·.ino ∈ b.inodes)

/-- What may become of the attributes of a batch: they change places, some get lost, and others that
were not asked for come among them. -/
structure Rearrangement where
  reply : List UInt64 → List Stat → List Stat
  subperm_kept : ∀ inodes stats, (Batch.mk inodes (reply inodes stats)).kept.Subperm stats

/-- A store whose batches come back rearranged, each in a way of its own. -/
structure Rearranging (σ : Type) where
  store : σ
  choice : Nat → Rearrangement
  /-- The batches so far. -/
  batches : List Batch := []

namespace Rearranging

variable {σ α : Type}

def forwarded (s : Rearranging σ) (outcome : α × σ) : α × Rearranging σ :=
  (outcome.1, { s with store := outcome.2 })

variable [StoreClient σ]

def read (s : Rearranging σ) (fd : Fd) (buffer : ByteArray) (offset : Nat) :
    Except Errno Nat × ByteArray × Rearranging σ :=
  let (answer, held, store) := StoreClient.read s.store fd buffer offset
  (answer, held, { s with store })

def batchGetAttr (s : Rearranging σ) (fd : Fd) (inodes : List UInt64) :
    Except Errno (List Stat) × Rearranging σ :=
  match StoreClient.batchGetAttr s.store fd inodes with
  | (.error code, store) => (.error code, { s with store })
  | (.ok stats, store) =>
    let stats := (s.choice s.batches.length).reply inodes stats
    (.ok stats, { s with store, batches := s.batches ++ [⟨inodes, stats⟩] })

instance : StoreClient (Rearranging σ) where
  openPath s path flags mode := s.forwarded (StoreClient.openPath s.store path flags mode)
  read
  write s fd bytes offset := s.forwarded (StoreClient.write s.store fd bytes offset)
  flush s fd := s.forwarded (StoreClient.flush s.store fd)
  close s fd := s.forwarded (StoreClient.close s.store fd)
  getAttr s path := s.forwarded (StoreClient.getAttr s.store path)
  mkdirs s path mode := s.forwarded (StoreClient.mkdirs s.store path mode)
  unlink s path := s.forwarded (StoreClient.unlink s.store path)
  rmdir s path := s.forwarded (StoreClient.rmdir s.store path)
  rename s source target := s.forwarded (StoreClient.rename s.store source target)
  readdir s fd limit := s.forwarded (StoreClient.readdir s.store fd limit)
  batchGetAttr
  fchmod s fd mode := s.forwarded (StoreClient.fchmod s.store fd mode)
  shutdown s := { s with store := StoreClient.shutdown s.store }
  walkBound s := StoreClient.walkBound s.store
  size_read s fd buffer offset := StoreClient.size_read s.store fd buffer offset

end Rearranging

def Round.batch (r : Round) : Batch := ⟨r.page.map (·.ino), r.stats⟩

/-- The same page, with attributes that came back rearranged. -/
structure Round.Rearranged (r r' : Round) : Prop where
  page : r'.page = r.page
  kept : r'.batch.kept.Subperm r.stats

namespace Rearranging

variable {σ : Type} [StoreClient σ] {limit : Nat} {fd : Fd} {path : String} {rounds : List Round}
  {s s' : σ}

omit [StoreClient σ] in
private theorem forwarded_of_eq {α : Type} {outcome : α × σ} {answer : α}
    (h : outcome = (answer, s')) (choice : Nat → Rearrangement) (batches : List Batch) :
    (Rearranging.mk s choice batches).forwarded outcome = (answer, ⟨s', choice, batches⟩) := by
  rw [h]
  rfl

private theorem batchGetAttr_of_eq {inodes : List UInt64} {stats : List Stat}
    (h : StoreClient.batchGetAttr s fd inodes = (.ok stats, s')) (choice : Nat → Rearrangement)
    (batches : List Batch) :
    ∃ reply, StoreClient.batchGetAttr (Rearranging.mk s choice batches) fd inodes =
        (.ok reply, ⟨s', choice, batches ++ [⟨inodes, reply⟩]⟩) ∧
      (Batch.mk inodes reply).kept.Subperm stats := by
  refine ⟨(choice batches.length).reply inodes stats, ?_, Rearrangement.subperm_kept _ _ _⟩
  show batchGetAttr _ _ _ = _
  rw [batchGetAttr, h]

private theorem serves (h : Serves limit fd rounds s s') (choice : Nat → Rearrangement)
    (batches : List Batch) : ∃ rounds', List.Forall₂ Round.Rearranged rounds rounds' ∧
      Serves limit fd rounds' (Rearranging.mk s choice batches)
        (Rearranging.mk s' choice (batches ++ rounds'.map Round.batch)) := by
  induction h generalizing batches with
  | nothing hread hclose =>
    refine ⟨[], .nil, ?_⟩
    rw [List.map_nil, List.append_nil]
    exact .nothing (forwarded_of_eq hread choice batches) (forwarded_of_eq hclose choice batches)
  | short hpage hread hbatch hshort hclose =>
    obtain ⟨reply, hreply, hkept⟩ := batchGetAttr_of_eq hbatch choice batches
    exact ⟨[⟨_, reply⟩], .cons ⟨rfl, hkept⟩ .nil,
      .short hpage (forwarded_of_eq hread choice batches) hreply hshort
        (forwarded_of_eq hclose choice _)⟩
  | full hpage hread hbatch hfull hrest ih =>
    obtain ⟨reply, hreply, hkept⟩ := batchGetAttr_of_eq hbatch choice batches
    obtain ⟨rounds', hrounds, hserves⟩ := ih (batches ++ [⟨_, reply⟩])
    refine ⟨⟨_, reply⟩ :: rounds', .cons ⟨rfl, hkept⟩ hrounds, ?_⟩
    rw [List.append_assoc] at hserves
    exact .full hpage (forwarded_of_eq hread choice batches) hreply hfull hserves

private theorem opens (h : Opens limit path rounds s s') (choice : Nat → Rearrangement) :
    ∃ rounds', List.Forall₂ Round.Rearranged rounds rounds' ∧
      Opens limit path rounds' (Rearranging.mk s choice [])
        (Rearranging.mk s' choice (rounds'.map Round.batch)) := by
  obtain ⟨hattr, hfile, hopen, hserves⟩ := h
  obtain ⟨rounds', hrounds, hserves'⟩ := serves hserves choice []
  exact ⟨rounds', hrounds, .directory (forwarded_of_eq hattr choice []) hfile
    (forwarded_of_eq hopen choice []) hserves'⟩

end Rearranging

private theorem forall₂_filter_filterMap {α β : Type} {R : α → β → Prop} {p : α → Bool}
    {f : α → Option β} {xs : List α} (hsome : ∀ x ∈ xs, p x = true → ∃ y, f x = some y ∧ R x y)
    (hnone : ∀ x ∈ xs, p x = false → f x = none) :
    List.Forall₂ R (xs.filter p) (xs.filterMap f) := by
  induction xs with
  | nil => exact .nil
  | cons x xs ih =>
    have hrest := ih (fun y hy => hsome y (List.mem_cons_of_mem _ hy))
      fun y hy => hnone y (List.mem_cons_of_mem _ hy)
    cases hp : p x with
    | false => rwa [List.filter_cons_of_neg (by simp [hp]), List.filterMap_cons_none
        (hnone x List.mem_cons_self hp)]
    | true =>
      obtain ⟨y, hy, hxy⟩ := hsome x List.mem_cons_self hp
      rw [List.filter_cons_of_pos hp, List.filterMap_cons_some hy]
      exact .cons hxy hrest

namespace Listing

variable {t : Tree} {dir : Ino} {children : Std.TreeMap String Ino} {page : List (String × Ino)}
  {r : Round}

private theorem nameOf?_eq_none {entries : List Dirent} {ino : UInt64}
    (h : ino ∉ entries.map (·.ino)) : nameOf? entries ino = none := by
  rw [nameOf?, List.find?_eq_none.2, Option.map_none]
  intro d hd hino
  exact h (List.mem_map.2 ⟨d, List.mem_reverse.1 hd, by simpa using hino⟩)

/-- The attributes of a child, and the result that a listing makes for this child. -/
private def Tells (l : Listing) (t : Tree) (children : Std.TreeMap String Ino) (stat : Stat)
    (status : Status) : Prop :=
  ∃ child : String × Ino, children[child.1]? = some child.2 ∧ stat.ino = .ofNat child.2 ∧
    l.statusOf? t child = some status

private theorem tells_of_rearranged (l : Listing) (h : Listable t dir children)
    (hpage : ∀ c ∈ page, children[c.1]? = some c.2) (hr : (t.roundOf page).Rearranged r) :
    List.Forall₂ (l.Tells t children) r.batch.kept (l.classify r.page r.stats) := by
  have hentries : r.page = page.map (direntOf t) := hr.page
  apply forall₂_filter_filterMap
  · intro stat hstat hasked
    obtain ⟨child, hchild, hattr⟩ := List.mem_filterMap.1
      (hr.kept.subset (List.mem_filter.2 ⟨hstat, hasked⟩))
    obtain ⟨node, hnode, rfl⟩ := Option.map_eq_some_iff.1 hattr
    have hino : (node.stat child.2).ino = .ofNat child.2 := rfl
    obtain ⟨status, hstatus, -⟩ := l.exists_statusOf? h (hpage child hchild)
    refine ⟨status, ?_, child, hpage child hchild, hino, hstatus⟩
    rw [hino, hentries, nameOf?_direntOf h hpage hchild, ← hstatus, statusOf?, hnode]
    rfl
  · intro stat hstat hasked
    have hnone : stat.ino ∉ r.page.map (·.ino) := of_decide_eq_false hasked
    rw [nameOf?_eq_none hnone]
    rfl

private theorem tells_of_rounds (l : Listing) (h : Listable t dir children)
    {pages : List (List (String × Ino))} {rounds : List Round}
    (hpages : ∀ page ∈ pages, ∀ c ∈ page, children[c.1]? = some c.2)
    (hrounds : List.Forall₂ (fun page r => (t.roundOf page).Rearranged r) pages rounds) :
    List.Forall₂ (l.Tells t children) ((rounds.map Round.batch).flatMap Batch.kept)
      (l.told rounds) := by
  induction hrounds with
  | nil => exact .nil
  | cons hr _ ih =>
    rw [told, List.map_cons, List.flatMap_cons, List.flatMap_cons]
    obtain ⟨hpage, hpages⟩ := List.forall_mem_cons.1 hpages
    exact List.rel_append (l.tells_of_rearranged h hpage hr) (ih hpages)

private theorem inodes_of_rounds {pages : List (List (String × Ino))} {rounds : List Round}
    (hrounds : List.Forall₂ (fun page r => (t.roundOf page).Rearranged r) pages rounds) :
    (rounds.map Round.batch).flatMap Batch.inodes = pages.flatten.map fun c => .ofNat c.2 := by
  induction hrounds with
  | nil => rfl
  | @cons page r _ _ hr _ ih =>
    have hfirst : r.batch.inodes = page.map fun c => .ofNat c.2 := by
      rw [Round.batch, hr.page, Tree.roundOf, List.map_map]
      rfl
    rw [List.map_cons, List.flatMap_cons, List.flatten_cons, List.map_append, ih, hfirst]

private theorem Tells.name {l : Listing} {stat : Stat} {status : Status}
    (h : l.Tells t children stat status) (hdir : Listable t dir children) :
    children[status.name]? = some stat.ino.toNat ∧
      status ∈ children.toList.filterMap (l.statusOf? t) := by
  obtain ⟨child, hchild, hino, hstatus⟩ := h
  obtain ⟨told, htold, -, hname⟩ := l.exists_statusOf? hdir hchild
  obtain rfl : status = told := Option.some.inj (hstatus.symm.trans htold)
  obtain ⟨-, -, -, hlt⟩ := hdir.exists_node hchild
  have hnumber : (UInt64.ofNat child.2).toNat = child.2 := Nat.mod_eq_of_lt hlt
  refine ⟨by rw [hname, hino, hnumber, hchild], List.mem_filterMap.2 ⟨child, ?_, hstatus⟩⟩
  exact Std.TreeMap.mem_toList_iff_getElem?_eq_some.2 hchild

end Listing

namespace Volume

variable {σ : Type} [StoreClient σ] {v : Volume} {session : Session} {client : Client} {s s' : σ}
  {path : String} {rounds : List Round}

/-- The list of a directory is made of the rounds that the store answers with. -/
theorem list_of_opens (hsession : v.session.client = (.ok client, session))
    (h : Opens (max v.options.listBatchSize 1) (Path.ofText path) rounds s s')
    (hsteps : rounds.length ≤ StoreClient.walkBound s) :
    v.list s path = (.ok ((Listing.new (Path.ofText path) v.options.listBatchSize v.identity
      v.options.blockSize).told rounds), { v with session }, s') := by
  have hlong : 2 * rounds.length + 2 ≤ Listing.stepsFor (StoreClient.walkBound s) := by
    rw [Listing.stepsFor]
    omega
  have hdrain := Listing.drain_of_opens
    (l := .new (Path.ofText path) v.options.listBatchSize v.identity v.options.blockSize)
    h rfl rfl hlong
  simp only [Volume.list, Volume.listing, withClient, hsession, Listing.toList, hdrain]
  rfl

end Volume

/-- Whatever becomes of the attributes of each batch on the way, a directory of a store that works
is listed, each of the attributes that were asked for gives one result, in the order in which they
came, and this result is the one that the list has for the same name when nothing is rearranged. -/
theorem list_of_rearranged {s : Store} (hs : Reachable s) (hup : s.isShutDown = false)
    (hfaults : s.faults = {}) (hnumbers : s.tree.nextIno ≤ UInt64.size) {v : Volume}
    {client : Client} {session : Session} (hsession : v.session.client = (.ok client, session))
    {path : String} {dir : Ino} (hlookup : s.tree.lookup (Path.ofText path) = .ok dir)
    {children : Std.TreeMap String Ino} (hchildren : s.tree.children dir = .ok children)
    (hnames : ∀ name ∈ children.keys, name.utf8ByteSize ≤ Dirent.nameCapacity)
    (choice : Nat → Rearrangement) :
    ∃ all statuses s' rearranged,
      v.list s path = (.ok all, { v with session }, s') ∧
      all.map Status.name = children.keys ∧
      v.list (Rearranging.mk s choice []) path = (.ok statuses, { v with session }, rearranged) ∧
      rearranged.batches.flatMap Batch.inodes = children.toList.map (fun c => .ofNat c.2) ∧
      List.Forall₂
        (fun stat status => children[status.name]? = some stat.ino.toNat ∧ status ∈ all)
        (rearranged.batches.flatMap Batch.kept) statuses := by
  have hanswers : s.Answers := .of_faults hup hfaults
  have h := listable_of_reachable hs hnumbers hchildren hnames
  obtain ⟨pages, s', hpaged, hopens, -⟩ := h.opens hanswers hlookup
    (Nat.le_max_right v.options.listBatchSize 1)
  obtain ⟨rounds, hrounds, hopens'⟩ := Rearranging.opens hopens choice
  rw [List.forall₂_map_left_iff] at hrounds
  have hbound : pages.length ≤ StoreClient.walkBound s := by
    refine Nat.le_trans hpaged.length_le_length ?_
    rw [Std.TreeMap.length_toList]
    exact h.size_le
  have hmem : ∀ c ∈ children.toList, children[c.1]? = some c.2 := fun c hc =>
    Std.TreeMap.mem_toList_iff_getElem?_eq_some.1 hc
  have hpages : ∀ page ∈ pages, ∀ c ∈ page, children[c.1]? = some c.2 := fun page hpage c hc =>
    hmem c (hpaged.flatten ▸ List.mem_flatten_of_mem hpage hc)
  refine ⟨_, _, s', _, Volume.list_of_opens hsession hopens (by rwa [List.length_map]), ?_,
    Volume.list_of_opens hsession hopens' (hrounds.length_eq ▸ hbound), ?_, ?_⟩
  · rw [Listing.told_roundOf _ h hmem hpaged, Listing.map_name_filterMap_statusOf? _ h hmem,
      Std.TreeMap.map_fst_toList_eq_keys]
  · rw [Listing.inodes_of_rounds hrounds, hpaged.flatten]
  · rw [Listing.told_roundOf _ h hmem hpaged]
    exact (Listing.tells_of_rounds _ h hpages hrounds).imp fun _ _ htells => htells.name h

/-- Attributes that come back from the last to the first, with others behind them. -/
def Rearrangement.reversed (others : List Stat) : Rearrangement where
  reply inodes stats := stats.reverse ++ others.filter (·.ino ∉ inodes)
  subperm_kept inodes stats := by
    have hothers : (others.filter (·.ino ∉ inodes)).filter (·.ino ∈ inodes) = [] := by
      rw [List.filter_filter, List.filter_eq_nil_iff]
      simp
    rw [Batch.kept, List.filter_append, hothers, List.append_nil]
    exact List.filter_sublist.subperm.trans (List.reverse_perm stats).subperm

/-- Attributes that do not come back. -/
def Rearrangement.lost : Rearrangement where
  reply _ _ := []
  subperm_kept _ _ := List.nil_subperm

/-- Three files in batches of two, of which the first comes back reversed and with the attributes of
some other inode, and the second gets lost. -/
theorem list_of_rearranged_two_batches :
    let files := Store.putFile (.putFile (.putFile (.new {}) "/d/b" "x".toUTF8) "/d/a" .empty)
      "/d/c" "yz".toUTF8
    let v := { Volume.tiny with options.listBatchSize := 2 }
    let choice := fun n => if n = 0 then .reversed [{ ino := 9, mode := 0o100644 }] else .lost
    ∃ all statuses s' rearranged,
      v.list files "/d" = (.ok all, v, s') ∧ all.map Status.name = ["a", "b", "c"] ∧
      v.list (Rearranging.mk files choice []) "/d" = (.ok statuses, v, rearranged) ∧
      statuses.map Status.name = ["b", "a"] ∧
      List.Forall₂ (fun _ status => status ∈ all) (rearranged.batches.flatMap Batch.kept)
        statuses := by
  intro files v choice
  have hreachable : Reachable files := (((Reachable.new {}).step (.putFile "/d/b" "x".toUTF8)).step
    (.putFile "/d/a" .empty)).step (.putFile "/d/c" "yz".toUTF8)
  have hlookup : files.tree.lookup (Path.ofText "/d") = .ok 2 := by decide +kernel
  have hkeys : (files.tree.children 2).toOption.map Std.TreeMap.keys = some ["a", "b", "c"] := by
    decide +kernel
  have hanswer : (v.list (Rearranging.mk files choice []) "/d").1.toOption.map
      (·.map Status.name) = some ["b", "a"] := by decide +kernel
  cases hchildren : files.tree.children 2 with
  | error e =>
    rw [hchildren] at hkeys
    cases hkeys
  | ok children =>
    rw [hchildren] at hkeys
    have hkeys : children.keys = ["a", "b", "c"] := Option.some.inj hkeys
    obtain ⟨all, statuses, s', rearranged, hall, hnames, hlist, -, htold⟩ :=
      list_of_rearranged hreachable rfl rfl (by decide +kernel) (v := v) rfl hlookup hchildren
        (by rw [hkeys]; decide +kernel) choice
    rw [hlist] at hanswer
    exact ⟨all, statuses, s', rearranged, hall, hnames.trans hkeys, hlist,
      Option.some.inj hanswer, htold.imp fun _ _ h => h.2⟩

end VolumeFs
