import Mathlib.Data.List.Nodup
import Mathlib.Data.List.Perm.Subperm
import VolumeFs.Proofs.ByteOrder
import VolumeFs.Proofs.Stream.Created
import VolumeFs.Proofs.Volume.Rounds

/-!
# Lists of status

In a store without faults the list of a directory is the status of each child in the order of the
names. How large the batches are shows only in the number of calls.
-/

namespace VolumeFs

open Memory Memory.Store

namespace Memory.Store

theorem Listable.size_le {t : Tree} {dir : Ino} {children : Std.TreeMap String Ino}
    (h : Listable t dir children) : children.size ≤ t.nodes.size := by
  have hmem {child : String × Ino} (hchild : child ∈ children.toList) :
      children[child.1]? = some child.2 := Std.TreeMap.mem_toList_iff_getElem?_eq_some.1 hchild
  have hnodup : (children.toList.map Prod.snd).Nodup := by
    refine List.Nodup.map_on ?_ ((pairwise_toList children).imp ?_)
    · intro child hchild child' hchild'
      exact h.eq_of_ino_eq (hmem hchild) (hmem hchild')
    · rintro child child' hlt rfl
      exact String.lt_irrefl _ hlt
  have hsubset : children.toList.map Prod.snd ⊆ t.nodes.keys := by
    intro ino hino
    obtain ⟨child, hchild, rfl⟩ := List.mem_map.1 hino
    obtain ⟨node, hnode, -⟩ := h.exists_node (hmem hchild)
    rw [Std.TreeMap.mem_keys, Std.TreeMap.mem_iff_isSome_getElem?, hnode]
    rfl
  have hlength := (hnodup.subperm hsubset).length_le
  rwa [List.length_map, Std.TreeMap.length_toList, Std.TreeMap.length_keys] at hlength

/-- A listing from its own descriptor leaves all that were open as they were, unless all numbers
were given out before. -/
theorem Turned.openFile?_of_givesOut {s s' : Store} {clock : Clock}
    {given opens pages batches : Nat} (h : Turned s s' ⟨s.nextFd.toInt⟩ none opens pages batches)
    (hs : GivesOut (.new clock) given s) (hgiven : given < Int32.size) (fd : Fd) :
    s'.openFile? fd = s.openFile? fd := by
  rw [h.openFile?]
  split
  · rename_i hfd
    rw [hfd, ← Fd.after_zero, hs.openFile?_after (k := 0) hgiven]
  · rfl

end Memory.Store

/-- A listing that was not begun yet comes to its end with all children. -/
theorem Listing.drain_of_idle {l : Listing} {s : Store} {ino : Ino} {steps : Nat}
    {children : Std.TreeMap String Ino} (hidle : l.state = .idle) (hready : l.ready = [])
    (hb : 1 ≤ l.batchSize) (hs : s.Answers) (h : Listable s.tree ino children)
    (hlookup : s.tree.lookup l.path = .ok ino) (hsteps : 2 * children.size + 2 ≤ steps) :
    ∃ s', l.drain s steps [] =
        (.ok (children.toList.filterMap (l.statusOf? s.tree)), { l with state := .done }, s') ∧
      Turned s s' ⟨s.nextFd.toInt⟩ none 1 (children.size / l.batchSize + 1)
        ((children.size + l.batchSize - 1) / l.batchSize) := by
  obtain ⟨pages, s', hpaged, hopens, hclosed⟩ := h.opens hs hlookup hb
  have hrounds : (pages.map s.tree.roundOf).length ≤ children.size := by
    rw [List.length_map, ← Std.TreeMap.length_toList]
    exact hpaged.length_le_length
  refine ⟨s', ?_, hclosed⟩
  rw [drain_of_opens hopens hidle hready (by omega), l.told_roundOf h (fun c hc => ?_) hpaged]
  exact Std.TreeMap.mem_toList_iff_getElem?_eq_some.1 hc

namespace Volume

variable {v : Volume} {session : Session} {client : Client} {s : Store} {path : String}
  {dir ino : Ino} {children : Std.TreeMap String Ino}

section Children

variable (hsession : v.session.client = (.ok client, session)) (hup : s.isShutDown = false)
  (h : Listable s.tree dir children) (hlookup : s.tree.lookup (Path.ofText path) = .ok dir)
include hsession hup h hlookup

private theorem statusOf?_eq_status (batchSize : Nat) {child : String × Ino}
    (hchild : children[child.1]? = some child.2) (hdot : child.1 ≠ ".") (hdots : child.1 ≠ "..") :
    ((Listing.new (Path.ofText path) batchSize v.identity v.options.blockSize).statusOf? s.tree
      child).map .ok = some (v.status s (Path.join path child.1)).1 := by
  have hlink := h.link? hchild
  have hname := h.forest.isEntryName hlink
  obtain ⟨node, hnode, -⟩ := h.exists_node hchild
  have hfound : s.tree.lookup (Path.join path child.1) = .ok child.2 := by
    rw [Tree.lookup_eq_ok_iff, Path.components_join path hname,
      Tree.resolve_concat_of_eq (Tree.lookup_eq_ok_iff.1 hlookup), hlink]
  have hattr : StoreClient.getAttr s (Path.join path child.1) = _ :=
    getAttr_of_lookup hup hfound hnode
  obtain ⟨told, htold, -⟩ := Listing.exists_statusOf?
    (.new (Path.ofText path) batchSize v.identity v.options.blockSize) h hchild
  have hshown : Status.ofStat? (Path.join path child.1) (node.stat child.2) v.identity
      v.options.blockSize = some told := by
    rw [Listing.statusOf?, hnode, Option.bind_some] at htold
    rw [← Path.join_ofText]
    exact htold
  rw [htold]
  simp only [Volume.status, stat, withClient, hsession, Path.ofText_join path hname hdot hdots,
    hattr, Status.ofStat, hshown, Option.map_some]

private theorem map_filterMap_statusOf? (batchSize : Nat)
    (hnames : ∀ name ∈ children.keys, name ≠ "." ∧ name ≠ "..") :
    (children.toList.filterMap ((Listing.new (Path.ofText path) batchSize v.identity
      v.options.blockSize).statusOf? s.tree)).map .ok =
        children.keys.map fun name => (v.status s (Path.join path name)).1 := by
  have hstatus : ∀ child ∈ children.toList, ((Listing.new (Path.ofText path) batchSize v.identity
      v.options.blockSize).statusOf? s.tree child).map .ok =
        some (v.status s (Path.join path child.1)).1 := by
    intro child hchild
    have hkey : child.1 ∈ children.keys := by
      rw [← Std.TreeMap.map_fst_toList_eq_keys]
      exact List.mem_map_of_mem hchild
    exact statusOf?_eq_status hsession hup h hlookup batchSize
      (Std.TreeMap.mem_toList_iff_getElem?_eq_some.1 hchild) (hnames _ hkey).1 (hnames _ hkey).2
  rw [List.map_filterMap, List.filterMap_congr hstatus, List.filterMap_eq_map',
    ← Std.TreeMap.map_fst_toList_eq_keys, List.map_map]
  rfl

end Children

private theorem list_of_file (hsession : v.session.client = (.ok client, session))
    (hup : s.isShutDown = false) (hlookup : s.tree.lookup (Path.ofText path) = .ok ino)
    {node : Node} (hnode : s.tree.nodes[ino]? = some node)
    (htype : Mode.type node.mode = Mode.regular) :
    v.list s path = (.ok [], { v with session }, s) := by
  have hattr : StoreClient.getAttr s (Path.ofText path) = _ := getAttr_of_lookup hup hlookup hnode
  have hfile : (node.stat ino).isFile = true := by
    rw [Stat.isFile, show (node.stat ino).mode = node.mode from rfl, htype]
    decide
  have hstep := Listing.step_of_file
    (l := .new (Path.ofText path) v.options.listBatchSize v.identity v.options.blockSize)
    rfl hattr hfile
  simp only [Volume.list, Volume.listing, withClient, hsession, Listing.toList, Listing.stepsFor]
  rw [Listing.drain_of_step rfl hstep, Listing.drain_of_final rfl]
  rfl

/-- A directory is listed in the order of the bytes of the names, with what is told about each
child by itself. Only the number of calls depends on the size of the batches. Its descriptor is
closed again, and all others are as they were unless their numbers have come back. A file has an
empty list. The numbers of all nodes must fit into attributes. -/
theorem list_of_reachable (hs : Reachable s) (hup : s.isShutDown = false)
    (hfaults : s.faults = {}) (hnumbers : s.tree.nextIno ≤ UInt64.size) (v : Volume)
    (hsession : v.session.client = (.ok client, session)) (hb : 1 ≤ v.options.listBatchSize)
    (path : String) (hlookup : s.tree.lookup (Path.ofText path) = .ok ino) :
    (∀ children, s.tree.children ino = .ok children →
      (∀ name ∈ children.keys,
        name.utf8ByteSize ≤ Dirent.nameCapacity ∧ name ≠ "." ∧ name ≠ "..") →
      ∃ statuses s', v.list s path = (.ok statuses, { v with session }, s') ∧
        statuses.map .ok =
          children.keys.map (fun name => (v.status s (Path.join path name)).1) ∧
        children.keys.Pairwise
          (fun name name' => name.toUTF8.data.toList < name'.toUTF8.data.toList) ∧
        s'.calls.readdirs =
          s.calls.readdirs + (children.size / v.options.listBatchSize + 1) ∧
        s'.calls.batchGetAttrs = s.calls.batchGetAttrs +
          (children.size + v.options.listBatchSize - 1) / v.options.listBatchSize ∧
        s'.openDescriptors ≤ s.openDescriptors ∧
        (∀ fd, s'.openFile? fd =
          if fd = ⟨s.nextFd.toInt⟩ then none else s.openFile? fd) ∧
        (∀ {clock given}, GivesOut (.new clock) given s → given < Int32.size →
          s'.openDescriptors = s.openDescriptors ∧ ∀ fd, s'.openFile? fd = s.openFile? fd) ∧
        s'.tree = s.tree) ∧
    (∀ node, s.tree.nodes[ino]? = some node → Mode.type node.mode = Mode.regular →
      v.list s path = (.ok [], { v with session }, s)) := by
  constructor
  · intro children hchildren hnames
    have hanswers : s.Answers := .of_faults hup hfaults
    have h := listable_of_reachable hs hnumbers hchildren fun name hname => (hnames name hname).1
    have hsteps : 2 * children.size + 2 ≤ Listing.stepsFor (StoreClient.walkBound s) := by
      have hsize := h.size_le
      show 2 * children.size + 2 ≤ 2 * s.tree.nodes.size + 2
      omega
    have hbatch : max v.options.listBatchSize 1 = v.options.listBatchSize := Nat.max_eq_left hb
    obtain ⟨s', hdrain, hclosed⟩ := Listing.drain_of_idle
      (l := .new (Path.ofText path) v.options.listBatchSize v.identity v.options.blockSize)
      rfl rfl (Nat.le_max_right _ _) hanswers h hlookup hsteps
    have hless (fd : Fd) (hopen : (s'.openFile? fd).isSome = true) :
        (s.openFile? fd).isSome = true := by
      rw [hclosed.openFile?] at hopen
      split at hopen
      · cases hopen
      · exact hopen
    refine ⟨children.toList.filterMap ((Listing.new (Path.ofText path) v.options.listBatchSize
      v.identity v.options.blockSize).statusOf? s.tree), s', ?_, ?_, ?_, ?_, ?_,
      openDescriptors_le hless, hclosed.openFile?, fun hgives hgiven => ?_, hclosed.tree⟩
    · simp only [Volume.list, Volume.listing, withClient, hsession, Listing.toList, hdrain]
      rfl
    · exact map_filterMap_statusOf? hsession hup h hlookup _ fun name hname => (hnames name hname).2
    · rw [← Std.TreeMap.map_fst_toList_eq_keys, List.pairwise_map]
      exact (pairwise_toList children).imp Utf8.toUTF8_lt_of_lt
    · rw [hclosed.readdirs]
      simp only [Listing.new, hbatch]
    · rw [hclosed.batchGetAttrs]
      simp only [Listing.new, hbatch]
    · have hopen := hclosed.openFile?_of_givesOut hgives hgiven
      refine ⟨Nat.le_antisymm (openDescriptors_le hless) (openDescriptors_le fun fd => ?_), hopen⟩
      rw [hopen]
      exact id
  · intro node hnode htype
    exact list_of_file hsession hup hlookup hnode htype

/-- Three files in batches of two, which leaves one for the second batch. -/
theorem list_of_reachable_three_files :
    let files := Store.putFile (.putFile (.putFile (.new {}) "/d/b" "x".toUTF8) "/d/a" .empty)
      "/d/c" "yz".toUTF8
    let v := { tiny with options.listBatchSize := 2 }
    ∃ statuses s', v.list files "/d/." = (.ok statuses, v, s') ∧
      statuses.map .ok =
        ["a", "b", "c"].map (fun name => (v.status files (Path.join "/d/." name)).1) ∧
      s'.calls.readdirs = 2 ∧ s'.calls.batchGetAttrs = 2 ∧ s'.openDescriptors = 0 := by
  intro files v
  have hreachable : Reachable files := (((Reachable.new {}).step (.putFile "/d/b" "x".toUTF8)).step
    (.putFile "/d/a" .empty)).step (.putFile "/d/c" "yz".toUTF8)
  have hlookup : files.tree.lookup (Path.ofText "/d/.") = .ok 2 := by decide +kernel
  have hkeys : (files.tree.children 2).toOption.map Std.TreeMap.keys = some ["a", "b", "c"] := by
    decide +kernel
  cases hchildren : files.tree.children 2 with
  | error e =>
    rw [hchildren] at hkeys
    cases hkeys
  | ok children =>
    rw [hchildren] at hkeys
    have hkeys : children.keys = ["a", "b", "c"] := Option.some.inj hkeys
    have hsize : children.size = 3 := by rw [← Std.TreeMap.length_keys, hkeys]; rfl
    obtain ⟨statuses, s', hlist, hstatuses, -, hreaddirs, hbatches, hopen, -⟩ :=
      (list_of_reachable hreachable rfl rfl (by decide +kernel) v rfl (by decide) "/d/." hlookup).1
        children hchildren (by rw [hkeys]; decide +kernel)
    rw [hkeys] at hstatuses
    rw [hsize] at hreaddirs hbatches
    exact ⟨statuses, s', hlist, hstatuses, hreaddirs.trans (by decide +kernel),
      hbatches.trans (by decide +kernel),
      Nat.eq_zero_of_le_zero (Nat.le_trans hopen (by decide +kernel))⟩

end Volume
end VolumeFs
