import VolumeFs.Proofs.Store.Descriptors
import VolumeFs.Proofs.Tree.Rooted

/-!
# The names of a store

The nodes of a store form one tree under their names, whatever calls were made with whatever
faults: every node but the root has one name in one directory, every node is reached from the
root, and no number of a node or of a descriptor is given out twice before its counter overflows.
Only a file that is put in the place of a directory would break this, because it hides what the
directory held.
-/

namespace VolumeFs.Memory

namespace Operation

/-- The operation puts no file in the place of a directory. -/
def SparesDirectories (s : Store) : Operation → Prop
  | putFile path _ => ∀ ino, s.tree.lookup path = .ok ino → s.tree.isDirectory ino = false
  | _ => True

open Store in
/-- What an operation does to the tree is made of single changes. -/
theorem changes_on {s : Store} {op : Operation} (hs : s.tree.Forest)
    (hput : op.SparesDirectories s) : s.tree.Changes (op.on s).tree := by
  cases op with
  | openPath path flags mode =>
    cases h : s.openPath path flags mode with
    | mk answer s' =>
      rw [on, h]
      cases answer with
      | error e => rcases openPath_eq_error h with rfl | rfl <;> exact .refl
      | ok fd =>
        obtain ⟨-, -, ino, tree, hopen, rfl⟩ := openPath_eq_ok h
        cases hopen with
        | found => exact .refl
        | emptied _ hfile => exact .single (.written hfile)
        | @created parent name _ _ hlookup hparent hinsert =>
          obtain ⟨dirs, hc, hp, -⟩ := Tree.lookupParent_eq_ok_iff.1 hparent
          refine .single (.inserted hp ?_ (isEntryName_of_mem_components (by rw [hc]; simp))
            (Node.isChildless_newFile mode _) (Node.isProper_newFile mode _) hinsert)
          cases hl : s.tree.link? parent name with
          | none => rfl
          | some i =>
            rw [← Tree.resolve_concat_of_eq hp, ← hc] at hl
            rw [Tree.lookup_eq_ok_iff.2 hl] at hlookup
            cases hlookup
  | write fd bytes offset =>
    rcases tree_write s fd bytes offset with h | ⟨file, held, -, hfile, h⟩
    · rw [on, h]
    · rw [on, h]
      exact .single (.written hfile)
  | mkdirs path mode =>
    rcases tree_mkdirs s path mode with h | h
    · rw [on, h]
    · rw [on, h]
      exact Tree.changes_mkdirs hs path mode _
  | unlink path =>
    rcases tree_unlink s path with ⟨e, -, h⟩ | ⟨tree, htree, -, h⟩
    · rw [on, h]
    · have hchanges := s.tree.changes_unlink path
      rw [htree] at hchanges
      rwa [on, h]
  | rmdir path =>
    rcases tree_rmdir s path with ⟨e, -, h⟩ | ⟨tree, htree, -, h⟩
    · rw [on, h]
    · have hchanges := s.tree.changes_rmdir path
      rw [htree] at hchanges
      rwa [on, h]
  | rename source target =>
    rcases tree_rename s source target with ⟨e, -, h⟩ | ⟨tree, htree, -, h⟩
    · rw [on, h]
    · have hchanges := s.tree.changes_rename source target s.clock.now
      rw [htree] at hchanges
      rwa [on, h]
  | fchmod fd mode =>
    rcases tree_fchmod s fd mode with h | ⟨ino, h⟩
    · rw [on, h]
    · rw [on, h]
      exact .single .permitted
  | read fd buffer offset => rw [on, tree_read]
  | flush fd => rw [on, tree_flush]
  | close fd => rw [on, tree_close]
  | getAttr path => rw [on, tree_getAttr]
  | readdir fd limit => rw [on, tree_readdir]
  | batchGetAttr fd inodes => rw [on, tree_batchGetAttr]
  | putFile path bytes => exact Tree.changes_putFile hs bytes _ hput
  | putDirectory path => exact Tree.changes_mkdirs hs path 0o755 _
  | shutdown | setFaults faults | setClock clock | clearCalls => exact .refl

end Operation

/-- A store that operations lead to from another one, of which none puts a file in the place of a
directory. -/
inductive Follows (s : Store) : Store → Prop where
  | refl : Follows s s
  | step {s'} (op : Operation) (hput : op.SparesDirectories s') :
      Follows s s' → Follows s (op.on s')

/-- The names of a store lead through one tree, and its modes tell directories from files. -/
structure Store.WellFormed (s : Store) : Prop where
  root_isDirectory : s.tree.isDirectory rootIno = true
  mem_nodes_of_child : ∀ {parent name ino}, s.tree.child parent name = .ok ino →
    ino ∈ s.tree.nodes
  child_ne_root : ∀ {parent name}, s.tree.child parent name ≠ .ok rootIno
  existsUnique_child : ∀ {ino}, ino ∈ s.tree.nodes → ino ≠ rootIno →
    ∃! link : Ino × String, s.tree.child link.1 link.2 = .ok ino
  existsUnique_walk : ∀ {ino}, ino ∈ s.tree.nodes → ∃! names, s.tree.walk rootIno names = .ok ino
  type_mode : ∀ {ino : Ino} {node : Node}, s.tree.nodes[ino]? = some node →
    Mode.type node.mode = if node.isDirectory then Mode.directory else Mode.regular

/-- The numbers of nodes, as words of 64 bits, are below the counter. Those that are in use in the
second store only had not been given out in the first. -/
structure Store.NodesRenewed (s s' : Store) : Prop where
  lt_nextIno : ∀ {ino}, ino ∈ s'.tree.nodes → UInt64.ofNat ino < UInt64.ofNat s'.tree.nextIno
  nextIno_le : ∀ {ino}, ino ∈ s'.tree.nodes → ino ∉ s.tree.nodes →
    UInt64.ofNat s.tree.nextIno ≤ UInt64.ofNat ino

/-- The numbers of descriptors are below the counter. Those that are in use in the second store
only had not been given out in the first. -/
structure Store.DescriptorsRenewed (s s' : Store) : Prop where
  lt_nextFd : ∀ {fd file}, s'.openFile? fd = some file → fd.number < s'.nextFd.toInt
  nextFd_le : ∀ {fd file}, s'.openFile? fd = some file → s.openFile? fd = none →
    s.nextFd.toInt ≤ fd.number

namespace Tree

variable {t : Tree} {ino : Ino}

theorem mem_nodes_iff : ino ∈ t.nodes ↔ ∃ e, t.entryOf? ino = some e := by
  rw [Std.TreeMap.mem_iff_isSome_getElem?, Option.isSome_iff_exists]
  simp [entryOf?]

private theorem Rooted.existsUnique_walk (ht : t.Rooted) (h : ino ∈ t.nodes) :
    ∃! names, t.walk rootIno names = .ok ino := by
  obtain ⟨e, he⟩ := mem_nodes_iff.1 h
  obtain ⟨names, hr⟩ := ht.exists_resolve he
  refine ⟨names, walk_eq_ok_iff.2 hr, fun names' h' => ?_⟩
  exact ht.resolve_injective (walk_eq_ok_iff.1 h') hr

private theorem Rooted.existsUnique_child (ht : t.Rooted) (h : ino ∈ t.nodes)
    (hroot : ino ≠ rootIno) :
    ∃! link : Ino × String, t.child link.1 link.2 = .ok ino := by
  obtain ⟨e, he⟩ := mem_nodes_iff.1 h
  obtain ⟨names, hr⟩ := ht.exists_resolve he
  rcases List.eq_nil_or_concat names with rfl | ⟨dirs, name, rfl⟩
  · exact absurd (Option.some.inj hr).symm hroot
  · rw [List.concat_eq_append, resolve_concat, Option.bind_eq_some_iff] at hr
    obtain ⟨parent, -, hl⟩ := hr
    refine ⟨(parent, name), child_eq_ok_iff.2 hl, fun link hlink => ?_⟩
    obtain ⟨hparent, hname⟩ := ht.link_unique (child_eq_ok_iff.1 hlink) hl
    exact Prod.ext hparent hname

theorem Rooted.type_mode (ht : t.Rooted) {node : Node} (h : t.nodes[ino]? = some node) :
    Mode.type node.mode = if node.isDirectory then Mode.directory else Mode.regular := by
  have hmode := ht.isProper (e := node.entry ino) (by rw [entryOf?, h, Option.map_some])
  obtain ⟨body, mode, atime, mtime, ctime⟩ := node
  cases body <;> exact hmode

end Tree

namespace Follows

variable {s s' : Store} {clock : Clock}

private theorem reachable (h : Follows s s') (hs : Reachable s) : Reachable s' := by
  induction h with
  | refl => exact hs
  | step op _ _ ih => exact ih.step op

theorem changes (h : Follows s s') (hs : Reachable s) : s.tree.Changes s'.tree := by
  induction h with
  | refl => exact .refl
  | step op hput hfollows ih =>
    exact ih.trans (Operation.changes_on (hfollows.reachable hs).forest hput)

private theorem wellFormed (h : Follows (.new clock) s) : s.WellFormed := by
  have hs := h.reachable (.new clock)
  have ht : s.tree.Rooted := (h.changes (.new clock)).rooted (Tree.rooted_new clock.now)
  constructor
  · exact ht.root_isDirectory
  · intro parent name ino hchild
    exact Tree.mem_nodes_iff.2 (ht.entryOf_link (Tree.child_eq_ok_iff.1 hchild))
  · intro parent name hchild
    exact ht.link_ne_root (Tree.child_eq_ok_iff.1 hchild)
  · exact ht.existsUnique_child
  · exact ht.existsUnique_walk
  · exact ht.type_mode

private theorem nodesRenewed (h : Follows s s') (hs : Reachable s)
    (hnumbers : s'.tree.nextIno < UInt64.size) : s.NodesRenewed s' := by
  have hforest := (h.reachable hs).forest
  have hnew := (h.changes hs).renumbered
  have hlt {ino : Ino} (hino : ino ∈ s'.tree.nodes) : ino < s'.tree.nextIno := by
    obtain ⟨e, he⟩ := Tree.mem_nodes_iff.1 hino
    exact hforest.lt_nextIno he
  constructor
  · intro ino hino
    rw [UInt64.lt_iff_toNat_lt, UInt64.toNat_ofNat_of_lt' hnumbers,
      UInt64.toNat_ofNat_of_lt' (Nat.lt_trans (hlt hino) hnumbers)]
    exact hlt hino
  · intro ino hino hold
    obtain ⟨e, he⟩ := Tree.mem_nodes_iff.1 hino
    have hnone : s.tree.entryOf? ino = none := by
      cases hnone : s.tree.entryOf? ino with
      | none => rfl
      | some e' => exact absurd (Tree.mem_nodes_iff.2 ⟨e', hnone⟩) hold
    have hle := hnew.nextIno_le_of_new he hnone
    rw [UInt64.le_iff_toNat_le,
      UInt64.toNat_ofNat_of_lt' (Nat.lt_of_le_of_lt hnew.nextIno_le hnumbers),
      UInt64.toNat_ofNat_of_lt' (Nat.lt_trans (hlt hino) hnumbers)]
    exact hle

end Follows

private theorem GivesOut.descriptorsRenewed {clock : Clock} {s s' : Store} {given more : Nat}
    (hs : GivesOut (.new clock) given s) (h : GivesOut s more s')
    (hgiven : given + more + 3 < 2 ^ 31) : s.DescriptorsRenewed s' := by
  have hnext {s : Store} {n : Nat} (hs : GivesOut (.new clock) n s) (hn : n + 3 < 2 ^ 31) :
      s.nextFd.toInt = n + 3 := by
    rw [hs.nextFd_of_new]
    exact Fd.number_after hn
  constructor
  · intro fd file hfile
    obtain ⟨m, hm, rfl⟩ := (hs.trans h).exists_after_of_new hfile
    have hnumber : (Fd.after 3 m).number = m + 3 := Fd.number_after (by omega)
    rw [hnext (hs.trans h) hgiven, hnumber]
    omega
  · intro fd file hfile hnone
    rcases h.exists_after hfile with hopen | ⟨m, hm, rfl⟩
    · exact absurd hnone hopen
    · have hnumber : (Fd.after 3 (given + m)).number = ((given + m : Nat) : Int) + 3 :=
        Fd.number_after (by omega)
      rw [hnext hs (by omega), hs.nextFd_of_new, Fd.after_add, hnumber]
      omega

/-- Whatever is done to a store, its nodes form one tree under their names. All numbers in use are
below their counters, so that none is given out twice, until a counter overflows: that of the nodes
has 64 bits, and that of the descriptors, which begins with three, has 32 bits with a sign. -/
theorem namespace_of_follows {clock : Clock} {s : Store} (hs : Follows (.new clock) s) :
    s.WellFormed ∧
      (∀ {s' : Store}, Follows s s' → s'.tree.nextIno < UInt64.size → s.NodesRenewed s') ∧
      ∀ {given more : Nat} {s' : Store}, GivesOut (.new clock) given s → GivesOut s more s' →
        given + more + 3 < 2 ^ 31 → s.DescriptorsRenewed s' :=
  ⟨hs.wellFormed, fun h => h.nodesRenewed (hs.reachable (.new clock)),
    fun hgiven h => hgiven.descriptorsRenewed h⟩

/-- A file that is put, then moved into a directory, and then opened. -/
theorem namespace_of_follows_moved_file :
    ∃ s : Store, Follows (.new {}) s ∧ s.tree.walk rootIno ["d", "g"] = .ok 2 ∧
      (s.openFile? ⟨3⟩).isSome = true ∧ s.WellFormed ∧ s.NodesRenewed s ∧
        s.DescriptorsRenewed s := by
  let put := (Operation.putFile "/f" ⟨#[1]⟩).on (.new {})
  let made := (Operation.mkdirs "/d" 0o700).on put
  let moved := (Operation.rename "/f" "/d/g").on made
  let opened := (Operation.openPath "/d/g" .readOnly 0).on moved
  have hspares : (Operation.putFile "/f" ⟨#[1]⟩).SparesDirectories (.new {}) := by
    have hfree : (Store.new {}).tree.lookup "/f" = .error .enoent := by decide +kernel
    intro ino hlookup
    rw [hfree] at hlookup
    cases hlookup
  have hput : Follows (.new {}) put := Follows.refl.step _ hspares
  have hmade : Follows (.new {}) made := hput.step (.mkdirs "/d" 0o700) trivial
  have hmoved : Follows (.new {}) moved := hmade.step (.rename "/f" "/d/g") trivial
  have hopened : Follows (.new {}) opened := hmoved.step (.openPath "/d/g" .readOnly 0) trivial
  have hgiven : GivesOut (.new {}) _ opened :=
    (((GivesOut.refl.step (.putFile "/f" ⟨#[1]⟩)).step (.mkdirs "/d" 0o700)).step
      (.rename "/f" "/d/g")).step (.openPath "/d/g" .readOnly 0)
  obtain ⟨hwellFormed, hnodes, hdescriptors⟩ := namespace_of_follows hopened
  exact ⟨opened, hopened, by decide +kernel, by decide +kernel, hwellFormed,
    hnodes .refl (by decide +kernel), hdescriptors hgiven .refl (by decide +kernel)⟩

end VolumeFs.Memory
