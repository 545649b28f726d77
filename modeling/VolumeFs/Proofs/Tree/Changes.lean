import VolumeFs.Proofs.Tree.Forest

/-!
# Changes of a forest

Each operation on a tree, told by the entries before and after it: which chain of names gains or
loses its entry, and that no other one does. All of them keep a forest a forest, and one that
fails leaves it as it was.
-/

namespace VolumeFs.Memory.Tree

variable {t t' : Tree} {parent ino : Ino} {name : String} {now : Time}

theorem Forest.of_sublinks (ht : t.Forest)
    (hlink : ∀ p n i, t'.link? p n = some i → t.link? p n = some i)
    (hentry : ∀ p n i, t'.link? p n = some i → ∃ e, t'.entryOf? i = some e)
    (hlt : ∀ i e, t'.entryOf? i = some e → i < t'.nextIno)
    (hroot : t'.isDirectory rootIno = true) : t'.Forest where
  root_isDirectory := hroot
  link_ne_root h := ht.link_ne_root (hlink _ _ _ h)
  link_unique h h' := ht.link_unique (hlink _ _ _ h) (hlink _ _ _ h')
  entryOf_link h := hentry _ _ _ h
  lt_nextIno h := hlt _ _ h
  isEntryName h := ht.isEntryName (hlink _ _ _ h)

theorem Forest.of_newLink (ht : t.Forest)
    (hlink : ∀ p n, t'.link? p n = if p = parent ∧ n = name then some ino else t.link? p n)
    (hfree : ∀ p n, t.link? p n ≠ some ino) (hroot : ino ≠ rootIno)
    (hentry : ∀ i, i ≠ ino → t'.entryOf? i = t.entryOf? i)
    (hnew : ∃ e, t'.entryOf? ino = some e) (hnext : t.nextIno ≤ t'.nextIno)
    (hlt : ino < t'.nextIno) (hname : IsEntryName name) : t'.Forest where
  root_isDirectory := by
    rw [isDirectory_congr (hentry _ (Ne.symm hroot))]
    exact ht.root_isDirectory
  link_ne_root := by
    intro p n h
    rw [hlink] at h
    split at h
    · exact hroot (Option.some.inj h)
    · exact ht.link_ne_root h
  link_unique := by
    intro p p' n n' child h h'
    rw [hlink] at h h'
    split at h <;> split at h'
    · rename_i hp hp'
      exact ⟨hp.1.trans hp'.1.symm, hp.2.trans hp'.2.symm⟩
    · cases h
      exact absurd h' (hfree _ _)
    · cases h'
      exact absurd h (hfree _ _)
    · exact ht.link_unique h h'
  entryOf_link := by
    intro p n child h
    rw [hlink] at h
    split at h
    · cases h
      exact hnew
    · have hc : child ≠ ino := fun hc => hfree p n (hc ▸ h)
      rw [hentry _ hc]
      exact ht.entryOf_link h
  lt_nextIno := by
    intro i e h
    by_cases hi : i = ino
    · exact hi ▸ hlt
    · rw [hentry _ hi] at h
      exact Nat.lt_of_lt_of_le (ht.lt_nextIno h) hnext
  isEntryName := by
    intro p n child h
    rw [hlink] at h
    split at h
    · rename_i hp
      exact hp.2 ▸ hname
    · exact ht.isEntryName h

theorem exists_entryOf?_modifyNode_iff {change : Node → Node} {i : Ino} :
    (∃ e, (t.modifyNode ino change).entryOf? i = some e) ↔ ∃ e, t.entryOf? i = some e := by
  rw [entryOf?_modifyNode]
  by_cases hi : i = ino
  · subst hi
    cases h : t.nodes[i]? <;> simp [entryOf?, h]
  · rw [if_neg hi]

private theorem Forest.modifyNode {change : Node → Node} (ht : t.Forest)
    (hlink : ∀ p n i, (t.modifyNode ino change).link? p n = some i → t.link? p n = some i)
    (hroot : (t.modifyNode ino change).isDirectory rootIno = true) :
    (t.modifyNode ino change).Forest := by
  refine ht.of_sublinks hlink ?_ ?_ hroot
  · intro p n i h
    exact exists_entryOf?_modifyNode_iff.2 (ht.entryOf_link (hlink p n i h))
  · intro i e h
    obtain ⟨e', he'⟩ := exists_entryOf?_modifyNode_iff.1 ⟨e, h⟩
    exact ht.lt_nextIno he'

theorem Forest.modifyNode_of_same {change : Node → Node} (ht : t.Forest)
    (hchildren : ∀ n, (change n).children? = n.children?) : (t.modifyNode ino change).Forest := by
  apply ht.modifyNode
  · intro p n i h
    rwa [link?_modifyNode_of_same hchildren] at h
  · obtain ⟨children, hc⟩ := isDirectory_iff.1 ht.root_isDirectory
    refine isDirectory_iff.2 ⟨children, ?_⟩
    rw [getElem?_nodes_modifyNode]
    by_cases hi : rootIno = ino
    · subst hi
      rw [if_pos rfl]
      cases hn : t.nodes[rootIno]? with
      | none => simp [hn] at hc
      | some node => simpa [hn, hchildren] using hc
    · rwa [if_neg hi]

theorem Forest.modifyNode_withBytes (ht : t.Forest) (bytes : ByteArray) (hroot : ino ≠ rootIno) :
    (t.modifyNode ino (·.withBytes bytes now)).Forest := by
  apply ht.modifyNode
  · intro p n i h
    rw [link?_modifyNode_withBytes] at h
    split at h
    · cases h
    · exact h
  · rw [isDirectory_congr, ht.root_isDirectory]
    rw [entryOf?_modifyNode, if_neg (Ne.symm hroot)]

theorem entryOf?_modifyNode_withBytes (t : Tree) (ino : Ino) (bytes : ByteArray) (now : Time)
    (i : Ino) : (t.modifyNode ino (·.withBytes bytes now)).entryOf? i =
      if i = ino then (t.entryOf? ino).map ({ · with bytes := some bytes }) else t.entryOf? i := by
  rw [entryOf?_modifyNode]
  by_cases hi : i = ino
  · subst hi
    simp only [if_true, entryOf?, Option.map_map]
    rfl
  · simp only [if_neg hi]

theorem resolve_modifyNode_withBytes (hfile : t.isDirectory ino = false) (bytes : ByteArray)
    (now : Time) (names : List String) :
    (t.modifyNode ino (·.withBytes bytes now)).resolve names = t.resolve names := by
  apply descend_congr
  intro _ n p _ _
  rw [link?_modifyNode_withBytes]
  split
  · rename_i hp
    rw [hp, link?_eq_none_of_not_isDirectory hfile]
  · rfl

theorem entryAt?_modifyNode_withBytes_ne (hfile : t.isDirectory ino = false) {names : List String}
    (hne : t.resolve names ≠ some ino) (bytes : ByteArray) (now : Time) :
    (t.modifyNode ino (·.withBytes bytes now)).entryAt? names = t.entryAt? names := by
  apply entryAt?_eq_of_resolve_eq (resolve_modifyNode_withBytes hfile bytes now names)
  intro i hi
  rw [entryOf?_modifyNode_withBytes, if_neg]
  rintro rfl
  exact hne hi

theorem entryAt?_modifyNode_withBytes (ht : t.Forest) {names : List String} {e : Entry}
    (h : t.entryAt? names = some e) (hfile : t.isDirectory e.ino = false) (bytes : ByteArray)
    (now : Time) (other : List String) :
    (t.modifyNode e.ino (·.withBytes bytes now)).entryAt? other =
      if other = names then some { e with bytes := some bytes } else t.entryAt? other := by
  obtain ⟨hr, he⟩ := entryAt?_eq_some_iff.1 h
  by_cases ho : other = names
  · subst ho
    rw [if_pos rfl, entryAt?, resolve_modifyNode_withBytes hfile, hr, Option.bind_some,
      entryOf?_modifyNode_withBytes, if_pos rfl, he]
    rfl
  · rw [if_neg ho]
    apply entryAt?_modifyNode_withBytes_ne hfile
    intro hi
    exact ho (ht.resolve_injective hi hr)

theorem insertChild_eq_ok {node : Node} {child : Ino}
    (h : t.insertChild parent name node now = (.ok child, t')) :
    child = t.nextIno ∧ t.isDirectory parent = true ∧ t' = (Tree.mk
      ((t.linkChild parent name t.nextIno).nodes.insert t.nextIno node)
      (t.nextIno + 1)).modifyNode parent (·.touch now) := by
  unfold insertChild at h
  split at h
  · cases h
  · rename_i children hc
    cases h
    exact ⟨rfl, isDirectory_iff.2 ⟨children, children_eq_ok_iff.1 hc⟩, rfl⟩

theorem tree_of_insertChild_error {node : Node} {e : Errno}
    (h : t.insertChild parent name node now = (.error e, t')) : t' = t := by
  unfold insertChild at h
  split at h
  · cases h
    rfl
  · cases h

theorem exists_insertChild (h : t.isDirectory parent = true) (name : String) (node : Node)
    (now : Time) : ∃ t', t.insertChild parent name node now = (.ok t.nextIno, t') := by
  obtain ⟨children, hchildren⟩ := isDirectory_iff.1 h
  rw [insertChild, children_eq_ok_iff.2 hchildren]
  exact ⟨_, rfl⟩

section Insertion

variable {node : Node} {child : Ino} {dirs : List String}

theorem link?_insertChild (ht : t.Forest) (hnode : node.IsChildless)
    (h : t.insertChild parent name node now = (.ok child, t')) (p : Ino) (n : String) :
    t'.link? p n = if p = parent ∧ n = name then some t.nextIno else t.link? p n := by
  obtain ⟨rfl, hd, rfl⟩ := insertChild_eq_ok h
  have hparent : parent ≠ t.nextIno := by
    rintro rfl
    obtain ⟨e, he, -⟩ := isDirectory_iff_entryOf?.1 hd
    rw [ht.entryOf?_nextIno] at he
    cases he
  rw [link?_modifyNode_of_same fun n => children?_touch n now, link?_insert, link?_linkChild]
  by_cases hp : p = t.nextIno
  · rw [if_pos hp, hnode, if_neg, hp, ht.link?_nextIno]
    rintro ⟨rfl, -⟩
    exact hparent hp
  · simp [hp, hd]

theorem entryOf?_insertChild (h : t.insertChild parent name node now = (.ok child, t'))
    (i : Ino) : t'.entryOf? i = if i = t.nextIno then some (node.entry i) else t.entryOf? i := by
  obtain ⟨rfl, -, rfl⟩ := insertChild_eq_ok h
  rw [entryOf?_modifyNode_of_same fun n i => entry_touch n now i, entryOf?_insert,
    entryOf?_linkChild]
  split
  · rename_i hi
    rw [hi]
  · rfl

theorem Forest.insertChild (ht : t.Forest) (hnode : node.IsChildless)
    (hname : IsEntryName name) (h : t.insertChild parent name node now = (.ok child, t')) :
    t'.Forest := by
  have hentry := entryOf?_insertChild h
  have hnext : t'.nextIno = t.nextIno + 1 := by
    obtain ⟨-, -, rfl⟩ := insertChild_eq_ok h
    rfl
  apply ht.of_newLink (link?_insertChild ht hnode h) (ht.link?_ne_nextIno)
  · intro hroot
    obtain ⟨e, he, -⟩ := isDirectory_iff_entryOf?.1 ht.root_isDirectory
    rw [← hroot, ht.entryOf?_nextIno] at he
    cases he
  · intro i hi
    rw [hentry, if_neg hi]
  · exact ⟨_, by rw [hentry, if_pos rfl]⟩
  · rw [hnext]
    exact Nat.le_succ _
  · rw [hnext]
    exact Nat.lt_succ_self _
  · exact hname

theorem entryAt?_insertChild (ht : t.Forest) (hnode : node.IsChildless)
    (hp : t.resolve dirs = some parent) (hfree : t.link? parent name = none)
    (h : t.insertChild parent name node now = (.ok child, t')) (names : List String) :
    t'.entryAt? names =
      if names = dirs ++ [name] then some (node.entry t.nextIno) else t.entryAt? names := by
  have hlink := link?_insertChild ht hnode h
  have hentry := entryOf?_insertChild h
  have hoff {q : List String} (hq : ¬ dirs ++ [name] <+: q) : t'.resolve q = t.resolve q :=
    ht.resolve_eq_of_link hp (fun p n hpn => by rw [hlink, if_neg hpn]) hq
  have hp' : t'.resolve dirs = some parent := by
    rw [hoff (not_concat_isPrefix dirs name), hp]
  by_cases hpre : dirs ++ [name] <+: names
  · obtain ⟨rest, rfl⟩ := hpre
    cases rest with
    | nil =>
      have hn : t'.resolve (dirs ++ [name]) = some t.nextIno := by
        rw [resolve_concat_of_eq hp', hlink, if_pos ⟨rfl, rfl⟩]
      rw [List.append_nil, if_pos rfl, entryAt?, hn, Option.bind_some, hentry, if_pos rfl]
    | cons n rest =>
      have hne : n :: rest ≠ [] := by simp
      have hnone : t.resolve (dirs ++ [name] ++ n :: rest) = none := by
        apply resolve_eq_none_of_childless hp _ hne
        intro c hc
        rw [hfree] at hc
        cases hc
      have hnone' : t'.resolve (dirs ++ [name] ++ n :: rest) = none := by
        apply resolve_eq_none_of_childless hp' _ hne
        intro c hc m
        rw [hlink, if_pos ⟨rfl, rfl⟩, Option.some.injEq] at hc
        rw [hlink, if_neg, ← hc, ht.link?_nextIno]
        rintro ⟨rfl, -⟩
        obtain ⟨e, he⟩ := ht.exists_entryOf? hp
        rw [← hc, ht.entryOf?_nextIno] at he
        cases he
      rw [if_neg (by simp), entryAt?, entryAt?, hnone, hnone', Option.bind_none, Option.bind_none]
  · rw [if_neg fun hn : names = _ => hpre (hn ▸ List.prefix_rfl)]
    apply entryAt?_eq_of_resolve_eq (hoff hpre)
    intro i hi
    rw [hentry, if_neg]
    rintro rfl
    obtain ⟨e, he⟩ := ht.exists_entryOf? hi
    rw [ht.entryOf?_nextIno] at he
    cases he

end Insertion

def removeChild (t : Tree) (parent : Ino) (name : String) (ino : Ino) : Tree :=
  ⟨(t.unlinkChild parent name).nodes.erase ino, t.nextIno⟩

section Removal

variable {dirs : List String}

private theorem link?_removeChild (hchildless : ∀ n, t.link? ino n = none) (p : Ino) (n : String) :
    (t.removeChild parent name ino).link? p n =
      if p = parent ∧ n = name then none else t.link? p n := by
  rw [removeChild, link?_erase, link?_unlinkChild]
  by_cases hp : p = ino
  · rw [if_pos hp, hp, hchildless, ite_self]
  · rw [if_neg hp]

theorem entryOf?_removeChild (i : Ino) :
    (t.removeChild parent name ino).entryOf? i = if i = ino then none else t.entryOf? i := by
  rw [removeChild, entryOf?_erase, entryOf?_unlinkChild]

theorem Forest.removeChild (ht : t.Forest) (hlink : t.link? parent name = some ino)
    (hchildless : ∀ n, t.link? ino n = none) : (t.removeChild parent name ino).Forest := by
  have hsub {p n i} (h : (t.removeChild parent name ino).link? p n = some i) :
      t.link? p n = some i ∧ i ≠ ino := by
    rw [link?_removeChild hchildless] at h
    split at h
    · cases h
    · rename_i hpn
      refine ⟨h, ?_⟩
      rintro rfl
      exact hpn (ht.link_unique h hlink)
  apply ht.of_sublinks
  · intro p n i h
    exact (hsub h).1
  · intro p n i h
    rw [entryOf?_removeChild, if_neg (hsub h).2]
    exact ht.entryOf_link (hsub h).1
  · intro i e h
    rw [entryOf?_removeChild] at h
    split at h
    · cases h
    · exact ht.lt_nextIno h
  · rw [isDirectory_congr, ht.root_isDirectory]
    rw [entryOf?_removeChild, if_neg]
    rintro rfl
    exact ht.link_ne_root hlink

theorem entryAt?_removeChild (ht : t.Forest) (hp : t.resolve dirs = some parent)
    (hlink : t.link? parent name = some ino) (hchildless : ∀ n, t.link? ino n = none)
    (names : List String) : (t.removeChild parent name ino).entryAt? names =
      if names = dirs ++ [name] then none else t.entryAt? names := by
  have hoff {q : List String} (hq : ¬ dirs ++ [name] <+: q) :
      (t.removeChild parent name ino).resolve q = t.resolve q :=
    ht.resolve_eq_of_link hp (fun p n hpn => by rw [link?_removeChild hchildless, if_neg hpn]) hq
  have hp' : (t.removeChild parent name ino).resolve dirs = some parent := by
    rw [hoff (not_concat_isPrefix dirs name), hp]
  have hgone (rest : List String) :
      (t.removeChild parent name ino).resolve (dirs ++ [name] ++ rest) = none := by
    rw [resolve_append, resolve_concat_of_eq hp', link?_removeChild hchildless, if_pos ⟨rfl, rfl⟩,
      Option.bind_none]
  by_cases hpre : dirs ++ [name] <+: names
  · obtain ⟨rest, rfl⟩ := hpre
    rw [entryAt?, hgone, Option.bind_none]
    by_cases hrest : rest = []
    · rw [hrest, List.append_nil, if_pos rfl]
    · have hnone : t.resolve (dirs ++ [name] ++ rest) = none := by
        apply resolve_eq_none_of_childless hp _ hrest
        intro c hc
        rw [hlink, Option.some.injEq] at hc
        exact hc ▸ hchildless
      rw [if_neg (by simpa using hrest), entryAt?, hnone, Option.bind_none]
  · rw [if_neg fun hn : names = _ => hpre (hn ▸ List.prefix_rfl)]
    apply entryAt?_eq_of_resolve_eq (hoff hpre)
    intro i hi
    rw [entryOf?_removeChild, if_neg]
    rintro rfl
    have hr : t.resolve (dirs ++ [name]) = some i := by rw [resolve_concat_of_eq hp, hlink]
    rw [ht.resolve_injective hi hr] at hpre
    exact hpre List.prefix_rfl

end Removal

end VolumeFs.Memory.Tree
