import Mathlib.Logic.Relation
import VolumeFs.Proofs.Tree.Modes
import VolumeFs.Proofs.Tree.Rename

/-!
# Trees that hang together

A forest in which every node can be reached from the root, and in which every mode tells a
directory from a file. All that the operations do to a tree is made of five changes: a new entry,
the loss of a childless one, a move, other bytes for a file and other permissions. Each of them
keeps such a tree such a tree and gives no number out a second time.
-/

namespace VolumeFs.Memory

/-- The mode of an entry tells whether it is a directory or a file. -/
def Entry.IsProper (e : Entry) : Prop :=
  Mode.type e.mode = if e.bytes = none then Mode.directory else Mode.regular

namespace Node

private theorem isProper_newDirectory (mode : UInt32) (now : Time) (ino : Ino) :
    ((newDirectory mode now).entry ino).IsProper :=
  type_or_permissions (by decide) mode

theorem isProper_newFile (mode : UInt32) (now : Time) (ino : Ino) :
    ((newFile mode now).entry ino).IsProper :=
  type_or_permissions (by decide) mode

private theorem isProper_withPermissions {n : Node} {ino : Ino} (h : (n.entry ino).IsProper)
    (mode : UInt32) (now : Time) : ((n.withPermissions mode now).entry ino).IsProper :=
  (type_withPermissions n mode now).trans h

end Node

namespace Tree

/-- A forest that is one tree, with proper modes. -/
structure Rooted (t : Tree) : Prop extends t.Forest where
  exists_resolve : ∀ {ino e}, t.entryOf? ino = some e → ∃ names, t.resolve names = some ino
  isProper : ∀ {ino e}, t.entryOf? ino = some e → e.IsProper

/-- One change of a tree. -/
inductive Change (t : Tree) : Tree → Prop where
  | inserted {dirs parent name node child now t'} (hp : t.resolve dirs = some parent)
      (hfree : t.link? parent name = none) (hname : IsEntryName name) (hnode : node.IsChildless)
      (hmode : ∀ ino, (node.entry ino).IsProper)
      (hinsert : t.insertChild parent name node now = (.ok child, t')) : Change t t'
  | removed {dirs parent name ino} (hp : t.resolve dirs = some parent)
      (hlink : t.link? parent name = some ino) (hchildless : ∀ n, t.link? ino n = none) :
      Change t (t.removeChild parent name ino)
  | moved {dirs dirs' parent parent' name name' ino now} (hp : t.resolve dirs = some parent)
      (hlink : t.link? parent name = some ino) (hp' : t.resolve dirs' = some parent')
      (hdir : t.isDirectory parent' = true) (hfree : t.link? parent' name' = none)
      (hbelow : ¬ dirs ++ [name] <+: dirs') (hname : IsEntryName name') :
      Change t (t.moveChild parent name parent' name' ino now)
  | written {ino bytes now} (hfile : t.isDirectory ino = false) :
      Change t (t.modifyNode ino (·.withBytes bytes now))
  | permitted {ino mode now} : Change t (t.modifyNode ino (·.withPermissions mode now))

variable {t t' : Tree} {parent parent' ino : Ino} {name name' : String}
  {dirs dirs' : List String} {now : Time}

theorem rooted_new (now : Time) : (new now).Rooted where
  toForest := forest_new now
  exists_resolve := by
    intro ino e h
    rw [entryOf?, getElem?_nodes_new] at h
    split at h
    · rename_i hroot
      exact ⟨[], congrArg some hroot.symm⟩
    · cases h
  isProper := by
    intro ino e h
    rw [entryOf?, getElem?_nodes_new] at h
    split at h
    · cases h
      exact Node.isProper_newDirectory 0o755 now ino
    · cases h

namespace Rooted

private theorem exists_entryAt? (ht : t.Rooted) {e : Entry} (h : t.entryOf? ino = some e) :
    ∃ names, t.entryAt? names = some e := by
  obtain ⟨names, hr⟩ := ht.exists_resolve h
  exact ⟨names, by rw [entryAt?, hr, Option.bind_some, h]⟩

private theorem of_entryAt? (ht : t.Forest) (hat : ∀ {i e}, t.entryOf? i = some e →
      e.IsProper ∧ ∃ names, t.entryAt? names = some e) : t.Rooted where
  toForest := ht
  exists_resolve h := by
    obtain ⟨-, names, hn⟩ := hat h
    exact ⟨names, ino_of_entryOf? h ▸ (entryAt?_eq_some_iff.1 hn).1⟩
  isProper h := (hat h).1

private theorem of_resolve_eq (ht : t.Rooted) (hforest : t'.Forest)
    (hresolve : ∀ names, t'.resolve names = t.resolve names)
    (hentry : ∀ {i e'}, t'.entryOf? i = some e' →
      e'.IsProper ∧ ∃ e, t.entryOf? i = some e) : t'.Rooted where
  toForest := hforest
  exists_resolve h := by
    obtain ⟨-, e, he⟩ := hentry h
    simpa only [hresolve] using ht.exists_resolve he
  isProper h := (hentry h).1

private theorem insertChild (ht : t.Rooted) {node : Node} {child : Ino}
    (hp : t.resolve dirs = some parent) (hfree : t.link? parent name = none)
    (hname : IsEntryName name) (hnode : node.IsChildless) (hmode : ∀ i, (node.entry i).IsProper)
    (h : t.insertChild parent name node now = (.ok child, t')) : t'.Rooted := by
  have hat := entryAt?_insertChild ht.toForest hnode hp hfree h
  refine of_entryAt? (ht.toForest.insertChild hnode hname h) fun {i e} he => ?_
  rw [entryOf?_insertChild h] at he
  split at he
  · rename_i hi
    cases he
    exact ⟨hmode i, dirs ++ [name], by rw [hat, if_pos rfl, hi]⟩
  · obtain ⟨names, hn⟩ := ht.exists_entryAt? he
    refine ⟨ht.isProper he, names, ?_⟩
    rw [hat, if_neg, hn]
    rintro rfl
    rw [entryAt?, resolve_concat_of_eq hp, hfree] at hn
    cases hn

private theorem removeChild (ht : t.Rooted) (hp : t.resolve dirs = some parent)
    (hlink : t.link? parent name = some ino) (hchildless : ∀ n, t.link? ino n = none) :
    (t.removeChild parent name ino).Rooted := by
  refine of_entryAt? (ht.toForest.removeChild hlink hchildless) fun {i e} he => ?_
  rw [entryOf?_removeChild] at he
  split at he
  · cases he
  · rename_i hi
    obtain ⟨names, hn⟩ := ht.exists_entryAt? he
    refine ⟨ht.isProper he, names, ?_⟩
    rw [entryAt?_removeChild ht.toForest hp hlink hchildless, if_neg, hn]
    rintro rfl
    have hr := (entryAt?_eq_some_iff.1 hn).1
    rw [resolve_concat_of_eq hp, hlink, Option.some.injEq, ino_of_entryOf? he] at hr
    exact hi hr.symm

private theorem moveChild (ht : t.Rooted) (hp : t.resolve dirs = some parent)
    (hlink : t.link? parent name = some ino) (hp' : t.resolve dirs' = some parent')
    (hdir : t.isDirectory parent' = true) (hfree : t.link? parent' name' = none)
    (hbelow : ¬ dirs ++ [name] <+: dirs') (hname : IsEntryName name') :
    (t.moveChild parent name parent' name' ino now).Rooted := by
  have hat (names : List String) :
      (t.moveChild parent name parent' name' ino now).entryAt? names = _ :=
    entryAt?_moveChild ht.toForest hp hlink hp' hdir hbelow names
  refine of_entryAt? (ht.toForest.moveChild hlink hdir hname) fun {i e} he => ?_
  rw [entryOf?_moveChild] at he
  obtain ⟨names, hn⟩ := ht.exists_entryAt? he
  refine ⟨ht.isProper he, ?_⟩
  by_cases hpre : dirs ++ [name] <+: names
  · obtain ⟨rest, rfl⟩ := hpre
    refine ⟨dirs' ++ [name'] ++ rest, ?_⟩
    rw [hat, if_pos (List.prefix_append _ _), List.drop_left, hn]
  · refine ⟨names, ?_⟩
    rw [hat, if_neg, if_neg hpre, hn]
    rintro ⟨rest, rfl⟩
    rw [entryAt?_append_of_none (by rw [resolve_concat_of_eq hp', hfree])] at hn
    cases hn

private theorem modifyNode_withBytes (ht : t.Rooted) (hfile : t.isDirectory ino = false)
    (bytes : ByteArray) (now : Time) : (t.modifyNode ino (·.withBytes bytes now)).Rooted := by
  have hroot : ino ≠ rootIno := by
    rintro rfl
    rw [ht.root_isDirectory] at hfile
    cases hfile
  refine ht.of_resolve_eq (ht.toForest.modifyNode_withBytes bytes hroot)
    (resolve_modifyNode_withBytes hfile bytes now) fun {i e'} he => ?_
  rw [entryOf?_modifyNode_withBytes] at he
  split at he
  · rename_i hi
    obtain ⟨e, hold, rfl⟩ := Option.map_eq_some_iff.1 he
    have hbytes : e.bytes ≠ none := by
      intro hnone
      rw [isDirectory_iff_entryOf?.2 ⟨e, hold, hnone⟩] at hfile
      cases hfile
    have hmode := ht.isProper hold
    rw [Entry.IsProper, if_neg hbytes] at hmode
    exact ⟨by simpa [Entry.IsProper] using hmode, e, hi ▸ hold⟩
  · exact ⟨ht.isProper he, e', he⟩

private theorem modifyNode_withPermissions (ht : t.Rooted) (ino : Ino) (mode : UInt32)
    (now : Time) :
    (t.modifyNode ino (·.withPermissions mode now)).Rooted := by
  have hchildren (n : Node) : (n.withPermissions mode now).children? = n.children? := rfl
  refine ht.of_resolve_eq (ht.toForest.modifyNode_of_same hchildren) ?_ fun {i e'} he => ?_
  · intro names
    exact descend_congr fun _ _ _ _ _ => link?_modifyNode_of_same hchildren _ _
  · rw [entryOf?_modifyNode] at he
    split at he
    · rename_i hi
      obtain ⟨n, hn, rfl⟩ := Option.map_eq_some_iff.1 he
      have hold : t.entryOf? ino = some (n.entry ino) := by rw [entryOf?, hn, Option.map_some]
      exact ⟨Node.isProper_withPermissions (ht.isProper hold) mode now, _, hi ▸ hold⟩
    · exact ⟨ht.isProper he, e', he⟩

end Rooted

private theorem Change.rooted (h : Change t t') (ht : t.Rooted) : t'.Rooted := by
  cases h with
  | inserted hp hfree hname hnode hmode hinsert =>
    exact ht.insertChild hp hfree hname hnode hmode hinsert
  | removed hp hlink hchildless => exact ht.removeChild hp hlink hchildless
  | moved hp hlink hp' hdir hfree hbelow hname =>
    exact ht.moveChild hp hlink hp' hdir hfree hbelow hname
  | written hfile => exact ht.modifyNode_withBytes hfile _ _
  | permitted => exact ht.modifyNode_withPermissions _ _ _

/-- A tree that has given out further numbers, and none of the old ones to a new node. -/
structure Renumbered (t t' : Tree) : Prop where
  nextIno_le : t.nextIno ≤ t'.nextIno
  nextIno_le_of_new : ∀ {ino e}, t'.entryOf? ino = some e → t.entryOf? ino = none → t.nextIno ≤ ino

theorem Renumbered.refl (t : Tree) : Renumbered t t where
  nextIno_le := Nat.le_refl _
  nextIno_le_of_new h hnone := by
    rw [hnone] at h
    cases h

theorem Renumbered.trans {t'' : Tree} (h : Renumbered t t') (h' : Renumbered t' t'') :
    Renumbered t t'' where
  nextIno_le := Nat.le_trans h.nextIno_le h'.nextIno_le
  nextIno_le_of_new {ino e} he hnone := by
    cases hmid : t'.entryOf? ino with
    | none => exact Nat.le_trans h.nextIno_le (h'.nextIno_le_of_new he hmid)
    | some e' => exact h.nextIno_le_of_new hmid hnone

private theorem Change.renumbered (h : Change t t') : Renumbered t t' := by
  cases h with
  | inserted _ _ _ _ _ hinsert =>
    have hentry := entryOf?_insertChild hinsert
    obtain ⟨-, -, rfl⟩ := insertChild_eq_ok hinsert
    refine ⟨Nat.le_succ _, fun {i e} he hnone => ?_⟩
    rw [hentry] at he
    split at he
    · rename_i hi
      exact Nat.le_of_eq hi.symm
    · rw [hnone] at he
      cases he
  | removed =>
    refine ⟨Nat.le_refl _, fun {i e} he hnone => ?_⟩
    rw [entryOf?_removeChild, hnone, ite_self] at he
    cases he
  | moved =>
    refine ⟨Nat.le_refl _, fun {i e} he hnone => ?_⟩
    rw [entryOf?_moveChild, hnone] at he
    cases he
  | written | permitted =>
    refine ⟨Nat.le_refl _, fun {i e} he hnone => ?_⟩
    obtain ⟨e', he'⟩ := exists_entryOf?_modifyNode_iff.1 ⟨e, he⟩
    rw [hnone] at he'
    cases he'

abbrev Changes : Tree → Tree → Prop := Relation.ReflTransGen Change

theorem Changes.rooted (h : Changes t t') (ht : t.Rooted) : t'.Rooted := by
  induction h with
  | refl => exact ht
  | tail _ hlast ih => exact hlast.rooted ih

theorem Changes.renumbered (h : Changes t t') : Renumbered t t' := by
  induction h with
  | refl => exact .refl t
  | tail _ hlast ih => exact ih.trans hlast.renumbered

variable {path source target : String} {mode : UInt32}

private theorem changes_makeWalk (dirs : List String) {made : Bool} {names : List String}
    (ht : t.Forest) (hino : t.resolve dirs = some ino) (hnames : ∀ n ∈ names, IsEntryName n) :
    Changes t (t.makeWalk ino made mode now names).2 := by
  induction names generalizing t ino made dirs with
  | nil => exact .refl
  | cons name names ih =>
    have hrest : ∀ n ∈ names, IsEntryName n := fun n hn => hnames n (List.mem_cons_of_mem _ hn)
    unfold makeWalk
    split
    · exact .refl
    · rename_i children hchildren
      have hlink : t.link? ino name = children[name]? := by
        rw [link?, children_eq_ok_iff.1 hchildren, Option.bind_some]
      split
      · rename_i child hchild
        refine ih (dirs ++ [name]) ht ?_ hrest
        rw [resolve_concat_of_eq hino, hlink, hchild]
      · rename_i hchild
        have hfree : t.link? ino name = none := by rw [hlink, hchild]
        have hname : IsEntryName name := hnames name List.mem_cons_self
        have hnode := Node.isChildless_newDirectory mode now
        split
        · rename_i e tree hinsert
          rw [tree_of_insertChild_error hinsert]
        · rename_i child tree hinsert
          have hchange : Change t tree := .inserted hino hfree hname hnode
            (Node.isProper_newDirectory mode now) hinsert
          refine .head hchange (ih (dirs ++ [name]) (ht.insertChild hnode hname hinsert)
            ?_ hrest)
          have hnew := entryAt?_insertChild ht hnode hino hfree hinsert (dirs ++ [name])
          rw [if_pos rfl, entryAt?_eq_some_iff] at hnew
          rw [hnew.1, (insertChild_eq_ok hinsert).1]
          rfl

theorem changes_mkdirs (ht : t.Forest) (path : String) (mode : UInt32) (now : Time) :
    Changes t (t.mkdirs path mode now).2 := by
  have hwalk : Changes t (t.makeWalk rootIno false mode now (components path)).2 :=
    changes_makeWalk [] ht rfl fun _ => isEntryName_of_mem_components
  unfold Tree.mkdirs
  split
  · rename_i hw
    rwa [hw] at hwalk
  · rename_i ino made tree hw
    rw [hw] at hwalk
    split
    · exact hwalk
    · split <;> exact hwalk

private theorem change_of_lookup (hino : t.lookup path = .ok ino)
    (hparent : t.lookupParent path = .ok (parent, name)) (hchildless : ∀ n, t.link? ino n = none) :
    Change t (t.removeChild parent name ino) := by
  obtain ⟨dirs, hc, hp, -⟩ := lookupParent_eq_ok_iff.1 hparent
  refine .removed hp ?_ hchildless
  rw [← resolve_concat_of_eq hp, ← hc]
  exact lookup_eq_ok_iff.1 hino

theorem changes_unlink (t : Tree) (path : String) : Changes t (t.unlink path).2 := by
  unfold Tree.unlink
  split
  · exact .refl
  · rename_i ino hino
    split
    · exact .refl
    · rename_i hdir
      split
      · exact .refl
      · rename_i parent name hparent
        exact .single (change_of_lookup hino hparent
          (link?_eq_none_of_not_isDirectory (Bool.eq_false_iff.2 hdir)))

theorem changes_rmdir (t : Tree) (path : String) : Changes t (t.rmdir path).2 := by
  unfold Tree.rmdir
  split
  · exact .refl
  · rename_i ino hino
    split
    · exact .refl
    · split
      · exact .refl
      · rename_i children hchildren
        split
        · exact .refl
        · rename_i hempty
          split
          · exact .refl
          · rename_i parent name hparent
            refine .single (change_of_lookup hino hparent fun n => ?_)
            simp only [Bool.not_eq_true', Bool.not_eq_false] at hempty
            rw [link?, children_eq_ok_iff.1 hchildren, Option.bind_some]
            exact Std.TreeMap.getElem?_of_isEmpty hempty

theorem changes_rename (t : Tree) (source target : String) (now : Time) :
    Changes t (t.rename source target now).2 := by
  generalize hrename : t.rename source target now = outcome
  obtain ⟨answer, t'⟩ := outcome
  cases answer with
  | error e => rw [tree_of_rename_error hrename]
  | ok =>
    have hname : ∀ n ∈ components target, IsEntryName n := fun n hn =>
      isEntryName_of_mem_components hn
    have hrenamed := renamed_of_rename hrename
    generalize components target = front' at hrenamed hname
    obtain ⟨-, rfl, hp, hlink, hp', hdir, hfree, hbelow⟩ := hrenamed
    exact .single (.moved hp hlink hp' hdir hfree hbelow (hname _ (by simp)))

theorem changes_putFile (ht : t.Forest) (bytes : ByteArray) (now : Time)
    (hput : ∀ ino, t.lookup path = .ok ino → t.isDirectory ino = false) :
    Changes t (t.putFile path bytes now) := by
  have hroot : t.resolve [] = some rootIno := rfl
  have hwalk : Changes t (t.withParents path now) := changes_makeWalk [] ht hroot
    fun n hn => isEntryName_of_mem_components (List.dropLast_subset _ hn)
  have hgrowth := growth_withParents ht path now
  have hputting := t.putting_putFile path bytes now
  generalize t.withParents path now = t₁ at hwalk hgrowth hputting
  generalize t.putFile path bytes now = t' at hputting
  cases hputting with
  | refused => exact hwalk
  | replaced hparent hlink =>
    refine hwalk.tail (.written ?_)
    obtain ⟨dirs, hc, hp, -⟩ := lookupParent_eq_ok_iff.1 hparent
    rw [hc, List.dropLast_concat] at hgrowth
    rw [← resolve_concat_of_eq hp, ← hc] at hlink
    obtain ⟨e, he, rfl⟩ := hgrowth.forest.exists_entryAt? hlink
    have hold : t.entryAt? (components path) = some e := by
      rw [← hgrowth.entryAt?_of_not_isPrefix, he]
      rw [hc]
      exact not_concat_isPrefix dirs _
    rw [← hput e.ino (lookup_eq_ok_iff.2 (entryAt?_eq_some_iff.1 hold).1)]
    apply isDirectory_congr
    rw [(entryAt?_eq_some_iff.1 he).2, (entryAt?_eq_some_iff.1 hold).2]
  | created hparent hfree hinsert =>
    obtain ⟨dirs, -, hp, -⟩ := lookupParent_eq_ok_iff.1 hparent
    have hchange : Change t₁ _ := .inserted hp hfree (isEntryName_of_lookupParent hparent)
      (Node.isChildless_newFile _ now) (Node.isProper_newFile _ now) hinsert
    refine (hwalk.tail hchange).tail (.written ?_)
    rw [Bool.eq_false_iff, Ne, isDirectory_iff_entryOf?, entryOf?_insertChild hinsert, if_pos rfl]
    rintro ⟨e, he, hnone⟩
    cases he
    cases hnone

end Tree
end VolumeFs.Memory
