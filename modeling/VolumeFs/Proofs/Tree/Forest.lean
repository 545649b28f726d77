import Mathlib.Data.List.Induction
import VolumeFs.Path.Lemmas
import VolumeFs.Proofs.Tree.Links

/-!
# Forests

In a forest no node has two names and the root has none, so two chains of names that lead to the
same node are the same chain. What a change of one link does to the entries of a forest is
therefore seen below that link only.
-/

namespace VolumeFs.Memory

/-- A name that an entry can have. Single and double dots are such names. -/
def IsEntryName (name : String) : Prop := name ≠ "" ∧ '/' ∉ name.toList

theorem isEntryName_of_mem_components {path name : String} (h : name ∈ components path) :
    IsEntryName name := by
  obtain ⟨piece, hpiece, rfl⟩ := List.mem_map.1 h
  obtain ⟨hmem, hne⟩ := List.mem_filter.1 hpiece
  constructor
  · simpa using hne
  · simpa using Path.slash_notMem_of_mem_pieces hmem

namespace Tree

/-- A tree in which every link leads to a node of its own, under a proper name. -/
structure Forest (t : Tree) : Prop where
  root_isDirectory : t.isDirectory rootIno = true
  link_ne_root : ∀ {parent name}, t.link? parent name ≠ some rootIno
  link_unique : ∀ {parent parent' name name' child}, t.link? parent name = some child →
    t.link? parent' name' = some child → parent = parent' ∧ name = name'
  entryOf_link : ∀ {parent name child}, t.link? parent name = some child →
    ∃ e, t.entryOf? child = some e
  lt_nextIno : ∀ {ino e}, t.entryOf? ino = some e → ino < t.nextIno
  isEntryName : ∀ {parent name child}, t.link? parent name = some child → IsEntryName name

variable {t t' : Tree} {names : List String}

theorem not_concat_isPrefix (dirs : List String) (name : String) : ¬ dirs ++ [name] <+: dirs := by
  intro hpre
  have hlen := hpre.length_le
  rw [List.length_append, List.length_singleton] at hlen
  omega

theorem eq_of_concat_isPrefix {dirs : List String} {name name' : String}
    (h : dirs ++ [name] <+: dirs ++ [name']) : name = name' :=
  (List.cons_prefix_cons.1 ((List.prefix_append_right_inj dirs).1 h)).1

theorem descend_append (ino : Ino) (front rest : List String) :
    t.descend ino (front ++ rest) = (t.descend ino front).bind (t.descend · rest) :=
  List.foldlM_append

theorem resolve_append (front rest : List String) :
    t.resolve (front ++ rest) = (t.resolve front).bind (t.descend · rest) :=
  descend_append rootIno front rest

theorem resolve_concat (dirs : List String) (name : String) :
    t.resolve (dirs ++ [name]) = (t.resolve dirs).bind (t.link? · name) := by
  rw [resolve_append]
  cases t.resolve dirs <;> simp [descend]

theorem resolve_concat_of_eq {dirs : List String} {parent : Ino} (h : t.resolve dirs = some parent)
    (name : String) : t.resolve (dirs ++ [name]) = t.link? parent name := by
  rw [resolve_concat, h, Option.bind_some]

/-- A descent depends on the links that it passes, and on no others. -/
theorem descend_congr {ino : Ino} {names : List String}
    (h : ∀ dirs name parent, dirs ++ [name] <+: names → t.descend ino dirs = some parent →
      t'.link? parent name = t.link? parent name) :
    t'.descend ino names = t.descend ino names := by
  induction names generalizing ino with
  | nil => rfl
  | cons name names ih =>
    have hfirst : t'.link? ino name = t.link? ino name := h [] name ino (by simp) rfl
    unfold descend at ih ⊢
    rw [List.foldlM_cons, List.foldlM_cons, hfirst]
    cases hl : t.link? ino name with
    | none => rfl
    | some child =>
      apply ih
      intro dirs last parent hpre hdirs
      refine h (name :: dirs) last parent ?_ ?_
      · simpa using hpre
      · unfold descend
        rw [List.foldlM_cons, hl]
        exact hdirs

theorem entryAt?_eq_of_resolve_eq {names : List String} (hr : t'.resolve names = t.resolve names)
    (he : ∀ ino, t.resolve names = some ino → t'.entryOf? ino = t.entryOf? ino) :
    t'.entryAt? names = t.entryAt? names := by
  unfold entryAt?
  rw [hr]
  cases h : t.resolve names with
  | none => rfl
  | some ino => exact he ino h

theorem ino_of_entryOf? {ino : Ino} {e : Entry} (h : t.entryOf? ino = some e) : e.ino = ino := by
  obtain ⟨node, -, rfl⟩ := Option.map_eq_some_iff.1 h
  rfl

theorem entryAt?_eq_some_iff {names : List String} {e : Entry} :
    t.entryAt? names = some e ↔ t.resolve names = some e.ino ∧ t.entryOf? e.ino = some e := by
  unfold entryAt?
  rw [Option.bind_eq_some_iff]
  constructor
  · rintro ⟨ino, hr, he⟩
    rw [ino_of_entryOf? he]
    exact ⟨hr, he⟩
  · rintro ⟨hr, he⟩
    exact ⟨e.ino, hr, he⟩

theorem exists_link?_of_mem {names : List String} {e : Entry} (h : t.entryAt? names = some e)
    {name : String} (hname : name ∈ names) :
    ∃ parent child, t.link? parent name = some child := by
  obtain ⟨front, rest, rfl⟩ := List.append_of_mem hname
  obtain ⟨hr, -⟩ := entryAt?_eq_some_iff.1 h
  rw [← List.singleton_append, ← List.append_assoc, resolve_append, Option.bind_eq_some_iff] at hr
  obtain ⟨child, hchild, -⟩ := hr
  rw [resolve_concat, Option.bind_eq_some_iff] at hchild
  obtain ⟨parent, -, hlink⟩ := hchild
  exact ⟨parent, child, hlink⟩

namespace Forest

theorem link?_ne_nextIno (ht : t.Forest) (parent : Ino) (name : String) :
    t.link? parent name ≠ some t.nextIno := by
  intro h
  obtain ⟨e, he⟩ := ht.entryOf_link h
  exact Nat.lt_irrefl _ (ht.lt_nextIno he)

theorem entryOf?_nextIno (ht : t.Forest) : t.entryOf? t.nextIno = none := by
  cases h : t.entryOf? t.nextIno with
  | none => rfl
  | some e => exact absurd (ht.lt_nextIno h) (Nat.lt_irrefl _)

theorem link?_nextIno (ht : t.Forest) (name : String) : t.link? t.nextIno name = none := by
  cases h : t.link? t.nextIno name with
  | none => rfl
  | some child =>
    obtain ⟨e, he, -⟩ := isDirectory_iff_entryOf?.1 (isDirectory_of_link? h)
    rw [ht.entryOf?_nextIno] at he
    cases he

theorem exists_entryOf? (ht : t.Forest) {names : List String} {ino : Ino}
    (h : t.resolve names = some ino) : ∃ e, t.entryOf? ino = some e := by
  rcases List.eq_nil_or_concat names with rfl | ⟨dirs, name, rfl⟩
  · obtain ⟨e, he, -⟩ := isDirectory_iff_entryOf?.1 ht.root_isDirectory
    cases h
    exact ⟨e, he⟩
  · rw [List.concat_eq_append, resolve_concat, Option.bind_eq_some_iff] at h
    obtain ⟨parent, -, hl⟩ := h
    exact ht.entryOf_link hl

theorem exists_entryAt? (ht : t.Forest) {names : List String} {ino : Ino}
    (h : t.resolve names = some ino) : ∃ e, t.entryAt? names = some e ∧ e.ino = ino := by
  obtain ⟨e, he⟩ := ht.exists_entryOf? h
  have hi := ino_of_entryOf? he
  exact ⟨e, entryAt?_eq_some_iff.2 ⟨hi ▸ h, hi.symm ▸ he⟩, hi⟩

theorem entryAt?_eq_none_iff (ht : t.Forest) {names : List String} :
    t.entryAt? names = none ↔ t.resolve names = none := by
  constructor
  · intro h
    cases hr : t.resolve names with
    | none => rfl
    | some ino =>
      obtain ⟨e, he, -⟩ := ht.exists_entryAt? hr
      rw [h] at he
      cases he
  · intro h
    rw [entryAt?, h, Option.bind_none]

theorem resolve_injective (ht : t.Forest) {names names' : List String} {ino : Ino}
    (h : t.resolve names = some ino) (h' : t.resolve names' = some ino) : names = names' := by
  -- From the last name on: a node has one link to it, and the root has none.
  induction names using List.reverseRecOn generalizing names' ino with
  | nil =>
    rcases List.eq_nil_or_concat names' with rfl | ⟨dirs', name', rfl⟩
    · rfl
    · rw [List.concat_eq_append, resolve_concat, Option.bind_eq_some_iff] at h'
      obtain ⟨parent, -, hl⟩ := h'
      cases h
      exact absurd hl ht.link_ne_root
  | append_singleton dirs name ih =>
    rw [resolve_concat, Option.bind_eq_some_iff] at h
    obtain ⟨parent, hp, hl⟩ := h
    rcases List.eq_nil_or_concat names' with rfl | ⟨dirs', name', rfl⟩
    · cases h'
      exact absurd hl ht.link_ne_root
    · rw [List.concat_eq_append, resolve_concat, Option.bind_eq_some_iff] at h'
      obtain ⟨parent', hp', hl'⟩ := h'
      obtain ⟨rfl, rfl⟩ := ht.link_unique hl hl'
      rw [List.concat_eq_append, ih hp hp']

theorem resolve_eq_of_link (ht : t.Forest) {dirs : List String} {name : String} {parent : Ino}
    (hp : t.resolve dirs = some parent)
    (hlink : ∀ p n, ¬ (p = parent ∧ n = name) → t'.link? p n = t.link? p n)
    {names : List String} (hn : ¬ dirs ++ [name] <+: names) :
    t'.resolve names = t.resolve names := by
  apply descend_congr
  intro d last p hpre hd
  apply hlink
  rintro ⟨rfl, rfl⟩
  rw [ht.resolve_injective hd hp] at hpre
  exact hn hpre

end Forest

theorem resolve_eq_none_of_childless {dirs rest : List String} {name : String} {parent : Ino}
    (hp : t.resolve dirs = some parent)
    (hchild : ∀ child, t.link? parent name = some child → ∀ n, t.link? child n = none)
    (hrest : rest ≠ []) : t.resolve (dirs ++ [name] ++ rest) = none := by
  rw [resolve_append, resolve_concat_of_eq hp]
  cases hl : t.link? parent name with
  | none => rfl
  | some child =>
    cases rest with
    | nil => exact absurd rfl hrest
    | cons n rest =>
      rw [Option.bind_some, descend, List.foldlM_cons, hchild child hl n]
      rfl

theorem entryAt?_append_of_none (h : t.resolve names = none) (rest : List String) :
    t.entryAt? (names ++ rest) = none := by
  rw [entryAt?, resolve_append, h, Option.bind_none, Option.bind_none]

theorem isDirectory_eq_false_of_file {e : Entry} (h : t.entryAt? names = some e)
    (hfile : e.bytes ≠ none) : t.isDirectory e.ino = false := by
  rw [Bool.eq_false_iff, Ne, isDirectory_iff_entryOf?, (entryAt?_eq_some_iff.1 h).2]
  rintro ⟨e', h', hb⟩
  cases h'
  exact hfile hb

theorem entryAt?_append_of_file {e : Entry} (h : t.entryAt? names = some e) (hfile : e.bytes ≠ none)
    {rest : List String} (hrest : rest ≠ []) : t.entryAt? (names ++ rest) = none := by
  have hr := (entryAt?_eq_some_iff.1 h).1
  have hdir := isDirectory_eq_false_of_file h hfile
  cases rest with
  | nil => exact absurd rfl hrest
  | cons name rest =>
    rw [entryAt?, resolve_append, hr, Option.bind_some, descend, List.foldlM_cons,
      link?_eq_none_of_not_isDirectory hdir]
    rfl

end Tree
end VolumeFs.Memory
