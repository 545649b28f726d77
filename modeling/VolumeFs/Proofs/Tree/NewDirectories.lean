import VolumeFs.Proofs.Tree.Operations

/-!
# Missing paths

A walk does not arrive because a file stands in its way or because a name is missing. In the second
case all directories along the names can be made, and nothing else is new.
-/

namespace VolumeFs.Memory.Tree

variable {t t' : Tree} {ino : Ino} {names dirs : List String} {name path : String} {mode : UInt32}
  {now : Time}

def IsDirectoryAt (t : Tree) (names : List String) : Prop :=
  ∃ e, t.entryAt? names = some e ∧ e.bytes = none

/-- A file stands on the way, before the last name. -/
def Blocked (t : Tree) (names : List String) : Prop :=
  ∃ q e, q <+: names ∧ q ≠ names ∧ t.entryAt? q = some e ∧ e.bytes ≠ none

theorem walk_append {front : List String} {last : Ino} (h : t.descend ino front = some last)
    (rest : List String) : t.walk ino (front ++ rest) = t.walk last rest := by
  induction front generalizing ino with
  | nil =>
    cases h
    rfl
  | cons name front ih =>
    rw [descend, List.foldlM_cons, Option.bind_eq_bind, Option.bind_eq_some_iff] at h
    obtain ⟨child, hlink, h⟩ := h
    rw [List.cons_append, Tree.walk, child_eq_ok_iff.2 hlink]
    exact ih h

theorem child_eq_enotdir_iff {name : String} :
    t.child ino name = .error .enotdir ↔ ∃ e, t.entryOf? ino = some e ∧ e.bytes ≠ none := by
  have hne : Errno.enoent ≠ .enotdir := by decide
  unfold Tree.child Tree.children entryOf?
  cases h : t.nodes[ino]? with
  | none => simp [hne]
  | some node =>
    cases node with | mk body =>
    cases body with
    | directory children => cases hc : children[name]? <;> simp [Node.entry, Node.bytes?, hc, hne]
    | file bytes => simp [Node.entry, Node.bytes?]

private theorem blocked_of_walk (hino : t.resolve dirs = some ino)
    (h : t.walk ino names = .error .enotdir) : t.Blocked (dirs ++ names) := by
  induction names generalizing dirs ino with
  | nil => cases h
  | cons name names ih =>
    rw [Tree.walk] at h
    split at h
    · rename_i hchild
      cases h
      obtain ⟨e, he, hfile⟩ := child_eq_enotdir_iff.1 hchild
      refine ⟨dirs, e, List.prefix_append _ _, by simp, ?_, hfile⟩
      rw [entryAt?, hino, Option.bind_some, he]
    · rename_i child hchild
      rw [List.append_cons]
      apply ih _ h
      rw [resolve_concat_of_eq hino, child_eq_ok_iff.1 hchild]

theorem walk_eq_enotdir_iff : t.walk rootIno names = .error .enotdir ↔ t.Blocked names := by
  constructor
  · intro h
    have hroot : t.resolve [] = some rootIno := rfl
    exact blocked_of_walk hroot h
  · intro h
    obtain ⟨q, e, ⟨rest, rfl⟩, hne, he, hfile⟩ := h
    obtain ⟨hr, he⟩ := entryAt?_eq_some_iff.1 he
    cases rest with
    | nil => exact absurd (List.append_nil q).symm hne
    | cons name rest =>
      rw [walk_append hr, Tree.walk, child_eq_enotdir_iff.2 ⟨e, he, hfile⟩]

theorem walk_eq_enoent_iff :
    t.walk rootIno names = .error .enoent ↔ t.resolve names = none ∧ ¬ t.Blocked names := by
  have hne : Errno.enoent ≠ .enotdir := by decide
  rw [← walk_eq_enotdir_iff]
  cases h : t.walk rootIno names with
  | ok ino =>
    have hr : t.resolve names = some ino := walk_eq_ok_iff.1 h
    simp [hr]
  | error code =>
    have hr : t.resolve names = none := by
      cases hr : t.resolve names with
      | none => rfl
      | some ino =>
        rw [walk_eq_ok_iff.2 hr] at h
        cases h
    rcases eq_of_walk_eq_error h with rfl | rfl
    · simp [hr, hne]
    · simp [hr, hne.symm]

theorem Blocked.append (h : t.Blocked names) (rest : List String) : t.Blocked (names ++ rest) := by
  obtain ⟨q, e, hpre, hne, he, hfile⟩ := h
  refine ⟨q, e, hpre.trans (List.prefix_append _ _), ?_, he, hfile⟩
  rintro rfl
  exact hne (hpre.eq_of_length_le (by simp))

theorem IsDirectoryAt.of_isPrefix (ht : t.Forest) {q : List String} (h : t.IsDirectoryAt names)
    (hpre : q <+: names) : t.IsDirectoryAt q := by
  obtain ⟨e, he, hdir⟩ := h
  obtain ⟨rest, rfl⟩ := hpre
  cases hq : t.resolve q with
  | none =>
    rw [entryAt?_append_of_none hq] at he
    cases he
  | some ino =>
    obtain ⟨e', he', -⟩ := ht.exists_entryAt? hq
    by_cases hfile : e'.bytes = none
    · exact ⟨e', he', hfile⟩
    · cases rest with
      | nil =>
        rw [List.append_nil, he'] at he
        cases he
        exact absurd hdir hfile
      | cons name rest =>
        rw [entryAt?_append_of_file he' hfile (by simp)] at he
        cases he

theorem eq_concat_of_not_isDirectoryAt (ht : t.Forest) (h : ¬ t.IsDirectoryAt names) :
    names = names.dropLast ++ [names.getLastD ""] := by
  rcases List.eq_nil_or_concat names with rfl | ⟨dirs, name, rfl⟩
  · obtain ⟨e, he, hdir⟩ := isDirectory_iff_entryOf?.1 ht.root_isDirectory
    exact absurd ⟨e, he, hdir⟩ h
  · simp

theorem not_blocked_concat (ht : t.Forest) (h : t.IsDirectoryAt dirs) (name : String) :
    ¬ t.Blocked (dirs ++ [name]) := by
  intro hblocked
  obtain ⟨q, e, hpre, hne, he, hfile⟩ := hblocked
  rcases List.prefix_concat_iff.1 hpre with heq | hpre
  · exact hne heq
  · obtain ⟨e', he', hdir⟩ := h.of_isPrefix ht hpre
    rw [he, Option.some.injEq] at he'
    exact hfile (he' ▸ hdir)

theorem walk_of_not_isDirectoryAt (ht : t.Forest) (hblocked : ¬ t.Blocked (dirs ++ [name]))
    (h : ¬ t.IsDirectoryAt dirs) : t.walk rootIno dirs = .error .enoent := by
  rw [walk_eq_enoent_iff]
  constructor
  · cases hr : t.resolve dirs with
    | none => rfl
    | some ino =>
      obtain ⟨e, he, -⟩ := ht.exists_entryAt? hr
      refine absurd ⟨dirs, e, List.prefix_append _ _, by simp, he, ?_⟩ hblocked
      intro hdir
      exact h ⟨e, he, hdir⟩
  · intro hb
    exact hblocked (hb.append _)

theorem isDirectory_of_missing (ht : t.Forest) {ino : Ino}
    (h : t.walk rootIno names = .error .enoent) (hr : t.resolve names.dropLast = some ino) :
    t.isDirectory ino = true := by
  rcases List.eq_nil_or_concat names with rfl | ⟨dirs, name, rfl⟩
  · cases h
  · rw [List.concat_eq_append] at h hr
    rw [List.dropLast_concat] at hr
    obtain ⟨e, he, rfl⟩ := ht.exists_entryAt? hr
    have hdir : e.bytes = none := by
      by_contra hfile
      exact (walk_eq_enoent_iff.1 h).2 ⟨dirs, e, List.prefix_append _ _, by simp, he, hfile⟩
    exact isDirectory_iff_entryOf?.2 ⟨e, (entryAt?_eq_some_iff.1 he).2, hdir⟩

theorem walk_concat_of_missing (h : t.walk rootIno dirs = .error .enoent)
    (hblocked : ¬ t.Blocked (dirs ++ [name])) :
    t.walk rootIno (dirs ++ [name]) = .error .enoent := by
  rw [walk_eq_enoent_iff] at h ⊢
  exact ⟨by rw [resolve_append, h.1, Option.bind_none], hblocked⟩

/-- There is a directory, which has the permissions of the mode if it is new. -/
def HasDirectory (t t' : Tree) (mode : UInt32) (names : List String) : Prop :=
  ∃ e, t'.entryAt? names = some e ∧ e.bytes = none ∧
    (t.entryAt? names = none → e.mode = Mode.directory ||| Mode.permissions mode)

/-- A tree that has gained the directories along the names, and nothing else. -/
structure Paved (t t' : Tree) (names : List String) (mode : UInt32) : Prop
    extends Growth t t' names where
  hasDirectory : ∀ {q}, q <+: names → t.HasDirectory t' mode q

theorem HasDirectory.of_growth (h : Growth t t' names) {q : List String}
    (hq : t.IsDirectoryAt q) : t.HasDirectory t' mode q := by
  obtain ⟨e, he, hdir⟩ := hq
  refine ⟨e, h.entryAt?_of_some he, hdir, ?_⟩
  intro hnone
  rw [hnone] at he
  cases he

theorem Paved.refl (ht : t.Forest) (h : t.IsDirectoryAt names) : t.Paved t names mode where
  toGrowth := .refl ht names
  hasDirectory hq := .of_growth (.refl ht names) (h.of_isPrefix ht hq)

private theorem children_of_walk (ht : t.Forest) (hino : t.resolve dirs = some ino) {name : String}
    (h : t.walk ino (name :: names) = .error .enoent) :
    t.IsDirectoryAt dirs ∧ ∃ children, t.children ino = .ok children := by
  obtain ⟨e, he, rfl⟩ := ht.exists_entryAt? hino
  have heo := (entryAt?_eq_some_iff.1 he).2
  by_cases hdir : e.bytes = none
  · obtain ⟨children, hc⟩ := isDirectory_iff.1 (isDirectory_iff_entryOf?.2 ⟨e, heo, hdir⟩)
    exact ⟨⟨e, he, hdir⟩, children, children_eq_ok_iff.2 hc⟩
  · rw [Tree.walk, child_eq_enotdir_iff.2 ⟨e, heo, hdir⟩] at h
    exact absurd (Except.error.inj h) (by decide)

private theorem walk_of_childless (hdir : t.isDirectory ino = true)
    (hchildless : ∀ n, t.link? ino n = none) (name : String) (names : List String) :
    t.walk ino (name :: names) = .error .enoent := by
  obtain ⟨children, hc⟩ := isDirectory_iff.1 hdir
  have hfree : children[name]? = none := by
    have hlink := hchildless name
    rwa [link?, hc, Option.bind_some] at hlink
  have hchild : t.child ino name = .error .enoent := by
    simp [Tree.child, children_eq_ok_iff.2 hc, hfree]
  rw [Tree.walk, hchild]

theorem forall_isPrefix_cons {P : List String → Prop} {name : String} (hfirst : P [name])
    (hrest : ∀ q, q <+: names → q ≠ [] → P (name :: q)) :
    ∀ q, q <+: name :: names → q ≠ [] → P q := by
  intro q hq hne
  cases q with
  | nil => exact absurd rfl hne
  | cons n q =>
    obtain ⟨rfl, hpre⟩ := List.cons_prefix_cons.1 hq
    cases q with
    | nil => exact hfirst
    | cons n' q => exact hrest _ hpre (by simp)

private theorem exists_makeWalk_of_missing (ht : t.Forest) (hino : t.resolve dirs = some ino)
    (hnames : ∀ n ∈ names, IsEntryName n) (h : t.walk ino names = .error .enoent) (made : Bool)
    (mode : UInt32) (now : Time) :
    ∃ child t', t.makeWalk ino made mode now names = (.ok (child, true), t') ∧
      ∀ q, q <+: names → q ≠ [] → t.HasDirectory t' mode (dirs ++ q) := by
  induction names generalizing t ino made dirs with
  | nil => cases h
  | cons name names ih =>
    have hrest : ∀ n ∈ names, IsEntryName n := fun n hn => hnames n (List.mem_cons_of_mem _ hn)
    obtain ⟨-, children, hchildren⟩ := children_of_walk ht hino h
    cases hc : children[name]? with
    | some child =>
      have hchild : t.child ino name = .ok child := by simp [Tree.child, hchildren, hc]
      have hr : t.resolve (dirs ++ [name]) = some child := by
        rw [resolve_concat_of_eq hino, child_eq_ok_iff.1 hchild]
      rw [Tree.walk, hchild] at h
      obtain ⟨last, t', hwalk, hdirs⟩ := ih ht hr hrest h made
      have hgrowth : Growth t t' (dirs ++ [name] ++ names) := by
        have hgrowth : Growth t (t.makeWalk child made mode now names).2
            (dirs ++ [name] ++ names) := growth_makeWalk ht hr hrest
        rwa [hwalk] at hgrowth
      refine ⟨last, t', ?_, ?_⟩
      · rw [makeWalk, hchildren]
        simp only [hc, hwalk]
      · apply forall_isPrefix_cons
        · cases names with
          | nil => cases h
          | cons n names => exact .of_growth hgrowth (children_of_walk ht hr h).1
        · intro q hq hne
          rw [List.append_cons]
          exact hdirs q hq hne
    | none =>
      have hfree : t.link? ino name = none := by
        rw [link?, children_eq_ok_iff.1 hchildren, Option.bind_some, hc]
      have hdir : t.isDirectory ino = true :=
        isDirectory_iff.2 ⟨children, children_eq_ok_iff.1 hchildren⟩
      obtain ⟨t₁, hinsert⟩ := exists_insertChild hdir name (.newDirectory mode now) now
      have hnode := Node.isChildless_newDirectory mode now
      have ht₁ := ht.insertChild hnode (hnames name List.mem_cons_self) hinsert
      have hat := entryAt?_insertChild ht hnode hino hfree hinsert
      have hnew : t₁.entryAt? (dirs ++ [name]) = some _ := (hat _).trans (if_pos rfl)
      have hr₁ : t₁.resolve (dirs ++ [name]) = some t.nextIno := (entryAt?_eq_some_iff.1 hnew).1
      obtain ⟨last, t', hwalk, hdirs⟩ : ∃ last t',
          t₁.makeWalk t.nextIno true mode now names = (.ok (last, true), t') ∧
            ∀ q, q <+: names → q ≠ [] → t₁.HasDirectory t' mode (dirs ++ [name] ++ q) := by
        cases names with
        | nil => exact ⟨_, _, rfl, fun q hq hne => absurd (List.prefix_nil.1 hq) hne⟩
        | cons n names =>
          obtain ⟨hdir, hchildless⟩ := childless_of_insertChild ht hinsert
          exact ih ht₁ hr₁ hrest (walk_of_childless hdir hchildless n names) true
      have hgrowth : Growth t₁ t' (dirs ++ [name] ++ names) := by
        have hgrowth : Growth t₁ (t₁.makeWalk t.nextIno true mode now names).2
            (dirs ++ [name] ++ names) := growth_makeWalk ht₁ hr₁ hrest
        rwa [hwalk] at hgrowth
      refine ⟨last, t', ?_, ?_⟩
      · rw [makeWalk, hchildren]
        simp only [hc, hinsert, hwalk]
      · apply forall_isPrefix_cons
        · exact ⟨_, hgrowth.entryAt?_of_some hnew, rfl, fun _ => rfl⟩
        · intro q hq hne
          rw [List.append_cons]
          obtain ⟨e, he, hdir, hmode⟩ := hdirs q hq hne
          refine ⟨e, he, hdir, fun hnone => hmode ?_⟩
          rw [hat, if_neg (by simpa using hne), hnone]

/-- A walk from the root to missing names paves the way to them. -/
theorem exists_paved_of_missing (ht : t.Forest) (hnames : ∀ n ∈ names, IsEntryName n)
    (h : t.walk rootIno names = .error .enoent) (mode : UInt32) (now : Time) :
    ∃ child t', t.makeWalk rootIno false mode now names = (.ok (child, true), t') ∧
      Paved t t' names mode := by
  have hroot : t.resolve [] = some rootIno := rfl
  obtain ⟨child, t', hwalk, hdirs⟩ :=
    exists_makeWalk_of_missing ht hroot hnames h false mode now
  have hgrowth : Growth t (t.makeWalk rootIno false mode now names).2 ([] ++ names) :=
    growth_makeWalk ht hroot hnames
  rw [hwalk, List.nil_append] at hgrowth
  refine ⟨child, t', hwalk, hgrowth, fun {q} hq => ?_⟩
  cases q with
  | nil =>
    obtain ⟨e, he, hdir⟩ := isDirectory_iff_entryOf?.1 ht.root_isDirectory
    exact .of_growth hgrowth ⟨e, he, hdir⟩
  | cons name q => exact hdirs _ hq (by simp)

/-- Where a name is missing the directory can be made, with all that lead to it. -/
theorem paved_of_mkdirs (ht : t.Forest) (h : t.lookup path = .error .enoent) (mode : UInt32)
    (now : Time) :
    ∃ t', t.mkdirs path mode now = (.ok (), t') ∧ Paved t t' (components path) mode := by
  obtain ⟨child, t', hwalk, hpaved⟩ :=
    exists_paved_of_missing ht (fun _ => isEntryName_of_mem_components) h mode now
  exact ⟨t', by simp only [Tree.mkdirs, hwalk, if_true], hpaved⟩

end VolumeFs.Memory.Tree
