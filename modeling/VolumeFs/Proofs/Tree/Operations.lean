import VolumeFs.Proofs.Tree.Changes

/-!
# Operations on a forest

What the operations on a tree do to the entries. An operation that fails leaves the tree as it
was, and so does the making of directories when there is none to make.
-/

namespace VolumeFs.Memory.Tree

variable {t t' : Tree} {path source target : String} {mode : UInt32} {now : Time}

/-- A tree that has lost the entry at the names, and no other. -/
structure Removal (t t' : Tree) (names : List String) : Prop where
  forest : t'.Forest
  entryAt? : ∀ q, t'.entryAt? q = if q = names then none else t.entryAt? q

private theorem removal_of_lookup (ht : t.Forest) {ino parent : Ino} {name : String}
    (hino : t.lookup path = .ok ino) (hparent : t.lookupParent path = .ok (parent, name))
    (hchildless : ∀ n, t.link? ino n = none) :
    Removal t (t.removeChild parent name ino) (components path) := by
  obtain ⟨dirs, hc, hp, -⟩ := lookupParent_eq_ok_iff.1 hparent
  have hlink : t.link? parent name = some ino := by
    rw [← resolve_concat_of_eq hp, ← hc]
    exact lookup_eq_ok_iff.1 hino
  refine ⟨ht.removeChild hlink hchildless, fun q => ?_⟩
  rw [entryAt?_removeChild ht hp hlink hchildless, hc]

theorem tree_of_unlink_error {e : Errno} (h : t.unlink path = (.error e, t')) : t' = t := by
  unfold Tree.unlink at h
  split at h
  · cases h
    rfl
  · split at h
    · cases h
      rfl
    · split at h
      · cases h
        rfl
      · cases h

theorem removal_of_unlink (ht : t.Forest) (h : t.unlink path = (.ok (), t')) :
    Removal t t' (components path) := by
  unfold Tree.unlink at h
  split at h
  · cases h
  · rename_i ino hino
    split at h
    · cases h
    · rename_i hdir
      split at h
      · cases h
      · rename_i parent name hparent
        cases h
        exact removal_of_lookup ht hino hparent
          (link?_eq_none_of_not_isDirectory (Bool.eq_false_iff.2 hdir))

theorem exists_unlink_of_file (ht : t.Forest) {e : Entry}
    (h : t.entryAt? (components path) = some e)
    (hfile : e.bytes ≠ none) : ∃ t', t.unlink path = (.ok (), t') := by
  have hr := (entryAt?_eq_some_iff.1 h).1
  have hdir : ¬ t.isDirectory e.ino = true :=
    Bool.eq_false_iff.1 (isDirectory_eq_false_of_file h hfile)
  rcases List.eq_nil_or_concat (components path) with hc | ⟨dirs, name, hc⟩
  · rw [hc] at hr
    exact absurd (Option.some.inj hr ▸ ht.root_isDirectory) hdir
  · rw [List.concat_eq_append] at hc
    rw [hc, resolve_concat, Option.bind_eq_some_iff] at hr
    obtain ⟨parent, hp, hl⟩ := hr
    have hparent : t.lookupParent path = .ok (parent, name) :=
      lookupParent_eq_ok_iff.2 ⟨dirs, hc, hp, isDirectory_of_link? hl⟩
    have hino : t.lookup path = .ok e.ino := lookup_eq_ok_iff.2 (entryAt?_eq_some_iff.1 h).1
    exact ⟨_, by rw [Tree.unlink, hino, hparent]; simp only [hdir]; rfl⟩

theorem tree_of_rmdir_error {e : Errno} (h : t.rmdir path = (.error e, t')) : t' = t := by
  unfold Tree.rmdir at h
  split at h
  · cases h
    rfl
  · split at h
    · cases h
      rfl
    · split at h
      · cases h
        rfl
      · split at h
        · cases h
          rfl
        · split at h
          · cases h
            rfl
          · cases h

theorem removal_of_rmdir (ht : t.Forest) (h : t.rmdir path = (.ok (), t')) :
    Removal t t' (components path) := by
  unfold Tree.rmdir at h
  split at h
  · cases h
  · rename_i ino hino
    split at h
    · cases h
    · split at h
      · cases h
      · rename_i children hchildren
        split at h
        · cases h
        · rename_i hempty
          split at h
          · cases h
          · rename_i parent name hparent
            cases h
            refine removal_of_lookup ht hino hparent ?_
            intro n
            simp only [Bool.not_eq_true', Bool.not_eq_false] at hempty
            rw [link?, children_eq_ok_iff.1 hchildren, Option.bind_some]
            exact Std.TreeMap.getElem?_of_isEmpty hempty

theorem exists_rmdir_of_empty (ht : t.Forest) {e : Entry} (hroot : components path ≠ [])
    (h : t.entryAt? (components path) = some e) (hdir : e.bytes = none)
    (hempty : ∀ name, t.entryAt? (components path ++ [name]) = none) :
    ∃ t', t.rmdir path = (.ok (), t') := by
  obtain ⟨hr, he⟩ := entryAt?_eq_some_iff.1 h
  obtain ⟨children, hchildren⟩ := isDirectory_iff.1 (isDirectory_iff_entryOf?.2 ⟨e, he, hdir⟩)
  have hnone (name : String) : children[name]? = none := by
    have hname := ht.entryAt?_eq_none_iff.1 (hempty name)
    rwa [resolve_concat_of_eq hr, link?, hchildren] at hname
  have hisEmpty : children.isEmpty = true := by
    rw [Std.TreeMap.isEmpty_iff_forall_not_mem]
    intro name hname
    rw [Std.TreeMap.mem_iff_isSome_getElem?, hnone] at hname
    cases hname
  obtain ⟨dirs, name, hc⟩ := (List.eq_nil_or_concat (components path)).resolve_left hroot
  rw [List.concat_eq_append] at hc
  have hr' := hr
  rw [hc, resolve_concat, Option.bind_eq_some_iff] at hr'
  obtain ⟨parent, hp, hl⟩ := hr'
  have hnotRoot : e.ino ≠ rootIno := by
    rintro heq
    rw [heq] at hl
    exact ht.link_ne_root hl
  have hparent : t.lookupParent path = .ok (parent, name) :=
    lookupParent_eq_ok_iff.2 ⟨dirs, hc, hp, isDirectory_of_link? hl⟩
  have hchildren := children_eq_ok_iff.2 hchildren
  simp [Tree.rmdir, lookup_eq_ok_iff.2 hr, hnotRoot, hchildren, hisEmpty, hparent]

theorem nextIno_unlink (t : Tree) (path : String) : (t.unlink path).2.nextIno = t.nextIno := by
  unfold Tree.unlink
  repeat' split
  all_goals rfl

theorem nextIno_rmdir (t : Tree) (path : String) : (t.rmdir path).2.nextIno = t.nextIno := by
  unfold Tree.rmdir
  repeat' split
  all_goals rfl

theorem exists_file_of_unlink (ht : t.Forest) (h : t.unlink path = (.ok (), t')) :
    ∃ e, t.entryAt? (components path) = some e ∧ e.bytes ≠ none := by
  unfold Tree.unlink at h
  split at h
  · cases h
  · rename_i ino hino
    split at h
    · cases h
    · rename_i hdir
      obtain ⟨e, he, rfl⟩ := ht.exists_entryAt? (lookup_eq_ok_iff.1 hino)
      refine ⟨e, he, fun hb => hdir ?_⟩
      exact isDirectory_iff_entryOf?.2 ⟨e, (entryAt?_eq_some_iff.1 he).2, hb⟩

/-- A tree that has gained entries at beginnings of the names, and nowhere else. -/
structure Growth (t t' : Tree) (names : List String) : Prop where
  forest : t'.Forest
  entryAt?_of_some : ∀ {q e}, t.entryAt? q = some e → t'.entryAt? q = some e
  entryAt?_of_not_isPrefix : ∀ {q}, ¬ q <+: names → t'.entryAt? q = t.entryAt? q

theorem Growth.refl (ht : t.Forest) (names : List String) : Growth t t names :=
  ⟨ht, id, fun _ => rfl⟩

theorem Growth.trans {t'' : Tree} {names : List String} (h : Growth t t' names)
    (h' : Growth t' t'' names) : Growth t t'' names where
  forest := h'.forest
  entryAt?_of_some hq := h'.entryAt?_of_some (h.entryAt?_of_some hq)
  entryAt?_of_not_isPrefix hq := by
    rw [h'.entryAt?_of_not_isPrefix hq, h.entryAt?_of_not_isPrefix hq]

theorem growth_of_insertChild (ht : t.Forest) {dirs rest : List String} {name : String}
    {parent child : Ino} {node : Node} (hnode : node.IsChildless) (hname : IsEntryName name)
    (hp : t.resolve dirs = some parent) (hfree : t.link? parent name = none)
    (h : t.insertChild parent name node now = (.ok child, t')) :
    Growth t t' (dirs ++ name :: rest) := by
  have hentry := entryAt?_insertChild ht hnode hp hfree h
  refine ⟨ht.insertChild hnode hname h, ?_, ?_⟩
  · intro q e hq
    rw [hentry, if_neg, hq]
    rintro rfl
    rw [entryAt?, resolve_concat_of_eq hp, hfree] at hq
    cases hq
  · intro q hq
    rw [hentry, if_neg]
    rintro rfl
    exact hq ⟨rest, by simp⟩

theorem growth_makeWalk {ino : Ino} {made : Bool} {dirs names : List String} (ht : t.Forest)
    (hino : t.resolve dirs = some ino) (hnames : ∀ n ∈ names, IsEntryName n) :
    Growth t (t.makeWalk ino made mode now names).2 (dirs ++ names) := by
  -- The directories made so far are those on the way to the next name.
  induction names generalizing t ino made dirs with
  | nil => exact Growth.refl ht _
  | cons name names ih =>
    have hcons : dirs ++ name :: names = dirs ++ [name] ++ names := by simp
    have hrest : ∀ n ∈ names, IsEntryName n := fun n hn => hnames n (List.mem_cons_of_mem _ hn)
    unfold makeWalk
    split
    · exact Growth.refl ht _
    · rename_i children hchildren
      have hlink : t.link? ino name = children[name]? := by
        rw [link?, children_eq_ok_iff.1 hchildren, Option.bind_some]
      split
      · rename_i child hchild
        rw [hcons]
        apply ih ht _ hrest
        rw [resolve_concat_of_eq hino, hlink, hchild]
      · rename_i hchild
        have hfree : t.link? ino name = none := by rw [hlink, hchild]
        have hnode := Node.isChildless_newDirectory mode now
        split
        · rename_i e tree hinsert
          rw [tree_of_insertChild_error hinsert]
          exact Growth.refl ht _
        · rename_i child tree hinsert
          have hgrowth : Growth t tree (dirs ++ name :: names) :=
            growth_of_insertChild ht hnode (hnames name List.mem_cons_self) hino hfree hinsert
          refine hgrowth.trans ?_
          rw [hcons]
          apply ih hgrowth.forest _ hrest
          have hnew := entryAt?_insertChild ht hnode hino hfree hinsert (dirs ++ [name])
          rw [if_pos rfl, entryAt?_eq_some_iff] at hnew
          rw [hnew.1, (insertChild_eq_ok hinsert).1]
          rfl

theorem growth_mkdirs (ht : t.Forest) (path : String) (mode : UInt32) (now : Time) :
    Growth t (t.mkdirs path mode now).2 (components path) := by
  have hwalk : Growth t (t.makeWalk rootIno false mode now (components path)).2
      ([] ++ components path) :=
    growth_makeWalk ht rfl fun _ => isEntryName_of_mem_components
  unfold Tree.mkdirs
  split
  · rename_i hw
    rw [List.nil_append, hw] at hwalk
    exact hwalk
  · rename_i ino made tree hw
    rw [List.nil_append, hw] at hwalk
    split
    · exact hwalk
    · split <;> exact hwalk

theorem childless_of_insertChild (ht : t.Forest) {parent child : Ino} {name : String}
    (h : t.insertChild parent name (.newDirectory mode now) now = (.ok child, t')) :
    t'.isDirectory child = true ∧ ∀ n, t'.link? child n = none := by
  obtain ⟨rfl, hdir, -⟩ := insertChild_eq_ok h
  constructor
  · rw [isDirectory_iff_entryOf?, entryOf?_insertChild h, if_pos rfl]
    exact ⟨_, rfl, rfl⟩
  · intro n
    rw [link?_insertChild ht (Node.isChildless_newDirectory mode now) h, ht.link?_nextIno, if_neg]
    rintro ⟨rfl, -⟩
    obtain ⟨e, he, -⟩ := isDirectory_iff_entryOf?.1 hdir
    rw [ht.entryOf?_nextIno] at he
    cases he

theorem exists_makeWalk_of_childless {ino : Ino} {names : List String} (ht : t.Forest)
    (hdir : t.isDirectory ino = true) (hchildless : ∀ n, t.link? ino n = none)
    (hnames : ∀ n ∈ names, IsEntryName n) (mode : UInt32) (now : Time) :
    ∃ child t', t.makeWalk ino true mode now names = (.ok (child, true), t') := by
  induction names generalizing t ino with
  | nil => exact ⟨ino, t, rfl⟩
  | cons name names ih =>
    obtain ⟨children, hchildren⟩ := isDirectory_iff.1 hdir
    have hfree : children[name]? = none := by
      have hlink := hchildless name
      rwa [link?, hchildren, Option.bind_some] at hlink
    have hchildren := children_eq_ok_iff.2 hchildren
    obtain ⟨t₁, hinsert⟩ := exists_insertChild hdir name (.newDirectory mode now) now
    have ht₁ := ht.insertChild (Node.isChildless_newDirectory mode now)
      (hnames name List.mem_cons_self) hinsert
    obtain ⟨hdir₁, hchildless₁⟩ := childless_of_insertChild ht hinsert
    obtain ⟨child, t', hwalk⟩ :=
      ih ht₁ hdir₁ hchildless₁ fun n hn => hnames n (List.mem_cons_of_mem _ hn)
    refine ⟨child, t', ?_⟩
    simp only [makeWalk, hchildren, hfree, hinsert, hwalk]

/-- A walk makes nothing unless it comes to its end and says so: once a directory was made nothing
stands in the way of those below it. -/
theorem tree_of_makeWalk {ino : Ino} {made : Bool} {names : List String} (ht : t.Forest)
    (hnames : ∀ n ∈ names, IsEntryName n) {answer : Except Errno (Ino × Bool)}
    (h : t.makeWalk ino made mode now names = (answer, t'))
    (hanswer : ∀ child, answer ≠ .ok (child, true)) : t' = t := by
  induction names generalizing ino made with
  | nil =>
    cases h
    rfl
  | cons name names ih =>
    have hrest : ∀ n ∈ names, IsEntryName n := fun n hn => hnames n (List.mem_cons_of_mem _ hn)
    unfold makeWalk at h
    split at h
    · cases h
      rfl
    · split at h
      · exact ih hrest h
      · split at h
        · rename_i hinsert
          cases h
          exact tree_of_insertChild_error hinsert
        · rename_i child t₁ hinsert
          have ht₁ := ht.insertChild (Node.isChildless_newDirectory mode now)
            (hnames name List.mem_cons_self) hinsert
          obtain ⟨hdir₁, hchildless₁⟩ := childless_of_insertChild ht hinsert
          obtain ⟨last, t₂, hwalk⟩ :=
            exists_makeWalk_of_childless ht₁ hdir₁ hchildless₁ hrest mode now
          rw [hwalk] at h
          cases h
          exact absurd rfl (hanswer last)

theorem tree_of_mkdirs_error (ht : t.Forest) {e : Errno}
    (h : t.mkdirs path mode now = (.error e, t')) : t' = t := by
  have hnames : ∀ n ∈ components path, IsEntryName n := fun _ => isEntryName_of_mem_components
  unfold Tree.mkdirs at h
  split at h
  · rename_i hwalk
    cases h
    exact tree_of_makeWalk ht hnames hwalk fun child hok => by cases hok
  · rename_i ino made tree hwalk
    split at h
    · cases h
    · rename_i hmade
      have htree : tree = t := by
        refine tree_of_makeWalk ht hnames hwalk ?_
        rintro child ⟨⟩
        exact hmade rfl
      split at h <;> cases h <;> exact htree

theorem contents?_eq (ht : t.Forest) (path : String) :
    t.contents? path = (t.entryAt? (components path)).bind Entry.bytes := by
  unfold Tree.contents?
  cases hl : t.lookup path with
  | error e =>
    have hnone : t.entryAt? (components path) = none := by
      rw [ht.entryAt?_eq_none_iff]
      cases hr : t.resolve (components path) with
      | none => rfl
      | some ino =>
        rw [lookup_eq_ok_iff.2 hr] at hl
        cases hl
    rw [hnone]
    rfl
  | ok ino =>
    rw [entryAt?, lookup_eq_ok_iff.1 hl, Option.bind_some, entryOf?]
    cases hn : t.nodes[ino]? with
    | none => simp [hn]
    | some node => cases node with | mk body => cases body <;> simp [hn, Node.entry, Node.bytes?]

/-- How a file comes to a path in a tree in which the directories that lead to it were made. -/
inductive Putting (t : Tree) (path : String) (bytes : ByteArray) (now : Time) : Tree → Prop where
  | refused {code} (hparent : t.lookupParent path = .error code) : Putting t path bytes now t
  | replaced {parent name ino} (hparent : t.lookupParent path = .ok (parent, name))
      (hlink : t.link? parent name = some ino) :
      Putting t path bytes now (t.modifyNode ino (·.withBytes bytes now))
  | created {parent name t'} (hparent : t.lookupParent path = .ok (parent, name))
      (hfree : t.link? parent name = none)
      (hinsert : t.insertChild parent name (.newFile 0o644 now) now = (.ok t.nextIno, t')) :
      Putting t path bytes now (t'.modifyNode t.nextIno (·.withBytes bytes now))

/-- The tree after the walk to the directory that is to hold the file. -/
def withParents (t : Tree) (path : String) (now : Time) : Tree :=
  (t.makeWalk rootIno false 0o755 now (components path).dropLast).2

theorem putting_putFile (t : Tree) (path : String) (bytes : ByteArray) (now : Time) :
    (t.withParents path now).Putting path bytes now (t.putFile path bytes now) := by
  cases hc : components path with
  | nil =>
    have hparent : t.lookupParent path = .error .einval := by simp [Tree.lookupParent, hc]
    rw [withParents, hc]
    simp only [Tree.putFile, hc, hparent]
    exact .refused hparent
  | cons first rest =>
    have hwalk : (t.makeWalk rootIno false 0o755 now (first :: rest).dropLast).2 =
        t.withParents path now := by
      rw [withParents, hc]
    simp only [Tree.putFile, hc, hwalk]
    generalize t.withParents path now = t₁
    cases hparent : t₁.lookupParent path with
    | error code => exact .refused hparent
    | ok found =>
      obtain ⟨parent, name⟩ := found
      obtain ⟨-, -, -, hdir⟩ := lookupParent_eq_ok_iff.1 hparent
      cases hchild : t₁.child parent name with
      | ok ino =>
        simp only [hchild]
        exact .replaced hparent (child_eq_ok_iff.1 hchild)
      | error code =>
        obtain ⟨t₂, hinsert⟩ := exists_insertChild hdir name (.newFile 0o644 now) now
        simp only [hchild, hinsert]
        exact .created hparent (link?_eq_none_of_child_error hchild) hinsert

theorem isEntryName_of_lookupParent {parent : Ino} {name : String}
    (h : t.lookupParent path = .ok (parent, name)) : IsEntryName name := by
  obtain ⟨dirs, hc, -⟩ := lookupParent_eq_ok_iff.1 h
  exact isEntryName_of_mem_components (by rw [hc]; simp)

theorem growth_withParents (ht : t.Forest) (path : String) (now : Time) :
    Growth t (t.withParents path now) (components path).dropLast := by
  have hroot : t.resolve [] = some rootIno := rfl
  have hgrowth : Growth t (t.withParents path now) ([] ++ (components path).dropLast) :=
    growth_makeWalk ht hroot fun _ hn =>
      isEntryName_of_mem_components (List.dropLast_subset (components path) hn)
  rwa [List.nil_append] at hgrowth

theorem Forest.putFile (ht : t.Forest) (path : String) (bytes : ByteArray) (now : Time) :
    (t.putFile path bytes now).Forest := by
  have hparents := (growth_withParents ht path now).forest
  have hputting := t.putting_putFile path bytes now
  generalize t.withParents path now = t₁ at hparents hputting
  generalize t.putFile path bytes now = t' at hputting
  cases hputting with
  | refused => exact hparents
  | replaced _ hlink =>
    apply hparents.modifyNode_withBytes
    rintro rfl
    exact hparents.link_ne_root hlink
  | @created parent name _ hparent _ hinsert =>
    have hnode := Node.isChildless_newFile 0o644 now
    have hforest := hparents.insertChild hnode (isEntryName_of_lookupParent hparent) hinsert
    have hlink := link?_insertChild hparents hnode hinsert parent name
    rw [if_pos ⟨rfl, rfl⟩] at hlink
    apply hforest.modifyNode_withBytes
    intro hroot
    exact hforest.link_ne_root (hroot ▸ hlink)

theorem getElem?_nodes_new (now : Time) (ino : Ino) :
    (new now).nodes[ino]? = if ino = rootIno then some (.newDirectory 0o755 now) else none := by
  simp only [new]
  rw [Std.TreeMap.ofList_singleton, Std.TreeMap.getElem?_insert]
  simp only [Std.compare_eq_iff_eq, eq_comm (a := ino)]
  simp

theorem forest_new (now : Time) : (new now).Forest := by
  have hlink (p : Ino) (n : String) : (new now).link? p n = none := by
    unfold link?
    rw [getElem?_nodes_new]
    split
    · exact Node.isChildless_newDirectory 0o755 now n
    · rfl
  constructor
  · rw [isDirectory_iff, getElem?_nodes_new, if_pos rfl]
    exact ⟨_, rfl⟩
  · intro p n h
    rw [hlink] at h
    cases h
  · intro p p' n n' child h
    rw [hlink] at h
    cases h
  · intro p n child h
    rw [hlink] at h
    cases h
  · intro ino e h
    rw [entryOf?, getElem?_nodes_new] at h
    split at h
    · rename_i hroot
      rw [hroot]
      exact Nat.lt_succ_self _
    · cases h
  · intro p n child h
    rw [hlink] at h
    cases h

end VolumeFs.Memory.Tree
