import VolumeFs.Proofs.Tree.Changes

/-!
# Moves within a forest

A node that gets another name takes all that is below it along. A move is refused where the new
name is taken or lies below the node itself.
-/

namespace VolumeFs.Memory.Tree

variable {t t' : Tree} {source target : String} {now : Time}

theorem meets_eq_true_iff {ino start : Ino} {names : List String} :
    t.meets ino start names = true ↔ ∃ dirs, dirs <+: names ∧ t.descend start dirs = some ino := by
  induction names generalizing start with
  | nil => simp [meets, descend]
  | cons name names ih =>
    have hstep : t.meets ino start (name :: names) = true ↔
        start = ino ∨ ∃ child, t.link? start name = some child ∧
          t.meets ino child names = true := by
      rw [meets, Bool.or_eq_true, decide_eq_true_iff]
      apply or_congr_right
      cases hc : t.child start name with
      | ok child => simp [child_eq_ok_iff.1 hc]
      | error e =>
        simp only [Bool.false_eq_true, false_iff]
        rintro ⟨child, hl, -⟩
        rw [child_eq_ok_iff.2 hl] at hc
        cases hc
    rw [hstep]
    constructor
    · rintro (rfl | ⟨child, hl, hm⟩)
      · exact ⟨[], List.nil_prefix, rfl⟩
      · obtain ⟨dirs, hpre, hd⟩ := ih.1 hm
        refine ⟨name :: dirs, List.cons_prefix_cons.2 ⟨rfl, hpre⟩, ?_⟩
        rw [descend, List.foldlM_cons, hl]
        exact hd
    · rintro ⟨dirs, hpre, hd⟩
      cases dirs with
      | nil => exact .inl (Option.some.inj hd)
      | cons n dirs =>
        obtain ⟨rfl, hrest⟩ := List.cons_prefix_cons.1 hpre
        rw [descend, List.foldlM_cons, Option.bind_eq_bind, Option.bind_eq_some_iff] at hd
        obtain ⟨child, hl, hd⟩ := hd
        exact .inr ⟨child, hl, ih.2 ⟨dirs, hrest, hd⟩⟩

theorem tree_of_rename_error {e : Errno} (h : t.rename source target now = (.error e, t')) :
    t' = t := by
  unfold Tree.rename at h
  split at h
  · cases h
    rfl
  · split at h
    · cases h
      rfl
    · split at h
      · cases h
        rfl
      · split at h
        · cases h
          rfl
        · split at h
          · cases h
            rfl
          · split at h
            · cases h
              rfl
            · cases h

def moveChild (t : Tree) (parent : Ino) (name : String) (parent' : Ino) (name' : String)
    (ino : Ino) (now : Time) : Tree :=
  ((t.unlinkChild parent name).linkChild parent' name' ino).modifyNode ino
    fun n => { n with ctime := now }

section Move

variable {parent parent' ino : Ino} {name name' : String} {dirs dirs' : List String}

private theorem link?_moveChild (hdir : t.isDirectory parent' = true) (p : Ino) (n : String) :
    (t.moveChild parent name parent' name' ino now).link? p n =
      if p = parent' ∧ n = name' then some ino else (t.unlinkChild parent name).link? p n := by
  have hsame (n : Node) : { n with ctime := now }.children? = n.children? := rfl
  have hdir' : (t.unlinkChild parent name).isDirectory parent' = true := by
    rw [isDirectory_congr (entryOf?_unlinkChild t parent name parent'), hdir]
  rw [moveChild, link?_modifyNode_of_same hsame, link?_linkChild]
  simp only [hdir', and_true]

theorem entryOf?_moveChild (i : Ino) :
    (t.moveChild parent name parent' name' ino now).entryOf? i = t.entryOf? i := by
  have hsame (n : Node) (i : Ino) : { n with ctime := now }.entry i = n.entry i := rfl
  rw [moveChild, entryOf?_modifyNode_of_same hsame, entryOf?_linkChild, entryOf?_unlinkChild]

private theorem Forest.unlinkChild (ht : t.Forest) (parent : Ino) (name : String) :
    (t.unlinkChild parent name).Forest := by
  have hsub {p n i} (h : (t.unlinkChild parent name).link? p n = some i) :
      t.link? p n = some i := by
    rw [link?_unlinkChild] at h
    split at h
    · cases h
    · exact h
  apply ht.of_sublinks
  · intro p n i h
    exact hsub h
  · intro p n i h
    rw [entryOf?_unlinkChild]
    exact ht.entryOf_link (hsub h)
  · intro i e h
    rw [entryOf?_unlinkChild] at h
    exact ht.lt_nextIno h
  · rw [isDirectory_congr (entryOf?_unlinkChild t parent name _), ht.root_isDirectory]

private theorem link?_unlinkChild_ne (ht : t.Forest) (hlink : t.link? parent name = some ino)
    (p : Ino) (n : String) : (t.unlinkChild parent name).link? p n ≠ some ino := by
  intro h
  rw [link?_unlinkChild] at h
  split at h
  · cases h
  · rename_i hpn
    exact hpn (ht.link_unique h hlink)

theorem Forest.moveChild (ht : t.Forest) (hlink : t.link? parent name = some ino)
    (hdir : t.isDirectory parent' = true) (hname : IsEntryName name') :
    (t.moveChild parent name parent' name' ino now).Forest := by
  obtain ⟨e, he⟩ := ht.entryOf_link hlink
  refine (ht.unlinkChild parent name).of_newLink (link?_moveChild hdir)
    (link?_unlinkChild_ne ht hlink) ?_ ?_ ?_ (Nat.le_refl _) (ht.lt_nextIno he) hname
  · rintro rfl
    exact ht.link_ne_root hlink
  · intro i _
    rw [entryOf?_moveChild, entryOf?_unlinkChild]
  · exact ⟨e, by rw [entryOf?_moveChild, he]⟩

/-- What was below the old name is below the new one, and nothing else moves. -/
theorem entryAt?_moveChild (ht : t.Forest) (hp : t.resolve dirs = some parent)
    (hlink : t.link? parent name = some ino) (hp' : t.resolve dirs' = some parent')
    (hdir : t.isDirectory parent' = true) (hbelow : ¬ dirs ++ [name] <+: dirs')
    (names : List String) :
    (t.moveChild parent name parent' name' ino now).entryAt? names =
      if dirs' ++ [name'] <+: names then
        t.entryAt? (dirs ++ [name] ++ names.drop (dirs' ++ [name']).length)
      else if dirs ++ [name] <+: names then none
      else t.entryAt? names := by
  have hu := ht.unlinkChild parent name
  have hlink' (p : Ino) (n : String) :
      (t.moveChild parent name parent' name' ino now).link? p n =
        if p = parent' ∧ n = name' then some ino else (t.unlinkChild parent name).link? p n :=
    link?_moveChild hdir p n
  -- Away from the old name nothing is seen of its loss, and the directory of the new name is away.
  have hunlinked {q : List String} (hq : ¬ dirs ++ [name] <+: q) :
      (t.unlinkChild parent name).resolve q = t.resolve q :=
    ht.resolve_eq_of_link hp (fun p n hpn => by rw [link?_unlinkChild, if_neg hpn]) hq
  have hpu' : (t.unlinkChild parent name).resolve dirs' = some parent' := by
    rw [hunlinked hbelow, hp']
  have hmoved {q : List String} (hq : ¬ dirs' ++ [name'] <+: q) :
      (t.moveChild parent name parent' name' ino now).resolve q =
        (t.unlinkChild parent name).resolve q :=
    hu.resolve_eq_of_link hpu' (fun p n hpn => by rw [hlink', if_neg hpn]) hq
  have hino : t.resolve (dirs ++ [name]) = some ino := by rw [resolve_concat_of_eq hp, hlink]
  by_cases hnew : dirs' ++ [name'] <+: names
  · obtain ⟨rest, rfl⟩ := hnew
    rw [if_pos (List.prefix_append _ _), List.drop_left]
    have hnew' : (t.moveChild parent name parent' name' ino now).resolve (dirs' ++ [name']) =
        some ino := by
      rw [resolve_concat, hmoved (not_concat_isPrefix dirs' name'), hpu', Option.bind_some, hlink',
        if_pos ⟨rfl, rfl⟩]
    have hdescend : (t.moveChild parent name parent' name' ino now).descend ino rest =
        t.descend ino rest := by
      apply descend_congr
      intro d n p hpre hd
      have hd' : t.resolve (dirs ++ [name] ++ d) = some p := by
        rw [resolve_append, hino, Option.bind_some, hd]
      rw [hlink', if_neg, link?_unlinkChild, if_neg]
      · rintro ⟨rfl, -⟩
        have hback : dirs ++ [name] <+: dirs ++ [name] ++ d := List.prefix_append _ _
        rw [ht.resolve_injective hd' hp] at hback
        exact not_concat_isPrefix dirs name hback
      · rintro ⟨rfl, -⟩
        exact hbelow (ht.resolve_injective hd' hp' ▸ List.prefix_append _ _)
    rw [entryAt?, resolve_append, hnew', Option.bind_some, hdescend, entryAt?, resolve_append, hino,
      Option.bind_some]
    cases t.descend ino rest with
    | none => rfl
    | some i => exact entryOf?_moveChild i
  · rw [if_neg hnew]
    by_cases hold : dirs ++ [name] <+: names
    · obtain ⟨rest, rfl⟩ := hold
      have hpu : (t.unlinkChild parent name).resolve dirs = some parent := by
        rw [hunlinked (not_concat_isPrefix dirs name), hp]
      rw [if_pos (List.prefix_append _ _), entryAt?, hmoved hnew, resolve_append,
        resolve_concat_of_eq hpu, link?_unlinkChild, if_pos ⟨rfl, rfl⟩, Option.bind_none,
        Option.bind_none]
    · rw [if_neg hold]
      apply entryAt?_eq_of_resolve_eq
      · rw [hmoved hnew, hunlinked hold]
      · intro i _
        exact entryOf?_moveChild i

end Move

/-- The tree after a move: the entry had a name of its own, the other name was free in a directory,
and that directory is not below the entry. -/
inductive Renamed (t : Tree) (source target : List String) (now : Time) : Tree → Prop where
  | moved {dirs dirs' parent parent' name name' ino} (hsource : source = dirs ++ [name])
      (htarget : target = dirs' ++ [name']) (hp : t.resolve dirs = some parent)
      (hlink : t.link? parent name = some ino) (hp' : t.resolve dirs' = some parent')
      (hdir : t.isDirectory parent' = true) (hfree : t.link? parent' name' = none)
      (hbelow : ¬ dirs ++ [name] <+: dirs') :
      Renamed t source target now (t.moveChild parent name parent' name' ino now)

theorem renamed_of_rename (h : t.rename source target now = (.ok (), t')) :
    t.Renamed (components source) (components target) now t' := by
  unfold Tree.rename at h
  split at h
  · cases h
  · rename_i ino hino
    split at h
    · cases h
    · split at h
      · cases h
      · rename_i hfree
        split at h
        · cases h
        · rename_i parent' name' hparent'
          split at h
          · cases h
          · rename_i hmeets
            split at h
            · cases h
            · rename_i parent name hparent
              cases h
              obtain ⟨dirs, hc, hp, -⟩ := lookupParent_eq_ok_iff.1 hparent
              obtain ⟨dirs', hc', hp', hdir⟩ := lookupParent_eq_ok_iff.1 hparent'
              have hsource := lookup_eq_ok_iff.1 hino
              refine .moved hc hc' hp ?_ hp' hdir ?_ ?_
              · rw [← resolve_concat_of_eq hp, ← hc, hsource]
              · cases hl : t.link? parent' name' with
                | none => rfl
                | some i =>
                  rw [← resolve_concat_of_eq hp', ← hc'] at hl
                  exact absurd (by rw [lookup_eq_ok_iff.2 hl]; rfl) hfree
              · intro hpre
                refine hmeets (meets_eq_true_iff.2 ⟨dirs ++ [name], ?_, hc ▸ hsource⟩)
                rw [hc']
                exact hpre.trans (List.prefix_append _ _)

theorem rename_of_renamed (ht : t.Forest)
    (h : t.Renamed (components source) (components target) now t') :
    t.rename source target now = (.ok (), t') := by
  obtain @⟨dirs, dirs', parent, parent', name, name', ino, hsource, htarget, hp, hlink, hp', hdir,
    hfree, hbelow⟩ := h
  have hino : t.resolve (dirs ++ [name]) = some ino := by rw [resolve_concat_of_eq hp, hlink]
  have hnone : t.resolve (dirs' ++ [name']) = none := by rw [resolve_concat_of_eq hp', hfree]
  have hlookup : t.lookup source = .ok ino := lookup_eq_ok_iff.2 (hsource ▸ hino)
  have hroot : ¬ ino = rootIno := fun h => ht.link_ne_root (h ▸ hlink)
  have htaken : ¬ (t.lookup target).isOk = true := by
    cases hl : t.lookup target with
    | error _ => simp [Except.isOk, Except.toBool]
    | ok i =>
      rw [lookup_eq_ok_iff, htarget, hnone] at hl
      cases hl
  have hmeets : ¬ t.meets ino rootIno (components target) = true := by
    rw [meets_eq_true_iff, htarget]
    rintro ⟨d, hpre, hd⟩
    obtain rfl := ht.resolve_injective hd hino
    rcases List.prefix_concat_iff.1 hpre with heq | hpre
    · rw [heq, hnone] at hino
      cases hino
    · exact hbelow hpre
  have hparent : t.lookupParent source = .ok (parent, name) :=
    lookupParent_eq_ok_iff.2 ⟨dirs, hsource, hp, isDirectory_of_link? hlink⟩
  have hparent' : t.lookupParent target = .ok (parent', name') :=
    lookupParent_eq_ok_iff.2 ⟨dirs', htarget, hp', hdir⟩
  rw [Tree.rename, hlookup]
  simp only [hroot, htaken, hmeets, hparent, hparent']
  rfl

theorem rename_eq_ok (ht : t.Forest) (h : t.rename source target now = (.ok (), t')) :
    t'.Forest ∧ t.entryAt? (components target) = none ∧
      ∃ e, t.entryAt? (components source) = some e ∧ ∀ q, t'.entryAt? q =
        if components target <+: q then
          t.entryAt? (components source ++ q.drop (components target).length)
        else if components source <+: q then none
        else t.entryAt? q := by
  have hname : ∀ n ∈ components target, IsEntryName n := fun n hn =>
    isEntryName_of_mem_components hn
  have hrenamed := renamed_of_rename h
  generalize components source = front at hrenamed ⊢
  generalize components target = front' at hrenamed hname ⊢
  obtain @⟨dirs, dirs', parent, parent', name, name', ino, rfl, rfl, hp, hlink, hp', hdir, hfree,
    hbelow⟩ := hrenamed
  obtain ⟨e, he, -⟩ := ht.exists_entryAt? ((resolve_concat_of_eq hp name).trans hlink)
  refine ⟨ht.moveChild hlink hdir (hname name' (by simp)), ?_, e, he, ?_⟩
  · rw [ht.entryAt?_eq_none_iff, resolve_concat_of_eq hp', hfree]
  · exact entryAt?_moveChild ht hp hlink hp' hdir hbelow

theorem entryAt?_rename_file (ht : t.Forest) (h : t.rename source target now = (.ok (), t'))
    {e : Entry} (he : t.entryAt? (components source) = some e) (hfile : e.bytes ≠ none)
    (q : List String) : t'.entryAt? q = if q = components target then some e
      else if q = components source then none else t.entryAt? q := by
  obtain ⟨-, hfree, -, -, hentry⟩ := rename_eq_ok ht h
  rw [hentry]
  by_cases htarget : components target <+: q
  · obtain ⟨rest, rfl⟩ := htarget
    rw [if_pos (List.prefix_append _ _), List.drop_left]
    by_cases hrest : rest = []
    · rw [hrest, List.append_nil, List.append_nil, if_pos rfl, he]
    · rw [if_neg (by simpa using hrest), entryAt?_append_of_file he hfile hrest,
        entryAt?_append_of_none (ht.entryAt?_eq_none_iff.1 hfree), ite_self]
  · rw [if_neg htarget, if_neg fun hq : q = _ => htarget (hq ▸ List.prefix_rfl)]
    by_cases hsource : components source <+: q
    · obtain ⟨rest, rfl⟩ := hsource
      rw [if_pos (List.prefix_append _ _)]
      by_cases hrest : rest = []
      · rw [hrest, List.append_nil, if_pos rfl]
      · rw [if_neg (by simpa using hrest), entryAt?_append_of_file he hfile hrest]
    · rw [if_neg hsource, if_neg fun hq : q = _ => hsource (hq ▸ List.prefix_rfl)]

theorem exists_rename_of_free (ht : t.Forest) {dirs : List String} {name name' : String}
    {e : Entry} (hsource : components source = dirs ++ [name])
    (htarget : components target = dirs ++ [name'])
    (he : t.entryAt? (components source) = some e) (hfree : t.entryAt? (components target) = none)
    (now : Time) : ∃ t', t.rename source target now = (.ok (), t') := by
  have hino := (entryAt?_eq_some_iff.1 he).1
  have hnone := ht.entryAt?_eq_none_iff.1 hfree
  rw [hsource, resolve_concat, Option.bind_eq_some_iff] at hino
  obtain ⟨parent, hp, hlink⟩ := hino
  rw [htarget, resolve_concat_of_eq hp] at hnone
  exact ⟨_, rename_of_renamed ht (.moved hsource htarget hp hlink hp (isDirectory_of_link? hlink)
    hnone (not_concat_isPrefix dirs name))⟩

end VolumeFs.Memory.Tree
