import VolumeFs.Proofs.Tree.NewDirectories

/-!
# Files put at a path

A file is put at a path unless the path is the root or a file stands in the way. The directories
that lead to it are made, an entry that was there before keeps its number and its mode, and what is
neither on the way to the path nor below it is not touched. Nothing is below a file, so that a
directory that becomes one loses all that it held.
-/

namespace VolumeFs.Memory.Tree

variable {t t' : Tree} {ino : Ino} {names dirs : List String} {name path : String}
  {bytes : ByteArray} {mode : UInt32} {now : Time} {e : Entry}

private theorem resolve_modifyNode_withBytes_of_not_below (ht : t.Forest)
    (h : t.resolve names = some ino) (bytes : ByteArray) (now : Time) {other : List String}
    (hother : names <+: other → other = names) :
    (t.modifyNode ino (·.withBytes bytes now)).resolve other = t.resolve other := by
  apply descend_congr
  intro front last parent hpre hfront
  rw [link?_modifyNode_withBytes, if_neg]
  rintro rfl
  obtain rfl := ht.resolve_injective hfront h
  rw [hother ((List.prefix_append _ _).trans hpre)] at hpre
  exact not_concat_isPrefix front last hpre

private theorem resolve_modifyNode_withBytes_of_below (ht : t.Forest)
    (h : t.resolve names = some ino) (bytes : ByteArray) (now : Time) {rest : List String}
    (hrest : rest ≠ []) :
    (t.modifyNode ino (·.withBytes bytes now)).resolve (names ++ rest) = none := by
  have hkept := resolve_modifyNode_withBytes_of_not_below ht h bytes now fun _ => rfl
  cases rest with
  | nil => exact absurd rfl hrest
  | cons name rest =>
    rw [resolve_append, hkept, h, Option.bind_some, descend, List.foldlM_cons,
      link?_modifyNode_withBytes, if_pos rfl]
    rfl

/-- An entry of any kind that becomes a file takes with it what was below it, and nothing else. -/
theorem entryAt?_modifyNode_withBytes_of_entryAt? (ht : t.Forest) (h : t.entryAt? names = some e)
    (bytes : ByteArray) (now : Time) (other : List String) :
    (t.modifyNode e.ino (·.withBytes bytes now)).entryAt? other =
      if other = names then some { e with bytes := some bytes }
      else if names <+: other then none
      else t.entryAt? other := by
  obtain ⟨hr, he⟩ := entryAt?_eq_some_iff.1 h
  split
  · rename_i heq
    rw [heq, entryAt?, resolve_modifyNode_withBytes_of_not_below ht hr bytes now fun _ => rfl, hr,
      Option.bind_some, entryOf?_modifyNode_withBytes, if_pos rfl, he, Option.map_some]
  · rename_i hne
    split
    · rename_i hpre
      obtain ⟨rest, rfl⟩ := hpre
      have hrest : rest ≠ [] := by
        rintro rfl
        exact hne (List.append_nil _)
      rw [entryAt?, resolve_modifyNode_withBytes_of_below ht hr bytes now hrest, Option.bind_none]
    · rename_i hbelow
      apply entryAt?_eq_of_resolve_eq
      · exact resolve_modifyNode_withBytes_of_not_below ht hr bytes now fun h => absurd h hbelow
      · intro i hi
        rw [entryOf?_modifyNode_withBytes, if_neg]
        rintro rfl
        rw [ht.resolve_injective hi hr] at hbelow
        exact hbelow List.prefix_rfl

private theorem tree_of_makeWalk_of_file {last : Ino} {made : Bool}
    (h : t.descend ino names = some last) (hfile : t.isDirectory last = false)
    (rest : List String) :
    (t.makeWalk ino made mode now (names ++ rest)).2 = t := by
  induction names generalizing ino with
  | nil =>
    cases h
    cases rest with
    | nil => rfl
    | cons name rest =>
      rw [List.nil_append, makeWalk]
      split
      · rfl
      · rename_i children hchildren
        rw [isDirectory_iff.2 ⟨children, children_eq_ok_iff.1 hchildren⟩] at hfile
        cases hfile
  | cons name names ih =>
    rw [descend, List.foldlM_cons, Option.bind_eq_bind, Option.bind_eq_some_iff] at h
    obtain ⟨child, hlink, h⟩ := h
    obtain ⟨children, hbody⟩ := isDirectory_iff.1 (isDirectory_of_link? hlink)
    have hchild : children[name]? = some child := by
      rwa [link?, hbody, Option.bind_some] at hlink
    rw [List.cons_append, makeWalk, children_eq_ok_iff.2 hbody]
    simp only [hchild]
    exact ih h

private theorem paved_withParents (ht : t.Forest) (hc : components path = dirs ++ [name])
    (hblocked : ¬ t.Blocked (dirs ++ [name])) (now : Time) :
    t.Paved (t.withParents path now) dirs 0o755 := by
  have hgrowth := growth_withParents ht path now
  have hnames : ∀ n ∈ dirs, IsEntryName n := fun n hn =>
    isEntryName_of_mem_components (hc ▸ List.mem_append_left _ hn)
  rw [withParents, hc, List.dropLast_concat] at hgrowth ⊢
  by_cases hdir : t.IsDirectoryAt dirs
  · exact ⟨hgrowth, fun hq => .of_growth hgrowth (hdir.of_isPrefix ht hq)⟩
  · obtain ⟨child, t', hwalk, hpaved⟩ := exists_paved_of_missing ht hnames
      (walk_of_not_isDirectoryAt ht hblocked hdir) 0o755 now
    rwa [hwalk]

/-- The root stands at the path or a file on the way to it, so that no file can be put there. -/
def Refuses (t : Tree) (path : String) : Prop :=
  components path = [] ∨ t.Blocked (components path)

/-- A file with the bytes stands at the names, with directories on the way. What was there before
keeps its number and its mode, and only what was below it is lost. -/
structure FilePut (t t' : Tree) (names : List String) (bytes : ByteArray) : Prop where
  file : ∃ e, t'.entryAt? names = some e ∧ e.bytes = some bytes ∧
    (∀ old, t.entryAt? names = some old → e.ino = old.ino ∧ e.mode = old.mode) ∧
    (t.entryAt? names = none → e.mode = Mode.regular ||| Mode.permissions 0o644)
  hasDirectory : ∀ {q}, q <+: names → q ≠ names → t.HasDirectory t' 0o755 q
  below : ∀ {rest}, rest ≠ [] → t'.entryAt? (names ++ rest) = none
  beside : ∀ {q old}, ¬ names <+: q → t.entryAt? q = some old → t'.entryAt? q = some old

private theorem filePut_of_paved {t₁ t₂ : Tree} (hpaved : t.Paved t₁ dirs 0o755) (ht₂ : t₂.Forest)
    (hrest : ∀ q, q ≠ dirs ++ [name] → t₂.entryAt? q = t₁.entryAt? q)
    (he : t₂.entryAt? (dirs ++ [name]) = some e)
    (hold : ∀ old, t.entryAt? (dirs ++ [name]) = some old → e.ino = old.ino ∧ e.mode = old.mode)
    (hnew : t.entryAt? (dirs ++ [name]) = none →
      e.mode = Mode.regular ||| Mode.permissions 0o644)
    (bytes : ByteArray) (now : Time) :
    t.FilePut (t₂.modifyNode e.ino (·.withBytes bytes now)) (dirs ++ [name]) bytes := by
  have hentry := entryAt?_modifyNode_withBytes_of_entryAt? ht₂ he bytes now
  have hoff {q : List String} (hq : ¬ dirs ++ [name] <+: q) :
      (t₂.modifyNode e.ino (·.withBytes bytes now)).entryAt? q = t₁.entryAt? q := by
    have hne : q ≠ dirs ++ [name] := fun h => hq (h ▸ List.prefix_rfl)
    rw [hentry, if_neg hne, if_neg hq, hrest q hne]
  constructor
  · exact ⟨{ e with bytes := some bytes }, (hentry _).trans (if_pos rfl), rfl, hold, hnew⟩
  · intro q hq hne
    have hdirs : q <+: dirs := (List.prefix_concat_iff.1 hq).resolve_left hne
    obtain ⟨d, hd, hkind, hmode⟩ := hpaved.hasDirectory hdirs
    refine ⟨d, ?_, hkind, hmode⟩
    rw [hoff, hd]
    exact fun h => not_concat_isPrefix dirs name (h.trans hdirs)
  · intro rest hrest
    rw [hentry, if_neg (by simpa using hrest), if_pos (List.prefix_append _ _)]
  · intro q old hq hentryq
    rw [hoff hq]
    exact hpaved.entryAt?_of_some hentryq

theorem filePut_of_putFile (ht : t.Forest) (h : ¬ t.Refuses path) (bytes : ByteArray)
    (now : Time) : t.FilePut (t.putFile path bytes now) (components path) bytes := by
  rw [Refuses, not_or] at h
  obtain ⟨hroot, hblocked⟩ := h
  obtain ⟨dirs, name, hc⟩ := (List.eq_nil_or_concat (components path)).resolve_left hroot
  rw [List.concat_eq_append] at hc
  rw [hc] at hblocked ⊢
  have hpaved := paved_withParents ht hc hblocked now
  have hputting := t.putting_putFile path bytes now
  generalize t.withParents path now = t₁ at hpaved hputting
  generalize t.putFile path bytes now = t' at hputting
  have hsame : t₁.entryAt? (dirs ++ [name]) = t.entryAt? (dirs ++ [name]) :=
    hpaved.entryAt?_of_not_isPrefix (not_concat_isPrefix dirs name)
  obtain ⟨d, hd, hkind, -⟩ := hpaved.hasDirectory List.prefix_rfl
  obtain ⟨hp, hdo⟩ := entryAt?_eq_some_iff.1 hd
  have hfound : t₁.lookupParent path = .ok (d.ino, name) :=
    lookupParent_eq_ok_iff.2 ⟨dirs, hc, hp, isDirectory_iff_entryOf?.2 ⟨d, hdo, hkind⟩⟩
  cases hputting with
  | refused hparent =>
    rw [hfound] at hparent
    cases hparent
  | replaced hparent hlink =>
    rw [hfound] at hparent
    cases hparent
    rw [← resolve_concat_of_eq hp] at hlink
    obtain ⟨e, he, rfl⟩ := hpaved.forest.exists_entryAt? hlink
    apply filePut_of_paved hpaved hpaved.forest (fun _ _ => rfl) he
    · intro old hold
      rw [← hsame, he, Option.some.injEq] at hold
      exact hold ▸ ⟨rfl, rfl⟩
    · intro hnone
      rw [← hsame, he] at hnone
      cases hnone
  | created hparent hfree hinsert =>
    rw [hfound] at hparent
    cases hparent
    have hnone : t.entryAt? (dirs ++ [name]) = none := by
      rw [← hsame, entryAt?, resolve_concat_of_eq hp, hfree, Option.bind_none]
    have hnode := Node.isChildless_newFile 0o644 now
    have hentry := entryAt?_insertChild hpaved.forest hnode hp hfree hinsert
    apply filePut_of_paved (e := (Node.newFile 0o644 now).entry t₁.nextIno) hpaved
    · exact hpaved.forest.insertChild hnode (isEntryName_of_lookupParent hfound) hinsert
    · intro q hq
      rw [hentry, if_neg hq]
    · rw [hentry, if_pos rfl]
    · intro old hold
      rw [hnone] at hold
      cases hold
    · exact fun _ => rfl

private theorem lookupParent_of_refuses (ht : t.Forest) (h : t.Refuses path) :
    ∃ code, t.lookupParent path = .error code := by
  cases hparent : t.lookupParent path with
  | error code => exact ⟨code, rfl⟩
  | ok found =>
    obtain ⟨parent, name⟩ := found
    obtain ⟨dirs, hc, hp, hdir⟩ := lookupParent_eq_ok_iff.1 hparent
    obtain ⟨d, hd, rfl⟩ := ht.exists_entryAt? hp
    have hdirs : t.IsDirectoryAt dirs := by
      refine ⟨d, hd, ?_⟩
      by_contra hfile
      rw [isDirectory_eq_false_of_file hd hfile] at hdir
      cases hdir
    rcases h with hroot | hblocked
    · simp [hc] at hroot
    · rw [hc] at hblocked
      exact absurd hblocked (not_blocked_concat ht hdirs name)

private theorem withParents_of_refuses (h : t.Refuses path) (now : Time) :
    t.withParents path now = t := by
  rcases h with hroot | ⟨q, e, hq, hne, he, hfile⟩
  · rw [withParents, hroot]
    rfl
  · obtain ⟨rest, hrest⟩ := hq
    have hlast : rest ≠ [] := by
      rintro rfl
      exact hne (by rw [← hrest, List.append_nil])
    rw [withParents, ← hrest, List.dropLast_append_of_ne_nil hlast]
    exact tree_of_makeWalk_of_file (entryAt?_eq_some_iff.1 he).1
      (isDirectory_eq_false_of_file he hfile) _

/-- Where no file can be put nothing is made, not even the directories that lead there. -/
theorem putFile_of_refuses (ht : t.Forest) (h : t.Refuses path) (bytes : ByteArray) (now : Time) :
    t.putFile path bytes now = t := by
  obtain ⟨code, herror⟩ := lookupParent_of_refuses ht h
  have hputting := t.putting_putFile path bytes now
  rw [withParents_of_refuses h] at hputting
  generalize t.putFile path bytes now = t' at hputting
  cases hputting with
  | refused => rfl
  | replaced hparent | created hparent =>
    rw [herror] at hparent
    cases hparent

end VolumeFs.Memory.Tree
