import VolumeFs.Proofs.Stream.Created
import VolumeFs.Proofs.Volume.Listing
import VolumeFs.Volume.Tree

/-!
# Removal of directories

Removing a directory with all that is below it takes paths from listings, and lists them in their
turn by their normal forms. The normal form of a child named by two dots is the path of the parent
of the directory; without such a child nothing outside of the directory is ever removed.
-/

namespace VolumeFs

open Memory

/-- The trees have the same entries, but for those at the names and below. -/
def Memory.Tree.AgreesOutside (before t : Tree) (top : List String) : Prop :=
  ∀ names, ¬ top <+: names → t.entryAt? names = before.entryAt? names

theorem Volume.keeps_onEach {σ : Type} {keeps : σ → Prop}
    {act : Volume → σ → String → Except VolumeError Bool × Volume × σ} {paths : List String}
    (hact : ∀ v s, ∀ path ∈ paths, keeps s → keeps (act v s path).2.2) (v : Volume) {s : σ}
    (hs : keeps s) : keeps (onEach act v s paths).2.2 := by
  induction paths generalizing v s with
  | nil => exact hs
  | cons path paths ih =>
    have hfirst := hact v s path List.mem_cons_self hs
    have hrest := fun v s path hpath => hact v s path (List.mem_cons_of_mem _ hpath)
    unfold onEach
    generalize act v s path = result at hfirst
    obtain ⟨e | _ | _, v', s'⟩ := result
    · exact hfirst
    · exact hfirst
    · exact ih hrest v' hfirst

/-- A store on which a removal at the names is under way. -/
structure Removing (recursive : Bool) (top : List String) (before : Tree) (s : Interrupted) :
    Prop where
  forest : s.store.tree.Forest
  always : s.Always (before.AgreesOutside · top)
  noDots : recursive = true → top ≠ [] → s.store.tree.entryAt? (top ++ [".."]) = none

section Removing

variable {recursive : Bool} {top : List String} {before : Tree} {s s' : Interrupted}

private theorem Removing.of_guarded {call : Store → Except Errno Unit × Store}
    {answer : Except Errno Unit} (h : Removing recursive top before s)
    (hcall : s.guarded call = (answer, s'))
    (hremoves : (call s.store).2.tree = s.store.tree ∨
      ∃ names, top <+: names ∧ Tree.Removal s.store.tree (call s.store).2.tree names) :
    Removing recursive top before s' := by
  obtain hsame | ⟨names, hpre, hremoval⟩ := hremoves
  · have htree := Interrupted.store_of_guarded hcall (·.tree = s.store.tree) rfl hsame
    refine ⟨htree ▸ h.forest, h.always.of_guarded hcall (hsame ▸ h.always.now), ?_⟩
    rw [htree]
    exact h.noDots
  · refine ⟨?_, h.always.of_guarded hcall ?_, fun hrecursive htop => ?_⟩
    · exact Interrupted.store_of_guarded hcall (·.tree.Forest) h.forest hremoval.forest
    · intro q hq
      rw [hremoval.entryAt?, if_neg, h.always.now q hq]
      rintro rfl
      exact hq hpre
    · have hdots := h.noDots hrecursive htop
      apply Interrupted.store_of_guarded hcall (·.tree.entryAt? (top ++ [".."]) = none) hdots
      rw [hremoval.entryAt?, hdots, ite_self]

private theorem Removing.unlink (h : Removing recursive top before s) {path : String}
    (hpre : top <+: components path) {answer : Except Errno Unit}
    (hunlink : StoreClient.unlink s path = (answer, s')) : Removing recursive top before s' := by
  apply h.of_guarded hunlink
  rcases s.store.tree_unlink path with ⟨e, -, hsame⟩ | ⟨tree, htree, -, hstore⟩
  · exact .inl hsame
  · rw [hstore]
    exact .inr ⟨_, hpre, Tree.removal_of_unlink h.forest htree⟩

private theorem Removing.rmdir (h : Removing recursive top before s) {path : String}
    (hpre : top <+: components path) {answer : Except Errno Unit}
    (hrmdir : StoreClient.rmdir s path = (answer, s')) : Removing recursive top before s' := by
  apply h.of_guarded hrmdir
  rcases s.store.tree_rmdir path with ⟨e, -, hsame⟩ | ⟨tree, htree, -, hstore⟩
  · exact .inl hsame
  · rw [hstore]
    exact .inr ⟨_, hpre, Tree.removal_of_rmdir h.forest htree⟩

/-- Both what is removed at the path of a child and what is listed there stays below the names. -/
theorem Removing.isPrefix_of_isChild (h : Removing true top before s) {path : String}
    (hpre : top <+: components (Path.ofText path)) {status : Status}
    (hchild : IsChild s.store.tree (Path.ofText path) status) :
    top <+: components status.path ∧ top <+: components (Path.ofText status.path) := by
  obtain ⟨name, ⟨hname, hdots⟩, hstatus⟩ := hchild
  rw [hstatus]
  have hbelow : top <+: components (Path.ofText path) ++ [name] :=
    hpre.trans (List.prefix_append _ _)
  constructor
  · rwa [Path.components_join _ hname, Path.ofText_ofText]
  · rw [Path.components_ofText_join _ hname, Path.ofText_ofText]
    split
    · exact hpre
    · split
      · rename_i hup
        -- The parent is outside only where the directory is the one at the top.
        by_cases htop : top = components (Path.ofText path)
        · by_cases hroot : top = []
          · rw [hroot]
            exact List.nil_prefix
          · exfalso
            apply hdots hup
            rw [← htop]
            exact h.forest.entryAt?_eq_none_iff.1 (h.noDots rfl hroot)
        · obtain ⟨rest, hrest⟩ := hpre
          rcases List.eq_nil_or_concat rest with rfl | ⟨front, last, rfl⟩
          · rw [List.append_nil] at hrest
            exact absurd hrest htop
          · rw [← hrest, List.concat_eq_append, ← List.append_assoc, List.dropLast_concat]
            exact List.prefix_append _ _
      · exact hbelow

private theorem Removing.deleteEmptied (h : Removing recursive top before s) {path : String}
    (hpre : top <+: components path) (v : Volume) :
    Removing recursive top before (v.deleteEmptied s path).2.2 := by
  unfold Volume.deleteEmptied
  generalize hrmdir : StoreClient.rmdir s path = result
  obtain ⟨answer, s'⟩ := result
  have h' := h.rmdir hpre hrmdir
  cases answer with
  | ok => exact h'
  | error code =>
    simp only
    split
    · exact h'
    · exact h'

private theorem Removing.deleteTree (h : Removing recursive top before s) {path : String}
    (hraw : top <+: components path) (hnormal : top <+: components (Path.ofText path))
    (depth : Nat) (v : Volume) :
    Removing recursive top before (Volume.deleteTree recursive depth v s path).2.2 := by
  -- The descent ends by its depth. That its calls stay below the names holds on every level, for
  -- the paths of children as for those under which they are listed.
  induction depth generalizing s path v with
  | zero => exact h
  | succ depth ih =>
    unfold Volume.deleteTree
    generalize hunlink : StoreClient.unlink s path = result
    obtain ⟨answer, s₁⟩ := result
    have h₁ := h.unlink hraw hunlink
    cases answer with
    | ok => exact h₁
    | error code =>
      simp only
      split
      · exact h₁
      · split
        · exact h₁
        · obtain ⟨halways, htree, hchildren⟩ := v.children_of_list h₁.always h₁.forest path
          generalize v.list s₁ path = result at halways htree hchildren
          obtain ⟨answer, v₂, s₂⟩ := result
          have h₂ : Removing recursive top before s₂ :=
            ⟨htree ▸ h₁.forest, halways, htree ▸ h₁.noDots⟩
          cases answer with
          | error e =>
            simp only
            split
            · exact h₂
            · exact h₂
          | ok children =>
            simp only
            split
            · exact h₂
            · rename_i hnotEmpty
              have hrest : Removing recursive top before (Volume.onEach
                  (Volume.deleteTree recursive depth) v₂ s₂ (children.map Status.path)).2.2 := by
                -- The children were listed before the first of them was removed.
                apply Volume.keeps_onEach _ v₂ h₂
                intro v s path hpath h
                obtain ⟨status, hstatus, rfl⟩ := List.mem_map.1 hpath
                cases recursive with
                | false =>
                  have hempty : children = [] := by simpa using hnotEmpty
                  rw [hempty] at hstatus
                  cases hstatus
                | true =>
                  obtain ⟨hraw', hnormal'⟩ := h₁.isPrefix_of_isChild hnormal
                    (hchildren children rfl status hstatus)
                  exact ih h hraw' hnormal' v
              generalize Volume.onEach (Volume.deleteTree recursive depth) v₂ s₂
                (children.map Status.path) = result at hrest
              obtain ⟨e | _ | _, v₃, s₃⟩ := result
              · exact hrest
              · exact hrest
              · exact hrest.deleteEmptied hraw v₃

end Removing

/-- Removing a directory leaves all entries outside of it as they were, at every moment and
whichever calls fail, unless the directory itself has a child whose name is two dots. Then the same
is true of a directory above it that has no such child. -/
theorem kept_of_deleteDirectory {store : Store} (hs : Reachable store) (v : Volume) (path : String)
    (options : DeleteOptions) (fate : Nat → Fate) (patience : Nat) {top : List String}
    (htop : top <+: components (Path.ofText path))
    (hdots : options.recursive = true → top ≠ [] →
      store.tree.entryAt? (top ++ [".."]) = none) :
    ∀ later ∈ (v.deleteDirectory (Interrupted.mk store fate patience []) path options).2.2.past,
      store.tree.AgreesOutside later.tree top := by
  have hstart : Removing options.recursive top store.tree (.mk store fate patience []) :=
    ⟨hs.forest, ⟨fun _ _ => rfl, by simp⟩, hdots⟩
  have hend : Removing options.recursive top store.tree
      (v.deleteDirectory (Interrupted.mk store fate patience []) path options).2.2 := by
    unfold Volume.deleteDirectory Volume.withClient
    split
    · exact hstart
    · refine hstart.deleteTree htop ?_ _ _
      rwa [Path.ofText_ofText]
  exact hend.always.past

/-- A directory with a file in it, removed beside another file. -/
theorem kept_of_deleteDirectory_beside_file :
    let before := Store.putFile (Store.putFile (.new {}) "/a/b" "x".toUTF8) "/c" "y".toUTF8
    let removed := Volume.tiny.deleteDirectory
      (Interrupted.mk before (fun _ => .answered) 5 []) "/a" { recursive := true }
    (removed.1 = .ok true ∧ removed.2.2.store.tree.entryAt? ["a"] = none) ∧
      ∀ later ∈ removed.2.2.past,
        (later.tree.entryAt? ["c"]).bind Entry.bytes = some "y".toUTF8 := by
  intro before removed
  have hbefore : (before.tree.entryAt? ["c"]).bind Entry.bytes = some "y".toUTF8 := by
    decide +kernel
  have hreachable : Reachable before :=
    ((Reachable.new {}).step (.putFile "/a/b" "x".toUTF8)).step (.putFile "/c" "y".toUTF8)
  have hdots : before.tree.entryAt? (components (Path.ofText "/a") ++ [".."]) = none := by
    decide +kernel
  have houtside : ¬ components (Path.ofText "/a") <+: ["c"] := by decide +kernel
  have hkept := kept_of_deleteDirectory hreachable Volume.tiny "/a" { recursive := true }
    (fun _ => .answered) 5 List.prefix_rfl (fun _ _ => hdots)
  rw [show Volume.tiny.deleteDirectory (Interrupted.mk before (fun _ => .answered) 5 []) "/a"
    { recursive := true } = removed from rfl] at hkept
  refine ⟨by decide +kernel, fun later hlater => ?_⟩
  rw [hkept later hlater ["c"] houtside, hbefore]

/-- A directory whose child is named by two dots takes a file beside it along. -/
theorem lost_of_deleteDirectory_with_dots :
    let before := Store.putDirectory (Store.putFile (.new {}) "/0" "x".toUTF8) "/a/.."
    let removed := Volume.tiny.deleteDirectory
      (Interrupted.mk before (fun n => if n = 13 then .refused .eio else .answered) 5 []) "/a"
      { recursive := true }
    (before.tree.entryAt? ["0"]).isSome = true ∧
      removed.1 = .error (.ofErrno .eio "/a") ∧ removed.2.2.store.tree.entryAt? ["0"] = none := by
  decide +kernel

end VolumeFs
