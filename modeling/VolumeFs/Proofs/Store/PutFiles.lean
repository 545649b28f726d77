import VolumeFs.Proofs.Tree.Modes
import VolumeFs.Proofs.Tree.NewFiles

/-!
# Files put into a store

Whoever prepares a store puts files into it, whatever was done to it before. A file is there
afterwards with its bytes, in directories, and no other path leads elsewhere, unless the entry in
its place has the attributes of a directory: these stay, and all that the directory held is hidden.
-/

namespace VolumeFs.Memory

namespace Tree

variable {t : Tree} {path : String} {names : List String} {e : Entry} {stat : Stat}

def attributes? (t : Tree) (path : String) : Option Stat :=
  match t.lookup path with
  | .error _ => none
  | .ok ino => t.nodes[ino]?.map (·.stat ino)

/-- The entry at the path has the attributes of a directory, whatever it holds. -/
def TellsDirectory (t : Tree) (path : String) : Prop :=
  ∃ stat, t.attributes? path = some stat ∧ stat.isDirectory = true

theorem attributes?_eq_some_iff : t.attributes? path = some stat ↔
    ∃ ino node, t.lookup path = .ok ino ∧ t.nodes[ino]? = some node ∧ node.stat ino = stat := by
  unfold attributes?
  cases t.lookup path with
  | error code => simp
  | ok ino => simp

private theorem exists_attributes? (h : t.entryAt? (components path) = some e) :
    ∃ stat, t.attributes? path = some stat ∧ stat.mode = e.mode ∧
      ∀ bytes, e.bytes = some bytes → stat.size = .ofNat bytes.size := by
  obtain ⟨hr, he⟩ := entryAt?_eq_some_iff.1 h
  obtain ⟨node, hnode, hentry⟩ := Option.map_eq_some_iff.1 he
  refine ⟨node.stat e.ino, attributes?_eq_some_iff.2
    ⟨e.ino, node, lookup_eq_ok_iff.2 hr, hnode, rfl⟩, ?_⟩
  rw [← hentry]
  refine ⟨rfl, fun bytes hbytes => ?_⟩
  cases node with | mk body =>
  cases body with
  | directory children => cases hbytes
  | file held =>
    cases hbytes
    rfl

theorem tellsDirectory_iff : t.TellsDirectory path ↔
    ∃ e, t.entryAt? (components path) = some e ∧ Mode.type e.mode = Mode.directory := by
  constructor
  · rintro ⟨stat, hstat, hdir⟩
    obtain ⟨ino, node, hlookup, hnode, rfl⟩ := attributes?_eq_some_iff.1 hstat
    refine ⟨node.entry ino, ?_, beq_iff_eq.1 hdir⟩
    rw [entryAt?, lookup_eq_ok_iff.1 hlookup, Option.bind_some, entryOf?, hnode, Option.map_some]
  · rintro ⟨e, he, htype⟩
    obtain ⟨stat, hstat, hmode, -⟩ := exists_attributes? he
    exact ⟨stat, hstat, by rw [Stat.isDirectory, hmode, htype, beq_self_eq_true]⟩

private theorem Typed.type_of_entryAt? (h : t.Typed) (he : t.entryAt? names = some e) :
    Mode.type e.mode = Mode.directory ∨ Mode.type e.mode = Mode.regular ∧ e.bytes ≠ none := by
  obtain ⟨node, hnode, hentry⟩ := Option.map_eq_some_iff.1 (entryAt?_eq_some_iff.1 he).2
  rw [← hentry]
  refine (h e.ino node hnode).imp_right fun ⟨htype, hfile⟩ => ⟨htype, ?_⟩
  cases node with | mk body =>
  cases body with
  | directory children => cases hfile
  | file held => exact Option.some_ne_none held

private theorem tellsDirectory_of_below (ht : t.Forest) (htyped : t.Typed) {rest : List String}
    (hrest : rest ≠ []) (h : t.entryAt? (components path ++ rest) = some e) :
    t.TellsDirectory path := by
  cases hpath : t.entryAt? (components path) with
  | none =>
    rw [entryAt?_append_of_none (ht.entryAt?_eq_none_iff.1 hpath)] at h
    cases h
  | some d =>
    refine tellsDirectory_iff.2 ⟨d, hpath, (htyped.type_of_entryAt? hpath).resolve_right ?_⟩
    rintro ⟨-, hfile⟩
    rw [entryAt?_append_of_file hpath hfile hrest] at h
    cases h

end Tree

namespace Store

variable {s s' : Store} {path other : String} {bytes : ByteArray} {stat : Stat}

private theorem getAttr_of_attributes? (hup : s.isShutDown = false)
    (h : s.tree.attributes? path = some stat) : s.getAttr path = (.ok stat, s) := by
  obtain ⟨ino, node, hlookup, hnode, rfl⟩ := Tree.attributes?_eq_some_iff.1 h
  exact getAttr_of_lookup hup hlookup hnode

/-- If the path led to an entry, it still leads to it, and the entry has the same bytes. -/
def StillFinds (s s' : Store) (path : String) : Prop :=
  ∀ ino, s.tree.lookup path = .ok ino →
    s'.tree.lookup path = .ok ino ∧ s'.contents? path = s.contents? path

/-- A regular file with the bytes is at the path, in directories, and all other paths lead where
they led before. -/
structure Gains (s s' : Store) (path : String) (bytes : ByteArray) : Prop where
  attributes : ∃ stat, s'.tree.attributes? path = some stat ∧ stat.isFile = true ∧
    stat.size = .ofNat bytes.size ∧
    (s'.isShutDown = false → s'.getAttr path = (.ok stat, s'))
  contents : s'.contents? path = some bytes
  ancestors : ∀ names, names <+: components path → names ≠ components path →
    s'.tree.IsDirectoryAt names
  others : ∀ other, components other ≠ components path → s.StillFinds s' other

/-- The bytes are at the path under the attributes of a directory, nothing is found below it any
more, and what is not below it is found as before. -/
structure Hides (s s' : Store) (path : String) (bytes : ByteArray) : Prop where
  attributes : s'.tree.TellsDirectory path
  contents : s'.contents? path = some bytes
  below : ∀ other, components path <+: components other → components other ≠ components path →
    ∀ ino, s'.tree.lookup other ≠ .ok ino
  beside : ∀ other, ¬ components path <+: components other → s.StillFinds s' other

private theorem stillFinds_of_entryAt? (ht : s.tree.Forest) (ht' : s'.tree.Forest)
    (h : ∀ e, s.tree.entryAt? (components other) = some e →
      s'.tree.entryAt? (components other) = some e) : s.StillFinds s' other := by
  intro ino hlookup
  obtain ⟨e, he, rfl⟩ := ht.exists_entryAt? (Tree.lookup_eq_ok_iff.1 hlookup)
  have he' := h e he
  refine ⟨Tree.lookup_eq_ok_iff.2 (Tree.entryAt?_eq_some_iff.1 he').1, ?_⟩
  rw [contents?, contents?, Tree.contents?_eq ht', Tree.contents?_eq ht, he, he']

section Putting

variable (hs : s.tree.Forest)
  (hput : s.tree.FilePut s'.tree (components path) bytes) (hs' : s'.tree.Forest)
include hput hs'

private theorem contents?_of_filePut : s'.contents? path = some bytes := by
  obtain ⟨e, he, hbytes, -⟩ := hput.file
  rw [contents?, Tree.contents?_eq hs', he, Option.bind_some, hbytes]

include hs

private theorem stillFinds_of_beside (h : ¬ components path <+: components other) :
    s.StillFinds s' other :=
  stillFinds_of_entryAt? hs hs' fun _ he => hput.beside h he

private theorem gains_of_filePut (htyped : s.tree.Typed) (hdir : ¬ s.tree.TellsDirectory path) :
    s.Gains s' path bytes := by
  obtain ⟨e, he, hbytes, hold, hnew⟩ := hput.file
  obtain ⟨stat, hstat, hmode, hsize⟩ := Tree.exists_attributes? he
  have hregular : Mode.type e.mode = Mode.regular := by
    cases hwas : s.tree.entryAt? (components path) with
    | none =>
      rw [hnew hwas]
      exact Node.type_or_permissions (by decide) _
    | some old =>
      rw [(hold old hwas).2]
      refine ((htyped.type_of_entryAt? hwas).resolve_left fun htype => hdir ?_).1
      exact Tree.tellsDirectory_iff.2 ⟨old, hwas, htype⟩
  constructor
  · refine ⟨stat, hstat, ?_, hsize bytes hbytes, fun hup => getAttr_of_attributes? hup hstat⟩
    rw [Stat.isFile, hmode, hregular, beq_self_eq_true]
  · exact contents?_of_filePut hput hs'
  · intro names hpre hne
    obtain ⟨d, hd, hkind, -⟩ := hput.hasDirectory hpre hne
    exact ⟨d, hd, hkind⟩
  · intro other hother
    by_cases hpre : components path <+: components other
    · -- Nothing was below a path that did not tell a directory.
      obtain ⟨rest, hrest⟩ := hpre
      apply stillFinds_of_entryAt? hs hs'
      intro d hd
      have hne : rest ≠ [] := by
        rintro rfl
        exact hother (by rw [← hrest, List.append_nil])
      rw [← hrest] at hd
      exact absurd (Tree.tellsDirectory_of_below hs htyped hne hd) hdir
    · exact stillFinds_of_beside hs hput hs' hpre

private theorem hides_of_filePut (hdir : s.tree.TellsDirectory path) : s.Hides s' path bytes := by
  obtain ⟨old, hwas, htype⟩ := Tree.tellsDirectory_iff.1 hdir
  obtain ⟨e, he, -, hold, -⟩ := hput.file
  constructor
  · exact Tree.tellsDirectory_iff.2 ⟨e, he, (hold old hwas).2 ▸ htype⟩
  · exact contents?_of_filePut hput hs'
  · rintro other ⟨rest, hrest⟩ hne ino hlookup
    have hnone : s'.tree.entryAt? (components other) = none := by
      rw [← hrest]
      apply hput.below
      rintro rfl
      exact hne (by rw [← hrest, List.append_nil])
    rw [hs'.entryAt?_eq_none_iff, Tree.lookup_eq_ok_iff.1 hlookup] at hnone
    cases hnone
  · exact fun other => stillFinds_of_beside hs hput hs'

end Putting

private theorem Gains.not_tellsDirectory (h : s.Gains s' path bytes) :
    ¬ s'.tree.TellsDirectory path := by
  rintro ⟨stat, hstat, hdir⟩
  obtain ⟨stat', hstat', hfile, -⟩ := h.attributes
  rw [hstat, Option.some.injEq] at hstat'
  rw [← hstat', Stat.isFile, beq_iff_eq.1 hdir] at hfile
  exact absurd hfile (by decide)

end Store

/-- A file that is put into a store, whatever was done to the store before, is at its path
afterwards and harms nothing else, if and only if there was no entry with the attributes of a
directory in its place. Such an entry stands for the file from then on, with the attributes of a
directory, and hides all that was below it. At the root and where a file stands on the way nothing
is put, and the tree is as it was. -/
theorem gains_of_putFile {s : Store} (hs : Reachable s) (path : String) (bytes : ByteArray) :
    let s' := s.putFile path bytes
    (s.tree.Refuses path → s'.tree = s.tree) ∧
      (¬ s.tree.Refuses path →
        (s.Gains s' path bytes ↔ ¬ s.tree.TellsDirectory path) ∧
          (s.tree.TellsDirectory path → s.Hides s' path bytes)) := by
  intro s'
  have ht := hs.forest
  have ht' : s'.tree.Forest := ht.putFile path bytes s.clock.now
  refine ⟨fun h => Tree.putFile_of_refuses ht h bytes s.clock.now, fun h => ?_⟩
  have hput : s.tree.FilePut s'.tree (components path) bytes :=
    Tree.filePut_of_putFile ht h bytes s.clock.now
  refine ⟨⟨fun hgains hdir => ?_, ?_⟩, ?_⟩
  · exact hgains.not_tellsDirectory (Store.hides_of_filePut ht hput ht' hdir).attributes
  · exact Store.gains_of_filePut ht hput ht' hs.typed
  · exact Store.hides_of_filePut ht hput ht'

/-- A file that is put two levels below a directory. Below the file that was there nothing is
put. -/
theorem gains_of_putFile_missing_parent :
    let s := (Operation.putFile "/d/f" ⟨#[1]⟩).on (.new {})
    (Reachable s ∧ ¬ s.tree.Refuses "/d/e/g" ∧ ¬ s.tree.TellsDirectory "/d/e/g" ∧
        s.tree.Refuses "/d/f/g") ∧
      s.Gains (s.putFile "/d/e/g" ⟨#[2]⟩) "/d/e/g" ⟨#[2]⟩ ∧
      (s.putFile "/d/f/g" ⟨#[2]⟩).tree = s.tree := by
  intro s
  have hs : Reachable s := (Reachable.new {}).step _
  have hpath : components "/d/e/g" = ["d", "e", "g"] := by decide +kernel
  have hpath' : components "/d/f/g" = ["d", "f", "g"] := by decide +kernel
  have hfree : ¬ s.tree.Refuses "/d/e/g" := by
    rw [Tree.Refuses, hpath, not_or]
    exact ⟨by simp, (Tree.walk_eq_enoent_iff.1 (by decide +kernel)).2⟩
  have hdir : ¬ s.tree.TellsDirectory "/d/e/g" := by
    rw [Tree.tellsDirectory_iff, hpath]
    rintro ⟨e, he, -⟩
    rw [hs.forest.entryAt?_eq_none_iff.2 (by decide +kernel)] at he
    cases he
  have hblocked : s.tree.Refuses "/d/f/g" := by
    rw [Tree.Refuses, hpath']
    exact .inr (Tree.walk_eq_enotdir_iff.1 (by decide +kernel))
  exact ⟨⟨hs, hfree, hdir, hblocked⟩, ((gains_of_putFile hs "/d/e/g" ⟨#[2]⟩).2 hfree).1.2 hdir,
    (gains_of_putFile hs "/d/f/g" ⟨#[2]⟩).1 hblocked⟩

/-- A file that is put in the place of a directory: the tree is another one, but the file has the
attributes of the directory, and what the directory held is not found any more. -/
theorem directory_hidden_by_putFile :
    let s := (Operation.putFile "/d/f" ⟨#[1]⟩).on (.new {})
    let s' := s.putFile "/d" ⟨#[2]⟩
    Reachable s ∧ s.contains "/d/f" = true ∧ s'.contains "/d/f" = false ∧
      (s'.getAttr "/d").1.map (·.isDirectory) = .ok true ∧
      s'.tree ≠ s.tree ∧ ¬ s.Gains s' "/d" ⟨#[2]⟩ := by
  intro s s'
  have hs : Reachable s := (Reachable.new {}).step _
  have hbefore : s.contains "/d/f" = true := by decide +kernel
  have hafter : s'.contains "/d/f" = false := by decide +kernel
  have hattributes : (s'.getAttr "/d").1.map (·.isDirectory) = .ok true := by decide +kernel
  refine ⟨hs, hbefore, hafter, hattributes, fun htree => ?_, fun hgains => ?_⟩
  · rw [Store.contains, htree] at hafter
    exact absurd (hafter.symm.trans hbefore) (by decide)
  · have hother : components "/d/f" ≠ components "/d" := by decide +kernel
    have hfound : s.tree.lookup "/d/f" = .ok 3 := by decide +kernel
    rw [Store.contains, (hgains.others "/d/f" hother 3 hfound).1] at hafter
    cases hafter

end VolumeFs.Memory
