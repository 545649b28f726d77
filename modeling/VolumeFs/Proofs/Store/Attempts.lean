import VolumeFs.Proofs.Store.OpenFile
import VolumeFs.Proofs.Tree.NewDirectories

/-!
# Attempts

What one attempt to make directories, or to open a file for its creation, comes to, told by what the
tree holds and by the faults that are still to come.
-/

namespace VolumeFs.Memory

namespace Store

variable {s : Store} {path : String} {mode : UInt32} {dirs : List String} {name : String}

/-- The store after it was asked for directories and failed once more. -/
def refuseMkdirs (s : Store) (path : String) : Store := { s with
  calls.mkdirs := s.calls.mkdirs + 1
  calls.mkdirsPaths := s.calls.mkdirsPaths.push path
  faults.failingMkdirs := s.faults.failingMkdirs - 1 }

theorem mkdirs_of_failing (hup : s.isShutDown = false) (hfailing : 0 < s.faults.failingMkdirs)
    (path : String) (mode : UInt32) :
    s.mkdirs path mode = (.error .eio, s.refuseMkdirs path) := by
  rw [Store.mkdirs, if_neg (ne_true_of_eq_false hup)]
  exact if_pos hfailing

theorem toNat_failingMkdirs_refuseMkdirs (hfailing : 0 < s.faults.failingMkdirs) (path : String) :
    (s.refuseMkdirs path).faults.failingMkdirs.toNat + 1 = s.faults.failingMkdirs.toNat := by
  have hpos : 0 < s.faults.failingMkdirs.toNat := UInt32.lt_iff_toNat_lt.1 hfailing
  have hone : (1 : UInt32) ≤ s.faults.failingMkdirs := UInt32.le_iff_toNat_le.2 hpos
  rw [refuseMkdirs, UInt32.toNat_sub_of_le _ _ hone]
  exact Nat.sub_add_cancel hpos

theorem paved_of_mkdirs (hs : s.tree.Forest) (hup : s.isShutDown = false)
    (hfailing : s.faults.failingMkdirs.toNat = 0) (hnoop : s.faults.mkdirsIsNoop = false)
    (h : s.tree.lookup path = .error .enoent) (mode : UInt32) :
    ∃ s', s.mkdirs path mode = (.ok (), s') ∧ s.tree.Paved s'.tree (components path) mode ∧
      s'.isShutDown = false ∧ s'.nextFd = s.nextFd ∧
      s'.calls = { s.calls with
        mkdirs := s.calls.mkdirs + 1
        mkdirsPaths := s.calls.mkdirsPaths.push path } := by
  obtain ⟨tree, hmade, hpaved⟩ := Tree.paved_of_mkdirs hs h mode s.clock.now
  have hnone : ¬ 0 < s.faults.failingMkdirs := by
    rw [UInt32.lt_iff_toNat_lt, hfailing]
    exact Nat.lt_irrefl 0
  refine ⟨{ s with
    tree
    calls.mkdirs := s.calls.mkdirs + 1
    calls.mkdirsPaths := s.calls.mkdirsPaths.push path }, ?_, hpaved, hup, rfl, rfl⟩
  rw [Store.mkdirs, if_neg (ne_true_of_eq_false hup)]
  simp only [hnone, hnoop, hmade]
  rfl

def refuseOpen (s : Store) : Store := { s with calls.opens := s.calls.opens + 1 }

theorem openPath_of_directory (hup : s.isShutDown = false)
    (h : s.tree.IsDirectoryAt (components path)) :
    s.openPath path Creation.flags mode = (.error .eisdir, s.refuseOpen) := by
  obtain ⟨e, he, hdir⟩ := h
  obtain ⟨hr, he⟩ := Tree.entryAt?_eq_some_iff.1 he
  obtain ⟨node, hnode, hkind⟩ := (Option.any_eq_true _ _).1
    (Tree.isDirectory_iff_entryOf?.2 ⟨e, he, hdir⟩)
  have hexclusive : Creation.flags.contains (.create ||| .exclusive) = false := by decide
  have hwritable : Creation.flags.isWritable = true := by decide
  rw [openPath, if_neg (ne_true_of_eq_false hup)]
  simp only [Tree.lookup_eq_ok_iff.2 hr, hnode, hkind, hexclusive, hwritable]
  rfl

theorem openPath_of_blocked (hup : s.isShutDown = false)
    (h : s.tree.Blocked (components path)) :
    s.openPath path Creation.flags mode = (.error .enotdir, s.refuseOpen) := by
  have hlookup : s.tree.lookup path = .error .enotdir := Tree.walk_eq_enotdir_iff.2 h
  rw [openPath, if_neg (ne_true_of_eq_false hup)]
  simp only [hlookup]
  rfl

theorem openPath_of_missing (hup : s.isShutDown = false) (hpath : components path = dirs ++ [name])
    (h : s.tree.walk rootIno dirs = .error .enoent)
    (hblocked : ¬ s.tree.Blocked (components path)) (mode : UInt32) :
    s.openPath path Creation.flags mode = (.error .enoent, s.refuseOpen) := by
  have hlookup : s.tree.lookup path = .error .enoent := by
    rw [Tree.lookup, hpath]
    exact Tree.walk_concat_of_missing h (hpath ▸ hblocked)
  have hparent : s.tree.lookupParent path = .error .enoent := by
    simp [Tree.lookupParent, hpath, h]
  rw [openPath, if_neg (ne_true_of_eq_false hup)]
  simp only [hlookup, hparent]
  rfl

theorem created_of_parent (hs : s.tree.Forest) (hup : s.isShutDown = false)
    (hpath : components path = dirs ++ [name]) (hparent : s.tree.IsDirectoryAt dirs)
    (hdir : ¬ s.tree.IsDirectoryAt (components path)) (mode : UInt32) :
    ∃ s', s.openPath path Creation.flags mode = (.ok ⟨s.nextFd.toInt⟩, s') ∧
      s.Created s' path mode := by
  obtain ⟨fd, s', hopen⟩ : ∃ fd s', s.openPath path Creation.flags mode = (.ok fd, s') := by
    have hexclusive : Creation.flags.contains (.create ||| .exclusive) = false := by decide
    have htruncate : (Creation.flags.contains .truncate && Creation.flags.isWritable) = true := by
      decide
    have hcreate : Creation.flags.contains .create = true := by decide
    rw [openPath, if_neg (ne_true_of_eq_false hup)]
    cases hlookup : s.tree.lookup path with
    | ok ino =>
      obtain ⟨e, he, rfl⟩ := hs.exists_entryAt? (Tree.lookup_eq_ok_iff.1 hlookup)
      obtain ⟨node, hnode, hentry⟩ :=
        Option.map_eq_some_iff.1 (Tree.entryAt?_eq_some_iff.1 he).2
      have hfile : node.isDirectory = false := by
        rw [Bool.eq_false_iff]
        intro hkind
        refine hdir ⟨e, he, ?_⟩
        rw [← hentry]
        cases node with | mk body => cases body <;> first | rfl | cases hkind
      simp only [hnode, hfile, hexclusive, htruncate, hlookup]
      exact ⟨_, _, rfl⟩
    | error code =>
      have hcode : code = .enoent := by
        refine (Tree.eq_of_walk_eq_error hlookup).resolve_right ?_
        rintro rfl
        have hblocked := Tree.walk_eq_enotdir_iff.1 hlookup
        rw [hpath] at hblocked
        exact Tree.not_blocked_concat hs hparent name hblocked
      obtain ⟨e, he, hkind⟩ := hparent
      obtain ⟨hr, he⟩ := Tree.entryAt?_eq_some_iff.1 he
      have hisDirectory := Tree.isDirectory_iff_entryOf?.2 ⟨e, he, hkind⟩
      obtain ⟨children, hchildren⟩ := Tree.isDirectory_iff.1 hisDirectory
      have hholder : s.tree.lookupParent path = .ok (e.ino, name) :=
        Tree.lookupParent_eq_ok_iff.2 ⟨dirs, hpath, hr, hisDirectory⟩
      simp only [hcode, hlookup, hcreate, hholder, Tree.insertChild,
        Tree.children_eq_ok_iff.2 hchildren]
      exact ⟨_, _, rfl⟩
  obtain ⟨rfl, hcreated⟩ := created_of_openPath hs hopen
  exact ⟨s', hopen, hcreated⟩

end Store
end VolumeFs.Memory
