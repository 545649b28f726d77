import VolumeFs.Creation
import VolumeFs.Proofs.Tree.Modes

/-!
# Open files of a store

A descriptor that stands, for writing, for the file at a path. While it does, a write changes
the bytes of that file and nothing else that can be found in the tree.
-/

namespace VolumeFs.Memory.Store

variable {s s' : Store} {fd : Fd} {path : String} {e : Entry}

/-- The descriptor stands for the entry at the path and may be written to. -/
structure WritableAt (s : Store) (fd : Fd) (path : String) (e : Entry) : Prop where
  forest : s.tree.Forest
  isUp : s.isShutDown = false
  openFile : ∃ file, s.openFile? fd = some file ∧ file.flags.isWritable = true ∧ file.ino = e.ino
  entryAt? : s.tree.entryAt? (components path) = some e

theorem WritableAt.congr (h : WritableAt s fd path e) (htree : s'.tree = s.tree)
    (hopen : s'.openFile? fd = s.openFile? fd) (hup : s'.isShutDown = s.isShutDown) :
    WritableAt s' fd path e := by
  refine ⟨htree ▸ h.forest, hup.trans h.isUp, ?_, htree ▸ h.entryAt?⟩
  rw [hopen]
  exact h.openFile

def acceptedCount (s : Store) (bytes : ByteArray) : Nat :=
  match s.faults.shortWrite with
  | some limit => min bytes.size limit
  | none => bytes.size

def written (s : Store) (held bytes : ByteArray) (offset : Nat) : ByteArray :=
  Bytes.overlay (Bytes.padded held (offset + s.acceptedCount bytes)) offset
    (bytes.extract 0 (s.acceptedCount bytes))

theorem WritableAt.exists_node (h : WritableAt s fd path e) {held : ByteArray}
    (hheld : e.bytes = some held) : ∃ node, s.tree.nodes[e.ino]? = some node ∧
      node.body = .file held := by
  obtain ⟨node, hnode, hentry⟩ :=
    Option.map_eq_some_iff.1 (Tree.entryAt?_eq_some_iff.1 h.entryAt?).2
  refine ⟨node, hnode, ?_⟩
  rw [← hentry, Node.entry] at hheld
  cases node with | mk body =>
  cases body with
  | directory children => cases hheld
  | file bytes => exact congrArg Body.file (Option.some.inj hheld)

theorem WritableAt.write (h : WritableAt s fd path e) {held : ByteArray}
    (hheld : e.bytes = some held) (bytes : ByteArray) (offset : Nat) :
    ∃ s', s.write fd bytes offset = (.ok (s.acceptedCount bytes), s') ∧
      WritableAt s' fd path { e with bytes := some (s.written held bytes offset) } ∧
      (∀ q, q ≠ components path → s'.tree.entryAt? q = s.tree.entryAt? q) ∧
      s'.faults = s.faults ∧
      s'.calls.writeLog = s.calls.writeLog.push (offset, bytes.size) := by
  obtain ⟨file, hfile, hwritable, hino⟩ := h.openFile
  obtain ⟨node, hnode, hbody⟩ := h.exists_node hheld
  cases node with | mk body mode atime mtime ctime =>
  obtain rfl : body = .file held := hbody
  have hdir : s.tree.isDirectory e.ino = false := by rw [Tree.isDirectory, hnode]; rfl
  have hentry := Tree.entryAt?_modifyNode_withBytes h.forest h.entryAt? hdir
    (s.written held bytes offset) s.clock.now
  have hroot : e.ino ≠ rootIno := by
    intro hroot
    rw [hroot, h.forest.root_isDirectory] at hdir
    cases hdir
  refine ⟨{ s with
    calls.writes := s.calls.writes + 1
    calls.writeLog := s.calls.writeLog.push (offset, bytes.size)
    tree := s.tree.modifyNode e.ino (·.withBytes (s.written held bytes offset) s.clock.now) },
    ?_, ⟨?_, ?_, ?_, ?_⟩, ?_, rfl, rfl⟩
  · simp only [openFile?] at hfile
    simp only [Store.write, h.isUp, openFile?, hfile, hwritable, hino, hnode]
    rfl
  · exact h.forest.modifyNode_withBytes _ hroot
  · exact h.isUp
  · exact ⟨file, hfile, hwritable, hino⟩
  · exact (hentry _).trans (if_pos rfl)
  · intro q hq
    exact (hentry q).trans (if_neg hq)

theorem WritableAt.flush (h : WritableAt s fd path e) :
    ∃ s', s.flush fd = ((match s.faults.flushError with
      | some code => .error code
      | none => .ok ()), s') ∧ WritableAt s' fd path e ∧ s'.tree = s.tree ∧
      s'.faults = s.faults ∧ s'.calls.writeLog = s.calls.writeLog := by
  obtain ⟨file, hfile, hwritable, hino⟩ := h.openFile
  refine ⟨{ s with calls.flushes := s.calls.flushes + 1 }, ?_, h.congr rfl rfl rfl, rfl, rfl, rfl⟩
  simp only [openFile?] at hfile
  simp only [Store.flush, h.isUp, openFile?, hfile]
  cases s.faults.flushError <;> rfl

theorem WritableAt.close (h : WritableAt s fd path e) :
    ∃ s', s.close fd = ((match s.faults.closeError with
      | some code => .error code
      | none => .ok ()), s') ∧ s'.tree = s.tree ∧ s'.isShutDown = false ∧
      s'.faults = s.faults ∧ s'.calls.writeLog = s.calls.writeLog := by
  obtain ⟨file, hfile, -, -⟩ := h.openFile
  refine ⟨{ s with
    calls.closes := s.calls.closes + 1
    openFiles := s.openFiles.erase fd.number }, ?_, rfl, h.isUp, rfl, rfl⟩
  simp only [openFile?] at hfile
  simp only [Store.close, openFile?, hfile]
  cases s.faults.closeError <;> rfl

theorem type_newFile (mode : UInt32) (now : Time) :
    Mode.type (Node.newFile mode now).mode = Mode.regular :=
  Node.type_or_permissions (by decide) mode

/-- The next descriptor stands for an empty file at the path. One that was there before keeps its
number and its mode, a new one has the permissions that were asked for, and nothing else changes. -/
structure Created (s s' : Store) (path : String) (mode : UInt32) : Prop where
  file : ∃ e, s'.WritableAt ⟨s.nextFd.toInt⟩ path e ∧ e.bytes = some .empty ∧
    (∀ old, s.tree.entryAt? (components path) = some old → e.ino = old.ino ∧ e.mode = old.mode) ∧
    (s.tree.entryAt? (components path) = none → e.mode = Mode.regular ||| Mode.permissions mode)
  others : ∀ q, q ≠ components path → s'.tree.entryAt? q = s.tree.entryAt? q
  faults : s'.faults = s.faults
  calls : s'.calls = { s.calls with opens := s.calls.opens + 1 }

theorem created_of_openPath {mode : UInt32} (hs : s.tree.Forest)
    (h : s.openPath path Creation.flags mode = (.ok fd, s')) :
    fd = ⟨s.nextFd.toInt⟩ ∧ s.Created s' path mode := by
  obtain ⟨hup, rfl, ino, tree, hopen, rfl⟩ := openPath_eq_ok h
  have hforest := hopen.forest hs
  have hwritable : Creation.flags.isWritable = true := by decide
  have hfile : (s.openFiles.insert s.nextFd.toInt { ino, flags := Creation.flags })[
      s.nextFd.toInt]? = some { ino, flags := Creation.flags } :=
    Std.TreeMap.getElem?_insert_self
  refine ⟨rfl, ?_⟩
  cases hopen with
  | found _ hflags => exact absurd hflags (by decide)
  | emptied hlookup hdir =>
    obtain ⟨e, he, rfl⟩ := hs.exists_entryAt? (Tree.lookup_eq_ok_iff.1 hlookup)
    have hentry := Tree.entryAt?_modifyNode_withBytes hs he hdir .empty s.clock.now
    refine ⟨⟨{ e with bytes := some .empty }, ⟨hforest, hup, ⟨_, hfile, hwritable, rfl⟩,
      (hentry _).trans (if_pos rfl)⟩, rfl, ?_, ?_⟩, ?_, rfl, rfl⟩
    · intro old hold
      obtain rfl := Option.some.inj (he.symm.trans hold)
      exact ⟨rfl, rfl⟩
    · intro hnone
      rw [he] at hnone
      cases hnone
    · intro q hq
      exact (hentry q).trans (if_neg hq)
  | @created parent name _ _ hlookup hparent hinsert =>
    obtain ⟨dirs, hc, hp, -⟩ := Tree.lookupParent_eq_ok_iff.1 hparent
    obtain ⟨rfl, -, -⟩ := Tree.insertChild_eq_ok hinsert
    have hnone : s.tree.resolve (components path) = none := by
      cases hr : s.tree.resolve (components path) with
      | none => rfl
      | some ino =>
        rw [Tree.lookup_eq_ok_iff.2 hr] at hlookup
        cases hlookup
    have hfree : s.tree.link? parent name = none := by
      rw [← Tree.resolve_concat_of_eq hp, ← hc, hnone]
    have hentry := Tree.entryAt?_insertChild hs (Node.isChildless_newFile mode s.clock.now) hp hfree
      hinsert
    refine ⟨⟨(Node.newFile mode s.clock.now).entry s.tree.nextIno, ⟨hforest, hup,
      ⟨_, hfile, hwritable, rfl⟩, (hentry _).trans (if_pos hc)⟩, rfl, ?_, fun _ => rfl⟩, ?_, rfl,
      rfl⟩
    · intro old hold
      rw [hs.entryAt?_eq_none_iff.2 hnone] at hold
      cases hold
    · intro q hq
      exact (hentry q).trans (if_neg fun hq' => hq (hq'.trans hc.symm))

theorem writableAt_of_openPath {mode : UInt32} (hs : s.tree.Forest)
    (h : s.openPath path Creation.flags mode = (.ok fd, s')) :
    ∃ e, e.bytes = some .empty ∧ WritableAt s' fd path e ∧
      (∀ q, q ≠ components path → s'.tree.entryAt? q = s.tree.entryAt? q) ∧
      (s.tree.entryAt? (components path) = none → Mode.type e.mode = Mode.regular) ∧
      s'.faults = s.faults ∧ s'.calls.writeLog = s.calls.writeLog := by
  obtain ⟨rfl, hcreated⟩ := created_of_openPath hs h
  obtain ⟨e, hwritable, hempty, -, hmode⟩ := hcreated.file
  refine ⟨e, hempty, hwritable, hcreated.others, fun hnone => ?_, hcreated.faults, ?_⟩
  · rw [hmode hnone]
    exact type_newFile mode s.clock.now
  · rw [hcreated.calls]

end VolumeFs.Memory.Store
