import VolumeFs.Proofs.Store.Reachable

/-!
# Calls that fail

A call that fails has changed nothing but the counts of calls and faults. Every reason to fail is
found before the first change, and where changes and checks alternate no check fails any more once
a change was made. The only exception is the call that gives a descriptor back.
-/

namespace VolumeFs.Memory

/-- Whether an operation succeeds, or the code with which it fails. Those who prepare a store cannot
fail. -/
def Operation.answer (s : Store) : Operation → Except Errno Unit
  | openPath path flags mode => (s.openPath path flags mode).1.map fun _ => ()
  | read fd buffer offset => (s.read fd buffer offset).1.map fun _ => ()
  | write fd bytes offset => (s.write fd bytes offset).1.map fun _ => ()
  | flush fd => (s.flush fd).1
  | close fd => (s.close fd).1
  | getAttr path => (s.getAttr path).1.map fun _ => ()
  | mkdirs path mode => (s.mkdirs path mode).1
  | unlink path => (s.unlink path).1
  | rmdir path => (s.rmdir path).1
  | rename source target => (s.rename source target).1
  | readdir fd limit => (s.readdir fd limit).1.map fun _ => ()
  | batchGetAttr fd inodes => (s.batchGetAttr fd inodes).1.map fun _ => ()
  | fchmod fd mode => (s.fchmod fd mode).1
  | shutdown | putFile _ _ | putDirectory _ | setFaults _ | setClock _ | clearCalls => .ok ()

private theorem eq_error_of_map {α : Type} {answer : Except Errno α} {code : Errno}
    (h : answer.map (fun _ => ()) = .error code) : answer = .error code := by
  cases answer with
  | ok => cases h
  | error => cases h; rfl

namespace Store

/-- The nodes and the descriptors of the second store are those of the first one. -/
structure Alike (s s' : Store) : Prop where
  tree : s'.tree = s.tree
  openFiles : s'.openFiles = s.openFiles
  nextFd : s'.nextFd = s.nextFd

variable {s : Store} {path source target : String} {mode : UInt32} {fd : Fd} {code : Errno}

private theorem alike_openPath {flags : OpenFlags}
    (h : (s.openPath path flags mode).1 = .error code) :
    s.Alike (s.openPath path flags mode).2 := by
  generalize hopen : s.openPath path flags mode = outcome at h
  obtain ⟨answer, s'⟩ := outcome
  subst h
  rcases openPath_eq_error hopen with rfl | rfl <;> exact ⟨rfl, rfl, rfl⟩

private theorem alike_write {bytes : ByteArray} {offset : Nat}
    (h : (s.write fd bytes offset).1 = .error code) : s.Alike (s.write fd bytes offset).2 := by
  revert h
  simp only [Store.write]
  repeat' split
  all_goals
    intro h
    first
      | exact ⟨rfl, rfl, rfl⟩
      | cases h

private theorem alike_mkdirs (hs : s.tree.Forest) (h : (s.mkdirs path mode).1 = .error code) :
    s.Alike (s.mkdirs path mode).2 := by
  revert h
  simp only [Store.mkdirs]
  split
  · exact fun _ => ⟨rfl, rfl, rfl⟩
  · split
    · exact fun _ => ⟨rfl, rfl, rfl⟩
    · split
      · exact fun _ => ⟨rfl, rfl, rfl⟩
      · intro h
        generalize hmkdirs : s.tree.mkdirs path mode s.clock.now = outcome at h ⊢
        obtain ⟨answer, tree⟩ := outcome
        subst h
        exact ⟨Tree.tree_of_mkdirs_error hs hmkdirs, rfl, rfl⟩

private theorem tree_of_error {answer : Except Errno Unit} {tree tree' : Tree}
    {changed : Tree → Prop}
    (hcases : (∃ e, answer = .error e ∧ tree' = tree) ∨
      ∃ t, changed t ∧ answer = .ok () ∧ tree' = t)
    (h : answer = .error code) : tree' = tree := by
  obtain ⟨-, -, htree⟩ | ⟨-, -, hok, -⟩ := hcases
  · exact htree
  · rw [hok] at h
    cases h

private theorem alike_unlink (h : (s.unlink path).1 = .error code) : s.Alike (s.unlink path).2 := by
  refine ⟨tree_of_error (tree_unlink s path) h, ?_, ?_⟩
  all_goals
    simp only [Store.unlink]
    repeat' split
    all_goals rfl

private theorem alike_rmdir (h : (s.rmdir path).1 = .error code) : s.Alike (s.rmdir path).2 := by
  refine ⟨tree_of_error (tree_rmdir s path) h, ?_, ?_⟩
  all_goals
    simp only [Store.rmdir]
    split <;> rfl

private theorem alike_rename (h : (s.rename source target).1 = .error code) :
    s.Alike (s.rename source target).2 := by
  refine ⟨tree_of_error (tree_rename s source target) h, ?_, ?_⟩
  all_goals
    simp only [Store.rename]
    split <;> rfl

/-- The entries of a page are always read back from their layout, so that the cursor moves only in
a call that succeeds. -/
theorem alike_readdir {limit : Nat} (h : (s.readdir fd limit).1 = .error code) :
    s.Alike (s.readdir fd limit).2 := by
  revert h
  simp only [Store.readdir]
  split
  · exact fun _ => ⟨rfl, rfl, rfl⟩
  · split
    · exact fun _ => ⟨rfl, rfl, rfl⟩
    · split
      · exact fun _ => ⟨rfl, rfl, rfl⟩
      · split
        · exact fun _ => ⟨rfl, rfl, rfl⟩
        · intro h
          rw [transferred, Dirent.decodeAll_flatMap_encode] at h
          · cases h
          · intro d hd
            obtain ⟨child, -, rfl⟩ := List.mem_map.1 hd
            exact Dirent.nameLength_ofName_le _ _ _

private theorem alike_fchmod (h : (s.fchmod fd mode).1 = .error code) :
    s.Alike (s.fchmod fd mode).2 := by
  revert h
  simp only [Store.fchmod]
  repeat' split
  all_goals
    intro h
    first
      | exact ⟨rfl, rfl, rfl⟩
      | cases h

private theorem alike_close (h : s.openFile? fd = none) : s.Alike (s.close fd).2 := by
  simp only [openFile?] at h
  simp only [Store.close, openFile?, h]
  exact ⟨rfl, rfl, rfl⟩

private theorem close_of_error {file : OpenFile} (hfile : s.openFile? fd = some file)
    (h : (s.close fd).1 = .error code) :
    s.faults.closeError = some code ∧ (s.close fd).2.tree = s.tree ∧
      (s.close fd).2.openFiles = s.openFiles.erase fd.number ∧
      (s.close fd).2.nextFd = s.nextFd := by
  simp only [openFile?] at hfile
  simp only [Store.close, openFile?, hfile] at h ⊢
  split at h
  · rename_i e herror
    cases h
    rw [herror]
    exact ⟨rfl, rfl, rfl, rfl⟩
  · cases h

end Store

open Store in
private theorem Operation.alike_of_error {s : Store} (hs : s.tree.Forest) {op : Operation}
    {code : Errno} (hclose : ∀ fd, op ≠ .close fd) (h : op.answer s = .error code) :
    s.Alike (op.on s) := by
  cases op with
  | openPath path flags mode => exact alike_openPath (eq_error_of_map h)
  | write fd bytes offset => exact alike_write (eq_error_of_map h)
  | mkdirs path mode => exact alike_mkdirs hs h
  | unlink path => exact alike_unlink h
  | rmdir path => exact alike_rmdir h
  | rename source target => exact alike_rename h
  | readdir fd limit => exact alike_readdir (eq_error_of_map h)
  | fchmod fd mode => exact alike_fchmod h
  | close fd => exact absurd rfl (hclose fd)
  | read | flush | getAttr | batchGetAttr =>
    simp only [on, Store.read, Store.flush, Store.getAttr, Store.batchGetAttr]
    repeat' split
    all_goals exact ⟨rfl, rfl, rfl⟩
  | shutdown | putFile | putDirectory | setFaults | setClock | clearCalls => cases h

/-- A call that fails leaves all nodes, the next number of a node and the open descriptors as they
were, whatever the faults of the store. Only a descriptor that was to be given back is given back
nevertheless, if the call fails because it was told to. -/
theorem unchanged_of_error {s : Store} (hs : Reachable s) (op : Operation) {code : Errno}
    (h : op.answer s = .error code) :
    (op.on s).tree = s.tree ∧ (op.on s).nextFd = s.nextFd ∧
      ((∀ fd, op = .close fd → s.openFile? fd = none) → (op.on s).openFiles = s.openFiles) ∧
      ∀ fd file, op = .close fd → s.openFile? fd = some file →
        s.faults.closeError = some code ∧ (op.on s).openFiles = s.openFiles.erase fd.number := by
  by_cases hclose : ∃ fd, op = .close fd
  · obtain ⟨fd, rfl⟩ := hclose
    cases hfile : s.openFile? fd with
    | none =>
      have halike := Store.alike_close hfile
      refine ⟨halike.tree, halike.nextFd, fun _ => halike.openFiles, ?_⟩
      rintro fd' file ⟨⟩ hfile'
      rw [hfile] at hfile'
      cases hfile'
    | some file =>
      obtain ⟨hfault, htree, hfiles, hnext⟩ := Store.close_of_error hfile h
      refine ⟨htree, hnext, fun hnone => ?_, ?_⟩
      · rw [hnone fd rfl] at hfile
        cases hfile
      · rintro fd' file' ⟨⟩ -
        exact ⟨hfault, hfiles⟩
  · rw [not_exists] at hclose
    have halike := Operation.alike_of_error hs.forest hclose h
    exact ⟨halike.tree, halike.nextFd, fun _ => halike.openFiles,
      fun fd _ hop _ => absurd hop (hclose fd)⟩

/-- Directories below a file cannot be made, and a store that was told to fail takes a descriptor
back nevertheless. -/
theorem unchanged_of_error_below_file :
    let files := (Operation.putFile "/d/f" .empty).on (.new {})
    let made := (Operation.mkdirs "/d/f/x/y" 0o755).on files
    let opened := (Operation.openPath "/d/f" .readOnly 0).on files
    let failing := (Operation.setFaults { closeError := some .eio }).on opened
    let closed := (Operation.close ⟨3⟩).on failing
    made.tree = files.tree ∧ made.openFiles = files.openFiles ∧
      closed.tree = failing.tree ∧ closed.openFiles = failing.openFiles.erase 3 := by
  intro files made opened failing closed
  have hfiles : Reachable files := (Reachable.new {}).step _
  have hfailing : Reachable failing := (hfiles.step _).step _
  have hmkdirs : (Operation.mkdirs "/d/f/x/y" 0o755).answer files = .error .enotdir := by
    decide +kernel
  have hclose : (Operation.close ⟨3⟩).answer failing = .error .eio := by decide +kernel
  have hopen : (failing.openFile? ⟨3⟩).isSome := by decide +kernel
  obtain ⟨file, hfile⟩ := Option.isSome_iff_exists.1 hopen
  obtain ⟨htree, -, hopenFiles, -⟩ := unchanged_of_error hfiles (.mkdirs "/d/f/x/y" 0o755) hmkdirs
  obtain ⟨htree', -, -, hclosed⟩ := unchanged_of_error hfailing (.close ⟨3⟩) hclose
  exact ⟨htree, hopenFiles (fun fd hfd => by cases hfd), htree', (hclosed ⟨3⟩ file rfl hfile).2⟩

end VolumeFs.Memory
