import VolumeFs.Proofs.Tree.Operations
import VolumeFs.Proofs.Tree.Rename
import VolumeFs.Store.Memory.Client

/-!
# Stores that can come about

What each call of a store in memory does to its tree, and that the trees of all stores that can
come about by calls and preparations are forests.
-/

namespace VolumeFs.Memory.Store

variable {s s' : Store} {path source target : String} {flags : OpenFlags} {mode : UInt32} {fd : Fd}

/-- How a path comes to stand for an open node, and the tree after that. -/
inductive Opening (s : Store) (path : String) (flags : OpenFlags) (mode : UInt32) :
    Ino → Tree → Prop where
  | found {ino} (hlookup : s.tree.lookup path = .ok ino)
      (hflags : (flags.contains .truncate && flags.isWritable) = false) :
      Opening s path flags mode ino s.tree
  | emptied {ino} (hlookup : s.tree.lookup path = .ok ino)
      (hfile : s.tree.isDirectory ino = false) (hflags : flags.contains .truncate = true) :
      Opening s path flags mode ino (s.tree.modifyNode ino (·.withBytes .empty s.clock.now))
  | created {parent name ino tree} (hlookup : s.tree.lookup path = .error .enoent)
      (hparent : s.tree.lookupParent path = .ok (parent, name))
      (hinsert : s.tree.insertChild parent name (.newFile mode s.clock.now) s.clock.now =
        (.ok ino, tree)) (hflags : flags.contains .create = true) :
      Opening s path flags mode ino tree

theorem openPath_eq_ok (h : s.openPath path flags mode = (.ok fd, s')) :
    s.isShutDown = false ∧ fd = ⟨s.nextFd.toInt⟩ ∧ ∃ ino tree, Opening s path flags mode ino tree ∧
      s' = { s with
        tree
        openFiles := s.openFiles.insert s.nextFd.toInt { ino, flags }
        nextFd := s.nextFd + 1
        calls.opens := s.calls.opens + 1 } := by
  simp only [openPath, openNode] at h
  split at h
  · cases h
  · rename_i hdown
    refine ⟨Bool.eq_false_iff.2 hdown, ?_⟩
    split at h
    · rename_i ino hlookup
      split at h
      · cases h
      · split at h
        · cases h
        · rename_i node hnode
          split at h
          · cases h
          · rename_i hdir
            split at h
            · rename_i hflags
              cases h
              rw [Bool.and_eq_true] at hflags
              refine ⟨rfl, ino, _, .emptied hlookup ?_ hflags.1, rfl⟩
              rw [Bool.and_eq_true, not_and, hflags.2] at hdir
              rw [Tree.isDirectory, hnode, Option.any_some]
              exact Bool.eq_false_iff.2 fun hd => hdir hd rfl
            · rename_i hflags
              cases h
              exact ⟨rfl, ino, _, .found hlookup (Bool.eq_false_iff.2 hflags), rfl⟩
    · rename_i e hlookup
      split at h
      · rename_i hcreate
        split at h
        · cases h
        · rename_i parent name hparent
          split at h
          · cases h
          · rename_i ino tree hinsert
            cases h
            rw [Bool.and_eq_true, decide_eq_true_iff] at hcreate
            obtain ⟨rfl, hflags⟩ := hcreate
            exact ⟨rfl, ino, tree, .created hlookup hparent hinsert hflags, rfl⟩
      · cases h

theorem openPath_eq_error {e : Errno} (h : s.openPath path flags mode = (.error e, s')) :
    s' = s ∨ s' = { s with calls.opens := s.calls.opens + 1 } := by
  simp only [openPath, openNode] at h
  split at h
  · cases h
    exact .inl rfl
  · right
    split at h
    · split at h
      · cases h
        rfl
      · split at h
        · cases h
          rfl
        · split at h
          · cases h
            rfl
          · split at h <;> cases h
    · split at h
      · split at h
        · cases h
          rfl
        · split at h
          · rename_i tree hinsert
            cases h
            rw [Tree.tree_of_insertChild_error hinsert]
          · cases h
      · cases h
        rfl

theorem Opening.forest {ino : Ino} {tree : Tree} (h : Opening s path flags mode ino tree)
    (hs : s.tree.Forest) : tree.Forest := by
  cases h with
  | found => exact hs
  | emptied hlookup hfile =>
    apply hs.modifyNode_withBytes
    rintro rfl
    rw [hs.root_isDirectory] at hfile
    cases hfile
  | @created parent name _ _ hlookup hparent hinsert =>
    obtain ⟨dirs, hc, -, -⟩ := Tree.lookupParent_eq_ok_iff.1 hparent
    have hmem : name ∈ components path := by rw [hc]; simp
    exact hs.insertChild (Node.isChildless_newFile mode s.clock.now)
      (isEntryName_of_mem_components hmem) hinsert

theorem openPath_readOnly_eq_ok (h : s.openPath path .readOnly mode = (.ok fd, s')) :
    s'.tree = s.tree ∧ ∃ file, s'.openFile? fd = some file ∧
      s.tree.lookup path = .ok file.ino := by
  obtain ⟨-, rfl, ino, tree, hopen, rfl⟩ := openPath_eq_ok h
  cases hopen with
  | found hlookup => exact ⟨rfl, _, Std.TreeMap.getElem?_insert_self, hlookup⟩
  | emptied _ _ hflags => exact absurd hflags (by decide)
  | created _ _ _ hflags => exact absurd hflags (by decide)

theorem tree_openPath_readOnly (s : Store) (path : String) (mode : UInt32) :
    (s.openPath path .readOnly mode).2.tree = s.tree := by
  cases h : s.openPath path .readOnly mode with
  | mk result s' =>
    cases result with
    | ok fd => exact (openPath_readOnly_eq_ok h).1
    | error e => rcases openPath_eq_error h with rfl | rfl <;> rfl

theorem forest_openPath (hs : s.tree.Forest) (path : String) (flags : OpenFlags) (mode : UInt32) :
    (s.openPath path flags mode).2.tree.Forest := by
  cases h : s.openPath path flags mode with
  | mk answer s' =>
    cases answer with
    | ok fd =>
      obtain ⟨-, -, ino, tree, hopen, rfl⟩ := openPath_eq_ok h
      exact hopen.forest hs
    | error e => rcases openPath_eq_error h with rfl | rfl <;> exact hs

theorem tree_write (s : Store) (fd : Fd) (bytes : ByteArray) (offset : Nat) :
    (s.write fd bytes offset).2.tree = s.tree ∨ ∃ file held, s.openFile? fd = some file ∧
      s.tree.isDirectory file.ino = false ∧ (s.write fd bytes offset).2.tree =
        s.tree.modifyNode file.ino (·.withBytes held s.clock.now) := by
  simp only [write]
  split
  · exact .inl rfl
  · split
    · exact .inl rfl
    · rename_i file hfile
      split
      · exact .inl rfl
      · split
        · exact .inl rfl
        · exact .inl rfl
        · rename_i held _ _ _ _ hnode
          refine .inr ⟨file, _, hfile, ?_, rfl⟩
          rw [Tree.isDirectory, hnode]
          rfl

@[simp] theorem tree_read (s : Store) (fd : Fd) (buffer : ByteArray) (offset : Nat) :
    (s.read fd buffer offset).2.2.tree = s.tree := by
  simp only [read]
  repeat' split
  all_goals rfl

@[simp] theorem tree_flush (s : Store) (fd : Fd) : (s.flush fd).2.tree = s.tree := by
  simp only [flush]
  repeat' split
  all_goals rfl

@[simp] theorem tree_close (s : Store) (fd : Fd) : (s.close fd).2.tree = s.tree := by
  simp only [close]
  repeat' split
  all_goals rfl

@[simp] theorem tree_getAttr (s : Store) (path : String) : (s.getAttr path).2.tree = s.tree := by
  simp only [getAttr]
  repeat' split
  all_goals rfl

theorem getAttr_of_lookup {ino : Ino} {node : Node} (hup : s.isShutDown = false)
    (hlookup : s.tree.lookup path = .ok ino) (hnode : s.tree.nodes[ino]? = some node) :
    s.getAttr path = (.ok (node.stat ino), s) := by
  simp only [Store.getAttr, hup, Bool.false_eq_true, if_false, hlookup, hnode]

@[simp] theorem tree_readdir (s : Store) (fd : Fd) (limit : Nat) :
    (s.readdir fd limit).2.tree = s.tree := by
  simp only [readdir]
  repeat' split
  all_goals rfl

@[simp] theorem tree_batchGetAttr (s : Store) (fd : Fd) (inodes : List UInt64) :
    (s.batchGetAttr fd inodes).2.tree = s.tree := by
  simp only [batchGetAttr]
  repeat' split
  all_goals rfl

theorem tree_fchmod (s : Store) (fd : Fd) (mode : UInt32) :
    (s.fchmod fd mode).2.tree = s.tree ∨ ∃ ino, (s.fchmod fd mode).2.tree =
      s.tree.modifyNode ino (·.withPermissions mode s.clock.now) := by
  simp only [fchmod]
  split
  · exact .inl rfl
  · split
    · exact .inl rfl
    · split
      · exact .inl rfl
      · exact .inr ⟨_, rfl⟩

theorem tree_mkdirs (s : Store) (path : String) (mode : UInt32) :
    (s.mkdirs path mode).2.tree = s.tree ∨
      (s.mkdirs path mode).2.tree = (s.tree.mkdirs path mode s.clock.now).2 := by
  simp only [mkdirs]
  split
  · exact .inl rfl
  · split
    · exact .inl rfl
    · split
      · exact .inl rfl
      · exact .inr rfl

theorem tree_unlink (s : Store) (path : String) :
    (∃ e, (s.unlink path).1 = .error e ∧ (s.unlink path).2.tree = s.tree) ∨
      ∃ tree, s.tree.unlink path = (.ok (), tree) ∧ (s.unlink path).1 = .ok () ∧
        (s.unlink path).2.tree = tree := by
  simp only [unlink]
  split
  · exact .inl ⟨_, rfl, rfl⟩
  · split
    · exact .inl ⟨_, rfl, rfl⟩
    · cases h : s.tree.unlink path with
      | mk result tree =>
        cases result with
        | ok => exact .inr ⟨tree, rfl, rfl, rfl⟩
        | error e => exact .inl ⟨e, rfl, Tree.tree_of_unlink_error h⟩

theorem tree_rmdir (s : Store) (path : String) :
    (∃ e, (s.rmdir path).1 = .error e ∧ (s.rmdir path).2.tree = s.tree) ∨
      ∃ tree, s.tree.rmdir path = (.ok (), tree) ∧ (s.rmdir path).1 = .ok () ∧
        (s.rmdir path).2.tree = tree := by
  simp only [rmdir]
  split
  · exact .inl ⟨_, rfl, rfl⟩
  · cases h : s.tree.rmdir path with
    | mk result tree =>
      cases result with
      | ok => exact .inr ⟨tree, rfl, rfl, rfl⟩
      | error e => exact .inl ⟨e, rfl, Tree.tree_of_rmdir_error h⟩

theorem tree_rename (s : Store) (source target : String) :
    (∃ e, (s.rename source target).1 = .error e ∧ (s.rename source target).2.tree = s.tree) ∨
      ∃ tree, s.tree.rename source target s.clock.now = (.ok (), tree) ∧
        (s.rename source target).1 = .ok () ∧ (s.rename source target).2.tree = tree := by
  simp only [rename]
  split
  · exact .inl ⟨_, rfl, rfl⟩
  · cases h : s.tree.rename source target s.clock.now with
    | mk result tree =>
      cases result with
      | ok => exact .inr ⟨tree, rfl, rfl, rfl⟩
      | error e => exact .inl ⟨e, rfl, Tree.tree_of_rename_error h⟩

end Store

inductive Operation where
  | openPath (path : String) (flags : OpenFlags) (mode : UInt32)
  | read (fd : Fd) (buffer : ByteArray) (offset : Nat)
  | write (fd : Fd) (bytes : ByteArray) (offset : Nat)
  | flush (fd : Fd)
  | close (fd : Fd)
  | getAttr (path : String)
  | mkdirs (path : String) (mode : UInt32)
  | unlink (path : String)
  | rmdir (path : String)
  | rename (source target : String)
  | readdir (fd : Fd) (limit : Nat)
  | batchGetAttr (fd : Fd) (inodes : List UInt64)
  | fchmod (fd : Fd) (mode : UInt32)
  | shutdown
  | putFile (path : String) (bytes : ByteArray)
  | putDirectory (path : String)
  | setFaults (faults : Faults)
  | setClock (clock : Clock)
  | clearCalls

namespace Operation

def on (s : Store) : Operation → Store
  | openPath path flags mode => (s.openPath path flags mode).2
  | read fd buffer offset => (s.read fd buffer offset).2.2
  | write fd bytes offset => (s.write fd bytes offset).2
  | flush fd => (s.flush fd).2
  | close fd => (s.close fd).2
  | getAttr path => (s.getAttr path).2
  | mkdirs path mode => (s.mkdirs path mode).2
  | unlink path => (s.unlink path).2
  | rmdir path => (s.rmdir path).2
  | rename source target => (s.rename source target).2
  | readdir fd limit => (s.readdir fd limit).2
  | batchGetAttr fd inodes => (s.batchGetAttr fd inodes).2
  | fchmod fd mode => (s.fchmod fd mode).2
  | shutdown => s.shutdown
  | putFile path bytes => s.putFile path bytes
  | putDirectory path => s.putDirectory path
  | setFaults faults => { s with faults }
  | setClock clock => { s with clock }
  | clearCalls => { s with calls := {} }

open Store in
theorem forest_on {s : Store} (hs : s.tree.Forest) (op : Operation) : (op.on s).tree.Forest := by
  cases op with
  | openPath path flags mode => exact forest_openPath hs path flags mode
  | read fd buffer offset => simpa [on] using hs
  | write fd bytes offset =>
    rcases tree_write s fd bytes offset with h | ⟨file, held, -, hfile, h⟩
    · rwa [on, h]
    · rw [on, h]
      apply hs.modifyNode_withBytes
      intro hroot
      rw [hroot, hs.root_isDirectory] at hfile
      cases hfile
  | flush fd => simpa [on] using hs
  | close fd => simpa [on] using hs
  | getAttr path => simpa [on] using hs
  | mkdirs path mode =>
    rcases tree_mkdirs s path mode with h | h
    · rwa [on, h]
    · rw [on, h]
      exact (Tree.growth_mkdirs hs path mode _).forest
  | unlink path =>
    rcases tree_unlink s path with ⟨e, -, h⟩ | ⟨tree, htree, -, h⟩
    · rwa [on, h]
    · rw [on, h]
      exact (Tree.removal_of_unlink hs htree).forest
  | rmdir path =>
    rcases tree_rmdir s path with ⟨e, -, h⟩ | ⟨tree, htree, -, h⟩
    · rwa [on, h]
    · rw [on, h]
      exact (Tree.removal_of_rmdir hs htree).forest
  | rename source target =>
    rcases tree_rename s source target with ⟨e, -, h⟩ | ⟨tree, htree, -, h⟩
    · rwa [on, h]
    · rw [on, h]
      exact (Tree.rename_eq_ok hs htree).1
  | readdir fd limit => simpa [on] using hs
  | batchGetAttr fd inodes => simpa [on] using hs
  | fchmod fd mode =>
    rcases tree_fchmod s fd mode with h | ⟨ino, h⟩
    · rwa [on, h]
    · rw [on, h]
      exact hs.modifyNode_of_same fun _ => rfl
  | putFile path bytes => exact hs.putFile path bytes _
  | putDirectory path => exact (Tree.growth_mkdirs hs path 0o755 _).forest
  | shutdown | setFaults faults | setClock clock | clearCalls => exact hs

end Operation

/-- A store that operations lead to from an empty one. -/
inductive Reachable : Store → Prop where
  | new (clock : Clock) : Reachable (.new clock)
  | step {s} (op : Operation) : Reachable s → Reachable (op.on s)

theorem Reachable.step_of_eq {s s' : Store} (hs : Reachable s) (op : Operation)
    (h : op.on s = s') : Reachable s' := h ▸ hs.step op

theorem Reachable.forest {s : Store} (hs : Reachable s) : s.tree.Forest := by
  induction hs with
  | new clock => exact Tree.forest_new clock.now
  | step op _ ih => exact op.forest_on ih

theorem sub_one_le_of_pos {n : UInt32} (h : 0 < n) : n - 1 ≤ n := by
  have hone : (1 : UInt32) ≤ n := by
    rw [UInt32.le_iff_toNat_le]
    rw [UInt32.lt_iff_toNat_lt] at h
    exact h
  rw [UInt32.le_iff_toNat_le, UInt32.toNat_sub_of_le _ _ hone]
  exact Nat.sub_le _ _

/-- The operation does not set the faults of the store. -/
def Operation.LeavesFaults : Operation → Prop
  | setFaults _ => False
  | _ => True

/-- Of the faults only those that are counted change by themselves, and their numbers go down. -/
structure Store.FaultsWane (s s' : Store) : Prop where
  eq : s'.faults = { s.faults with
    failingMkdirs := s'.faults.failingMkdirs, failingUnlinks := s'.faults.failingUnlinks }
  failingMkdirs : s'.faults.failingMkdirs ≤ s.faults.failingMkdirs
  failingUnlinks : s'.faults.failingUnlinks ≤ s.faults.failingUnlinks

namespace Store.FaultsWane

variable {s s' : Store}

theorem of_eq (h : s'.faults = s.faults) : s.FaultsWane s' :=
  ⟨by rw [h], h ▸ UInt32.le_refl _, h ▸ UInt32.le_refl _⟩

theorem readOverreport (h : s.FaultsWane s') :
    s'.faults.readOverreport = s.faults.readOverreport := by
  rw [h.eq]

theorem eq_empty (h : s.FaultsWane s') (hs : s.faults = {}) : s'.faults = {} := by
  have hmkdirs := h.failingMkdirs
  have hunlinks := h.failingUnlinks
  rw [hs, UInt32.le_zero_iff] at hmkdirs hunlinks
  rw [h.eq, hs, hmkdirs, hunlinks]

end Store.FaultsWane

open Store in
theorem Operation.faultsWane_on {op : Operation} (h : op.LeavesFaults) (s : Store) :
    s.FaultsWane (op.on s) := by
  cases op with
  | mkdirs path mode =>
    simp only [on, Store.mkdirs]
    split
    · exact .of_eq rfl
    · split
      · rename_i hpos
        exact ⟨rfl, sub_one_le_of_pos hpos, UInt32.le_refl _⟩
      · split <;> exact .of_eq rfl
  | unlink path =>
    simp only [on, Store.unlink]
    split
    · exact .of_eq rfl
    · split
      · rename_i hpos
        exact ⟨rfl, UInt32.le_refl _, sub_one_le_of_pos hpos⟩
      · exact .of_eq rfl
  | openPath | read | write | flush | close | getAttr | rmdir | rename | readdir | batchGetAttr
  | fchmod =>
    apply FaultsWane.of_eq
    simp only [on, Store.openPath, Store.openNode, Store.read, Store.write, Store.flush,
      Store.close, Store.getAttr, Store.rmdir, Store.rename, Store.readdir, Store.batchGetAttr,
      Store.fchmod]
    repeat' split
    all_goals rfl
  | setFaults faults => exact absurd h id
  | shutdown | putFile | putDirectory | setClock | clearCalls => exact .of_eq rfl

end VolumeFs.Memory
