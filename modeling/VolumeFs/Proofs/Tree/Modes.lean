import VolumeFs.Proofs.Store.Reachable

/-!
# Modes of nodes

Every node of a tree has the mode of a directory or of a file, whatever was done to the tree. Only
the preparation of a store can put the bytes of a file in the place of a directory.
-/

namespace VolumeFs.Memory

/-- A directory has the mode of one. A file has that of a file, or of the directory whose place it
took. -/
def Node.IsTyped (n : Node) : Prop :=
  Mode.type n.mode = Mode.directory ∨ Mode.type n.mode = Mode.regular ∧ n.isDirectory = false

namespace Node

variable {n : Node}

theorem type_or_permissions {type : UInt32} (h : Mode.type type = type) (mode : UInt32) :
    Mode.type (type ||| Mode.permissions mode) = type := by
  have hmask : (~~~Mode.typeMask).toBitVec &&& Mode.typeMask.toBitVec = 0#32 := by decide
  have htype : type.toBitVec &&& Mode.typeMask.toBitVec = type.toBitVec := by
    rw [← UInt32.toBitVec_and]
    exact congrArg UInt32.toBitVec h
  show (type ||| mode &&& ~~~Mode.typeMask) &&& Mode.typeMask = type
  rw [← UInt32.toBitVec_inj, UInt32.toBitVec_and, UInt32.toBitVec_or, UInt32.toBitVec_and,
    BitVec.and_or_distrib_right, BitVec.and_assoc, hmask, htype, BitVec.and_zero, BitVec.or_zero]

theorem type_withPermissions (n : Node) (mode : UInt32) (now : Time) :
    Mode.type (n.withPermissions mode now).mode = Mode.type n.mode := by
  refine type_or_permissions ?_ mode
  show n.mode &&& Mode.typeMask &&& Mode.typeMask = n.mode &&& Mode.typeMask
  rw [UInt32.and_assoc, UInt32.and_self]

private theorem isTyped_newDirectory (mode : UInt32) (now : Time) :
    (newDirectory mode now).IsTyped :=
  .inl (type_or_permissions (by decide) mode)

private theorem isTyped_newFile (mode : UInt32) (now : Time) : (newFile mode now).IsTyped :=
  .inr ⟨type_or_permissions (by decide) mode, rfl⟩

private theorem IsTyped.withBytes (h : n.IsTyped) (bytes : ByteArray) (now : Time) :
    (n.withBytes bytes now).IsTyped := by
  rcases h with h | ⟨h, -⟩
  · exact .inl h
  · exact .inr ⟨h, rfl⟩

private theorem IsTyped.withPermissions (h : n.IsTyped) (mode : UInt32) (now : Time) :
    (n.withPermissions mode now).IsTyped := by
  unfold IsTyped
  rw [type_withPermissions]
  exact h

private theorem IsTyped.modifyChildren (h : n.IsTyped)
    (change : Std.TreeMap String Ino → Std.TreeMap String Ino) :
    (n.modifyChildren change).IsTyped := by
  obtain ⟨body, mode, atime, mtime, ctime⟩ := n
  cases body <;> exact h

end Node

namespace Tree

def Typed (t : Tree) : Prop := ∀ (ino : Ino) (node : Node), t.nodes[ino]? = some node → node.IsTyped

variable {t : Tree} {ino : Ino} {now : Time}

private theorem typed_new (now : Time) : (new now).Typed := by
  intro ino node hnode
  rw [getElem?_nodes_new] at hnode
  split at hnode
  · cases hnode
    exact Node.isTyped_newDirectory 0o755 now
  · cases hnode

private theorem Typed.modifyNode (h : t.Typed) {change : Node → Node}
    (hchange : ∀ n, n.IsTyped → (change n).IsTyped) : (t.modifyNode ino change).Typed := by
  intro other node hnode
  rw [getElem?_nodes_modifyNode] at hnode
  split at hnode
  · obtain ⟨n, hn, rfl⟩ := Option.map_eq_some_iff.1 hnode
    exact hchange n (h ino n hn)
  · exact h other node hnode

private theorem Typed.erase (h : t.Typed) (ino nextIno : Ino) :
    (Tree.mk (t.nodes.erase ino) nextIno).Typed := by
  intro other node hnode
  rw [Std.TreeMap.getElem?_erase] at hnode
  split at hnode
  · cases hnode
  · exact h other node hnode

private theorem Typed.unlinkChild (h : t.Typed) (parent : Ino) (name : String) :
    (t.unlinkChild parent name).Typed :=
  h.modifyNode fun _ hn => hn.modifyChildren _

private theorem Typed.linkChild (h : t.Typed) (parent : Ino) (name : String) (ino : Ino) :
    (t.linkChild parent name ino).Typed :=
  h.modifyNode fun _ hn => hn.modifyChildren _

private theorem Typed.insertChild (h : t.Typed) {node : Node} (hnode : node.IsTyped) (parent : Ino)
    (name : String) (now : Time) : (t.insertChild parent name node now).2.Typed := by
  unfold Tree.insertChild
  split
  · exact h
  · have hinserted : (Tree.mk ((t.linkChild parent name t.nextIno).nodes.insert t.nextIno node)
        (t.nextIno + 1)).Typed := by
      intro other node' hnode'
      rw [Std.TreeMap.getElem?_insert] at hnode'
      split at hnode'
      · cases hnode'
        exact hnode
      · exact h.linkChild parent name t.nextIno other node' hnode'
    exact hinserted.modifyNode fun _ hn => hn

private theorem Typed.makeWalk (h : t.Typed) (ino : Ino) (made : Bool) (mode : UInt32)
    (names : List String) (now : Time) : (t.makeWalk ino made mode now names).2.Typed := by
  induction names generalizing t ino made with
  | nil => exact h
  | cons name names ih =>
    unfold Tree.makeWalk
    split
    · exact h
    · split
      · exact ih h _ _
      · have hinserted := h.insertChild (Node.isTyped_newDirectory mode now) ino name now
        split
        · rename_i hinsert
          rwa [hinsert] at hinserted
        · rename_i hinsert
          rw [hinsert] at hinserted
          exact ih hinserted _ _

private theorem Typed.mkdirs (h : t.Typed) (path : String) (mode : UInt32) :
    (t.mkdirs path mode now).2.Typed := by
  have hwalk := h.makeWalk rootIno false mode (components path) now
  unfold Tree.mkdirs
  split
  · rename_i hmade
    rwa [hmade] at hwalk
  · rename_i hmade
    rw [hmade] at hwalk
    repeat' split
    all_goals exact hwalk

private theorem Typed.unlink (h : t.Typed) (path : String) : (t.unlink path).2.Typed := by
  unfold Tree.unlink
  repeat' split
  · exact h
  · exact h
  · exact h
  · exact (h.unlinkChild _ _).erase _ _

private theorem Typed.rmdir (h : t.Typed) (path : String) : (t.rmdir path).2.Typed := by
  unfold Tree.rmdir
  repeat' split
  · exact h
  · exact h
  · exact h
  · exact h
  · exact h
  · exact (h.unlinkChild _ _).erase _ _

private theorem Typed.rename (h : t.Typed) (source target : String) (now : Time) :
    (t.rename source target now).2.Typed := by
  unfold Tree.rename
  repeat' split
  all_goals first
    | exact h
    | exact ((h.unlinkChild _ _).linkChild _ _ _).modifyNode fun _ hn => hn

private theorem Typed.putFile (h : t.Typed) (path : String) (bytes : ByteArray) :
    (t.putFile path bytes now).Typed := by
  have hmade : (t.withParents path now).Typed := h.makeWalk _ _ _ _ now
  have hputting := t.putting_putFile path bytes now
  generalize t.withParents path now = t₁ at hmade hputting
  generalize t.putFile path bytes now = t' at hputting
  cases hputting with
  | refused => exact hmade
  | replaced => exact hmade.modifyNode fun _ hn => hn.withBytes bytes now
  | @created parent name _ _ _ hinsert =>
    have hinserted := hmade.insertChild (Node.isTyped_newFile 0o644 now) parent name now
    rw [hinsert] at hinserted
    exact hinserted.modifyNode fun _ hn => hn.withBytes bytes now

end Tree

open Store in
private theorem Operation.typed_on {s : Store} (hs : s.tree.Typed) (op : Operation) :
    (op.on s).tree.Typed := by
  cases op with
  | openPath path flags mode =>
    cases h : s.openPath path flags mode with
    | mk answer s' =>
      rw [on, h]
      cases answer with
      | error e => rcases openPath_eq_error h with rfl | rfl <;> exact hs
      | ok fd =>
        obtain ⟨-, -, ino, tree, hopen, rfl⟩ := openPath_eq_ok h
        cases hopen with
        | found => exact hs
        | emptied => exact hs.modifyNode fun _ hn => hn.withBytes _ _
        | @created parent name _ _ _ _ hinsert =>
          have hinserted := hs.insertChild (Node.isTyped_newFile mode s.clock.now) parent name
            s.clock.now
          rwa [hinsert] at hinserted
  | write fd bytes offset =>
    rcases tree_write s fd bytes offset with h | ⟨file, held, -, -, h⟩
    · rwa [on, h]
    · rw [on, h]
      exact hs.modifyNode fun _ hn => hn.withBytes _ _
  | mkdirs path mode =>
    rcases tree_mkdirs s path mode with h | h
    · rwa [on, h]
    · rw [on, h]
      exact hs.mkdirs path mode
  | unlink path =>
    rcases tree_unlink s path with ⟨e, -, h⟩ | ⟨tree, htree, -, h⟩
    · rwa [on, h]
    · have hremoved := hs.unlink path
      rw [htree] at hremoved
      rwa [on, h]
  | rmdir path =>
    rcases tree_rmdir s path with ⟨e, -, h⟩ | ⟨tree, htree, -, h⟩
    · rwa [on, h]
    · have hremoved := hs.rmdir path
      rw [htree] at hremoved
      rwa [on, h]
  | rename source target =>
    rcases tree_rename s source target with ⟨e, -, h⟩ | ⟨tree, htree, -, h⟩
    · rwa [on, h]
    · have hmoved := hs.rename source target s.clock.now
      rw [htree] at hmoved
      rwa [on, h]
  | fchmod fd mode =>
    rcases tree_fchmod s fd mode with h | ⟨ino, h⟩
    · rwa [on, h]
    · rw [on, h]
      exact hs.modifyNode fun _ hn => hn.withPermissions _ _
  | read fd buffer offset => simpa [on] using hs
  | flush fd => simpa [on] using hs
  | close fd => simpa [on] using hs
  | getAttr path => simpa [on] using hs
  | readdir fd limit => simpa [on] using hs
  | batchGetAttr fd inodes => simpa [on] using hs
  | putFile path bytes => exact hs.putFile path bytes
  | putDirectory path => exact hs.mkdirs path 0o755
  | shutdown | setFaults faults | setClock clock | clearCalls => exact hs

theorem Reachable.typed {s : Store} (hs : Reachable s) : s.tree.Typed := by
  induction hs with
  | new clock => exact Tree.typed_new clock.now
  | step op _ ih => exact op.typed_on ih

end VolumeFs.Memory
