import VolumeFs.Proofs.Store.Reachable

/-!
# Stores whose calls may fail

A client that stands before a store in memory and may let each call fail, before it reaches the
store or after the store has carried it out. What becomes of a call depends on how many there
were before it, so that calls fail in every order that there is. The client remembers the store
after each call.
-/

namespace VolumeFs.Memory

inductive Fate where
  | answered
  /-- The call fails and does not reach the store. -/
  | refused (code : Errno)
  /-- The call fails after the store has carried it out. -/
  | spoiled (code : Errno)

structure Interrupted where
  store : Store
  fate : Nat → Fate
  /-- After so many steps the walks over the store are given up. -/
  patience : Nat
  /-- The store after each call, the last one first. -/
  past : List Store := []

namespace Interrupted

variable {α : Type}

def advance (s : Interrupted) (store : Store) : Interrupted :=
  { s with store, past := store :: s.past }

def guarded (s : Interrupted) (call : Store → Except Errno α × Store) :
    Except Errno α × Interrupted :=
  match s.fate s.past.length with
  | .answered => ((call s.store).1, s.advance (call s.store).2)
  | .refused code => (.error code, s.advance s.store)
  | .spoiled code => (.error code, s.advance (call s.store).2)

def read (s : Interrupted) (fd : Fd) (buffer : ByteArray) (offset : Nat) :
    Except Errno Nat × ByteArray × Interrupted :=
  let (answer, held, store) := s.store.read fd buffer offset
  match s.fate s.past.length with
  | .answered => (answer, held, s.advance store)
  | .refused code => (.error code, buffer, s.advance s.store)
  | .spoiled code => (.error code, held, s.advance store)

private theorem size_read (s : Interrupted) (fd : Fd) (buffer : ByteArray) (offset : Nat) :
    (s.read fd buffer offset).2.1.size = buffer.size := by
  have hsize := s.store.size_read fd buffer offset
  simp only [read]
  split
  · exact hsize
  · rfl
  · exact hsize

instance : StoreClient Interrupted where
  openPath s path flags mode := s.guarded (·.openPath path flags mode)
  read
  write s fd bytes offset := s.guarded (·.write fd bytes offset)
  flush s fd := s.guarded (·.flush fd)
  close s fd := s.guarded (·.close fd)
  getAttr s path := s.guarded (·.getAttr path)
  mkdirs s path mode := s.guarded (·.mkdirs path mode)
  unlink s path := s.guarded (·.unlink path)
  rmdir s path := s.guarded (·.rmdir path)
  rename s source target := s.guarded (·.rename source target)
  readdir s fd limit := s.guarded (·.readdir fd limit)
  batchGetAttr s fd inodes := s.guarded (·.batchGetAttr fd inodes)
  fchmod s fd mode := s.guarded (·.fchmod fd mode)
  shutdown s := s.advance s.store.shutdown
  walkBound s := s.patience
  size_read

variable {s s' : Interrupted} {call : Store → Except Errno α × Store} {answer : Except Errno α}

theorem guarded_eq (h : s.guarded call = (answer, s')) : ∃ store, s' = s.advance store ∧
    ((answer, store) = call s.store ∨
      (∃ code, answer = .error code) ∧ (store = s.store ∨ store = (call s.store).2)) := by
  unfold guarded at h
  split at h
  · cases h
    exact ⟨_, rfl, .inl rfl⟩
  · cases h
    exact ⟨_, rfl, .inr ⟨⟨_, rfl⟩, .inl rfl⟩⟩
  · cases h
    exact ⟨_, rfl, .inr ⟨⟨_, rfl⟩, .inr rfl⟩⟩

theorem store_of_guarded (h : s.guarded call = (answer, s')) (keeps : Store → Prop)
    (hs : keeps s.store) (hcall : keeps (call s.store).2) : keeps s'.store := by
  unfold guarded at h
  split at h <;> cases h
  · exact hcall
  · exact hs
  · exact hcall

/-- The tree has a property, and had it after each call. -/
structure Always (keeps : Tree → Prop) (s : Interrupted) : Prop where
  now : keeps s.store.tree
  past : ∀ store ∈ s.past, keeps store.tree

theorem Always.of_guarded {keeps : Tree → Prop} (hs : s.Always keeps)
    (h : s.guarded call = (answer, s')) (hcall : keeps (call s.store).2.tree) :
    s'.Always keeps := by
  have hadvance {store : Store} (hstore : keeps store.tree) : (s.advance store).Always keeps := by
    refine ⟨hstore, fun old hold => ?_⟩
    rcases List.mem_cons.1 hold with rfl | hold
    · exact hstore
    · exact hs.past old hold
  unfold guarded at h
  split at h <;> cases h
  · exact hadvance hcall
  · exact hadvance hs.now
  · exact hadvance hcall

/-- No call that fails reaches the store. -/
def IsUnspoiled (s : Interrupted) : Prop := ∀ n code, s.fate n ≠ .spoiled code

theorem IsUnspoiled.guarded (hs : s.IsUnspoiled) (call : Store → Except Errno α × Store) :
    (s.guarded call).2.IsUnspoiled := by
  unfold Interrupted.guarded
  split <;> exact hs

theorem IsUnspoiled.guarded_eq (hs : s.IsUnspoiled) (h : s.guarded call = (answer, s')) :
    s'.IsUnspoiled ∧ (call s.store = (answer, s'.store) ∨
      (∃ code, answer = .error code) ∧ s'.store = s.store) := by
  refine ⟨?_, ?_⟩
  · have hunspoiled := hs.guarded call
    rwa [h] at hunspoiled
  · unfold Interrupted.guarded at h
    split at h
    · cases h
      exact .inl rfl
    · cases h
      exact .inr ⟨⟨_, rfl⟩, rfl⟩
    · rename_i hfate
      exact absurd hfate (hs _ _)

end Interrupted
end VolumeFs.Memory
