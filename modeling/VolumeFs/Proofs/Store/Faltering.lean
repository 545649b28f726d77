import VolumeFs.Proofs.Store.Fronts
import VolumeFs.Proofs.Store.Traced

/-!
# Stores whose writes, flushes and closes may fail

A client that stands before a store and lets writes, flushes and closes fail, each call in a way of
its own. A write may also come short. All other calls are those of the store.
-/

namespace VolumeFs

inductive Lapse where
  | answered
  /-- The call fails and does not reach the store. -/
  | refused (code : Errno)
  /-- The call fails after the store has carried it out, of a write at most so many bytes. -/
  | spoiled (limit : Nat) (code : Errno)
  /-- Of a write at most so many bytes reach the store, and the answer is how many it took. -/
  | short (limit : Nat)

structure Faltering (σ : Type) where
  store : σ
  lapse : Nat → Lapse
  /-- How many writes, flushes and closes there were. -/
  count : Nat := 0

namespace Faltering

variable {σ α : Type}

def forwarded (s : Faltering σ) (outcome : α × σ) : α × Faltering σ :=
  (outcome.1, { s with store := outcome.2 })

/-- A call that may fail; `part` is the same call with at most so many bytes. -/
def attempted (s : Faltering σ) (call : σ → Except Errno α × σ)
    (part : Nat → σ → Except Errno α × σ) : Except Errno α × Faltering σ :=
  let (answer, store) :=
    match s.lapse s.count with
    | .answered => call s.store
    | .refused code => (.error code, s.store)
    | .spoiled limit code => (.error code, (part limit s.store).2)
    | .short limit => part limit s.store
  (answer, { s with store, count := s.count + 1 })

section Attempted

variable {s s' : Faltering σ} {call : σ → Except Errno α × σ}
  {part : Nat → σ → Except Errno α × σ} {answer : Except Errno α}

private theorem attempted_eq (h : s.attempted call part = (answer, s')) :
    (answer, s'.store) = call s.store ∨ (∃ limit, (answer, s'.store) = part limit s.store) ∨
      (∃ code, answer = .error code) ∧
        (s'.store = s.store ∨ ∃ limit, s'.store = (part limit s.store).2) := by
  unfold attempted at h
  cases hlapse : s.lapse s.count with
  | answered =>
    rw [hlapse] at h
    cases h
    exact .inl rfl
  | refused code =>
    rw [hlapse] at h
    cases h
    exact .inr (.inr ⟨⟨_, rfl⟩, .inl rfl⟩)
  | spoiled limit code =>
    rw [hlapse] at h
    cases h
    exact .inr (.inr ⟨⟨_, rfl⟩, .inr ⟨limit, rfl⟩⟩)
  | short limit =>
    rw [hlapse] at h
    cases h
    exact .inr (.inl ⟨limit, rfl⟩)

private theorem store_of_attempted (keeps : σ → Prop) (hs : keeps s.store)
    (hcall : keeps (call s.store).2) : keeps (s.attempted call fun _ => call).2.store := by
  generalize h : s.attempted call (fun _ => call) = outcome
  obtain ⟨answer, s'⟩ := outcome
  obtain hsame | ⟨-, hsame⟩ | ⟨-, hsame | ⟨-, hsame⟩⟩ := attempted_eq h
  · rwa [← hsame] at hcall
  · rwa [← hsame] at hcall
  · exact hsame ▸ hs
  · exact hsame ▸ hcall

end Attempted

variable [StoreClient σ]

def read (s : Faltering σ) (fd : Fd) (buffer : ByteArray) (offset : Nat) :
    Except Errno Nat × ByteArray × Faltering σ :=
  let (answer, held, store) := StoreClient.read s.store fd buffer offset
  (answer, held, { s with store })

instance : StoreClient (Faltering σ) where
  openPath s path flags mode := s.forwarded (StoreClient.openPath s.store path flags mode)
  read
  write s fd bytes offset := s.attempted (StoreClient.write · fd bytes offset)
    fun limit store => StoreClient.write store fd (bytes.extract 0 limit) offset
  flush s fd := s.attempted (StoreClient.flush · fd) fun _ => (StoreClient.flush · fd)
  close s fd := s.attempted (StoreClient.close · fd) fun _ => (StoreClient.close · fd)
  getAttr s path := s.forwarded (StoreClient.getAttr s.store path)
  mkdirs s path mode := s.forwarded (StoreClient.mkdirs s.store path mode)
  unlink s path := s.forwarded (StoreClient.unlink s.store path)
  rmdir s path := s.forwarded (StoreClient.rmdir s.store path)
  rename s source target := s.forwarded (StoreClient.rename s.store source target)
  readdir s fd limit := s.forwarded (StoreClient.readdir s.store fd limit)
  batchGetAttr s fd inodes := s.forwarded (StoreClient.batchGetAttr s.store fd inodes)
  fchmod s fd mode := s.forwarded (StoreClient.fchmod s.store fd mode)
  shutdown s := { s with store := StoreClient.shutdown s.store }
  walkBound s := StoreClient.walkBound s.store
  size_read s fd buffer offset := StoreClient.size_read s.store fd buffer offset

end Faltering

section TakesFronts

variable {σ : Type} [StoreClient σ] {fd : Fd} {holds : ByteArray → σ → Prop}

theorem Faltering.takesFronts (h : TakesFronts fd holds) :
    TakesFronts fd fun held (s : Faltering σ) => holds held s.store where
  write_ok := by
    intro held s s' bytes offset count hs hwrite
    obtain hsame | ⟨limit, hsame⟩ | ⟨⟨code, hcode⟩, -⟩ := Faltering.attempted_eq hwrite
    · exact h.write_ok hs hsame.symm
    · obtain ⟨hcount, hs'⟩ := h.write_ok hs hsame.symm
      rw [ByteArray.size_extract] at hcount
      rw [ByteArray.extract_extract] at hs'
      have hfront : min (0 + count) limit = count := by omega
      rw [Nat.add_zero, hfront] at hs'
      exact ⟨by omega, hs'⟩
    · cases hcode
  write_error := by
    intro held s s' bytes offset code hs hoffset hwrite
    obtain hsame | ⟨limit, hsame⟩ | ⟨-, hsame | ⟨limit, hsame⟩⟩ := Faltering.attempted_eq hwrite
    · exact h.write_error hs hoffset hsame.symm
    · exact h.write_error hs hoffset hsame.symm
    · exact ⟨held, hsame ▸ hs, rfl⟩
    · rw [hsame]
      exact h.exists_of_write hs hoffset _
  flush hs := Faltering.store_of_attempted (holds _) hs (h.flush hs)
  close hs := Faltering.store_of_attempted (holds _) hs (h.close hs)

theorem Traced.takesFronts (h : TakesFronts fd holds) :
    TakesFronts fd fun held (t : Traced σ) => holds held t.store where
  write_ok := by
    intro held t t' bytes offset count ht hwrite
    obtain ⟨s', hwrite', rfl⟩ := Traced.write_eq_iff.1 hwrite
    exact h.write_ok ht hwrite'
  write_error := by
    intro held t t' bytes offset code ht hoffset hwrite
    obtain ⟨s', hwrite', rfl⟩ := Traced.write_eq_iff.1 hwrite
    exact h.write_error ht hoffset hwrite'
  flush ht := h.flush ht
  close ht := h.close ht

end TakesFronts
end VolumeFs
