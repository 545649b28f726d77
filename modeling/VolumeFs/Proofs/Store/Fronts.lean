import VolumeFs.Proofs.Store.Descriptors
import VolumeFs.Proofs.Store.Interrupted
import VolumeFs.Proofs.Store.OpenFile

/-!
# Stores that take fronts

What a store owes to a stream of writes: of each piece it takes a front part and says how much, or
it fails. A store in memory does so, also when its calls are interrupted.
-/

namespace VolumeFs

open Bytes

/-- A store that takes a front part of what it is to write and says truly how much, or fails. A
write that fails leaves alone what is in front of its place. `holds` says what the file behind the
descriptor holds. -/
structure TakesFronts {σ : Type} [StoreClient σ] (fd : Fd) (holds : ByteArray → σ → Prop) :
    Prop where
  write_ok : ∀ {held s s' bytes offset count}, holds held s →
    StoreClient.write s fd bytes offset = (.ok count, s') → count ≤ bytes.size ∧
      holds (overlay (padded held (offset + count)) offset (bytes.extract 0 count)) s'
  write_error : ∀ {held s s' bytes offset code}, holds held s → offset ≤ held.size →
    StoreClient.write s fd bytes offset = (.error code, s') →
      ∃ held', holds held' s' ∧ held'.extract 0 offset = held.extract 0 offset
  flush : ∀ {held s}, holds held s → holds held (StoreClient.flush s fd).2
  close : ∀ {held s}, holds held s → holds held (StoreClient.close s fd).2

theorem TakesFronts.exists_of_write {σ : Type} [StoreClient σ] {fd : Fd}
    {holds : ByteArray → σ → Prop} (h : TakesFronts fd holds) {held : ByteArray} {s : σ}
    {offset : Nat} (hs : holds held s) (hoffset : offset ≤ held.size) (bytes : ByteArray) :
    ∃ held', holds held' (StoreClient.write s fd bytes offset).2 ∧
      held'.extract 0 offset = held.extract 0 offset := by
  generalize hwrite : StoreClient.write s fd bytes offset = outcome
  obtain ⟨answer, s'⟩ := outcome
  cases answer with
  | error code => exact h.write_error hs hoffset hwrite
  | ok count =>
    obtain ⟨-, hs'⟩ := h.write_ok hs hwrite
    refine ⟨_, hs', ?_⟩
    have hpadded : (padded held (offset + count)).extract 0 offset = held.extract 0 offset := by
      unfold padded
      split
      · rw [ByteArray.extract_append, Nat.sub_eq_zero_of_le hoffset, Nat.zero_sub,
          ByteArray.extract_same, ByteArray.append_empty]
      · rfl
    have hsize : offset ≤ (padded held (offset + count)).size := by
      unfold padded
      split
      · simp
        omega
      · exact hoffset
    rw [overlay, hpadded, ByteArray.append_assoc, ByteArray.extract_append_eq_left]
    simp
    omega

namespace Memory

variable {fd : Fd} {path : String} {held : ByteArray} {s s' : Store}

namespace Store

/-- The file at a path holds some bytes, and the descriptor stands for no other one. -/
structure HoldsAt (fd : Fd) (path : String) (held : ByteArray) (s : Store) : Prop where
  forest : s.tree.Forest
  entry : ∃ e, s.tree.entryAt? (components path) = some e ∧ e.bytes = some held ∧
    ∀ file, s.openFile? fd = some file → file.ino = e.ino

theorem WritableAt.holdsAt {e : Entry} (h : WritableAt s fd path e) (hheld : e.bytes = some held) :
    HoldsAt fd path held s := by
  refine ⟨h.forest, e, h.entryAt?, hheld, fun file hfile => ?_⟩
  obtain ⟨file', hfile', -, hino⟩ := h.openFile
  obtain rfl : file = file' := Option.some.inj (hfile.symm.trans hfile')
  exact hino

theorem HoldsAt.congr (h : HoldsAt fd path held s) (htree : s'.tree = s.tree)
    (hopen : ∀ file, s'.openFile? fd = some file → s.openFile? fd = some file) :
    HoldsAt fd path held s' := by
  obtain ⟨e, he, hheld, hfile⟩ := h.entry
  exact ⟨htree ▸ h.forest, e, htree ▸ he, hheld,
    fun file hopened => hfile file (hopen file hopened)⟩

private theorem HoldsAt.writableAt (h : HoldsAt fd path held s) {bytes : ByteArray}
    {offset count : Nat} (hwrite : s.write fd bytes offset = (.ok count, s')) :
    ∃ e, WritableAt s fd path e ∧ e.bytes = some held := by
  obtain ⟨e, he, hheld, hino⟩ := h.entry
  simp only [Store.write] at hwrite
  split at hwrite
  · cases hwrite
  · rename_i hup
    split at hwrite
    · cases hwrite
    · rename_i file hfile
      split at hwrite
      · cases hwrite
      · rename_i hwritable
        exact ⟨e, ⟨h.forest, Bool.eq_false_iff.2 hup, ⟨file, hfile, by simpa using hwritable,
          hino file hfile⟩, he⟩, hheld⟩

theorem write_eq_error {bytes : ByteArray} {offset : Nat} {code : Errno}
    (h : s.write fd bytes offset = (.error code, s')) :
    s'.tree = s.tree ∧ s'.openFiles = s.openFiles := by
  simp only [Store.write] at h
  repeat' split at h
  all_goals cases h
  all_goals exact ⟨rfl, rfl⟩

theorem takesFronts (fd : Fd) (path : String) : TakesFronts fd (HoldsAt fd path) where
  write_ok := by
    intro held s s' bytes offset count h hwrite
    obtain ⟨e, hwritable, hheld⟩ := h.writableAt hwrite
    obtain ⟨s₁, hwrite₁, hwritable₁, -⟩ := hwritable.write hheld bytes offset
    obtain ⟨hcount, rfl⟩ := Prod.mk.inj (hwrite₁.symm.trans hwrite)
    obtain rfl := Except.ok.inj hcount
    refine ⟨?_, hwritable₁.holdsAt rfl⟩
    unfold acceptedCount
    split
    · exact Nat.min_le_left _ _
    · exact Nat.le_refl _
  write_error := by
    intro held s s' bytes offset code h _ hwrite
    obtain ⟨htree, hopen⟩ := write_eq_error hwrite
    refine ⟨held, h.congr htree fun file hfile => ?_, rfl⟩
    rwa [openFile?, hopen] at hfile
  flush := by
    intro held s h
    refine h.congr (tree_flush s fd) fun file hfile => ?_
    rwa [show (StoreClient.flush s fd).2.openFile? fd = _ from s.openFile?_flush fd fd] at hfile
  close := by
    intro held s h
    refine h.congr (tree_close s fd) fun file hfile => ?_
    rw [show (StoreClient.close s fd).2.openFile? fd = _ from s.openFile?_close fd fd, if_pos rfl]
      at hfile
    cases hfile

/-- The file is the only entry that is not the given one. -/
structure HoldsAlone (fd : Fd) (path : String) (entries : List String → Option Entry)
    (held : ByteArray) (s : Store) : Prop extends HoldsAt fd path held s where
  others : ∀ q, q ≠ components path → s.tree.entryAt? q = entries q

theorem takesFronts_alone (fd : Fd) (path : String) (entries : List String → Option Entry) :
    TakesFronts fd (HoldsAlone fd path entries) where
  write_ok := by
    intro held s s' bytes offset count h hwrite
    obtain ⟨hcount, hholds⟩ := (takesFronts fd path).write_ok h.toHoldsAt hwrite
    obtain ⟨e, hwritable, hheld⟩ := h.writableAt hwrite
    obtain ⟨s₁, hwrite₁, -, hothers, -⟩ := hwritable.write hheld bytes offset
    obtain ⟨-, rfl⟩ := Prod.mk.inj (hwrite₁.symm.trans hwrite)
    exact ⟨hcount, hholds, fun q hq => (hothers q hq).trans (h.others q hq)⟩
  write_error := by
    intro held s s' bytes offset code h hoffset hwrite
    obtain ⟨held', hholds, hfront⟩ := (takesFronts fd path).write_error h.toHoldsAt hoffset hwrite
    exact ⟨held', ⟨hholds, (write_eq_error hwrite).1 ▸ h.others⟩, hfront⟩
  flush := by
    intro held s h
    exact ⟨(takesFronts fd path).flush h.toHoldsAt, (tree_flush s fd).symm ▸ h.others⟩
  close := by
    intro held s h
    exact ⟨(takesFronts fd path).close h.toHoldsAt, (tree_close s fd).symm ▸ h.others⟩

end Store

/-- Behind a client whose calls fail the file has at most the bytes of a call that was carried out
nevertheless, and they are not in front of its place. -/
theorem Interrupted.takesFronts {holds : ByteArray → Store → Prop} (h : TakesFronts fd holds) :
    TakesFronts fd fun held (s : Interrupted) => holds held s.store where
  write_ok := by
    intro held s s' bytes offset count hs hwrite
    obtain ⟨store, rfl, hcall | ⟨⟨code, hcode⟩, -⟩⟩ := Interrupted.guarded_eq hwrite
    · exact h.write_ok hs hcall.symm
    · cases hcode
  write_error := by
    intro held s s' bytes offset code hs hoffset hwrite
    obtain ⟨store, rfl, hcall | ⟨-, rfl | rfl⟩⟩ := Interrupted.guarded_eq hwrite
    · exact h.write_error hs hoffset hcall.symm
    · exact ⟨held, hs, rfl⟩
    · exact h.exists_of_write hs hoffset bytes
  flush := by
    intro held s hs
    generalize hflush : StoreClient.flush s fd = outcome
    obtain ⟨answer, s'⟩ := outcome
    exact Interrupted.store_of_guarded hflush (holds held) hs (h.flush hs)
  close := by
    intro held s hs
    generalize hclose : StoreClient.close s fd = outcome
    obtain ⟨answer, s'⟩ := outcome
    exact Interrupted.store_of_guarded hclose (holds held) hs (h.close hs)

end Memory
end VolumeFs
