import VolumeFs.Proofs.Pieces
import VolumeFs.Stream.Writer

/-!
# What a write stream commits

A stream turns the bytes that it is handed into pieces, which it writes one behind the other.
What a store holds is followed here as a property of the list of pieces that it took; nothing else
is asked of the store.
-/

namespace VolumeFs.Writer

open Bytes

variable {σ : Type} [StoreClient σ]

/-- A stream that is open and has not failed. -/
structure IsSound (w : Writer) (handle : Handle) : Prop where
  handle : w.handle = some handle
  isClosed : w.isClosed = false
  isBroken : w.isBroken = false

theorem IsSound.checkWritable {w : Writer} {handle : Handle} (h : w.IsSound handle) :
    w.checkWritable = .ok () := by
  simp [Writer.checkWritable, h.isClosed, h.isBroken]

/-- A stream that is open but broken. -/
structure IsStuck (w : Writer) (handle : Handle) : Prop where
  handle : w.handle = some handle
  isClosed : w.isClosed = false
  isBroken : w.isBroken = true

theorem IsStuck.checkWritable {w : Writer} {handle : Handle} (h : w.IsStuck handle) :
    w.checkWritable = .error (.streamBroken w.path) := by
  simp [Writer.checkWritable, h.isClosed, h.isBroken]

/-- A property of the pieces in an open file and of the store, kept by each piece that the store
takes as a whole and by each flush that succeeds. -/
structure Ledger (fd : Fd) (holds : List ByteArray → σ → Prop) : Prop where
  write : ∀ {pieces s s' piece}, holds pieces s → piece.size ≠ 0 →
    StoreClient.write s fd piece (total pieces) = (.ok piece.size, s') →
    holds (pieces ++ [piece]) s'
  flush : ∀ {pieces s s'}, holds pieces s → StoreClient.flush s fd = (.ok (), s') →
    holds pieces s'

/-- A write that the store does not take as a whole. -/
def WriteFails (fd : Fd) (piece : ByteArray) (offset : Nat) (s s' : σ) : Prop :=
  ∃ answer, StoreClient.write s fd piece offset = (answer, s') ∧ answer ≠ .ok piece.size

variable {w : Writer} {handle : Handle} {holds : List ByteArray → σ → Prop}
  {pieces : List ByteArray} {s : σ}

inductive Committing (w : Writer) (fd : Fd) (holds : List ByteArray → σ → Prop)
    (pieces : List ByteArray) (s : σ) : Except VolumeError Unit × Writer × σ → Prop where
  | done {s'} (hs : holds (pieces ++ remainder w.buffer) s') :
      Committing w fd holds pieces s (.ok (),
        { w with buffer := .empty, commitOffset := total (pieces ++ remainder w.buffer) }, s')
  | broken {e s'} (hsize : w.buffer.size ≠ 0)
      (hwrite : WriteFails fd w.buffer (total pieces) s s') :
      Committing w fd holds pieces s (.error e, { w with isBroken := true }, s')

private theorem committing_commit (hw : w.handle = some handle) (hl : Ledger handle.fd holds)
    (hs : holds pieces s) (hoffset : w.commitOffset = total pieces) :
    Committing w handle.fd holds pieces s (w.commit s) := by
  obtain ⟨_, fd, path, buffer, capacity, _, isClosed, isBroken⟩ := w
  obtain rfl : _ = some handle := hw
  obtain rfl : _ = total pieces := hoffset
  unfold commit
  split
  · rename_i hsize
    obtain rfl := ByteArray.size_eq_zero_iff.1 hsize
    have hrest : remainder .empty = [] := if_pos hsize
    have hdone : Committing ⟨some handle, fd, path, .empty, capacity, total pieces, isClosed,
        isBroken⟩ handle.fd holds pieces s (.ok (), ⟨some handle, fd, path, .empty, capacity,
          total (pieces ++ remainder .empty), isClosed, isBroken⟩, s) :=
      .done (by rwa [hrest, List.append_nil])
    rwa [hrest, List.append_nil] at hdone
  · rename_i hsize
    have hrest : remainder buffer = [buffer] := if_neg hsize
    simp only
    split
    · rename_i count s' hwrite
      split
      · rename_i hcount
        subst hcount
        have hdone : Committing ⟨some handle, fd, path, buffer, capacity, total pieces, isClosed,
            isBroken⟩ handle.fd holds pieces s (.ok (), ⟨some handle, fd, path, .empty, capacity,
              total (pieces ++ remainder buffer), isClosed, isBroken⟩, s') :=
          .done (hrest ▸ hl.write hs hsize hwrite)
        rwa [total_append, total_remainder] at hdone
      · rename_i hcount
        refine .broken hsize ⟨_, hwrite, ?_⟩
        rwa [Ne, Except.ok.injEq]
    · rename_i code s' hwrite
      exact .broken hsize ⟨_, hwrite, by simp⟩

inductive Filling (w : Writer) (fd : Fd) (holds : List ByteArray → σ → Prop)
    (pieces : List ByteArray) (bytes : ByteArray) :
    Except VolumeError Unit × Writer × σ → Prop where
  | done {new rest s'} (hnew : ∀ piece ∈ new, piece.size = w.capacity)
      (hrest : rest.size < w.capacity) (hbytes : joined new ++ rest = w.buffer ++ bytes)
      (hs : holds (pieces ++ new) s') :
      Filling w fd holds pieces bytes
        (.ok (), { w with buffer := rest, commitOffset := total (pieces ++ new) }, s')
  | broken {e new piece s s'} (hs : holds (pieces ++ new) s) (hsize : piece.size ≠ 0)
      (hwrite : WriteFails fd piece (total (pieces ++ new)) s s') :
      Filling w fd holds pieces bytes (.error e,
        { w with buffer := piece, commitOffset := total (pieces ++ new), isBroken := true }, s')

private theorem Filling.unchanged {fd : Fd} (hsize : w.buffer.size < w.capacity)
    (hs : holds pieces s) (hoffset : w.commitOffset = total pieces) :
    Filling w fd holds pieces .empty (.ok (), w, s) := by
  have hnew : holds (pieces ++ []) s := by rwa [List.append_nil]
  have hdone : Filling w fd holds pieces .empty
      (.ok (), { w with commitOffset := total (pieces ++ []) }, s) :=
    .done (by simp) hsize (by simp) hnew
  rwa [List.append_nil, ← hoffset] at hdone

private theorem Filling.atOnceBroken {fd : Fd} {e : VolumeError} {s' : σ} (hs : holds pieces s)
    (hoffset : w.commitOffset = total pieces) (hsize : w.buffer.size ≠ 0)
    (hwrite : WriteFails fd w.buffer (total pieces) s s') :
    Filling w fd holds pieces .empty (.error e, { w with isBroken := true }, s') := by
  have hnew : holds (pieces ++ []) s := by rwa [List.append_nil]
  have hwrite' : WriteFails fd w.buffer (total (pieces ++ [])) s s' := by rwa [List.append_nil]
  have hbroken : Filling w fd holds pieces .empty
      (.error e, { w with commitOffset := total (pieces ++ []), isBroken := true }, s') :=
    .broken hnew hsize hwrite'
  rwa [List.append_nil, ← hoffset] at hbroken

private theorem filling_commitIfFull (hw : w.handle = some handle) (hl : Ledger handle.fd holds)
    (hsize : w.buffer.size ≤ w.capacity) (hcapacity : 0 < w.capacity) (hs : holds pieces s)
    (hoffset : w.commitOffset = total pieces) :
    Filling w handle.fd holds pieces .empty (w.commitIfFull s) := by
  unfold commitIfFull
  split
  · rename_i hfull
    have hcommit := committing_commit hw hl hs hoffset
    have hrest : remainder w.buffer = [w.buffer] := if_neg (by omega)
    generalize w.commit s = result at hcommit
    cases hcommit with
    | done hs' =>
      refine .done ?_ hcapacity (by simp) hs'
      intro piece hpiece
      rw [hrest, List.mem_singleton] at hpiece
      rw [hpiece, hfull]
    | broken hne hwrite => exact .atOnceBroken hs hoffset hne hwrite
  · rename_i hpart
    exact .unchanged (by omega) hs hoffset

private theorem Filling.of_buffer {fd : Fd} {front rest : ByteArray}
    {result : Except VolumeError Unit × Writer × σ}
    (h : Filling { w with buffer := w.buffer ++ front } fd holds pieces rest result) :
    Filling w fd holds pieces (front ++ rest) result := by
  cases h with
  | done hnew hrest hbytes hs =>
    exact .done hnew hrest (by rw [hbytes, ByteArray.append_assoc]) hs
  | broken hs hsize hwrite => exact .broken hs hsize hwrite

private theorem Filling.of_error {fd : Fd} {front : ByteArray} {e : VolumeError} {w' : Writer}
    {s' : σ} (h : Filling w fd holds pieces front (.error e, w', s')) (bytes : ByteArray) :
    Filling w fd holds pieces bytes (.error e, w', s') := by
  cases h with
  | broken hs hsize hwrite => exact .broken hs hsize hwrite

theorem Filling.append {fd : Fd} {w' : Writer} {s' : σ} {front rest : ByteArray}
    {result : Except VolumeError Unit × Writer × σ}
    (h : Filling w fd holds pieces front (.ok (), w', s'))
    (h' : ∀ pieces, w'.handle = w.handle → w'.buffer.size < w'.capacity → holds pieces s' →
      w'.commitOffset = total pieces → Filling w' fd holds pieces rest result) :
    Filling w fd holds pieces (front ++ rest) result := by
  cases h with
  | @done new mid _ hnew hmid hbytes hs =>
    cases h' _ rfl hmid hs rfl with
    | @done new' last _ hnew' hlast hbytes' hs' =>
      rw [List.append_assoc] at hs' ⊢
      refine .done ?_ hlast ?_ hs'
      · intro piece hpiece
        rcases List.mem_append.1 hpiece with hpiece | hpiece
        · exact hnew piece hpiece
        · exact hnew' piece hpiece
      · rw [joined_append, ByteArray.append_assoc, hbytes', ← ByteArray.append_assoc, hbytes,
          ByteArray.append_assoc]
    | broken hs' hsize hwrite =>
      rw [List.append_assoc] at hs' hwrite ⊢
      exact .broken hs' hsize hwrite

private theorem filling_fill (hw : w.handle = some handle) (hl : Ledger handle.fd holds)
    (hsize : w.buffer.size < w.capacity) (hs : holds pieces s)
    (hoffset : w.commitOffset = total pieces) (bytes : ByteArray) :
    Filling w handle.fd holds pieces bytes (w.fill s bytes) := by
  -- Each round of the loop takes a part that fits; the next one begins with what it has filled.
  fun_induction fill w s bytes generalizing pieces with
  | case1 w s bytes count =>
    rename_i hcount
    obtain rfl : bytes = .empty := ByteArray.size_eq_zero_iff.1 (by omega)
    exact .unchanged hsize hs hoffset
  | case2 w s bytes count hcount e w' s' =>
    rename_i hfull
    have hround := filling_commitIfFull
      (w := { w with buffer := w.buffer ++ bytes.extract 0 count })
      hw hl (by simp; omega) (by simp; omega) hs hoffset
    rw [hfull] at hround
    exact hround.of_buffer.of_error bytes
  | case3 w s bytes count hcount w' s' =>
    rename_i hfull ih
    have hround := filling_commitIfFull
      (w := { w with buffer := w.buffer ++ bytes.extract 0 count })
      hw hl (by simp; omega) (by simp; omega) hs hoffset
    rw [hfull] at hround
    have hfirst := hround.of_buffer
    rw [ByteArray.append_empty] at hfirst
    have hmin : count ≤ bytes.size := by omega
    rw [← extract_append_extract_size bytes hmin]
    apply hfirst.append
    intro pieces' hw' hsize' hs' hoffset'
    rw [extract_append_extract_size bytes hmin]
    exact ih (hw'.trans hw) hsize' hs' hoffset'

theorem filling_writeBytes (hw : w.IsSound handle) (hl : Ledger handle.fd holds)
    (hsize : w.buffer.size < w.capacity) (hs : holds pieces s)
    (hoffset : w.commitOffset = total pieces) (bytes : ByteArray) :
    Filling w handle.fd holds pieces bytes (w.writeBytes s bytes) := by
  rw [writeBytes, hw.checkWritable]
  exact filling_fill hw.handle hl hsize hs hoffset bytes

theorem writeByte_eq_writeBytes (hsize : w.buffer.size < w.capacity) (s : σ) (byte : UInt8) :
    w.writeByte s byte = w.writeBytes s ⟨#[byte]⟩ := by
  have hone : (⟨#[byte]⟩ : ByteArray).size = 1 := rfl
  have hcount : min (w.capacity - w.buffer.size) (⟨#[byte]⟩ : ByteArray).size = 1 := by omega
  have hfirst : (⟨#[byte]⟩ : ByteArray).extract 0 1 = ⟨#[byte]⟩ := ByteArray.extract_zero_size
  have hrest : (⟨#[byte]⟩ : ByteArray).extract 1 1 = .empty := ByteArray.extract_same
  have hpush : w.buffer ++ (⟨#[byte]⟩ : ByteArray) = w.buffer.push byte :=
    ByteArray.append_toByteArray_singleton
  have hnothing (w : Writer) (s : σ) : w.fill s .empty = (.ok (), w, s) := by
    rw [fill, if_pos]
    simp
  rw [writeByte, writeBytes]
  split
  · rfl
  · rw [fill, hcount, if_neg (by decide), hone, hfirst, hrest, hpush]
    split
    · assumption
    · rename_i hfull
      rw [hfull, hnothing]

inductive Flushing (w : Writer) (fd : Fd) (holds : List ByteArray → σ → Prop)
    (pieces : List ByteArray) (s : σ) : Except VolumeError Unit × Writer × σ → Prop where
  | done {s'} (hs : holds (pieces ++ remainder w.buffer) s') :
      Flushing w fd holds pieces s (.ok (),
        { w with buffer := .empty, commitOffset := total (pieces ++ remainder w.buffer) }, s')
  | notDurable {code s₁ s'} (hs : holds (pieces ++ remainder w.buffer) s₁)
      (hflush : StoreClient.flush s₁ fd = (.error code, s')) :
      Flushing w fd holds pieces s (.error (.flushFailed w.fd code),
        { w with
          buffer := .empty
          commitOffset := total (pieces ++ remainder w.buffer)
          isBroken := true }, s')
  | notCommitted {e s'} (hsize : w.buffer.size ≠ 0)
      (hwrite : WriteFails fd w.buffer (total pieces) s s') :
      Flushing w fd holds pieces s (.error e, { w with isBroken := true }, s')

theorem flushing_commitAndFlush (hw : w.handle = some handle) (hl : Ledger handle.fd holds)
    (hs : holds pieces s) (hoffset : w.commitOffset = total pieces) :
    Flushing w handle.fd holds pieces s (w.commitAndFlush s) := by
  have hcommit := committing_commit hw hl hs hoffset
  unfold commitAndFlush
  generalize w.commit s = result at hcommit
  cases hcommit with
  | done hs' =>
    simp only [hw]
    split
    · rename_i hflush
      rw [← hw]
      exact .done (hl.flush hs' hflush)
    · rename_i hflush
      rw [← hw]
      exact .notDurable hs' hflush
  | broken hsize hwrite => exact .notCommitted hsize hwrite

theorem flushing_flush (hw : w.IsSound handle) (hl : Ledger handle.fd holds) (hs : holds pieces s)
    (hoffset : w.commitOffset = total pieces) :
    Flushing w handle.fd holds pieces s (w.flush s) := by
  rw [flush, hw.checkWritable]
  exact flushing_commitAndFlush hw.handle hl hs hoffset

theorem combine_eq_ok_iff {primary cleanup : Except VolumeError Unit} :
    VolumeError.combine primary cleanup = .ok () ↔ primary = .ok () ∧ cleanup = .ok () := by
  rcases primary with _ | ⟨⟨⟩⟩ <;> rcases cleanup with _ | ⟨⟨⟩⟩ <;> simp [VolumeError.combine]

theorem close_of_settle {result : Except VolumeError Unit} {w' : Writer} {s' : σ}
    (hw : w.isClosed = false) (hsettle : w.settle s = (result, w', s'))
    (hw' : w'.handle = some handle) :
    (w.close s).2.2 = (StoreClient.close s' handle.fd).2 ∧
      ((w.close s).1 = .ok () ↔ result = .ok () ∧ (StoreClient.close s' handle.fd).1 = .ok ()) := by
  rw [close, hw]
  simp only [Bool.false_eq_true, if_false, hsettle, release, hw', Handle.close, combine_eq_ok_iff]
  rcases StoreClient.close s' handle.fd with ⟨_ | ⟨⟨⟩⟩, s''⟩ <;> simp

end VolumeFs.Writer
