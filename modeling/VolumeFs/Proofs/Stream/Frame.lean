import VolumeFs.Proofs.Stream.WriteCall

/-!
# What write streams leave alone

A write stream reaches the store through its descriptor only. What the calls on the descriptor
keep is therefore kept by all that the stream does.
-/

namespace VolumeFs

variable {σ : Type} [StoreClient σ]

/-- A relation between a write stream and its store that does not depend on the bytes at hand and
that the calls on the open file of the stream keep. -/
structure Kept (holds : Writer → σ → Prop) : Prop where
  bytes : ∀ {w s} buffer commitOffset isBroken, holds w s →
    holds { w with buffer, commitOffset, isBroken } s
  write : ∀ {w s handle} bytes offset, w.handle = some handle → holds w s →
    holds w (StoreClient.write s handle.fd bytes offset).2
  flush : ∀ {w s handle}, w.handle = some handle → holds w s →
    holds w (StoreClient.flush s handle.fd).2
  close : ∀ {w s handle}, w.handle = some handle → holds w s →
    holds { w with isClosed := true, handle := none } (StoreClient.close s handle.fd).2
  /-- There may be no open file to close. -/
  leave : ∀ {w s}, w.handle = none → holds w s → holds { w with isClosed := true } s

namespace Kept

variable {holds : Writer → σ → Prop} {w : Writer} {s : σ}

private theorem commit (h : Kept holds) (hw : holds w s) :
    holds (w.commit s).2.1 (w.commit s).2.2 := by
  unfold Writer.commit
  split
  · exact hw
  · split
    · exact hw
    · rename_i handle hhandle
      have hwrite := h.write w.buffer w.commitOffset hhandle hw
      generalize StoreClient.write s handle.fd w.buffer w.commitOffset = result at hwrite ⊢
      obtain ⟨code | count, s'⟩ := result
      · exact h.bytes w.buffer w.commitOffset true hwrite
      · dsimp only
        split
        · exact h.bytes .empty (w.commitOffset + count) w.isBroken hwrite
        · exact h.bytes w.buffer w.commitOffset true hwrite

private theorem commitIfFull (h : Kept holds) (hw : holds w s) :
    holds (w.commitIfFull s).2.1 (w.commitIfFull s).2.2 := by
  unfold Writer.commitIfFull
  split
  · exact h.commit hw
  · exact hw

private theorem fill (h : Kept holds) (hw : holds w s) (bytes : ByteArray) :
    holds (w.fill s bytes).2.1 (w.fill s bytes).2.2 := by
  fun_induction Writer.fill w s bytes with
  | case1 w s bytes => exact hw
  | case2 w s bytes count hcount e w' s' hfull =>
    have hround := h.commitIfFull
      (h.bytes (w.buffer ++ bytes.extract 0 count) w.commitOffset w.isBroken hw)
    rwa [hfull] at hround
  | case3 w s bytes count hcount w' s' hfull ih =>
    have hround := h.commitIfFull
      (h.bytes (w.buffer ++ bytes.extract 0 count) w.commitOffset w.isBroken hw)
    rw [hfull] at hround
    exact ih hround

theorem writeByte (h : Kept holds) (hw : holds w s) (byte : UInt8) :
    holds (w.writeByte s byte).2.1 (w.writeByte s byte).2.2 := by
  unfold Writer.writeByte
  split
  · exact hw
  · exact h.commitIfFull (h.bytes (w.buffer.push byte) _ _ hw)

theorem writeBytes (h : Kept holds) (hw : holds w s) (bytes : ByteArray) :
    holds (w.writeBytes s bytes).2.1 (w.writeBytes s bytes).2.2 := by
  unfold Writer.writeBytes
  split
  · exact hw
  · exact h.fill hw bytes

theorem writeRange (h : Kept holds) (hw : holds w s) (bytes : ByteArray) (offset length : Nat) :
    holds (w.writeRange s bytes offset length).2.1 (w.writeRange s bytes offset length).2.2 := by
  unfold Writer.writeRange
  split
  · exact h.writeBytes hw _
  · exact hw

theorem writeChunks (h : Kept holds) (hw : holds w s) (bytes : ByteArray) (chunk : Nat) :
    holds (w.writeChunks s bytes chunk).2.1 (w.writeChunks s bytes chunk).2.2 := by
  fun_induction Writer.writeChunks w s bytes chunk with
  | case1 w s bytes => exact hw
  | case2 w s bytes count hcount e w' s' hpiece =>
    have hfirst := h.writeBytes hw (bytes.extract 0 count)
    rwa [hpiece] at hfirst
  | case3 w s bytes count hcount w' s' hpiece ih =>
    have hfirst := h.writeBytes hw (bytes.extract 0 count)
    rw [hpiece] at hfirst
    exact ih hfirst

private theorem commitAndFlush (h : Kept holds) (hw : holds w s) :
    holds (w.commitAndFlush s).2.1 (w.commitAndFlush s).2.2 := by
  have hcommit := h.commit hw
  unfold Writer.commitAndFlush
  generalize w.commit s = result at hcommit ⊢
  obtain ⟨e | ⟨⟨⟩⟩, w', s'⟩ := result
  · exact hcommit
  · dsimp only at hcommit ⊢
    split
    · exact hcommit
    · rename_i handle hhandle
      have hflush := h.flush hhandle hcommit
      generalize StoreClient.flush s' handle.fd = result at hflush ⊢
      obtain ⟨code | ⟨⟨⟩⟩, s''⟩ := result
      · exact h.bytes w'.buffer w'.commitOffset true hflush
      · exact hflush

theorem flush_writer (h : Kept holds) (hw : holds w s) :
    holds (w.flush s).2.1 (w.flush s).2.2 := by
  unfold Writer.flush
  split
  · exact hw
  · exact h.commitAndFlush hw

private theorem settle (h : Kept holds) (hw : holds w s) :
    holds (w.settle s).2.1 (w.settle s).2.2 := by
  unfold Writer.settle
  split
  · exact h.commitAndFlush hw
  · split <;> exact hw

private theorem release (h : Kept holds) (hw : holds w s) :
    holds (w.release s).2.1 (w.release s).2.2 := by
  unfold Writer.release
  split
  · rename_i hhandle
    have hleft := h.bytes .empty w.commitOffset w.isBroken (h.leave hhandle hw)
    rwa [← hhandle]
  · rename_i handle hhandle
    have hclose := h.bytes .empty w.commitOffset w.isBroken (h.close hhandle hw)
    unfold Handle.close
    generalize StoreClient.close s handle.fd = result at hclose ⊢
    obtain ⟨code | ⟨⟨⟩⟩, s'⟩ := result <;> exact hclose

theorem close_writer (h : Kept holds) (hw : holds w s) :
    holds (w.close s).2.1 (w.close s).2.2 := by
  unfold Writer.close
  split
  · exact hw
  · exact h.release (h.settle hw)

theorem call {o : Output} (h : Kept holds) (ho : holds o.writer s) (call : WriteCall) :
    holds (call.on o s).2.1.writer (call.on o s).2.2 := by
  cases call with
  | byte byte =>
    simp only [WriteCall.on, Output.writeByte, Output.onWriter, Output.writer_withWriter]
    exact h.writeByte ho byte
  | bytes bytes =>
    simp only [WriteCall.on, Output.writeBytes, Output.onWriter, Output.writer_withWriter]
    exact h.writeBytes ho bytes
  | range bytes offset length =>
    simp only [WriteCall.on, Output.onWriter, Output.writer_withWriter]
    exact h.writeRange ho bytes offset length
  | flush =>
    simp only [WriteCall.on, Output.flush, Output.onWriter, Output.writer_withWriter]
    exact h.flush_writer ho
  | streamBytes bytes =>
    have hwrite := h.writeBytes ho bytes
    simp only [WriteCall.on, Output.streamWrite, Output.writeBytes, Output.onWriter]
    generalize o.writer.writeBytes s bytes = outcome at hwrite ⊢
    obtain ⟨result, w', s'⟩ := outcome
    dsimp only
    cases (result.mapError StreamFailure.ofVolume).map fun _ => bytes.size with
    | ok count => simpa only [Output.writer_withWriter] using hwrite
    | error failure => simpa only [Output.writer_withWriter] using hwrite
  | streamFlush =>
    have hflush := h.flush_writer ho
    simp only [WriteCall.on, Output.streamFlush, Output.flush, Output.onWriter]
    generalize o.writer.flush s = outcome at hflush ⊢
    obtain ⟨result, w', s'⟩ := outcome
    dsimp only
    cases result.mapError StreamFailure.ofVolume with
    | ok => simpa only [Output.writer_withWriter] using hflush
    | error failure => simpa only [Output.writer_withWriter] using hflush

private theorem run {environment : σ → σ → Prop} {o o' : Output} {s' : σ}
    {calls : List (WriteCall × WriteAnswer)} (h : Kept holds) (ho : holds o.writer s)
    (henvironment : ∀ {w s s'}, holds w s → environment s s' → holds w s')
    (hrun : Run environment o s calls o' s') : holds o'.writer s' := by
  induction hrun with
  | start => exact ho
  | call _ call ih => exact h.call ih call
  | step _ hstep ih => exact henvironment ih hstep

end Kept

/-- A property of stores that calls on the descriptor keep. -/
structure Untouched (fd : Fd) (keeps : σ → Prop) : Prop where
  write : ∀ {s} bytes offset, keeps s → keeps (StoreClient.write s fd bytes offset).2
  flush : ∀ {s}, keeps s → keeps (StoreClient.flush s fd).2
  close : ∀ {s}, keeps s → keeps (StoreClient.close s fd).2

/-- A stream that has no other open file. -/
def Writer.Uses (w : Writer) (fd : Fd) : Prop := ∀ handle, w.handle = some handle → handle.fd = fd

namespace Untouched

variable {fd : Fd} {keeps : σ → Prop} {w : Writer} {s : σ}

private theorem kept (h : Untouched fd keeps) : Kept fun w s => w.Uses fd ∧ keeps s where
  bytes _ _ _ hw := hw
  write bytes offset hhandle hw := ⟨hw.1, hw.1 _ hhandle ▸ h.write bytes offset hw.2⟩
  flush hhandle hw := ⟨hw.1, hw.1 _ hhandle ▸ h.flush hw.2⟩
  close hhandle hw := ⟨nofun, hw.1 _ hhandle ▸ h.close hw.2⟩
  leave _ hw := hw

theorem close_writer (h : Untouched fd keeps) (hw : w.Uses fd) (hs : keeps s) :
    (w.close s).2.1.Uses fd ∧ keeps (w.close s).2.2 :=
  h.kept.close_writer ⟨hw, hs⟩

theorem run {environment : σ → σ → Prop} {o o' : Output} {s' : σ}
    {calls : List (WriteCall × WriteAnswer)} (h : Untouched fd keeps) (ho : o.writer.Uses fd)
    (hs : keeps s) (henvironment : ∀ {s s'}, keeps s → environment s s' → keeps s')
    (hrun : Run environment o s calls o' s') : o'.writer.Uses fd ∧ keeps s' :=
  h.kept.run ⟨ho, hs⟩ (fun hw hstep => ⟨hw.1, henvironment hw.2 hstep⟩) hrun

end Untouched
end VolumeFs
