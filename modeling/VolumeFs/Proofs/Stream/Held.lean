import VolumeFs.Creation
import VolumeFs.Proofs.Store.Book
import VolumeFs.Proofs.Stream.Frame
import VolumeFs.Stream.Reader

/-!
# Descriptors held by streams

An open stream holds the descriptor of its file, and a closed one holds none. All that is done
with a stream uses this descriptor only, and gives it back exactly when the stream is closed or let
go of, whichever calls fail.
-/

namespace VolumeFs

variable {σ : Type} [StoreClient σ] {opened : Multiset Fd → σ → Prop} {fds : Multiset Fd} {s : σ}

namespace Writer

def held (w : Writer) : Multiset Fd := if w.isClosed then 0 else {w.fd}

def IsProper (w : Writer) : Prop :=
  w.handle = if w.isClosed then none else some ⟨w.fd, w.path⟩

private theorem IsProper.isClosed_of_none {w : Writer} (hw : w.IsProper) (h : w.handle = none) :
    w.isClosed = true := by
  by_contra hopen
  rw [hw, if_neg hopen] at h
  cases h

private theorem IsProper.of_some {w : Writer} (hw : w.IsProper) {handle : Handle}
    (h : w.handle = some handle) : w.isClosed = false ∧ handle.fd = w.fd := by
  rw [hw] at h
  split at h
  · cases h
  · rename_i hopen
    cases h
    exact ⟨Bool.eq_false_iff.2 hopen, rfl⟩

/-- A stream that holds its descriptor, beside those of others. Once it is to be closed it is. -/
structure Holds (opened : Multiset Fd → σ → Prop) (fds : Multiset Fd) (ended : Prop) (w : Writer)
    (s : σ) : Prop where
  isProper : w.IsProper
  isClosed_of_ended : ended → w.isClosed = true
  opened : opened (w.held + fds) s

end Writer

theorem Book.kept_holds (h : Book opened) (fds : Multiset Fd) (ended : Prop) :
    Kept (Writer.Holds opened fds ended) where
  bytes _ _ _ hw := ⟨hw.isProper, hw.isClosed_of_ended, hw.opened⟩
  write := by
    intro w s handle bytes offset hhandle hw
    obtain ⟨hopen, hfd⟩ := hw.isProper.of_some hhandle
    have hmem : handle.fd ∈ w.held + fds := by simp [Writer.held, hopen, hfd]
    exact ⟨hw.isProper, hw.isClosed_of_ended, h.write bytes offset hmem hw.opened⟩
  flush := by
    intro w s handle hhandle hw
    obtain ⟨hopen, hfd⟩ := hw.isProper.of_some hhandle
    have hmem : handle.fd ∈ w.held + fds := by simp [Writer.held, hopen, hfd]
    exact ⟨hw.isProper, hw.isClosed_of_ended, h.flush hmem hw.opened⟩
  close := by
    intro w s handle hhandle hw
    obtain ⟨hopen, hfd⟩ := hw.isProper.of_some hhandle
    have hs : opened (handle.fd ::ₘ fds) s := by
      have hs := hw.opened
      rwa [Writer.held, hopen, if_neg Bool.false_ne_true, Multiset.singleton_add, ← hfd] at hs
    refine ⟨rfl, fun _ => rfl, ?_⟩
    rw [Writer.held, if_pos rfl, zero_add]
    exact h.close hs
  leave := by
    intro w s hhandle hw
    have hclosed := hw.isProper.isClosed_of_none hhandle
    have hsame : { w with isClosed := true } = w := by rw [← hclosed]
    rwa [hsame]

private theorem Writer.isClosed_close (w : Writer) (s : σ) : (w.close s).2.1.isClosed = true := by
  unfold Writer.close Writer.release
  split
  · assumption
  · dsimp only
    split
    · rfl
    · split <;> rfl

omit [StoreClient σ] in
private theorem Writer.Holds.opened_of_isClosed {w : Writer} {ended : Prop}
    (hw : w.Holds opened fds ended s) (h : w.isClosed = true) : opened fds s := by
  have hs := hw.opened
  rwa [Writer.held, if_pos h, zero_add] at hs

omit [StoreClient σ] in
private theorem Writer.IsProper.holds_of_isClosed {w : Writer} {ended : Prop} (hproper : w.IsProper)
    (hclosed : w.isClosed = true) (hs : opened fds s) : w.Holds opened fds ended s := by
  refine ⟨hproper, fun _ => hclosed, ?_⟩
  rwa [Writer.held, if_pos hclosed, zero_add]

namespace Book

variable {a : AtomicWriter}

private theorem removeTemporary (h : Book opened) (a : AtomicWriter) (hs : opened fds s) :
    opened fds (a.removeTemporary s).2 := by
  have hunlink := h.unlink a.temporaryPath hs
  unfold AtomicWriter.removeTemporary
  generalize StoreClient.unlink s a.temporaryPath = result at hunlink ⊢
  obtain ⟨code | ⟨⟨⟩⟩, s'⟩ := result
  · dsimp only
    split <;> exact hunlink
  · exact hunlink

private theorem publish (h : Book opened) (a : AtomicWriter) (hs : opened fds s) :
    opened fds (a.publish s).2 := by
  have hmove {s : σ} (hs : opened fds s) : opened fds (a.moveIntoPlace s).2 :=
    h.rename a.temporaryPath a.finalPath hs
  have hfirst := hmove hs
  unfold AtomicWriter.publish
  generalize a.moveIntoPlace s = result at hfirst ⊢
  obtain ⟨code | ⟨⟨⟩⟩, s₁⟩ := result
  · dsimp only at hfirst ⊢
    split
    · exact hfirst
    · have hunlink := h.unlink a.finalPath hfirst
      generalize StoreClient.unlink s₁ a.finalPath = result at hunlink ⊢
      obtain ⟨code | ⟨⟨⟩⟩, s₂⟩ := result
      · exact hunlink
      · dsimp only at hunlink ⊢
        have hsecond := hmove hunlink
        generalize a.moveIntoPlace s₂ = result at hsecond ⊢
        obtain ⟨code | ⟨⟨⟩⟩, s₃⟩ := result <;> exact hsecond
  · exact hfirst

private theorem discard (h : Book opened) (a : AtomicWriter) (hs : opened fds s)
    (failure : VolumeError) :
    opened fds (a.discard s failure).2 := by
  have hremove := h.removeTemporary a hs
  unfold AtomicWriter.discard
  generalize a.removeTemporary s = result at hremove ⊢
  obtain ⟨cleanup | ⟨⟨⟩⟩, s'⟩ := result <;> exact hremove

private theorem closed_inner (h : Book opened)
    (ha : a.inner.Holds opened fds (a.isFinished = true) s) :
    (a.inner.close s).2.1.IsProper ∧ (a.inner.close s).2.1.isClosed = true ∧
      opened fds (a.inner.close s).2.2 := by
  have hinner := (h.kept_holds fds (a.isFinished = true)).close_writer ha
  have hclosed := a.inner.isClosed_close s
  exact ⟨hinner.isProper, hclosed, hinner.opened_of_isClosed hclosed⟩

private theorem close_atomic (h : Book opened)
    (ha : a.inner.Holds opened fds (a.isFinished = true) s) :
    (a.close s).2.1.inner.Holds opened fds ((a.close s).2.1.isFinished = true) (a.close s).2.2 ∧
      (a.close s).2.1.inner.isClosed = true := by
  unfold AtomicWriter.close
  split
  · rename_i hfinished
    exact ⟨ha, ha.isClosed_of_ended hfinished⟩
  · obtain ⟨hproper, hclosed, hs₁⟩ := h.closed_inner ha
    generalize a.inner.close s = result at hproper hclosed hs₁ ⊢
    obtain ⟨closed, w, s₁⟩ := result
    cases closed with
    | error e =>
      exact ⟨hproper.holds_of_isClosed hclosed (h.discard _ hs₁ e), hclosed⟩
    | ok =>
      have hpublish := h.publish { a with inner := w, isFinished := true } hs₁
      dsimp only
      generalize AtomicWriter.publish _ s₁ = result at hpublish ⊢
      obtain ⟨e | ⟨⟨⟩⟩, s₂⟩ := result
      · exact ⟨hproper.holds_of_isClosed hclosed (h.discard _ hpublish e), hclosed⟩
      · exact ⟨hproper.holds_of_isClosed hclosed hpublish, hclosed⟩

theorem abort_atomic (h : Book opened) (ha : a.inner.Holds opened fds (a.isFinished = true) s) :
    (a.abort s).2.1.inner.Holds opened fds ((a.abort s).2.1.isFinished = true) (a.abort s).2.2 ∧
      (a.abort s).2.1.inner.isClosed = true := by
  unfold AtomicWriter.abort
  split
  · rename_i hfinished
    exact ⟨ha, ha.isClosed_of_ended hfinished⟩
  · obtain ⟨hproper, hclosed, hs₁⟩ := h.closed_inner ha
    generalize a.inner.close s = result at hproper hclosed hs₁ ⊢
    obtain ⟨closed, w, s₁⟩ := result
    exact ⟨hproper.holds_of_isClosed hclosed (h.removeTemporary _ hs₁), hclosed⟩

end Book

namespace Output

def held (o : Output) : Multiset Fd := o.writer.held

def IsOver : Output → Prop
  | direct _ => False
  | atomic a => a.isFinished = true

/-- A stream that holds its descriptor, beside those of others. -/
def Owns (opened : Multiset Fd → σ → Prop) (fds : Multiset Fd) (o : Output) (s : σ) : Prop :=
  o.writer.Holds opened fds o.IsOver s

def IsProper (o : Output) : Prop :=
  o.writer.IsProper ∧ (o.IsOver → o.writer.isClosed = true)

omit [StoreClient σ] in
theorem owns_iff {o : Output} :
    o.Owns opened fds s ↔ o.IsProper ∧ opened (o.held + fds) s :=
  ⟨fun h => ⟨⟨h.isProper, h.isClosed_of_ended⟩, h.opened⟩, fun h => ⟨h.1.1, h.1.2, h.2⟩⟩

theorem isOver_withWriter (o : Output) (w : Writer) : (o.withWriter w).IsOver = o.IsOver := by
  cases o <;> rfl

omit [StoreClient σ] in
theorem Owns.onWriter {α : Type} {o : Output} {act : Writer → σ → Except VolumeError α × Writer × σ}
    (hact : (act o.writer s).2.1.Holds opened fds o.IsOver (act o.writer s).2.2) :
    (o.onWriter s act).2.1.Owns opened fds (o.onWriter s act).2.2 := by
  unfold Owns Output.onWriter
  rwa [writer_withWriter, isOver_withWriter]

variable {o : Output}

theorem Owns.writeBytes (h : Book opened) (ho : o.Owns opened fds s) (bytes : ByteArray) :
    (o.writeBytes s bytes).2.1.Owns opened fds (o.writeBytes s bytes).2.2 :=
  .onWriter ((h.kept_holds fds o.IsOver).writeBytes ho bytes)

theorem Owns.flush (h : Book opened) (ho : o.Owns opened fds s) :
    (o.flush s).2.1.Owns opened fds (o.flush s).2.2 :=
  .onWriter ((h.kept_holds fds o.IsOver).flush_writer ho)

theorem Owns.close (h : Book opened) (ho : o.Owns opened fds s) :
    (o.close s).2.1.Owns opened fds (o.close s).2.2 := by
  cases o with
  | direct w => exact (h.kept_holds fds False).close_writer ho
  | atomic a => exact (h.close_atomic ho).1

theorem opened_close (h : Book opened) {o : Output} {s : σ} (ho : o.Owns opened fds s) :
    opened fds (o.close s).2.2 := by
  cases o with
  | direct w => exact (Owns.close h ho).opened_of_isClosed (w.isClosed_close s)
  | atomic a =>
    obtain ⟨hclosed, hisClosed⟩ := h.close_atomic ho
    exact hclosed.opened_of_isClosed hisClosed

theorem Owns.drop (h : Book opened) (ho : o.Owns opened fds s) : opened fds (o.drop s) := by
  cases o with
  | direct w =>
    exact ((h.kept_holds fds False).close_writer ho).opened_of_isClosed (w.isClosed_close s)
  | atomic a =>
    obtain ⟨hinner, hclosed⟩ := h.abort_atomic ho
    exact hinner.opened_of_isClosed hclosed

end Output

namespace Reader

def held (r : Reader) : Multiset Fd := if r.isClosed then 0 else {r.fd}

def IsProper (r : Reader) : Prop :=
  r.handle = if r.isClosed then none else some ⟨r.fd, r.path⟩

/-- A stream that holds its descriptor, beside those of others. -/
structure Owns (opened : Multiset Fd → σ → Prop) (fds : Multiset Fd) (r : Reader) (s : σ) :
    Prop where
  isProper : r.IsProper
  opened : opened (r.held + fds) s

variable {r : Reader}

omit [StoreClient σ] in
private theorem Owns.of_some (hr : r.Owns opened fds s) {handle : Handle}
    (h : r.handle = some handle) :
    r.isClosed = false ∧ handle.fd = r.fd := by
  rw [hr.isProper] at h
  split at h
  · cases h
  · rename_i hopen
    cases h
    exact ⟨Bool.eq_false_iff.2 hopen, rfl⟩

omit [StoreClient σ] in
theorem Owns.seek (hr : r.Owns opened fds s) (position : Nat) :
    (r.seek position).2.Owns opened fds s := by
  unfold Reader.seek
  split
  · exact hr
  · split
    · exact hr
    · exact ⟨hr.isProper, hr.opened⟩

private theorem Owns.fill (h : Book opened) (hr : r.Owns opened fds s) :
    (r.fill s).2.1.Owns opened fds (r.fill s).2.2 := by
  unfold Reader.fill
  split
  · exact hr
  · split
    · exact hr
    · split
      · rename_i handle buffer hhandle _
        obtain ⟨hopen, hfd⟩ := hr.of_some hhandle
        have hmem : handle.fd ∈ r.held + fds := by simp [Reader.held, hopen, hfd]
        have hread := h.read buffer.bytes r.fileOffset hmem hr.opened
        generalize StoreClient.read s handle.fd buffer.bytes r.fileOffset = result at hread ⊢
        obtain ⟨code | count, bytes, s'⟩ := result
        · exact ⟨hr.isProper, hread⟩
        · dsimp only
          split <;> exact ⟨hr.isProper, hread⟩
      · exact hr

theorem Owns.readByte (h : Book opened) (hr : r.Owns opened fds s) :
    (r.readByte s).2.1.Owns opened fds (r.readByte s).2.2 := by
  have hfill := hr.fill h
  unfold Reader.readByte
  generalize r.fill s = result at hfill ⊢
  obtain ⟨e | _ | _, r', s'⟩ := result
  · exact hfill
  · exact hfill
  · exact ⟨hfill.isProper, hfill.opened⟩

theorem Owns.read (h : Book opened) (hr : r.Owns opened fds s) (dest : ByteArray) :
    (r.read s dest).2.2.1.Owns opened fds (r.read s dest).2.2.2 := by
  unfold Reader.read
  split
  · exact hr
  · have hfill := hr.fill h
    generalize r.fill s = result at hfill ⊢
    obtain ⟨e | _ | _, r', s'⟩ := result
    · exact hfill
    · exact hfill
    · exact ⟨hfill.isProper, hfill.opened⟩

theorem Owns.readInto (h : Book opened) (hr : r.Owns opened fds s) (dest : ByteArray)
    (offset length : Nat) : (r.readInto s dest offset length).2.2.1.Owns opened fds
      (r.readInto s dest offset length).2.2.2 := by
  unfold Reader.readInto
  split
  · exact hr
  · have hread := hr.read h (dest.extract offset (offset + length))
    generalize r.read s (dest.extract offset (offset + length)) = result at hread ⊢
    exact hread

theorem Owns.readAll (h : Book opened) (hr : r.Owns opened fds s) (dest : ByteArray) (times : Nat)
    (taken : ByteArray) (counts : List Nat) :
    (r.readAll s dest times taken counts).2.1.Owns opened fds
      (r.readAll s dest times taken counts).2.2 := by
  induction times generalizing r s taken counts with
  | zero => exact hr
  | succ times ih =>
    have hread := hr.read h dest
    unfold Reader.readAll
    generalize r.read s dest = result at hread ⊢
    obtain ⟨e | _ | count, piece, r', s'⟩ := result
    · exact hread
    · exact hread
    · exact ih hread _ _

theorem Owns.streamSeek (h : Book opened) (hr : r.Owns opened fds s) (whence : SeekOrigin)
    (distance : Int) :
    (r.streamSeek s whence distance).2.1.Owns opened fds (r.streamSeek s whence distance).2.2 := by
  have horigin : opened (r.held + fds) (r.origin s whence).2 := by
    unfold Reader.origin
    split
    · exact hr.opened
    · exact hr.opened
    · split
      · exact hr.opened
      · have hattr := h.getAttr r.path hr.opened
        generalize StoreClient.getAttr s r.path = result at hattr ⊢
        obtain ⟨code | stat, s'⟩ := result <;> exact hattr
  unfold Reader.streamSeek
  generalize r.origin s whence = result at horigin ⊢
  obtain ⟨e | base, s'⟩ := result
  · exact ⟨hr.isProper, horigin⟩
  · have hr' : r.Owns opened fds s' := ⟨hr.isProper, horigin⟩
    dsimp only
    split
    · exact hr'
    · exact hr'.seek _

theorem Owns.close (h : Book opened) (hr : r.Owns opened fds s) :
    (r.close s).2.2.1.Owns opened fds (r.close s).2.2.2 ∧ opened fds (r.close s).2.2.2 := by
  unfold Reader.close
  split
  · rename_i hclosed
    have hs := hr.opened
    rw [Reader.held, if_pos hclosed, zero_add] at hs
    exact ⟨hr, hs⟩
  · rename_i hopen
    have hhandle := hr.isProper
    have hs := hr.opened
    rw [IsProper, if_neg hopen] at hhandle
    rw [Reader.held, if_neg hopen, Multiset.singleton_add] at hs
    have hclose := h.close hs
    rw [hhandle]
    unfold Handle.close
    dsimp only
    generalize StoreClient.close s r.fd = result at hclose ⊢
    obtain ⟨code | ⟨⟨⟩⟩, s'⟩ := result
    · exact ⟨⟨rfl, by rwa [Reader.held, if_pos rfl, zero_add]⟩, hclose⟩
    · exact ⟨⟨rfl, by rwa [Reader.held, if_pos rfl, zero_add]⟩, hclose⟩

end Reader
end VolumeFs
