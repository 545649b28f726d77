import VolumeFs.Proofs.Store.Traced
import VolumeFs.Proofs.Stream.Created
import VolumeFs.Proofs.Stream.WriteCall

/-!
# Bytes on their way to an atomic file

A stream writes into its temporary file while writes may come short and flushes and closes may
fail. Nothing else in the tree changes, and what the temporary file holds in the end is known
wherever the stream can still be closed without a failure.
-/

namespace VolumeFs

open Bytes Memory

/-- The temporary file holds the bytes, and all other entries are the given ones. -/
structure Staged (path : String) (e : Entry) (entries : List String → Option Entry)
    (held : ByteArray) (s : Store) : Prop where
  forest : s.tree.Forest
  isUp : s.isShutDown = false
  failingUnlinks : s.faults.failingUnlinks = 0
  entryAt? : s.tree.entryAt? (components path) = some { e with bytes := some held }
  others : ∀ q, q ≠ components path → s.tree.entryAt? q = entries q

/-- The temporary file is open as well. -/
structure Staging (fd : Fd) (path : String) (e : Entry) (entries : List String → Option Entry)
    (held : ByteArray) (s : Store) : Prop extends Staged path e entries held s where
  openFile : ∃ file, s.openFile? fd = some file ∧ file.flags.isWritable = true ∧ file.ino = e.ino

section Staging

variable {fd : Fd} {path : String} {e : Entry} {entries : List String → Option Entry}
  {held : ByteArray} {s s' : Store}

private theorem Staging.writableAt (h : Staging fd path e entries held s) :
    s.WritableAt fd path { e with bytes := some held } :=
  ⟨h.forest, h.isUp, h.openFile, h.entryAt?⟩

private theorem Staging.of_writableAt (h : Staging fd path e entries held s) {held' : ByteArray}
    (hwritable : s'.WritableAt fd path { e with bytes := some held' })
    (hothers : ∀ q, q ≠ components path → s'.tree.entryAt? q = s.tree.entryAt? q)
    (hfaults : s'.faults = s.faults) : Staging fd path e entries held' s' where
  forest := hwritable.forest
  isUp := hwritable.isUp
  failingUnlinks := hfaults ▸ h.failingUnlinks
  entryAt? := hwritable.entryAt?
  others q hq := (hothers q hq).trans (h.others q hq)
  openFile := hwritable.openFile

private theorem Staging.write (h : Staging fd path e entries held s) (bytes : ByteArray)
    (offset : Nat) :
    ∃ s', s.write fd bytes offset = (.ok (s.acceptedCount bytes), s') ∧
      Staging fd path e entries (s.written held bytes offset) s' := by
  obtain ⟨s', hwrite, hwritable, hothers, hfaults, -⟩ := h.writableAt.write rfl bytes offset
  exact ⟨s', hwrite, h.of_writableAt hwritable hothers hfaults⟩

private theorem Staging.flush (h : Staging fd path e entries held s) :
    Staging fd path e entries held (s.flush fd).2 := by
  obtain ⟨s', hflush, hwritable, htree, hfaults, -⟩ := h.writableAt.flush
  rw [hflush]
  exact h.of_writableAt hwritable (fun q _ => by rw [htree]) hfaults

private theorem Staging.close (h : Staging fd path e entries held s) :
    Staged path e entries held (s.close fd).2 := by
  obtain ⟨s', hclose, htree, hup, hfaults, -⟩ := h.writableAt.close
  rw [hclose]
  exact ⟨htree ▸ h.forest, hup, hfaults ▸ h.failingUnlinks, htree ▸ h.entryAt?, htree ▸ h.others⟩

private theorem ledger_staging :
    Writer.Ledger fd fun pieces s => Staging fd path e entries (joined pieces) s where
  write := by
    intro pieces s s' piece h _ hwrite
    obtain ⟨s'', hwrite', h'⟩ := h.write piece (total pieces)
    have hsame : (Except.ok (s.acceptedCount piece), s'') = (.ok piece.size, s') :=
      hwrite'.symm.trans hwrite
    rw [Prod.mk.injEq, Except.ok.injEq] at hsame
    obtain ⟨hcount, rfl⟩ := hsame
    rwa [Store.written, hcount, ByteArray.extract_zero_size, ← size_joined, overlay_padded_size,
      ← joined_singleton piece, ← joined_append] at h'
  flush := by
    intro pieces s s' h hflush
    have h' := h.flush
    have hsame : s.flush fd = (.ok (), s') := hflush
    rwa [hsame] at h'

private theorem Staging.of_writeFails (h : Staging fd path e entries held s) {piece : ByteArray}
    {offset : Nat} (hwrite : Writer.WriteFails fd piece offset s s') :
    ∃ held', Staging fd path e entries held' s' := by
  obtain ⟨answer, hwrite, -⟩ := hwrite
  obtain ⟨s'', hwrite', h'⟩ := h.write piece offset
  have hsame : (Except.ok (s.acceptedCount piece), s'') = (answer, s') :=
    hwrite'.symm.trans hwrite
  cases hsame
  exact ⟨_, h'⟩

/-- A change of the faults that hit writes, flushes and closes. -/
def Refaulted (s s' : Store) : Prop :=
  ∃ shortWrite flushError closeError,
    s' = { s with faults := { s.faults with shortWrite, flushError, closeError } }

private theorem Staging.refaulted (h : Staging fd path e entries held s) (hs : Refaulted s s') :
    Staging fd path e entries held s' := by
  obtain ⟨shortWrite, flushError, closeError, rfl⟩ := hs
  exact ⟨⟨h.forest, h.isUp, h.failingUnlinks, h.entryAt?, h.others⟩, h.openFile⟩

end Staging

/-- Every call that handed over bytes and was refused came after a flush that had failed. -/
def RefusedAfterFlush (calls : List (WriteCall × WriteAnswer)) : Prop :=
  ∀ before call answer after, calls = before ++ (call, answer) :: after →
    (∃ bytes, call.request = .take bytes) → answer.isDone = false →
    ∃ p ∈ before, p.1.request = .flush ∧ p.2.isDone = false

theorem RefusedAfterFlush.nil : RefusedAfterFlush [] := by
  intro before call answer after h
  simp at h

theorem RefusedAfterFlush.concat {calls : List (WriteCall × WriteAnswer)}
    (h : RefusedAfterFlush calls) {call : WriteCall} {answer : WriteAnswer}
    (hlast : (∃ bytes, call.request = .take bytes) → answer.isDone = false →
      ∃ p ∈ calls, p.1.request = .flush ∧ p.2.isDone = false) :
    RefusedAfterFlush (calls ++ [(call, answer)]) := by
  intro before call' answer' after hsplit htake hrefused
  rcases concat_split hsplit with ⟨rfl, hpair, -⟩ | ⟨between, -, hbefore⟩
  · cases hpair
    exact hlast htake hrefused
  · exact h before call' answer' between hbefore htake hrefused

private theorem RefusedAfterFlush.concat_of_ne_take {calls : List (WriteCall × WriteAnswer)}
    (h : RefusedAfterFlush calls) {call : WriteCall} {answer : WriteAnswer}
    (hrequest : ∀ bytes, call.request ≠ .take bytes) :
    RefusedAfterFlush (calls ++ [(call, answer)]) := by
  apply h.concat
  rintro ⟨bytes, htake⟩
  exact absurd htake (hrequest bytes)

/-- Where a stream into the temporary file stands after some calls. A stream that is stuck and has
an empty buffer was broken by a flush that failed once all bytes were in the file. -/
inductive Progress (handle : Handle) (path : String) (e : Entry)
    (entries : List String → Option Entry) (calls : List (WriteCall × WriteAnswer)) (w : Writer)
    (s : Store) : Prop where
  | sound {pieces} (hw : w.IsSound handle) (hsize : w.buffer.size < w.capacity)
      (hs : Staging handle.fd path e entries (joined pieces) s)
      (hoffset : w.commitOffset = total pieces)
      (hbytes : joined pieces ++ w.buffer = handedOver calls) (hcalls : RefusedAfterFlush calls)
  | unflushed (hw : w.IsStuck handle) (hbuffer : w.buffer = .empty)
      (hs : Staging handle.fd path e entries (handedOver calls) s)
      (hcalls : RefusedAfterFlush calls)
      (hflush : ∃ p ∈ calls, p.1.request = .flush ∧ p.2.isDone = false)
  | lost {held} (hw : w.IsStuck handle) (hbuffer : w.buffer.size ≠ 0)
      (hs : Staging handle.fd path e entries held s)

section Progress

variable {handle : Handle} {path : String} {e : Entry} {entries : List String → Option Entry}
  {calls : List (WriteCall × WriteAnswer)} {w : Writer} {s s' : Store}

private theorem Progress.refaulted (h : Progress handle path e entries calls w s)
    (hs : Refaulted s s') :
    Progress handle path e entries calls w s' := by
  cases h with
  | sound hw hsize hstaging hoffset hbytes hcalls =>
    exact .sound hw hsize (hstaging.refaulted hs) hoffset hbytes hcalls
  | unflushed hw hbuffer hstaging hcalls hflush =>
    exact .unflushed hw hbuffer (hstaging.refaulted hs) hcalls hflush
  | lost hw hbuffer hstaging => exact .lost hw hbuffer (hstaging.refaulted hs)

section Sound

variable {pieces : List ByteArray} {call : WriteCall} {result : Except VolumeError Unit}
  {w' : Writer} (hw : w.IsSound handle) (hsize : w.buffer.size < w.capacity)
  (hs : Staging handle.fd path e entries (joined pieces) s)
  (hoffset : w.commitOffset = total pieces)
  (hbytes : joined pieces ++ w.buffer = handedOver calls) (hcalls : RefusedAfterFlush calls)

include hw hsize hs hoffset hbytes hcalls

private theorem Progress.take {bytes : ByteArray} (hrequest : call.request = .take bytes)
    (h : w.writeBytes s bytes = (result, w', s')) :
    Progress handle path e entries (calls ++ [(call, call.answer result)]) w' s' := by
  have hfilling := Writer.filling_writeBytes hw ledger_staging hsize hs hoffset bytes
  rw [h] at hfilling
  cases hfilling with
  | @done new rest _ _ hrest hjoined hs' =>
    have hhanded := handedOver_concat_ok calls call
    rw [WriteCall.handed, hrequest, WriteRequest.handed] at hhanded
    refine .sound ⟨hw.handle, hw.isClosed, hw.isBroken⟩ hrest hs' rfl ?_ (hcalls.concat ?_)
    · rw [hhanded, ← hbytes, joined_append, ByteArray.append_assoc, hjoined,
        ByteArray.append_assoc]
    · intro _ hfalse
      rw [call.isDone_answer_ok] at hfalse
      cases hfalse
  | broken hs' hne hwrite =>
    obtain ⟨held, hlost⟩ := hs'.of_writeFails hwrite
    exact .lost ⟨hw.handle, hw.isClosed, rfl⟩ hne hlost

private theorem Progress.flush (hrequest : call.request = .flush)
    (h : w.flush s = (result, w', s')) :
    Progress handle path e entries (calls ++ [(call, call.answer result)]) w' s' := by
  have hsame : handedOver (calls ++ [(call, call.answer result)]) = handedOver calls := by
    rw [handedOver_concat, WriteCall.handed, hrequest, WriteRequest.handed, ite_self,
      ByteArray.append_empty]
  have hnext : RefusedAfterFlush (calls ++ [(call, call.answer result)]) :=
    hcalls.concat_of_ne_take (by simp [hrequest])
  have hall : joined (pieces ++ remainder w.buffer) = handedOver calls := by
    rw [joined_append, joined_remainder, hbytes]
  have hflushing := Writer.flushing_flush hw ledger_staging hs hoffset
  rw [h] at hflushing
  cases hflushing with
  | done hs' =>
    refine .sound ⟨hw.handle, hw.isClosed, hw.isBroken⟩ ?_ hs' rfl ?_ hnext
    · exact Nat.lt_of_le_of_lt (Nat.zero_le _) hsize
    · rw [hsame, hall, ByteArray.append_empty]
  | notDurable hs' hflush =>
    have hkept := hs'.flush
    rw [show Store.flush _ handle.fd = _ from hflush, hall, ← hsame] at hkept
    refine .unflushed ⟨hw.handle, hw.isClosed, rfl⟩ rfl hkept hnext ?_
    exact ⟨_, List.mem_append_right _ List.mem_cons_self, hrequest, call.isDone_answer_error _⟩
  | notCommitted hne hwrite =>
    obtain ⟨held, hlost⟩ := hs.of_writeFails hwrite
    exact .lost ⟨hw.handle, hw.isClosed, rfl⟩ hne hlost

private theorem Progress.perform (h : call.request.perform w s = (result, w', s')) :
    Progress handle path e entries (calls ++ [(call, call.answer result)]) w' s' := by
  cases hrequest : call.request with
  | take bytes =>
    rw [hrequest] at h
    exact Progress.take hw hsize hs hoffset hbytes hcalls hrequest h
  | flush =>
    rw [hrequest] at h
    exact Progress.flush hw hsize hs hoffset hbytes hcalls hrequest h
  | outside =>
    rw [hrequest] at h
    cases h
    refine .sound hw hsize hs hoffset ?_ (hcalls.concat_of_ne_take (by simp [hrequest]))
    rw [hbytes, handedOver_concat_error]

end Sound

private theorem Progress.refuse (h : Progress handle path e entries calls w s)
    (hw : w.IsStuck handle) (call : WriteCall) (error : VolumeError) :
    Progress handle path e entries (calls ++ [(call, call.answer (.error error))]) w s := by
  have hhanded := handedOver_concat_error calls call error
  cases h with
  | sound hsound => exact absurd (hsound.isBroken.symm.trans hw.isBroken) Bool.false_ne_true
  | unflushed _ hbuffer hs hcalls hflush =>
    refine .unflushed hw hbuffer (hhanded.symm ▸ hs) (hcalls.concat fun _ _ => hflush) ?_
    obtain ⟨p, hp, hfailed⟩ := hflush
    exact ⟨p, List.mem_append_left _ hp, hfailed⟩
  | lost _ hbuffer hs => exact .lost hw hbuffer hs

private theorem Progress.call {o : Output} (h : Progress handle path e entries calls o.writer s)
    (call : WriteCall) : Progress handle path e entries (calls ++ [(call, (call.on o s).1)])
      (call.on o s).2.1.writer (call.on o s).2.2 := by
  cases h with
  | sound hw hsize hs hoffset hbytes hcalls =>
    rw [WriteCall.on_eq hsize]
    simp only [Output.writer_withWriter]
    exact Progress.perform hw hsize hs hoffset hbytes hcalls rfl
  | unflushed hw hbuffer hs hcalls hflush =>
    obtain ⟨error, hon⟩ := WriteCall.on_of_refused hw.checkWritable s call
    rw [hon]
    exact (Progress.unflushed hw hbuffer hs hcalls hflush).refuse hw call error
  | lost hw hbuffer hs =>
    obtain ⟨error, hon⟩ := WriteCall.on_of_refused hw.checkWritable s call
    rw [hon]
    exact (Progress.lost hw hbuffer hs).refuse hw call error

theorem progress_of_run {o₀ o : Output} {s₀ : Store}
    (h₀ : Progress handle path e entries [] o₀.writer s₀) (hrun : Run Refaulted o₀ s₀ calls o s) :
    Progress handle path e entries calls o.writer s := by
  induction hrun with
  | start => exact h₀
  | call _ call ih => exact ih.call call
  | step _ hs ih => exact ih.refaulted hs

theorem Progress.staging (h : Progress handle path e entries calls w s) :
    ∃ held, Staging handle.fd path e entries held s := by
  cases h with
  | sound _ _ hs => exact ⟨_, hs⟩
  | unflushed _ _ hs => exact ⟨_, hs⟩
  | lost _ _ hs => exact ⟨_, hs⟩

theorem Progress.close (h : Progress handle path e entries calls w s) :
    ∃ held, Staged path e entries held (w.close s).2.2 ∧
      ((w.close s).1 = .ok () → held = handedOver calls ∧ RefusedAfterFlush calls) := by
  -- Whatever settling does, the descriptor is given back and the file stays as it is.
  have hclose {result : Except VolumeError Unit} {w' : Writer} {s' : Store} {held : ByteArray}
      (hopen : w.isClosed = false) (hw' : w'.handle = some handle)
      (hsettle : w.settle s = (result, w', s')) (hs : Staging handle.fd path e entries held s')
      (hok : result = .ok () → held = handedOver calls ∧ RefusedAfterFlush calls) :
      ∃ held, Staged path e entries held (w.close s).2.2 ∧
        ((w.close s).1 = .ok () → held = handedOver calls ∧ RefusedAfterFlush calls) := by
    obtain ⟨hstore, hresult⟩ := Writer.close_of_settle hopen hsettle hw'
    refine ⟨held, ?_, fun h => hok (hresult.1 h).1⟩
    rw [hstore]
    exact hs.close
  cases h with
  | @sound pieces hw hsize hs hoffset hbytes hcalls =>
    have hall : joined (pieces ++ remainder w.buffer) = handedOver calls := by
      rw [joined_append, joined_remainder, hbytes]
    have hsettle : w.settle s = w.commitAndFlush s := by rw [Writer.settle, hw.isBroken]; rfl
    have hflushing := Writer.flushing_commitAndFlush hw.handle ledger_staging hs hoffset
    generalize w.commitAndFlush s = result at hflushing hsettle
    cases hflushing with
    | done hs' =>
      refine hclose hw.isClosed ?_ hsettle hs' fun _ => ⟨hall, hcalls⟩
      exact hw.handle
    | notDurable hs' hflush =>
      have hkept := hs'.flush
      rw [show Store.flush _ handle.fd = _ from hflush] at hkept
      refine hclose hw.isClosed ?_ hsettle hkept (by simp)
      exact hw.handle
    | notCommitted hne hwrite =>
      obtain ⟨held, hlost⟩ := hs.of_writeFails hwrite
      refine hclose hw.isClosed ?_ hsettle hlost (by simp)
      exact hw.handle
  | unflushed hw hbuffer hs hcalls hflush =>
    have hsettle : w.settle s = (.ok (), w, s) := by
      simp [Writer.settle, hw.isBroken, hbuffer]
    exact hclose hw.isClosed hw.handle hsettle hs fun _ => ⟨rfl, hcalls⟩
  | lost hw hbuffer hs =>
    have hsettle : w.settle s = (.error (.streamBroken w.path), w, s) := by
      simp [Writer.settle, hw.isBroken, hbuffer]
    exact hclose hw.isClosed hw.handle hsettle hs (by simp)

end Progress

end VolumeFs
