import VolumeFs.Proofs.Stream.Failures
import VolumeFs.Proofs.Stream.Held

/-!
# How the end of a write stream is reported

Ending a write stream takes several calls on the store, and where one of them fails others still
follow. What the stream answers holds all that failed, whatever was done with the stream before and
whatever the store answered then.
-/

namespace VolumeFs

open Exchange

deriving instance DecidableEq for Exchange

/-- A broken stream still has bytes which the store does not have. -/
def Writer.lost (w : Writer) : List VolumeError :=
  if w.isClosed = false ∧ w.isBroken = true ∧ w.buffer.size ≠ 0 then [.streamBroken w.path] else []

private theorem Writer.lost_of_isClosed {w : Writer} (h : w.isClosed = true) : w.lost = [] := by
  rw [Writer.lost, h, if_neg (fun hlost => Bool.noConfusion hlost.1)]

/-- The streams that there can be: a new one, and what becomes of one by a call or when it is ended.
The store may be another one at each time. -/
inductive Output.ComesAbout : Output → Prop where
  | direct (handle : Handle) (offset bufferSize : Nat) :
      ComesAbout (.direct (.new handle offset bufferSize))
  | atomic (handle : Handle) (offset bufferSize : Nat) (temporaryPath finalPath : String) :
      ComesAbout (.atomic ⟨.new handle offset bufferSize, temporaryPath, finalPath, false⟩)
  | call {σ : Type} [StoreClient σ] {o} (h : ComesAbout o) (s : σ) (call : WriteCall) :
      ComesAbout (call.on o s).2.1
  | close {σ : Type} [StoreClient σ] {o} (h : ComesAbout o) (s : σ) : ComesAbout (o.close s).2.1
  | abort {σ : Type} [StoreClient σ] {a} (h : ComesAbout (.atomic a)) (s : σ) :
      ComesAbout (.atomic (a.abort s).2.1)

private theorem Book.trivial {σ : Type} [StoreClient σ] : Book fun _ (_ : σ) => True := by
  constructor <;> intros <;> exact True.intro

private theorem Output.IsProper.owns {σ : Type} {o : Output} (h : o.IsProper) (s : σ) :
    o.Owns (fun _ (_ : σ) => True) 0 s :=
  Output.owns_iff.2 ⟨h, True.intro⟩

theorem Output.ComesAbout.isProper {o : Output} (h : o.ComesAbout) : o.IsProper := by
  induction h with
  | direct => exact ⟨rfl, False.elim⟩
  | atomic => exact ⟨rfl, nofun⟩
  | @call σ _ o _ s call ih =>
    have hcall := (Book.trivial.kept_holds 0 o.IsOver).call (ih.owns s) call
    obtain ⟨w, hw⟩ := WriteCall.exists_withWriter o s call
    rw [hw] at hcall ⊢
    refine ⟨hcall.isProper, fun hover => hcall.isClosed_of_ended ?_⟩
    rwa [isOver_withWriter] at hover
  | close _ s ih => exact (owns_iff.1 ((ih.owns s).close Book.trivial)).1
  | @abort σ _ a _ s ih =>
    obtain ⟨habort, -⟩ := Book.trivial.abort_atomic (ih.owns s)
    exact ⟨habort.isProper, habort.isClosed_of_ended⟩

namespace Writer

variable {σ : Type} [StoreClient σ] {w : Writer} {t : Traced σ} {handle : Handle}
  {path : String}

private theorem reports_commit (hhandle : w.handle = some ⟨w.fd, w.path⟩)
    (ht : failures w.path t.exchanges = []) :
    Reports (failures w.path (w.commit t).2.2.exchanges) (w.commit t).1 ∧
      (w.commit t).2.1.handle = w.handle ∧ (w.commit t).2.1.fd = w.fd ∧
      (w.commit t).2.1.path = w.path := by
  have hwrite : StoreClient.write t w.fd w.buffer w.commitOffset =
      t.noted (.write w.fd w.buffer w.commitOffset)
        (StoreClient.write t.store w.fd w.buffer w.commitOffset) := rfl
  unfold Writer.commit
  split
  · exact ⟨ht, rfl, rfl, rfl⟩
  · simp only [hhandle, hwrite, Traced.noted]
    generalize StoreClient.write t.store w.fd w.buffer w.commitOffset = outcome
    obtain ⟨code | count, s⟩ := outcome
    · refine ⟨?_, rfl, rfl, rfl⟩
      rw [failures_concat ht]
      exact .ofErrno code w.path
    · dsimp only
      by_cases hcount : count = w.buffer.size
      · simp only [if_pos hcount, failures_concat ht, failure?]
        exact ⟨rfl, trivial, trivial, trivial⟩
      · simp only [if_neg hcount, failures_concat ht, failure?]
        exact ⟨.of_causes rfl, trivial, trivial, trivial⟩

private theorem reports_commitAndFlush (hhandle : w.handle = some ⟨w.fd, w.path⟩)
    (ht : failures w.path t.exchanges = []) :
    Reports (failures w.path (w.commitAndFlush t).2.2.exchanges) (w.commitAndFlush t).1 ∧
      (w.commitAndFlush t).2.1.handle = w.handle ∧ (w.commitAndFlush t).2.1.fd = w.fd := by
  obtain ⟨hreports, hsame, hfd, hpath⟩ := reports_commit hhandle ht
  unfold Writer.commitAndFlush
  generalize w.commit t = outcome at hreports hsame hfd hpath
  obtain ⟨e | ⟨⟨⟩⟩, w', t'⟩ := outcome
  · exact ⟨hreports, hsame, hfd⟩
  · dsimp only at hreports hsame hfd hpath ⊢
    have hflush : StoreClient.flush t' w.fd =
        t'.noted (.flush w.fd) (StoreClient.flush t'.store w.fd) := rfl
    rw [hsame, hhandle]
    simp only [hflush, Traced.noted]
    generalize StoreClient.flush t'.store w.fd = outcome
    have hnone : failures w.path t'.exchanges = [] := hreports
    obtain ⟨code | ⟨⟨⟩⟩, s⟩ := outcome
    · refine ⟨?_, rfl, hfd⟩
      rw [failures_concat hnone, ← hfd]
      exact .of_causes rfl
    · refine ⟨?_, hsame.trans hhandle, hfd⟩
      rw [failures_concat hnone]
      rfl

private theorem reports_settle (hhandle : w.handle = some ⟨w.fd, w.path⟩)
    (hopen : w.isClosed = false) (ht : t.exchanges = []) :
    Reports (w.lost ++ failures w.path (w.settle t).2.2.exchanges) (w.settle t).1 ∧
      (w.settle t).2.1.handle = w.handle ∧ (w.settle t).2.1.fd = w.fd := by
  have hnone : failures w.path t.exchanges = [] := by rw [ht, failures_nil]
  unfold Writer.settle
  cases hbroken : w.isBroken with
  | false =>
    have hlost : w.lost = [] := by
      rw [lost, hbroken, if_neg (fun hlost => Bool.noConfusion hlost.2.1)]
    rw [hlost, List.nil_append]
    exact reports_commitAndFlush hhandle hnone
  | true =>
    by_cases hsize : w.buffer.size = 0
    · have hlost : w.lost = [] := by
        rw [lost, if_neg (fun hlost => hlost.2.2 hsize)]
      simp [hsize, hlost, hnone, Reports]
    · have hlost : w.lost = [.streamBroken w.path] := by
        rw [lost, if_pos ⟨hopen, hbroken, hsize⟩]
      simp only [Bool.not_true, Bool.false_eq_true, if_false, if_pos hsize, hlost, hnone]
      exact ⟨.of_causes rfl, trivial, trivial⟩

private theorem reports_release {failed : List VolumeError} {settled : Except VolumeError Unit}
    (hhandle : w.handle = some handle) (hfd : handle.fd = w.fd)
    (h : Reports (failed ++ failures path t.exchanges) settled) :
    Reports (failed ++ failures path (w.release t).2.2.exchanges)
      (VolumeError.combine settled (w.release t).1) := by
  unfold Writer.release
  simp only [hhandle, Handle.close_eq_noted, Traced.noted]
  generalize StoreClient.close t.store handle.fd = outcome
  obtain ⟨code | ⟨⟨⟩⟩, s⟩ := outcome
  · simp only [failures_append, ← List.append_assoc, failures_singleton, failure?, hfd]
    exact h.combine (.of_causes rfl)
  · simp only [failures_append, ← List.append_assoc, failures_singleton, failure?]
    exact h.combine rfl

theorem reports_close (h : w.IsProper) (s : σ) :
    Reports (w.lost ++ failures w.path (w.close (Traced.mk s [])).2.2.exchanges)
      (w.close (Traced.mk s [])).1 := by
  unfold Writer.close
  split
  · rename_i hclosed
    rw [w.lost_of_isClosed hclosed]
    rfl
  · rename_i hopen
    have hopen := Bool.eq_false_iff.2 hopen
    have hhandle : w.handle = some ⟨w.fd, w.path⟩ := by rw [h, hopen]; rfl
    obtain ⟨hreports, hsame, hfd⟩ := reports_settle (t := Traced.mk s []) hhandle hopen rfl
    exact reports_release (hsame.trans hhandle) hfd.symm hreports

private theorem rename_notMem_close (w : Writer) (s : σ) (source target : String)
    (answer : Except Errno Unit) :
    Exchange.rename source target answer ∉ (w.close (Traced.mk s [])).2.2.exchanges := by
  have hkept : Kept fun (_ : Writer) (t : Traced σ) =>
      .rename source target answer ∉ t.exchanges := by
    constructor
    · exact fun _ _ _ ht => ht
    · intro w t handle bytes offset hhandle ht
      simpa [StoreClient.write, Traced.noted] using ht
    · intro w t handle hhandle ht
      simpa [StoreClient.flush, Traced.noted] using ht
    · intro w t handle hhandle ht
      simpa [StoreClient.close, Traced.noted] using ht
    · exact fun _ ht => ht
  exact hkept.close_writer List.not_mem_nil

end Writer

namespace AtomicWriter

def blockedMove (a : AtomicWriter) : Exchange :=
  .rename a.temporaryPath a.finalPath (.error .eexist)

/-- The exchanges that count where an atomic stream is ended: all but the first move, if a file was
in its way, and but the removal in the end, if there was no temporary file any more. -/
def counted (a : AtomicWriter) (exchanges : List Exchange) : List Exchange :=
  let moved := exchanges.erase a.blockedMove
  if moved.getLast? = some (.unlink a.temporaryPath (.error .enoent)) then moved.dropLast else moved

variable {σ : Type} [StoreClient σ] {a : AtomicWriter} {t : Traced σ} {path : String}
  {lost : List VolumeError} {result : Except VolumeError Unit}

private theorem counted_concat_unlink (a : AtomicWriter) (exchanges : List Exchange)
    (answer : Except Errno Unit) :
    a.counted (exchanges ++ [.unlink a.temporaryPath answer]) = exchanges.erase a.blockedMove ++
      if answer = .error .enoent then [] else [.unlink a.temporaryPath answer] := by
  have hmoved : (exchanges ++ [Exchange.unlink a.temporaryPath answer]).erase a.blockedMove =
      exchanges.erase a.blockedMove ++ [.unlink a.temporaryPath answer] := by
    rw [List.erase_append]
    split
    · rfl
    · rename_i hnone
      rw [List.erase_of_not_mem hnone, List.erase_of_not_mem (by simp [blockedMove])]
  simp only [counted, hmoved, List.getLast?_append, List.getLast?_singleton, Option.some_or,
    Option.some.injEq, Exchange.unlink.injEq, true_and, List.dropLast_concat]
  split
  · rw [List.append_nil]
  · rfl

private theorem reports_counted_of_ok {exchanges : List Exchange}
    (h : Reports (lost ++ failures path (exchanges.erase a.blockedMove))
      (.ok () : Except VolumeError Unit)) :
    Reports (lost ++ failures path (a.counted exchanges)) (.ok () : Except VolumeError Unit) := by
  obtain ⟨rfl, hnone⟩ := List.append_eq_nil_iff.1 h
  rw [failures, List.filterMap_eq_nil_iff] at hnone
  show failures path (a.counted exchanges) = []
  rw [failures, List.filterMap_eq_nil_iff]
  intro exchange hmem
  apply hnone
  simp only [counted] at hmem
  split at hmem
  · exact List.mem_of_mem_dropLast hmem
  · exact hmem

private theorem reports_removeTemporary
    (h : Reports (lost ++ failures path (t.exchanges.erase a.blockedMove)) result) :
    Reports (lost ++ failures path (a.counted (a.removeTemporary t).2.exchanges))
      (VolumeError.combine result (a.removeTemporary t).1) := by
  have hunlink : StoreClient.unlink t a.temporaryPath = t.noted (.unlink a.temporaryPath)
      (StoreClient.unlink t.store a.temporaryPath) := rfl
  unfold removeTemporary
  simp only [hunlink, Traced.noted]
  generalize StoreClient.unlink t.store a.temporaryPath = outcome
  obtain ⟨code | ⟨⟨⟩⟩, s⟩ := outcome
  · dsimp only
    split
    · rename_i hcode
      simp only [counted_concat_unlink, hcode, if_true, List.append_nil]
      rwa [VolumeError.combine_ok]
    · rename_i hcode
      have hcounts : (Except.error code : Except Errno Unit) ≠ .error .enoent := by
        simpa using hcode
      simp only [counted_concat_unlink, if_neg hcounts, failures_append, ← List.append_assoc,
        failures_singleton]
      exact h.combine (.ofErrno code a.temporaryPath)
  · simp only [counted_concat_unlink, reduceCtorEq, if_false, failures_append,
      ← List.append_assoc, failures_singleton]
    exact h.combine rfl

private theorem moveIntoPlace_eq (a : AtomicWriter) (t : Traced σ) :
    ∃ answer s, a.moveIntoPlace t = (answer,
      ⟨s, t.exchanges ++ [.rename a.temporaryPath a.finalPath answer]⟩) :=
  ⟨_, _, rfl⟩

private theorem reports_publish (ht : failures path t.exchanges = [])
    (hfree : a.blockedMove ∉ t.exchanges) :
    Reports (failures path ((a.publish t).2.exchanges.erase a.blockedMove)) (a.publish t).1 := by
  have hmoved {answer : Except Errno Unit} (hanswer : answer ≠ .error .eexist) :
      failures path ((t.exchanges ++ [rename a.temporaryPath a.finalPath answer]).erase
        a.blockedMove) = (failure? path (.rename a.temporaryPath a.finalPath answer)).toList := by
    have hother : a.blockedMove ∉ [Exchange.rename a.temporaryPath a.finalPath answer] := by
      simpa [blockedMove] using hanswer.symm
    rw [List.erase_append_right _ hfree, failures_append, ht, List.erase_of_not_mem hother,
      List.nil_append, failures_singleton]
  -- A first move that finds a file in its way is left out; all that comes after it counts.
  have hblocked (more : List Exchange) :
      failures path ((t.exchanges ++ [a.blockedMove] ++ more).erase a.blockedMove) =
        failures path more := by
    rw [List.append_assoc, List.erase_append_right _ hfree, failures_append, ht, List.nil_append,
      List.singleton_append, List.erase_cons_head]
  obtain ⟨first, s₁, hfirst⟩ := a.moveIntoPlace_eq t
  unfold publish
  rw [hfirst]
  obtain code | ⟨⟨⟩⟩ := first
  · dsimp only
    split
    · rename_i hcode
      have hother : (Except.error code : Except Errno Unit) ≠ .error .eexist := by simpa using hcode
      rw [hmoved hother]
      exact .ofErrno code a.finalPath
    · rename_i hcode
      obtain rfl := not_not.1 hcode
      have hunlink (t : Traced σ) : StoreClient.unlink t a.finalPath =
          t.noted (.unlink a.finalPath) (StoreClient.unlink t.store a.finalPath) := rfl
      simp only [hunlink, Traced.noted]
      generalize StoreClient.unlink s₁ a.finalPath = outcome
      obtain ⟨code | ⟨⟨⟩⟩, s₂⟩ := outcome
      · dsimp only
        rw [← blockedMove, hblocked, failures_singleton]
        exact .ofErrno code a.finalPath
      · dsimp only
        obtain ⟨second, s₃, hsecond⟩ := a.moveIntoPlace_eq
          ⟨s₂, t.exchanges ++ [a.blockedMove] ++ [.unlink a.finalPath (.ok ())]⟩
        rw [← blockedMove, hsecond]
        obtain code | ⟨⟨⟩⟩ := second
        · dsimp only
          rw [List.append_assoc, hblocked]
          exact .ofErrno code a.finalPath
        · dsimp only
          rw [List.append_assoc, hblocked]
          rfl
  · dsimp only
    rw [hmoved (by rintro ⟨⟩)]
    rfl

private theorem discard_eq (a : AtomicWriter) (t : Traced σ) (e : VolumeError) :
    VolumeError.combine (.error e) (a.removeTemporary t).1 = .error (a.discard t e).1 ∧
      (a.discard t e).2 = (a.removeTemporary t).2 := by
  unfold discard
  generalize a.removeTemporary t = outcome
  obtain ⟨cleanup | ⟨⟨⟩⟩, t'⟩ := outcome <;> exact ⟨rfl, rfl⟩

private theorem reports_discard {e : VolumeError}
    (h : Reports (lost ++ failures path (t.exchanges.erase a.blockedMove))
      (.error e : Except VolumeError Unit)) :
    Reports (lost ++ failures path (a.counted (a.discard t e).2.exchanges))
      (.error (a.discard t e).1 : Except VolumeError Unit) := by
  obtain ⟨hresult, hstore⟩ := a.discard_eq t e
  rw [← hresult, hstore]
  exact reports_removeTemporary h

private theorem reports_of_isFinished (h : (Output.atomic a).IsProper)
    (hfinished : a.isFinished = true) :
    Reports (a.inner.lost ++ failures a.inner.path (a.counted []))
      (.ok () : Except VolumeError Unit) := by
  have hlost : a.inner.lost = [] := Writer.lost_of_isClosed (h.2 hfinished)
  rw [hlost]
  exact reports_counted_of_ok rfl

theorem reports_close (h : (Output.atomic a).IsProper) (s : σ) :
    Reports (a.inner.lost ++ failures a.inner.path
      (a.counted (a.close (Traced.mk s [])).2.2.exchanges)) (a.close (Traced.mk s [])).1 := by
  unfold AtomicWriter.close
  split
  · exact reports_of_isFinished h ‹_›
  · have hinner := a.inner.reports_close h.1 s
    have hfree := a.inner.rename_notMem_close s a.temporaryPath a.finalPath (.error .eexist)
    generalize a.inner.close (Traced.mk s []) = outcome at hinner hfree
    obtain ⟨e | ⟨⟨⟩⟩, w, t⟩ := outcome
    · dsimp only at hinner hfree ⊢
      rw [← List.erase_of_not_mem hfree] at hinner
      exact reports_discard hinner
    · dsimp only at hinner hfree ⊢
      obtain ⟨hlost, hnone⟩ := List.append_eq_nil_iff.1 hinner
      have hpublish := reports_publish (a := { a with inner := w, isFinished := true }) hnone hfree
      rw [← List.nil_append (failures _ _), ← hlost] at hpublish
      generalize AtomicWriter.publish _ t = outcome at hpublish ⊢
      obtain ⟨e | ⟨⟨⟩⟩, t'⟩ := outcome
      · exact reports_discard hpublish
      · exact reports_counted_of_ok hpublish

theorem reports_abort (h : (Output.atomic a).IsProper) (s : σ) :
    Reports (a.inner.lost ++ failures a.inner.path
      (a.counted (a.abort (Traced.mk s [])).2.2.exchanges)) (a.abort (Traced.mk s [])).1 := by
  unfold AtomicWriter.abort
  split
  · exact reports_of_isFinished h ‹_›
  · have hinner := a.inner.reports_close h.1 s
    have hfree := a.inner.rename_notMem_close s a.temporaryPath a.finalPath (.error .eexist)
    rw [← List.erase_of_not_mem hfree] at hinner
    exact reports_removeTemporary (a := { a with
      inner := (a.inner.close (Traced.mk s [])).2.1
      isFinished := true }) hinner

end AtomicWriter
end VolumeFs
