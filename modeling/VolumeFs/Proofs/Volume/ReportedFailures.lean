import VolumeFs.Proofs.Stream.Created
import VolumeFs.Proofs.Stream.Endings
import VolumeFs.Proofs.Volume.Pages
import VolumeFs.Volume.Tree

/-!
# No failure is kept back

Five operations make several calls on the store and go on after one of them has failed: closing a
direct or an atomic stream, giving an atomic stream up, setting a mode, and running a listing to its
end. Whatever the store answers, each of them succeeds if nothing failed, and otherwise reports
what failed first, with all that failed after it.
-/

namespace VolumeFs

open Exchange

variable {σ : Type} [StoreClient σ]

namespace Volume

def unavailable (v : Volume) : List VolumeError :=
  match v.session.client.1 with
  | .error e => [.session e]
  | .ok _ => []

private theorem reports_setMode (v : Volume) (s : σ) (path : String) (mode : UInt32) :
    let outcome := v.setMode (Traced.mk s []) path mode
    Reports (v.unavailable ++ failures (Path.ofText path) outcome.2.2.exchanges) outcome.1 ∧
      (v.unavailable ≠ [] → outcome.2.2.exchanges = []) := by
  simp only [setMode, withClient, unavailable]
  generalize v.session.client = outcome
  obtain ⟨e | client, session⟩ := outcome
  · exact ⟨.of_causes rfl, fun _ => rfl⟩
  · refine ⟨?_, fun hnone => absurd rfl hnone⟩
    have hopen : StoreClient.openPath (Traced.mk s []) (Path.ofText path) .readOnly 0 =
        (Traced.mk s []).noted (.openPath (Path.ofText path) .readOnly 0)
          (StoreClient.openPath s (Path.ofText path) .readOnly 0) := rfl
    simp only [Handle.openPath, hopen, Traced.noted]
    generalize StoreClient.openPath s (Path.ofText path) .readOnly 0 = outcome
    obtain ⟨code | fd, s₁⟩ := outcome
    · exact .ofErrno code (Path.ofText path)
    · have hchmod (t : Traced σ) : StoreClient.fchmod t fd mode =
          t.noted (.fchmod fd mode) (StoreClient.fchmod t.store fd mode) := rfl
      simp only [hchmod, Handle.close_eq_noted, Traced.noted, List.nil_append, List.cons_append]
      generalize StoreClient.fchmod s₁ fd mode = outcome
      obtain ⟨changed, s₂⟩ := outcome
      dsimp only
      generalize StoreClient.close s₂ fd = outcome
      obtain ⟨closed, s₃⟩ := outcome
      have hchanged : Reports (failures (Path.ofText path) [.fchmod fd mode changed])
          (changed.mapError (.ofErrno · (Path.ofText path))) := by
        obtain code | ⟨⟨⟩⟩ := changed
        · exact .ofErrno code (Path.ofText path)
        · rfl
      have hclosed : Reports (failures (Path.ofText path) [.close fd closed])
          (closed.mapError (.closeFailed fd ·)) := by
        obtain code | ⟨⟨⟩⟩ := closed
        · exact .of_causes rfl
        · rfl
      have hboth := hchanged.combine hclosed
      rwa [← failures_append] at hboth

end Volume

namespace Listing

def isFullBatch (limit : Nat) : Exchange → Bool
  | .readdir _ _ (.ok entries) => limit ≤ entries.length
  | _ => false

/-- How many full batches a listing was given. -/
def fullBatches (l : Listing) (exchanges : List Exchange) : Nat :=
  exchanges.countP (isFullBatch l.batchSize)

/-- Steps that are left before the listing ends or is given a full batch. -/
def slack (l : Listing) : Nat :=
  match l.state with
  | .idle => 2
  | .awaitingBatch _ => 1
  | .resolving _ entries => if l.batchSize ≤ entries.length then 2 else 0
  | .done | .failed => 0

/-- What becomes of a listing by a step, where nothing has failed before. -/
inductive Stepped (l : Listing) (before : List Exchange) :
    Option VolumeError → Listing → List Exchange → Prop where
  | failed {e l' exchanges} (h : Reports (failures l.path exchanges) (.error e : Except _ Unit)) :
      Stepped l before (some e) l' exchanges
  | ended {l' exchanges} (h : failures l.path exchanges = []) (hfinal : l'.state.isFinal = true) :
      Stepped l before none l' exchanges
  | goesOn {l' exchanges} (h : failures l.path exchanges = []) (hpath : l'.path = l.path)
      (hsize : l'.batchSize = l.batchSize)
      (hslack : 1 + l'.slack + 2 * l.fullBatches before ≤ l.slack + 2 * l.fullBatches exchanges) :
      Stepped l before none l' exchanges

variable {l : Listing} {t : Traced σ} {handle : Handle}

private theorem stepped_fail {before : List Exchange} {e : VolumeError}
    (h : Reports (failures l.path t.exchanges) (.error e : Except _ Unit)) :
    l.Stepped before (l.fail t handle e).1 (l.fail t handle e).2.1
      (l.fail t handle e).2.2.exchanges := by
  unfold fail
  simp only [Handle.close_eq_noted, Traced.noted]
  generalize StoreClient.close t.store handle.fd = outcome
  obtain ⟨code | ⟨⟨⟩⟩, s⟩ := outcome
  · refine .failed ?_
    rw [failures_append, failures_singleton]
    have hclosed : (VolumeError.closeFailed handle.fd code).causes =
        [.closeFailed handle.fd code] := rfl
    exact h.combine (.of_causes hclosed)
  · refine .failed ?_
    rw [failures_append, failures_singleton]
    exact h.combine (.nothing ())

private theorem stepped_finish {before : List Exchange} {last : Listing}
    (h : failures l.path t.exchanges = []) :
    l.Stepped before (last.finish t handle).1 (last.finish t handle).2.1
      (last.finish t handle).2.2.exchanges := by
  unfold finish
  simp only [Handle.close_eq_noted, Traced.noted]
  generalize StoreClient.close t.store handle.fd = outcome
  obtain ⟨code | ⟨⟨⟩⟩, s⟩ := outcome
  · refine .failed ?_
    rw [failures_concat h]
    exact .of_causes rfl
  · refine .ended ?_ rfl
    rw [failures_concat h]
    rfl

private theorem stepped (h : failures l.path t.exchanges = []) :
    l.Stepped t.exchanges (l.step t).1 (l.step t).2.1 (l.step t).2.2.exchanges := by
  have hread (handle : Handle) : StoreClient.readdir t handle.fd l.batchSize = t.noted
      (.readdir handle.fd l.batchSize) (StoreClient.readdir t.store handle.fd l.batchSize) := rfl
  have hbatch (handle : Handle) (inodes : List UInt64) :
      StoreClient.batchGetAttr t handle.fd inodes = t.noted (.batchGetAttr handle.fd inodes)
        (StoreClient.batchGetAttr t.store handle.fd inodes) := rfl
  unfold step
  cases hstate : l.state with
  | idle =>
    have hattr : StoreClient.getAttr t l.path =
        t.noted (.getAttr l.path) (StoreClient.getAttr t.store l.path) := rfl
    have hopen (t : Traced σ) : StoreClient.openPath t l.path .readOnly openMode =
        t.noted (.openPath l.path .readOnly openMode)
          (StoreClient.openPath t.store l.path .readOnly openMode) := rfl
    simp only [start, hattr, Traced.noted]
    generalize StoreClient.getAttr t.store l.path = outcome
    obtain ⟨code | stat, s⟩ := outcome
    · refine .failed ?_
      rw [failures_concat h]
      exact .ofErrno code l.path
    · have hfound : failures l.path (t.exchanges ++ [.getAttr l.path (.ok stat)]) = [] := by
        rw [failures_concat h]
        rfl
      dsimp only
      by_cases hfile : stat.isFile = true
      · rw [if_pos hfile]
        exact .ended hfound rfl
      · rw [if_neg hfile]
        simp only [Handle.openPath, hopen, Traced.noted]
        generalize StoreClient.openPath s l.path .readOnly openMode = outcome
        obtain ⟨code | fd, s'⟩ := outcome
        · refine .failed ?_
          rw [failures_concat hfound]
          exact .ofErrno code l.path
        · refine .goesOn ?_ rfl rfl ?_
          · rw [failures_concat hfound]
            rfl
          · simp [slack, hstate, fullBatches, isFullBatch]
  | awaitingBatch handle =>
    simp only [hread, Traced.noted]
    generalize StoreClient.readdir t.store handle.fd l.batchSize = outcome
    obtain ⟨code | _ | ⟨entry, entries⟩, s⟩ := outcome
    · apply stepped_fail
      rw [failures_concat h]
      exact .of_causes rfl
    · apply stepped_finish
      rw [failures_concat h]
      rfl
    · refine .goesOn ?_ rfl rfl ?_
      · rw [failures_concat h]
        rfl
      · simp only [slack, hstate, fullBatches, List.countP_append, List.countP_singleton,
          isFullBatch, decide_eq_true_eq]
        split <;> omega
  | resolving handle entries =>
    simp only [hbatch, Traced.noted]
    generalize StoreClient.batchGetAttr t.store handle.fd (entries.map (·.ino)) = outcome
    obtain ⟨code | stats, s⟩ := outcome
    · apply stepped_fail
      rw [failures_concat h]
      exact .of_causes rfl
    · dsimp only
      split
      · apply stepped_finish
        rw [failures_concat h]
        rfl
      · rename_i hfull
        refine .goesOn ?_ rfl rfl ?_
        · rw [failures_concat h]
          rfl
        · simp only [slack, hstate, if_pos (Nat.le_of_not_lt hfull), fullBatches,
            List.countP_append, List.countP_singleton, isFullBatch]
          omega
  | done => exact .ended h (by rw [hstate]; rfl)
  | failed => exact .ended h (by rw [hstate]; rfl)

/-- A listing that is run to its end reports what failed. It is not at its end after so many steps
only if it was given full batches all the time. -/
theorem reports_drain (h : failures l.path t.exchanges = []) (steps : Nat)
    (results : List Status) :
    let outcome := l.drain t steps results
    (outcome.1 = .error (.unfinished l.path) ∧ failures l.path outcome.2.2.exchanges = [] ∧
        steps + 2 * l.fullBatches t.exchanges ≤
          l.slack + 2 * l.fullBatches outcome.2.2.exchanges) ∨
      Reports (failures l.path outcome.2.2.exchanges) outcome.1 ∧
        outcome.2.1.state.isFinal = true := by
  induction steps generalizing l t results with
  | zero =>
    cases hfinal : l.state.isFinal with
    | true =>
      rw [drain_of_final hfinal]
      exact .inr ⟨h, hfinal⟩
    | false =>
      simp only [drain, hfinal]
      exact .inl ⟨rfl, h, by simp⟩
  | succ steps ih =>
    cases hfinal : l.state.isFinal with
    | true =>
      rw [drain_of_final hfinal]
      exact .inr ⟨h, hfinal⟩
    | false =>
      have hstep := stepped (l := { l with ready := [] }) h
      generalize hnext : step { l with ready := [] } t = outcome at hstep
      obtain ⟨failure, l', t'⟩ := outcome
      cases hstep with
      | failed hreports =>
        simp only [drain, hfinal, hnext]
        exact .inr ⟨hreports, rfl⟩
      | ended hnone hended =>
        rw [drain_of_step hfinal hnext, drain_of_final hended]
        exact .inr ⟨hnone, hended⟩
      | goesOn hnone hpath hsize hslack =>
        rw [drain_of_step hfinal hnext]
        have hpath : l'.path = l.path := hpath
        have hsize : l'.batchSize = l.batchSize := hsize
        have hslack : 1 + l'.slack + 2 * l.fullBatches t.exchanges ≤
            l.slack + 2 * l.fullBatches t'.exchanges := hslack
        have hrest := ih (hpath ▸ hnone) (results ++ l.ready)
        simp only [fullBatches, hpath, hsize] at hrest hslack ⊢
        rcases hrest with ⟨hanswer, hnone', hsteps⟩ | hreports
        · exact .inl ⟨hanswer, hnone', by omega⟩
        · exact .inr hreports

private theorem slack_le (l : Listing) : l.slack ≤ 2 := by
  unfold slack
  split
  · omega
  · omega
  · split <;> omega
  · omega
  · omega

private theorem toList_of_isFinal {steps : Nat}
    (hfinal : (l.drain t steps []).2.1.state.isFinal = true) :
    l.toList t steps = ((l.drain t steps []).1, (l.drain t steps []).2.2) := by
  have hnone : (l.drain t steps []).2.1.state.handle? = none := by
    generalize (l.drain t steps []).2.1.state = state at hfinal
    cases state with
    | idle | awaitingBatch | resolving => cases hfinal
    | done | failed => rfl
  simp only [toList, drop, hnone]

end Listing

/-- Whatever a store answers: where a stream is closed, where an atomic one is closed or given up,
where a mode is set, and where a listing is run to its end, the answer says what failed. Bytes that
a broken stream still had have failed first, and so has a session without a client, of which no
store hears. A listing that is not at its end was given full batches only. -/
theorem failures_reported (s : σ) :
    (∀ w : Writer, (Output.direct w).ComesAbout →
      let closed := w.close (Traced.mk s [])
      Reports (w.lost ++ failures w.path closed.2.2.exchanges) closed.1) ∧
    (∀ a : AtomicWriter, (Output.atomic a).ComesAbout →
      let closed := a.close (Traced.mk s [])
      let aborted := a.abort (Traced.mk s [])
      Reports (a.inner.lost ++ failures a.inner.path (a.counted closed.2.2.exchanges)) closed.1 ∧
        Reports (a.inner.lost ++ failures a.inner.path (a.counted aborted.2.2.exchanges))
          aborted.1) ∧
    (∀ (v : Volume) (path : String) (mode : UInt32),
      let changed := v.setMode (Traced.mk s []) path mode
      Reports (v.unavailable ++ failures (Path.ofText path) changed.2.2.exchanges) changed.1 ∧
        (v.unavailable ≠ [] → changed.2.2.exchanges = [])) ∧
    ∀ (l : Listing) (steps : Nat),
      let drained := l.drain (Traced.mk s []) steps []
      drained.1 = .error (.unfinished l.path) ∧ failures l.path drained.2.2.exchanges = [] ∧
          steps ≤ 2 * l.fullBatches drained.2.2.exchanges + 2 ∨
        Reports (failures l.path drained.2.2.exchanges) drained.1 ∧
          l.toList (Traced.mk s []) steps = (drained.1, drained.2.2) := by
  refine ⟨fun w hw => w.reports_close hw.isProper.1 s,
    fun a ha => ⟨AtomicWriter.reports_close ha.isProper s,
      AtomicWriter.reports_abort ha.isProper s⟩,
    fun v path mode => v.reports_setMode s path mode, fun l steps => ?_⟩
  have hslack := l.slack_le
  rcases Listing.reports_drain (l := l) (t := Traced.mk s []) rfl steps [] with
    ⟨hanswer, hnone, hsteps⟩ | ⟨hreports, hfinal⟩
  · simp only [Listing.fullBatches, List.countP_nil] at hsteps ⊢
    exact .inl ⟨hanswer, hnone, by omega⟩
  · exact .inr ⟨hreports, Listing.toList_of_isFinal hfinal⟩

open Memory in
/-- A write fails, then the descriptor is given back in vain, and the temporary file cannot be
removed. -/
theorem failures_reported_atomic_close :
    let store := ((Store.new {}).openPath "/t" Creation.flags 0o644).2
    let s : Scripted Store := ⟨store,
      { errors := [(.write, [some .eio]), (.close, [some .ebadf]), (.unlink, [some .eperm])] }⟩
    let inner := ((Writer.new ⟨⟨3⟩, "/t"⟩ 0 8).writeByte s 65).2.1
    let a : AtomicWriter := { inner, temporaryPath := "/t", finalPath := "/f" }
    ∃ e, (a.close (Traced.mk s [])).1 = .error e ∧ e.primary = .store "/t" .eio ∧
      e.causes = [.store "/t" .eio, .closeFailed ⟨3⟩ .ebadf, .store "/t" .eperm] := by
  intro store s inner a
  have hcomes : (Output.atomic a).ComesAbout :=
    .call (.atomic ⟨⟨3⟩, "/t"⟩ 0 8 "/t" "/f") s (.byte 65)
  have hfailed : a.inner.lost ++ failures a.inner.path
      (a.counted (a.close (Traced.mk s [])).2.2.exchanges) =
        [.store "/t" .eio, .closeFailed ⟨3⟩ .ebadf, .store "/t" .eperm] := by
    decide +kernel
  obtain ⟨-, hatomic, -⟩ := failures_reported s
  obtain ⟨hclosed, -⟩ := hatomic a hcomes
  rw [hfailed] at hclosed
  generalize (a.close (Traced.mk s [])).1 = result at hclosed
  cases result with
  | ok => cases hclosed
  | error e => exact ⟨e, rfl, (Option.some.inj hclosed.1).symm, hclosed.2⟩

open Memory in
/-- A volume that was closed does not set a mode, although the store has not failed. -/
theorem not_reported_of_closed :
    let s := (Store.new {}).putFile "/f" .empty
    let v := (Volume.tiny.close s).1
    let changed := v.setMode (Traced.mk s []) "/f" 0o600
    changed.2.2.exchanges = [] ∧ changed.1 = .error (.session .sessionClosed) ∧
      ¬ Reports (failures "/f" changed.2.2.exchanges) changed.1 := by
  intro s v changed
  have hnone : changed.2.2.exchanges = [] := by decide +kernel
  have hrefused : changed.1 = .error (.session .sessionClosed) := by decide +kernel
  refine ⟨hnone, hrefused, fun h => ?_⟩
  rw [hnone, hrefused] at h
  cases h.2

end VolumeFs
