import VolumeFs.Proofs.Stream.Failures
import VolumeFs.Stream.Output

/-!
# What a failure means

A failure can carry those of the cleaning up that it made necessary, one behind the other. What it
means is a matter of its first cause, and whether an entry was missing is judged by that one. The
kind that a byte stream reports is not: behind one failed cleaning up it is known for two kinds
only, and behind more of them it is not known at all.
-/

namespace VolumeFs.VolumeError

/-- How often the cleaning up after the first cause failed. -/
def cleanups : VolumeError → Nat
  | cleanupFailed primary _ => primary.cleanups + 1
  | _ => 0

private theorem isNotFound_iff_primary {e : VolumeError} :
    e.isNotFound = true ↔ ∃ path, e.primary = .notFound path := by
  induction e with
  | cleanupFailed primary cleanup ih _ => exact ih
  | _ => simp [isNotFound, primary]

/-- The kind of a failure is known from behind one failed cleaning up. -/
private def KeepsKind (e : VolumeError) : Prop :=
  e.cleanups = 0 ∧ (e.kind = .notFound ∨ e.kind = .writeZero)

private theorem KeepsKind.kind_withCleanup {e : VolumeError} (h : e.KeepsKind)
    (cleanup : VolumeError) :
    (e.withCleanup cleanup).kind = e.kind := by
  cases e with
  | notFound | shortWrite => rfl
  | cleanupFailed primary cleanup => simp [KeepsKind, cleanups] at h
  | _ => simp [KeepsKind, kind] at h

private theorem kind_withCleanup_of_not_keepsKind {e : VolumeError} (h : ¬ e.KeepsKind)
    (cleanup : VolumeError) : (e.withCleanup cleanup).kind = .other := by
  cases e with
  | notFound | shortWrite => simp [KeepsKind, cleanups, kind] at h
  | _ => rfl

private theorem kind_withCleanup_eq_iff {e cleanup : VolumeError} :
    (e.withCleanup cleanup).kind = e.kind ↔ e.kind = .other ∨ e.KeepsKind := by
  by_cases h : e.KeepsKind
  · simp [h, h.kind_withCleanup]
  · simp [h, kind_withCleanup_of_not_keepsKind h, eq_comm]

/-- A missing entry is told as such up to the first failure of the cleaning up. -/
theorem kind_eq_notFound_iff {e : VolumeError} :
    e.kind = .notFound ↔ e.isNotFound = true ∧ e.cleanups ≤ 1 := by
  cases e with
  | cleanupFailed primary cleanup =>
    cases primary with
    | cleanupFailed => simp [kind, cleanups]
    | _ => simp [kind, isNotFound, cleanups]
  | _ => simp [kind, isNotFound, cleanups]

/-- A failure of the cleaning up never changes whether an entry was missing, which is a matter of
the first cause. It changes what a byte stream reports, unless that told nothing before, or told of
a missing entry or a short write which nothing had been cleaned up after. So the two agree on what
is missing as long as cleaning up has failed no more than once. -/
theorem meaning_of_cleanups (e cleanup : VolumeError) :
    (e.withCleanup cleanup).isNotFound = e.isNotFound ∧
      (e.isNotFound = true ↔ ∃ path, e.primary = .notFound path) ∧
      ((StreamFailure.ofVolume (e.withCleanup cleanup)).kind = (StreamFailure.ofVolume e).kind ↔
        e.kind = .other ∨ e.cleanups = 0 ∧ (e.kind = .notFound ∨ e.kind = .writeZero)) ∧
      ((StreamFailure.ofVolume e).kind = .notFound ↔ e.isNotFound = true ∧ e.cleanups ≤ 1) := by
  refine ⟨rfl, isNotFound_iff_primary, ?_, ?_⟩
  · exact kind_withCleanup_eq_iff
  · exact kind_eq_notFound_iff

/-- A file was missing, a descriptor could not be closed, and a temporary file not be removed. Of an
entry that stood in the way nothing is told as soon as cleaning up has failed once. -/
theorem kind_lost_by_cleanups :
    let closing := (notFound "/f").withCleanup (closeFailed ⟨3⟩ .eio)
    let discarding := closing.withCleanup (store "/f.tmp" .eio)
    let publishing := alreadyExists "/f"
    (discarding.isNotFound = true ∧ (StreamFailure.ofVolume closing).kind = .notFound ∧
        (StreamFailure.ofVolume discarding).kind = .other) ∧
      (StreamFailure.ofVolume publishing).kind = .alreadyExists ∧
      (StreamFailure.ofVolume (publishing.withCleanup (store "/f.tmp" .eio))).kind = .other := by
  decide

end VolumeFs.VolumeError
