import VolumeFs.Proofs.Stream.Accounting

/-!
# What failed, and what is said of it

Each call on a store that fails has an error of its own. Where several calls of one operation fail,
the error of the operation is nested: it was put together step by step, while one thing after the
other was cleaned up. What it should hold are the errors of all these calls, the first one
outermost to the left.
-/

namespace VolumeFs

namespace VolumeError

/-- All that a failure is made of, from left to right. -/
def causes : VolumeError → List VolumeError
  | cleanupFailed primary cleanup => primary.causes ++ cleanup.causes
  | e => [e]

private theorem head?_causes (e : VolumeError) : e.causes.head? = some e.primary := by
  induction e with
  | cleanupFailed primary cleanup ih _ =>
    rw [causes, List.head?_append, ih]
    rfl
  | _ => rfl

private theorem causes_ofErrno (code : Errno) (path : String) :
    (ofErrno code path).causes = [ofErrno code path] := by
  unfold ofErrno
  repeat' split
  all_goals rfl

theorem combine_ok (result : Except VolumeError Unit) : combine result (.ok ()) = result := by
  rcases result with e | ⟨⟨⟩⟩ <;> rfl

end VolumeError

namespace Exchange

/-- What a call failed with, if it did. Calls on a descriptor are told by the path of the operation.
A store that writes another number of bytes than it was given has failed, and so has one that claims
to have read more than there was room for. -/
def failure? (path : String) : Exchange → Option VolumeError
  | openPath own _ _ (.error code) | getAttr own (.error code) | mkdirs own _ (.error code)
  | unlink own (.error code) | rmdir own (.error code) | rename _ own (.error code) =>
    some (.ofErrno code own)
  | read _ _ _ (.error code) | write _ _ _ (.error code) | fchmod _ _ (.error code) =>
    some (.ofErrno code path)
  | read _ size _ (.ok count) => if size < count then some (.store path .eio) else none
  | write fd bytes _ (.ok count) =>
    if count = bytes.size then none else some (.shortWrite fd bytes.size count)
  | flush fd (.error code) => some (.flushFailed fd code)
  | close fd (.error code) => some (.closeFailed fd code)
  | readdir _ _ (.error code) => some (.readdirFailed path code)
  | batchGetAttr _ _ (.error code) => some (.batchGetAttrFailed path code)
  | _ => none

def failures (path : String) (exchanges : List Exchange) : List VolumeError :=
  exchanges.filterMap (failure? path)

@[simp] theorem failures_nil (path : String) : failures path [] = [] := rfl

@[simp] theorem failures_append (path : String) (front rest : List Exchange) :
    failures path (front ++ rest) = failures path front ++ failures path rest :=
  List.filterMap_append

@[simp] theorem failures_singleton (path : String) (exchange : Exchange) :
    failures path [exchange] = (exchange.failure? path).toList := by
  rw [failures, List.filterMap_cons]
  cases exchange.failure? path <;> rfl

theorem failures_concat {path : String} {front : List Exchange} (h : failures path front = [])
    (exchange : Exchange) :
    failures path (front ++ [exchange]) = (exchange.failure? path).toList := by
  rw [failures_append, h, List.nil_append, failures_singleton]

end Exchange

theorem Handle.close_eq_noted {σ : Type} [StoreClient σ] (handle : Handle) (t : Traced σ) :
    handle.close t = t.noted (.close handle.fd) (StoreClient.close t.store handle.fd) := rfl

open Exchange

/-- An answer says what failed: it is a success where nothing did, and else a failure whose first
cause is the first one, and which is made of all of them in their order. -/
def Reports {α : Type} (failed : List VolumeError) : Except VolumeError α → Prop
  | .ok _ => failed = []
  | .error e => failed.head? = some e.primary ∧ e.causes = failed

namespace Reports

variable {α : Type} {failed cleanup : List VolumeError}

theorem of_causes {e : VolumeError} (h : e.causes = failed) :
    Reports failed (.error e : Except VolumeError α) :=
  ⟨h ▸ e.head?_causes, h⟩

theorem nothing (done : α) : Reports [] (.ok done : Except VolumeError α) := rfl

theorem ofErrno (code : Errno) (path : String) :
    Reports [.ofErrno code path] (.error (.ofErrno code path) : Except VolumeError α) :=
  of_causes (VolumeError.causes_ofErrno code path)

theorem combine {result cleaned : Except VolumeError Unit} (h : Reports failed result)
    (hcleaned : Reports cleanup cleaned) :
    Reports (failed ++ cleanup) (VolumeError.combine result cleaned) := by
  rcases result with e | ⟨⟨⟩⟩
  · rcases cleaned with c | ⟨⟨⟩⟩
    · apply of_causes
      rw [VolumeError.withCleanup, VolumeError.causes, h.2, hcleaned.2]
    · obtain rfl : cleanup = [] := hcleaned
      rwa [List.append_nil]
  · obtain rfl : failed = [] := h
    rcases cleaned with c | ⟨⟨⟩⟩
    · exact hcleaned
    · exact hcleaned

end Reports
end VolumeFs
