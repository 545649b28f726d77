import VolumeFs.Proofs.Store.Descriptors
import VolumeFs.Proofs.Store.Interrupted
import VolumeFs.Proofs.Stream.Frame
import VolumeFs.Proofs.Stream.Publication

/-!
# Closing an atomic stream on a store whose calls fail

Where any call may fail, a close that fails leaves what stands at the final path as it was, but
for one case: a file that was in the way is removed, and then the second move fails as well.
-/

namespace VolumeFs

open Memory

namespace AtomicWriter

variable {σ : Type} [StoreClient σ]

/-- Whether publishing removes the file that is in the way, and then fails to move the temporary
file to its place. -/
def clearsTarget (a : AtomicWriter) (s : σ) : Bool :=
  match a.moveIntoPlace s with
  | (.ok (), _) => false
  | (.error code, s) =>
    if code ≠ .eexist then false
    else
      match StoreClient.unlink s a.finalPath with
      | (.error _, _) => false
      | (.ok (), s) => !(a.moveIntoPlace s).1.isOk

def losesTarget (a : AtomicWriter) (s : σ) : Bool :=
  match a.inner.close s with
  | (.error _, _, _) => false
  | (.ok (), _, s) => a.clearsTarget s

end AtomicWriter

namespace Memory.Store

/-- The open file is not the entry at the names. -/
def Aside (s : Store) (fd : Fd) (names : List String) : Prop :=
  ∀ file, s.openFile? fd = some file → s.tree.resolve names ≠ some file.ino

end Memory.Store

structure Found (fd : Fd) (names : List String) (found : Option Entry) (s : Interrupted) :
    Prop where
  forest : s.store.tree.Forest
  isUnspoiled : s.IsUnspoiled
  entryAt? : s.store.tree.entryAt? names = found
  aside : s.store.Aside fd names

section Found

variable {fd : Fd} {names : List String} {found : Option Entry} {s : Interrupted}

private theorem Found.guarded {α : Type} (h : Found fd names found s)
    {call : Store → Except Errno α × Store} (hforest : (call s.store).2.tree.Forest)
    (hentry : (call s.store).2.tree.entryAt? names = s.store.tree.entryAt? names)
    (haside : (call s.store).2.Aside fd names) : Found fd names found (s.guarded call).2 where
  forest := Interrupted.store_of_guarded rfl (·.tree.Forest) h.forest hforest
  isUnspoiled := h.isUnspoiled.guarded call
  entryAt? := Interrupted.store_of_guarded rfl (·.tree.entryAt? names = found)
    h.entryAt? (hentry.trans h.entryAt?)
  aside := Interrupted.store_of_guarded rfl (·.Aside fd names) h.aside haside

private theorem untouched_found : Untouched fd (Found fd names found) where
  write := by
    intro s bytes offset h
    rcases s.store.tree_write fd bytes offset with hsame | ⟨file, held, hfile, hdir, htree⟩
    · refine h.guarded ?_ ?_ ?_
      · rw [hsame]
        exact h.forest
      · rw [hsame]
      · intro file hfile
        rw [Store.openFile?_write] at hfile
        rw [hsame]
        exact h.aside file hfile
    · have hne := h.aside file hfile
      refine h.guarded ?_ ?_ ?_
      · rw [htree]
        apply h.forest.modifyNode_withBytes
        intro hroot
        rw [hroot, h.forest.root_isDirectory] at hdir
        cases hdir
      · rw [htree, Tree.entryAt?_modifyNode_withBytes_ne hdir hne]
      · intro file' hfile'
        rw [Store.openFile?_write] at hfile'
        rw [htree, Tree.resolve_modifyNode_withBytes hdir]
        exact h.aside file' hfile'
  flush := by
    intro s h
    refine h.guarded ?_ ?_ ?_
    · simpa using h.forest
    · simp
    · simpa [Store.Aside] using h.aside
  close := by
    intro s h
    refine h.guarded ?_ ?_ ?_
    · simpa using h.forest
    · simp
    · intro file hfile
      rw [Store.openFile?_close, if_pos rfl] at hfile
      cases hfile

end Found

/-- What stands at the names, on a store whose calls fail without an effect. -/
structure Standing (names : List String) (found : Option Entry) (s : Interrupted) : Prop where
  forest : s.store.tree.Forest
  isUnspoiled : s.IsUnspoiled
  entryAt? : s.store.tree.entryAt? names = found

section Standing

variable {a : AtomicWriter} {names : List String} {found : Option Entry} {s s' : Interrupted}

private theorem Standing.of_error {call : Store → Except Errno Unit × Store} {code : Errno}
    (h : Standing names found s) (hcall : s.guarded call = (.error code, s'))
    (hsame : ∀ store, call s.store = (.error code, store) → store.tree = s.store.tree) :
    Standing names found s' := by
  obtain ⟨hunspoiled, hcame⟩ := h.isUnspoiled.guarded_eq hcall
  have htree : s'.store.tree = s.store.tree := by
    rcases hcame with hstore | ⟨-, hstore⟩
    · exact hsame _ hstore
    · rw [hstore]
  exact ⟨htree ▸ h.forest, hunspoiled, htree ▸ h.entryAt?⟩

private theorem Standing.of_rename_error {source target : String} {code : Errno}
    (h : Standing names found s)
    (hrename : StoreClient.rename s source target = (.error code, s')) :
    Standing names found s' := by
  apply h.of_error hrename
  intro store hstore
  rcases s.store.tree_rename source target with ⟨e, -, htree⟩ | ⟨tree, -, hok, -⟩
  · rwa [hstore] at htree
  · rw [hstore] at hok
    cases hok

private theorem Standing.of_unlink_error {path : String} {code : Errno} (h : Standing names found s)
    (hunlink : StoreClient.unlink s path = (.error code, s')) : Standing names found s' := by
  apply h.of_error hunlink
  intro store hstore
  rcases s.store.tree_unlink path with ⟨e, -, htree⟩ | ⟨tree, -, hok, -⟩
  · rwa [hstore] at htree
  · rw [hstore] at hok
    cases hok

private theorem Standing.of_unlink_ok {path : String} (h : Standing names found s)
    (hunlink : StoreClient.unlink s path = (.ok (), s')) :
    (∃ e, s.store.tree.entryAt? (components path) = some e ∧ e.bytes ≠ none) ∧
      Standing names (if names = components path then none else found) s' := by
  obtain ⟨hunspoiled, hstore | ⟨⟨code, hcode⟩, -⟩⟩ := h.isUnspoiled.guarded_eq hunlink
  · rcases s.store.tree_unlink path with ⟨e, herror, -⟩ | ⟨tree, htree, -, hstore'⟩
    · rw [hstore] at herror
      cases herror
    · rw [hstore] at hstore'
      subst hstore'
      have hremoval := Tree.removal_of_unlink h.forest htree
      refine ⟨Tree.exists_file_of_unlink h.forest htree, hremoval.forest, hunspoiled, ?_⟩
      rw [hremoval.entryAt?, h.entryAt?]
  · cases hcode

private theorem Standing.discard (h : Standing names found s)
    (hne : names ≠ components a.temporaryPath) (failure : VolumeError) :
    Standing names found (a.discard s failure).2 := by
  unfold AtomicWriter.discard AtomicWriter.removeTemporary
  generalize hunlink : StoreClient.unlink s a.temporaryPath = answer
  obtain ⟨code | ⟨⟨⟩⟩, s'⟩ := answer
  · have h' := h.of_unlink_error hunlink
    simp only
    split
    · rename_i hremoved
      split at hremoved <;> cases hremoved
      exact h'
    · rename_i hremoved
      split at hremoved <;> cases hremoved
      exact h'
  · have h' := (h.of_unlink_ok hunlink).2
    rwa [if_neg hne] at h'

/-- A stream that fails to publish its file keeps the target or loses it. -/
theorem Standing.publish (h : Standing (components a.finalPath) found s) {failure : VolumeError}
    (hpublish : a.publish s = (.error failure, s')) :
    (a.clearsTarget s = false → Standing (components a.finalPath) found s') ∧
      (a.clearsTarget s = true → Standing (components a.finalPath) none s' ∧
        ∃ e, found = some e ∧ e.bytes ≠ none) := by
  unfold AtomicWriter.publish at hpublish
  unfold AtomicWriter.clearsTarget
  generalize hmove : a.moveIntoPlace s = result at hpublish ⊢
  obtain ⟨code | ⟨⟨⟩⟩, s₁⟩ := result
  · have h₁ := h.of_rename_error hmove
    simp only at hpublish ⊢
    by_cases hcode : code ≠ .eexist
    · rw [if_pos hcode] at hpublish ⊢
      cases hpublish
      exact ⟨fun _ => h₁, by simp⟩
    · rw [if_neg hcode] at hpublish ⊢
      generalize hunlink : StoreClient.unlink s₁ a.finalPath = result at hpublish ⊢
      obtain ⟨code | ⟨⟨⟩⟩, s₂⟩ := result
      · cases hpublish
        exact ⟨fun _ => h₁.of_unlink_error hunlink, by simp⟩
      · obtain ⟨⟨e, he, hfile⟩, h₂⟩ := h₁.of_unlink_ok hunlink
        rw [if_pos rfl] at h₂
        rw [h₁.entryAt?] at he
        simp only at hpublish ⊢
        generalize hmove' : a.moveIntoPlace s₂ = result at hpublish ⊢
        obtain ⟨code | ⟨⟨⟩⟩, s₃⟩ := result
        · cases hpublish
          refine ⟨by simp [Except.isOk, Except.toBool], fun _ => ?_⟩
          exact ⟨h₂.of_rename_error hmove', e, he, hfile⟩
        · cases hpublish
  · cases hpublish

private theorem Standing.close (hopen : a.isFinished = false)
    (h : Standing (components a.finalPath) found (a.inner.close s).2.2)
    (hne : components a.finalPath ≠ components a.temporaryPath) {error : VolumeError}
    {a' : AtomicWriter} (hclose : a.close s = (.error error, a', s')) :
    (a.losesTarget s = false → Standing (components a.finalPath) found s') ∧
      (a.losesTarget s = true → Standing (components a.finalPath) none s' ∧
        ∃ e, found = some e ∧ e.bytes ≠ none) := by
  unfold AtomicWriter.close at hclose
  unfold AtomicWriter.losesTarget
  rw [hopen] at hclose
  generalize a.inner.close s = result at h hclose ⊢
  obtain ⟨e | ⟨⟨⟩⟩, inner, s₁⟩ := result
  · cases hclose
    exact ⟨fun _ => h.discard hne _, nofun⟩
  · simp only [Bool.false_eq_true, if_false,
      show AtomicWriter.publish { a with inner, isFinished := true } s₁ = a.publish s₁ from rfl]
      at hclose
    generalize hpublish : a.publish s₁ = result at hclose
    obtain ⟨e | ⟨⟨⟩⟩, s₂⟩ := result
    · obtain ⟨hkept, hlost⟩ := h.publish hpublish
      cases hclose
      refine ⟨fun h => (hkept h).discard hne _, fun h => ?_⟩
      obtain ⟨hnone, hfile⟩ := hlost h
      exact ⟨hnone.discard hne _, hfile⟩
    · cases hclose

end Standing

/-- Others act on the store. Whatever they do, the open file does not come to stand at the
names. -/
def Elsewhere (fd : Fd) (names : List String) (s s' : Interrupted) : Prop :=
  ∃ op : Operation, s' = { s with store := op.on s.store } ∧ s'.store.Aside fd names

section Volume

variable {v v' : Volume} {path : String} {options : CreateOptions} {token : Token}
  {s s₀ s₁ s₂ : Interrupted} {calls : List (WriteCall × WriteAnswer)} {first a a' : AtomicWriter}
  {error : VolumeError}

private theorem found_of_create (hs : Reachable s.store) (hfate : s.IsUnspoiled)
    (hcreate : v.create s path options token = (.ok (.atomic first), v', s₀)) :
    first.isFinished = false ∧ first.finalPath = Path.ofText path ∧
      first.temporaryPath = token.temporaryPath (Path.ofText path) ∧
      first.inner.Uses first.inner.fd ∧
      ∃ found, Found first.inner.fd (components first.finalPath) found s₀ := by
  obtain ⟨handle, hopen, ho⟩ := Volume.create_eq_ok hcreate
  cases hatomic : options.atomic with
  | false => simp [hatomic] at ho
  | true =>
    simp only [hatomic, if_true, Output.atomic.injEq] at hopen ho
    obtain ⟨s', ⟨hunspoiled, hforest⟩, -, hopened⟩ := Creation.openFile_eq_ok
      (fun s : Interrupted => s.IsUnspoiled ∧ s.store.tree.Forest)
      (by
        intro s s' code ⟨hunspoiled, hforest⟩ hfailed
        obtain ⟨hunspoiled', hstore | ⟨-, hstore⟩⟩ := hunspoiled.guarded_eq hfailed
        · refine ⟨hunspoiled', ?_⟩
          rw [← show _ = s'.store from congrArg Prod.snd hstore]
          exact Store.forest_openPath hforest _ _ _
        · exact ⟨hunspoiled', hstore ▸ hforest⟩)
      (by
        intro s parent ⟨hunspoiled, hforest⟩ _
        refine ⟨hunspoiled.guarded _, ?_⟩
        generalize hmade : StoreClient.mkdirs s parent _ = result
        exact Interrupted.store_of_guarded hmade (·.tree.Forest) hforest
          ((Operation.mkdirs parent _).forest_on hforest))
      ⟨hfate, hs.forest⟩ hopen
    obtain ⟨hunspoiled', hstore | ⟨⟨code, hcode⟩, -⟩⟩ := hunspoiled.guarded_eq hopened
    · obtain ⟨e, -, hwritable, -⟩ := Store.writableAt_of_openPath hforest hstore
      rw [ho]
      refine ⟨rfl, rfl, rfl, ?_, _, hwritable.forest, hunspoiled', rfl, ?_⟩
      · intro handle' hhandle
        cases hhandle
        rfl
      · intro file hfile hresolve
        obtain ⟨file', hfile', -, hino⟩ := hwritable.openFile
        obtain rfl : file = file' := Option.some.inj (hfile.symm.trans hfile')
        rw [hino] at hresolve
        exact (beside_temporaryPath token path).components_ne (hwritable.forest.resolve_injective
          hresolve (Tree.entryAt?_eq_some_iff.1 hwritable.entryAt?).1)
    · cases hcode

/-- When closing an atomic stream fails, what stood at its path before the close is still there,
unless the stream has removed a file from there and could not move its own file to the place. Then
nothing stands there any more. -/
theorem target_of_failed_close (hs : Reachable s.store) (hfate : s.IsUnspoiled)
    (hcreate : v.create s path options token = (.ok (.atomic first), v', s₀))
    (hrun : Run (Elsewhere first.inner.fd (components (Path.ofText path))) (.atomic first) s₀ calls
      (.atomic a) s₁)
    (hclose : a.close s₁ = (.error error, a', s₂)) :
    let target := components (Path.ofText path)
    (s₂.store.tree.entryAt? target = s₁.store.tree.entryAt? target ↔
      a.losesTarget s₁ = false) ∧
    (a.losesTarget s₁ = true → s₂.store.tree.entryAt? target = none ∧
      ∃ e, s₁.store.tree.entryAt? target = some e ∧ e.bytes ≠ none) := by
  obtain ⟨hopen, hfinal, htemporary, huses, found₀, h₀⟩ := found_of_create hs hfate hcreate
  obtain ⟨w, ha⟩ := hrun.exists_withWriter
  obtain rfl : a = { first with inner := w } := Output.atomic.inj ha
  rw [← hfinal] at hrun ⊢
  have hcomponents : components first.finalPath ≠ components first.temporaryPath := by
    rw [hfinal, htemporary]
    exact (beside_temporaryPath token path).components_ne
  have huntouched : Untouched first.inner.fd fun s : Interrupted =>
      ∃ found, Found first.inner.fd (components first.finalPath) found s :=
    ⟨fun bytes offset ⟨found, h⟩ => ⟨found, untouched_found.write bytes offset h⟩,
      fun ⟨found, h⟩ => ⟨found, untouched_found.flush h⟩,
      fun ⟨found, h⟩ => ⟨found, untouched_found.close h⟩⟩
  obtain ⟨hw, found, h⟩ := huntouched.run (o := .atomic first) huses ⟨found₀, h₀⟩
    (by
      rintro s s' ⟨found, h⟩ ⟨op, rfl, haside⟩
      exact ⟨_, op.forest_on h.forest, h.isUnspoiled, rfl, haside⟩) hrun
  obtain ⟨-, h'⟩ := untouched_found.close_writer hw h
  have hstanding : Standing (components first.finalPath) found (w.close s₁).2.2 :=
    ⟨h'.forest, h'.isUnspoiled, h'.entryAt?⟩
  obtain ⟨hkept, hlost⟩ := Standing.close (a := { first with inner := w }) hopen hstanding
    hcomponents hclose
  intro target
  rw [show s₁.store.tree.entryAt? target = found from h.entryAt?]
  refine ⟨⟨?_, fun hkeeps => (hkept hkeeps).entryAt?⟩, ?_⟩
  · intro hsame
    rw [Bool.eq_false_iff]
    intro hloses
    obtain ⟨hnone, e, rfl, -⟩ := hlost hloses
    exact absurd (hnone.entryAt?.symm.trans hsame) nofun
  · intro hloses
    obtain ⟨hnone, hfile⟩ := hlost hloses
    exact ⟨hnone.entryAt?, hfile⟩

/-- The second move of a stream fails, and the file that was replaced is gone. -/
theorem target_of_failed_close_second_move :
    let before : Interrupted :=
      { store := Store.putFile (.new {}) "/f" "old".toUTF8
        fate := fun n => if n = 7 then .refused .eio else .answered
        patience := 0 }
    let created := Volume.tiny.create before "/f" { atomic := true } ⟨0⟩
    let first := AtomicWriter.mk (.new ⟨⟨3⟩, (⟨0⟩ : Token).temporaryPath "/f"⟩ 0 2)
      ((⟨0⟩ : Token).temporaryPath "/f") "/f" false
    let written := { first with inner := { first.inner with
      buffer := "w".toUTF8
      commitOffset := 2 } }
    let ran := WriteCall.onEach (.atomic first) created.2.2 [.bytes "new".toUTF8]
    let closed := written.close ran.2.2
    created.1 = .ok (.atomic first) ∧ ran.2.1 = .atomic written ∧
      closed.1 = .error (.ofErrno .eio "/f") ∧
      (ran.2.2.store.tree.entryAt? ["f"]).bind Entry.bytes = some "old".toUTF8 ∧
      closed.2.2.store.tree.entryAt? ["f"] = none := by
  intro before created first written ran closed
  have hcreated : created.1 = .ok (.atomic first) := by decide +kernel
  have hcreate : created = (.ok (.atomic first), created.2.1, created.2.2) := by rw [← hcreated]
  have hran : ran.2.1 = .atomic written := by decide +kernel
  have hfailed : closed.1 = .error (.ofErrno .eio "/f") := by decide +kernel
  have hclose : closed = (.error (.ofErrno .eio "/f"), closed.2.1, closed.2.2) := by
    rw [← hfailed]
  have hfate : before.IsUnspoiled := by
    intro n code
    simp only [before]
    split <;> simp
  have hlost : written.losesTarget ran.2.2 = true := by decide +kernel
  have htarget : components (Path.ofText "/f") = ["f"] := by decide +kernel
  have hstart : Run (Elsewhere first.inner.fd (components (Path.ofText "/f"))) (.atomic first)
      created.2.2 [] (.atomic first) created.2.2 := .start
  have hrun := hstart.onEach [.bytes "new".toUTF8]
  rw [show (WriteCall.onEach (.atomic first) created.2.2 [.bytes "new".toUTF8]).2.1 = _ from hran]
    at hrun
  obtain ⟨-, hgone⟩ := target_of_failed_close ((Reachable.new {}).step (.putFile "/f" "old".toUTF8))
    hfate hcreate hrun hclose
  rw [htarget] at hgone
  refine ⟨hcreated, hran, hfailed, ?_, (hgone hlost).1⟩
  decide +kernel

end Volume
end VolumeFs
