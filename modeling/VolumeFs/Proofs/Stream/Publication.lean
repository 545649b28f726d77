import VolumeFs.Proofs.Paths
import VolumeFs.Proofs.Stream.Staging

/-!
# Publication of atomic files

Closing an atomic stream moves its temporary file into place, or removes it and leaves everything
else as it was. Calls fail here only as the faults of the store make writes, flushes and closes
fail.
-/

namespace VolumeFs

open Bytes Memory

namespace Memory.Store

variable {s : Store}

private theorem unlink_eq (hup : s.isShutDown = false) (hfaults : s.faults.failingUnlinks = 0)
    (path : String) : s.unlink path = ((s.tree.unlink path).1, { s with
      calls.unlinks := s.calls.unlinks + 1
      tree := (s.tree.unlink path).2 }) := by
  simp [unlink, hup, hfaults]

theorem rename_eq (hup : s.isShutDown = false) (source target : String) :
    s.rename source target = ((s.tree.rename source target s.clock.now).1, { s with
      calls.renames := s.calls.renames + 1
      tree := (s.tree.rename source target s.clock.now).2 }) := by
  simp [rename, hup]

end Memory.Store

/-- Two paths in one directory, of which the first one may be the root itself. -/
def Beside (path other : String) : Prop :=
  ∃ dirs name, components other = dirs ++ [name] ∧
    (components path = [] ∧ dirs = [] ∨ ∃ name', name' ≠ name ∧ components path = dirs ++ [name'])

theorem Beside.components_ne {path other : String} (h : Beside path other) :
    components path ≠ components other := by
  obtain ⟨dirs, name, hother, ⟨hpath, rfl⟩ | ⟨name', hne, hpath⟩⟩ := h
  · simp [hpath, hother]
  · rw [hpath, hother]
    simpa using hne

theorem beside_temporaryPath (token : Token) (path : String) :
    Beside (Path.ofText path) (token.temporaryPath (Path.ofText path)) := by
  obtain ⟨dirs, name, hother, hpath, -⟩ := Path.components_temporaryPath token path
  exact ⟨dirs, name, hother, hpath⟩

private theorem entryAt?_root {t : Tree} (ht : t.Forest) : ∃ e, t.entryAt? [] = some e ∧
    e.bytes = none := by
  obtain ⟨e, he, hbytes⟩ := Tree.isDirectory_iff_entryOf?.1 ht.root_isDirectory
  exact ⟨e, he, hbytes⟩

/-- Once the file that is in the way is removed, the one beside it can be moved to its place. -/
theorem Beside.exists_rename_of_unlink {path other : String} (h : Beside path other) {t t' : Tree}
    {e : Entry} (ht : t.Forest) (he : t.entryAt? (components other) = some e)
    (hunlink : t.unlink path = (.ok (), t')) (now : Time) :
    t'.entryAt? (components other) = some e ∧ ∃ t'', t'.rename other path now = (.ok (), t'') := by
  have hremoval := Tree.removal_of_unlink ht hunlink
  have hentry : t'.entryAt? (components other) = some e := by
    rw [hremoval.entryAt?, if_neg h.components_ne.symm, he]
  have hfree : t'.entryAt? (components path) = none := by
    rw [hremoval.entryAt?, if_pos rfl]
  -- A place that can be freed is not the root, so both paths have one directory.
  obtain ⟨dirs, name, hother, ⟨hroot, -⟩ | ⟨name', -, hpath⟩⟩ := h
  · obtain ⟨root, hroot', -⟩ := entryAt?_root hremoval.forest
    rw [hroot, hroot'] at hfree
    cases hfree
  · exact ⟨hentry, Tree.exists_rename_of_free hremoval.forest hother hpath hentry hfree now⟩

section Closing

variable {a : AtomicWriter} {e : Entry} {entries : List String → Option Entry} {held : ByteArray}
  {s s' : Store}

private theorem Staged.of_tree {path : String} (h : Staged path e entries held s)
    (htree : s'.tree = s.tree) (hup : s'.isShutDown = s.isShutDown)
    (hfaults : s'.faults = s.faults) :
    Staged path e entries held s' :=
  ⟨htree ▸ h.forest, hup.trans h.isUp, hfaults ▸ h.failingUnlinks, htree ▸ h.entryAt?,
    htree ▸ h.others⟩

private def Discarded (a : AtomicWriter) (entries : List String → Option Entry) (s : Store) :
    Prop :=
  ∀ q, s.tree.entryAt? q = if q = components a.temporaryPath then none else entries q

def Published (a : AtomicWriter) (e : Entry) (entries : List String → Option Entry)
    (held : ByteArray) (s : Store) : Prop :=
  ∀ q, s.tree.entryAt? q = if q = components a.finalPath then some { e with bytes := some held }
    else if q = components a.temporaryPath then none else entries q

private theorem Staged.removeTemporary (h : Staged a.temporaryPath e entries held s) :
    ∃ s', a.removeTemporary s = (.ok (), s') ∧ Discarded a entries s' := by
  obtain ⟨tree, htree⟩ := Tree.exists_unlink_of_file h.forest h.entryAt? (by simp)
  have hcall : StoreClient.unlink s a.temporaryPath = (.ok (), { s with
      calls.unlinks := s.calls.unlinks + 1
      tree }) := by
    rw [show StoreClient.unlink s a.temporaryPath = s.unlink a.temporaryPath from rfl,
      Store.unlink_eq h.isUp h.failingUnlinks, htree]
  refine ⟨{ s with
    calls.unlinks := s.calls.unlinks + 1
    tree }, by rw [AtomicWriter.removeTemporary, hcall], ?_⟩
  intro q
  rw [(Tree.removal_of_unlink h.forest htree).entryAt?]
  split
  · rfl
  · rename_i hq
    exact h.others q hq

private theorem Staged.moveIntoPlace (h : Staged a.temporaryPath e entries held s) {tree : Tree}
    (hrename : s.tree.rename a.temporaryPath a.finalPath s.clock.now = (.ok (), tree)) :
    ∃ s', a.moveIntoPlace s = (.ok (), s') ∧ Published a e entries held s' := by
  refine ⟨{ s with
    calls.renames := s.calls.renames + 1
    tree }, ?_, ?_⟩
  · rw [AtomicWriter.moveIntoPlace, show StoreClient.rename s a.temporaryPath a.finalPath =
      s.rename a.temporaryPath a.finalPath from rfl, Store.rename_eq h.isUp, hrename]
  · intro q
    rw [Tree.entryAt?_rename_file h.forest hrename h.entryAt? (by simp)]
    split
    · rfl
    · split
      · rfl
      · rename_i hq
        exact h.others q hq

private theorem Staged.replace (h : Staged a.temporaryPath e entries held s)
    (hbeside : Beside a.finalPath a.temporaryPath) {tree : Tree}
    (hunlink : s.tree.unlink a.finalPath = (.ok (), tree)) :
    ∃ s', a.moveIntoPlace { s with
        calls.unlinks := s.calls.unlinks + 1
        tree } = (.ok (), s') ∧ Published a e entries held s' := by
  have hremoval := Tree.removal_of_unlink h.forest hunlink
  obtain ⟨hentry, tree', hrename⟩ :=
    hbeside.exists_rename_of_unlink h.forest h.entryAt? hunlink s.clock.now
  have h' : Staged a.temporaryPath e
      (fun q => if q = components a.finalPath then none else entries q) held { s with
        calls.unlinks := s.calls.unlinks + 1
        tree } := by
    refine ⟨hremoval.forest, h.isUp, h.failingUnlinks, hentry, ?_⟩
    intro q hq
    rw [hremoval.entryAt?, h.others q hq]
  obtain ⟨s', hmove, hpublished⟩ := h'.moveIntoPlace hrename
  refine ⟨s', hmove, ?_⟩
  intro q
  rw [hpublished q]
  by_cases hq : q = components a.finalPath
  · rw [if_pos hq, if_pos hq]
  · simp only [if_neg hq]

/-- A staged file is published, or the store is left as it was. -/
theorem Staged.publish (h : Staged a.temporaryPath e entries held s)
    (hbeside : Beside a.finalPath a.temporaryPath) :
    (∃ s', a.publish s = (.ok (), s') ∧ Published a e entries held s') ∨
      ∃ error s', a.publish s = (.error error, s') ∧ Staged a.temporaryPath e entries held s' := by
  unfold AtomicWriter.publish
  cases hrename : s.tree.rename a.temporaryPath a.finalPath s.clock.now with
  | mk result tree =>
  cases result with
  | ok =>
    obtain ⟨s', hmove, hpublished⟩ := h.moveIntoPlace hrename
    exact .inl ⟨s', by rw [hmove], hpublished⟩
  | error code =>
    obtain rfl := Tree.tree_of_rename_error hrename
    have hmove : a.moveIntoPlace s = (.error code, { s with
        calls.renames := s.calls.renames + 1 }) := by
      rw [AtomicWriter.moveIntoPlace, show StoreClient.rename s a.temporaryPath a.finalPath =
        s.rename a.temporaryPath a.finalPath from rfl, Store.rename_eq h.isUp, hrename]
    have h₁ : Staged a.temporaryPath e entries held { s with
        calls.renames := s.calls.renames + 1 } := h.of_tree rfl rfl rfl
    rw [hmove]
    generalize { s with calls.renames := s.calls.renames + 1 } = s₁ at h₁
    simp only
    split
    · exact .inr ⟨_, s₁, rfl, h₁⟩
    · have hcall : StoreClient.unlink s₁ a.finalPath = s₁.unlink a.finalPath := rfl
      rw [hcall, Store.unlink_eq h₁.isUp h₁.failingUnlinks]
      cases hunlink : s₁.tree.unlink a.finalPath with
      | mk result tree =>
      cases result with
      | error code =>
        obtain rfl := Tree.tree_of_unlink_error hunlink
        exact .inr ⟨_, _, rfl, h₁.of_tree rfl rfl rfl⟩
      | ok =>
        obtain ⟨s', hmove', hpublished⟩ := h₁.replace hbeside hunlink
        exact .inl ⟨s', by simp only [hmove'], hpublished⟩

private theorem Staged.discard (h : Staged a.temporaryPath e entries held s)
    (failure : VolumeError) :
    ∃ s', a.discard s failure = (failure, s') ∧ Discarded a entries s' := by
  obtain ⟨s', hremove, hdiscarded⟩ := h.removeTemporary
  exact ⟨s', by rw [AtomicWriter.discard, hremove], hdiscarded⟩

private theorem Staged.close (hopen : a.isFinished = false)
    (h : Staged a.temporaryPath e entries held (a.inner.close s).2.2)
    (hbeside : Beside a.finalPath a.temporaryPath) :
    (∃ a' s', a.close s = (.ok (), a', s') ∧ (a.inner.close s).1 = .ok () ∧
      Published a e entries held s') ∨
    ∃ error a' s', a.close s = (.error error, a', s') ∧ Discarded a entries s' := by
  unfold AtomicWriter.close
  rw [hopen]
  generalize a.inner.close s = result at h ⊢
  obtain ⟨closed, inner, s'⟩ := result
  cases closed with
  | error error =>
    obtain ⟨s'', hdiscard, hdiscarded⟩ :=
      Staged.discard (a := { a with inner, isFinished := true }) h error
    exact .inr ⟨error, { a with inner, isFinished := true }, s'', by simp [hdiscard], hdiscarded⟩
  | ok =>
    rcases Staged.publish (a := { a with inner, isFinished := true }) h hbeside with
      ⟨s'', hpublish, hpublished⟩ | ⟨error, s'', hpublish, hstaged⟩
    · exact .inl ⟨{ a with inner, isFinished := true }, s'', by simp [hpublish], rfl, hpublished⟩
    · obtain ⟨s₃, hdiscard, hdiscarded⟩ :=
        Staged.discard (a := { a with inner, isFinished := true }) hstaged error
      exact .inr ⟨error, { a with inner, isFinished := true }, s₃, by simp [hpublish, hdiscard],
        hdiscarded⟩

private theorem Staged.abort (hopen : a.isFinished = false)
    (h : Staged a.temporaryPath e entries held (a.inner.close s).2.2) :
    Discarded a entries (a.abort s).2.2 := by
  unfold AtomicWriter.abort
  rw [hopen]
  obtain ⟨s', hremove, hdiscarded⟩ := Staged.removeTemporary
    (a := { a with inner := (a.inner.close s).2.1, isFinished := true }) h
  simp only [Bool.false_eq_true, if_false, hremove]
  exact hdiscarded

end Closing

/-- A store in which the temporary path is free and, of what was in the store before, all but the
target is still there. -/
structure Settled (before after : Store) (target temporary : List String)
    (found : Option Entry) : Prop where
  entryAt?_target : after.tree.entryAt? target = found
  entryAt?_temporary : after.tree.entryAt? temporary = none
  entryAt?_others : ∀ {q e}, q ≠ target → before.tree.entryAt? q = some e →
    after.tree.entryAt? q = some e

section Volume

variable {v v' : Volume} {path : String} {options : CreateOptions} {token : Token}
  {s s₀ s₁ : Store} {calls : List (WriteCall × WriteAnswer)} {o₀ o : Output}

private theorem progress_of_create (hs : Reachable s) (hunlinks : s.faults.failingUnlinks = 0)
    (hatomic : options.atomic = true)
    (hfree : s.tree.entryAt? (components (token.temporaryPath (Path.ofText path))) = none)
    (hcreate : v.create s path options token = (.ok o₀, v', s₀)) :
    ∃ a handle e, o₀ = .atomic a ∧ a.isFinished = false ∧ a.finalPath = Path.ofText path ∧
      a.temporaryPath = token.temporaryPath (Path.ofText path) ∧ Mode.type e.mode = Mode.regular ∧
      Progress handle a.temporaryPath e s₀.tree.entryAt? [] a.inner s₀ ∧
      s₀.tree.entryAt? (components a.finalPath) = s.tree.entryAt? (components a.finalPath) ∧
      ∀ q e, s.tree.entryAt? q = some e → s₀.tree.entryAt? q = some e := by
  obtain ⟨handle, hopen, ho⟩ := Volume.create_eq_ok hcreate
  simp only [hatomic, if_true] at hopen ho
  obtain ⟨dirs, name, htemporary, hfinal, parent, hparent, hdirs⟩ :=
    Path.components_temporaryPath token path
  have hunder (parent' : String)
      (h : Path.parent (token.temporaryPath (Path.ofText path)) = .ok parent') :
      components parent' = dirs := by
    rw [hparent, Except.ok.injEq] at h
    rw [← h, hdirs]
  obtain ⟨-, s₂, e, hprepared, hempty, hwritable, hothers, hregular, hfaults, -⟩ :=
    Store.writableAt_of_openFile hs.forest hunder hopen
  obtain ⟨n, -, hn⟩ := hprepared.faults
  have hkept {q e} (hq : s.tree.entryAt? q = some e) : s₀.tree.entryAt? q = some e := by
    rw [hothers, hprepared.growth.entryAt?_of_some hq]
    intro htemporary
    rw [htemporary, hfree] at hq
    cases hq
  refine ⟨_, handle, e, ho, rfl, rfl, rfl, ?_, ?_, ?_, fun q e => hkept⟩
  · apply hregular
    rw [hprepared.growth.entryAt?_of_not_isPrefix, hfree]
    rw [htemporary]
    exact Tree.not_concat_isPrefix dirs name
  · have hstaging : Staging handle.fd (token.temporaryPath (Path.ofText path)) e s₀.tree.entryAt?
        (joined []) s₀ := by
      refine ⟨⟨hwritable.forest, hwritable.isUp, ?_, ?_, fun _ _ => rfl⟩, hwritable.openFile⟩
      · rw [hfaults, hn]
        exact hunlinks
      · rw [hwritable.entryAt?, joined_nil, ← hempty]
    refine .sound ⟨rfl, rfl, rfl⟩ ?_ hstaging rfl rfl .nil
    exact Nat.lt_of_lt_of_le Nat.zero_lt_one (Nat.le_max_right _ _)
  · rcases hfinal with ⟨hroot, -⟩ | ⟨name', hne, hbeside⟩
    · obtain ⟨root, hentry, -⟩ := entryAt?_root hs.forest
      rw [hroot, hentry, hkept hentry]
    · rw [hothers, hprepared.growth.entryAt?_of_not_isPrefix]
      · rw [hbeside]
        exact Tree.not_concat_isPrefix dirs name'
      · rw [hbeside, htemporary]
        simpa using hne

/-- The file of an atomic stream appears at its path when the stream is closed without a failure,
with all bytes of the calls that succeeded; until then, and in all other cases, what stands at the
path is what was there before the stream was created. A stream that was closed without a failure
has refused bytes only after a flush that had failed. -/
theorem atomic_stream_of_run (hs : Reachable s) (hunlinks : s.faults.failingUnlinks = 0)
    (hatomic : options.atomic = true)
    (hfree : s.tree.entryAt? (components (token.temporaryPath (Path.ofText path))) = none)
    (hcreate : v.create s path options token = (.ok o₀, v', s₀))
    (hrun : Run Refaulted o₀ s₀ calls o s₁) :
    let target := components (Path.ofText path)
    let temporary := components (token.temporaryPath (Path.ofText path))
    s₁.tree.entryAt? target = s.tree.entryAt? target ∧
    (∀ o' s₂, o.close s₁ = (.ok (), o', s₂) → RefusedAfterFlush calls ∧
      ∃ e, Mode.type e.mode = Mode.regular ∧ e.bytes = some (handedOver calls) ∧
        Settled s s₂ target temporary (some e)) ∧
    (∀ error o' s₂, o.close s₁ = (.error error, o', s₂) →
      Settled s s₂ target temporary (s.tree.entryAt? target)) ∧
    Settled s (o.drop s₁) target temporary (s.tree.entryAt? target) ∧
    ∃ a, o = .atomic a ∧ Settled s (a.abort s₁).2.2 target temporary (s.tree.entryAt? target) := by
  obtain ⟨a₀, handle, e, rfl, hopen, hfinal, htemporary, hregular, h₀, htarget, hkept⟩ :=
    progress_of_create hs hunlinks hatomic hfree hcreate
  obtain ⟨w, ho⟩ := hrun.exists_withWriter
  have h := progress_of_run h₀ hrun
  have hbeside : Beside a₀.finalPath a₀.temporaryPath := by
    rw [hfinal, htemporary]
    exact beside_temporaryPath token path
  rw [← htemporary, ← hfinal]
  rw [← htemporary] at hfree
  subst ho
  obtain ⟨held, hstaged, hheld⟩ := h.close
  have hclosing := Staged.close (a := { a₀ with inner := w }) hopen hstaged hbeside
  have habort := Staged.abort (a := { a₀ with inner := w }) hopen hstaged
  have hne := hbeside.components_ne
  have hdiscarded {s' : Store} (hs' : Discarded { a₀ with inner := w } s₀.tree.entryAt? s') :
      Settled s s' (components a₀.finalPath) (components a₀.temporaryPath)
        (s.tree.entryAt? (components a₀.finalPath)) := by
    refine ⟨?_, (hs' _).trans (if_pos rfl), ?_⟩
    · rw [hs', if_neg hne, htarget]
    · intro q e _ hq
      rw [hs', if_neg, hkept q e hq]
      rintro rfl
      exact absurd (hfree.symm.trans hq) nofun
  refine ⟨?_, ?_, ?_, hdiscarded habort, _, rfl, hdiscarded habort⟩
  · obtain ⟨_, hstaging⟩ := h.staging
    rw [hstaging.others _ hne, htarget]
  · intro o' s₂ hclose
    rw [show (Output.atomic a₀).withWriter w = .atomic { a₀ with inner := w } from rfl,
      Output.close] at hclose
    rcases hclosing with ⟨a', s', hok, hinner, hpublished⟩ | ⟨error, a', s', hfailed, -⟩
    · rw [hok] at hclose
      cases hclose
      obtain ⟨rfl, hcalls⟩ := hheld hinner
      refine ⟨hcalls, { e with bytes := some (handedOver calls) }, hregular, rfl, ?_, ?_, ?_⟩
      · rw [hpublished, if_pos rfl]
      · rw [hpublished, if_neg hne.symm, if_pos rfl]
      · intro q e hq he
        rw [hpublished, if_neg hq, if_neg, hkept q e he]
        rintro rfl
        exact absurd (hfree.symm.trans he) nofun
    · rw [hfailed] at hclose
      cases hclose
  · intro error o' s₂ hclose
    rw [show (Output.atomic a₀).withWriter w = .atomic { a₀ with inner := w } from rfl,
      Output.close] at hclose
    rcases hclosing with ⟨a', s', hok, -⟩ | ⟨error, a', s', hfailed, hs'⟩
    · rw [hok] at hclose
      cases hclose
    · rw [hfailed] at hclose
      cases hclose
      exact hdiscarded hs'

/-- A file that was there before, replaced by four bytes. -/
theorem atomic_stream_of_run_replaced_file :
    let before := Store.putFile (.new {}) "/f" "old".toUTF8
    let created := Volume.tiny.create before "/f" { atomic := true } ⟨0⟩
    let first := AtomicWriter.mk (.new ⟨⟨3⟩, (⟨0⟩ : Token).temporaryPath "/f"⟩ 0 2)
      ((⟨0⟩ : Token).temporaryPath "/f") "/f" false
    let ran := WriteCall.onEach (.atomic first) created.2.2 [.bytes "abc".toUTF8, .flush, .byte 100]
    let closed := ran.2.1.close ran.2.2
    created.1 = .ok (.atomic first) ∧
      (ran.2.2.tree.entryAt? ["f"]).bind Entry.bytes = some "old".toUTF8 ∧ closed.1 = .ok () ∧
      (closed.2.2.tree.entryAt? ["f"]).bind Entry.bytes = some "abcd".toUTF8 ∧
      ((ran.2.1.drop ran.2.2).tree.entryAt? ["f"]).bind Entry.bytes = some "old".toUTF8 := by
  intro before created first ran closed
  have hcreated : created.1 = .ok (.atomic first) := by decide +kernel
  have hcreate : created = (.ok (.atomic first), created.2.1, created.2.2) := by rw [← hcreated]
  have hclosed : closed.1 = .ok () := by decide +kernel
  have hclose : closed = (.ok (), closed.2.1, closed.2.2) := by rw [← hclosed]
  have hfree : before.tree.entryAt?
      (components ((⟨0⟩ : Token).temporaryPath (Path.ofText "/f"))) = none := by decide +kernel
  have hold : (before.tree.entryAt? ["f"]).bind Entry.bytes = some "old".toUTF8 := by decide +kernel
  have htarget : components (Path.ofText "/f") = ["f"] := by decide +kernel
  obtain ⟨hkept, hdone, -, hdropped, -⟩ := atomic_stream_of_run
    ((Reachable.new {}).step (.putFile "/f" "old".toUTF8)) rfl rfl hfree hcreate
    (Run.start.onEach [.bytes "abc".toUTF8, .flush, .byte 100])
  obtain ⟨-, e, -, hbytes, hsettled⟩ := hdone _ _ hclose
  rw [htarget] at hkept hsettled hdropped
  refine ⟨hcreated, ?_, hclosed, ?_, ?_⟩
  · exact (congrArg (·.bind Entry.bytes) hkept).trans hold
  · rw [hsettled.entryAt?_target, Option.bind_some, hbytes]
    decide +kernel
  · exact (congrArg (·.bind Entry.bytes) hdropped.entryAt?_target).trans hold

/-- Bytes that were refused after a failed flush are missing from a file that is published. -/
theorem atomic_stream_published_after_refusal :
    let created := Volume.tiny.create (Store.new {}) "/f" { atomic := true } ⟨0⟩
    let first := Output.atomic (.mk (.new ⟨⟨3⟩, (⟨0⟩ : Token).temporaryPath "/f"⟩ 0 2)
      ((⟨0⟩ : Token).temporaryPath "/f") "/f" false)
    let written := WriteCall.onEach first created.2.2 [.bytes "ab".toUTF8]
    let flushed := WriteCall.onEach written.2.1
      { written.2.2 with faults.flushError := some .eio } [.flush]
    let refused := WriteCall.onEach flushed.2.1
      { flushed.2.2 with faults.flushError := none } [.bytes "cd".toUTF8]
    let closed := refused.2.1.close refused.2.2
    created.1 = .ok first ∧
      Run Refaulted first created.2.2 (written.1 ++ flushed.1 ++ refused.1) refused.2.1
        refused.2.2 ∧
      refused.1.map (·.2.isDone) = [false] ∧ closed.1 = .ok () ∧
      closed.2.2.contents? "/f" = some "ab".toUTF8 := by
  intro created first written flushed refused closed
  have hstart : Run Refaulted first created.2.2 [] first created.2.2 := .start
  have hfailing : Refaulted written.2.2 { written.2.2 with faults.flushError := some .eio } :=
    ⟨_, some .eio, _, rfl⟩
  have hcleared : Refaulted flushed.2.2 { flushed.2.2 with faults.flushError := none } :=
    ⟨_, none, _, rfl⟩
  have hrun := (((hstart.onEach [.bytes "ab".toUTF8]).step hfailing).onEach [.flush]).step hcleared
  refine ⟨?_, hrun.onEach [.bytes "cd".toUTF8], ?_, ?_, ?_⟩
  · decide +kernel
  · decide +kernel
  · decide +kernel
  · decide +kernel

end Volume

end VolumeFs
