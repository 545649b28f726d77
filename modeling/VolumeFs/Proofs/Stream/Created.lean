import VolumeFs.Proofs.Store.OpenFile
import VolumeFs.Volume.Basic

/-!
# Streams that a volume has created

A file is opened after some attempts that failed and after its parent was made. In a store in
memory that adds directories above the file and changes nothing else.
-/

namespace VolumeFs

def Volume.tiny : Volume where
  session := .withClient {} ⟨0⟩
  options := { writeBufferSize := 2, minWriteBufferSize := 2 }
  pool := { config := {} }
  identity := .ofUser "user"

section Client

variable {σ : Type} [StoreClient σ] {s s' : σ}

/-- What attempts that fail and the making of the parent keep, holds where the file is opened. -/
theorem Creation.openFile_eq_ok {c : Creation} {path : String} {mode : UInt32} {retries : Nat}
    {handle : Handle} (keeps : σ → Prop)
    (hopen : ∀ {s s' code}, keeps s →
      StoreClient.openPath s path Creation.flags mode = (.error code, s') → keeps s')
    (hmkdirs : ∀ {s parent}, keeps s → Path.parent path = .ok parent →
      keeps (StoreClient.mkdirs s parent c.directoryMode).2)
    (hs : keeps s) (h : c.openFile path mode retries s = (.ok handle, s')) :
    ∃ s₁, keeps s₁ ∧ handle.path = path ∧
      StoreClient.openPath s₁ path Creation.flags mode = (.ok handle.fd, s') := by
  induction retries generalizing s with
  | zero =>
    unfold Creation.openFile Handle.openPath at h
    split at h
    · rename_i hopened
      split at hopened <;> cases hopened
      cases h
      exact ⟨s, hs, rfl, by assumption⟩
    · split at h <;> cases h
  | succ retries ih =>
    unfold Creation.openFile Handle.openPath at h
    split at h
    · rename_i hopened
      split at hopened <;> cases hopened
      cases h
      exact ⟨s, hs, rfl, by assumption⟩
    · rename_i hopened
      split at hopened <;> cases hopened
      split at h
      · cases h
      · simp only at h
        split at h
        · cases h
        · rename_i parent hparent
          exact ih (hmkdirs (hopen hs (by assumption)) hparent) h

theorem Volume.create_eq_ok {v v' : Volume} {path : String} {options : CreateOptions}
    {token : Token} {o : Output} (h : v.create s path options token = (.ok o, v', s')) :
    ∃ handle, (Creation.ofOptions v.options).openFile
        (if options.atomic then token.temporaryPath (Path.ofText path) else Path.ofText path)
        (options.mode.getD v.options.defaultFileMode)
        ((Creation.ofOptions v.options).retry.limit - 1) s = (.ok handle, s') ∧
      o = (let writer := Writer.new handle 0 v.options.effectiveWriteBufferSize
        if options.atomic then
          .atomic {
            inner := writer
            temporaryPath := token.temporaryPath (Path.ofText path)
            finalPath := Path.ofText path }
        else .direct writer) := by
  simp only [Volume.create, Volume.withClient, Creation.create] at h
  split at h
  · cases h
  · split at h
    · rename_i hatomic
      simp only [hatomic, if_true]
      split at h
      · cases h
      · rename_i hinner
        split at hinner <;> cases hinner
        cases h
        exact ⟨_, by assumption, rfl⟩
    · rename_i hdirect
      simp only [hdirect]
      split at h
      · cases h
      · rename_i hwriter
        split at hwriter <;> cases hwriter
        cases h
        exact ⟨_, by assumption, rfl⟩

end Client

namespace Memory.Store

variable {s s' : Store} {dirs : List String}

/-- A store to which the attempts to create a file lead: directories along the names may be new. -/
structure Prepared (s s' : Store) (dirs : List String) : Prop where
  growth : Tree.Growth s.tree s'.tree dirs
  faults : ∃ n, n ≤ s.faults.failingMkdirs ∧ s'.faults = { s.faults with failingMkdirs := n }
  writeLog : s'.calls.writeLog = s.calls.writeLog

theorem Prepared.refl (hs : s.tree.Forest) : Prepared s s dirs :=
  ⟨.refl hs dirs, ⟨_, UInt32.le_refl _, rfl⟩, rfl⟩

theorem Prepared.trans {s'' : Store} (h : Prepared s s' dirs) (h' : Prepared s' s'' dirs) :
    Prepared s s'' dirs := by
  obtain ⟨n, hn, hf⟩ := h.faults
  obtain ⟨n', hn', hf'⟩ := h'.faults
  refine ⟨h.growth.trans h'.growth, ⟨n', ?_, ?_⟩, h'.writeLog.trans h.writeLog⟩
  · rw [hf] at hn'
    exact UInt32.le_trans hn' hn
  · rw [hf', hf]

private theorem prepared_mkdirs (hs : s.tree.Forest) (parent : String) (mode : UInt32) :
    Prepared s (s.mkdirs parent mode).2 (components parent) := by
  simp only [mkdirs]
  split
  · exact .refl hs
  · split
    · rename_i hpos
      exact ⟨.refl hs _, ⟨_, sub_one_le_of_pos hpos, rfl⟩, rfl⟩
    · split
      · exact ⟨.refl hs _, ⟨_, UInt32.le_refl _, rfl⟩, rfl⟩
      · exact ⟨Tree.growth_mkdirs hs parent mode s.clock.now, ⟨_, UInt32.le_refl _, rfl⟩, rfl⟩

theorem writableAt_of_openFile {c : Creation} {path : String} {mode : UInt32} {retries : Nat}
    {handle : Handle} (hs : s.tree.Forest)
    (hparent : ∀ parent, Path.parent path = .ok parent → components parent = dirs)
    (h : c.openFile path mode retries s = (.ok handle, s')) :
    handle.path = path ∧ ∃ s₁ e, Prepared s s₁ dirs ∧ e.bytes = some .empty ∧
      WritableAt s' handle.fd path e ∧
      (∀ q, q ≠ components path → s'.tree.entryAt? q = s₁.tree.entryAt? q) ∧
      (s₁.tree.entryAt? (components path) = none → Mode.type e.mode = Mode.regular) ∧
      s'.faults = s₁.faults ∧ s'.calls.writeLog = s.calls.writeLog := by
  obtain ⟨s₁, hprepared, hpath, hopened⟩ := Creation.openFile_eq_ok (fun s₁ => Prepared s s₁ dirs)
    (fun {s₁ s₂ code} hprepared hfailed => hprepared.trans (by
      rcases openPath_eq_error hfailed with rfl | rfl
      · exact .refl hprepared.growth.forest
      · exact ⟨.refl hprepared.growth.forest dirs, ⟨_, UInt32.le_refl _, rfl⟩, rfl⟩))
    (fun {s₁ parent} hprepared hp => hprepared.trans (by
      rw [← hparent parent hp]
      exact prepared_mkdirs hprepared.growth.forest parent c.directoryMode))
    (.refl hs) h
  obtain ⟨e, he, hwritable, hother, hregular, hfaults, hlog⟩ :=
    writableAt_of_openPath hprepared.growth.forest hopened
  exact ⟨hpath, s₁, e, hprepared, he, hwritable, hother, hregular, hfaults,
    hlog.trans hprepared.writeLog⟩

end Memory.Store
end VolumeFs
