import VolumeFs.Proofs.Paths
import VolumeFs.Proofs.Store.Attempts
import VolumeFs.Proofs.Store.Reachable

/-!
# Files whose parents are missing

The creation of a file makes the parent if it is missing and tries again. How many calls that takes
is known beforehand: a parent that was made once is there, so all attempts but the last two are due
to calls that failed to make it.
-/

namespace VolumeFs

/-- Where no limit is set there are attempts enough for any number of failures. -/
theorem CreateRetry.lt_limit_sub_one {r : CreateRetry} {failing : UInt32}
    (h : ∀ m, r.maxAttempts = some m → failing.toNat + 2 ≤ m.toNat) :
    failing.toNat < r.limit - 1 := by
  unfold CreateRetry.limit
  cases hm : r.maxAttempts with
  | none =>
    have hfailing := failing.toNat_lt_size
    simp only [UInt32.size] at hfailing ⊢
    omega
  | some m =>
    have hle := h m hm
    simp only
    omega

namespace Creation

section Client

variable {σ : Type} [StoreClient σ] {s s' : σ} {c : Creation} {path parent : String}
  {mode : UInt32} {fd : Fd} {code : Errno} {handle : Handle} {e : VolumeError}

private theorem openFile_of_ok (h : StoreClient.openPath s path flags mode = (.ok fd, s'))
    (retries : Nat) : c.openFile path mode retries s = (.ok ⟨fd, path⟩, s') := by
  rw [openFile, Handle.openPath, h]

private theorem openFile_of_error (h : StoreClient.openPath s path flags mode = (.error code, s'))
    (hcode : code ≠ .enoent) (retries : Nat) :
    c.openFile path mode retries s = (.error (.ofErrno code path), s') := by
  rw [openFile, Handle.openPath, h]
  exact if_pos hcode

private theorem openFile_zero_of_enoent
    (h : StoreClient.openPath s path flags mode = (.error .enoent, s')) :
    c.openFile path mode 0 s = (.error (.notFound path), s') := by
  rw [openFile, Handle.openPath, h]
  exact if_neg (by simp)

private theorem openFile_succ_of_enoent
    (h : StoreClient.openPath s path flags mode = (.error .enoent, s'))
    (hparent : Path.parent path = .ok parent) (retries : Nat) :
    c.openFile path mode (retries + 1) s =
      c.openFile path mode retries (StoreClient.mkdirs s' parent c.directoryMode).2 := by
  rw [openFile, Handle.openPath, h, hparent]
  exact if_neg (by simp)

private theorem create_of_openFile
    (h : c.openFile path mode (c.retry.limit - 1) s = (.ok handle, s')) :
    c.create s path mode = (.ok (.new handle 0 c.bufferSize), s') := by
  rw [create, h]

private theorem create_of_openFile_error
    (h : c.openFile path mode (c.retry.limit - 1) s = (.error e, s')) :
    c.create s path mode = (.error e, s') := by
  rw [create, h]

end Client

end Creation

open Memory

namespace Creation

/-- The path was opened and its parent was made so many times, and nothing else was asked for. -/
def Tried (path : String) (opens mkdirs : Nat) (s s' : Store) : Prop :=
  ∃ parents : Array String, parents.size = mkdirs ∧ (∀ p ∈ parents, Path.parent path = .ok p) ∧
    s'.calls = { s.calls with
      opens := s.calls.opens + opens
      mkdirs := s.calls.mkdirs + mkdirs
      mkdirsPaths := s.calls.mkdirsPaths ++ parents }

variable {c : Creation} {s s₁ s' : Store} {path parent : String} {mode : UInt32}
  {dirs : List String} {name : String} {opens opens' mkdirs mkdirs' : Nat}

theorem Tried.trans (h : Tried path opens mkdirs s s₁) (h' : Tried path opens' mkdirs' s₁ s') :
    Tried path (opens + opens') (mkdirs + mkdirs') s s' := by
  obtain ⟨parents, hsize, hmem, hcalls⟩ := h
  obtain ⟨parents', hsize', hmem', hcalls'⟩ := h'
  refine ⟨parents ++ parents', ?_, ?_, ?_⟩
  · rw [Array.size_append, hsize, hsize']
  · intro p hp
    rcases Array.mem_append.1 hp with hp | hp
    · exact hmem p hp
    · exact hmem' p hp
  · rw [hcalls', hcalls]
    simp only [Array.append_assoc, Nat.add_assoc]

private theorem tried_open (hcalls : s'.calls = { s.calls with opens := s.calls.opens + 1 }) :
    Tried path 1 0 s s' :=
  ⟨#[], rfl, by simp, by simp [hcalls]⟩

private theorem tried_mkdirs (hparent : Path.parent path = .ok parent)
    (hcalls : s'.calls = { s.calls with
      mkdirs := s.calls.mkdirs + 1
      mkdirsPaths := s.calls.mkdirsPaths.push parent }) : Tried path 0 1 s s' := by
  refine ⟨#[parent], rfl, ?_, ?_⟩
  · intro p hp
    rw [Array.mem_singleton.1 hp, hparent]
  · rw [hcalls]
    simp

/-- The next descriptor stands for an empty file at the path. One that was there before keeps its
number and its mode. A new one and the new directories that lead to it have the permissions that
were asked for, and nothing else changes. -/
structure Placed (c : Creation) (path : String) (mode : UInt32) (s s' : Store) : Prop where
  file : ∃ e, s'.WritableAt ⟨s.nextFd.toInt⟩ path e ∧ e.bytes = some .empty ∧
    (∀ old, s.tree.entryAt? (components path) = some old → e.ino = old.ino ∧ e.mode = old.mode) ∧
    (s.tree.entryAt? (components path) = none → e.mode = Mode.regular ||| Mode.permissions mode)
  directories : ∀ q, q <+: components path → q ≠ components path →
    s.tree.HasDirectory s'.tree c.directoryMode q
  kept : ∀ q e, q ≠ components path → s.tree.entryAt? q = some e → s'.tree.entryAt? q = some e
  others : ∀ q, ¬ q <+: components path → s'.tree.entryAt? q = s.tree.entryAt? q

private theorem placed_of_created (hpath : components path = dirs ++ [name])
    (hpaved : s.tree.Paved s₁.tree dirs c.directoryMode) (hnextFd : s₁.nextFd = s.nextFd)
    (h : s₁.Created s' path mode) : c.Placed path mode s s' := by
  have hsame : s₁.tree.entryAt? (components path) = s.tree.entryAt? (components path) := by
    apply hpaved.entryAt?_of_not_isPrefix
    rw [hpath]
    exact Tree.not_concat_isPrefix dirs name
  constructor
  · rw [← hnextFd, ← hsame]
    exact h.file
  · intro q hpre hne
    obtain ⟨e, he, hdir, hmode⟩ :=
      hpaved.hasDirectory ((List.prefix_concat_iff.1 (hpath ▸ hpre)).resolve_left (hpath ▸ hne))
    exact ⟨e, (h.others q hne).trans he, hdir, hmode⟩
  · intro q e hne he
    rw [h.others q hne, hpaved.entryAt?_of_some he]
  · intro q hpre
    rw [h.others q fun heq => hpre (heq ▸ List.prefix_rfl)]
    apply hpaved.entryAt?_of_not_isPrefix
    intro hdirs
    exact hpre (hdirs.trans (hpath ▸ List.prefix_append dirs [name]))

private theorem Placed.of_tree (h : c.Placed path mode s₁ s') (htree : s₁.tree = s.tree)
    (hnextFd : s₁.nextFd = s.nextFd) : c.Placed path mode s s' := by
  obtain ⟨hfile, hdirectories, hkept, hothers⟩ := h
  rw [hnextFd, htree] at hfile
  rw [htree] at hdirectories hkept hothers
  exact ⟨hfile, hdirectories, hkept, hothers⟩

private theorem openFile_of_paved (hup : s₁.isShutDown = false)
    (hpath : components path = dirs ++ [name]) (hpaved : s.tree.Paved s₁.tree dirs c.directoryMode)
    (hnextFd : s₁.nextFd = s.nextFd) (hdir : ¬ s.tree.IsDirectoryAt (components path))
    (mode : UInt32) (retries : Nat) :
    ∃ s', c.openFile path mode retries s₁ = (.ok ⟨⟨s.nextFd.toInt⟩, path⟩, s') ∧
      Tried path 1 0 s₁ s' ∧ c.Placed path mode s s' := by
  obtain ⟨e, he, hkind, -⟩ := hpaved.hasDirectory List.prefix_rfl
  have hdir₁ : ¬ s₁.tree.IsDirectoryAt (components path) := by
    rw [Tree.IsDirectoryAt, hpath,
      hpaved.entryAt?_of_not_isPrefix (Tree.not_concat_isPrefix dirs name), ← hpath]
    exact hdir
  obtain ⟨s', hopen, hcreated⟩ := Store.created_of_parent hpaved.forest hup hpath ⟨e, he, hkind⟩
    hdir₁ mode
  refine ⟨s', ?_, tried_open hcreated.calls, placed_of_created hpath hpaved hnextFd hcreated⟩
  rw [← hnextFd]
  exact openFile_of_ok hopen retries

/-- Where a file can be created once its parent is there, the store must fail to make the parent as
often as it is asked to if the creation is to fail. -/
theorem openFile_of_missing (hs : s.tree.Forest) (hup : s.isShutDown = false)
    (hnoop : s.faults.mkdirsIsNoop = false) (hpath : components path = dirs ++ [name])
    (hparent : Path.parent path = .ok parent) (hdirs : components parent = dirs)
    (hmissing : s.tree.walk rootIno dirs = .error .enoent)
    (hblocked : ¬ s.tree.Blocked (components path)) (mode : UInt32) (retries : Nat) :
    (s.faults.failingMkdirs.toNat < retries →
      ∃ s', c.openFile path mode retries s = (.ok ⟨⟨s.nextFd.toInt⟩, path⟩, s') ∧
        Tried path (s.faults.failingMkdirs.toNat + 2) (s.faults.failingMkdirs.toNat + 1) s s' ∧
        c.Placed path mode s s') ∧
    (retries ≤ s.faults.failingMkdirs.toNat →
      ∃ s', c.openFile path mode retries s = (.error (.notFound path), s') ∧
        Tried path (retries + 1) retries s s' ∧ s'.tree = s.tree) := by
  induction retries generalizing s with
  | zero =>
    have hopen := Store.openPath_of_missing hup hpath hmissing hblocked mode
    refine ⟨fun hlt => absurd hlt (Nat.not_lt_zero _), fun _ => ?_⟩
    exact ⟨_, openFile_zero_of_enoent hopen, tried_open rfl, rfl⟩
  | succ retries ih =>
    have hopen := Store.openPath_of_missing hup hpath hmissing hblocked mode
    have hopened : Tried path 1 0 s s.refuseOpen := tried_open rfl
    by_cases hfailing : 0 < s.faults.failingMkdirs
    · -- The parent was not made, and one failure less is to come.
      have hmkdirs := Store.mkdirs_of_failing (s := s.refuseOpen) hup hfailing parent
        c.directoryMode
      have hcount : _ = s.faults.failingMkdirs.toNat :=
        Store.toNat_failingMkdirs_refuseMkdirs (s := s.refuseOpen) hfailing parent
      have htried : Tried path 1 1 s (s.refuseOpen.refuseMkdirs parent) :=
        hopened.trans (tried_mkdirs hparent rfl)
      have hnext := openFile_succ_of_enoent (c := c) (s := s) hopen hparent retries
      rw [show StoreClient.mkdirs s.refuseOpen parent c.directoryMode = _ from hmkdirs] at hnext
      obtain ⟨hok, herror⟩ := ih (s := s.refuseOpen.refuseMkdirs parent) hs hup hnoop hmissing
        hblocked
      rw [hnext, ← hcount]
      constructor
      · intro hlt
        obtain ⟨s', hopenFile, htried', hplaced⟩ := hok (Nat.lt_of_succ_lt_succ hlt)
        have hsum := htried.trans htried'
        rw [Nat.add_comm 1, Nat.add_comm 1] at hsum
        exact ⟨s', hopenFile, hsum, hplaced.of_tree rfl rfl⟩
      · intro hle
        obtain ⟨s', hopenFile, htried', htree⟩ := herror (Nat.le_of_succ_le_succ hle)
        have hsum := htried.trans htried'
        rw [Nat.add_comm 1, Nat.add_comm 1] at hsum
        exact ⟨s', hopenFile, hsum, htree⟩
    · have hzero : s.faults.failingMkdirs.toNat = 0 := by
        rw [UInt32.lt_iff_toNat_lt] at hfailing
        exact Nat.eq_zero_of_not_pos hfailing
      have hlookup : s.tree.lookup parent = .error .enoent := by rwa [Tree.lookup, hdirs]
      obtain ⟨s₁, hmkdirs, hpaved, hup₁, hnextFd, hcalls⟩ :=
        Store.paved_of_mkdirs (s := s.refuseOpen) hs hup hzero hnoop hlookup c.directoryMode
      rw [hdirs] at hpaved
      have hnext := openFile_succ_of_enoent (c := c) (s := s) hopen hparent retries
      rw [show StoreClient.mkdirs s.refuseOpen parent c.directoryMode = _ from hmkdirs] at hnext
      rw [hnext, hzero]
      refine ⟨fun _ => ?_, fun hle => absurd hle (Nat.not_succ_le_zero _)⟩
      have hdir : ¬ s.tree.IsDirectoryAt (components path) := by
        have hnone := (Tree.walk_eq_enoent_iff.1
          (Tree.walk_concat_of_missing hmissing (hpath ▸ hblocked))).1
        rintro ⟨e, he, -⟩
        rw [hpath, hs.entryAt?_eq_none_iff.2 hnone] at he
        cases he
      obtain ⟨s', hopenFile, htried, hplaced⟩ :=
        openFile_of_paved (s := s) hup₁ hpath hpaved hnextFd hdir mode retries
      exact ⟨s', hopenFile, (hopened.trans (tried_mkdirs hparent hcalls)).trans htried, hplaced⟩

/-- The creation fails after so many calls and leaves the tree as it was. -/
structure Fails (path : String) (e : VolumeError) (opens mkdirs : Nat) (s : Store)
    (outcome : Except VolumeError Writer × Store) : Prop where
  answer : outcome.1 = .error e
  tried : Tried path opens mkdirs s outcome.2
  unchanged : outcome.2.tree = s.tree

/-- The creation gives a stream into the file after so many calls. -/
structure Succeeds (c : Creation) (path : String) (mode : UInt32) (opens mkdirs : Nat) (s : Store)
    (outcome : Except VolumeError Writer × Store) : Prop
    extends c.Placed path mode s outcome.2 where
  answer : outcome.1 = .ok (.new ⟨⟨s.nextFd.toInt⟩, path⟩ 0 c.bufferSize)
  tried : Tried path opens mkdirs s outcome.2

private theorem fails_of_openPath {code : Errno} (hcode : code ≠ .enoent)
    (h : s.openPath path flags mode = (.error code, s.refuseOpen)) :
    Fails path (.ofErrno code path) 1 0 s (c.create s path mode) := by
  rw [create_of_openFile_error (openFile_of_error h hcode _)]
  exact ⟨rfl, tried_open rfl, rfl⟩

end Creation

open Creation in
/-- Whatever was done to a store that is up, the creation of a file fails at once where there is a
directory or a file stands in the way, and succeeds at once in a directory. Where the parent is
missing it takes one attempt to find that out, one for each call that fails to make the parent, and
one after the parent was made, if so many are allowed. -/
theorem attempts_of_create {s : Store} (hs : Reachable s) (hup : s.isShutDown = false)
    (hnoop : s.faults.mkdirsIsNoop = false) {path : String} (hnormal : Path.ofText path = path)
    (c : Creation) (hlimit : c.retry.maxAttempts ≠ some 0) (mode : UInt32) :
    let names := components path
    let failing := s.faults.failingMkdirs.toNat
    let outcome := c.create s path mode
    (s.tree.IsDirectoryAt names → Fails path (.isDirectory path) 1 0 s outcome) ∧
      (s.tree.Blocked names → Fails path (.store path .enotdir) 1 0 s outcome) ∧
      (¬ s.tree.IsDirectoryAt names → s.tree.IsDirectoryAt names.dropLast →
        c.Succeeds path mode 1 0 s outcome) ∧
      (¬ s.tree.IsDirectoryAt names → ¬ s.tree.Blocked names →
        ¬ s.tree.IsDirectoryAt names.dropLast →
          ((∀ m, c.retry.maxAttempts = some m → failing + 2 ≤ m.toNat) →
            c.Succeeds path mode (failing + 2) (failing + 1) s outcome) ∧
          ∀ m, c.retry.maxAttempts = some m → m.toNat ≤ failing + 1 →
            Fails path (.notFound path) m.toNat (m.toNat - 1) s outcome) := by
  intro names failing outcome
  have ht := hs.forest
  refine ⟨fun hdir => ?_, fun hblocked => ?_, fun hdir hparent => ?_,
    fun hdir hblocked hparent => ?_⟩
  · exact fails_of_openPath (by decide) (Store.openPath_of_directory hup hdir)
  · exact fails_of_openPath (by decide) (Store.openPath_of_blocked hup hblocked)
  · have hpath := Tree.eq_concat_of_not_isDirectoryAt ht hdir
    obtain ⟨s', hopen, htried, hplaced⟩ := openFile_of_paved (s := s) hup hpath (.refl ht hparent)
      rfl hdir mode (c.retry.limit - 1)
    rw [show outcome = _ from create_of_openFile hopen]
    exact ⟨hplaced, rfl, htried⟩
  · have hpath := Tree.eq_concat_of_not_isDirectoryAt ht hdir
    have hmissing := Tree.walk_of_not_isDirectoryAt ht (hpath ▸ hblocked) hparent
    have hroot : names ≠ [] := by
      rw [hpath]
      simp
    have hnormal' : components (Path.ofText path) ≠ [] := by rwa [hnormal]
    obtain ⟨parent, hparentPath⟩ := Path.exists_parent hnormal'
    have hdirs := (Path.of_parent_eq_ok hparentPath).2
    rw [hnormal] at hdirs
    obtain ⟨hok, herror⟩ := openFile_of_missing (c := c) ht hup hnoop hpath hparentPath hdirs
      hmissing hblocked mode (c.retry.limit - 1)
    constructor
    · intro hallowed
      obtain ⟨s', hopen, htried, hplaced⟩ := hok (CreateRetry.lt_limit_sub_one hallowed)
      rw [show outcome = _ from create_of_openFile hopen]
      exact ⟨hplaced, rfl, htried⟩
    · intro m hm hle
      have hpos : 0 < m.toNat := by
        rw [Nat.pos_iff_ne_zero]
        intro hzero
        exact hlimit (hm.trans (congrArg some (UInt32.toNat_inj.1 hzero)))
      have hretries : c.retry.limit - 1 = m.toNat - 1 := by rw [CreateRetry.limit, hm]
      rw [hretries] at herror
      obtain ⟨s', hopen, htried, htree⟩ := herror (by omega)
      rw [← hretries] at hopen
      rw [show outcome = _ from create_of_openFile_error hopen]
      refine ⟨rfl, ?_, htree⟩
      rwa [Nat.sub_add_cancel hpos] at htried

open Creation in
/-- A file two levels below the root of an empty store that fails to make directories once: the
third attempt succeeds, and is the first one not allowed. -/
theorem attempts_of_create_two_levels :
    let s := { Store.new {} with faults.failingMkdirs := 1 }
    let c : Creation := ⟨{}, 0o755, 2⟩
    let c' : Creation := { c with retry := ⟨some 2⟩ }
    Reachable s ∧ s.isShutDown = false ∧ ¬ s.tree.IsDirectoryAt ["a"] ∧
      c.Succeeds "/a/b" 0o600 3 2 s (c.create s "/a/b" 0o600) ∧
      Fails "/a/b" (.notFound "/a/b") 2 1 s (c'.create s "/a/b" 0o600) := by
  intro s c c'
  have hs : Reachable s := (Reachable.new {}).step (.setFaults { failingMkdirs := 1 })
  have hpath : components "/a/b" = ["a", "b"] := by decide +kernel
  have hnone (names : List String) (h : s.tree.resolve names = none) :
      ¬ s.tree.IsDirectoryAt names := by
    rintro ⟨e, he, -⟩
    rw [hs.forest.entryAt?_eq_none_iff.2 h] at he
    cases he
  have hdir : ¬ s.tree.IsDirectoryAt (components "/a/b") :=
    hnone _ (by rw [hpath]; decide +kernel)
  have hparent : ¬ s.tree.IsDirectoryAt (components "/a/b").dropLast :=
    hnone _ (by rw [hpath]; decide +kernel)
  have hblocked : ¬ s.tree.Blocked (components "/a/b") :=
    (Tree.walk_eq_enoent_iff.1 (by rw [hpath]; decide +kernel)).2
  have hnormal : Path.ofText "/a/b" = "/a/b" := by decide +kernel
  obtain ⟨-, -, -, hmissing⟩ := attempts_of_create hs rfl rfl hnormal c (by simp [c]) 0o600
  obtain ⟨-, -, -, hmissing'⟩ := attempts_of_create hs rfl rfl hnormal c' (by simp [c']) 0o600
  refine ⟨hs, rfl, hnone _ (by decide +kernel), ?_, ?_⟩
  · exact (hmissing hdir hblocked hparent).1 (by simp [c])
  · exact (hmissing' hdir hblocked hparent).2 2 rfl (by decide)

open Creation in
/-- A store that was shut down does not even look for the directory. -/
theorem not_fails_of_shutdown :
    let s := ((Store.new {}).mkdirs "/a" 0o755).2.shutdown
    let c : Creation := ⟨{}, 0o755, 2⟩
    (Reachable s ∧ s.faults = {} ∧ Path.ofText "/a" = "/a" ∧
        s.tree.IsDirectoryAt (components "/a")) ∧
      (c.create s "/a" 0o644).1 = .error (.store "/a" .eio) ∧
      ¬ Fails "/a" (.isDirectory "/a") 1 0 s (c.create s "/a" 0o644) := by
  intro s c
  have hs : Reachable s := ((Reachable.new {}).step (.mkdirs "/a" 0o755)).step .shutdown
  have hrefused : (c.create s "/a" 0o644).1 = .error (.store "/a" .eio) := by
    rw [create_of_openFile_error (openFile_of_error (s := s) rfl (by decide) _)]
    rfl
  obtain ⟨e, he, hdir⟩ := Tree.isDirectory_iff_entryOf?.1
    (show s.tree.isDirectory 2 = true by decide +kernel)
  refine ⟨⟨hs, rfl, by decide +kernel, e, ?_, hdir⟩, hrefused, ?_⟩
  · rw [Tree.entryAt?, show s.tree.resolve (components "/a") = some 2 by decide +kernel]
    exact he
  · intro h
    rw [h.answer] at hrefused
    exact absurd (Except.error.inj hrefused) (by decide)

end VolumeFs
