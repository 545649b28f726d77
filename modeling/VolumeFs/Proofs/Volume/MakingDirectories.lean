import VolumeFs.Proofs.Paths
import VolumeFs.Proofs.Store.Attempts
import VolumeFs.Proofs.Volume.Renaming

/-!
# Directories made through a volume

A volume makes a directory with all that lead to it or changes nothing. It makes it exactly where
the store can be reached and is up, nothing is at the path and no file on the way to it, the parent
is there unless it may be made too, and fewer calls are going to fail than attempts are allowed.
-/

namespace VolumeFs

open Memory

namespace Volume

section Client

variable {σ : Type} [StoreClient σ] {s : σ} {v : Volume} {client : Client} {session : Session}

theorem makeDirectory_of_client (hsession : v.session.client = (.ok client, session))
    (path : String) (mode : UInt32) :
    v.makeDirectory s path mode =
      let (made, s') := retrying (StoreClient.mkdirs · path mode) (· = .eexist)
        v.options.metadataRetry.retries s
      (.ok made.isOk, { v with session }, s') := by
  unfold Volume.makeDirectory Volume.withClient
  rw [hsession]

end Client

theorem retrying_of_ok {σ : Type} {call : σ → Except Errno Unit × σ} {s s' : σ}
    (h : call s = (.ok (), s')) (isFinal : Errno → Bool) (retries : Nat) :
    retrying call isFinal retries s = (.ok (), s') := by
  unfold retrying
  rw [h]

private theorem paved_of_retrying {s : Store} {path : String} (hs : s.tree.Forest)
    (hup : s.isShutDown = false) (hnoop : s.faults.mkdirsIsNoop = false)
    (h : s.tree.lookup path = .error .enoent) (isFinal : Errno → Bool) (heio : isFinal .eio = false)
    (mode : UInt32) (retries : Nat) :
    (s.faults.failingMkdirs.toNat ≤ retries →
      ∃ s', retrying (Store.mkdirs · path mode) isFinal retries s = (.ok (), s') ∧
        s.tree.Paved s'.tree (components path) mode) ∧
    (retries < s.faults.failingMkdirs.toNat →
      ∃ s', retrying (Store.mkdirs · path mode) isFinal retries s = (.error .eio, s') ∧
        s'.tree = s.tree) := by
  by_cases hfailing : 0 < s.faults.failingMkdirs
  · have hmkdirs := Store.mkdirs_of_failing hup hfailing path mode
    have hcount := Store.toNat_failingMkdirs_refuseMkdirs hfailing path
    rw [← hcount]
    unfold retrying
    simp only [hmkdirs, heio]
    cases retries with
    | zero => exact ⟨fun hle => absurd hle (Nat.not_succ_le_zero _), fun _ => ⟨_, rfl, rfl⟩⟩
    | succ retries =>
      obtain ⟨hok, herror⟩ :=
        paved_of_retrying (s := s.refuseMkdirs path) hs hup hnoop h isFinal heio mode retries
      constructor
      · intro hle
        exact hok (Nat.le_of_succ_le_succ hle)
      · intro hlt
        exact herror (Nat.lt_of_succ_lt_succ hlt)
  · have hzero : s.faults.failingMkdirs.toNat = 0 := by
      rw [UInt32.lt_iff_toNat_lt] at hfailing
      exact Nat.eq_zero_of_not_pos hfailing
    rw [hzero]
    obtain ⟨s', hmkdirs, hpaved, -⟩ := Store.paved_of_mkdirs hs hup hzero hnoop h mode
    exact ⟨fun _ => ⟨s', retrying_of_ok hmkdirs isFinal retries, hpaved⟩,
      fun hlt => absurd hlt (Nat.not_lt_zero _)⟩

/-- All that it takes to make a directory. -/
structure Makable (v : Volume) (s : Store) (path : String) (options : MkdirsOptions) : Prop where
  isOk_client : v.session.client.1.isOk = true
  isUp : s.isShutDown = false
  missing : s.tree.lookup (Path.ofText path) = .error .enoent
  parent : options.createParent = true ∨ ∃ parent ino,
    Path.parent (Path.ofText path) = .ok parent ∧ s.tree.lookup parent = .ok ino ∧
      s.tree.isDirectory ino = true
  attempts : s.faults.failingMkdirs.toNat < v.options.metadataRetry.maxAttempts.toNat

/-- A directory is made exactly where it can be made, and otherwise nothing changes. -/
structure Makes (v : Volume) (s : Store) (path : String) (options : MkdirsOptions)
    (answer : Except VolumeError Bool) (s' : Store) : Prop where
  makes_iff : answer = .ok true ↔ v.Makable s path options
  made : answer = .ok true → s.tree.Paved s'.tree (components (Path.ofText path))
    (options.mode.getD v.options.defaultDirMode)
  unchanged : answer ≠ .ok true → s'.tree = s.tree

variable {v : Volume} {s s' : Store} {path : String} {options : MkdirsOptions} {client : Client}
  {session : Session} {answer : Except VolumeError Bool}

private theorem Makes.of_not_makable (hanswer : answer ≠ .ok true)
    (hnot : ¬ v.Makable s path options) (htree : s'.tree = s.tree) :
    v.Makes s path options answer s' where
  makes_iff := iff_of_false hanswer hnot
  made h := absurd h hanswer
  unchanged _ := htree

private theorem makes_of_makeDirectory (hs : s.tree.Forest) (hnoop : s.faults.mkdirsIsNoop = false)
    (hattempts : 0 < v.options.metadataRetry.maxAttempts.toNat)
    (hsession : v.session.client = (.ok client, session)) (hup : s.isShutDown = false)
    (hmissing : s.tree.lookup (Path.ofText path) = .error .enoent) (options : MkdirsOptions)
    (hparent : options.createParent = true ∨ ∃ parent ino,
      Path.parent (Path.ofText path) = .ok parent ∧ s.tree.lookup parent = .ok ino ∧
        s.tree.isDirectory ino = true) :
    let outcome := { v with session }.makeDirectory s (Path.ofText path)
      (options.mode.getD v.options.defaultDirMode)
    v.Makes s path options outcome.1 outcome.2.2 := by
  intro outcome
  have hconnected : ({ v with session } : Volume).session.client = (.ok client, session) :=
    Session.client_of_client hsession
  have houtcome := makeDirectory_of_client (s := s) hconnected (Path.ofText path)
    (options.mode.getD v.options.defaultDirMode)
  obtain ⟨hok, herror⟩ := paved_of_retrying hs hup hnoop hmissing (· = .eexist) (by decide)
    (options.mode.getD v.options.defaultDirMode) v.options.metadataRetry.retries
  rcases Nat.lt_or_ge v.options.metadataRetry.retries s.faults.failingMkdirs.toNat with hlt | hle
  · obtain ⟨s', hretrying, htree⟩ := herror hlt
    have heq : outcome = (.ok false, { v with session }, s') := by
      rw [show outcome = _ from houtcome]
      dsimp only [StoreClient.mkdirs]
      rw [hretrying]
      rfl
    rw [heq]
    refine .of_not_makable (by simp) (fun h => ?_) htree
    have hallowed := h.attempts
    unfold MetadataRetry.retries at hlt
    omega
  · obtain ⟨s', hretrying, hpaved⟩ := hok hle
    have heq : outcome = (.ok true, { v with session }, s') := by
      rw [show outcome = _ from houtcome]
      dsimp only [StoreClient.mkdirs]
      rw [hretrying]
      rfl
    rw [heq]
    refine ⟨iff_of_true rfl ⟨by rw [hsession]; rfl, hup, hmissing, hparent, ?_⟩, fun _ => hpaved,
      fun h => absurd rfl h⟩
    unfold MetadataRetry.retries at hle
    omega

theorem exists?_eq_false_iff (hs : s.tree.Forest)
    (hsession : v.session.client = (.ok client, session)) (path : String) :
    (v.exists? s path).2 = ({ v with session }, s) ∧
      ((v.exists? s path).1 = .ok false ↔
        s.isShutDown = false ∧ s.tree.lookup (Path.ofText path) = .error .enoent) := by
  rw [exists?, holds_eq_of_client hsession]
  refine ⟨by simp [StoreClient.getAttr], ?_⟩
  dsimp only [StoreClient.getAttr]
  unfold Store.getAttr
  cases hup : s.isShutDown with
  | true => simp [show Errno.eio ≠ .enoent by decide]
  | false =>
    cases hlookup : s.tree.lookup (Path.ofText path) with
    | ok ino =>
      obtain ⟨e, he⟩ := hs.exists_entryOf? (Tree.lookup_eq_ok_iff.1 hlookup)
      obtain ⟨node, hnode, -⟩ := Option.map_eq_some_iff.1 he
      simp [hnode]
    | error code => by_cases hcode : code = .enoent <;> simp [hcode]

/-- Where a name is missing in it, the parent is a directory, and its mode says so. -/
theorem parentIsDirectory_iff (hs : Reachable s) (hup : s.isShutDown = false)
    (hmissing : s.tree.lookup (Path.ofText path) = .error .enoent)
    (hsession : v.session.client = (.ok client, v.session)) :
    (v.parentIsDirectory s (Path.ofText path)).2 = (v, s) ∧
      ((v.parentIsDirectory s (Path.ofText path)).1 = .ok true ↔ ∃ parent ino,
        Path.parent (Path.ofText path) = .ok parent ∧ s.tree.lookup parent = .ok ino ∧
          s.tree.isDirectory ino = true) := by
  unfold Volume.parentIsDirectory
  cases hparent : Path.parent (Path.ofText path) with
  | error e => simp
  | ok parent =>
    obtain ⟨hnormal, hdirs⟩ := Path.of_parent_eq_ok hparent
    rw [Path.ofText_ofText] at hdirs
    obtain ⟨hstate, hheld⟩ := holds_of_client (s := s) hsession parent Stat.isDirectory
    rw [hnormal] at hstate hheld
    refine ⟨hstate.trans (by rw [show StoreClient.getAttr s parent = s.getAttr parent from rfl,
      Store.getAttr_snd]), hheld.trans ?_⟩
    rw [show StoreClient.getAttr s parent = s.getAttr parent from rfl]
    simp only [Store.getAttr_eq_ok_iff]
    constructor
    · rintro ⟨_, ⟨-, ino, node, hr, hnode, rfl⟩, -⟩
      refine ⟨parent, ino, rfl, Tree.lookup_eq_ok_iff.2 hr, ?_⟩
      exact Tree.isDirectory_of_missing hs.forest hmissing (hdirs ▸ hr)
    · rintro ⟨_, ino, ⟨⟩, hlookup, hdir⟩
      obtain ⟨node, hnode, hkind⟩ := (Option.any_eq_true _ _).1 hdir
      refine ⟨_, ⟨hup, ino, node, Tree.lookup_eq_ok_iff.1 hlookup, hnode, rfl⟩, ?_⟩
      rcases hs.typed ino node hnode with htype | ⟨-, hfile⟩
      · exact beq_iff_eq.2 htype
      · rw [hkind] at hfile
        cases hfile

end Volume

open Volume in
/-- Whatever was done to a store, a directory is made in it with all that lead to it, or nothing
changes. -/
theorem makes_of_mkdirs {s : Store} (hs : Reachable s) (hnoop : s.faults.mkdirsIsNoop = false)
    {v : Volume} (hattempts : 0 < v.options.metadataRetry.maxAttempts.toNat) (path : String)
    (options : MkdirsOptions) :
    v.Makes s path options (v.mkdirs s path options).1 (v.mkdirs s path options).2.2 := by
  cases hsession : v.session.client with
  | mk answer session =>
  cases answer with
  | error e =>
    have heq : v.mkdirs s path options = (.error (.session e), { v with session }, s) := by
      unfold Volume.mkdirs Volume.exists? Volume.holds Volume.stat? Volume.withClient
      rw [hsession]
    rw [heq]
    refine .of_not_makable (by simp) (fun h => ?_) rfl
    have hconnects := h.isOk_client
    rw [hsession] at hconnects
    cases hconnects
  | ok client =>
    obtain ⟨hstate, hexists⟩ := exists?_eq_false_iff hs.forest hsession (Path.ofText path)
    rw [Path.ofText_ofText] at hexists
    unfold Volume.mkdirs
    dsimp only
    generalize v.exists? s (Path.ofText path) = tested at hstate hexists
    obtain ⟨answer, v', s'⟩ := tested
    cases hstate
    obtain e | _ | _ := answer
    · exact .of_not_makable (by simp) (fun h => by cases hexists.2 ⟨h.isUp, h.missing⟩) rfl
    · obtain ⟨hup, hmissing⟩ := hexists.1 rfl
      have hmakes := makes_of_makeDirectory hs.forest hnoop hattempts hsession hup hmissing options
      cases hcreate : options.createParent with
      | true => exact hmakes (.inl hcreate)
      | false =>
        obtain ⟨hstate, hparent⟩ := parentIsDirectory_iff (v := { v with session }) hs hup hmissing
          (Session.client_of_client hsession)
        dsimp only
        generalize Volume.parentIsDirectory _ s (Path.ofText path) = checked at hstate hparent
        obtain ⟨answer, v', s'⟩ := checked
        cases hstate
        have hneeded (h : v.Makable s path options) : answer = .ok true :=
          hparent.2 (h.parent.resolve_left (by simp [hcreate]))
        obtain e | _ | _ := answer
        · exact .of_not_makable (by simp) (fun h => by cases hneeded h) rfl
        · exact .of_not_makable (by simp) (fun h => by cases hneeded h) rfl
        · exact hmakes (.inr (hparent.1 rfl))
    · exact .of_not_makable (by simp) (fun h => by cases hexists.2 ⟨h.isUp, h.missing⟩) rfl

/-- Two levels below the root of a store that fails to make directories once. The type bits of the
mode do not count. -/
theorem makes_of_mkdirs_two_levels :
    let s := { Store.new {} with faults.failingMkdirs := 1 }
    let options : MkdirsOptions := { mode := some 0o100700 }
    let outcome := Volume.tiny.mkdirs s "/a/b" options
    Reachable s ∧ outcome.1 = .ok true ∧ s.tree.resolve ["a"] = none ∧
      ∀ q, q = ["a"] ∨ q = ["a", "b"] → ∃ e, outcome.2.2.tree.entryAt? q = some e ∧
        e.bytes = none ∧ e.mode = 0o40700 := by
  intro s options outcome
  have hs : Reachable s := (Reachable.new {}).step (.setFaults { failingMkdirs := 1 })
  have hanswer : outcome.1 = .ok true := by decide +kernel
  have hpath : components (Path.ofText "/a/b") = ["a", "b"] := by decide +kernel
  have hmakes := makes_of_mkdirs hs rfl (v := Volume.tiny) (by decide) "/a/b" options
  have hpaved := hmakes.made hanswer
  rw [hpath] at hpaved
  refine ⟨hs, hanswer, by decide +kernel, ?_⟩
  intro q hq
  have hpre : q <+: ["a", "b"] := by rcases hq with rfl | rfl <;> decide
  have hnone : s.tree.resolve q = none := by rcases hq with rfl | rfl <;> decide +kernel
  obtain ⟨e, he, hdir, hmode⟩ := hpaved.hasDirectory hpre
  exact ⟨e, he, hdir, (hmode (hs.forest.entryAt?_eq_none_iff.2 hnone)).trans (by decide)⟩

/-- A store that was shut down makes nothing, and the volume says so by an error. -/
theorem not_makes_of_shutdown :
    let s := (Store.new {}).shutdown
    (Reachable s ∧ s.faults = {} ∧ s.tree.lookup (Path.ofText "/a") = .error .enoent) ∧
      (Volume.tiny.mkdirs s "/a" {}).1 = .error (.store "/a" .eio) :=
  ⟨⟨(Reachable.new {}).step .shutdown, rfl, by decide +kernel⟩, by decide +kernel⟩

end VolumeFs
