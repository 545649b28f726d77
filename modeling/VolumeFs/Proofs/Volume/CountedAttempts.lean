import Mathlib.Data.ENat.Lattice
import VolumeFs.Proofs.Store.Traced
import VolumeFs.Proofs.Volume.MakingDirectories
import VolumeFs.Store.Scripted

/-!
# How often a volume asks for a change

Files are removed and directories made by a call that is made again where it fails. Over any
outcomes that a store gives to these calls, they end with the first one that decides, or with the
last one that is allowed, and it is the outcome of that call which is answered.
-/

namespace VolumeFs

section Outcomes

variable {σ : Type}

def afterCalls (call : σ → Except Errno Unit × σ) : Nat → σ → σ
  | 0, s => s
  | count + 1, s => afterCalls call count (call s).2

/-- What a store answers when a call is made again and again, counted from zero. -/
def outcomes (call : σ → Except Errno Unit × σ) (s : σ) (index : Nat) : Except Errno Unit :=
  (call (afterCalls call index s)).1

/-- Whether a call is not made again after an outcome. -/
def Decides (isFinal : Errno → Bool) : Except Errno Unit → Prop
  | .ok () => True
  | .error code => isFinal code = true

open Classical in
/-- The number of the first outcome that decides, counted from one. It is infinite if there is
none. -/
noncomputable def decisive (isFinal : Errno → Bool) (outcome : Nat → Except Errno Unit) : ℕ∞ :=
  if h : ∃ index, Decides isFinal (outcome index) then (Nat.find h + 1 : ℕ) else ⊤

section Retrying

open Volume

variable {call : σ → Except Errno Unit × σ} {isFinal : Errno → Bool} {s : σ}

private theorem retrying_zero : retrying call isFinal 0 s = call s := by
  rw [retrying]
  cases hcall : call s with
  | mk answer s' => cases answer <;> simp

private theorem retrying_of_decides (h : Decides isFinal (call s).1) (retries : Nat) :
    retrying call isFinal retries s = call s := by
  cases hcall : call s with
  | mk answer s' =>
    rw [hcall] at h
    cases answer with
    | ok => exact retrying_of_ok hcall isFinal retries
    | error code =>
      rw [retrying, hcall]
      exact if_pos h

private theorem retrying_succ_of_not_decides (h : ¬ Decides isFinal (call s).1) (retries : Nat) :
    retrying call isFinal (retries + 1) s = retrying call isFinal retries (call s).2 := by
  rw [retrying]
  cases hcall : call s with
  | mk answer s' =>
    rw [hcall] at h
    cases answer with
    | ok => exact absurd trivial h
    | error code => exact if_neg h

/-- The calls end with the first one that decides, or else with the last one that is allowed. -/
theorem retrying_eq (call : σ → Except Errno Unit × σ) (isFinal : Errno → Bool) (retries : Nat)
    (s : σ) :
    ∃ last ≤ retries, (∀ index < last, ¬ Decides isFinal (outcomes call s index)) ∧
      (last = retries ∨ Decides isFinal (outcomes call s last)) ∧
      retrying call isFinal retries s =
        (outcomes call s last, afterCalls call (last + 1) s) := by
  induction retries generalizing s with
  | zero => exact ⟨0, Nat.le_refl 0, by simp, .inl rfl, retrying_zero⟩
  | succ retries ih =>
    by_cases hdecides : Decides isFinal (outcomes call s 0)
    · exact ⟨0, Nat.zero_le _, by simp, .inr hdecides, retrying_of_decides hdecides _⟩
    · -- The first failure is not final: what is left is a run that begins with the second call.
      obtain ⟨last, hle, hbefore, hlast, heq⟩ := ih (call s).2
      have hnext := (retrying_succ_of_not_decides hdecides retries).trans heq
      refine ⟨last + 1, Nat.succ_le_succ hle, ?_, hlast.imp_left (congrArg (· + 1)), hnext⟩
      intro index hindex
      cases index with
      | zero => exact hdecides
      | succ index => exact hbefore index (Nat.lt_of_succ_lt_succ hindex)

end Retrying

private theorem succ_eq_min_decisive {isFinal : Errno → Bool} {outcome : Nat → Except Errno Unit}
    {last retries : Nat} (hle : last ≤ retries)
    (hbefore : ∀ index < last, ¬ Decides isFinal (outcome index))
    (hlast : last = retries ∨ Decides isFinal (outcome last)) :
    ((last + 1 : ℕ) : ℕ∞) = min ((retries + 1 : ℕ) : ℕ∞) (decisive isFinal outcome) := by
  classical
  unfold decisive
  split
  · rename_i h
    have hfind : last ≤ Nat.find h := by
      apply Nat.le_of_not_lt
      intro hlt
      exact hbefore _ hlt (Nat.find_spec h)
    have hmin : last + 1 = min (retries + 1) (Nat.find h + 1) := by
      rcases hlast with rfl | hdecides
      · omega
      · have hfirst := Nat.find_min' h hdecides
        omega
    have hcast : Monotone (Nat.cast : ℕ → ℕ∞) := Nat.mono_cast
    rw [hmin, hcast.map_min]
  · rename_i h
    rcases hlast with rfl | hdecides
    · simp
    · exact absurd ⟨last, hdecides⟩ h

end Outcomes

/-- An operation that asks a store for a change, at most so many times. The store would answer
with these outcomes one after the other, and the last call made is the one with this index. -/
structure Tried (limit : Nat) (isFinal : Errno → Bool) (outcome : Nat → Except Errno Unit)
    (exchange : Except Errno Unit → Exchange) (earlier now : List Exchange)
    (answer : Except VolumeError Bool) (last : Nat) : Prop where
  count : ((last + 1 : ℕ) : ℕ∞) = min (limit : ℕ∞) (decisive isFinal outcome)
  calls : now = earlier ++ (List.range (last + 1)).map fun index => exchange (outcome index)
  answers : answer = .ok (outcome last).isOk
  failures : ∀ index < last, (outcome index).isOk = false

private theorem Tried.length_eq {limit : Nat} {isFinal : Errno → Bool}
    {outcome : Nat → Except Errno Unit} {exchange : Except Errno Unit → Exchange}
    {earlier now : List Exchange} {answer : Except VolumeError Bool} {last : Nat}
    (h : Tried limit isFinal outcome exchange earlier now answer last) :
    now.length = earlier.length + (last + 1) := by
  rw [h.calls]
  simp

section Noted

variable {σ : Type} (call : σ → Except Errno Unit × σ) (exchange : Except Errno Unit → Exchange)

private def Traced.calling (t : Traced σ) : Except Errno Unit × Traced σ :=
  t.noted exchange (call t.store)

private theorem afterCalls_calling (count : Nat) (t : Traced σ) :
    afterCalls (Traced.calling call exchange) count t =
      ⟨afterCalls call count t.store, t.exchanges ++
        (List.range count).map fun index => exchange (outcomes call t.store index)⟩ := by
  induction count generalizing t with
  | zero => simp [afterCalls]
  | succ count ih =>
    rw [afterCalls, ih, List.range_succ_eq_map]
    simp [afterCalls, outcomes, Traced.calling, Traced.noted, Function.comp_def]

private theorem outcomes_calling (t : Traced σ) (index : Nat) :
    outcomes (Traced.calling call exchange) t index = outcomes call t.store index := by
  unfold outcomes
  rw [afterCalls_calling]
  rfl

open Volume in
private theorem tried_of_retrying (isFinal : Errno → Bool) {r : MetadataRetry}
    (hattempts : 1 ≤ r.maxAttempts.toNat) (t : Traced σ) :
    let outcome := retrying (Traced.calling call exchange) isFinal r.retries t
    ∃ last, Tried r.maxAttempts.toNat isFinal (outcomes call t.store) exchange t.exchanges
      outcome.2.exchanges (.ok outcome.1.isOk) last := by
  intro outcome
  obtain ⟨last, hle, hbefore, hlast, heq⟩ :=
    retrying_eq (Traced.calling call exchange) isFinal r.retries t
  simp only [outcomes_calling] at hbefore hlast heq
  rw [afterCalls_calling] at heq
  have hlimit : r.retries + 1 = r.maxAttempts.toNat := Nat.sub_add_cancel hattempts
  refine ⟨last, ?_, ?_, ?_, ?_⟩
  · rw [← hlimit]
    exact succ_eq_min_decisive hle hbefore hlast
  · exact congrArg (·.2.exchanges) heq
  · exact congrArg (fun outcome => Except.ok outcome.1.isOk) heq
  · intro index hindex
    have hnot := hbefore index hindex
    cases houtcome : outcomes call t.store index with
    | ok => exact absurd (by rw [houtcome]; trivial) hnot
    | error code => rfl

end Noted

namespace Volume

section Client

variable {σ : Type} [StoreClient σ]

/-- Whether a directory may be made at a path: there is no entry, and there is a directory to
make it in unless that may be made too. -/
def mayMake (v : Volume) (s : σ) (path : String) (options : MkdirsOptions) :
    Except VolumeError Bool × Volume × σ :=
  match v.exists? s path with
  | (.error e, v, s) => (.error e, v, s)
  | (.ok true, v, s) => (.ok false, v, s)
  | (.ok false, v, s) =>
    if options.createParent then (.ok true, v, s) else v.parentIsDirectory s path

private theorem mkdirs_eq (v : Volume) (s : σ) (path : String) (options : MkdirsOptions) :
    v.mkdirs s path options =
      match v.mayMake s (Path.ofText path) options with
      | (.ok true, v', s') =>
        v'.makeDirectory s' (Path.ofText path) (options.mode.getD v.options.defaultDirMode)
      | refused => refused := by
  unfold mkdirs mayMake
  dsimp only
  rcases v.exists? s (Path.ofText path) with ⟨e | _ | _, v', s'⟩
  · rfl
  · cases options.createParent with
    | true => rfl
    | false =>
      dsimp only
      rcases v'.parentIsDirectory s' (Path.ofText path) with ⟨e | _ | _, _, _⟩ <;> rfl
  · rfl

end Client

section Notes

variable {σ : Type} {t t' t'' : Traced σ} {v v' v'' : Volume} {path : String}

def OnlyAsks (t t' : Traced σ) : Prop :=
  ∃ asked, t'.exchanges = t.exchanges ++ asked ∧
    ∀ exchange ∈ asked, ∃ path answer, exchange = .getAttr path answer

theorem OnlyAsks.trans (h : OnlyAsks t t') (h' : OnlyAsks t' t'') : OnlyAsks t t'' := by
  obtain ⟨asked, hasked, honly⟩ := h
  obtain ⟨asked', hasked', honly'⟩ := h'
  refine ⟨asked ++ asked', ?_, ?_⟩
  · rw [hasked', hasked, List.append_assoc]
  · intro exchange hmem
    exact (List.mem_append.1 hmem).elim (honly exchange) (honly' exchange)

/-- What is left behind where a question was answered. The client that was asked is there. -/
structure Answered (v : Volume) (t : Traced σ) (v' : Volume) (t' : Traced σ) : Prop where
  isOk_client : v'.session.client.1.isOk = true
  options_eq : v'.options = v.options
  onlyAsks : OnlyAsks t t'

theorem Answered.trans (h : Answered v t v' t') (h' : Answered v' t' v'' t'') :
    Answered v t v'' t'' where
  isOk_client := h'.isOk_client
  options_eq := h'.options_eq.trans h.options_eq
  onlyAsks := h.onlyAsks.trans h'.onlyAsks

variable [StoreClient σ]

private theorem answered_of_holds {test : Stat → Bool} {answer : Bool}
    (h : v.holds t path test = (.ok answer, v', t')) : Answered v t v' t' := by
  cases hsession : v.session.client with
  | mk client session =>
    cases client with
    | error e =>
      unfold Volume.holds Volume.stat? Volume.withClient at h
      rw [hsession] at h
      cases h
    | ok client =>
      have hstate := (holds_of_client (s := t) hsession path test).1
      rw [h] at hstate
      cases hstate
      refine ⟨?_, rfl, [_], rfl, ?_⟩
      · rw [Session.client_of_client hsession]
        rfl
      · intro exchange hmem
        exact ⟨_, _, List.mem_singleton.1 hmem⟩

private theorem answered_of_parentIsDirectory {answer : Bool}
    (h : v.parentIsDirectory t path = (.ok answer, v', t')) : Answered v t v' t' := by
  unfold parentIsDirectory at h
  cases hparent : Path.parent path with
  | error e =>
    rw [hparent] at h
    cases h
  | ok parent =>
    rw [hparent] at h
    exact answered_of_holds h

private theorem answered_of_mayMake {options : MkdirsOptions}
    (h : v.mayMake t path options = (.ok true, v', t')) : Answered v t v' t' := by
  unfold mayMake at h
  cases hexists : v.exists? t path with
  | mk answer outcome =>
    rw [hexists] at h
    obtain e | _ | _ := answer
    · cases h
    · have hanswered := answered_of_holds hexists
      dsimp only at h
      split at h
      · cases h
        exact hanswered
      · exact hanswered.trans (answered_of_parentIsDirectory h)
    · cases h

end Notes

end Volume

open Volume in
/-- Over any outcomes, a file is removed by as many calls as there are up to the first outcome that
decides, or as are allowed, and so is a directory made once it may be; the last one is answered. -/
theorem tried_of_changes {σ : Type} [StoreClient σ] {v : Volume}
    (hattempts : 1 ≤ v.options.metadataRetry.maxAttempts.toNat) (t : Traced σ) (path : String) :
    (match v.session.client with
      | (.error e, session) =>
        v.deleteFile t path = (.error (.session e), { v with session }, t)
      | (.ok _, _) =>
        let path' := Path.ofText path
        let (answer, _, t') := v.deleteFile t path
        ∃ last, Tried v.options.metadataRetry.maxAttempts.toNat
          (fun code => code = .enoent || code = .eisdir)
          (outcomes (StoreClient.unlink · path') t.store) (.unlink path')
          t.exchanges t'.exchanges answer last) ∧
    ∀ options, match v.mayMake t (Path.ofText path) options with
      | (.ok true, _, checked) =>
        let path' := Path.ofText path
        let mode := options.mode.getD v.options.defaultDirMode
        let (answer, _, t') := v.mkdirs t path options
        OnlyAsks t checked ∧ ∃ last, Tried v.options.metadataRetry.maxAttempts.toNat (· = .eexist)
          (outcomes (StoreClient.mkdirs · path' mode) checked.store) (.mkdirs path' mode)
          checked.exchanges t'.exchanges answer last
      | refused => v.mkdirs t path options = refused := by
  constructor
  · cases hsession : v.session.client with
    | mk client session =>
      unfold Volume.deleteFile Volume.withClient
      rw [hsession]
      cases client with
      | error e => rfl
      | ok client => exact tried_of_retrying _ _ _ hattempts t
  · intro options
    have hmkdirs := mkdirs_eq v t path options
    cases hchecked : v.mayMake t (Path.ofText path) options with
    | mk may outcome =>
      obtain ⟨v', checked⟩ := outcome
      rw [hchecked] at hmkdirs
      obtain e | _ | _ := may
      · exact hmkdirs
      · exact hmkdirs
      · obtain ⟨hclient, hoptions, hasks⟩ := answered_of_mayMake hchecked
        dsimp only at hmkdirs ⊢
        rw [hmkdirs]
        cases hsession : v'.session.client with
        | mk client session =>
          rw [hsession] at hclient
          cases client with
          | error e => cases hclient
          | ok client =>
            rw [makeDirectory_of_client hsession, hoptions]
            exact ⟨hasks, tried_of_retrying _ _ _ hattempts checked⟩

open Volume in
/-- In a store that first fails to remove and to make anything, both take a second call: by that
the file turns out to be missing, and the directory is made. -/
theorem tried_of_changes_twice :
    let t : Traced (Scripted Memory.Store) := {
      store := {
        store := .new {}
        script := { errors := [(.unlink, [some .eio]), (.mkdirs, [some .eio])] } } }
    let deleted := Volume.tiny.deleteFile t "/f"
    let made := Volume.tiny.mkdirs t "/d" {}
    1 ≤ Volume.tiny.options.metadataRetry.maxAttempts.toNat ∧
      deleted.1 = .ok false ∧ made.1 = .ok true ∧
      (∃ outcome, Tried 10 (fun code => code = .enoent || code = .eisdir) outcome (.unlink "/f")
        [] deleted.2.2.exchanges deleted.1 1) ∧
      ∃ outcome earlier, earlier.length = 1 ∧ Tried 10 (· = .eexist) outcome (.mkdirs "/d" 0o755)
        earlier made.2.2.exchanges made.1 1 := by
  intro t deleted made
  have hattempts : 1 ≤ Volume.tiny.options.metadataRetry.maxAttempts.toNat := by decide
  have hdelete := (tried_of_changes hattempts t "/f").1
  have hmake := (tried_of_changes hattempts t "/d").2 {}
  have hf : Path.ofText "/f" = "/f" := by decide +kernel
  have hd : Path.ofText "/d" = "/d" := by decide +kernel
  have hchecked : (Volume.tiny.mayMake t "/d" {}).1 = .ok true := by decide +kernel
  have hearlier : (Volume.tiny.mayMake t "/d" {}).2.2.exchanges.length = 1 := by decide +kernel
  have hlength₁ : deleted.2.2.exchanges.length = 2 := by decide +kernel
  have hlength₂ : made.2.2.exchanges.length = 3 := by decide +kernel
  refine ⟨hattempts, by decide +kernel, by decide +kernel, ?_, ?_⟩
  · obtain ⟨last, htried⟩ := hdelete
    rw [hf] at htried
    change Tried 10 _ _ _ [] deleted.2.2.exchanges deleted.1 last at htried
    have hcount := htried.length_eq
    rw [hlength₁] at hcount
    have hlast : last = 1 := by simpa using hcount.symm
    exact ⟨_, hlast ▸ htried⟩
  · rw [hd] at hmake
    generalize Volume.tiny.mayMake t "/d" {} = outcome at hmake hchecked hearlier
    obtain ⟨may, v, checked⟩ := outcome
    cases hchecked
    obtain ⟨-, last, htried⟩ := hmake
    change Tried 10 _ _ _ checked.exchanges made.2.2.exchanges made.1 last at htried
    have hcount := htried.length_eq
    rw [hlength₂, hearlier] at hcount
    have hlast : last = 1 := by omega
    exact ⟨_, _, hearlier, hlast ▸ htried⟩

end VolumeFs
