import VolumeFs.Proofs.Stream.Held
import VolumeFs.Proofs.Volume.Deletion

/-!
# Descriptors held by a volume

A listing holds a descriptor from the first batch to the last, and an operation of a volume holds
none when it is over, unless it has made a stream. Descriptors that were opened on the way were
given back, whichever calls failed.
-/

namespace VolumeFs

namespace Listing

def held (l : Listing) : Multiset Fd :=
  match l.state.handle? with
  | some handle => {handle.fd}
  | none => 0

theorem held_new (path : String) (batchSize : Nat) (identity : Identity) (blockSize : UInt64) :
    (new path batchSize identity blockSize).held = 0 := rfl

structure Steps {σ : Type} (opened : Multiset Fd → σ → Prop) (fds : Multiset Fd)
    (outcome : Option VolumeError × Listing × σ) : Prop where
  opened : opened (outcome.2.1.held + fds) outcome.2.2
  held_of_failed : ∀ {e}, outcome.1 = some e → outcome.2.1.held = 0

variable {σ : Type} {opened : Multiset Fd → σ → Prop} {fds : Multiset Fd} {s : σ}

private theorem Steps.of_closed {outcome : Option VolumeError × Listing × σ}
    (hheld : outcome.2.1.held = 0) (hs : opened fds outcome.2.2) : Steps opened fds outcome where
  opened := by rwa [hheld, zero_add]
  held_of_failed _ := hheld

private theorem Steps.of_none {l : Listing} (hs : opened (l.held + fds) s) :
    Steps opened fds (none, l, s) where
  opened := hs
  held_of_failed := nofun

variable [StoreClient σ] {l : Listing} {handle : Handle}

private theorem steps_fail (h : Book opened) (hs : opened ({handle.fd} + fds) s)
    (error : VolumeError) :
    Steps opened fds (l.fail s handle error) := by
  rw [Multiset.singleton_add] at hs
  have hclose := h.closeHandle hs
  unfold Listing.fail
  dsimp only
  generalize handle.close s = result at hclose ⊢
  obtain ⟨code | ⟨⟨⟩⟩, s'⟩ := result <;> exact .of_closed rfl hclose

private theorem steps_finish (h : Book opened) (hs : opened ({handle.fd} + fds) s) :
    Steps opened fds (l.finish s handle) := by
  rw [Multiset.singleton_add] at hs
  have hclose := h.closeHandle hs
  unfold Listing.finish
  dsimp only
  generalize handle.close s = result at hclose ⊢
  obtain ⟨code | ⟨⟨⟩⟩, s'⟩ := result <;> exact .of_closed rfl hclose

private theorem steps_start (h : Book opened) (hs : opened fds s) (hidle : l.state = .idle) :
    Steps opened fds (l.step s) := by
  have hattr := h.getAttr l.path hs
  unfold Listing.step Listing.start
  simp only [hidle]
  generalize StoreClient.getAttr s l.path = result at hattr ⊢
  obtain ⟨code | stat, s₁⟩ := result
  · exact .of_closed rfl hattr
  · dsimp only
    by_cases hfile : stat.isFile = true
    · rw [if_pos hfile]
      exact .of_closed rfl hattr
    · rw [if_neg hfile]
      have hopen := h.openHandle hattr l.path .readOnly openMode
      generalize Handle.openPath s₁ l.path .readOnly openMode = result at hopen ⊢
      cases hopen with
      | ok hs₂ => exact .of_none (by rwa [← Multiset.singleton_add] at hs₂)
      | error hs₂ => exact .of_closed rfl hs₂

private theorem steps_step (h : Book opened) (hs : opened (l.held + fds) s) :
    Steps opened fds (l.step s) := by
  cases hstate : l.state with
  | idle =>
    rw [held, hstate] at hs
    exact steps_start h (by rwa [show ListingState.idle.handle? = none from rfl, zero_add] at hs)
      hstate
  | awaitingBatch handle =>
    have hs' : opened ({handle.fd} + fds) s := by rwa [held, hstate] at hs
    have hread := h.readdir l.batchSize (by simp : handle.fd ∈ {handle.fd} + fds) hs'
    unfold Listing.step
    simp only [hstate]
    generalize StoreClient.readdir s handle.fd l.batchSize = result at hread ⊢
    obtain ⟨code | _ | ⟨entry, entries⟩, s₁⟩ := result
    · exact steps_fail h hread _
    · exact steps_finish h hread
    · exact .of_none hread
  | resolving handle entries =>
    have hs' : opened ({handle.fd} + fds) s := by rwa [held, hstate] at hs
    have hbatch := h.batchGetAttr (entries.map (·.ino)) (by simp : handle.fd ∈ {handle.fd} + fds)
      hs'
    unfold Listing.step
    simp only [hstate]
    generalize StoreClient.batchGetAttr s handle.fd (entries.map (·.ino)) = result at hbatch ⊢
    obtain ⟨code | stats, s₁⟩ := result
    · exact steps_fail h hbatch _
    · dsimp only
      split
      · exact steps_finish h hbatch
      · exact .of_none hbatch
  | done =>
    unfold Listing.step
    simp only [hstate]
    exact .of_none hs
  | failed =>
    unfold Listing.step
    simp only [hstate]
    exact .of_none hs

omit [StoreClient σ] in
private theorem Steps.giveUp {e : VolumeError} {l : Listing}
    (h : Steps opened fds (some e, l, s)) : opened (l.giveUp.held + fds) s := by
  have hs := h.opened
  rwa [h.held_of_failed rfl] at hs

theorem opened_next (h : Book opened) (hs : opened (l.held + fds) s) (steps : Nat) :
    opened ((l.next s steps).2.1.held + fds) (l.next s steps).2.2 := by
  induction steps generalizing l s with
  | zero =>
    unfold Listing.next
    split
    · exact hs
    · split <;> exact hs
  | succ steps ih =>
    unfold Listing.next
    split
    · exact hs
    · split
      · exact hs
      · have hstep := steps_step h hs
        generalize l.step s = result at hstep ⊢
        obtain ⟨_ | e, l', s'⟩ := result
        · exact ih hstep.opened
        · exact hstep.giveUp

private theorem opened_drain (h : Book opened) (hs : opened (l.held + fds) s) (steps : Nat)
    (results : List Status) :
    opened ((l.drain s steps results).2.1.held + fds) (l.drain s steps results).2.2 := by
  induction steps generalizing l s results with
  | zero =>
    unfold Listing.drain
    dsimp only
    split <;> exact hs
  | succ steps ih =>
    unfold Listing.drain
    dsimp only
    split
    · exact hs
    · have hstep := steps_step (l := { l with ready := [] }) h hs
      generalize Listing.step _ s = result at hstep ⊢
      obtain ⟨_ | e, l', s'⟩ := result
      · exact ih hstep.opened _
      · exact hstep.giveUp

theorem opened_drop (h : Book opened) (hs : opened (l.held + fds) s) : opened fds (l.drop s) := by
  unfold Listing.held at hs
  unfold Listing.drop
  split
  · rename_i handle hhandle
    rw [hhandle, Multiset.singleton_add] at hs
    exact h.closeHandle hs
  · rename_i hhandle
    rwa [hhandle, zero_add] at hs

theorem opened_toList (h : Book opened) (hs : opened (l.held + fds) s) (steps : Nat) :
    opened fds (l.toList s steps).2 :=
  opened_drop h (opened_drain h hs steps [])

end Listing

section Streams

variable {σ : Type} [StoreClient σ] {opened : Multiset Fd → σ → Prop} {fds : Multiset Fd} {s : σ}

private theorem Creation.opened_openFile (h : Book opened) (hs : opened fds s) (c : Creation)
    (path : String) (mode : UInt32) (retries : Nat) :
    Outcome (fun handle => opened (handle.fd ::ₘ fds)) (opened fds)
      (c.openFile path mode retries s) := by
  induction retries generalizing s with
  | zero =>
    have hopen := h.openHandle hs path flags mode
    unfold Creation.openFile
    generalize Handle.openPath s path flags mode = result at hopen ⊢
    cases hopen with
    | ok hs' => exact .ok hs'
    | error hs' =>
      dsimp only
      split <;> exact .error hs'
  | succ retries ih =>
    have hopen := h.openHandle hs path flags mode
    unfold Creation.openFile
    generalize Handle.openPath s path flags mode = result at hopen ⊢
    cases hopen with
    | ok hs' => exact .ok hs'
    | error hs' =>
      dsimp only
      split
      · exact .error hs'
      · split
        · exact .error hs'
        · exact ih (h.mkdirs _ _ hs')

theorem Creation.opened_create (h : Book opened) (hs : opened fds s) (c : Creation) (path : String)
    (mode : UInt32) :
    Outcome (fun w s => w.IsProper ∧ opened (w.held + fds) s) (opened fds)
      (c.create s path mode) := by
  have hopen := c.opened_openFile h hs path mode (c.retry.limit - 1)
  unfold Creation.create
  generalize c.openFile path mode (c.retry.limit - 1) s = result at hopen ⊢
  cases hopen with
  | ok hs' => exact .ok ⟨rfl, hs'⟩
  | error hs' => exact .error hs'

namespace Volume

theorem opened_create (h : Book opened) (hs : opened fds s) (v : Volume) (path : String)
    (options : CreateOptions) (token : Token) :
    Outcome (Output.Owns opened fds) (opened fds)
      ((v.create s path options token).1, (v.create s path options token).2.2) := by
  unfold Volume.create Volume.withClient
  split
  · exact .error hs
  · dsimp only
    split
    · have hcreate := (Creation.ofOptions v.options).opened_create h hs
        (token.temporaryPath (Path.ofText path)) (options.mode.getD v.options.defaultFileMode)
      generalize Creation.create _ s _ _ = result at hcreate ⊢
      cases hcreate with
      | ok hs' => exact .ok ⟨hs'.1, nofun, hs'.2⟩
      | error hs' => exact .error hs'
    · have hcreate := (Creation.ofOptions v.options).opened_create h hs
        (Path.ofText path) (options.mode.getD v.options.defaultFileMode)
      generalize Creation.create _ s _ _ = result at hcreate ⊢
      cases hcreate with
      | ok hs' => exact .ok ⟨hs'.1, nofun, hs'.2⟩
      | error hs' => exact .error hs'

theorem opened_openFile (h : Book opened) (hs : opened fds s) (v : Volume) (path : String)
    (options : OpenOptions) :
    Outcome (Reader.Owns opened fds) (opened fds)
      ((v.openFile s path options).1, (v.openFile s path options).2.2) := by
  unfold Volume.openFile Volume.withClient
  split
  · exact .error hs
  · dsimp only
    have hopen := h.openHandle hs (Path.ofText path) .readOnly 0
    generalize Handle.openPath s (Path.ofText path) .readOnly 0 = result at hopen ⊢
    cases hopen with
    | @ok handle s' hs' =>
      dsimp only
      generalize v.pool.acquire v.options.readBufferSize = acquired
      obtain ⟨buffer, pool⟩ := acquired
      have hnew : (Reader.new handle buffer).Owns opened fds s' := ⟨rfl, hs'⟩
      have hsought := hnew.seek options.offset
      have hok : ((Reader.new handle buffer).seek options.offset).1 = .ok () := by
        unfold Reader.seek
        rw [show (Reader.new handle buffer).checkOpen = .ok () from rfl]
        dsimp only
        split <;> rfl
      generalize (Reader.new handle buffer).seek options.offset = result at hsought hok ⊢
      obtain ⟨sought, r⟩ := result
      obtain rfl : sought = .ok () := hok
      exact .ok hsought
    | error hs' => exact .error hs'

end Volume
end Streams

namespace Volume

variable {σ : Type} {opened : Multiset Fd → σ → Prop} {fds : Multiset Fd} {s : σ} {v : Volume}
  {path : String}

private theorem keeps_withClient {α : Type} {keeps : σ → Prop}
    {act : Volume → σ → Except VolumeError α × Volume × σ} (hs : keeps s)
    (hact : ∀ v, keeps (act v s).2.2) : keeps (v.withClient s act).2.2 := by
  unfold Volume.withClient
  split
  · exact hs
  · exact hact _

private theorem keeps_retrying {keeps : σ → Prop} {call : σ → Except Errno Unit × σ}
    (hcall : ∀ {s}, keeps s → keeps (call s).2) (isFinal : Errno → Bool) (retries : Nat)
    (hs : keeps s) : keeps (retrying call isFinal retries s).2 := by
  induction retries generalizing s with
  | zero =>
    have hfirst := hcall hs
    unfold retrying
    generalize call s = result at hfirst ⊢
    obtain ⟨code | ⟨⟨⟩⟩, s'⟩ := result
    · dsimp only
      split <;> exact hfirst
    · exact hfirst
  | succ retries ih =>
    have hfirst := hcall hs
    unfold retrying
    generalize call s = result at hfirst ⊢
    obtain ⟨code | ⟨⟨⟩⟩, s'⟩ := result
    · dsimp only
      split
      · exact hfirst
      · exact ih hfirst
    · exact hfirst

variable [StoreClient σ]

private theorem opened_stat (h : Book opened) (hs : opened fds s) (v : Volume) (path : String) :
    opened fds (v.stat s path).2.2 := by
  refine keeps_withClient hs fun v => ?_
  have hattr := h.getAttr path hs
  generalize StoreClient.getAttr s path = result at hattr ⊢
  obtain ⟨code | stat, s'⟩ := result <;> exact hattr

private theorem opened_stat? (h : Book opened) (hs : opened fds s) (v : Volume) (path : String) :
    opened fds (v.stat? s path).2.2 := by
  refine keeps_withClient hs fun v => ?_
  have hattr := h.getAttr path hs
  generalize StoreClient.getAttr s path = result at hattr ⊢
  obtain ⟨code | stat, s'⟩ := result
  · dsimp only
    split <;> exact hattr
  · exact hattr

theorem opened_status (h : Book opened) (hs : opened fds s) (v : Volume) (path : String) :
    opened fds (v.status s path).2.2 := by
  have hstat := opened_stat h hs v (Path.ofText path)
  unfold Volume.status
  dsimp only
  generalize v.stat s (Path.ofText path) = result at hstat ⊢
  obtain ⟨e | stat, v', s'⟩ := result <;> exact hstat

theorem opened_fileStatus (h : Book opened) (hs : opened fds s) (v : Volume) (path : String) :
    opened fds (v.fileStatus s path).2.2 := by
  have hstatus := opened_status h hs v path
  unfold Volume.fileStatus
  generalize v.status s path = result at hstatus ⊢
  obtain ⟨e | ⟨status⟩ | ⟨status⟩, v', s'⟩ := result <;> exact hstatus

theorem opened_directoryStatus (h : Book opened) (hs : opened fds s) (v : Volume) (path : String) :
    opened fds (v.directoryStatus s path).2.2 := by
  have hstatus := opened_status h hs v path
  unfold Volume.directoryStatus
  generalize v.status s path = result at hstatus ⊢
  obtain ⟨e | ⟨status⟩ | ⟨status⟩, v', s'⟩ := result <;> exact hstatus

theorem opened_holds (h : Book opened) (hs : opened fds s) (v : Volume) (path : String)
    (test : Stat → Bool) : opened fds (v.holds s path test).2.2 := by
  have hstat := opened_stat? h hs v (Path.ofText path)
  unfold Volume.holds
  generalize v.stat? s (Path.ofText path) = result at hstat ⊢
  obtain ⟨e | stat, v', s'⟩ := result <;> exact hstat

omit [StoreClient σ] in
theorem store_listing (v : Volume) (s : σ) (path : String) : (v.listing s path).2.2 = s :=
  by
    unfold Volume.listing Volume.withClient
    split <;> rfl

omit [StoreClient σ] in
theorem held_listing {v v' : Volume} {s' : σ} {l : Listing}
    (h : v.listing s path = (.ok l, v', s')) : l.held = 0 := by
  unfold Volume.listing Volume.withClient at h
  split at h
  · cases h
  · cases h
    rfl

theorem opened_list (h : Book opened) (hs : opened fds s) (v : Volume) (path : String) :
    opened fds (v.list s path).2.2 := by
  have hstore := v.store_listing s path
  unfold Volume.list
  cases hlisting : v.listing s path with
  | mk answer rest =>
    obtain ⟨v', s'⟩ := rest
    rw [hlisting] at hstore
    obtain rfl : s' = s := hstore
    cases answer with
    | error e => exact hs
    | ok l =>
      have hl : opened (l.held + fds) s' := by rwa [held_listing hlisting, zero_add]
      exact Listing.opened_toList h hl (Listing.stepsFor (StoreClient.walkBound s'))

private theorem opened_makeDirectory (h : Book opened) (hs : opened fds s) (v : Volume)
    (path : String) (mode : UInt32) : opened fds (v.makeDirectory s path mode).2.2 :=
  keeps_withClient hs fun _ => keeps_retrying (h.mkdirs path mode) _ _ hs

theorem opened_mkdirs (h : Book opened) (hs : opened fds s) (v : Volume) (path : String)
    (options : MkdirsOptions) : opened fds (v.mkdirs s path options).2.2 := by
  have hexists := opened_holds h hs v (Path.ofText path) fun _ => true
  unfold Volume.mkdirs Volume.exists?
  dsimp only
  generalize v.holds s (Path.ofText path) _ = result at hexists ⊢
  obtain ⟨e | _ | _, v₁, s₁⟩ := result
  · exact hexists
  · dsimp only
    split
    · exact opened_makeDirectory h hexists v₁ _ _
    · have hparent : opened fds (v₁.parentIsDirectory s₁ (Path.ofText path)).2.2 := by
        unfold Volume.parentIsDirectory
        split
        · exact hexists
        · exact opened_holds h hexists v₁ _ _
      generalize v₁.parentIsDirectory s₁ (Path.ofText path) = result at hparent ⊢
      obtain ⟨e | _ | _, v₂, s₂⟩ := result
      · exact hparent
      · exact hparent
      · exact opened_makeDirectory h hparent v₂ _ _
  · exact hexists

theorem opened_deleteFile (h : Book opened) (hs : opened fds s) (v : Volume) (path : String) :
    opened fds (v.deleteFile s path).2.2 :=
  keeps_withClient hs fun _ => keeps_retrying (h.unlink (Path.ofText path)) _ _ hs

private theorem opened_deleteEmptied (h : Book opened) (hs : opened fds s) (v : Volume)
    (path : String) :
    opened fds (v.deleteEmptied s path).2.2 := by
  have hrmdir := h.rmdir path hs
  unfold Volume.deleteEmptied
  generalize StoreClient.rmdir s path = result at hrmdir ⊢
  obtain ⟨code | ⟨⟨⟩⟩, s'⟩ := result
  · dsimp only
    split <;> exact hrmdir
  · exact hrmdir

private theorem opened_deleteTree (h : Book opened) (recursive : Bool) (depth : Nat)
    (hs : opened fds s) (v : Volume) (path : String) :
    opened fds (deleteTree recursive depth v s path).2.2 := by
  -- On each level the listing is over, and its descriptor given back, before the next level.
  induction depth generalizing v s path with
  | zero => exact hs
  | succ depth ih =>
    have hunlink := h.unlink path hs
    unfold deleteTree
    generalize StoreClient.unlink s path = result at hunlink ⊢
    obtain ⟨code | ⟨⟨⟩⟩, s₁⟩ := result
    · dsimp only
      split
      · exact hunlink
      · split
        · exact hunlink
        · have hlist := opened_list h hunlink v path
          generalize v.list s₁ path = result at hlist ⊢
          obtain ⟨e | children, v₂, s₂⟩ := result
          · dsimp only
            split <;> exact hlist
          · dsimp only
            split
            · exact hlist
            · have hact : ∀ v s, ∀ path ∈ children.map Status.path, opened fds s →
                  opened fds (deleteTree recursive depth v s path).2.2 :=
                fun v _ path _ hs => ih hs v path
              have heach := keeps_onEach hact v₂ hlist
              generalize onEach (deleteTree recursive depth) v₂ s₂ (children.map Status.path) =
                result at heach ⊢
              obtain ⟨e | _ | _, v₃, s₃⟩ := result
              · exact heach
              · exact heach
              · exact opened_deleteEmptied h heach v₃ path
    · exact hunlink

theorem opened_deleteDirectory (h : Book opened) (hs : opened fds s) (v : Volume) (path : String)
    (options : DeleteOptions) : opened fds (v.deleteDirectory s path options).2.2 :=
  keeps_withClient hs fun v => opened_deleteTree h _ _ hs v _

private theorem opened_rename (h : Book opened) (hs : opened fds s) (v : Volume)
    (source target : String) :
    opened fds (v.rename s source target).2.2 := by
  refine keeps_withClient hs fun v => ?_
  have hrename := h.rename (Path.ofText source) (Path.ofText target) hs
  generalize StoreClient.rename s (Path.ofText source) (Path.ofText target) = result at hrename ⊢
  obtain ⟨code | ⟨⟨⟩⟩, s'⟩ := result
  · dsimp only
    split <;> exact hrename
  · exact hrename

theorem opened_renameFile (h : Book opened) (hs : opened fds s) (v : Volume)
    (source target : String) : opened fds (v.renameFile s source target).2.2 := by
  have htest := opened_holds h hs v source Stat.isFile
  unfold Volume.renameFile Volume.isFile
  generalize v.holds s source Stat.isFile = result at htest ⊢
  obtain ⟨e | _ | _, v', s'⟩ := result
  · exact htest
  · exact htest
  · exact opened_rename h htest v' source target

theorem opened_renameDirectory (h : Book opened) (hs : opened fds s) (v : Volume)
    (source target : String) : opened fds (v.renameDirectory s source target).2.2 := by
  have htest := opened_holds h hs v source Stat.isDirectory
  unfold Volume.renameDirectory Volume.isDirectory
  generalize v.holds s source Stat.isDirectory = result at htest ⊢
  obtain ⟨e | _ | _, v', s'⟩ := result
  · exact htest
  · exact htest
  · exact opened_rename h htest v' source target

theorem opened_setMode (h : Book opened) (hs : opened fds s) (v : Volume) (path : String)
    (mode : UInt32) : opened fds (v.setMode s path mode).2.2 := by
  refine keeps_withClient hs fun v => ?_
  have hopen := h.openHandle hs (Path.ofText path) .readOnly 0
  generalize Handle.openPath s (Path.ofText path) .readOnly 0 = result at hopen ⊢
  cases hopen with
  | @ok handle s' hs' =>
    exact h.closeHandle (h.fchmod mode (Multiset.mem_cons_self handle.fd fds) hs')
  | error hs' => exact hs'

theorem opened_close (h : Book opened) (hs : opened fds s) (v : Volume) :
    opened fds (v.close s).2 := by
  unfold Volume.close
  generalize v.session.shutdown = result
  obtain ⟨client, session⟩ := result
  dsimp only
  split
  · exact h.shutdown hs
  · exact hs

end Volume
end VolumeFs
