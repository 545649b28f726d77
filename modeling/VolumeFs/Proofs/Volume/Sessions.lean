import VolumeFs.Volume.Tree

/-!
# The session under a volume

All that the operations of a volume do with its session is to ask it for the client. Whatever that
keeps true of a session is therefore kept by all of them, and once a session was closed they are
refused before the store is asked for anything.
-/

namespace VolumeFs

namespace Session

variable {session session' : Session} {client : Client}

theorem client_of_closed (h : session.state = .closed) :
    session.client = (.error .sessionClosed, session) := by
  unfold Session.client
  rw [h]

theorem client_of_connected (h : session.state = .connected client) :
    session.client = (.ok client, session) := by
  unfold Session.client
  rw [h]

theorem shutdown_of_closed (h : session.state = .closed) : session.shutdown = (none, session) := by
  cases session
  cases h
  rfl

private theorem isConnected_of_client (h : session.client = (.ok client, session')) :
    session'.isConnected = true := by
  unfold Session.client at h
  split at h
  · rename_i hstate
    cases h
    rw [isConnected, hstate]
  · cases h
  · split at h
    · cases h
      rfl
    · cases h

theorem client_of_client (h : session.client = (.ok client, session')) :
    session'.client = (.ok client, session') := by
  unfold Session.client at h
  split at h
  · rename_i hstate
    cases h
    exact client_of_connected hstate
  · cases h
  · split at h
    · cases h
      rfl
    · cases h

theorem state_shutdown (session : Session) : session.shutdown.2.state = .closed := by
  unfold Session.shutdown
  split <;> rfl

theorem client_ne_idle (h : session.state ≠ .idle) : session.client.2.state ≠ .idle := by
  unfold Session.client
  split
  · exact h
  · exact h
  · rename_i hidle
    exact absurd hidle h

end Session

namespace Volume

theorem withClient_of_closed {σ α : Type} {v : Volume} (h : v.session.state = .closed) (s : σ)
    (act : Volume → σ → Except VolumeError α × Volume × σ) :
    v.withClient s act = (.error (.session .sessionClosed), v, s) := by
  rw [Volume.withClient, Session.client_of_closed h]

section Given

variable {σ : Type} {v : Volume} {s : σ} {path : String}

private theorem isConnected_withClient {α : Type}
    {act : Volume → σ → Except VolumeError α × Volume × σ}
    (hact : ∀ v s, (act v s).2.1.session = v.session) {a : α} (h : (v.withClient s act).1 = .ok a) :
    (v.withClient s act).2.1.session.isConnected = true := by
  unfold Volume.withClient at h ⊢
  cases hclient : v.session.client with
  | mk answer session =>
    rw [hclient] at h
    cases answer with
    | error e => cases h
    | ok client =>
      dsimp only
      rw [hact]
      exact Session.isConnected_of_client hclient

theorem isConnected_listing {l : Listing} (h : (v.listing s path).1 = .ok l) :
    (v.listing s path).2.1.session.isConnected = true :=
  isConnected_withClient (fun _ _ => rfl) h

variable [StoreClient σ]

theorem isConnected_create {options : CreateOptions} {token : Token} {o : Output}
    (h : (v.create s path options token).1 = .ok o) :
    (v.create s path options token).2.1.session.isConnected = true := by
  refine isConnected_withClient (fun v s => ?_) h
  split
  · dsimp only
    split <;> rfl
  · split <;> rfl

theorem isConnected_openFile {options : OpenOptions} {r : Reader}
    (h : (v.openFile s path options).1 = .ok r) :
    (v.openFile s path options).2.1.session.isConnected = true := by
  refine isConnected_withClient (fun v s => ?_) h
  split <;> rfl

end Given

section Kept

variable {σ : Type} {keeps : Session → Prop} {v : Volume}

private theorem session_withClient {α : Type}
    (hclient : ∀ {s : Session}, keeps s → keeps s.client.2)
    {act : Volume → σ → Except VolumeError α × Volume × σ}
    (hact : ∀ {v : Volume} {s}, keeps v.session → keeps (act v s).2.1.session)
    (hv : keeps v.session) (s : σ) : keeps (v.withClient s act).2.1.session := by
  have hnext := hclient hv
  unfold Volume.withClient
  generalize v.session.client = result at hnext ⊢
  obtain ⟨e | client, session⟩ := result
  · exact hnext
  · exact hact hnext

private theorem session_onEach {act : Volume → σ → String → Except VolumeError Bool × Volume × σ}
    (hact : ∀ {v : Volume}, keeps v.session → ∀ s path, keeps (act v s path).2.1.session)
    (hv : keeps v.session) (s : σ) (paths : List String) :
    keeps (onEach act v s paths).2.1.session := by
  induction paths generalizing v s with
  | nil => exact hv
  | cons path paths ih =>
    have hfirst := hact hv s path
    unfold onEach
    generalize act v s path = result at hfirst ⊢
    obtain ⟨e | _ | _, v', s'⟩ := result
    · exact hfirst
    · exact hfirst
    · exact ih hfirst s'

variable [StoreClient σ] (hclient : ∀ {s : Session}, keeps s → keeps s.client.2)
include hclient

theorem session_create (hv : keeps v.session) (s : σ) (path : String) (options : CreateOptions)
    (token : Token) : keeps (v.create s path options token).2.1.session := by
  refine session_withClient hclient (fun {v s} hv => ?_) hv s
  split
  · dsimp only
    split <;> exact hv
  · split <;> exact hv

theorem session_openFile (hv : keeps v.session) (s : σ) (path : String) (options : OpenOptions) :
    keeps (v.openFile s path options).2.1.session := by
  refine session_withClient hclient (fun {v s} hv => ?_) hv s
  split <;> exact hv

private theorem session_stat (hv : keeps v.session) (s : σ) (path : String) :
    keeps (v.stat s path).2.1.session := by
  refine session_withClient hclient (fun {v s} hv => ?_) hv s
  split <;> exact hv

private theorem session_stat? (hv : keeps v.session) (s : σ) (path : String) :
    keeps (v.stat? s path).2.1.session := by
  refine session_withClient hclient (fun {v s} hv => ?_) hv s
  split
  · exact hv
  · split <;> exact hv

theorem session_status (hv : keeps v.session) (s : σ) (path : String) :
    keeps (v.status s path).2.1.session := by
  have hstat := session_stat hclient hv s (Path.ofText path)
  unfold Volume.status
  dsimp only
  generalize v.stat s (Path.ofText path) = result at hstat ⊢
  obtain ⟨e | stat, v', s'⟩ := result <;> exact hstat

theorem session_fileStatus (hv : keeps v.session) (s : σ) (path : String) :
    keeps (v.fileStatus s path).2.1.session := by
  have hstatus := session_status hclient hv s path
  unfold Volume.fileStatus
  generalize v.status s path = result at hstatus ⊢
  obtain ⟨e | status | status, v', s'⟩ := result <;> exact hstatus

theorem session_directoryStatus (hv : keeps v.session) (s : σ) (path : String) :
    keeps (v.directoryStatus s path).2.1.session := by
  have hstatus := session_status hclient hv s path
  unfold Volume.directoryStatus
  generalize v.status s path = result at hstatus ⊢
  obtain ⟨e | status | status, v', s'⟩ := result <;> exact hstatus

theorem session_holds (hv : keeps v.session) (s : σ) (path : String) (test : Stat → Bool) :
    keeps (v.holds s path test).2.1.session := by
  have hstat := session_stat? hclient hv s (Path.ofText path)
  unfold Volume.holds
  generalize v.stat? s (Path.ofText path) = result at hstat ⊢
  obtain ⟨e | stat, v', s'⟩ := result <;> exact hstat

omit [StoreClient σ] in
theorem session_listing (hv : keeps v.session) (s : σ) (path : String) :
    keeps (v.listing s path).2.1.session :=
  session_withClient hclient (fun hv => hv) hv s

theorem session_list (hv : keeps v.session) (s : σ) (path : String) :
    keeps (v.list s path).2.1.session := by
  have hlisting := session_listing hclient hv s path
  unfold Volume.list
  generalize v.listing s path = result at hlisting ⊢
  obtain ⟨e | listing, v', s'⟩ := result <;> exact hlisting

private theorem session_makeDirectory (hv : keeps v.session) (s : σ) (path : String)
    (mode : UInt32) :
    keeps (v.makeDirectory s path mode).2.1.session :=
  session_withClient hclient (fun hv => hv) hv s

private theorem session_parentIsDirectory (hv : keeps v.session) (s : σ) (path : String) :
    keeps (v.parentIsDirectory s path).2.1.session := by
  unfold Volume.parentIsDirectory
  split
  · exact hv
  · exact session_holds hclient hv s _ _

theorem session_mkdirs (hv : keeps v.session) (s : σ) (path : String) (options : MkdirsOptions) :
    keeps (v.mkdirs s path options).2.1.session := by
  have hexists := session_holds hclient hv s (Path.ofText path) fun _ => true
  unfold Volume.mkdirs Volume.exists?
  dsimp only
  generalize v.holds s (Path.ofText path) _ = result at hexists ⊢
  obtain ⟨e | _ | _, v₁, s₁⟩ := result
  · exact hexists
  · dsimp only
    split
    · exact session_makeDirectory hclient hexists s₁ _ _
    · have hparent := session_parentIsDirectory hclient hexists s₁ (Path.ofText path)
      generalize v₁.parentIsDirectory s₁ (Path.ofText path) = result at hparent ⊢
      obtain ⟨e | _ | _, v₂, s₂⟩ := result
      · exact hparent
      · exact hparent
      · exact session_makeDirectory hclient hparent s₂ _ _
  · exact hexists

theorem session_deleteFile (hv : keeps v.session) (s : σ) (path : String) :
    keeps (v.deleteFile s path).2.1.session :=
  session_withClient hclient (fun hv => hv) hv s

omit hclient in
private theorem session_deleteEmptied (v : Volume) (s : σ) (path : String) :
    (v.deleteEmptied s path).2.1 = v := by
  unfold Volume.deleteEmptied
  split
  · rfl
  · split <;> rfl

private theorem session_deleteTree (hv : keeps v.session) (recursive : Bool) (depth : Nat) (s : σ)
    (path : String) : keeps (deleteTree recursive depth v s path).2.1.session := by
  induction depth generalizing v s path with
  | zero => exact hv
  | succ depth ih =>
    unfold Volume.deleteTree
    split
    · exact hv
    · split
      · exact hv
      · split
        · exact hv
        · rename_i s₁ _ _ _
          have hlist := session_list hclient hv s₁ path
          generalize v.list s₁ path = result at hlist ⊢
          obtain ⟨e | children, v₂, s₂⟩ := result
          · dsimp only
            split <;> exact hlist
          · dsimp only
            split
            · exact hlist
            · have hrest := session_onEach (fun hv s path => ih hv s path) hlist s₂
                (children.map Status.path)
              generalize onEach (deleteTree recursive depth) v₂ s₂ _ = result at hrest ⊢
              obtain ⟨e | _ | _, v₃, s₃⟩ := result
              · exact hrest
              · exact hrest
              · dsimp only
                rwa [session_deleteEmptied]

theorem session_deleteDirectory (hv : keeps v.session) (s : σ) (path : String)
    (options : DeleteOptions) : keeps (v.deleteDirectory s path options).2.1.session :=
  session_withClient hclient (fun hv => session_deleteTree hclient hv _ _ _ _) hv s

private theorem session_rename (hv : keeps v.session) (s : σ) (source target : String) :
    keeps (v.rename s source target).2.1.session := by
  refine session_withClient hclient (fun {v s} hv => ?_) hv s
  split
  · exact hv
  · split <;> exact hv

theorem session_renameFile (hv : keeps v.session) (s : σ) (source target : String) :
    keeps (v.renameFile s source target).2.1.session := by
  have hfile := session_holds hclient hv s source Stat.isFile
  unfold Volume.renameFile Volume.isFile
  generalize v.holds s source Stat.isFile = result at hfile ⊢
  obtain ⟨e | _ | _, v', s'⟩ := result
  · exact hfile
  · exact hfile
  · exact session_rename hclient hfile s' source target

theorem session_renameDirectory (hv : keeps v.session) (s : σ) (source target : String) :
    keeps (v.renameDirectory s source target).2.1.session := by
  have hdirectory := session_holds hclient hv s source Stat.isDirectory
  unfold Volume.renameDirectory Volume.isDirectory
  generalize v.holds s source Stat.isDirectory = result at hdirectory ⊢
  obtain ⟨e | _ | _, v', s'⟩ := result
  · exact hdirectory
  · exact hdirectory
  · exact session_rename hclient hdirectory s' source target

theorem session_setMode (hv : keeps v.session) (s : σ) (path : String) (mode : UInt32) :
    keeps (v.setMode s path mode).2.1.session := by
  refine session_withClient hclient (fun {v s} hv => ?_) hv s
  split <;> exact hv

end Kept

end Volume
end VolumeFs
