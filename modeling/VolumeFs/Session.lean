import VolumeFs.Session.Settings

/-!
# Sessions

A session connects to its volume when a client is first asked for, hands out that one client
from then on, and after it was shut down never connects again. A connection that failed is
tried anew at the next request.
-/

namespace VolumeFs

/-- A client that a session hands out, known by its number. -/
structure Client where
  number : Nat
  deriving DecidableEq

/-- How a session connects: the outcome of each attempt, counted from zero. -/
abbrev Connector := Settings → Nat → Except StoreError Client

/-- A connector whose first attempts fail with the given codes, and which connects after that. -/
def Connector.failing (codes : List Errno) : Connector := fun settings attempt =>
  match codes[attempt]? with
  | some code => .error (.connectFailed settings.volumeName code)
  | none => .ok ⟨attempt⟩

inductive SessionState where
  | idle
  | connected (client : Client)
  | closed
  deriving DecidableEq

structure Session where
  settings : Settings
  connector : Connector
  /-- How often the connector was called. -/
  connects : Nat := 0
  state : SessionState := .idle

namespace Session

/-- A session that will connect on demand; its settings must be complete. -/
def new (settings : Settings) (connector : Connector) : Except StoreError Session :=
  match settings.validate with
  | .error e => .error e
  | .ok () => .ok { settings, connector }

/-- A session on a client that is there already. -/
def withClient (settings : Settings) (client : Client) : Session :=
  { settings, connector := fun _ _ => .ok client, state := .connected client }

/-- The client of the session, connecting first if need be. -/
def client (s : Session) : Except StoreError Client × Session :=
  match s.state with
  | .connected client => (.ok client, s)
  | .closed => (.error .sessionClosed, s)
  | .idle =>
    match s.connector s.settings s.connects with
    | .ok client => (.ok client, { s with connects := s.connects + 1, state := .connected client })
    | .error e => (.error e, { s with connects := s.connects + 1 })

def isConnected (s : Session) : Bool :=
  match s.state with
  | .connected _ => true
  | _ => false

/-- Ends the session. The client that it held is handed back to be shut down. -/
def shutdown (s : Session) : Option Client × Session :=
  match s.state with
  | .connected client => (some client, { s with state := .closed })
  | _ => (none, { s with state := .closed })

def described (s : Session) : String :=
  Text.describedRecord "StoreSession"
    [("settings", s.settings.described), ("connected", Text.describedBool s.isConnected)]

end Session
end VolumeFs
