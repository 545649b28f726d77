import VolumeFs.Proofs.Store.Traced
import VolumeFs.Proofs.Volume.Sessions

/-!
# The life of a session

A session is used by asking for its client and by ending it, in any order. What each of these calls
comes to is a matter of what happened before: whether the session was ended, and which client it
was made with or got from its connector. From that follows what holds of a whole life: there is one
client at most, it is ended once, and nothing is connected to any more when the session was ended.
-/

namespace VolumeFs

inductive SessionCall where
  | client
  | shutdown
  deriving DecidableEq

inductive SessionEvent where
  /-- The client was asked for: what the connector answered to the attempts that were made for it,
  and what was answered in the end. -/
  | client (attempts : List (Except StoreError Client)) (answer : Except StoreError Client)
  /-- The session was ended, and with it the client that was shut down for that. -/
  | shutdown (ended : Option Client)

namespace SessionEvent

@[simp] def call : SessionEvent → SessionCall
  | client _ _ => .client
  | shutdown _ => .shutdown

@[simp] def attempts : SessionEvent → List (Except StoreError Client)
  | client attempts _ => attempts
  | shutdown _ => []

@[simp] def ended : SessionEvent → List Client
  | client _ _ => []
  | shutdown ended => ended.toList

end SessionEvent

/-- What the calls on a session came to, the first one first. -/
abbrev SessionHistory := List SessionEvent

namespace Session

/-- Carries out a call. The attempts made for it are those that the session counted. -/
def on (s : Session) : SessionCall → SessionEvent × Session
  | .client =>
    let (answer, s') := s.client
    (.client ((List.range' s.connects (s'.connects - s.connects)).map (s.connector s.settings))
      answer, s')
  | .shutdown =>
    let (ended, s') := s.shutdown
    (.shutdown ended, s')

def run (s : Session) : List SessionCall → SessionHistory
  | [] => []
  | call :: calls => (s.on call).1 :: (s.on call).2.run calls

end Session

namespace SessionHistory

def attempts (history : SessionHistory) : List (Except StoreError Client) :=
  history.flatMap SessionEvent.attempts

/-- The clients that were shut down. -/
def ended (history : SessionHistory) : List Client := history.flatMap SessionEvent.ended

def IsEnded (history : SessionHistory) : Prop := .shutdown ∈ history.map SessionEvent.call

instance (history : SessionHistory) : Decidable history.IsEnded :=
  inferInstanceAs (Decidable (_ ∈ _))

/-- The client that there is: the one that the session was made with, or else the first one that
the connector gave. -/
def clientAfter (given : Option Client) (history : SessionHistory) : Option Client :=
  given.or (history.attempts.findSome? Except.toOption)

def stateAfter (given : Option Client) (history : SessionHistory) : SessionState :=
  if history.IsEnded then .closed
  else
    match history.clientAfter given with
    | some client => .connected client
    | none => .idle

/-- What a call comes to after a history, with the outcomes of attempts by their number. -/
def next (given : Option Client) (outcome : Nat → Except StoreError Client)
    (history : SessionHistory) : SessionCall → SessionEvent
  | .client =>
    if history.IsEnded then .client [] (.error .sessionClosed)
    else
      match history.clientAfter given with
      | some client => .client [] (.ok client)
      | none => .client [outcome history.attempts.length] (outcome history.attempts.length)
  | .shutdown => .shutdown (if history.IsEnded then none else history.clientAfter given)

variable {given : Option Client} {outcome : Nat → Except StoreError Client}
  {history front rest : SessionHistory}

@[simp] theorem attempts_nil : attempts [] = [] := rfl

@[simp] theorem attempts_cons (event : SessionEvent) (rest : SessionHistory) :
    attempts (event :: rest) = event.attempts ++ attempts rest := rfl

@[simp] theorem attempts_append (front rest : SessionHistory) :
    attempts (front ++ rest) = attempts front ++ attempts rest := List.flatMap_append

@[simp] theorem ended_cons (event : SessionEvent) (rest : SessionHistory) :
    ended (event :: rest) = event.ended ++ ended rest := rfl

@[simp] theorem ended_append (front rest : SessionHistory) :
    ended (front ++ rest) = ended front ++ ended rest := List.flatMap_append

@[simp] theorem isEnded_nil : ¬ IsEnded [] := List.not_mem_nil

@[simp] theorem isEnded_cons {event : SessionEvent} {rest : SessionHistory} :
    IsEnded (event :: rest) ↔ event.call = .shutdown ∨ rest.IsEnded := by
  simp [IsEnded, eq_comm]

@[simp] theorem isEnded_append :
    IsEnded (front ++ rest) ↔ front.IsEnded ∨ rest.IsEnded := by
  simp [IsEnded]

@[simp] theorem clientAfter_append (front rest : SessionHistory) :
    clientAfter given (front ++ rest) =
      (front.clientAfter given).or (rest.attempts.findSome? Except.toOption) := by
  rw [clientAfter, attempts_append, List.findSome?_append, ← Option.or_assoc, clientAfter]

theorem clientAfter_eq_none_iff : history.clientAfter given = none ↔
    given = none ∧ ∀ attempt ∈ history.attempts, ∃ e, attempt = .error e := by
  have herror (attempt : Except StoreError Client) :
      attempt.toOption = none ↔ ∃ e, attempt = .error e := by
    cases attempt <;> simp [Except.toOption]
  simp [clientAfter, List.findSome?_eq_none_iff, herror]

private theorem stateAfter_of_isEnded (hended : history.IsEnded) :
    history.stateAfter given = .closed :=
  if_pos hended

private theorem stateAfter_of_some (hended : ¬ history.IsEnded) {client : Client}
    (hclient : history.clientAfter given = some client) :
    history.stateAfter given = .connected client := by
  rw [stateAfter, if_neg hended, hclient]

private theorem stateAfter_of_none (hended : ¬ history.IsEnded)
    (hclient : history.clientAfter given = none) : history.stateAfter given = .idle := by
  rw [stateAfter, if_neg hended, hclient]

private theorem next_client_of_isEnded (hended : history.IsEnded) :
    history.next given outcome .client = .client [] (.error .sessionClosed) := if_pos hended

private theorem next_client_of_some (hended : ¬ history.IsEnded) {client : Client}
    (hclient : history.clientAfter given = some client) :
    history.next given outcome .client = .client [] (.ok client) := by
  rw [next, if_neg hended, hclient]

private theorem next_client_of_none (hended : ¬ history.IsEnded)
    (hclient : history.clientAfter given = none) :
    history.next given outcome .client =
      .client [outcome history.attempts.length] (outcome history.attempts.length) := by
  rw [next, if_neg hended, hclient]

private theorem next_of_isEnded (hended : history.IsEnded) (call : SessionCall) :
    history.next given outcome call = .client [] (.error .sessionClosed) ∨
      history.next given outcome call = .shutdown none := by
  cases call with
  | client => exact .inl (next_client_of_isEnded hended)
  | shutdown => exact .inr (congrArg SessionEvent.shutdown (if_pos hended))

end SessionHistory

namespace Session

section

variable {s : Session} {client : Client} {e : StoreError}

private theorem on_client_of_closed (h : s.state = .closed) :
    s.on .client = (.client [] (.error .sessionClosed), s) := by
  simp [on, client_of_closed h]

private theorem on_client_of_connected (h : s.state = .connected client) :
    s.on .client = (.client [] (.ok client), s) := by
  simp [on, client_of_connected h]

private theorem on_client_of_idle (h : s.state = .idle)
    (hattempt : s.connector s.settings s.connects = .ok client) :
    s.on .client = (.client [.ok client] (.ok client),
      { s with connects := s.connects + 1, state := .connected client }) := by
  simp [on, Session.client, h, hattempt]

private theorem on_client_of_idle_of_error (h : s.state = .idle)
    (hattempt : s.connector s.settings s.connects = .error e) :
    s.on .client = (.client [.error e] (.error e), { s with connects := s.connects + 1 }) := by
  simp [on, Session.client, h, hattempt]

end

private theorem shutdown_snd (s : Session) : s.shutdown.2 = { s with state := .closed } := by
  unfold Session.shutdown
  split <;> rfl

/-- A session stands where its history has brought it. -/
structure Stands (given : Option Client) (outcome : Nat → Except StoreError Client)
    (history : SessionHistory) (s : Session) : Prop where
  outcome_eq : s.connector s.settings = outcome
  connects_eq : s.connects = history.attempts.length
  state_eq : s.state = history.stateAfter given

open SessionHistory

variable {given : Option Client} {outcome : Nat → Except StoreError Client}
  {history : SessionHistory} {s : Session}

private theorem Stands.client_of_ended (h : s.Stands given outcome history)
    (hended : history.IsEnded) :
    (s.on .client).1 = .client [] (.error .sessionClosed) ∧
      (s.on .client).2.Stands given outcome (history ++ [(s.on .client).1]) := by
  have hstate := h.state_eq.trans (stateAfter_of_isEnded hended)
  rw [on_client_of_closed hstate]
  refine ⟨rfl, h.outcome_eq, ?_, ?_⟩
  · simpa using h.connects_eq
  · rw [hstate, stateAfter_of_isEnded]
    simp [hended]

private theorem Stands.client_of_some (h : s.Stands given outcome history)
    (hended : ¬ history.IsEnded) {client : Client}
    (hclient : history.clientAfter given = some client) :
    (s.on .client).1 = .client [] (.ok client) ∧
      (s.on .client).2.Stands given outcome (history ++ [(s.on .client).1]) := by
  have hstate := h.state_eq.trans (stateAfter_of_some hended hclient)
  rw [on_client_of_connected hstate]
  refine ⟨rfl, h.outcome_eq, ?_, ?_⟩
  · simpa using h.connects_eq
  · rw [hstate, stateAfter_of_some]
    · simp [hended]
    · simp [hclient]

private theorem Stands.client_of_none (h : s.Stands given outcome history)
    (hended : ¬ history.IsEnded) (hclient : history.clientAfter given = none) :
    (s.on .client).1 =
        .client [outcome history.attempts.length] (outcome history.attempts.length) ∧
      (s.on .client).2.Stands given outcome (history ++ [(s.on .client).1]) := by
  have hstate := h.state_eq.trans (stateAfter_of_none hended hclient)
  rw [← h.connects_eq, ← h.outcome_eq]
  cases hattempt : s.connector s.settings s.connects with
  | ok client =>
    rw [on_client_of_idle hstate hattempt]
    refine ⟨rfl, rfl, ?_, ?_⟩
    · simp [h.connects_eq]
    · rw [stateAfter_of_some]
      · simp [hended]
      · simp [hclient, Except.toOption]
  | error e =>
    rw [on_client_of_idle_of_error hstate hattempt]
    refine ⟨rfl, rfl, ?_, ?_⟩
    · simp [h.connects_eq]
    · rw [hstate, stateAfter_of_none]
      · simp [hended]
      · simp [hclient, Except.toOption]

private theorem Stands.shutdown (h : s.Stands given outcome history) :
    (s.on .shutdown).1 =
        .shutdown (if history.IsEnded then none else history.clientAfter given) ∧
      (s.on .shutdown).2.Stands given outcome (history ++ [(s.on .shutdown).1]) := by
  have hclient : s.shutdown.1 = if history.IsEnded then none else history.clientAfter given := by
    by_cases hended : history.IsEnded
    · rw [if_pos hended, shutdown_of_closed (h.state_eq.trans (stateAfter_of_isEnded hended))]
    · rw [if_neg hended]
      cases hclient : history.clientAfter given with
      | some client =>
        have hstate := h.state_eq.trans (stateAfter_of_some hended hclient)
        simp [Session.shutdown, hstate]
      | none =>
        have hstate := h.state_eq.trans (stateAfter_of_none hended hclient)
        simp [Session.shutdown, hstate]
  have hclosed := shutdown_snd s
  constructor
  · exact congrArg SessionEvent.shutdown hclient
  · show s.shutdown.2.Stands given outcome (history ++ [.shutdown s.shutdown.1])
    rw [hclosed]
    constructor
    · exact h.outcome_eq
    · simpa using h.connects_eq
    · rw [stateAfter_of_isEnded]
      simp

/-- What a call comes to is known from the history, and leaves the session where the history with
it brings one. -/
theorem Stands.on (h : s.Stands given outcome history) (call : SessionCall) :
    (s.on call).1 = history.next given outcome call ∧
      (s.on call).2.Stands given outcome (history ++ [(s.on call).1]) := by
  cases call with
  | shutdown => exact h.shutdown
  | client =>
    by_cases hended : history.IsEnded
    · rw [next_client_of_isEnded hended]
      exact h.client_of_ended hended
    · cases hclient : history.clientAfter given with
      | some client =>
        rw [next_client_of_some hended hclient]
        exact h.client_of_some hended hclient
      | none =>
        rw [next_client_of_none hended hclient]
        exact h.client_of_none hended hclient

private theorem stands_new {settings : Settings} {connector : Connector}
    (h : Session.new settings connector = .ok s) : s.Stands none (connector settings) [] := by
  unfold Session.new at h
  split at h
  · cases h
  · cases h
    exact ⟨rfl, rfl, rfl⟩

private theorem stands_withClient (settings : Settings) (client : Client) :
    (withClient settings client).Stands (some client) (fun _ => .ok client) [] :=
  ⟨rfl, rfl, rfl⟩

end Session

namespace SessionHistory

/-- Each call came to what it comes to after those before it. -/
inductive Follows (given : Option Client) (outcome : Nat → Except StoreError Client) :
    SessionHistory → Prop where
  | nil : Follows given outcome []
  | concat {history : SessionHistory} (h : Follows given outcome history) (call : SessionCall) :
    Follows given outcome (history ++ [history.next given outcome call])

variable {given : Option Client} {outcome : Nat → Except StoreError Client}
  {history front rest : SessionHistory} {event : SessionEvent} {call : SessionCall}

@[simp] theorem call_next (history : SessionHistory) (call : SessionCall) :
    (history.next given outcome call).call = call := by
  cases call with
  | shutdown => rfl
  | client =>
    rw [next]
    split
    · rfl
    · split <;> rfl

private theorem Follows.event_eq (h : history.Follows given outcome)
    (hsplit : history = front ++ event :: rest) :
    event = front.next given outcome event.call := by
  induction h generalizing rest with
  | nil => simp at hsplit
  | concat h call ih =>
    rcases concat_split hsplit with ⟨rfl, rfl, -⟩ | ⟨between, -, hfront⟩
    · rw [call_next]
    · exact ih hfront

/-- The connector is only called when there is no client yet and the session was not ended, and
then once. -/
theorem attempts_next (hattempts : (history.next given outcome call).attempts ≠ []) :
    call = .client ∧ ¬ history.IsEnded ∧ history.clientAfter given = none ∧
      (history.next given outcome call).attempts = [outcome history.attempts.length] := by
  cases call with
  | shutdown => exact absurd rfl hattempts
  | client =>
    by_cases hended : history.IsEnded
    · rw [next_client_of_isEnded hended] at hattempts
      exact absurd rfl hattempts
    · cases hclient : history.clientAfter given with
      | some client =>
        rw [next_client_of_some hended hclient] at hattempts
        exact absurd rfl hattempts
      | none =>
        rw [next_client_of_none hended hclient]
        exact ⟨rfl, hended, rfl, rfl⟩

private theorem countP_attempts_of_clientAfter (h : history.clientAfter given = none) :
    history.attempts.countP Except.isOk = 0 := by
  rw [List.countP_eq_zero]
  intro attempt hattempt
  obtain ⟨e, rfl⟩ := (clientAfter_eq_none_iff.1 h).2 attempt hattempt
  exact Bool.false_ne_true

private theorem Follows.countP_attempts_le_one (h : history.Follows given outcome) :
    history.attempts.countP Except.isOk ≤ 1 := by
  induction h with
  | nil => exact Nat.zero_le 1
  | @concat history h call ih =>
    rw [attempts_append, attempts_cons, attempts_nil, List.append_nil, List.countP_append]
    by_cases hattempts : (history.next given outcome call).attempts = []
    · rwa [hattempts, List.countP_nil]
    · obtain ⟨-, -, hclient, hattempt⟩ := attempts_next hattempts
      rw [countP_attempts_of_clientAfter hclient, hattempt, Nat.zero_add]
      exact List.countP_le_length

private theorem clientAfter_concat_next {client : Client}
    {attempts : List (Except StoreError Client)}
    (h : history.next given outcome .client = .client attempts (.ok client)) :
    clientAfter given (history ++ [.client attempts (.ok client)]) = some client := by
  rw [clientAfter_append]
  by_cases hended : history.IsEnded
  · rw [next_client_of_isEnded hended] at h
    cases h
  · cases hclient : history.clientAfter given with
    | some other =>
      rw [next_client_of_some hended hclient] at h
      cases h
      rfl
    | none =>
      rw [next_client_of_none hended hclient] at h
      injection h with hattempts hanswer
      rw [← hattempts, hanswer]
      rfl

private theorem Follows.clientAfter_of_mem (h : history.Follows given outcome)
    {attempts : List (Except StoreError Client)} {client : Client}
    (hmem : .client attempts (.ok client) ∈ history) :
    history.clientAfter given = some client := by
  induction h with
  | nil => cases hmem
  | @concat history h call ih =>
    rcases List.mem_append.1 hmem with hmem | hmem
    · rw [clientAfter_append, ih hmem]
      rfl
    · have hevent := List.mem_singleton.1 hmem
      have hcall := congrArg SessionEvent.call hevent
      rw [call_next] at hcall
      rw [← hevent]
      apply clientAfter_concat_next
      rw [hevent, ← hcall]
      rfl

/-- An attempt that fails is answered to the caller. There was no client yet then, and the session
was not ended. -/
theorem Follows.of_failed_attempt (h : history.Follows given outcome)
    {attempts : List (Except StoreError Client)} {answer : Except StoreError Client}
    {e : StoreError} (hsplit : history = front ++ .client attempts answer :: rest)
    (hattempt : .error e ∈ attempts) :
    attempts = [.error e] ∧ answer = .error e ∧ ¬ front.IsEnded ∧
      front.clientAfter given = none := by
  have hevent : .client attempts answer = front.next given outcome .client := h.event_eq hsplit
  have hattempts : (front.next given outcome .client).attempts ≠ [] := by
    rw [← hevent]
    exact List.ne_nil_of_mem hattempt
  obtain ⟨-, hended, hclient, -⟩ := attempts_next hattempts
  rw [next_client_of_none hended hclient] at hevent
  injection hevent with hattempts hanswer
  rw [hattempts, List.mem_singleton] at hattempt
  rw [hattempts, hanswer, ← hattempt]
  exact ⟨rfl, rfl, hended, hclient⟩

private theorem Follows.after_failed_attempt (h : history.Follows given outcome)
    {attempts attempts' : List (Except StoreError Client)}
    {answer answer' : Except StoreError Client} {e : StoreError}
    (hsplit : history = front ++ .client attempts answer :: .client attempts' answer' :: rest)
    (hattempt : .error e ∈ attempts) :
    attempts' = [outcome (front.attempts.length + 1)] ∧
      answer' = outcome (front.attempts.length + 1) := by
  obtain ⟨rfl, rfl, hended, hclient⟩ := h.of_failed_attempt hsplit hattempt
  rw [List.append_cons] at hsplit
  have hevent : .client attempts' answer' = next given outcome
      (front ++ [.client [.error e] (.error e)]) .client := h.event_eq hsplit
  rw [next_client_of_none (by simp [hended]) (by simp [hclient, Except.toOption])] at hevent
  injection hevent with hattempts hanswer
  rw [hattempts, hanswer]
  simp

private theorem ended_of_not_isEnded (h : ¬ history.IsEnded) : history.ended = [] := by
  rw [ended, List.flatMap_eq_nil_iff]
  intro event hevent
  cases event with
  | client => rfl
  | shutdown => exact absurd (List.mem_map_of_mem hevent) h

private theorem Follows.ended_of_isEnded (h : (front ++ rest).Follows given outcome)
    (hended : front.IsEnded) : ended rest = [] := by
  rw [ended, List.flatMap_eq_nil_iff]
  intro event hevent
  obtain ⟨between, after, rfl⟩ := List.append_of_mem hevent
  rw [← List.append_assoc] at h
  rw [h.event_eq rfl]
  rcases next_of_isEnded (isEnded_append.2 (.inl hended)) event.call with hnext | hnext
  · rw [hnext]
    rfl
  · rw [hnext]
    rfl

/-- The client that there is when the session is first ended is the only one that is shut down, and
that once. -/
theorem Follows.ended_eq (h : history.Follows given outcome) {client : Option Client}
    (hsplit : history = front ++ .shutdown client :: rest) (hended : ¬ front.IsEnded) :
    history.ended = (front.clientAfter given).toList := by
  have hclient : client = front.clientAfter given := by
    have hevent := h.event_eq hsplit
    rw [SessionEvent.call, next, if_neg hended] at hevent
    exact SessionEvent.shutdown.inj hevent
  have hrest : ended rest = [] := by
    rw [hsplit, List.append_cons] at h
    apply h.ended_of_isEnded
    simp
  rw [hsplit, ended_append, ended_cons, ended_of_not_isEnded hended, hrest, hclient]
  simp

/-- The life of a session that was made with a client or without one, and whose connector comes to
the given outcomes. -/
structure Lifecycle (given : Option Client) (outcome : Nat → Except StoreError Client)
    (history : SessionHistory) : Prop where
  /-- Nothing is connected to but while no client was there or given, and the session not ended.
  Each time the connector is called once. -/
  attempts_eq : ∀ {front rest : SessionHistory} {event}, history = front ++ event :: rest →
    event.attempts ≠ [] → given = none ∧
      (∀ attempt ∈ front.attempts, ∃ e, attempt = .error e) ∧ ¬ front.IsEnded ∧
        event.attempts = [outcome front.attempts.length]
  /-- One connection at most succeeds. -/
  countP_attempts_le_one : history.attempts.countP Except.isOk ≤ 1
  /-- All clients that are handed out are the same one. -/
  clientAfter_of_mem : ∀ {attempts client}, .client attempts (.ok client) ∈ history →
    history.clientAfter given = some client
  /-- Until the session is ended, the client that there is is handed out, and where there is none
  what the connector comes to. -/
  open_eq : ∀ {front rest : SessionHistory} {attempts answer},
    history = front ++ .client attempts answer :: rest → ¬ front.IsEnded →
      (∀ client, front.clientAfter given = some client → attempts = [] ∧ answer = .ok client) ∧
        (front.clientAfter given = none → attempts = [outcome front.attempts.length] ∧
          answer = outcome front.attempts.length)
  /-- A failed attempt is answered to the caller. -/
  answer_eq : ∀ {front attempts answer rest e},
    history = front ++ .client attempts answer :: rest → .error e ∈ attempts → answer = .error e
  /-- The next time that the client is asked for, it is connected to anew. -/
  retry : ∀ {front rest : SessionHistory} {attempts answer attempts' answer' e},
    history = front ++ .client attempts answer :: .client attempts' answer' :: rest →
      .error e ∈ attempts → attempts' = [outcome (front.attempts.length + 1)] ∧
        answer' = outcome (front.attempts.length + 1)
  /-- Once the session was ended there is no client, and no attempt to get one. -/
  closed : ∀ {front rest : SessionHistory} {event}, history = front ++ event :: rest →
    front.IsEnded → event = .client [] (.error .sessionClosed) ∨ event = .shutdown none
  /-- The client that was there when the session was first ended is shut down, and that once. -/
  ended_eq : ∀ {front rest : SessionHistory} {client},
    history = front ++ .shutdown client :: rest → ¬ front.IsEnded →
      history.ended = (front.clientAfter given).toList
  /-- No client is shut down of a session that was not ended. -/
  ended_eq_nil : ¬ history.IsEnded → history.ended = []

private theorem Follows.lifecycle (h : history.Follows given outcome) :
    history.Lifecycle given outcome where
  attempts_eq := by
    intro front rest event hsplit hattempts
    rw [h.event_eq hsplit] at hattempts ⊢
    obtain ⟨-, hended, hclient, hattempt⟩ := attempts_next hattempts
    obtain ⟨hgiven, herror⟩ := clientAfter_eq_none_iff.1 hclient
    exact ⟨hgiven, herror, hended, hattempt⟩
  countP_attempts_le_one := h.countP_attempts_le_one
  clientAfter_of_mem := h.clientAfter_of_mem
  open_eq := by
    intro front rest attempts answer hsplit hended
    have hevent : .client attempts answer = front.next given outcome .client := h.event_eq hsplit
    constructor
    · intro client hclient
      rw [next_client_of_some hended hclient] at hevent
      exact SessionEvent.client.inj hevent
    · intro hclient
      rw [next_client_of_none hended hclient] at hevent
      exact SessionEvent.client.inj hevent
  answer_eq hsplit hattempt := (h.of_failed_attempt hsplit hattempt).2.1
  retry := h.after_failed_attempt
  closed := by
    intro front rest event hsplit hended
    rw [h.event_eq hsplit]
    exact next_of_isEnded hended event.call
  ended_eq := h.ended_eq
  ended_eq_nil := ended_of_not_isEnded

end SessionHistory

private theorem Session.Stands.follows {given : Option Client}
    {outcome : Nat → Except StoreError Client} {history : SessionHistory} {s : Session}
    (h : s.Stands given outcome history) (hfollows : history.Follows given outcome)
    (calls : List SessionCall) :
    (history ++ s.run calls).Follows given outcome := by
  induction calls generalizing s history with
  | nil => simpa [Session.run] using hfollows
  | cons call calls ih =>
    obtain ⟨hevent, hstands⟩ := h.on call
    rw [Session.run, List.append_cons]
    apply ih hstands
    rw [hevent]
    exact hfollows.concat call

private theorem Session.calls_run (s : Session) (calls : List SessionCall) :
    (s.run calls).map SessionEvent.call = calls := by
  induction calls generalizing s with
  | nil => rfl
  | cons call calls ih =>
    rw [Session.run, List.map_cons, ih]
    cases call <;> rfl

private theorem Session.Stands.lifecycle {given : Option Client}
    {outcome : Nat → Except StoreError Client} {s : Session} (h : s.Stands given outcome [])
    (calls : List SessionCall) :
    (s.run calls).map SessionEvent.call = calls ∧ (s.run calls).Lifecycle given outcome :=
  ⟨s.calls_run calls, (h.follows .nil calls).lifecycle⟩

/-- However a session is made and whatever its connector comes to, it is used as its lifecycle has
it, in whatever order its client is asked for and it is ended. -/
theorem lifecycle_of_calls (settings : Settings) (calls : List SessionCall) :
    (∀ connector s, Session.new settings connector = .ok s →
      (s.run calls).map SessionEvent.call = calls ∧
        (s.run calls).Lifecycle none (connector settings)) ∧
    ∀ client, ((Session.withClient settings client).run calls).map SessionEvent.call = calls ∧
      ((Session.withClient settings client).run calls).Lifecycle (some client)
        fun _ => .ok client := by
  constructor
  · intro connector s hs
    exact (Session.stands_new hs).lifecycle calls
  · intro client
    exact (Session.stands_withClient settings client).lifecycle calls

/-- The first attempt fails, the second one gives a client, and the session is ended twice. -/
theorem lifecycle_of_calls_failing_once :
    ∃ s, Session.new ⟨"volume", "master", "access", "secret", none, none⟩
        (.failing [.eio]) = .ok s ∧
      (s.run [.client, .client, .client, .shutdown, .client, .shutdown]).Lifecycle none
        (Connector.failing [.eio] ⟨"volume", "master", "access", "secret", none, none⟩) ∧
      (s.run [.client, .client, .client, .shutdown, .client, .shutdown]).ended = [⟨1⟩] := by
  refine ⟨_, rfl, ((lifecycle_of_calls _ _).1 _ _ rfl).2, ?_⟩
  decide

end VolumeFs
