import VolumeFs.Proofs.Volume.Requests
import VolumeFs.Store.Scripted

/-!
# The shape of a listing

What a listing answers and what it asks of the store, whatever the store answers: results, at most
one failure, and then nothing more for ever. The store is let alone from the end on, and has its
descriptor back by then.
-/

namespace VolumeFs

namespace Exchange

def opened? : Exchange → Option Fd
  | openPath _ _ _ (.ok fd) => some fd
  | _ => none

def closed? : Exchange → Option Fd
  | close fd _ => some fd
  | _ => none

/-- Each batch of attributes is asked for right after some entries were read, and for their inodes
in their order. -/
def BatchesFollow (exchanges : List Exchange) : Prop :=
  ∀ before fd inodes answer after, exchanges = before ++ .batchGetAttr fd inodes answer :: after →
    ∃ front limit entries, before = front ++ [.readdir fd limit (.ok entries)] ∧
      inodes = entries.map (·.ino)

variable {exchanges : List Exchange} {exchange : Exchange}

theorem BatchesFollow.concat (h : BatchesFollow exchanges)
    (hlast : ∀ fd inodes answer, exchange = .batchGetAttr fd inodes answer →
      ∃ front limit entries, exchanges = front ++ [.readdir fd limit (.ok entries)] ∧
        inodes = entries.map (·.ino)) : BatchesFollow (exchanges ++ [exchange]) := by
  intro before fd inodes answer after hsplit
  rcases concat_split hsplit with ⟨rfl, hexchange, -⟩ | ⟨between, -, hfront⟩
  · exact hlast fd inodes answer hexchange
  · exact h before fd inodes answer between hfront

end Exchange

open Exchange

/-- The exchanges of a walk that asks for so many entries at a time and holds the descriptors. -/
structure Walk (limit : Nat) (held : List Fd) (exchanges : List Exchange) : Prop where
  limits : ∀ {fd asked answer}, .readdir fd asked answer ∈ exchanges → asked = limit
  batches : BatchesFollow exchanges
  balance : exchanges.filterMap opened? = exchanges.filterMap closed? ++ held
  once : (exchanges.filterMap opened?).length ≤ 1

namespace Walk

variable {limit : Nat} {held : List Fd} {exchanges : List Exchange} {fd : Fd}

private theorem nil (limit : Nat) : Walk limit [] [] where
  limits := nofun
  batches := fun before _ _ _ _ h => by simp at h
  balance := rfl
  once := Nat.zero_le _

theorem concat (h : Walk limit held exchanges) {exchange : Exchange}
    (hlimit : ∀ fd asked answer, exchange = .readdir fd asked answer → asked = limit)
    (hbatch : ∀ fd inodes answer, exchange = .batchGetAttr fd inodes answer →
      ∃ front limit entries, exchanges = front ++ [.readdir fd limit (.ok entries)] ∧
        inodes = entries.map (·.ino))
    (hopened : exchange.opened? = none) (hclosed : exchange.closed? = none) :
    Walk limit held (exchanges ++ [exchange]) where
  limits hread := by
    rcases List.mem_append.1 hread with hread | hread
    · exact h.limits hread
    · exact hlimit _ _ _ (List.mem_singleton.1 hread).symm
  batches := h.batches.concat hbatch
  balance := by
    simpa only [List.filterMap_append, List.filterMap_cons, hopened, hclosed, List.filterMap_nil,
      List.append_nil] using h.balance
  once := by
    simpa only [List.filterMap_append, List.filterMap_cons, hopened, List.filterMap_nil,
      List.append_nil] using h.once

private theorem opened (h : Walk limit [] exchanges) (hnone : exchanges.filterMap opened? = [])
    (path : String) (flags : OpenFlags) (mode : UInt32) (fd : Fd) :
    Walk limit [fd] (exchanges ++ [.openPath path flags mode (.ok fd)]) where
  limits hread := by
    rcases List.mem_append.1 hread with hread | hread
    · exact h.limits hread
    · simp at hread
  batches := h.batches.concat nofun
  balance := by
    have hbalance := h.balance
    rw [hnone, List.append_nil] at hbalance
    simp only [List.filterMap_append, List.filterMap_cons, opened?, closed?, List.filterMap_nil,
      hnone, ← hbalance, List.append_nil]
  once := by
    simp only [List.filterMap_append, List.filterMap_cons, opened?, List.filterMap_nil, hnone,
      List.nil_append, List.length_singleton, Nat.le_refl]

private theorem closed (h : Walk limit [fd] exchanges) (answer : Except Errno Unit) :
    Walk limit [] (exchanges ++ [.close fd answer]) where
  limits hread := by
    rcases List.mem_append.1 hread with hread | hread
    · exact h.limits hread
    · simp at hread
  batches := h.batches.concat nofun
  balance := by
    simpa only [List.filterMap_append, List.filterMap_cons, opened?, closed?, List.filterMap_nil,
      List.append_nil] using h.balance
  once := by
    simpa only [List.filterMap_append, List.filterMap_cons, opened?, List.filterMap_nil,
      List.append_nil] using h.once

end Walk

namespace Listing

/-- What a listing with batches of the given size has exchanged with the store when it stands
there. -/
def Walked (limit : Nat) (exchanges : List Exchange) : ListingState → Prop
  | .idle => exchanges = []
  | .awaitingBatch handle => Walk limit [handle.fd] exchanges
  | .resolving handle entries => Walk limit [handle.fd] exchanges ∧
    ∃ front, exchanges = front ++ [.readdir handle.fd limit (.ok entries)]
  | .done | .failed => Walk limit [] exchanges

section Walked

variable {limit : Nat} {exchanges : List Exchange} {state : ListingState}

private theorem Walked.exists_walk (h : Walked limit exchanges state) :
    ∃ held, Walk limit held exchanges := by
  cases state with
  | idle => exact ⟨[], h ▸ Walk.nil limit⟩
  | awaitingBatch handle => exact ⟨[handle.fd], h⟩
  | resolving handle entries => exact ⟨[handle.fd], h.1⟩
  | done | failed => exact ⟨[], h⟩

private theorem Walked.walk_of_isFinal (h : Walked limit exchanges state)
    (hfinal : state.isFinal = true) :
    Walk limit [] exchanges := by
  cases state with
  | idle | awaitingBatch | resolving => cases hfinal
  | done | failed => exact h

end Walked

variable {σ : Type} [StoreClient σ] {l : Listing} {t : Traced σ} {handle : Handle}
  {exchanges : List Exchange}

private theorem walked_finish (l : Listing) (s : σ) (h : Walk l.batchSize [handle.fd] exchanges) :
    ∃ result t, l.finish (Traced.mk s exchanges) handle = (result, { l with state := .done }, t) ∧
      Walk l.batchSize [] t.exchanges := by
  have hclose : handle.close (Traced.mk s exchanges) =
      (Traced.mk s exchanges).noted (.close handle.fd) (StoreClient.close s handle.fd) := rfl
  generalize StoreClient.close s handle.fd = outcome at hclose
  obtain ⟨answer, s'⟩ := outcome
  simp only [Listing.finish, hclose, Traced.noted]
  cases answer with
  | ok => exact ⟨_, _, rfl, h.closed _⟩
  | error code => exact ⟨_, _, rfl, h.closed _⟩

private theorem walked_fail (l : Listing) (s : σ) (h : Walk l.batchSize [handle.fd] exchanges)
    (error : VolumeError) :
    ∃ result t, l.fail (Traced.mk s exchanges) handle error =
        (some result, { l with state := .failed }, t) ∧ Walk l.batchSize [] t.exchanges := by
  have hclose : handle.close (Traced.mk s exchanges) =
      (Traced.mk s exchanges).noted (.close handle.fd) (StoreClient.close s handle.fd) := rfl
  generalize StoreClient.close s handle.fd = outcome at hclose
  obtain ⟨answer, s'⟩ := outcome
  simp only [Listing.fail, hclose, Traced.noted]
  cases answer with
  | ok => exact ⟨_, _, rfl, h.closed _⟩
  | error code => exact ⟨_, _, rfl, h.closed _⟩

private theorem walked_start (l : Listing) (limit : Nat) (h : t.exchanges = []) :
    ∃ result t', l.start t = (result, t') ∧ ∀ held,
      held = (match result with | .ok (some handle) => [handle.fd] | _ => []) →
        Walk limit held t'.exchanges := by
  have hattr : StoreClient.getAttr t l.path =
      t.noted (.getAttr l.path) (StoreClient.getAttr t.store l.path) := rfl
  generalize StoreClient.getAttr t.store l.path = outcome at hattr
  obtain ⟨answer, s⟩ := outcome
  simp only [Traced.noted, h, List.nil_append] at hattr
  have hasked : Walk limit [] [.getAttr l.path answer] :=
    (Walk.nil limit).concat (fun _ _ _ heq => by cases heq) (fun _ _ _ heq => by cases heq) rfl rfl
  cases answer with
  | error code =>
    simp only [start, hattr]
    exact ⟨_, _, rfl, fun held hheld => hheld ▸ hasked⟩
  | ok stat =>
    simp only [start, hattr]
    split
    · exact ⟨_, _, rfl, fun held hheld => hheld ▸ hasked⟩
    · have hopen : StoreClient.openPath (⟨s, [.getAttr l.path (.ok stat)]⟩ : Traced σ) l.path
            .readOnly openMode =
          (⟨s, [.getAttr l.path (.ok stat)]⟩ : Traced σ).noted (.openPath l.path .readOnly openMode)
            (StoreClient.openPath s l.path .readOnly openMode) := rfl
      generalize StoreClient.openPath s l.path .readOnly openMode = outcome at hopen
      obtain ⟨answer, s'⟩ := outcome
      simp only [Handle.openPath, hopen, Traced.noted]
      cases answer with
      | error code =>
        exact ⟨_, _, rfl, fun held hheld => hheld ▸ hasked.concat (fun _ _ _ heq => by cases heq)
          (fun _ _ _ heq => by cases heq) rfl rfl⟩
      | ok fd =>
        exact ⟨_, _, rfl, fun held hheld => hheld ▸ hasked.opened rfl l.path .readOnly openMode fd⟩

private theorem walked_awaitingBatch (hstate : l.state = .awaitingBatch handle)
    (h : Walk l.batchSize [handle.fd] t.exchanges) :
    ∃ result l' t', l.step t = (result, l', t') ∧ l'.batchSize = l.batchSize ∧
      Walked l.batchSize t'.exchanges l'.state ∧
      (result ≠ none → Walk l.batchSize [] t'.exchanges) := by
  have hread : StoreClient.readdir t handle.fd l.batchSize = t.noted
      (.readdir handle.fd l.batchSize) (StoreClient.readdir t.store handle.fd l.batchSize) := rfl
  generalize StoreClient.readdir t.store handle.fd l.batchSize = outcome at hread
  obtain ⟨answer, s⟩ := outcome
  have hwalk : Walk l.batchSize [handle.fd]
      (t.exchanges ++ [.readdir handle.fd l.batchSize answer]) :=
    h.concat (fun _ _ _ heq => by cases heq; rfl) nofun rfl rfl
  unfold Listing.step
  rw [hstate]
  dsimp only
  rw [hread, Traced.noted]
  rcases answer with code | _ | ⟨entry, entries⟩
  · obtain ⟨result, t', hfail, hwalk'⟩ := walked_fail l s hwalk (.readdirFailed l.path code)
    dsimp only
    rw [hfail]
    exact ⟨_, _, _, rfl, rfl, hwalk', fun _ => hwalk'⟩
  · obtain ⟨result, t', hfinish, hwalk'⟩ := walked_finish l s hwalk
    dsimp only
    rw [hfinish]
    exact ⟨_, _, _, rfl, rfl, hwalk', fun _ => hwalk'⟩
  · exact ⟨_, _, _, rfl, rfl, ⟨hwalk, _, rfl⟩, fun hsome => absurd rfl hsome⟩

private theorem walked_resolving {entries : List Dirent}
    (hstate : l.state = .resolving handle entries)
    (h : Walked l.batchSize t.exchanges (.resolving handle entries)) :
    ∃ result l' t', l.step t = (result, l', t') ∧ l'.batchSize = l.batchSize ∧
      Walked l.batchSize t'.exchanges l'.state ∧
      (result ≠ none → Walk l.batchSize [] t'.exchanges) := by
  obtain ⟨h, front, hfront⟩ := h
  have hbatch : StoreClient.batchGetAttr t handle.fd (entries.map (·.ino)) =
      t.noted (.batchGetAttr handle.fd (entries.map (·.ino)))
        (StoreClient.batchGetAttr t.store handle.fd (entries.map (·.ino))) := rfl
  generalize StoreClient.batchGetAttr t.store handle.fd (entries.map (·.ino)) = outcome at hbatch
  obtain ⟨answer, s⟩ := outcome
  have hwalk : Walk l.batchSize [handle.fd]
      (t.exchanges ++ [.batchGetAttr handle.fd (entries.map (·.ino)) answer]) :=
    h.concat nofun (fun _ _ _ heq => by cases heq; exact ⟨front, _, entries, hfront, rfl⟩) rfl rfl
  unfold Listing.step
  rw [hstate]
  dsimp only
  rw [hbatch, Traced.noted]
  cases answer with
  | error code =>
    obtain ⟨result, t', hfail, hwalk'⟩ := walked_fail l s hwalk (.batchGetAttrFailed l.path code)
    dsimp only
    rw [hfail]
    exact ⟨_, _, _, rfl, rfl, hwalk', fun _ => hwalk'⟩
  | ok stats =>
    dsimp only
    split
    · obtain ⟨result, t', hfinish, hwalk'⟩ :=
        walked_finish { l with
          state := .resolving handle entries
          ready := l.ready ++ l.classify entries stats } s hwalk
      rw [hfinish]
      exact ⟨_, _, _, rfl, rfl, hwalk', fun _ => hwalk'⟩
    · exact ⟨_, _, _, rfl, rfl, hwalk, fun hsome => absurd rfl hsome⟩

/-- A step keeps a walk what it is. Where it fails the descriptor was given back. -/
theorem Walked.step (h : Walked l.batchSize t.exchanges l.state) :
    ∃ result l' t', l.step t = (result, l', t') ∧ l'.batchSize = l.batchSize ∧
      Walked l.batchSize t'.exchanges l'.state ∧
      (result ≠ none → Walk l.batchSize [] t'.exchanges) := by
  cases hstate : l.state with
  | idle =>
    rw [hstate] at h
    obtain ⟨result, t', hstart, hwalk⟩ := walked_start l l.batchSize h
    unfold Listing.step
    rw [hstate]
    dsimp only
    rw [hstart]
    rcases result with e | _ | handle
    · exact ⟨_, _, _, rfl, rfl, hwalk _ rfl, fun _ => hwalk _ rfl⟩
    · exact ⟨_, _, _, rfl, rfl, hwalk _ rfl, fun hsome => absurd rfl hsome⟩
    · exact ⟨_, _, _, rfl, rfl, hwalk _ rfl, fun hsome => absurd rfl hsome⟩
  | awaitingBatch handle =>
    rw [hstate] at h
    exact walked_awaitingBatch hstate h
  | resolving handle entries =>
    rw [hstate] at h
    exact walked_resolving hstate h
  | done | failed =>
    unfold Listing.step
    rw [hstate] at h ⊢
    exact ⟨_, _, _, rfl, rfl, hstate ▸ h, fun hsome => absurd rfl hsome⟩

end Listing

namespace ListingAnswer

def isReturned : ListingAnswer → Bool
  | pending => false
  | _ => true

def IsLast : ListingAnswer → Prop
  | failed _ | finished => True
  | _ => False

/-- Results, at most one failure, and from there on that nothing is left. -/
def InShape (answers : List ListingAnswer) : Prop :=
  ∃ (items : List Status) (failure : Option VolumeError) (count : Nat),
    answers = items.map item ++ (failure.map failed).toList ++ List.replicate count finished

private theorem InShape.cons {answers : List ListingAnswer} (h : InShape answers)
    (status : Status) :
    InShape (item status :: answers) := by
  obtain ⟨items, failure, count, rfl⟩ := h
  exact ⟨status :: items, failure, count, rfl⟩

private theorem inShape_of_isLast {answer : ListingAnswer} (h : answer.IsLast) (count : Nat) :
    InShape (answer :: List.replicate count finished) := by
  cases answer with
  | item status => exact absurd h id
  | failed e => exact ⟨[], some e, count, rfl⟩
  | finished => exact ⟨[], none, count + 1, rfl⟩
  | pending => exact absurd h id

end ListingAnswer

namespace Listing

open ListingAnswer

variable {σ : Type} [StoreClient σ] {l : Listing} {t : Traced σ} {s : σ}

structure IsOver (l : Listing) : Prop where
  ready : l.ready = []
  isFinal : l.state.isFinal = true

private theorem IsOver.next (h : l.IsOver) (s : σ) (steps : Nat) :
    l.next s steps = (.finished, l, s) :=
  next_of_final h.ready h.isFinal

private theorem Walked.next (h : Walked l.batchSize t.exchanges l.state) (steps : Nat) :
    ∃ answer l' t', l.next t steps = (answer, l', t') ∧ l'.batchSize = l.batchSize ∧
      Walked l.batchSize t'.exchanges l'.state ∧ (answer.IsLast → l'.IsOver) := by
  fun_induction Listing.next l t steps with
  | case1 l t steps status ready hready => exact ⟨_, _, _, rfl, rfl, h, nofun⟩
  | case2 l t steps hready hfinal => exact ⟨_, _, _, rfl, rfl, h, fun _ => ⟨hready, hfinal⟩⟩
  | case3 l t hready hfinal => exact ⟨_, _, _, rfl, rfl, h, nofun⟩
  | case4 l t hready hfinal steps e l₁ t₁ hstep =>
    obtain ⟨result, l', t', hstep', hbatch, -, hfailed⟩ := h.step
    rw [hstep] at hstep'
    cases hstep'
    exact ⟨_, _, _, rfl, hbatch, hfailed nofun, fun _ => ⟨rfl, rfl⟩⟩
  | case5 l t hready hfinal steps l₁ t₁ hstep ih =>
    obtain ⟨result, l', t', hstep', hbatch, hwalked, -⟩ := h.step
    rw [hstep] at hstep'
    cases hstep'
    rw [← hbatch] at hwalked ⊢
    exact ih hwalked

/-- The answers to requests one after the other, each of which may take so many steps. -/
def nextEach {τ : Type} [StoreClient τ] (l : Listing) (s : τ) :
    List Nat → List ListingAnswer × Listing × τ
  | [] => ([], l, s)
  | steps :: requests =>
    let (answer, l, s) := l.next s steps
    let (answers, l, s) := l.nextEach s requests
    (answer :: answers, l, s)

theorem nextEach_append (l : Listing) (s : σ) (before after : List Nat) :
    l.nextEach s (before ++ after) =
      ((l.nextEach s before).1 ++
          ((l.nextEach s before).2.1.nextEach (l.nextEach s before).2.2 after).1,
        ((l.nextEach s before).2.1.nextEach (l.nextEach s before).2.2 after).2) := by
  induction before generalizing l s with
  | nil => simp [nextEach]
  | cons steps before ih =>
    simp only [List.cons_append, nextEach]
    rw [ih]

private theorem IsOver.nextEach (h : l.IsOver) (s : σ) (requests : List Nat) :
    l.nextEach s requests = (List.replicate requests.length .finished, l, s) := by
  induction requests with
  | nil => rfl
  | cons steps requests ih =>
    simp only [Listing.nextEach, h.next s steps, ih, List.length_cons, List.replicate_succ]

/-- What a listing answers to requests one after the other. -/
theorem Walked.nextEach (h : Walked l.batchSize t.exchanges l.state) (requests : List Nat) :
    ∃ answers l' t', l.nextEach t requests = (answers, l', t') ∧
      Walked l.batchSize t'.exchanges l'.state ∧
      ((∃ answer ∈ answers, answer.IsLast) → l'.IsOver) ∧
      InShape (answers.filter isReturned) := by
  induction requests generalizing l t with
  | nil => exact ⟨[], l, t, rfl, h, by simp, [], none, 0, rfl⟩
  | cons steps requests ih =>
    obtain ⟨answer, l₁, t₁, hnext, hbatch, h₁, hlast⟩ := h.next steps
    simp only [Listing.nextEach, hnext]
    rw [← hbatch] at h₁ ⊢
    by_cases hover : answer.IsLast
    · rw [(hlast hover).nextEach t₁ requests]
      refine ⟨_, _, _, rfl, h₁, fun _ => hlast hover, ?_⟩
      have hall : (answer :: List.replicate requests.length finished).filter isReturned =
          answer :: List.replicate requests.length finished := by
        cases answer <;> simp_all [IsLast, isReturned]
      rw [hall]
      exact inShape_of_isLast hover _
    · obtain ⟨answers, l', t', hrest, h', hlast', hshape⟩ := ih h₁
      rw [hrest]
      refine ⟨_, _, _, rfl, h', ?_, ?_⟩
      · rintro ⟨other, hother, hotherLast⟩
        rcases List.mem_cons.1 hother with rfl | hother
        · exact absurd hotherLast hover
        · exact hlast' ⟨other, hother, hotherLast⟩
      · cases answer with
        | item status => exact hshape.cons status
        | pending => exact hshape
        | failed | finished => exact absurd trivial hover

/-- Whatever the store answers to its calls, a listing answers its requests with results, at most
one failure, and from there on that nothing is left. The store is let alone from the end on, and
has been given back by then whatever descriptor it gave out, which is at most one. Entries are asked
for a batch at a time, and attributes for the entries that were read just before. A request that
runs out of steps is taken up by the next one, and is not answered. -/
theorem shape_of_requests (s : σ) (path : String) (batchSize : Nat) (identity : Identity)
    (blockSize : UInt64) (requests : List Nat) :
    let ran := (Listing.new path batchSize identity blockSize).nextEach (Traced.mk s [])
    InShape ((ran requests).1.filter isReturned) ∧
      (∀ before after, requests = before ++ after → (∃ answer ∈ (ran before).1, answer.IsLast) →
        (ran requests).2.2 = (ran before).2.2 ∧
        (ran before).2.2.exchanges.filterMap closed? =
          (ran before).2.2.exchanges.filterMap opened?) ∧
      ((ran requests).2.2.exchanges.filterMap opened?).length ≤ 1 ∧
      (∀ fd limit answer, .readdir fd limit answer ∈ (ran requests).2.2.exchanges →
        limit = max batchSize 1) ∧
      BatchesFollow (ran requests).2.2.exchanges := by
  intro ran
  have hnew : Walked (Listing.new path batchSize identity blockSize).batchSize
      (Traced.mk s []).exchanges (Listing.new path batchSize identity blockSize).state := rfl
  obtain ⟨answers, l', t', hran, hwalked, -, hshape⟩ := hnew.nextEach requests
  obtain ⟨held, hwalk⟩ := hwalked.exists_walk
  have hran : ran requests = (answers, l', t') := hran
  refine ⟨by rwa [hran], ?_, ?_, ?_, ?_⟩
  · rintro before after rfl hlast
    obtain ⟨answers, l', t', hbefore, hwalked, hover, -⟩ := hnew.nextEach before
    have hran : ran before = (answers, l', t') := hbefore
    rw [hran] at hlast ⊢
    have hover := hover hlast
    refine ⟨?_, ?_⟩
    · show ((Listing.new path batchSize identity blockSize).nextEach _ (before ++ after)).2.2 = t'
      rw [nextEach_append, hbefore, hover.nextEach t' after]
    · have hbalance := (hwalked.walk_of_isFinal hover.isFinal).balance
      rw [List.append_nil] at hbalance
      exact hbalance.symm
  · rw [hran]
    exact hwalk.once
  · rw [hran]
    exact fun fd limit answer hread => hwalk.limits hread
  · rw [hran]
    exact hwalk.batches

open Memory in
/-- A directory of two files is listed one at a time. The second batch of attributes is refused, and
so is the descriptor. -/
theorem shape_of_requests_batch_refused :
    let files := (Store.putFile (.new {}) "/d/a" .empty).putFile "/d/b" .empty
    let script : Script := {
      errors := [(.batchGetAttr, [none, some .eio]), (.close, [some .ebadf])] }
    let ran := ((Listing.new "/d" 1 (.ofUser "user") 4096).nextEach
      (Traced.mk (Scripted.mk files script) [])) [1, 2, 2, 9]
    ran.1.map (·.item?.map Status.name) = [none, some "a", none, none] ∧
      ran.1.map isReturned = [false, true, true, true] ∧
      ran.2.2.exchanges.filterMap closed? = [⟨3⟩] ∧
      InShape (ran.1.filter isReturned) ∧ BatchesFollow ran.2.2.exchanges := by
  intro files script
  have hran :
      let ran := ((Listing.new "/d" 1 (.ofUser "user") 4096).nextEach
        (Traced.mk (Scripted.mk files script) [])) [1, 2, 2, 9]
      ran.1.map (·.item?.map Status.name) = [none, some "a", none, none] ∧
        ran.1.map isReturned = [false, true, true, true] ∧
        ran.2.2.exchanges.filterMap closed? = [⟨3⟩] := by decide +kernel
  have hshape := shape_of_requests (Scripted.mk files script) "/d" 1 (.ofUser "user") 4096
    [1, 2, 2, 9]
  dsimp only at hran hshape ⊢
  -- The run is kept shut from here on, or it is evaluated again at every comparison.
  generalize (Listing.new "/d" 1 (.ofUser "user") 4096).nextEach
    (Traced.mk (Scripted.mk files script) []) [1, 2, 2, 9] = ran at hran hshape ⊢
  exact ⟨hran.1, hran.2.1, hran.2.2, hshape.1, hshape.2.2.2.2⟩

end Listing
end VolumeFs
