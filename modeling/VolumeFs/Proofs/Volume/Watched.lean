import Mathlib.Data.List.Nodup
import VolumeFs.Proofs.ByteOrder
import VolumeFs.Proofs.Volume.Requests

/-!
# Listings of a directory that changes

Between the requests for results the store may be changed by others. A page begins behind the name
at which the last one ended, so a listing neither misses a name that stays nor shows one twice. It
must not take so long that others are given the number of its descriptor.
-/

namespace VolumeFs

open Memory Memory.Store

namespace Memory.Operation

/-- What others may do to a store that has no faults and stays at work, while a descriptor is held
by a listing. -/
def Spares (held : Option Handle) : Operation → Prop
  | close fd => ∀ handle ∈ held, handle.fd ≠ fd
  | readdir fd _ => ∀ handle ∈ held, handle.fd ≠ fd
  | shutdown => False
  | setFaults _ => False
  | _ => True

variable {s : Store} {held : Option Handle} {handle : Handle} {op : Operation}

private theorem Spares.answers_on (h : op.Spares held) (hs : s.Answers) : (op.on s).Answers := by
  obtain ⟨hup, hread, hbatch, hlimit, hclose⟩ := hs
  cases op with
  | shutdown | setFaults => exact h.elim
  | openPath path flags mode =>
    cases hopen : s.openPath path flags mode with
    | mk answer s' =>
      rw [on, hopen]
      cases answer with
      | error e =>
        rcases openPath_eq_error hopen with rfl | rfl <;> exact ⟨hup, hread, hbatch, hlimit, hclose⟩
      | ok fd =>
        obtain ⟨-, -, ino, tree, -, rfl⟩ := openPath_eq_ok hopen
        exact ⟨hup, hread, hbatch, hlimit, hclose⟩
  | _ =>
    simp only [on, Store.read, Store.write, Store.flush, Store.close, Store.getAttr, Store.mkdirs,
      Store.unlink, Store.rmdir, Store.rename, Store.readdir, Store.batchGetAttr, Store.fchmod]
    repeat' split
    all_goals exact ⟨hup, hread, hbatch, hlimit, hclose⟩

private theorem Spares.openFile?_on (h : op.Spares (some handle)) {file : OpenFile}
    (hfile : s.openFile? handle.fd = some file)
    (hnew : op.given s = 1 → handle.fd ≠ ⟨s.nextFd.toInt⟩) :
    (op.on s).openFile? handle.fd = some file := by
  have hon := op.descriptor_on s handle.fd
  generalize (op.on s).openFile? handle.fd = behind at hon ⊢
  generalize op.given s = given at hon hnew
  cases hon with
  | same => exact hfile
  | besideOpened => exact hfile
  | opened hfd => exact absurd hfd (hnew rfl)
  | closed => exact absurd rfl (h handle rfl)
  | listed => exact absurd rfl (h handle rfl)

end Memory.Operation

/-- The descriptor was given out, and since then no more than so many others. -/
def Memory.Store.Recent (s : Store) (fd : Fd) (others : Nat) : Prop :=
  ∃ first k, k ≤ others ∧ fd = .after first 0 ∧ s.nextFd = first + Int32.ofNat (k + 1)

namespace Memory.Store.Recent

variable {s s' : Store} {fd : Fd} {others : Nat}

private theorem of_openPath (h : s'.nextFd = s.nextFd + Int32.ofNat 1) (others : Nat) :
    s'.Recent ⟨s.nextFd.toInt⟩ others :=
  ⟨s.nextFd, 0, Nat.zero_le others, (Fd.after_zero s.nextFd).symm, h⟩

private theorem of_eq (h : s.Recent fd others) (hnext : s'.nextFd = s.nextFd) :
    s'.Recent fd others := by
  rwa [Recent, hnext]

private theorem on (h : s.Recent fd others) (op : Operation) :
    (op.on s).Recent fd (others + op.given s) := by
  obtain ⟨first, k, hk, hfd, hnext⟩ := h
  refine ⟨first, k + op.given s, Nat.add_le_add_right hk _, hfd, ?_⟩
  rw [op.nextFd_on, hnext, Int32.add_assoc, ← Int32.ofNat_add, Nat.add_right_comm]

private theorem ne_next (h : s.Recent fd others) (hothers : others + 1 < Int32.size) :
    fd ≠ ⟨s.nextFd.toInt⟩ := by
  obtain ⟨first, k, hk, rfl, hnext⟩ := h
  rw [← Fd.after_zero, hnext, Fd.after_add]
  exact Fd.after_ne (Nat.succ_pos k) (by omega)

end Memory.Store.Recent

namespace Listing

/-- A request for the next result: the store that it met, the answer, and the calls made for it. -/
structure Request where
  store : Store
  answer : ListingAnswer
  exchanges : List Exchange

def request (l : Listing) (s : Store) (steps : Nat) : Request × Listing × Store :=
  let (answer, l, t) := l.next (Traced.mk s []) steps
  (⟨s, answer, t.exchanges⟩, l, t.store)

def handedOut (requests : List Request) : List String :=
  requests.filterMap (·.answer.item?.map Status.name)

/-- For the request the store gave an entry of that name, which was in the directory. The calls of
a listing leave the tree as the request met it. -/
def Request.Gives (r : Request) (dir : Ino) (name : String) : Prop :=
  ∃ fd limit entries, .readdir fd limit (.ok entries) ∈ r.exchanges ∧
    ∃ d ∈ entries, d.name = name ∧ r.store.tree.link? dir name = some d.ino.toNat

/-- The requests of a listing, between which others do to the store what they like and are given so
many descriptors. Three steps suffice for an answer: to open the directory, to read a page, and to
ask for its attributes. -/
inductive Watched (l₀ : Listing) (s₀ : Store) : List Request → Listing → Store → Nat → Prop where
  | begun : Watched l₀ s₀ [] l₀ s₀ 0
  | asked {requests l s others steps} (h : Watched l₀ s₀ requests l s others)
      (hsteps : 3 ≤ steps) :
      Watched l₀ s₀ (requests ++ [(l.request s steps).1]) (l.request s steps).2.1
        (l.request s steps).2.2 others
  | changed {requests l s others} (h : Watched l₀ s₀ requests l s others) (op : Operation)
      (hop : op.Spares l.state.handle?) :
      Watched l₀ s₀ requests l (op.on s) (others + op.given s)

/-- A name that every request met in the directory. -/
def Lasting (dir : Ino) (requests : List Request) (name : String) : Prop :=
  ∀ r ∈ requests, ∃ ino, r.store.tree.link? dir name = some ino

/-- The result is a child that the directory had at one of the requests. -/
def Given (path : String) (dir : Ino) (requests : List Request) (status : Status) : Prop :=
  status.path = Path.join path status.name ∧ ∃ r ∈ requests, r.Gives dir status.name

/-- Where a listing stands between requests, with the names that it has shown or keeps ready. -/
inductive Reached (dir : Ino) (requests : List Request) (names : List String) (l : Listing)
    (s : Store) (others : Nat) : Prop where
  | begun (hrequests : requests = []) (hstate : l.state = .idle) (hready : l.ready = [])
      (hnames : names = [])
  | between {handle file} (hstate : l.state = .awaitingBatch handle)
      (hfile : s.openFile? handle.fd = some file) (hrecent : s.Recent handle.fd others)
      (hdir : file.ino = dir) (hbehind : ∀ name ∈ names, ∃ last ∈ file.cursor, name ≤ last)
      (hahead : ∀ name, Lasting dir requests name →
        name ∈ names ∨ ∀ last ∈ file.cursor, last < name)
  | ended (hstate : l.state = .done) (hall : ∀ name, Lasting dir requests name → name ∈ names)

structure Watching (path : String) (dir : Ino) (requests : List Request) (l : Listing)
    (s : Store) (others : Nat) : Prop where
  reachable : Reachable s
  answers : s.Answers
  path_eq : l.path = path
  one_le_batchSize : 1 ≤ l.batchSize
  sorted : (handedOut requests ++ l.ready.map Status.name).Pairwise (· < ·)
  ready : ∀ status ∈ l.ready, Given path dir requests status
  given : ∀ front r, front ++ [r] <+: requests → ∀ status, r.answer = .item status →
    Given path dir (front ++ [r]) status
  finished : ∀ r ∈ requests.getLast?, r.answer = .finished → l.state = .done ∧ l.ready = []
  answered : ∀ r ∈ requests, r.answer ≠ .pending
  reached : Reached dir requests (handedOut requests ++ l.ready.map Status.name) l s others

section Watching

variable {path : String} {dir : Ino} {requests : List Request} {names : List String}
  {l l' l₁ : Listing} {s s' s₁ : Store} {handle : Handle} {file : OpenFile} {steps : Nat}
  {children : Std.TreeMap String Ino} {page : List (String × Ino)} {offered : List Status}
  {exchanges : List Exchange} {others : Nat}

theorem Lasting.of_append {r : Request} {name : String} (h : Lasting dir (requests ++ [r]) name) :
    Lasting dir requests name ∧ ∃ ino, r.store.tree.link? dir name = some ino :=
  ⟨fun r' hr' => h r' (List.mem_append_left _ hr'), h r (by simp)⟩

theorem Given.append {status : Status} (h : Given path dir requests status) (r : Request) :
    Given path dir (requests ++ [r]) status := by
  obtain ⟨hpath, r', hr', hgives⟩ := h
  exact ⟨hpath, r', List.mem_append_left _ hr', hgives⟩

theorem handedOut_append (requests : List Request) (r : Request) :
    handedOut (requests ++ [r]) =
      handedOut requests ++ (r.answer.item?.map Status.name).toList := by
  rw [handedOut, handedOut, List.filterMap_append]
  cases hitem : r.answer.item? <;> simp [hitem]

private theorem watching_new (hs : Reachable s) (hanswers : s.Answers) (path : String) (dir : Ino)
    (batchSize : Nat) (identity : Identity) (blockSize : UInt64) :
    Watching path dir [] (.new path batchSize identity blockSize) s 0 where
  reachable := hs
  answers := hanswers
  path_eq := rfl
  one_le_batchSize := Nat.le_max_right batchSize 1
  sorted := .nil
  ready := List.forall_mem_nil _
  given front r hprefix := absurd (List.prefix_nil.1 hprefix) (List.concat_ne_nil r front)
  finished r hr := by cases hr
  answered := List.forall_mem_nil _
  reached := .begun rfl rfl rfl rfl

/-- What others do leaves a listing where it stands. -/
theorem Watching.changed (h : Watching path dir requests l s others) {op : Operation}
    (hop : op.Spares l.state.handle?) (hothers : others + op.given s < Int32.size) :
    Watching path dir requests l (op.on s) (others + op.given s) := by
  refine ⟨h.reachable.step op, hop.answers_on h.answers, h.path_eq, h.one_le_batchSize, h.sorted,
    h.ready, h.given, h.finished, h.answered, ?_⟩
  cases h.reached with
  | begun hrequests hstate hready hnames => exact .begun hrequests hstate hready hnames
  | between hstate hfile hrecent hdir hbehind hahead =>
    rw [hstate] at hop
    have hfile' := hop.openFile?_on hfile fun hgiven => hrecent.ne_next (hgiven ▸ hothers)
    exact .between hstate hfile' (hrecent.on op) hdir hbehind hahead
  | ended hstate hall => exact .ended hstate hall

private theorem Watching.of_offered (h : Watching path dir requests l s others)
    (hreachable : Reachable s') (hs' : s'.Answers) (hpath : l'.path = l.path)
    (hbatch : l'.batchSize = l.batchSize) (hready : l'.ready = offered.tail)
    (hsorted : (handedOut requests ++ offered.map Status.name).Pairwise (· < ·))
    (hgiven : ∀ status ∈ offered,
      Given path dir (requests ++ [⟨s, .ofResults offered, exchanges⟩]) status)
    (hempty : offered = [] → l'.state = .done)
    (hreached : Reached dir (requests ++ [⟨s, .ofResults offered, exchanges⟩])
      (handedOut requests ++ offered.map Status.name) l' s' others) :
    Watching path dir (requests ++ [⟨s, .ofResults offered, exchanges⟩]) l' s' others := by
  have hnames : handedOut (requests ++ [⟨s, .ofResults offered, exchanges⟩]) ++
      l'.ready.map Status.name = handedOut requests ++ offered.map Status.name := by
    rw [handedOut_append, hready, ListingAnswer.item?_ofResults, List.append_assoc]
    cases offered <;> rfl
  refine ⟨hreachable, hs', hpath.trans h.path_eq, hbatch ▸ h.one_le_batchSize, hnames ▸ hsorted,
    ?_, ?_, ?_, ?_, hnames ▸ hreached⟩
  · intro status hstatus
    rw [hready] at hstatus
    exact hgiven status (List.mem_of_mem_tail hstatus)
  · intro front r hprefix status hstatus
    rcases List.prefix_concat_iff.1 hprefix with heq | hprefix
    · obtain ⟨rfl, hr⟩ := List.append_inj' heq rfl
      obtain rfl := List.singleton_inj.1 hr
      cases offered with
      | nil => cases hstatus
      | cons first rest =>
        obtain rfl := ListingAnswer.item.inj hstatus
        exact hgiven first List.mem_cons_self
    · exact h.given front r hprefix status hstatus
  · intro r hr hfinished
    rw [List.getLast?_concat, Option.mem_some_iff] at hr
    subst hr
    cases offered with
    | nil => exact ⟨hempty rfl, hready⟩
    | cons first rest => cases hfinished
  · intro r hr
    rcases List.mem_append.1 hr with hr | hr
    · exact h.answered r hr
    · obtain rfl := List.mem_singleton.1 hr
      cases offered <;> exact nofun

private theorem Watching.asked_kept (h : Watching path dir requests l s others)
    (hkept : l.ready = [] → l.state.isFinal = true) :
    Watching path dir (requests ++ [⟨s, .ofResults l.ready, []⟩])
      { l with ready := l.ready.tail } s others := by
  refine h.of_offered h.reachable h.answers rfl rfl rfl h.sorted
    (fun status hstatus => (h.ready status hstatus).append _) ?_ ?_
  · intro hready
    cases h.reached with
    | begun hrequests hstate =>
      rw [hstate] at hkept
      cases hkept hready
    | between hstate =>
      rw [hstate] at hkept
      cases hkept hready
    | ended hstate => exact hstate
  · cases h.reached with
    | begun hrequests hstate hready =>
      rw [hstate] at hkept
      cases hkept hready
    | between hstate hfile hrecent hdir hbehind hahead =>
      exact .between hstate hfile hrecent hdir hbehind fun name hname =>
        hahead name hname.of_append.1
    | ended hstate hall => exact .ended hstate fun name hname => hall name hname.of_append.1

private theorem le_getLast {names : List String} {last : String} (h : names.Pairwise (· < ·))
    (hlast : names.getLast? = some last) : ∀ name ∈ names, name ≤ last := by
  obtain ⟨front, rfl⟩ := List.getLast?_eq_some_iff.1 hlast
  intro name hname
  rcases List.mem_append.1 hname with hname | hname
  · exact Std.le_of_lt ((List.pairwise_append.1 h).2.2 name hname last (by simp))
  · obtain rfl := List.mem_singleton.1 hname
    exact String.le_refl _

/-- A name that stays is shown with a page, or the page was full and ends before it. -/
theorem Lasting.mem_or_lt {r : Request} {name : String} {cursor : Option String} {limit : Nat}
    (h : Lasting dir (requests ++ [r]) name) (hchildren : r.store.tree.children dir = .ok children)
    (hahead : name ∈ names ∨ ∀ last ∈ cursor, last < name)
    (hpage : (childrenAfter children cursor).take limit = page) :
    name ∈ names ++ page.map Prod.fst ∨
      limit ≤ page.length ∧ ∀ last ∈ page.getLast?, last.1 < name := by
  obtain ⟨-, ino, hlink⟩ := h.of_append
  rw [Tree.link?, Tree.children_eq_ok_iff.1 hchildren] at hlink
  rcases hahead with hshown | hlater
  · exact .inl (List.mem_append_left _ hshown)
  · rcases mem_page_or_lt hlink hlater hpage with hon | hlater
    · exact .inl (List.mem_append_right _ (List.mem_map_of_mem hon))
    · exact .inr hlater

private theorem given_of_page {r : Request} {fd : Fd} {limit : Nat} (hr : r ∈ requests)
    (h : Listable r.store.tree dir children) (hmem : ∀ c ∈ page, children[c.1]? = some c.2)
    (hread : .readdir fd limit (.ok (page.map (direntOf r.store.tree))) ∈ r.exchanges)
    {status : Status} (hstatus : status ∈ page.filterMap (l.statusOf? r.store.tree)) :
    Given l.path dir requests status := by
  obtain ⟨c, hc, hstatus⟩ := List.mem_filterMap.1 hstatus
  obtain ⟨told, htold, hpath, hname⟩ := l.exists_statusOf? h (hmem c hc)
  obtain rfl := Option.some.inj (htold.symm.trans hstatus)
  obtain ⟨-, -, -, hlt⟩ := h.exists_node (hmem c hc)
  refine ⟨by rw [hpath, hname], r, hr, _, _, _, hread, direntOf r.store.tree c,
    List.mem_map_of_mem hc, ?_, ?_⟩
  · rw [hname, h.name_direntOf (hmem c hc)]
  · rw [hname, h.link? (hmem c hc)]
    exact congrArg some (Nat.mod_eq_of_lt hlt).symm

private theorem reached_of_page {limit : Nat} (hlimit : 1 ≤ limit) (hdir : file.ino = dir)
    (hstate : l'.state = if page.length < limit then .done else .awaitingBatch handle)
    (hfile : limit ≤ page.length → s'.Recent handle.fd others ∧ ∀ last ∈ page.getLast?,
      s'.openFile? handle.fd = some { file with cursor := some last.1 })
    (hsorted : (names ++ page.map Prod.fst).Pairwise (· < ·))
    (hlasting : ∀ name, Lasting dir requests name → name ∈ names ++ page.map Prod.fst ∨
      limit ≤ page.length ∧ ∀ last ∈ page.getLast?, last.1 < name) :
    Reached dir requests (names ++ page.map Prod.fst) l' s' others := by
  by_cases hshort : page.length < limit
  · rw [if_pos hshort] at hstate
    refine .ended hstate fun name hname => ?_
    rcases hlasting name hname with hshown | ⟨hfull, -⟩
    · exact hshown
    · exact absurd hshort (Nat.not_lt.2 hfull)
  · rw [if_neg hshort] at hstate
    have hne : page ≠ [] := by
      rintro rfl
      exact hshort hlimit
    have hlast := List.getLast?_eq_some_getLast hne
    generalize page.getLast hne = last at hlast
    obtain ⟨hrecent, hopen⟩ := hfile (Nat.not_lt.1 hshort)
    refine .between hstate (hopen last hlast) hrecent hdir ?_ ?_
    · intro name hname
      refine ⟨last.1, rfl, le_getLast hsorted ?_ name hname⟩
      rw [List.getLast?_append, List.getLast?_map, hlast]
      rfl
    · intro name hname
      refine (hlasting name hname).imp_right fun hlater last' hlast' => ?_
      obtain rfl := Option.some.inj hlast'
      exact hlater.2 last hlast

private theorem Watching.asked_page (h : Watching path dir requests l s others)
    (hready : l.ready = []) (hstate : l₁.state = .awaitingBatch handle) (hready₁ : l₁.ready = [])
    (hpath : l₁.path = l.path) (hbatch : l₁.batchSize = l.batchSize) (hreachable : Reachable s₁)
    (hs₁ : s₁.Answers) (htree : s₁.tree = s.tree) (hfile : s₁.openFile? handle.fd = some file)
    (hrecent : s₁.Recent handle.fd others) (hdir : file.ino = dir)
    (hlist : Listable s₁.tree dir children)
    (hbehind : ∀ name ∈ handedOut requests, ∃ last ∈ file.cursor, name ≤ last)
    (hahead : ∀ name, Lasting dir requests name →
      name ∈ handedOut requests ∨ ∀ last ∈ file.cursor, last < name)
    (hsteps : 2 ≤ steps) {before : List Exchange} {answer : ListingAnswer} {t : Traced Store}
    (hnext : l₁.next (Traced.mk s₁ before) steps = (answer, l', t)) :
    Watching path dir (requests ++ [⟨s, answer, t.exchanges⟩]) l' t.store others := by
  subst hdir
  have hb : 1 ≤ l₁.batchSize := hbatch ▸ h.one_le_batchSize
  obtain ⟨page, hpage⟩ : ∃ page, (childrenAfter children file.cursor).take l₁.batchSize = page :=
    ⟨_, rfl⟩
  obtain ⟨s', exchanges, hasked, hread, hreachable', hs', hlast⟩ :=
    next_of_page hstate hready₁ hreachable hs₁ hlist hfile hpage hb hsteps before
  obtain ⟨rfl, rfl, rfl⟩ : _ ∧ _ ∧ _ := by
    rw [hnext] at hasked
    simpa only [Prod.mk.injEq] using hasked
  have hmem : ∀ c ∈ page, children[c.1]? = some c.2 := by
    rw [← hpage]
    exact fun _ => getElem?_of_mem_take
  have hnames := l₁.map_name_filterMap_statusOf? hlist hmem
  have hsorted := h.sorted
  rw [hready, List.map_nil, List.append_nil] at hsorted
  have hsorted' := pairwise_append_page hsorted hbehind hpage
  refine h.of_offered hreachable' hs' hpath hbatch rfl (by rwa [hnames]) ?_ ?_ ?_
  · intro status hstatus
    rw [htree] at hlist hread hstatus ⊢
    rw [← h.path_eq, ← hpath]
    exact given_of_page List.mem_concat_self hlist hmem hread hstatus
  · intro hempty
    rw [hempty, List.map_nil] at hnames
    rw [List.map_eq_nil_iff.1 hnames.symm]
    exact if_pos hb
  · rw [hnames]
    refine reached_of_page hb rfl rfl (fun hfull => (hlast hfull).imp_left hrecent.of_eq)
      hsorted' fun name hname => ?_
    refine hname.mem_or_lt ?_ (hahead name hname.of_append.1) hpage
    rw [← htree, hlist.children]

private theorem Watching.asked (h : Watching path dir requests l s others)
    (hfirst : requests = [] → s.tree.lookup path = .ok dir ∧ s.tree.isDirectory dir = true)
    (hnames : ∀ children, s.tree.children dir = .ok children →
      ∀ name ∈ children.keys, name.utf8ByteSize ≤ Dirent.nameCapacity)
    (hnumbers : s.tree.nextIno ≤ UInt64.size) (hsteps : 3 ≤ steps)
    (hanswer : ∀ e, (l.request s steps).1.answer ≠ .failed e) :
    Watching path dir (requests ++ [(l.request s steps).1]) (l.request s steps).2.1
      (l.request s steps).2.2 others := by
  unfold request at hanswer ⊢
  generalize hnext : l.next (Traced.mk s []) steps = result at hanswer
  obtain ⟨answer, l', t⟩ := result
  have hlistable {children} (hchildren : s.tree.children dir = .ok children) :
      Listable s.tree dir children :=
    listable_of_reachable h.reachable hnumbers hchildren (hnames children hchildren)
  by_cases hkept : l.ready = [] → l.state.isFinal = true
  · obtain ⟨rfl, rfl, rfl⟩ : _ ∧ _ ∧ _ := by
      rw [next_of_kept _ _ hkept] at hnext
      simpa only [Prod.mk.injEq] using hnext.symm
    exact h.asked_kept hkept
  · obtain ⟨hready, hfinal⟩ := Classical.not_imp.1 hkept
    cases h.reached with
    | begun hrequests hstate =>
      subst hrequests
      obtain ⟨hlookup, hdir⟩ := hfirst rfl
      obtain ⟨children, hchildren⟩ := Tree.isDirectory_iff.1 hdir
      have hlist := hlistable (Tree.children_eq_ok_iff.2 hchildren)
      obtain ⟨steps, rfl⟩ : ∃ n, steps = n + 1 := ⟨steps - 1, by omega⟩
      obtain ⟨s₁, before, hopen, hreachable₁, hturned⟩ := next_of_idle hstate hready h.reachable
        h.answers hlist (h.path_eq ▸ hlookup) steps
      rw [hopen] at hnext
      have hstate₁ :
          ({ l with state := .awaitingBatch ⟨⟨s.nextFd.toInt⟩, l.path⟩ } : Listing).state =
          .awaitingBatch ⟨⟨s.nextFd.toInt⟩, l.path⟩ := rfl
      refine h.asked_page hready hstate₁ hready rfl rfl hreachable₁ hturned.answers hturned.tree
        hturned.openFile?_self (.of_openPath hturned.nextFd others) rfl (hturned.tree ▸ hlist) ?_
        (fun _ _ => .inr nofun) (by omega) hnext
      intro name hname
      cases hname
    | between hstate hfile hrecent hdir hbehind hahead =>
      rw [hready, List.map_nil, List.append_nil] at hbehind hahead
      cases hchildren : s.tree.children dir with
      | error code =>
        obtain ⟨e, l'', t', hfailed⟩ := next_of_gone hstate hready h.answers hfile
          (hdir ▸ hchildren) (Nat.le_trans (by decide) hsteps) []
        rw [hfailed] at hnext
        exact absurd (Prod.mk.inj hnext).1.symm (hanswer e)
      | ok children =>
        exact h.asked_page hready hstate hready rfl rfl h.reachable h.answers rfl hfile hrecent
          hdir (hlistable hchildren) hbehind hahead (by omega) hnext
    | ended hstate =>
      rw [hstate] at hfinal
      exact absurd rfl hfinal

/-- What is so at the start is so after every request, as long as none fails and others are not
given the descriptor of the listing. -/
theorem Watched.watching {l₀ : Listing} {s₀ : Store} (hrun : Watched l₀ s₀ requests l s others)
    (hstart : Watching path dir [] l₀ s₀ 0) (hothers : others < Int32.size)
    (hfirst : ∀ r ∈ requests.head?,
      r.store.tree.lookup path = .ok dir ∧ r.store.tree.isDirectory dir = true)
    (hnames : ∀ r ∈ requests, ∀ children, r.store.tree.children dir = .ok children →
      ∀ name ∈ children.keys, name.utf8ByteSize ≤ Dirent.nameCapacity)
    (hnumbers : ∀ r ∈ requests, r.store.tree.nextIno ≤ UInt64.size)
    (hanswer : ∀ r ∈ requests, ∀ e, r.answer ≠ .failed e) :
    Watching path dir requests l s others := by
  induction hrun with
  | begun => exact hstart
  | @asked requests l s others steps _ hsteps ih =>
    have hold {r : Request} (hr : r ∈ requests) : r ∈ requests ++ [(l.request s steps).1] :=
      List.mem_append_left _ hr
    have h : Watching path dir requests l s others := by
      refine ih hothers (fun r hr => hfirst r ?_) (fun r hr => hnames r (hold hr))
        (fun r hr => hnumbers r (hold hr)) (fun r hr => hanswer r (hold hr))
      rw [List.head?_append, Option.mem_def.1 hr]
      rfl
    refine h.asked (fun hnone => hfirst (l.request s steps).1 ?_) (hnames _ List.mem_concat_self)
      (hnumbers _ List.mem_concat_self) hsteps (hanswer _ List.mem_concat_self)
    rw [hnone]
    rfl
  | changed _ op hop ih =>
    exact (ih (by omega) hfirst hnames hnumbers hanswer).changed hop hothers

end Watching

/-- A listing of a directory that others change comes to its end with every name that all requests
met there, whatever the name stood for, and with no name twice. The names come in the order of
their bytes, and each was in the directory when the store gave it, for the request that handed it
out or for an earlier one. While it lasts, others are given less than `2 ^ 32` descriptors, of which
the last would have the number of that of the listing. -/
theorem names_of_watched {path : String} {batchSize : Nat} {identity : Identity}
    {blockSize : UInt64} {s₀ s : Store} {requests : List Request} {l : Listing} {others : Nat}
    {dir : Ino} (hs : Reachable s₀) (hup : s₀.isShutDown = false) (hfaults : s₀.faults = {})
    (hrun : Watched (.new path batchSize identity blockSize) s₀ requests l s others)
    (hothers : others < Int32.size)
    (hfirst : ∀ r ∈ requests.head?,
      r.store.tree.lookup path = .ok dir ∧ r.store.tree.isDirectory dir = true)
    (hnames : ∀ r ∈ requests, ∀ children, r.store.tree.children dir = .ok children →
      ∀ name ∈ children.keys, name.utf8ByteSize ≤ Dirent.nameCapacity)
    (hnumbers : ∀ r ∈ requests, r.store.tree.nextIno ≤ UInt64.size)
    (hanswer : ∀ r ∈ requests, ∀ e, r.answer ≠ .failed e)
    (hend : ∃ r ∈ requests.getLast?, r.answer = .finished) :
    (∀ r ∈ requests, r.answer ≠ .pending) ∧
    (∀ name, Lasting dir requests name → (handedOut requests).count name = 1) ∧
    (handedOut requests).Nodup ∧
    (∀ front r, front ++ [r] <+: requests → ∀ status, r.answer = .item status →
      status.path = Path.join path status.name ∧ ∃ r' ∈ front ++ [r], r'.Gives dir status.name) ∧
    (handedOut requests).Pairwise
      (fun name name' => name.toUTF8.data.toList < name'.toUTF8.data.toList) := by
  have hanswers : s₀.Answers := .of_faults hup hfaults
  have h := hrun.watching (watching_new hs hanswers path dir batchSize identity blockSize) hothers
    hfirst hnames hnumbers hanswer
  obtain ⟨last, hlast, hfinished⟩ := hend
  obtain ⟨hdone, hready⟩ := h.finished last hlast hfinished
  have hsorted := h.sorted
  have hreached := h.reached
  rw [hready, List.map_nil, List.append_nil] at hsorted hreached
  have hnodup : (handedOut requests).Nodup := hsorted.imp String.ne_of_lt
  refine ⟨h.answered, fun name hname => List.count_eq_one_of_mem hnodup ?_, hnodup, h.given,
    hsorted.imp Utf8.toUTF8_lt_of_lt⟩
  cases hreached with
  | begun _ hstate =>
    rw [hdone] at hstate
    cases hstate
  | between hstate =>
    rw [hdone] at hstate
    cases hstate
  | ended _ hall => exact hall name hname

/-- While the only name is handed out, others put one file before it, open the directory, and put
one file behind the name. -/
theorem names_of_watched_files_put_meanwhile : ∃ requests l s,
    Watched (.new "/d" 1 (.ofUser "user") 4096) (.putFile (.new {}) "/d/b" .empty) requests l s 1 ∧
      handedOut requests = ["b", "c"] ∧ (handedOut requests).count "b" = 1 := by
  have hreachable : Reachable (.putFile (.new {}) "/d/b" .empty) :=
    (Reachable.new {}).step (.putFile "/d/b" .empty)
  obtain ⟨requests, l, s, _, hrun, rfl, hhanded, hfirst, hstill, hnumbers, hnames, hanswers,
      hend⟩ : ∃ requests l s others, Watched (.new "/d" 1 (.ofUser "user") 4096)
          (.putFile (.new {}) "/d/b" .empty) requests l s others ∧ others = 1 ∧
        handedOut requests = ["b", "c"] ∧
        requests.head?.map (fun r => (r.store.tree.lookup "/d", r.store.tree.isDirectory 2)) =
          some (.ok 2, true) ∧
        (∀ r ∈ requests, r.store.tree.link? 2 "b" = some 3) ∧
        (∀ r ∈ requests, r.store.tree.nextIno ≤ UInt64.size) ∧
        (∀ r ∈ requests, (r.store.tree.children 2).toOption.all (fun children =>
          children.keys.all (·.utf8ByteSize ≤ Dirent.nameCapacity)) = true) ∧
        (∀ r ∈ requests, (match r.answer with | .failed _ => false | _ => true) = true) ∧
        requests.getLast?.any
          (fun r => match r.answer with | .finished => true | _ => false) = true := by
    refine ⟨_, _, _, _, .asked (.asked (.changed (.changed (.changed (.asked .begun (Nat.le_refl 3))
      (.putFile "/d/a" .empty) trivial) (.openPath "/d" .readOnly 0) trivial)
      (.putFile "/d/c" .empty) trivial) (Nat.le_refl 3)) (Nat.le_refl 3), ?_⟩
    decide +kernel
  refine ⟨requests, l, s, hrun, hhanded, (names_of_watched hreachable rfl rfl hrun (by decide) ?_ ?_
    hnumbers ?_ ?_).2.1 "b" fun r hr => ⟨3, hstill r hr⟩⟩
  · intro r hr
    rw [Option.mem_def.1 hr] at hfirst
    exact Prod.mk.inj (Option.some.inj hfirst)
  · intro r hr children hchildren name hname
    have h := hnames r hr
    rw [hchildren] at h
    simpa using List.all_eq_true.1 h name hname
  · intro r hr e he
    have h := hanswers r hr
    rw [he] at h
    cases h
  · cases hlast : requests.getLast? with
    | none =>
      rw [hlast] at hend
      cases hend
    | some r =>
      rw [hlast, Option.any_some] at hend
      refine ⟨r, rfl, ?_⟩
      split at hend
      · assumption
      · cases hend

end Listing
end VolumeFs
