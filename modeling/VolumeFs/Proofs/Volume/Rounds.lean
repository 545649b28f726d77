import VolumeFs.Proofs.Volume.Pages

/-!
# Rounds of a listing

A listing goes round by round: it reads a page and asks for the attributes of what is on it, until
a page is short or empty. What it tells in the end depends on nothing but the pages and the
attributes, whatever store they came from. In a store in memory the pages are cut off the children
one after the other.
-/

namespace VolumeFs

open Memory Memory.Store

/-- A page and the attributes that were given for it. -/
structure Round where
  page : List Dirent
  stats : List Stat

section Client

variable {σ : Type} [StoreClient σ]

/-- A store answers behind a descriptor with these rounds. -/
inductive Serves (limit : Nat) (fd : Fd) : List Round → σ → σ → Prop where
  | nothing {s s₁ s₂} (hread : StoreClient.readdir s fd limit = (.ok [], s₁))
      (hclose : StoreClient.close s₁ fd = (.ok (), s₂)) : Serves limit fd [] s s₂
  | short {page stats s s₁ s₂ s₃} (hpage : page ≠ [])
      (hread : StoreClient.readdir s fd limit = (.ok page, s₁))
      (hbatch : StoreClient.batchGetAttr s₁ fd (page.map (·.ino)) = (.ok stats, s₂))
      (hshort : page.length < limit) (hclose : StoreClient.close s₂ fd = (.ok (), s₃)) :
      Serves limit fd [⟨page, stats⟩] s s₃
  | full {page stats rounds s s₁ s₂ s₃} (hpage : page ≠ [])
      (hread : StoreClient.readdir s fd limit = (.ok page, s₁))
      (hbatch : StoreClient.batchGetAttr s₁ fd (page.map (·.ino)) = (.ok stats, s₂))
      (hfull : limit ≤ page.length) (hrest : Serves limit fd rounds s₂ s₃) :
      Serves limit fd (⟨page, stats⟩ :: rounds) s s₃

/-- A store opens the directory at a path, and then something holds behind the descriptor. -/
inductive OpensTo (path : String) (holds : Fd → σ → Prop) : σ → Prop where
  | directory {stat fd s s₁ s₂} (hattr : StoreClient.getAttr s path = (.ok stat, s₁))
      (hfile : stat.isFile = false)
      (hopen : StoreClient.openPath s₁ path .readOnly Listing.openMode = (.ok fd, s₂))
      (hholds : holds fd s₂) : OpensTo path holds s

/-- A store opens a directory and answers with these rounds. -/
def Opens (limit : Nat) (path : String) (rounds : List Round) (s s' : σ) : Prop :=
  OpensTo path (fun fd s => Serves limit fd rounds s s') s

namespace Listing

variable {l : Listing} {s s' : σ} {handle : Handle} {steps : Nat} {rounds : List Round}

/-- The results that a listing makes of some rounds. -/
def told (l : Listing) (rounds : List Round) : List Status :=
  rounds.flatMap fun round => l.classify round.page round.stats

private theorem drain_of_serves (h : Serves l.batchSize handle.fd rounds s s')
    (hstate : l.state = .awaitingBatch handle) (hsteps : 2 * rounds.length + 1 ≤ steps)
    (results : List Status) : l.drain s steps results =
      (.ok (results ++ l.ready ++ l.told rounds), { l with ready := [], state := .done }, s') := by
  generalize hlimit : l.batchSize = limit at h
  generalize hfd : handle.fd = fd at h
  -- One round takes one step to read the page and one to ask for the attributes.
  induction h generalizing l steps results with
  | nothing hread hclose =>
    subst hlimit hfd
    obtain ⟨steps, rfl⟩ : ∃ n, steps = n + 1 := ⟨steps - 1, by omega⟩
    have hfinal : l.state.isFinal = false := by rw [hstate]; rfl
    have hstep := step_of_no_page (l := { l with ready := [] }) hstate hread hclose
    rw [drain_of_step hfinal hstep, drain_of_final rfl, List.append_nil, told, List.flatMap_nil,
      List.append_nil]
  | short hpage hread hbatch hshort hclose =>
    subst hlimit hfd
    obtain ⟨steps, rfl⟩ : ∃ n, steps = n + 2 := ⟨steps - 2, by simp at hsteps; omega⟩
    have hfinal : l.state.isFinal = false := by rw [hstate]; rfl
    have hasked := step_of_page (l := { l with ready := [] }) hstate hread hpage
    have hstep := step_of_short_batch (l := { l with ready := [], state := .resolving handle _ })
      rfl hbatch hshort hclose
    rw [drain_of_step hfinal hasked, drain_of_step rfl hstep, drain_of_final rfl, List.append_nil,
      List.nil_append, told, List.flatMap_singleton]
    rfl
  | @full page stats rounds _ _ _ _ hpage hread hbatch hfull hrest ih =>
    subst hlimit hfd
    obtain ⟨steps, rfl⟩ : ∃ n, steps = n + 2 := ⟨steps - 2, by simp at hsteps; omega⟩
    have hfinal : l.state.isFinal = false := by rw [hstate]; rfl
    have hrounds : 2 * rounds.length + 1 ≤ steps := by simp at hsteps; omega
    have hasked := step_of_page (l := { l with ready := [] }) hstate hread hpage
    have hstep := step_of_full_batch (l := { l with ready := [], state := .resolving handle _ })
      rfl hbatch hfull
    have hserved := ih
      (l := { l with ready := l.classify page stats, state := .awaitingBatch handle })
      rfl hrounds (results ++ l.ready ++ []) rfl
    rw [drain_of_step hfinal hasked, drain_of_step rfl hstep]
    refine hserved.trans ?_
    rw [List.append_nil, told, told, List.flatMap_cons, ← List.append_assoc]
    rfl

theorem drain_of_opens (h : Opens l.batchSize l.path rounds s s') (hidle : l.state = .idle)
    (hready : l.ready = []) (hsteps : 2 * rounds.length + 2 ≤ steps) :
    l.drain s steps [] = (.ok (l.told rounds), { l with state := .done }, s') := by
  obtain @⟨stat, fd, _, _, _, hattr, hfile, hopen, hserves⟩ := h
  obtain ⟨steps, rfl⟩ : ∃ n, steps = n + 1 := ⟨steps - 1, by omega⟩
  have hfinal : l.state.isFinal = false := by rw [hidle]; rfl
  have hstep := step_of_directory (l := { l with ready := [] }) hidle hattr hfile hopen
  have hserved := drain_of_serves
    (l := { l with ready := [], state := .awaitingBatch ⟨fd, l.path⟩ })
    (show Serves l.batchSize (Handle.mk fd l.path).fd rounds _ s' from hserves) rfl
    (Nat.le_of_succ_le_succ hsteps) []
  rw [drain_of_step hfinal hstep, hready, List.append_nil, hserved]
  rfl

end Listing

end Client

namespace Memory

def Tree.roundOf (t : Tree) (page : List (String × Ino)) : Round where
  page := page.map (Store.direntOf t)
  stats := page.filterMap fun c => t.nodes[c.2]?.map (·.stat c.2)

/-- Children cut into pages of which none is empty and none longer than the limit. -/
structure Store.Paged (children : List (String × Ino)) (limit : Nat)
    (pages : List (List (String × Ino))) : Prop where
  flatten : pages.flatten = children
  ne_nil : ∀ page ∈ pages, page ≠ []
  length_le : ∀ page ∈ pages, page.length ≤ limit

namespace Store

variable {s : Store} {fd : Fd} {file : OpenFile} {dir : Ino} {limit : Nat} {path : String}
  {children : Std.TreeMap String Ino} {rest : List (String × Ino)}
  {pages : List (List (String × Ino))}

theorem Paged.length_le_length (h : Paged rest limit pages) : pages.length ≤ rest.length := by
  obtain ⟨rfl, hne, -⟩ := h
  induction pages with
  | nil => exact Nat.le_refl _
  | cons page pages ih =>
    have hpage := List.length_pos_of_ne_nil (hne page (by simp))
    have hpages := ih fun page hpage => hne page (List.mem_cons_of_mem _ hpage)
    rw [List.length_cons, List.flatten_cons, List.length_append]
    omega

section Waiting

variable (hs : s.Answers) (hfile : s.openFile? fd = some file)
  (h : Listable s.tree file.ino children) (hrest : childrenAfter children file.cursor = rest)
include hs hfile h hrest

private theorem Listable.serves_nothing (limit : Nat) (hnil : rest = []) :
    ∃ s', Serves limit fd [] s s' ∧ Turned s s' fd none 0 1 0 := by
  obtain ⟨s₁, hread, hturned⟩ := h.readdir hs hfile limit
  obtain ⟨s₂, hclose, hclosed⟩ := hturned.answers.close hturned.openFile?_self
  rw [hrest, hnil, List.take_nil, List.map_nil] at hread
  exact ⟨s₂, .nothing hread hclose, hturned.trans hclosed⟩

private theorem Listable.serves_short (hne : rest ≠ []) (hshort : rest.length < limit) :
    ∃ s', Serves limit fd [s.tree.roundOf rest] s s' ∧ Turned s s' fd none 0 1 1 := by
  have hpage : (childrenAfter children file.cursor).take limit = rest := by
    rw [hrest, List.take_of_length_le (Nat.le_of_lt hshort)]
  obtain ⟨s₁, s₂, hread, hbatch, hturned⟩ := h.fetch hs hfile hpage
  obtain ⟨s₃, hclose, hclosed⟩ := hturned.answers.close hturned.openFile?_self
  exact ⟨s₃, .short (by simpa using hne) hread hbatch (by simpa using hshort) hclose,
    hturned.trans hclosed⟩

private theorem Listable.serves_full (hlimit : 1 ≤ limit) (hfull : limit ≤ rest.length) :
    ∃ s₁ cursor, (∀ {rounds s'}, Serves limit fd rounds s₁ s' →
        Serves limit fd (s.tree.roundOf (rest.take limit) :: rounds) s s') ∧
      Turned s s₁ fd (some { file with cursor }) 0 1 1 ∧
      childrenAfter children cursor = rest.drop limit := by
  have hlength : (rest.take limit).length = limit := List.length_take_of_le hfull
  have hne : rest.take limit ≠ [] := List.ne_nil_of_length_pos (by omega)
  have hlast := List.getLast?_eq_some_getLast hne
  generalize (rest.take limit).getLast hne = last at hlast
  obtain ⟨s₁, s₂, hread, hbatch, hturned⟩ := h.fetch hs hfile (congrArg (List.take limit) hrest)
  rw [hlast, Option.map_some, Option.some_or] at hturned
  refine ⟨s₂, some last.1, fun hserves => ?_, hturned,
    childrenAfter_last (hrest.trans (List.take_append_drop _ _).symm) hlast⟩
  exact .full (by simpa using hne) hread hbatch (Nat.le_of_eq (by rw [List.length_map, hlength]))
    hserves

end Waiting

private theorem Listable.serves (hs : s.Answers) (hfile : s.openFile? fd = some file)
    (h : Listable s.tree file.ino children) (hrest : childrenAfter children file.cursor = rest)
    (hlimit : 1 ≤ limit) : ∃ pages s', Paged rest limit pages ∧
      Serves limit fd (pages.map s.tree.roundOf) s s' ∧
      Turned s s' fd none 0 (rest.length / limit + 1) ((rest.length + limit - 1) / limit) := by
  -- Each round takes a page off the children that are left, until a page is short.
  induction hlength : rest.length using Nat.strongRecOn generalizing s file rest with
  | ind length ih =>
  subst hlength
  by_cases hshort : rest.length < limit
  · rw [Nat.div_eq_of_lt hshort]
    by_cases hnil : rest = []
    · obtain ⟨s', hserves, hturned⟩ := h.serves_nothing hs hfile hrest limit hnil
      have hnone : (0 + limit - 1) / limit = 0 := Nat.div_eq_of_lt (by omega)
      rw [hnil, List.length_nil, hnone]
      exact ⟨[], s', ⟨rfl, by simp, by simp⟩, hserves, hturned⟩
    · obtain ⟨s', hserves, hturned⟩ := h.serves_short hs hfile hrest hnil hshort
      have hpositive : 0 < rest.length := List.length_pos_of_ne_nil hnil
      have hone : (rest.length + limit - 1) / limit = 1 :=
        Nat.div_eq_of_lt_le (by omega) (by omega)
      rw [hone]
      refine ⟨[rest], s', ⟨List.flatten_singleton, ?_, ?_⟩, hserves, hturned⟩
      · simpa using hnil
      · simpa using Nat.le_of_lt hshort
  · have hfull := Nat.not_lt.1 hshort
    obtain ⟨s₁, cursor, hround, hturned, hcursor⟩ := h.serves_full hs hfile hrest hlimit hfull
    have hdropped : (rest.drop limit).length = rest.length - limit := List.length_drop
    have hfirst : (rest.take limit).length = limit := List.length_take_of_le hfull
    obtain ⟨pages, s', hpaged, hserves, hclosed⟩ := ih (rest.drop limit).length (by omega)
      hturned.answers hturned.openFile?_self (hturned.tree ▸ h) hcursor rfl
    rw [hturned.tree] at hserves
    refine ⟨rest.take limit :: pages, s', ⟨?_, ?_, ?_⟩, hround hserves, ?_⟩
    · rw [List.flatten_cons, hpaged.flatten, List.take_append_drop]
    · exact List.forall_mem_cons.2 ⟨List.ne_nil_of_length_pos (by omega), hpaged.ne_nil⟩
    · exact List.forall_mem_cons.2 ⟨Nat.le_of_eq hfirst, hpaged.length_le⟩
    · have hpages : rest.length / limit = (rest.length - limit) / limit + 1 :=
        Nat.div_eq_sub_div hlimit hfull
      have hbatches : (rest.length + limit - 1) / limit =
          (rest.length - limit + limit - 1) / limit + 1 := by
        rw [Nat.div_eq_sub_div hlimit (by omega)]
        congr 2
        omega
      have hall := hturned.trans hclosed
      rw [hdropped] at hall
      rw [hpages, hbatches]
      simpa only [Nat.add_comm] using hall

theorem Listable.opens (hs : s.Answers) (h : Listable s.tree dir children)
    (hlookup : s.tree.lookup path = .ok dir) (hlimit : 1 ≤ limit) :
    ∃ pages s', Paged children.toList limit pages ∧
      Opens limit path (pages.map s.tree.roundOf) s s' ∧
      Turned s s' ⟨s.nextFd.toInt⟩ none 1 (children.size / limit + 1)
        ((children.size + limit - 1) / limit) := by
  obtain ⟨node, hnode, htype⟩ := h.exists_node_directory
  have hfile : (node.stat dir).isFile = false := isFile_stat_of_directory htype
  have hattr : StoreClient.getAttr s path = _ := getAttr_of_lookup hs.isUp hlookup hnode
  obtain ⟨s₁, hopen, hturned⟩ := h.openPath hs hlookup Listing.openMode
  have h₁ : Listable s₁.tree dir children := hturned.tree ▸ h
  obtain ⟨pages, s', hpaged, hserves, hclosed⟩ :=
    h₁.serves hturned.answers hturned.openFile?_self rfl hlimit
  rw [hturned.tree] at hserves
  have hall : (childrenAfter children none).length = children.size := Std.TreeMap.length_toList
  have hclosed := hturned.trans hclosed
  refine ⟨pages, s', hpaged, .directory hattr hfile hopen hserves, ?_⟩
  simpa only [hall, Nat.zero_add] using hclosed

end Store
end Memory

theorem Listing.told_roundOf (l : Listing) {t : Tree} {dir : Ino} {limit : Nat}
    {children : Std.TreeMap String Ino} (h : Listable t dir children)
    {rest : List (String × Ino)} (hrest : ∀ c ∈ rest, children[c.1]? = some c.2)
    {pages : List (List (String × Ino))} (hpages : Paged rest limit pages) :
    l.told (pages.map t.roundOf) = rest.filterMap (l.statusOf? t) := by
  obtain ⟨rfl, -, -⟩ := hpages
  rw [told, List.flatMap_map, List.filterMap_flatten, List.flatMap_def]
  congr 1
  apply List.map_congr_left
  intro page hpage
  exact l.classify_direntOf h fun c hc => hrest c (List.mem_flatten_of_mem hpage hc)

end VolumeFs
