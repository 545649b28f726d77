import Mathlib.Data.List.Nodup
import VolumeFs.Proofs.Volume.Rounds

/-!
# Entries that share an inode

Two names of one directory may stand for one inode. A listing goes by the inodes of a page, and has
one name for each of them: entries of one page that share an inode are all told about under the name
of the last of them. Entries that share an inode but come on different pages keep their names.
-/

namespace VolumeFs

section Client

variable {σ : Type} [StoreClient σ]

/-- A store hands out entries page by page behind a descriptor. It answers a batch with the
attributes of all inodes in order, each of a directory or a file. -/
inductive HandsOut (limit : Nat) (fd : Fd) : List (List Dirent) → σ → Prop where
  | nothing {s s₁ s₂} (hread : StoreClient.readdir s fd limit = (.ok [], s₁))
      (hclose : StoreClient.close s₁ fd = (.ok (), s₂)) : HandsOut limit fd [] s
  | page {page stats pages s s₁ s₂ s₃} (hpage : page ≠ [])
      (hread : StoreClient.readdir s fd limit = (.ok page, s₁))
      (hbatch : StoreClient.batchGetAttr s₁ fd (page.map (·.ino)) = (.ok stats, s₂))
      (hinodes : stats.map (·.ino) = page.map (·.ino))
      (hkinds : ∀ stat ∈ stats, stat.isDirectory = true ∨ stat.isFile = true)
      (hclose : StoreClient.close s₂ fd = (.ok (), s₃)) (hrest : HandsOut limit fd pages s₂) :
      HandsOut limit fd (page :: pages) s

/-- A store opens a directory and hands out its entries. -/
def HandsOutAt (limit : Nat) (path : String) (pages : List (List Dirent)) (s : σ) : Prop :=
  OpensTo path (fun fd s => HandsOut limit fd pages s) s

end Client

structure Round.IsComplete (r : Round) : Prop where
  inodes : r.stats.map (·.ino) = r.page.map (·.ino)
  kinds : ∀ stat ∈ r.stats, stat.isDirectory = true ∨ stat.isFile = true

/-- The pages that a listing reads: it takes a short page for the last one. -/
def pagesRead (limit : Nat) : List (List Dirent) → List (List Dirent)
  | [] => []
  | page :: pages => if page.length < limit then [page] else page :: pagesRead limit pages

private theorem pagesRead_isPrefix (limit : Nat) (pages : List (List Dirent)) :
    pagesRead limit pages <+: pages := by
  induction pages with
  | nil => exact List.prefix_rfl
  | cons page pages ih =>
    rw [pagesRead]
    split
    · exact List.cons_prefix_cons.2 ⟨rfl, List.nil_prefix⟩
    · exact List.cons_prefix_cons.2 ⟨rfl, ih⟩

section Client

variable {σ : Type} [StoreClient σ] {limit : Nat} {fd : Fd} {path : String}
  {pages : List (List Dirent)} {s : σ}

private theorem HandsOut.serves (h : HandsOut limit fd pages s) : ∃ rounds s',
    rounds.map Round.page = pagesRead limit pages ∧ (∀ r ∈ rounds, r.IsComplete) ∧
      Serves limit fd rounds s s' := by
  induction h with
  | nothing hread hclose => exact ⟨[], _, rfl, by simp, .nothing hread hclose⟩
  | @page page stats pages s s₁ s₂ s₃ hpage hread hbatch hinodes hkinds hclose _ ih =>
    have hround : (Round.mk page stats).IsComplete := ⟨hinodes, hkinds⟩
    by_cases hshort : page.length < limit
    · refine ⟨[⟨page, stats⟩], s₃, ?_, by simpa using hround,
        .short hpage hread hbatch hshort hclose⟩
      rw [pagesRead, if_pos hshort]
      rfl
    · obtain ⟨rounds, s', hrounds, hcomplete, hserves⟩ := ih
      refine ⟨⟨page, stats⟩ :: rounds, s', ?_, List.forall_mem_cons.2 ⟨hround, hcomplete⟩,
        .full hpage hread hbatch (Nat.not_lt.1 hshort) hserves⟩
      rw [pagesRead, if_neg hshort, List.map_cons, hrounds]

theorem HandsOut.ne_nil (h : HandsOut limit fd pages s) : ∀ page ∈ pages, page ≠ [] := by
  induction h with
  | nothing => simp
  | page hpage _ _ _ _ _ _ ih => exact List.forall_mem_cons.2 ⟨hpage, ih⟩

end Client

private theorem Path.join_injective (path : String) : Function.Injective (Path.join path) := by
  intro name name' h
  unfold Path.join at h
  dsimp only at h
  split at h
  all_goals
    apply String.toList_inj.1
    have hchars := congrArg String.toList h
    simp only [String.toList_append] at hchars
    exact List.append_cancel_left hchars

namespace Listing

def toldName (page : List Dirent) (d : Dirent) : String := (nameOf? page d.ino).getD d.name

variable {page : List Dirent} {d : Dirent} {r : Round}

private theorem nameOf?_of_mem (h : d ∈ page) :
    nameOf? page d.ino = some (toldName page d) ∧
      ∃ d' ∈ page, d'.ino = d.ino ∧ toldName page d = d'.name := by
  cases hfind : page.reverse.find? (·.ino = d.ino) with
  | none =>
    have hne := List.find?_eq_none.1 hfind d (List.mem_reverse.2 h)
    exact absurd (by simp) hne
  | some d' =>
    have hname : nameOf? page d.ino = some d'.name := by rw [nameOf?, hfind, Option.map_some]
    have hmem := List.mem_reverse.1 (List.mem_of_find?_eq_some hfind)
    have hino : d'.ino = d.ino := by simpa using List.find?_some hfind
    rw [toldName, hname, Option.getD_some]
    exact ⟨rfl, d', hmem, hino, rfl⟩

/-- The entries of a page keep their names exactly if they share no inode. -/
theorem toldName_eq_name_iff (hnames : (page.map Dirent.name).Nodup) :
    (∀ d ∈ page, toldName page d = d.name) ↔ (page.map (·.ino)).Nodup := by
  constructor
  · intro htold
    refine List.Nodup.map_on (fun d hd d' hd' hino => ?_) (List.Nodup.of_map _ hnames)
    apply List.inj_on_of_nodup_map hnames hd hd'
    have hsame : nameOf? page d.ino = nameOf? page d'.ino := by rw [hino]
    rw [(nameOf?_of_mem hd).1, (nameOf?_of_mem hd').1, Option.some.injEq, htold d hd,
      htold d' hd'] at hsame
    exact hsame
  · intro hinodes d hd
    obtain ⟨-, d', hd', hino, htold⟩ := nameOf?_of_mem hd
    rw [htold, List.inj_on_of_nodup_map hinodes hd' hd hino]

/-- The paths under which a listing tells about the entries of a page. -/
def toldPaths (path : String) (page : List Dirent) : List String :=
  page.map fun d => Path.join path (toldName page d)

private theorem path_classify (l : Listing) (hr : r.IsComplete) :
    (l.classify r.page r.stats).map Status.path = toldPaths l.path r.page := by
  have hresult : ∀ stat ∈ r.stats, (do
        let name ← nameOf? r.page stat.ino
        Status.ofStat? (Path.join l.path name) stat l.identity l.blockSize).map Status.path =
      (nameOf? r.page stat.ino).map (Path.join l.path) := by
    intro stat hstat
    cases nameOf? r.page stat.ino with
    | none => rfl
    | some name =>
      obtain ⟨status, hstatus⟩ := Status.exists_ofStat? (hr.kinds stat hstat)
        (Path.join l.path name) l.identity l.blockSize
      rw [Option.bind_eq_bind, Option.bind_some, hstatus, Option.map_some, Option.map_some,
        Status.path_of_ofStat? hstatus]
  have htold : ∀ d ∈ r.page, (nameOf? r.page d.ino).map (Path.join l.path) =
      some (Path.join l.path (toldName r.page d)) := by
    intro d hd
    rw [(nameOf?_of_mem hd).1, Option.map_some]
  calc (l.classify r.page r.stats).map Status.path
      = r.stats.filterMap fun stat => (nameOf? r.page stat.ino).map (Path.join l.path) := by
        rw [classify, List.map_filterMap, List.filterMap_congr hresult]
    _ = (r.stats.map (·.ino)).filterMap fun ino => (nameOf? r.page ino).map (Path.join l.path) := by
        rw [List.filterMap_map]
        rfl
    _ = r.page.filterMap fun d => (nameOf? r.page d.ino).map (Path.join l.path) := by
        rw [hr.inodes, List.filterMap_map]
        rfl
    _ = toldPaths l.path r.page := by
        rw [List.filterMap_congr htold, List.filterMap_eq_map', toldPaths]

theorem toldPaths_eq_iff (path : String) (hnames : (page.map Dirent.name).Nodup) :
    toldPaths path page = page.map (fun d => Path.join path d.name) ↔
      (page.map (·.ino)).Nodup := by
  rw [toldPaths, List.map_inj_left, ← toldName_eq_name_iff hnames]
  simp only [(Path.join_injective path).eq_iff]

private theorem path_told (l : Listing) {rounds : List Round}
    (hrounds : ∀ r ∈ rounds, r.IsComplete) :
    (l.told rounds).map Status.path = (rounds.map Round.page).flatMap (toldPaths l.path) := by
  rw [told, List.map_flatMap, List.flatMap_map]
  apply List.flatMap_congr
  intro r hr
  exact l.path_classify (hrounds r hr)

private theorem name_of_mem_told {l : Listing} {rounds : List Round} {status : Status}
    (h : status ∈ l.told rounds) : status.name = Path.fileName status.path := by
  obtain ⟨r, -, hstatus⟩ := List.mem_flatMap.1 h
  obtain ⟨stat, -, hresult⟩ := List.mem_filterMap.1 hstatus
  obtain ⟨name, -, htold⟩ := Option.bind_eq_some_iff.1 hresult
  rw [Status.name_of_ofStat? htold, Status.path_of_ofStat? htold]

end Listing

theorem flatMap_eq_flatMap_iff {α β : Type} {f g : α → List β} {xs : List α}
    (hlength : ∀ x ∈ xs, (f x).length = (g x).length) :
    xs.flatMap f = xs.flatMap g ↔ ∀ x ∈ xs, f x = g x := by
  induction xs with
  | nil => simp
  | cons x xs ih =>
    obtain ⟨hx, hxs⟩ := List.forall_mem_cons.1 hlength
    rw [List.flatMap_cons, List.flatMap_cons, List.forall_mem_cons, ← ih hxs]
    constructor
    · exact fun h => List.append_inj h hx
    · rintro ⟨hfirst, hrest⟩
      rw [hfirst, hrest]

private theorem eq_of_flatten_length {α : Type} {front pages : List (List α)}
    (hfront : front <+: pages) (hne : ∀ page ∈ pages, page ≠ [])
    (hlength : front.flatten.length = pages.flatten.length) :
    front = pages := by
  obtain ⟨rest, rfl⟩ := hfront
  cases rest with
  | nil => rw [List.append_nil]
  | cons page rest =>
    have hpage := List.length_pos_of_ne_nil (hne page (by simp))
    rw [List.flatten_append, List.flatten_cons, List.length_append, List.length_append] at hlength
    omega

open Listing in
theorem toldPaths_pagesRead_eq_iff {limit : Nat} {pages : List (List Dirent)} (path : String)
    (hne : ∀ page ∈ pages, page ≠ []) (hnames : (pages.flatten.map Dirent.name).Nodup) :
    (pagesRead limit pages).flatMap (toldPaths path) =
        pages.flatten.map (fun d => Path.join path d.name) ↔
      pagesRead limit pages = pages ∧ ∀ page ∈ pages, (page.map (·.ino)).Nodup := by
  have hpage : ∀ page ∈ pages, (page.map Dirent.name).Nodup := fun page hmem =>
    hnames.sublist ((List.sublist_flatten_of_mem hmem).map _)
  have hall : pages.flatMap (toldPaths path) =
        pages.flatten.map (fun d => Path.join path d.name) ↔
      ∀ page ∈ pages, (page.map (·.ino)).Nodup := by
    rw [List.map_flatten, ← List.flatMap_def,
      flatMap_eq_flatMap_iff fun page _ => by rw [toldPaths, List.length_map, List.length_map]]
    exact forall₂_congr fun page hmem => toldPaths_eq_iff path (hpage page hmem)
  constructor
  · intro heq
    -- No entry is missing, so that no page was left unread.
    have hread : pagesRead limit pages = pages := by
      apply eq_of_flatten_length (pagesRead_isPrefix limit pages) hne
      have hlength := congrArg List.length heq
      rw [List.length_map] at hlength
      rw [← hlength]
      simp [toldPaths, List.length_flatMap, List.length_flatten]
    rw [hread] at heq
    exact ⟨hread, hall.1 heq⟩
  · rintro ⟨hread, hinodes⟩
    rw [hread]
    exact hall.2 hinodes

open Listing in
/-- What the list of a directory tells about entries of different names. Every entry is told about
under its own path exactly if the entries of no page share an inode, and no page but the last is
short. -/
theorem paths_of_handsOut {σ : Type} [StoreClient σ] {s : σ} {path : String} {batchSize : Nat}
    {pages : List (List Dirent)} {steps : Nat}
    (h : HandsOutAt (max batchSize 1) path pages s)
    (hnames : (pages.flatten.map Dirent.name).Nodup) (hsteps : 2 * pages.length + 2 ≤ steps)
    (identity : Identity) (blockSize : UInt64) :
    ∃ statuses s', (Listing.new path batchSize identity blockSize).toList s steps =
        (.ok statuses, s') ∧
      statuses.map Status.path = (pagesRead (max batchSize 1) pages).flatMap (toldPaths path) ∧
      statuses.map Status.name = (statuses.map Status.path).map Path.fileName ∧
      (statuses.map Status.path = pages.flatten.map (fun d => Path.join path d.name) ↔
        pagesRead (max batchSize 1) pages = pages ∧ ∀ page ∈ pages, (page.map (·.ino)).Nodup) := by
  obtain ⟨hattr, hfile, hopen, hpages⟩ := h
  obtain ⟨rounds, s', hrounds, hcomplete, hserves⟩ := hpages.serves
  have hlong : 2 * rounds.length + 2 ≤ steps := by
    have hlength := (pagesRead_isPrefix (max batchSize 1) pages).length_le
    rw [← hrounds, List.length_map] at hlength
    omega
  have hdrain := drain_of_opens (l := .new path batchSize identity blockSize)
    (.directory hattr hfile hopen hserves) rfl rfl hlong
  have hpaths := path_told (.new path batchSize identity blockSize) hcomplete
  rw [hrounds] at hpaths
  generalize htold : (Listing.new path batchSize identity blockSize).told rounds = statuses
    at hdrain hpaths
  refine ⟨statuses, s', ?_, hpaths, ?_, ?_⟩
  · rw [toList, hdrain]
    rfl
  · rw [List.map_map]
    apply List.map_congr_left
    intro status hstatus
    exact name_of_mem_told (htold ▸ hstatus)
  · rw [hpaths]
    exact toldPaths_pagesRead_eq_iff path hpages.ne_nil hnames

/-- A directory whose entries are all files and may share inodes. -/
structure LinkedFiles where
  /-- The entries that were not handed out yet. -/
  entries : List Dirent

namespace LinkedFiles

def refused {α : Type} (s : LinkedFiles) : Except Errno α × LinkedFiles := (.error .eio, s)

instance : StoreClient LinkedFiles where
  openPath s _ _ _ := (.ok ⟨3⟩, s)
  read s _ buffer _ := (.error .eio, buffer, s)
  write s _ _ _ := s.refused
  flush s _ := s.refused
  close s _ := (.ok (), s)
  getAttr s _ := (.ok { mode := Mode.directory }, s)
  mkdirs s _ _ := s.refused
  unlink s _ := s.refused
  rmdir s _ := s.refused
  rename s _ _ := s.refused
  readdir s _ limit := (.ok (s.entries.take limit), ⟨s.entries.drop limit⟩)
  batchGetAttr s _ inodes := (.ok (inodes.map fun ino => { ino, mode := Mode.regular }), s)
  fchmod s _ _ := s.refused
  shutdown s := s
  walkBound s := s.entries.length
  size_read _ _ _ _ := rfl

variable {limit : Nat} {fd : Fd} {entries page : List Dirent} {pages : List (List Dirent)}

theorem handsOut_nil : HandsOut limit fd [] (LinkedFiles.mk []) :=
  .nothing (congrArg (fun page => (Except.ok page, LinkedFiles.mk _)) List.take_nil) rfl

theorem handsOut_cons (hpage : page ≠ []) (htake : entries.take limit = page)
    (hrest : HandsOut limit fd pages (LinkedFiles.mk (entries.drop limit))) :
    HandsOut limit fd (page :: pages) (LinkedFiles.mk entries) := by
  refine .page hpage (congrArg (fun page => (Except.ok page, LinkedFiles.mk _)) htake) rfl ?_ ?_ rfl
    hrest
  · rw [List.map_map]
    exact List.map_id _
  · intro stat hstat
    obtain ⟨ino, -, rfl⟩ := List.mem_map.1 hstat
    exact .inr (show (Mode.type Mode.regular == Mode.regular) = true by decide)

private theorem handsOutAt (path : String)
    (h : ∀ {fd}, HandsOut limit fd pages (LinkedFiles.mk entries)) :
    HandsOutAt limit path pages (LinkedFiles.mk entries) :=
  .directory rfl (by decide) rfl h

end LinkedFiles

/-- The first and the last of three names stand for one file, and come on different pages. -/
theorem paths_of_handsOut_two_pages :
    let a := Dirent.ofName 5 "a" Dirent.regularKind
    let b := Dirent.ofName 6 "b" Dirent.regularKind
    let c := Dirent.ofName 5 "c" Dirent.regularKind
    ∃ statuses s', (Listing.new "/d" 2 (.ofUser "user") 4096).toList (LinkedFiles.mk [a, b, c]) 6 =
        (.ok statuses, s') ∧ statuses.map Status.path = ["/d/a", "/d/b", "/d/c"] := by
  intro a b c
  have h : HandsOutAt (max 2 1) "/d" [[a, b], [c]] (LinkedFiles.mk [a, b, c]) :=
    LinkedFiles.handsOutAt "/d" (LinkedFiles.handsOut_cons (by simp) rfl
      (LinkedFiles.handsOut_cons (by simp) rfl LinkedFiles.handsOut_nil))
  have hnames : [[a, b], [c]].flatten.map Dirent.name = ["a", "b", "c"] := by decide +kernel
  obtain ⟨statuses, s', hlist, -, -, hpaths⟩ :=
    paths_of_handsOut h (hnames ▸ by decide) (Nat.le_refl 6) (.ofUser "user") 4096
  refine ⟨statuses, s', hlist, (hpaths.2 ⟨rfl, by decide +kernel⟩).trans ?_⟩
  decide +kernel

/-- Two names of one page stand for one file: both are told about as the last of them. -/
theorem lost_name_of_shared_inode :
    let a := Dirent.ofName 5 "a" Dirent.regularKind
    let b := Dirent.ofName 5 "b" Dirent.regularKind
    (HandsOutAt 2 "/d" [[a, b]] (LinkedFiles.mk [a, b]) ∧ ([a, b].map Dirent.name) = ["a", "b"]) ∧
      ((Listing.new "/d" 2 (.ofUser "user") 4096).toList (LinkedFiles.mk [a, b]) 4).1.toOption.map
        (·.map Status.path) = some ["/d/b", "/d/b"] := by
  intro a b
  refine ⟨⟨LinkedFiles.handsOutAt "/d" (LinkedFiles.handsOut_cons (by simp) rfl
    LinkedFiles.handsOut_nil), ?_⟩, ?_⟩
  · decide +kernel
  · decide +kernel

end VolumeFs
