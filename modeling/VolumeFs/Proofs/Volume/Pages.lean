import Mathlib.Data.List.Basic
import VolumeFs.Proofs.Store.Descriptors
import VolumeFs.Proofs.Tree.Modes
import VolumeFs.Proofs.Volume.Listing

/-!
# Pages of a directory

What a store in memory gives to a listing: the next children in the order of their names, and the
attributes of all of them, from which the listing makes one result for each child.
-/

namespace VolumeFs

open Memory

namespace Memory.Store

private theorem lt_of_compare_eq_lt {a b : String} (h : compare a b = .lt) : a < b := by
  rw [show compare a b = compareOfLessAndEq a b from rfl] at h
  exact (compareOfLessAndEq_eq_lt (x := a) (y := b)).1 h

section Children

variable {children : Std.TreeMap String Ino} {cursor : Option String}

theorem pairwise_toList (children : Std.TreeMap String Ino) :
    children.toList.Pairwise (·.1 < ·.1) :=
  Std.TreeMap.ordered_keys_toList.imp lt_of_compare_eq_lt

private theorem pairwise_childrenAfter (children : Std.TreeMap String Ino)
    (cursor : Option String) :
    (childrenAfter children cursor).Pairwise (·.1 < ·.1) := by
  unfold childrenAfter
  split
  · exact pairwise_toList children
  · exact (pairwise_toList children).filter _

theorem mem_childrenAfter_iff {child : String × Ino} :
    child ∈ childrenAfter children cursor ↔
      children[child.1]? = some child.2 ∧ ∀ last ∈ cursor, last < child.1 := by
  have hmem : child ∈ children.toList ↔ children[child.1]? = some child.2 :=
    Std.TreeMap.mem_toList_iff_getElem?_eq_some
  unfold childrenAfter
  split
  · simp [hmem]
  · rw [List.mem_filter, hmem]
    simp

theorem getElem?_of_mem_take {limit : Nat} {child : String × Ino}
    (h : child ∈ (childrenAfter children cursor).take limit) : children[child.1]? = some child.2 :=
  (mem_childrenAfter_iff.1 (List.mem_of_mem_take h)).1

theorem childrenAfter_last {page rest : List (String × Ino)} {last : String × Ino}
    (h : childrenAfter children cursor = page ++ rest) (hlast : page.getLast? = some last) :
    childrenAfter children (some last.1) = rest := by
  obtain ⟨front, rfl⟩ := List.getLast?_eq_some_iff.1 hlast
  have hsorted := pairwise_childrenAfter children cursor
  rw [h, List.append_assoc, List.pairwise_append] at hsorted
  obtain ⟨-, hrest, hfront⟩ := hsorted
  have hbehind : ∀ child ∈ children.toList, last.1 < child.1 →
      child ∈ childrenAfter children cursor := by
    intro child hchild hlt
    refine mem_childrenAfter_iff.2 ⟨Std.TreeMap.mem_toList_iff_getElem?_eq_some.1 hchild, ?_⟩
    intro name hname
    have hmem : last ∈ childrenAfter children cursor := by simp [h]
    exact String.lt_trans ((mem_childrenAfter_iff.1 hmem).2 name hname) hlt
  have hfilter : childrenAfter children (some last.1) =
      (childrenAfter children cursor).filter fun c => last.1 < c.1 := by
    unfold childrenAfter at hbehind ⊢
    cases cursor with
    | none => rfl
    | some name =>
      rw [List.filter_filter]
      apply List.filter_congr
      intro child hchild
      by_cases hlt : last.1 < child.1
      · have hmem := (List.mem_filter.1 (hbehind child hchild hlt)).2
        simp only [hlt, decide_true, Bool.true_and]
        exact hmem.symm
      · simp [hlt]
  have hnone : ∀ child ∈ front ++ [last], ¬ last.1 < child.1 := by
    intro child hchild
    rcases List.mem_append.1 hchild with hchild | hchild
    · exact String.lt_asymm (hfront child hchild last (by simp))
    · rw [List.mem_singleton.1 hchild]
      exact String.lt_irrefl _
  rw [hfilter, h, List.filter_append, List.filter_eq_nil_iff.2 (by simpa using hnone),
    List.nil_append, List.filter_eq_self.2]
  intro child hchild
  simpa using (List.pairwise_cons.1 hrest).1 child hchild

variable {limit : Nat} {page : List (String × Ino)}

theorem pairwise_append_page {old : List String} (hsorted : old.Pairwise (· < ·))
    (hbehind : ∀ name ∈ old, ∃ last ∈ cursor, name ≤ last)
    (hpage : (childrenAfter children cursor).take limit = page) :
    (old ++ page.map Prod.fst).Pairwise (· < ·) := by
  subst hpage
  rw [List.pairwise_append, List.pairwise_map]
  refine ⟨hsorted, (pairwise_childrenAfter children cursor).sublist (List.take_sublist _ _), ?_⟩
  intro name hname name' hname'
  obtain ⟨child, hchild, rfl⟩ := List.mem_map.1 hname'
  obtain ⟨last, hlast, hle⟩ := hbehind name hname
  exact Std.lt_of_le_of_lt hle
    ((mem_childrenAfter_iff.1 (List.mem_of_mem_take hchild)).2 last hlast)

/-- A child that is not behind the cursor is on the next page, or still ahead after it. -/
theorem mem_page_or_lt {name : String} {ino : Ino} (hchild : children[name]? = some ino)
    (hahead : ∀ last ∈ cursor, last < name)
    (hpage : (childrenAfter children cursor).take limit = page) :
    (name, ino) ∈ page ∨ limit ≤ page.length ∧ ∀ last ∈ page.getLast?, last.1 < name := by
  have hmem : (name, ino) ∈ childrenAfter children cursor :=
    mem_childrenAfter_iff.2 ⟨hchild, hahead⟩
  rw [← List.take_append_drop limit (childrenAfter children cursor), hpage] at hmem
  rcases List.mem_append.1 hmem with hmem | hmem
  · exact .inl hmem
  · right
    have hlong : limit < (childrenAfter children cursor).length := by
      have hpos := List.length_pos_of_mem hmem
      rw [List.length_drop] at hpos
      omega
    constructor
    · rw [← hpage, List.length_take]
      omega
    · intro last hlast
      have hsorted := pairwise_childrenAfter children cursor
      rw [← List.take_append_drop limit (childrenAfter children cursor), hpage,
        List.pairwise_append] at hsorted
      exact hsorted.2.2 last (List.mem_of_getLast? hlast) (name, ino) hmem
end Children

theorem isFile_stat_of_directory {node : Node} {ino : Ino}
    (h : Mode.type node.mode = Mode.directory) : (node.stat ino).isFile = false := by
  rw [Stat.isFile, show (node.stat ino).mode = node.mode from rfl, h]
  decide

/-- A store that is at work and has no faults for a listing. -/
structure Answers (s : Store) : Prop where
  isUp : s.isShutDown = false
  readdirError : s.faults.readdirError = none
  batchError : s.faults.batchError = none
  batchLimit : s.faults.batchLimit = none
  closeError : s.faults.closeError = none

theorem Answers.of_faults {s : Store} (hup : s.isShutDown = false) (hfaults : s.faults = {}) :
    s.Answers :=
  ⟨hup, by rw [hfaults], by rw [hfaults], by rw [hfaults], by rw [hfaults]⟩

/-- A directory all of whose children can be listed: their names fit into entries, and their
numbers into attributes. -/
structure Listable (t : Tree) (dir : Ino) (children : Std.TreeMap String Ino) : Prop where
  forest : t.Forest
  typed : t.Typed
  numbers : t.nextIno ≤ UInt64.size
  names : ∀ {name : String} {ino : Ino}, children[name]? = some ino →
    name.utf8ByteSize ≤ Dirent.nameCapacity
  children : t.children dir = .ok children

/-- What the calls of a listing have done to a store: so many of each kind, and something else
behind the descriptor of the listing. -/
structure Turned (s s' : Store) (fd : Fd) (behind : Option OpenFile) (opens pages batches : Nat) :
    Prop where
  answers : s'.Answers
  tree : s'.tree = s.tree
  nextFd : s'.nextFd = s.nextFd + Int32.ofNat opens
  opens : s'.calls.opens = s.calls.opens + opens
  readdirs : s'.calls.readdirs = s.calls.readdirs + pages
  batchGetAttrs : s'.calls.batchGetAttrs = s.calls.batchGetAttrs + batches
  openFile? : ∀ other, s'.openFile? other = if other = fd then behind else s.openFile? other

section Calls

variable {s s' s'' : Store} {fd : Fd} {file : OpenFile} {behind behind' : Option OpenFile}
  {t : Tree} {dir : Ino}
  {children : Std.TreeMap String Ino} {page : List (String × Ino)}
  {opens opens' pages pages' batches batches' : Nat}

theorem Turned.openFile?_self (h : Turned s s' fd behind opens pages batches) :
    s'.openFile? fd = behind := (h.openFile? fd).trans (if_pos rfl)

theorem Turned.trans (h : Turned s s' fd behind opens pages batches)
    (h' : Turned s' s'' fd behind' opens' pages' batches') :
    Turned s s'' fd behind' (opens + opens') (pages + pages') (batches + batches') := by
  refine ⟨h'.answers, h'.tree.trans h.tree, ?_, ?_, ?_, ?_, fun other => ?_⟩
  · rw [h'.nextFd, h.nextFd, Int32.ofNat_add, Int32.add_assoc]
  · rw [h'.opens, h.opens, Nat.add_assoc]
  · rw [h'.readdirs, h.readdirs, Nat.add_assoc]
  · rw [h'.batchGetAttrs, h.batchGetAttrs, Nat.add_assoc]
  · rw [h'.openFile?]
    split
    · rfl
    · rename_i hother
      exact (h.openFile? other).trans (if_neg hother)

theorem listable_of_reachable (hs : Reachable s) (hnumbers : s.tree.nextIno ≤ UInt64.size)
    (hchildren : s.tree.children dir = .ok children)
    (hnames : ∀ name ∈ children.keys, name.utf8ByteSize ≤ Dirent.nameCapacity) :
    Listable s.tree dir children := by
  refine ⟨hs.forest, hs.typed, hnumbers, fun {name ino} hname => hnames name ?_, hchildren⟩
  rw [Std.TreeMap.mem_keys, Std.TreeMap.mem_iff_isSome_getElem?, hname]
  rfl

theorem Listable.link? (h : Listable t dir children) {child : String × Ino}
    (hchild : children[child.1]? = some child.2) : t.link? dir child.1 = some child.2 := by
  rw [Tree.link?, Tree.children_eq_ok_iff.1 h.children, Option.bind_some, hchild]

theorem Listable.exists_node (h : Listable t dir children) {child : String × Ino}
    (hchild : children[child.1]? = some child.2) :
    ∃ node, t.nodes[child.2]? = some node ∧ node.IsTyped ∧ child.2 < UInt64.size := by
  obtain ⟨e, he⟩ := h.forest.entryOf_link (h.link? hchild)
  obtain ⟨node, hnode, -⟩ := Option.map_eq_some_iff.1 he
  exact ⟨node, hnode, h.typed _ _ hnode, Nat.lt_of_lt_of_le (h.forest.lt_nextIno he) h.numbers⟩

theorem Listable.exists_node_directory (h : Listable t dir children) :
    ∃ node, t.nodes[dir]? = some node ∧ Mode.type node.mode = Mode.directory := by
  obtain ⟨node, hnode, hchildren⟩ :=
    Option.bind_eq_some_iff.1 (Tree.children_eq_ok_iff.1 h.children)
  refine ⟨node, hnode, ?_⟩
  rcases h.typed dir node hnode with htype | ⟨-, hfile⟩
  · exact htype
  · obtain ⟨body, mode, atime, mtime, ctime⟩ := node
    cases body with
    | directory => cases hfile
    | file => cases hchildren

theorem Listable.eq_of_ino_eq (h : Listable t dir children) {child child' : String × Ino}
    (hchild : children[child.1]? = some child.2) (hchild' : children[child'.1]? = some child'.2)
    (hino : child.2 = child'.2) : child = child' := by
  have hlink' := h.link? hchild'
  rw [← hino] at hlink'
  exact Prod.ext (h.forest.link_unique (h.link? hchild) hlink').2 hino

theorem Listable.name_direntOf (h : Listable t dir children) {child : String × Ino}
    (hchild : children[child.1]? = some child.2) : (direntOf t child).name = child.1 :=
  Dirent.name_ofName _ _ _ (h.names hchild)

theorem Listable.openPath (h : Listable s.tree dir children) (hs : s.Answers) {path : String}
    (hlookup : s.tree.lookup path = .ok dir) (mode : UInt32) :
    ∃ s', s.openPath path .readOnly mode = (.ok ⟨s.nextFd.toInt⟩, s') ∧
      Turned s s' ⟨s.nextFd.toInt⟩ (some { ino := dir, flags := .readOnly }) 1 0 0 := by
  obtain ⟨node, hnode, -⟩ := h.exists_node_directory
  have hfree : OpenFlags.readOnly.contains (.create ||| .exclusive) = false := by decide
  have hreading : OpenFlags.readOnly.isWritable = false := by decide
  simp only [Store.openPath, hs.isUp, hlookup, hnode, hfree, hreading, Bool.and_false, openNode,
    Bool.false_eq_true, if_false]
  exact ⟨_, rfl, ⟨rfl, hs.readdirError, hs.batchError, hs.batchLimit, hs.closeError⟩, rfl, rfl,
    rfl, rfl, rfl, openFile?_of_insert rfl⟩

/-- A page holds the next children, and the cursor moves behind them. -/
theorem Listable.readdir (h : Listable s.tree file.ino children) (hs : s.Answers)
    (hfile : s.openFile? fd = some file) (limit : Nat) :
    ∃ s', s.readdir fd limit =
        (.ok (((childrenAfter children file.cursor).take limit).map (direntOf s.tree)), s') ∧
      Turned s s' fd (some { file with
        cursor := (((childrenAfter children file.cursor).take limit).getLast?.map Prod.fst).or
          file.cursor }) 0 1 0 := by
  have hmem : ∀ child ∈ (childrenAfter children file.cursor).take limit,
      children[child.1]? = some child.2 := fun _ => getElem?_of_mem_take
  generalize hpage : (childrenAfter children file.cursor).take limit = page at hmem
  have hdecoded : transferred Dirent.decodeAll ((page.map (direntOf s.tree)).flatMap Dirent.encode)
      (page.map (direntOf s.tree)).length = .ok (page.map (direntOf s.tree)) := by
    rw [transferred, Dirent.decodeAll_flatMap_encode]
    intro d hd
    obtain ⟨child, -, rfl⟩ := List.mem_map.1 hd
    exact Dirent.nameLength_ofName_le _ _ _
  have hnext : s.nextFd = s.nextFd + Int32.ofNat 0 := (Int32.add_zero _).symm
  have hopen := hfile
  simp only [openFile?] at hopen
  simp only [Store.readdir, hs.isUp, hs.readdirError, openFile?, hopen, h.children, hpage,
    hdecoded, List.getLast?_map]
  refine ⟨_, rfl, ⟨rfl, hs.readdirError, hs.batchError, hs.batchLimit, hs.closeError⟩, rfl, hnext,
    rfl, rfl, rfl, fun other => ?_⟩
  cases hlast : page.getLast? with
  | none =>
    simp only [Option.map_none, Option.none_or]
    split
    · rename_i hother
      rw [hother]
      exact hfile
    · rfl
  | some last =>
    have hname := h.name_direntOf (hmem last (List.mem_of_getLast? hlast))
    simp only [Option.map_some, Option.some_or, hname]
    rw [openFile?_of_modify (s := s) rfl, hfile]
    rfl

private theorem Listable.batchGetAttr (h : Listable s.tree dir children) (hs : s.Answers)
    (hfile : s.openFile? fd = some file) (hpage : ∀ c ∈ page, children[c.1]? = some c.2) :
    ∃ s', s.batchGetAttr fd ((page.map (direntOf s.tree)).map (·.ino)) =
        (.ok (page.filterMap fun c => s.tree.nodes[c.2]?.map (·.stat c.2)), s') ∧
      Turned s s' fd (some file) 0 0 1 := by
  have hfound : ((page.map (direntOf s.tree)).map (·.ino)).filterMap
      (fun ino => s.tree.nodes[ino.toNat]?.map fun node => node.stat ino.toNat) =
        page.filterMap fun c => s.tree.nodes[c.2]?.map (·.stat c.2) := by
    rw [List.map_map, List.filterMap_map]
    apply List.filterMap_congr
    intro c hc
    obtain ⟨-, -, -, hlt⟩ := h.exists_node (hpage c hc)
    have hino : (UInt64.ofNat c.2).toNat = c.2 := Nat.mod_eq_of_lt hlt
    simp only [Function.comp_apply, direntOf, Dirent.ofName, hino]
  refine ⟨{ s with calls.batchGetAttrs := s.calls.batchGetAttrs + 1 }, ?_,
    ⟨hs.isUp, hs.readdirError, hs.batchError, hs.batchLimit, hs.closeError⟩, rfl,
    (Int32.add_zero _).symm, rfl, rfl, rfl, fun other => ?_⟩
  · simp only [openFile?] at hfile
    simp only [Store.batchGetAttr, hs.isUp, openFile?, hfile, hs.batchError, hs.batchLimit, hfound,
      transferred, Stat.decodeAll_flatMap_encode]
    rfl
  · split
    · rename_i hother
      rw [hother]
      exact hfile
    · rfl

theorem Listable.fetch (h : Listable s.tree file.ino children) (hs : s.Answers)
    (hfile : s.openFile? fd = some file) {limit : Nat}
    (hpage : (childrenAfter children file.cursor).take limit = page) :
    ∃ s₁ s₂, s.readdir fd limit = (.ok (page.map (direntOf s.tree)), s₁) ∧
      s₁.batchGetAttr fd ((page.map (direntOf s.tree)).map (·.ino)) =
        (.ok (page.filterMap fun c => s.tree.nodes[c.2]?.map (·.stat c.2)), s₂) ∧
      Turned s s₂ fd
        (some { file with cursor := (page.getLast?.map Prod.fst).or file.cursor }) 0 1 1 := by
  obtain ⟨s₁, hread, hturned₁⟩ := h.readdir hs hfile limit
  rw [hpage] at hread hturned₁
  have hmem : ∀ c ∈ page, children[c.1]? = some c.2 := hpage ▸ fun _ => getElem?_of_mem_take
  have h₁ : Listable s₁.tree file.ino children := hturned₁.tree ▸ h
  obtain ⟨s₂, hbatch, hturned₂⟩ := h₁.batchGetAttr hturned₁.answers hturned₁.openFile?_self hmem
  rw [hturned₁.tree] at hbatch
  exact ⟨s₁, s₂, hread, hbatch, hturned₁.trans hturned₂⟩

theorem Answers.close (hs : s.Answers) (hfile : s.openFile? fd = some file) :
    ∃ s', s.close fd = (.ok (), s') ∧ Turned s s' fd none 0 0 0 := by
  refine ⟨{ s with
    openFiles := s.openFiles.erase fd.number
    calls.closes := s.calls.closes + 1 }, ?_,
    ⟨hs.isUp, hs.readdirError, hs.batchError, hs.batchLimit, hs.closeError⟩, rfl,
    (Int32.add_zero _).symm, rfl, rfl, rfl, openFile?_of_erase rfl⟩
  simp only [openFile?] at hfile
  simp only [Store.close, openFile?, hfile, hs.closeError]

end Calls

end Memory.Store

theorem Status.name_of_ofStat? {path : String} {stat : Stat} {identity : Identity}
    {blockSize : UInt64} {status : Status}
    (h : ofStat? path stat identity blockSize = some status) :
    status.name = Path.fileName path := by
  unfold ofStat? at h
  split at h
  · cases h
    rfl
  · split at h
    · cases h
      rfl
    · cases h

theorem Status.exists_ofStat? {stat : Stat} (h : stat.isDirectory = true ∨ stat.isFile = true)
    (path : String) (identity : Identity) (blockSize : UInt64) :
    ∃ status, ofStat? path stat identity blockSize = some status := by
  unfold ofStat?
  by_cases hdirectory : stat.isDirectory = true
  · exact ⟨_, if_pos hdirectory⟩
  · exact ⟨_, (if_neg hdirectory).trans (if_pos (h.resolve_left hdirectory))⟩

namespace Listing

open Memory.Store

variable {t : Tree} {dir : Ino} {children : Std.TreeMap String Ino} {page : List (String × Ino)}

def statusOf? (l : Listing) (t : Tree) (child : String × Ino) : Option Status :=
  t.nodes[child.2]?.bind fun node =>
    Status.ofStat? (Path.join l.path child.1) (node.stat child.2) l.identity l.blockSize

theorem nameOf?_direntOf (h : Listable t dir children)
    (hpage : ∀ c ∈ page, children[c.1]? = some c.2) {child : String × Ino} (hchild : child ∈ page) :
    nameOf? (page.map (direntOf t)) (.ofNat child.2) = some child.1 := by
  have hnumber {c : String × Ino} (hc : c ∈ page) : (UInt64.ofNat c.2).toNat = c.2 := by
    obtain ⟨-, -, -, hlt⟩ := h.exists_node (hpage c hc)
    exact Nat.mod_eq_of_lt hlt
  have hsome : ((page.map (direntOf t)).reverse.find? (·.ino = .ofNat child.2)).isSome := by
    rw [List.find?_isSome]
    exact ⟨direntOf t child, List.mem_reverse.2 (List.mem_map.2 ⟨child, hchild, rfl⟩),
      decide_eq_true rfl⟩
  obtain ⟨d, hd⟩ := Option.isSome_iff_exists.1 hsome
  obtain ⟨c, hc, rfl⟩ := List.mem_map.1 (List.mem_reverse.1 (List.mem_of_find?_eq_some hd))
  have hino : (direntOf t c).ino = .ofNat child.2 := by simpa using List.find?_some hd
  replace hino : UInt64.ofNat c.2 = .ofNat child.2 := hino
  have hsame : c = child := by
    apply h.eq_of_ino_eq (hpage c hc) (hpage child hchild)
    rw [← hnumber hc, hino, hnumber hchild]
  rw [nameOf?, hd, hsame, Option.map_some, h.name_direntOf (hpage child hchild)]

theorem classify_direntOf (l : Listing) (h : Listable t dir children)
    (hpage : ∀ c ∈ page, children[c.1]? = some c.2) :
    l.classify (page.map (direntOf t))
        (page.filterMap fun c => t.nodes[c.2]?.map (·.stat c.2)) =
      page.filterMap (l.statusOf? t) := by
  rw [classify, List.filterMap_filterMap]
  apply List.filterMap_congr
  intro c hc
  obtain ⟨node, hnode, -, -⟩ := h.exists_node (hpage c hc)
  have hino : (node.stat c.2).ino = .ofNat c.2 := rfl
  simp only [hnode, Option.map_some, Option.bind_some, statusOf?, hino]
  rw [nameOf?_direntOf h hpage hc]
  rfl

theorem exists_statusOf? (l : Listing) (h : Listable t dir children) {child : String × Ino}
    (hchild : children[child.1]? = some child.2) : ∃ status, l.statusOf? t child = some status ∧
      status.path = Path.join l.path child.1 ∧ status.name = child.1 := by
  obtain ⟨node, hnode, htyped, -⟩ := h.exists_node hchild
  have hmode : (node.stat child.2).mode = node.mode := rfl
  have hkind : (node.stat child.2).isDirectory = true ∨ (node.stat child.2).isFile = true := by
    rcases htyped with htype | ⟨htype, -⟩
    · left
      rw [Stat.isDirectory, hmode, htype]
      decide
    · right
      rw [Stat.isFile, hmode, htype]
      decide
  obtain ⟨status, hstatus⟩ := Status.exists_ofStat? hkind (Path.join l.path child.1) l.identity
    l.blockSize
  refine ⟨status, ?_, Status.path_of_ofStat? hstatus, ?_⟩
  · rw [statusOf?, hnode, Option.bind_some, hstatus]
  · rw [Status.name_of_ofStat? hstatus]
    exact Path.fileName_join l.path (h.forest.isEntryName (h.link? hchild)).2

theorem map_name_filterMap_statusOf? (l : Listing) (h : Listable t dir children)
    (hpage : ∀ c ∈ page, children[c.1]? = some c.2) :
    (page.filterMap (l.statusOf? t)).map Status.name = page.map Prod.fst := by
  have hname : ∀ c ∈ page, (l.statusOf? t c).map Status.name = some c.1 := by
    intro c hc
    obtain ⟨status, hstatus, -, hname⟩ := l.exists_statusOf? h (hpage c hc)
    rw [hstatus, Option.map_some, hname]
  rw [List.map_filterMap, List.filterMap_congr hname, List.filterMap_eq_map']

section Steps

variable {σ : Type} [StoreClient σ] {l l' : Listing} {s s' s'' : σ} {handle : Handle} {fd : Fd}
  {stat : Stat} {steps : Nat} {results : List Status}

theorem step_of_file (hstate : l.state = .idle)
    (hattr : StoreClient.getAttr s l.path = (.ok stat, s')) (hfile : stat.isFile = true) :
    l.step s = (none, { l with state := .done }, s') := by
  simp only [step, hstate, start, hattr, hfile, if_true]

theorem step_of_directory (hstate : l.state = .idle)
    (hattr : StoreClient.getAttr s l.path = (.ok stat, s')) (hfile : stat.isFile = false)
    (hopen : StoreClient.openPath s' l.path .readOnly openMode = (.ok fd, s'')) :
    l.step s = (none, { l with state := .awaitingBatch ⟨fd, l.path⟩ }, s'') := by
  simp only [step, hstate, start, hattr, hfile, Bool.false_eq_true, if_false, Handle.openPath,
    hopen]

theorem step_of_page {entries : List Dirent} (hstate : l.state = .awaitingBatch handle)
    (hread : StoreClient.readdir s handle.fd l.batchSize = (.ok entries, s'))
    (hentries : entries ≠ []) :
    l.step s = (none, { l with state := .resolving handle entries }, s') := by
  cases entries with
  | nil => exact absurd rfl hentries
  | cons d entries => simp only [step, hstate, hread]

theorem step_of_no_page (hstate : l.state = .awaitingBatch handle)
    (hread : StoreClient.readdir s handle.fd l.batchSize = (.ok [], s'))
    (hclose : StoreClient.close s' handle.fd = (.ok (), s'')) :
    l.step s = (none, { l with state := .done }, s'') := by
  simp only [step, hstate, hread, finish, Handle.close, hclose]

section Batch

variable {entries : List Dirent} {stats : List Stat}
  (hstate : l.state = .resolving handle entries)
  (hbatch : StoreClient.batchGetAttr s handle.fd (entries.map (·.ino)) = (.ok stats, s'))
include hstate hbatch

theorem step_of_full_batch (hfull : l.batchSize ≤ entries.length) :
    l.step s = (none, { l with
      ready := l.ready ++ l.classify entries stats
      state := .awaitingBatch handle }, s') := by
  simp only [step, hstate, hbatch, if_neg (Nat.not_lt.2 hfull)]

theorem step_of_short_batch (hshort : entries.length < l.batchSize)
    (hclose : StoreClient.close s' handle.fd = (.ok (), s'')) :
    l.step s = (none, { l with
      ready := l.ready ++ l.classify entries stats
      state := .done }, s'') := by
  simp only [step, hstate, hbatch, if_pos hshort, finish, Handle.close, hclose]

end Batch

section DirectoryBatch

variable (h : Listable t dir children) (hpage : ∀ c ∈ page, children[c.1]? = some c.2)
  (hstate : l.state = .resolving handle (page.map (direntOf t)))
  (hbatch : StoreClient.batchGetAttr s handle.fd ((page.map (direntOf t)).map (·.ino)) =
    (.ok (page.filterMap fun c => t.nodes[c.2]?.map (·.stat c.2)), s'))
include h hpage hstate hbatch

theorem step_of_full (hfull : l.batchSize ≤ page.length) :
    l.step s = (none, { l with
      ready := l.ready ++ page.filterMap (l.statusOf? t)
      state := .awaitingBatch handle }, s') := by
  rw [step_of_full_batch hstate hbatch (by rwa [List.length_map]), l.classify_direntOf h hpage]

theorem step_of_short (hshort : page.length < l.batchSize)
    (hclose : StoreClient.close s' handle.fd = (.ok (), s'')) :
    l.step s = (none, { l with
      ready := l.ready ++ page.filterMap (l.statusOf? t)
      state := .done }, s'') := by
  rw [step_of_short_batch hstate hbatch (by rwa [List.length_map]) hclose,
    l.classify_direntOf h hpage]

end DirectoryBatch

theorem step_of_refused {code : Errno} (hstate : l.state = .awaitingBatch handle)
    (hread : StoreClient.readdir s handle.fd l.batchSize = (.error code, s')) :
    ∃ e l' s'', l.step s = (some e, l', s'') := by
  simp only [step, hstate, hread, fail, Handle.close]
  split
  · exact ⟨_, _, _, rfl⟩
  · exact ⟨_, _, _, rfl⟩

theorem next_of_ready {status : Status} {ready : List Status} (hready : l.ready = status :: ready) :
    l.next s steps = (.item status, { l with ready }, s) := by
  cases steps <;> simp only [next, hready]

theorem next_of_final (hready : l.ready = []) (hfinal : l.state.isFinal = true) :
    l.next s steps = (.finished, l, s) := by
  cases steps <;> simp only [next, hready, hfinal, if_true]

theorem next_of_step (hready : l.ready = []) (hfinal : l.state.isFinal = false)
    (hstep : l.step s = (none, l', s')) : l.next s (steps + 1) = l'.next s' steps := by
  simp only [next, hready, hfinal, Bool.false_eq_true, if_false, hstep]

theorem next_of_failure {e : VolumeError} (hready : l.ready = []) (hfinal : l.state.isFinal = false)
    (hstep : l.step s = (some e, l', s')) : l.next s (steps + 1) = (.failed e, l'.giveUp, s') := by
  simp only [next, hready, hfinal, Bool.false_eq_true, if_false, hstep]

theorem drain_of_final (hfinal : l.state.isFinal = true) :
    l.drain s steps results = (.ok (results ++ l.ready), { l with ready := [] }, s) := by
  cases steps <;> simp only [drain, hfinal, if_true]

theorem drain_of_step (hfinal : l.state.isFinal = false)
    (hstep : ({ l with ready := [] }).step s = (none, l', s')) :
    l.drain s (steps + 1) results = l'.drain s' steps (results ++ l.ready) := by
  simp only [drain, hfinal, Bool.false_eq_true, if_false, hstep]

end Steps

end Listing
end VolumeFs
