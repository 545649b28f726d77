import VolumeFs.Store.Memory.Tree

/-!
# Links and entries of a tree

A tree of nodes seen from outside: which name leads from which directory to which node, and which
entry stands at the end of a chain of names. Every change of a tree is described by what it does
to the links and to the entries that the nodes make.
-/

namespace VolumeFs.Memory

/-- What stands at the end of a chain of names. -/
structure Entry where
  ino : Ino
  mode : UInt32
  /-- The bytes of a file; a directory has none. -/
  bytes : Option ByteArray

namespace Node

def bytes? (n : Node) : Option ByteArray :=
  match n.body with
  | .directory _ => none
  | .file bytes => some bytes

def children? (n : Node) : Option (Std.TreeMap String Ino) :=
  match n.body with
  | .directory children => some children
  | .file _ => none

def entry (n : Node) (ino : Ino) : Entry := ⟨ino, n.mode, n.bytes?⟩

def IsChildless (n : Node) : Prop := ∀ name : String, n.children?.bind (·[name]?) = none

theorem isChildless_newFile (mode : UInt32) (now : Time) : (newFile mode now).IsChildless :=
  fun _ => rfl

theorem isChildless_newDirectory (mode : UInt32) (now : Time) :
    (newDirectory mode now).IsChildless := by
  intro name
  simp [newDirectory, children?]

end Node

namespace Tree

/-- The node to which a name leads from a directory. -/
def link? (t : Tree) (parent : Ino) (name : String) : Option Ino :=
  (t.nodes[parent]?.bind Node.children?).bind (·[name]?)

def entryOf? (t : Tree) (ino : Ino) : Option Entry := t.nodes[ino]?.map (·.entry ino)

/-- The node to which names lead from another one. -/
def descend (t : Tree) (ino : Ino) (names : List String) : Option Ino := names.foldlM t.link? ino

def resolve (t : Tree) (names : List String) : Option Ino := t.descend rootIno names

/-- The entry to which names lead from the root. -/
def entryAt? (t : Tree) (names : List String) : Option Entry := (t.resolve names).bind t.entryOf?

theorem children_eq_ok_iff {t : Tree} {ino : Ino} {children : Std.TreeMap String Ino} :
    t.children ino = .ok children ↔ t.nodes[ino]?.bind Node.children? = some children := by
  unfold Tree.children Node.children?
  cases h : t.nodes[ino]? with
  | none => simp
  | some node => cases node with | mk body => cases body <;> simp

theorem child_eq_ok_iff {t : Tree} {parent child : Ino} {name : String} :
    t.child parent name = .ok child ↔ t.link? parent name = some child := by
  unfold Tree.child link?
  cases h : t.children parent with
  | error e =>
    have hnone : t.nodes[parent]?.bind Node.children? = none := by
      cases hb : t.nodes[parent]?.bind Node.children? with
      | none => rfl
      | some c => rw [children_eq_ok_iff.2 hb] at h; cases h
    simp [hnone]
  | ok children =>
    rw [children_eq_ok_iff.1 h]
    cases hc : children[name]? <;> simp [hc]

theorem link?_eq_none_of_child_error {t : Tree} {parent : Ino} {name : String} {code : Errno}
    (h : t.child parent name = .error code) : t.link? parent name = none := by
  cases hl : t.link? parent name with
  | none => rfl
  | some child =>
    rw [child_eq_ok_iff.2 hl] at h
    cases h

theorem walk_eq_ok_iff {t : Tree} {ino target : Ino} {names : List String} :
    t.walk ino names = .ok target ↔ t.descend ino names = some target := by
  induction names generalizing ino with
  | nil => simp [Tree.walk, descend]
  | cons name names ih =>
    rw [Tree.walk, descend, List.foldlM_cons]
    cases h : t.child ino name with
    | error e => simp [link?_eq_none_of_child_error h]
    | ok child =>
      rw [child_eq_ok_iff.1 h]
      exact ih

theorem lookup_eq_ok_iff {t : Tree} {path : String} {ino : Ino} :
    t.lookup path = .ok ino ↔ t.resolve (components path) = some ino := walk_eq_ok_iff

/-- A walk that fails has met a name that is missing or a file. -/
theorem eq_of_walk_eq_error {t : Tree} {ino : Ino} {names : List String} {code : Errno}
    (h : t.walk ino names = .error code) : code = .enoent ∨ code = .enotdir := by
  induction names generalizing ino with
  | nil => cases h
  | cons name names ih =>
    rw [Tree.walk] at h
    split at h
    · rename_i hchild
      cases h
      simp only [Tree.child, Tree.children] at hchild
      grind
    · exact ih h

theorem isDirectory_iff {t : Tree} {ino : Ino} :
    t.isDirectory ino = true ↔ ∃ children, t.nodes[ino]?.bind Node.children? = some children := by
  unfold Tree.isDirectory Node.isDirectory Node.children?
  cases h : t.nodes[ino]? with
  | none => simp
  | some node => cases node with | mk body => cases body <;> simp

theorem link?_eq_none_of_not_isDirectory {t : Tree} {ino : Ino} (h : t.isDirectory ino = false)
    (name : String) : t.link? ino name = none := by
  unfold link?
  cases hb : t.nodes[ino]?.bind Node.children? with
  | none => rfl
  | some c => rw [isDirectory_iff.2 ⟨c, hb⟩] at h; cases h

theorem isDirectory_of_link? {t : Tree} {parent child : Ino} {name : String}
    (h : t.link? parent name = some child) : t.isDirectory parent = true := by
  cases hd : t.isDirectory parent with
  | true => rfl
  | false => rw [link?_eq_none_of_not_isDirectory hd] at h; cases h

theorem lookupParent_eq_ok_iff {t : Tree} {path : String} {parent : Ino} {name : String} :
    t.lookupParent path = .ok (parent, name) ↔
      ∃ dirs, components path = dirs ++ [name] ∧ t.resolve dirs = some parent ∧
        t.isDirectory parent = true := by
  unfold Tree.lookupParent
  rcases List.eq_nil_or_concat (components path) with hc | ⟨dirs, last, hc⟩
  · simp [hc]
  · rw [List.concat_eq_append] at hc
    simp only [hc, List.getLast?_append, List.getLast?_singleton, Option.some_or,
      List.dropLast_concat]
    have hinj (d : List String) : dirs ++ [last] = d ++ [name] ↔ dirs = d ∧ last = name := by
      constructor
      · intro h
        have h := List.append_inj' h rfl
        exact ⟨h.1, by simpa using h.2⟩
      · rintro ⟨rfl, rfl⟩
        rfl
    simp only [hinj]
    cases hw : t.walk rootIno dirs with
    | error e =>
      have hnone : t.resolve dirs ≠ some parent := by
        intro hr
        rw [walk_eq_ok_iff.2 hr] at hw
        cases hw
      simp only [reduceCtorEq, false_iff]
      rintro ⟨d, ⟨rfl, -⟩, hr, -⟩
      exact hnone hr
    | ok p =>
      have hr : t.resolve dirs = some p := walk_eq_ok_iff.1 hw
      by_cases hd : t.isDirectory p = true
      · simp only [if_pos hd, Except.ok.injEq, Prod.mk.injEq]
        constructor
        · rintro ⟨rfl, rfl⟩
          exact ⟨dirs, ⟨rfl, rfl⟩, hr, hd⟩
        · rintro ⟨d, ⟨rfl, rfl⟩, hr', -⟩
          rw [hr, Option.some.injEq] at hr'
          exact ⟨hr', rfl⟩
      · simp only [if_neg hd, reduceCtorEq, false_iff]
        rintro ⟨d, ⟨rfl, -⟩, hr', hd'⟩
        rw [hr, Option.some.injEq] at hr'
        exact hd (hr' ▸ hd')

variable {t : Tree} {ino parent : Ino} {name : String} {change : Node → Node}

theorem getElem?_nodes_modifyNode (t : Tree) (ino : Ino) (change : Node → Node) (other : Ino) :
    (t.modifyNode ino change).nodes[other]? =
      if other = ino then t.nodes[ino]?.map change else t.nodes[other]? := by
  rw [modifyNode, Std.TreeMap.getElem?_modify]
  simp only [Std.compare_eq_iff_eq, eq_comm (a := ino)]

theorem entryOf?_modifyNode (t : Tree) (ino : Ino) (change : Node → Node) (other : Ino) :
    (t.modifyNode ino change).entryOf? other =
      if other = ino then t.nodes[ino]?.map (fun n => (change n).entry ino)
      else t.entryOf? other := by
  rw [entryOf?, getElem?_nodes_modifyNode]
  by_cases h : other = ino
  · subst h
    simp [Function.comp_def]
  · simp [h, entryOf?]

theorem entryOf?_modifyNode_of_same (h : ∀ n ino, (change n).entry ino = n.entry ino)
    (other : Ino) : (t.modifyNode ino change).entryOf? other = t.entryOf? other := by
  rw [entryOf?_modifyNode]
  by_cases ho : other = ino
  · subst ho
    simp [entryOf?, h]
  · rw [if_neg ho]

theorem link?_modifyNode_of_same (h : ∀ n, (change n).children? = n.children?) (other : Ino)
    (n : String) : (t.modifyNode ino change).link? other n = t.link? other n := by
  unfold link?
  rw [getElem?_nodes_modifyNode]
  by_cases ho : other = ino
  · subst ho
    cases t.nodes[other]? <;> simp [h]
  · rw [if_neg ho]

theorem link?_modifyNode_withBytes (t : Tree) (ino : Ino) (bytes : ByteArray) (now : Time)
    (other : Ino) (n : String) :
    (t.modifyNode ino (·.withBytes bytes now)).link? other n =
      if other = ino then none else t.link? other n := by
  unfold link?
  rw [getElem?_nodes_modifyNode]
  by_cases ho : other = ino
  · subst ho
    cases t.nodes[other]? <;> simp [Node.withBytes, Node.touch, Node.children?]
  · simp [ho]

theorem entry_modifyChildren (n : Node) (f : Std.TreeMap String Ino → Std.TreeMap String Ino)
    (ino : Ino) : (n.modifyChildren f).entry ino = n.entry ino := by
  cases n with | mk body => cases body <;> rfl

theorem children?_modifyChildren (n : Node)
    (f : Std.TreeMap String Ino → Std.TreeMap String Ino) :
    (n.modifyChildren f).children? = n.children?.map f := by
  cases n with | mk body => cases body <;> rfl

theorem entry_touch (n : Node) (now : Time) (ino : Ino) : (n.touch now).entry ino = n.entry ino :=
  rfl

theorem children?_touch (n : Node) (now : Time) : (n.touch now).children? = n.children? := rfl

theorem link?_unlinkChild (t : Tree) (parent : Ino) (name : String) (other : Ino) (n : String) :
    (t.unlinkChild parent name).link? other n =
      if other = parent ∧ n = name then none else t.link? other n := by
  unfold link? unlinkChild
  rw [getElem?_nodes_modifyNode]
  by_cases ho : other = parent
  · subst ho
    cases hn : t.nodes[other]? with
    | none => simp
    | some node =>
      cases hc : node.children? with
      | none => simp [children?_modifyChildren, hc]
      | some children =>
        simp only [if_true, Option.map_some, Option.bind_some, children?_modifyChildren, hc,
          true_and]
        rw [Std.TreeMap.getElem?_erase]
        simp only [Std.compare_eq_iff_eq, eq_comm (a := name)]
  · simp [ho]

theorem link?_linkChild (t : Tree) (parent : Ino) (name : String) (ino other : Ino) (n : String) :
    (t.linkChild parent name ino).link? other n =
      if (other = parent ∧ n = name) ∧ t.isDirectory parent = true then some ino
      else t.link? other n := by
  unfold link? linkChild
  rw [getElem?_nodes_modifyNode]
  by_cases ho : other = parent
  · subst ho
    cases hn : t.nodes[other]?.bind Node.children? with
    | none =>
      have hd : ¬ t.isDirectory other = true := by
        rw [isDirectory_iff, hn]
        simp
      cases hm : t.nodes[other]? with
      | none => simp [hd]
      | some node =>
        simp only [hm, Option.bind_some] at hn
        simp [hd, children?_modifyChildren, hn]
    | some children =>
      have hd : t.isDirectory other = true := isDirectory_iff.2 ⟨children, hn⟩
      obtain ⟨node, hm, hc⟩ := Option.bind_eq_some_iff.1 hn
      simp only [hm, if_true, Option.map_some, Option.bind_some, children?_modifyChildren, hc,
        true_and, hd, and_true]
      rw [Std.TreeMap.getElem?_insert]
      simp only [Std.compare_eq_iff_eq, eq_comm (a := name)]
  · simp [ho]

theorem entryOf?_unlinkChild (t : Tree) (parent : Ino) (name : String) (other : Ino) :
    (t.unlinkChild parent name).entryOf? other = t.entryOf? other :=
  entryOf?_modifyNode_of_same (fun n ino => entry_modifyChildren n _ ino) other

theorem entryOf?_linkChild (t : Tree) (parent : Ino) (name : String) (ino other : Ino) :
    (t.linkChild parent name ino).entryOf? other = t.entryOf? other :=
  entryOf?_modifyNode_of_same (fun n ino => entry_modifyChildren n _ ino) other

theorem entryOf?_erase (t : Tree) (ino other : Ino) (nextIno : Ino) :
    (Tree.mk (t.nodes.erase ino) nextIno).entryOf? other =
      if other = ino then none else t.entryOf? other := by
  unfold entryOf?
  rw [Std.TreeMap.getElem?_erase]
  simp only [Std.compare_eq_iff_eq, eq_comm (a := ino)]
  by_cases h : other = ino <;> simp [h]

theorem link?_erase (t : Tree) (ino other : Ino) (nextIno : Ino) (n : String) :
    (Tree.mk (t.nodes.erase ino) nextIno).link? other n =
      if other = ino then none else t.link? other n := by
  unfold link?
  rw [Std.TreeMap.getElem?_erase]
  simp only [Std.compare_eq_iff_eq, eq_comm (a := ino)]
  by_cases h : other = ino <;> simp [h]

theorem entryOf?_insert (t : Tree) (ino other : Ino) (node : Node) (nextIno : Ino) :
    (Tree.mk (t.nodes.insert ino node) nextIno).entryOf? other =
      if other = ino then some (node.entry ino) else t.entryOf? other := by
  unfold entryOf?
  rw [Std.TreeMap.getElem?_insert]
  simp only [Std.compare_eq_iff_eq, eq_comm (a := ino)]
  by_cases h : other = ino <;> simp [h]

theorem link?_insert (t : Tree) (ino other : Ino) (node : Node) (nextIno : Ino) (n : String) :
    (Tree.mk (t.nodes.insert ino node) nextIno).link? other n =
      if other = ino then node.children?.bind (·[n]?) else t.link? other n := by
  unfold link?
  rw [Std.TreeMap.getElem?_insert]
  simp only [Std.compare_eq_iff_eq, eq_comm (a := ino)]
  by_cases h : other = ino <;> simp [h]

theorem isDirectory_iff_entryOf? :
    t.isDirectory ino = true ↔ ∃ e, t.entryOf? ino = some e ∧ e.bytes = none := by
  unfold Tree.isDirectory Node.isDirectory entryOf?
  cases t.nodes[ino]? with
  | none => simp
  | some node => cases node with | mk body => cases body <;> simp [Node.entry, Node.bytes?]

theorem isDirectory_congr {t' : Tree} (h : t'.entryOf? ino = t.entryOf? ino) :
    t'.isDirectory ino = t.isDirectory ino := by
  rw [Bool.eq_iff_iff, isDirectory_iff_entryOf?, isDirectory_iff_entryOf?, h]

end Tree
end VolumeFs.Memory
