import VolumeFs.Proofs.Stream.Created
import VolumeFs.Proofs.Store.Namespace
import VolumeFs.Proofs.Volume.Sessions

/-!
# Renames through a volume

A rename moves an entry with all that is below it or changes nothing. It moves the entry exactly
where the store is up, the entry is of the right kind and is not the root, and the new name is free,
in a directory that exists and is not below the entry. Every path is accounted for: those at and
below the new name lead to what the old name led to, those at and below the old name lead nowhere,
and all others lead where they led before.
-/

namespace VolumeFs

namespace Memory

/-- What a node keeps when names change: its bytes, its mode and the times of the last access and
the last modification. -/
def Node.kept (n : Node) : Option ByteArray × UInt32 × Time × Time :=
  (n.bytes?, n.mode, n.atime, n.mtime)

namespace Tree

/-- A directory, or a file, that can get another name. -/
structure Movable (t : Tree) (directory : Bool) (source target : List String) : Prop where
  found : ∃ ino node, t.resolve source = some ino ∧ t.nodes[ino]? = some node ∧
    node.isDirectory = directory
  ne_root : source ≠ []
  free : t.resolve target = none
  parent : ∃ parent, t.resolve target.dropLast = some parent ∧ t.isDirectory parent = true
  notBelow : ¬ source <+: target

/-- All that was at and below one name is at and below another one, and nothing else is new. -/
structure Moved (t t' : Tree) (source target : List String) : Prop where
  arrived : ∀ rest, t'.resolve (target ++ rest) = t.resolve (source ++ rest)
  gone : ∀ rest, t'.resolve (source ++ rest) = none
  elsewhere : ∀ names, ¬ source <+: names → ¬ target <+: names →
    t'.resolve names = t.resolve names
  kept : ∀ ino : Ino, t'.nodes[ino]?.map Node.kept = t.nodes[ino]?.map Node.kept

variable {t t' : Tree} {source target : List String} {now : Time} {directory : Bool}

private theorem Forest.resolve_eq_map (ht : t.Forest) (names : List String) :
    t.resolve names = (t.entryAt? names).map Entry.ino := by
  cases hr : t.resolve names with
  | none => rw [ht.entryAt?_eq_none_iff.2 hr, Option.map_none]
  | some ino =>
    obtain ⟨e, he, hino⟩ := ht.exists_entryAt? hr
    rw [he, Option.map_some, hino]

private theorem Movable.exists_renamed (h : t.Movable directory source target) (now : Time) :
    ∃ t', t.Renamed source target now t' := by
  obtain ⟨⟨ino, -, hsource, -⟩, hroot, hfree, ⟨parent', hp', hdir⟩, hbelow⟩ := h
  rcases List.eq_nil_or_concat source with rfl | ⟨dirs, name, rfl⟩
  · exact absurd rfl hroot
  · rcases List.eq_nil_or_concat target with rfl | ⟨dirs', name', rfl⟩
    · cases hfree
    · simp only [List.concat_eq_append, List.dropLast_concat] at *
      rw [resolve_concat, Option.bind_eq_some_iff] at hsource
      obtain ⟨parent, hp, hlink⟩ := hsource
      rw [resolve_concat_of_eq hp'] at hfree
      refine ⟨_, .moved rfl rfl hp hlink hp' hdir hfree fun hpre => hbelow ?_⟩
      exact hpre.trans (List.prefix_append _ _)

private theorem Renamed.movable (h : t.Renamed source target now t') {ino : Ino} {node : Node}
    (hsource : t.resolve source = some ino) (hnode : t.nodes[ino]? = some node)
    (hkind : node.isDirectory = directory) : t.Movable directory source target := by
  obtain @⟨dirs, dirs', parent, parent', name, name', moved, rfl, rfl, hp, hlink, hp', hdir, hfree,
    hbelow⟩ := h
  have hnone : t.resolve (dirs' ++ [name']) = none := by rw [resolve_concat_of_eq hp', hfree]
  constructor
  · exact ⟨ino, node, hsource, hnode, hkind⟩
  · simp
  · exact hnone
  · exact ⟨parent', by rw [List.dropLast_concat, hp'], hdir⟩
  · intro hpre
    rcases List.prefix_concat_iff.1 hpre with heq | hpre
    · rw [heq, hnone] at hsource
      cases hsource
    · exact hbelow hpre

private theorem Rooted.isDirectory_stat (ht : t.Rooted) {ino : Ino} {node : Node}
    (h : t.nodes[ino]? = some node) : (node.stat ino).isDirectory = node.isDirectory := by
  rw [Stat.isDirectory, show (node.stat ino).mode = node.mode from rfl, ht.type_mode h]
  cases node.isDirectory <;> decide

private theorem Rooted.isFile_stat (ht : t.Rooted) {ino : Ino} {node : Node}
    (h : t.nodes[ino]? = some node) : (node.stat ino).isFile = !node.isDirectory := by
  rw [Stat.isFile, show (node.stat ino).mode = node.mode from rfl, ht.type_mode h]
  cases node.isDirectory <;> decide

private theorem kept_modifyNode {change : Node → Node} (hchange : ∀ n, (change n).kept = n.kept)
    (ino i : Ino) :
    (t.modifyNode ino change).nodes[i]?.map Node.kept = t.nodes[i]?.map Node.kept := by
  rw [getElem?_nodes_modifyNode]
  split
  · rename_i heq
    rw [heq, Option.map_map, show Node.kept ∘ change = Node.kept from funext hchange]
  · rfl

private theorem kept_modifyChildren (n : Node)
    (f : Std.TreeMap String Ino → Std.TreeMap String Ino) :
    (n.modifyChildren f).kept = n.kept := by
  obtain ⟨body, _, _, _, _⟩ := n
  cases body <;> rfl

private theorem kept_of_rename {path path' : String} (h : t.rename path path' now = (.ok (), t'))
    (i : Ino) : t'.nodes[i]?.map Node.kept = t.nodes[i]?.map Node.kept := by
  obtain @⟨-, -, parent, parent', name, name', ino, -⟩ := renamed_of_rename h
  have hsame (n : Node) : { n with ctime := now }.kept = n.kept := rfl
  rw [moveChild, kept_modifyNode hsame, linkChild,
    kept_modifyNode fun n => kept_modifyChildren n _, unlinkChild,
    kept_modifyNode fun n => kept_modifyChildren n _]

private theorem moved_of_rename (ht : t.Forest) {path path' : String}
    (h : t.rename path path' now = (.ok (), t'))
    (hbelow : ¬ components path <+: components path') :
    t.Moved t' (components path) (components path') := by
  obtain ⟨ht', hfree, e, he, hentry⟩ := rename_eq_ok ht h
  -- The new name is not above the old one, because nothing is below a name that is free.
  have habove : ¬ components path' <+: components path := by
    rintro ⟨rest, hrest⟩
    rw [← hrest, entryAt?_append_of_none (ht.entryAt?_eq_none_iff.1 hfree)] at he
    cases he
  constructor
  · intro rest
    rw [ht'.resolve_eq_map, hentry, if_pos (List.prefix_append _ _), List.drop_left,
      ht.resolve_eq_map]
  · intro rest
    rw [ht'.resolve_eq_map, hentry, if_neg, if_pos (List.prefix_append _ _), Option.map_none]
    intro hpre
    rcases List.prefix_or_prefix_of_prefix hpre (List.prefix_append _ _) with h | h
    · exact habove h
    · exact hbelow h
  · intro names hsource htarget
    rw [ht'.resolve_eq_map, hentry, if_neg htarget, if_neg hsource, ht.resolve_eq_map]
  · exact kept_of_rename h

end Tree

namespace Store

theorem getAttr_eq_ok_iff {s : Store} {path : String} {stat : Stat} :
    (s.getAttr path).1 = .ok stat ↔ s.isShutDown = false ∧ ∃ ino node,
      s.tree.resolve (components path) = some ino ∧ s.tree.nodes[ino]? = some node ∧
        node.stat ino = stat := by
  unfold Store.getAttr
  cases hup : s.isShutDown with
  | true => simp
  | false =>
    cases hlookup : s.tree.lookup path with
    | error code =>
      have hnone : ∀ ino, s.tree.resolve (components path) ≠ some ino := by
        intro ino hr
        rw [Tree.lookup_eq_ok_iff.2 hr] at hlookup
        cases hlookup
      simp [hnone]
    | ok ino =>
      rw [Tree.lookup_eq_ok_iff] at hlookup
      cases hnode : s.tree.nodes[ino]? <;> simp [hlookup, hnode]

@[simp] theorem getAttr_snd (s : Store) (path : String) : (s.getAttr path).2 = s := by
  unfold Store.getAttr
  repeat' split
  all_goals rfl

theorem rename_eq_ok_iff {s : Store} {source target : String} :
    (s.rename source target).1 = .ok () ↔ s.isShutDown = false ∧
      ∃ tree, s.tree.rename source target s.clock.now = (.ok (), tree) := by
  unfold Store.rename
  cases hup : s.isShutDown with
  | true => simp
  | false =>
    cases h : s.tree.rename source target s.clock.now with
    | mk answer tree => cases answer <;> simp [h]

end Store
end Memory

open Memory

namespace Volume

section Client

variable {σ : Type} [StoreClient σ] {s : σ} {v : Volume} {client : Client} {session : Session}

theorem holds_eq_of_client (hsession : v.session.client = (.ok client, session)) (path : String)
    (test : Stat → Bool) :
    v.holds s path test = ((match (StoreClient.getAttr s (Path.ofText path)).1 with
      | .ok stat => .ok (test stat)
      | .error code =>
        if code = .enoent then .ok false else .error (.ofErrno code (Path.ofText path))),
      { v with session }, (StoreClient.getAttr s (Path.ofText path)).2) := by
  unfold Volume.holds Volume.stat? Volume.withClient
  rw [hsession]
  dsimp only
  generalize StoreClient.getAttr s (Path.ofText path) = outcome
  obtain ⟨code | stat, s'⟩ := outcome
  · by_cases hcode : code = .enoent <;> simp [hcode]
  · rfl

theorem holds_of_client (hsession : v.session.client = (.ok client, session)) (path : String)
    (test : Stat → Bool) :
    (v.holds s path test).2 = ({ v with session }, (StoreClient.getAttr s (Path.ofText path)).2) ∧
      ((v.holds s path test).1 = .ok true ↔
        ∃ stat, (StoreClient.getAttr s (Path.ofText path)).1 = .ok stat ∧ test stat = true) := by
  rw [holds_eq_of_client hsession]
  refine ⟨rfl, ?_⟩
  cases (StoreClient.getAttr s (Path.ofText path)).1 with
  | error code => by_cases hcode : code = .enoent <;> simp [hcode]
  | ok stat => simp

private theorem rename_of_client (hsession : v.session.client = (.ok client, session))
    (source target : String) :
    (v.rename s source target).2.2 =
        (StoreClient.rename s (Path.ofText source) (Path.ofText target)).2 ∧
      ((v.rename s source target).1 = .ok true ↔
        (StoreClient.rename s (Path.ofText source) (Path.ofText target)).1 = .ok ()) := by
  unfold Volume.rename Volume.withClient
  rw [hsession]
  dsimp only
  generalize StoreClient.rename s (Path.ofText source) (Path.ofText target) = outcome
  obtain ⟨code | done, s'⟩ := outcome
  · dsimp only
    split <;> simp
  · simp

end Client

/-- A rename that answers whether it has moved the entry, and has otherwise changed nothing. -/
structure Renames (s : Store) (directory : Bool) (source target : List String)
    (answer : Except VolumeError Bool) (s' : Store) : Prop where
  moves_iff : answer = .ok true ↔ s.isShutDown = false ∧ s.tree.Movable directory source target
  moved : answer = .ok true → s.tree.Moved s'.tree source target
  unchanged : answer ≠ .ok true → s'.tree = s.tree

variable {s : Store} {v : Volume} {client : Client} {session : Session} {directory : Bool}

private theorem Renames.of_unmoved {source target : List String} {answer : Except VolumeError Bool}
    {s' : Store} (hanswer : answer ≠ .ok true)
    (hmovable : ¬ (s.isShutDown = false ∧ s.tree.Movable directory source target))
    (htree : s'.tree = s.tree) : Renames s directory source target answer s' where
  moves_iff := iff_of_false hanswer hmovable
  moved h := absurd h hanswer
  unchanged _ := htree

private theorem renames_of_test (ht : s.tree.Forest)
    (hsession : v.session.client = (.ok client, session)) (directory : Bool) (test : Stat → Bool)
    (htest : ∀ {ino : Ino} {node}, s.tree.nodes[ino]? = some node →
      (test (node.stat ino) = true ↔ node.isDirectory = directory))
    (source target : String) :
    let outcome : Except VolumeError Bool × Volume × Store :=
      match v.holds s source test with
      | (.ok true, v, s) => v.rename s source target
      | (.ok false, v, s) => (.ok false, v, s)
      | (.error e, v, s) => (.error e, v, s)
    Renames s directory (components (Path.ofText source)) (components (Path.ofText target))
      outcome.1 outcome.2.2 := by
  obtain ⟨hstate, hheld⟩ := holds_of_client (s := s) hsession source test
  simp only [StoreClient.getAttr, Store.getAttr_snd, Store.getAttr_eq_ok_iff] at hstate hheld
  have hneeded (h : s.isShutDown = false ∧ s.tree.Movable directory
      (components (Path.ofText source)) (components (Path.ofText target))) :
      (v.holds s source test).1 = .ok true := by
    obtain ⟨ino, node, hino, hnode, hkind⟩ := h.2.found
    exact hheld.2 ⟨_, ⟨h.1, ino, node, hino, hnode, rfl⟩, (htest hnode).2 hkind⟩
  generalize v.holds s source test = tested at hstate hheld hneeded
  obtain ⟨answer, v', s'⟩ := tested
  cases hstate
  obtain e | _ | _ := answer
  · exact .of_unmoved (by simp) (fun h => by cases hneeded h) rfl
  · exact .of_unmoved (by simp) (fun h => by cases hneeded h) rfl
  · obtain ⟨stat, ⟨hup, ino, node, hino, hnode, rfl⟩, htested⟩ := hheld.1 rfl
    obtain ⟨hstore, hanswer⟩ := rename_of_client (s := s) (v := { v with session })
      (Session.client_of_client hsession) source target
    dsimp only
    rw [hstore]
    rcases Store.tree_rename s (Path.ofText source) (Path.ofText target) with
      ⟨e, hrefused, htree⟩ | ⟨tree, hmoved, hok, htree⟩
    · refine .of_unmoved (fun h => ?_) (fun h => ?_) htree
      · cases hrefused.symm.trans (hanswer.1 h)
      · obtain ⟨tree, hrenamed⟩ := h.2.exists_renamed s.clock.now
        cases hrefused.symm.trans
          (Store.rename_eq_ok_iff.2 ⟨hup, tree, Tree.rename_of_renamed ht hrenamed⟩)
    · have hmovable := (Tree.renamed_of_rename hmoved).movable hino hnode ((htest hnode).1 htested)
      refine ⟨iff_of_true (hanswer.2 hok) ⟨hup, hmovable⟩, fun _ => ?_,
        fun h => absurd (hanswer.2 hok) h⟩
      exact htree ▸ Tree.moved_of_rename ht hmoved hmovable.notBelow

end Volume

open Volume in
/-- Whatever was done to a store, a rename of a directory, or of a file, moves it with all that is
below it or changes nothing. -/
theorem moves_of_rename {clock : Clock} {s : Store} (hs : Follows (.new clock) s) {v : Volume}
    {client : Client} {session : Session} (hsession : v.session.client = (.ok client, session))
    (source target : String) :
    Renames s true (components (Path.ofText source)) (components (Path.ofText target))
        (v.renameDirectory s source target).1 (v.renameDirectory s source target).2.2 ∧
      Renames s false (components (Path.ofText source)) (components (Path.ofText target))
        (v.renameFile s source target).1 (v.renameFile s source target).2.2 := by
  have ht : s.tree.Rooted := (hs.changes (.new clock)).rooted (Tree.rooted_new _)
  constructor
  · have h := renames_of_test ht.toForest hsession true Stat.isDirectory
      (fun hnode => by rw [ht.isDirectory_stat hnode]) source target
    unfold Volume.renameDirectory Volume.isDirectory
    generalize v.holds s source Stat.isDirectory = tested at h ⊢
    obtain ⟨_ | _ | _, _, _⟩ := tested <;> exact h
  · have h := renames_of_test ht.toForest hsession false Stat.isFile
      (fun hnode => by rw [ht.isFile_stat hnode, Bool.not_eq_true']) source target
    unfold Volume.renameFile Volume.isFile
    generalize v.holds s source Stat.isFile = tested at h ⊢
    obtain ⟨_ | _ | _, _, _⟩ := tested <;> exact h

/-- A directory with a file in it, moved into the directory beside it. -/
theorem moves_of_rename_nested :
    ∃ s : Store, Follows (.new {}) s ∧
      (Volume.tiny.renameDirectory s "/a" "/b/c").1 = .ok true ∧
      s.tree.resolve ["a", "f"] = some 3 ∧
      (Volume.tiny.renameDirectory s "/a" "/b/c").2.2.tree.resolve ["b", "c", "f"] = some 3 ∧
      (Volume.tiny.renameDirectory s "/a" "/b/c").2.2.tree.resolve ["a", "f"] = none := by
  let put := (Operation.mkdirs "/a" 0o700).on (.new {})
  let filled := (Operation.openPath "/a/f" .create 0o600).on put
  let made := (Operation.mkdirs "/b" 0o700).on filled
  have hmade : Follows (.new {}) made :=
    ((Follows.refl.step (.mkdirs "/a" 0o700) trivial).step (.openPath "/a/f" .create 0o600)
      trivial).step (.mkdirs "/b" 0o700) trivial
  have hanswer : (Volume.tiny.renameDirectory made "/a" "/b/c").1 = .ok true := by decide +kernel
  have hf : made.tree.resolve ["a", "f"] = some 3 := by decide +kernel
  have ha : components (Path.ofText "/a") = ["a"] := by decide +kernel
  have hc : components (Path.ofText "/b/c") = ["b", "c"] := by decide +kernel
  obtain ⟨hdirectory, -⟩ :=
    moves_of_rename hmade (v := Volume.tiny) (Session.client_of_connected rfl) "/a" "/b/c"
  rw [ha, hc] at hdirectory
  have hmoved := hdirectory.moved hanswer
  exact ⟨made, hmade, hanswer, hf, (hmoved.arrived ["f"]).trans hf, hmoved.gone ["f"]⟩

/-- A store that was shut down moves nothing, not even where the names would allow it. -/
theorem not_moves_of_shutdown :
    let s := ((Store.new {}).mkdirs "/a" 0o755).2.shutdown
    (Follows (.new {}) s ∧ s.faults = {} ∧
        s.tree.Movable true (components (Path.ofText "/a")) (components (Path.ofText "/b"))) ∧
      (Volume.tiny.renameDirectory s "/a" "/b").1 = .error (.store "/a" .eio) := by
  intro s
  have hs : Follows (.new {}) s :=
    (Follows.refl.step (.mkdirs "/a" 0o755) trivial).step .shutdown trivial
  obtain ⟨node, hnode, hdirectory⟩ := (Option.any_eq_true _ _).1
    (show s.tree.nodes[2]?.any Node.isDirectory = true by decide +kernel)
  refine ⟨⟨hs, rfl, ?_⟩, by decide +kernel⟩
  constructor
  · exact ⟨2, node, by decide +kernel, hnode, hdirectory⟩
  · decide +kernel
  · decide +kernel
  · exact ⟨rootIno, by decide +kernel, by decide +kernel⟩
  · decide +kernel

end VolumeFs
