import VolumeFs.Path.Lemmas
import VolumeFs.Proofs.Tree.Forest
import VolumeFs.Stream.Temporary

/-!
# Paths as chains of names

Which names a store walks along for the paths that a volume hands to it: normal paths, the
temporary paths beside them, and the paths of children, which are not normal where a child has
dots for a name.
-/

namespace VolumeFs.Path

theorem ofNames_of_ne_nil {ns : List Name} (h : ns ≠ []) : ofNames ns = ns.flatMap ('/' :: ·) := by
  cases ns with
  | nil => exact absurd rfl h
  | cons n ns => rfl

theorem components_ofNames {ns : List Name} (h : ∀ n ∈ ns, n ≠ [] ∧ '/' ∉ n) :
    Memory.components (String.ofList (ofNames ns)) = ns.map String.ofList := by
  rw [Memory.components, String.toList_ofList]
  by_cases hns : ns = []
  · rw [hns]
    rfl
  · rw [ofNames_of_ne_nil hns, pieces_flatMap_slash fun n hn => (h n hn).2, List.filter_cons,
      if_neg (by simp), List.filter_eq_self.2]
    intro n hn
    simpa using (h n hn).1

theorem afterScheme?_append {n rest : List Char} (hn : '/' ∉ n) (hrest : ¬ ['/', '/'] <+: rest) :
    afterScheme? (n ++ rest) = afterScheme? rest := by
  induction n with
  | nil => rfl
  | cons c n ih =>
    simp only [List.mem_cons, not_or] at hn
    rw [List.cons_append, ← ih hn.2, afterScheme?]
    -- Two slashes after the colon would not be in the name, so they would begin what follows it.
    intro cs _ hcs
    cases n with
    | nil => exact hrest ⟨cs, hcs.symm⟩
    | cons d n =>
      obtain ⟨rfl, -⟩ := List.cons.inj hcs
      exact hn.2 List.mem_cons_self

private theorem afterScheme?_ofNames {ns : List Name} (h : ∀ n ∈ ns, n ≠ [] ∧ '/' ∉ n) :
    afterScheme? (ofNames ns) = none := by
  by_cases hns : ns = []
  · rw [hns]
    rfl
  · rw [ofNames_of_ne_nil hns]
    clear hns
    induction ns with
    | nil => rfl
    | cons n ns ih =>
      have hrest : ¬ ['/', '/'] <+: ns.flatMap ('/' :: ·) := by
        cases ns with
        | nil => simp
        | cons m ms =>
          obtain ⟨hne, hslash⟩ := h m (by simp)
          cases m with
          | nil => exact absurd rfl hne
          | cons c m =>
            rintro ⟨rest, hr⟩
            simp only [List.flatMap_cons, List.cons_append, List.cons.injEq, true_and] at hr
            exact hslash (hr.1 ▸ List.mem_cons_self)
      rw [List.flatMap_cons, List.cons_append, afterScheme?,
        afterScheme?_append (h n List.mem_cons_self).2 hrest]
      · exact ih fun m hm => h m (List.mem_cons_of_mem _ hm)
      · intro cs hc
        cases hc

private theorem entryNames_ofNames {ns : List Name} (h : ∀ n ∈ ns, n ≠ [] ∧ '/' ∉ n) :
    entryNames (String.ofList (ofNames ns)) = names (ofNames ns) := by
  rw [entryNames, String.toList_ofList, withinVolume, afterScheme?_ofNames h]

theorem isName_of_mem_entryNames {text : String} {n : Name} (h : n ∈ entryNames text) :
    IsName n := isName_of_mem_names h

theorem IsName.ne_nil_and {n : Name} (h : IsName n) : n ≠ [] ∧ '/' ∉ n := ⟨h.1, h.2.2.2⟩

theorem entryNames_ofNames_of_isName {ns : List Name} (h : ∀ n ∈ ns, IsName n) :
    entryNames (String.ofList (ofNames ns)) = ns := by
  rw [entryNames_ofNames fun n hn => (h n hn).ne_nil_and, names_ofNames h]

theorem ofText_ofText (text : String) : ofText (ofText text) = ofText text := by
  rw [ofText, ofText, entryNames_ofNames_of_isName fun _ => isName_of_mem_entryNames]

theorem components_ofText (text : String) :
    Memory.components (ofText text) = (entryNames text).map String.ofList :=
  components_ofNames fun _ hn => (isName_of_mem_entryNames hn).ne_nil_and

theorem exists_parent {text : String} (h : Memory.components (ofText text) ≠ []) :
    ∃ p, parent text = .ok p := by
  rw [components_ofText] at h
  unfold parent
  split
  · rename_i hnames
    exact absurd (by rw [hnames, List.map_nil]) h
  · exact ⟨_, rfl⟩

theorem of_parent_eq_ok {text p : String} (h : parent text = .ok p) :
    ofText p = p ∧ Memory.components p = (Memory.components (ofText text)).dropLast := by
  unfold parent at h
  split at h
  · cases h
  · cases h
    have hnames : ∀ n ∈ (entryNames text).dropLast, IsName n := fun n hn =>
      isName_of_mem_entryNames (List.dropLast_subset _ hn)
    constructor
    · rw [ofText, entryNames_ofNames_of_isName hnames]
    · rw [components_ofNames fun n hn => (hnames n hn).ne_nil_and, components_ofText,
        List.map_dropLast]

theorem ofNames_append_singleton (ns : List Name) (n : Name) :
    ofNames (ns ++ [n]) = (if ns = [] then [] else ofNames ns) ++ '/' :: n := by
  rw [ofNames_of_ne_nil (by simp), List.flatMap_append]
  by_cases hns : ns = []
  · simp [hns]
  · simp [hns, ofNames_of_ne_nil hns]

theorem ofText_eq_root_iff {text : String} : ofText text = "/" ↔ entryNames text = [] := by
  have hroot : "/" = String.ofList (ofNames []) := rfl
  constructor
  · intro h
    have hnames := congrArg Memory.components h
    rw [components_ofText] at hnames
    exact List.map_eq_nil_iff.1 hnames
  · intro h
    rw [ofText, h, hroot]

theorem join_eq_ofNames (directory name : String) :
    join directory name = String.ofList (ofNames (entryNames directory ++ [name.toList])) := by
  rw [ofNames_append_singleton, join]
  by_cases hroot : entryNames directory = []
  · rw [if_pos (ofText_eq_root_iff.2 hroot), if_pos hroot]
    simp
  · rw [if_neg (mt ofText_eq_root_iff.1 hroot), if_neg hroot, ofText]
    simp [String.ext_iff]

theorem join_ofText (directory name : String) :
    join (ofText directory) name = join directory name := by
  rw [join, join, ofText_ofText]

theorem decide_ne_slash {cs : List Char} (h : '/' ∉ cs) : ∀ c ∈ cs, decide (c ≠ '/') = true := by
  intro c hc
  apply decide_eq_true
  intro hslash
  exact h (hslash ▸ hc)

theorem fileName_join (directory : String) {name : String} (h : '/' ∉ name.toList) :
    fileName (join directory name) = name := by
  have hname := decide_ne_slash (mt List.mem_reverse.1 h)
  rw [join_eq_ofNames, ofNames_append_singleton, fileName, String.toList_ofList, lastPiece,
    List.reverse_append, List.reverse_cons, List.append_assoc, List.takeWhile_append_of_pos hname,
    List.singleton_append, List.takeWhile_cons_of_neg (by simp), List.append_nil,
    List.reverse_reverse, String.ofList_toList]

section Join

variable (directory : String) {name : String}

private theorem mem_entryNames_append (hname : Memory.IsEntryName name) :
    ∀ n ∈ entryNames directory ++ [name.toList], n ≠ [] ∧ '/' ∉ n := by
  intro n hn
  rcases List.mem_append.1 hn with hn | hn
  · exact (isName_of_mem_entryNames hn).ne_nil_and
  · obtain rfl := List.mem_singleton.1 hn
    exact ⟨fun h => hname.1 (String.toList_eq_nil_iff.1 h), hname.2⟩

theorem components_join (hname : Memory.IsEntryName name) :
    Memory.components (join directory name) =
      Memory.components (ofText directory) ++ [name] := by
  rw [join_eq_ofNames, components_ofNames (mem_entryNames_append directory hname),
    components_ofText, List.map_append]
  simp

/-- The normal form of the path of a child whose name is two dots leads to the parent. -/
theorem entryNames_join (hname : Memory.IsEntryName name) :
    entryNames (join directory name) = if name = "." then entryNames directory
      else if name = ".." then (entryNames directory).dropLast
      else entryNames directory ++ [name.toList] := by
  have hpieces := pieces_flatMap_slash fun n hn => (mem_entryNames_append directory hname n hn).2
  have hdirectory : (entryNames directory).foldl enter [] =
      (entryNames directory).reverse ++ [] :=
    foldl_enter_of_isName fun _ => isName_of_mem_entryNames
  have hne : name.toList ≠ [] := fun h => hname.1 (String.toList_eq_nil_iff.1 h)
  have hdot : name.toList = ['.'] ↔ name = "." := by
    rw [← String.toList_inj]
    rfl
  have hdots : name.toList = ['.', '.'] ↔ name = ".." := by
    rw [← String.toList_inj]
    rfl
  rw [join_eq_ofNames, entryNames_ofNames (mem_entryNames_append directory hname), names,
    ofNames_of_ne_nil (by simp), hpieces, List.foldl_cons, enter, if_pos (.inl rfl),
    List.foldl_append, hdirectory, List.append_nil, List.foldl_cons, List.foldl_nil, enter]
  simp only [hne, hdot, hdots, false_or]
  split
  · simp
  · split <;> simp

theorem ofText_join (hname : Memory.IsEntryName name) (hdot : name ≠ ".") (hdots : name ≠ "..") :
    ofText (join directory name) = join directory name := by
  rw [ofText, entryNames_join directory hname, if_neg hdot, if_neg hdots, join_eq_ofNames]

theorem components_ofText_join (hname : Memory.IsEntryName name) :
    Memory.components (ofText (join directory name)) =
      if name = "." then Memory.components (ofText directory)
      else if name = ".." then (Memory.components (ofText directory)).dropLast
      else Memory.components (ofText directory) ++ [name] := by
  rw [components_ofText, entryNames_join directory hname, components_ofText]
  split
  · rfl
  · split
    · rw [List.map_dropLast]
    · simp

end Join

private theorem slash_notMem_toDigits (n : Nat) : '/' ∉ Nat.toDigits 16 n := by
  induction n using Nat.strongRecOn with
  | ind n ih =>
    rw [Nat.toDigits_eq_if (by decide)]
    split
    · simp
    · simpa using ih (n / 16) (by omega)

private theorem slash_notMem_identifier (t : Token) : '/' ∉ t.identifier.toList := by
  simp [Token.identifier, Radix.padded, slash_notMem_toDigits]

/-- What a temporary path has more than the path that it belongs to. -/
private def temporaryEnding (t : Token) : Name :=
  ('.' :: t.identifier.toList) ++ ['.', 't', 'm', 'p']

private theorem slash_notMem_temporaryEnding (t : Token) : '/' ∉ temporaryEnding t := by
  simp [temporaryEnding, slash_notMem_identifier]

private theorem isName_append_temporaryEnding (t : Token) {n : Name} (hn : '/' ∉ n) :
    IsName (n ++ temporaryEnding t) := by
  have hsplit : n ++ temporaryEnding t =
      n ++ ('.' :: t.identifier.toList) ++ ['.', 't', 'm'] ++ ['p'] := by simp [temporaryEnding]
  have hlast : (n ++ temporaryEnding t).getLast? = some 'p' := by
    rw [hsplit, List.getLast?_concat]
  refine ⟨?_, ?_, ?_, ?_⟩
  · simp [temporaryEnding]
  · intro h
    rw [h] at hlast
    simp at hlast
  · intro h
    rw [h] at hlast
    simp at hlast
  · rw [List.mem_append, not_or]
    exact ⟨hn, slash_notMem_temporaryEnding t⟩

private theorem temporaryPath_ofText (t : Token) (text : String) :
    t.temporaryPath (ofText text) = String.ofList (ofNames
      ((entryNames text).dropLast ++ [(entryNames text).getLastD [] ++ temporaryEnding t])) := by
  have htext : t.temporaryPath (ofText text) =
      String.ofList (ofNames (entryNames text) ++ temporaryEnding t) := by
    simp [Token.temporaryPath, ofText, temporaryEnding, String.ext_iff]
  rw [htext]
  rcases List.eq_nil_or_concat (entryNames text) with hns | ⟨dirs, last, hns⟩
  · simp [hns, ofNames]
  · rw [List.concat_eq_append] at hns
    rw [hns, List.dropLast_concat, ofNames_append_singleton, ofNames_append_singleton]
    simp

/-- A temporary path stands beside the path that it belongs to, and its directory is the one that
has to be made for it. -/
theorem components_temporaryPath (t : Token) (text : String) :
    ∃ dirs name, Memory.components (t.temporaryPath (ofText text)) = dirs ++ [name] ∧
      (Memory.components (ofText text) = [] ∧ dirs = [] ∨
        ∃ name', name' ≠ name ∧ Memory.components (ofText text) = dirs ++ [name']) ∧
      ∃ parent, Path.parent (t.temporaryPath (ofText text)) = .ok parent ∧
        Memory.components parent = dirs := by
  have hlast : '/' ∉ (entryNames text).getLastD [] := by
    rcases List.eq_nil_or_concat (entryNames text) with hns | ⟨dirs, last, hns⟩
    · simp [hns]
    · rw [List.concat_eq_append] at hns
      have hmem : last ∈ entryNames text := by rw [hns]; simp
      simpa [hns] using (isName_of_mem_entryNames hmem).2.2.2
  have hdirs : ∀ n ∈ (entryNames text).dropLast, IsName n := fun n hn =>
    isName_of_mem_entryNames (List.dropLast_subset _ hn)
  have hnames : ∀ n ∈ (entryNames text).dropLast ++
      [(entryNames text).getLastD [] ++ temporaryEnding t], IsName n := by
    intro n hn
    rcases List.mem_append.1 hn with hn | hn
    · exact hdirs n hn
    · rw [List.mem_singleton.1 hn]
      exact isName_append_temporaryEnding t hlast
  refine ⟨(entryNames text).dropLast.map String.ofList,
    String.ofList ((entryNames text).getLastD [] ++ temporaryEnding t), ?_, ?_,
    String.ofList (ofNames (entryNames text).dropLast), ?_, ?_⟩
  · rw [temporaryPath_ofText, components_ofNames fun n hn => (hnames n hn).ne_nil_and]
    simp
  · rw [components_ofText]
    rcases List.eq_nil_or_concat (entryNames text) with hns | ⟨dirs, last, hns⟩
    · left
      simp [hns]
    · right
      rw [List.concat_eq_append] at hns
      refine ⟨String.ofList last, ?_, ?_⟩
      · rw [hns, List.getLastD_concat]
        intro h
        have hself := List.self_eq_append_right.1 (String.ofList_injective h)
        simp [temporaryEnding] at hself
      · simp [hns]
  · rw [Path.parent, temporaryPath_ofText, entryNames_ofNames_of_isName hnames]
    cases h : (entryNames text).dropLast ++
        [(entryNames text).getLastD [] ++ temporaryEnding t] with
    | nil => simp at h
    | cons n ns =>
      simp only
      rw [← h, List.dropLast_concat]
  · exact components_ofNames fun n hn => (hdirs n hn).ne_nil_and

end VolumeFs.Path
