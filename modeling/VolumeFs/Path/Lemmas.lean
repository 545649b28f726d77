import VolumeFs.Path

/-!
# Normal paths

What the names of a normal path look like, and that such a path is left as it is: the names that
a text leads through are those of the path made of them.
-/

namespace VolumeFs.Path

/-- A name as it stands in a normal path: not empty, no dots that mean a direction, no slash. -/
def IsName (n : Name) : Prop := n ≠ [] ∧ n ≠ ['.'] ∧ n ≠ ['.', '.'] ∧ '/' ∉ n

theorem pieces_ne_nil (cs : List Char) : pieces cs ≠ [] := by
  fun_cases pieces cs <;> simp_all

theorem pieces_append_slash (front rest : List Char) :
    pieces (front ++ '/' :: rest) = pieces front ++ pieces rest := by
  induction front with
  | nil => simp [pieces]
  | cons c cs ih =>
    by_cases hc : c = '/'
    · simp [hc, pieces, ih]
    · cases hp : pieces cs with
      | nil => exact absurd hp (pieces_ne_nil cs)
      | cons p ps => simp [pieces, ih, hp]

theorem pieces_of_slash_notMem {n : Name} (h : '/' ∉ n) : pieces n = [n] := by
  induction n with
  | nil => rfl
  | cons c cs ih =>
    simp only [List.mem_cons, not_or] at h
    simp [pieces, Ne.symm h.1, ih h.2]

theorem slash_notMem_of_mem_pieces {cs : List Char} {p : Name} (h : p ∈ pieces cs) : '/' ∉ p := by
  induction cs generalizing p with
  | nil => simp_all [pieces]
  | cons c cs ih =>
    by_cases hc : c = '/'
    · simp only [hc, pieces, List.mem_cons] at h
      rcases h with rfl | h
      · simp
      · exact ih h
    · cases hp : pieces cs with
      | nil => exact absurd hp (pieces_ne_nil cs)
      | cons q qs =>
        simp only [pieces, hp, List.mem_cons] at h
        rcases h with rfl | h
        · simp [Ne.symm hc, ih (hp ▸ List.mem_cons_self)]
        · exact ih (hp ▸ List.mem_cons_of_mem _ h)

theorem enter_of_isName {names : List Name} {n : Name} (h : IsName n) :
    enter names n = n :: names := by
  simp [enter, h.1, h.2.1, h.2.2.1]

theorem isName_of_mem_foldl_enter {ps acc : List Name} {n : Name} (hps : ∀ p ∈ ps, '/' ∉ p)
    (hacc : ∀ m ∈ acc, IsName m) (h : n ∈ ps.foldl enter acc) : IsName n := by
  induction ps generalizing acc with
  | nil => exact hacc n h
  | cons p ps ih =>
    refine ih (fun q hq => hps q (List.mem_cons_of_mem _ hq)) ?_ h
    intro m hm
    unfold enter at hm
    split at hm
    · exact hacc m hm
    · split at hm
      · exact hacc m (List.mem_of_mem_tail hm)
      · rename_i h₁ h₂
        rcases List.mem_cons.1 hm with rfl | hm
        · exact ⟨fun h => h₁ (.inl h), fun h => h₁ (.inr h), h₂, hps m List.mem_cons_self⟩
        · exact hacc m hm

theorem isName_of_mem_names {cs : List Char} {n : Name} (h : n ∈ names cs) : IsName n :=
  isName_of_mem_foldl_enter (fun _ => slash_notMem_of_mem_pieces) (by simp) (List.mem_reverse.1 h)

theorem foldl_enter_of_isName {ns acc : List Name} (h : ∀ n ∈ ns, IsName n) :
    ns.foldl enter acc = ns.reverse ++ acc := by
  induction ns generalizing acc with
  | nil => rfl
  | cons n ns ih =>
    rw [List.foldl_cons, enter_of_isName (h n List.mem_cons_self),
      ih fun m hm => h m (List.mem_cons_of_mem _ hm)]
    simp

theorem pieces_flatMap_slash {ns : List Name} (h : ∀ n ∈ ns, '/' ∉ n) :
    pieces (ns.flatMap ('/' :: ·)) = [] :: ns := by
  induction ns with
  | nil => rfl
  | cons n ns ih =>
    have htail := ih fun m hm => h m (List.mem_cons_of_mem _ hm)
    have hn := h n List.mem_cons_self
    cases ns with
    | nil => simp [pieces, pieces_of_slash_notMem hn]
    | cons m ms =>
      simp only [List.flatMap_cons, List.cons_append, pieces] at htail ⊢
      rw [pieces_append_slash, pieces_of_slash_notMem hn]
      simpa using htail

theorem names_ofNames {ns : List Name} (h : ∀ n ∈ ns, IsName n) : names (ofNames ns) = ns := by
  cases ns with
  | nil => rfl
  | cons n ns =>
    show ((pieces ((n :: ns).flatMap ('/' :: ·))).foldl enter []).reverse = n :: ns
    rw [pieces_flatMap_slash fun n hn => (h n hn).2.2.2, List.foldl_cons, enter, if_pos (.inl rfl),
      foldl_enter_of_isName h]
    simp

theorem normalize_normalize (text : String) : normalize (normalize text) = normalize text := by
  simp only [normalize, String.toList_ofList]
  rw [names_ofNames fun _ => isName_of_mem_names]

end VolumeFs.Path
