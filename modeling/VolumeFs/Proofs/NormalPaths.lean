import VolumeFs.Proofs.Paths

/-!
# The normal form of paths

A path in normal form is a slash and names with single slashes between them. These are just the
texts that normalizing leaves as they are, and it makes no other ones. It can be done a directory
at a time, and where an address was given, what stands in front of the path goes first.
-/

namespace VolumeFs.Path

/-- A path in normal form. No name in it is empty, is one dot or two, or holds a slash, so that
it leads down from the root at each name. -/
def IsNormal (path : String) : Prop :=
  ∃ names : List String, (∀ n ∈ names, n ≠ "" ∧ n ≠ "." ∧ n ≠ ".." ∧ '/' ∉ n.toList) ∧
    path = "/" ++ "/".intercalate names

private theorem ofList_ofNames (ns : List Name) :
    String.ofList (ofNames ns) = "/" ++ "/".intercalate (ns.map String.ofList) := by
  cases ns with
  | nil => rfl
  | cons n ns =>
    rw [ofNames_of_ne_nil (by simp)]
    induction ns generalizing n with
    | nil => simp
    | cons m ns ih =>
      have htail := congrArg String.toList (ih m)
      rw [List.flatMap_cons, String.ext_iff]
      simp_all

theorem isName_toList_iff {n : String} :
    IsName n.toList ↔ n ≠ "" ∧ n ≠ "." ∧ n ≠ ".." ∧ '/' ∉ n.toList := by
  simp only [IsName, ne_eq, ← String.toList_inj]
  rfl

theorem isNormal_iff {path : String} :
    IsNormal path ↔ ∃ ns : List Name, (∀ n ∈ ns, IsName n) ∧ path = String.ofList (ofNames ns) := by
  constructor
  · rintro ⟨names, hnames, rfl⟩
    refine ⟨names.map String.toList, ?_, ?_⟩
    · intro n hn
      obtain ⟨name, hname, rfl⟩ := List.mem_map.1 hn
      exact isName_toList_iff.2 (hnames name hname)
    · simp [ofList_ofNames]
  · rintro ⟨ns, hns, rfl⟩
    refine ⟨ns.map String.ofList, ?_, ofList_ofNames ns⟩
    intro name hname
    obtain ⟨n, hn, rfl⟩ := List.mem_map.1 hname
    apply isName_toList_iff.1
    simpa using hns n hn

private theorem isNormal_normalize (text : String) : IsNormal (normalize text) :=
  isNormal_iff.2 ⟨_, fun _ => isName_of_mem_names, rfl⟩

private theorem isNormal_ofText (text : String) : IsNormal (ofText text) :=
  isNormal_iff.2 ⟨_, fun _ => isName_of_mem_entryNames, rfl⟩

private theorem IsNormal.normalize_eq {path : String} (h : IsNormal path) :
    normalize path = path := by
  obtain ⟨ns, hns, rfl⟩ := isNormal_iff.1 h
  rw [normalize, String.toList_ofList, names_ofNames hns]

private theorem IsNormal.ofText_eq {path : String} (h : IsNormal path) : ofText path = path := by
  obtain ⟨ns, hns, rfl⟩ := isNormal_iff.1 h
  rw [ofText, entryNames_ofNames_of_isName hns]

theorem normalize_eq_self_iff {path : String} : normalize path = path ↔ IsNormal path := by
  constructor
  · intro h
    rw [← h]
    exact isNormal_normalize path
  · exact IsNormal.normalize_eq

theorem ofText_eq_self_iff {path : String} : ofText path = path ↔ IsNormal path := by
  constructor
  · intro h
    rw [← h]
    exact isNormal_ofText path
  · exact IsNormal.ofText_eq

/-- What follows a slash is entered from where the text in front of it leads. -/
theorem names_append_slash (front rest : List Char) :
    names (front ++ '/' :: rest) = ((pieces rest).foldl enter (names front).reverse).reverse := by
  simp [names, pieces_append_slash, List.foldl_append]

theorem names_normalize (text : String) : names (normalize text).toList = names text.toList := by
  rw [normalize, String.toList_ofList, names_ofNames fun _ => isName_of_mem_names]

theorem normalize_append (directory rest : String) :
    normalize (directory ++ "/" ++ rest) = normalize (normalize directory ++ "/" ++ rest) := by
  have hslash (front : String) : (front ++ "/" ++ rest).toList =
      front.toList ++ '/' :: rest.toList := by simp
  rw [normalize, normalize, hslash, hslash, names_append_slash, names_append_slash,
    names_normalize]

theorem normalize_slash_append (rest : String) : normalize ("/" ++ rest) = normalize rest := by
  have hslash : ("/" ++ rest).toList = [] ++ '/' :: rest.toList := by simp
  rw [normalize, normalize, hslash, names_append_slash]
  rfl

/-- The characters between the scheme of an address and the rest of it. -/
def schemeEnd : List Char := [':', '/', '/']

private theorem afterScheme?_eq_none {cs : List Char} (h : ¬ schemeEnd <:+: cs) :
    afterScheme? cs = none := by
  induction cs using afterScheme?.induct with
  | case1 => rfl
  | case2 cs => exact absurd ⟨[], cs, rfl⟩ h
  | case3 c cs hne ih =>
    rw [afterScheme?]
    · apply ih
      intro hcs
      exact h (hcs.trans (List.suffix_cons c cs).isInfix)
    · exact hne

private theorem afterScheme?_scheme {scheme : List Char} (h : ¬ schemeEnd <:+: scheme)
    (rest : List Char) : afterScheme? (scheme ++ schemeEnd ++ rest) = some rest := by
  induction scheme with
  | nil => rfl
  | cons c scheme ih =>
    have htail : ¬ schemeEnd <:+: scheme := fun hs =>
      h (hs.trans (List.suffix_cons c scheme).isInfix)
    rw [← ih htail, List.cons_append, List.cons_append, afterScheme?]
    intro cs hc hcs
    subst hc
    cases scheme with
    | nil => simp [schemeEnd] at hcs
    | cons d scheme =>
      cases scheme with
      | nil => simp [schemeEnd] at hcs
      | cons e scheme =>
        simp only [List.cons_append, List.cons.injEq] at hcs
        obtain ⟨rfl, rfl, -⟩ := hcs
        exact h ⟨[], scheme, rfl⟩

theorem ofText_of_plain {text : String} (h : ¬ schemeEnd <:+: text.toList) :
    ofText text = normalize text := by
  rw [ofText, entryNames, withinVolume, afterScheme?_eq_none h, normalize]

section Address

variable {scheme volume : String} (hscheme : ¬ schemeEnd <:+: scheme.toList)
  (hvolume : '/' ∉ volume.toList)

include hscheme hvolume

private theorem withinVolume_address (rest : List Char) :
    withinVolume (scheme.toList ++ schemeEnd ++ (volume.toList ++ rest)) =
      rest.dropWhile (· ≠ '/') := by
  rw [withinVolume, afterScheme?_scheme hscheme]
  exact List.dropWhile_append_of_pos (decide_ne_slash hvolume)

theorem ofText_volume : ofText (scheme ++ "://" ++ volume) = "/" := by
  have hsplit : (scheme ++ "://" ++ volume).toList =
      scheme.toList ++ schemeEnd ++ (volume.toList ++ []) := by simp [schemeEnd]
  rw [ofText, entryNames, hsplit, withinVolume_address hscheme hvolume]
  rfl

/-- Of an address of an entry the path within the volume is left. -/
theorem ofText_address (path : String) :
    ofText (scheme ++ "://" ++ volume ++ "/" ++ path) = normalize path := by
  have hsplit : (scheme ++ "://" ++ volume ++ "/" ++ path).toList =
      scheme.toList ++ schemeEnd ++ (volume.toList ++ ("/" ++ path).toList) := by simp [schemeEnd]
  have hslash : ("/" ++ path).toList.dropWhile (· ≠ '/') = ("/" ++ path).toList := by simp
  rw [ofText, entryNames, hsplit, withinVolume_address hscheme hvolume, hslash,
    ← normalize_slash_append path, normalize]

end Address

/-- Every text is brought into a normal form, in which nothing leads above the root: as it stands,
where a directory in front of it may be brought into it first, and where it is taken for an
address, of which all up to the volume goes. The normal forms are the texts that stay what they
are. -/
theorem normal_form_of_texts (a b u : String) :
    (IsNormal (normalize a) ∧ normalize (normalize a) = normalize a) ∧
      normalize (a ++ "/" ++ b) = normalize (normalize a ++ "/" ++ b) ∧
      (IsNormal (ofText u) ∧ ofText (ofText u) = ofText u) ∧
      (normalize a = a ↔ IsNormal a) ∧ (ofText u = u ↔ IsNormal u) ∧
      (¬ schemeEnd <:+: u.toList → ofText u = normalize u) ∧
      ∀ scheme volume : String, ¬ schemeEnd <:+: scheme.toList → '/' ∉ volume.toList →
        ofText (scheme ++ "://" ++ volume) = "/" ∧
          ofText (scheme ++ "://" ++ volume ++ "/" ++ a) = normalize a := by
  refine ⟨⟨isNormal_normalize a, normalize_normalize a⟩, normalize_append a b,
    ⟨isNormal_ofText u, ofText_ofText u⟩, normalize_eq_self_iff, ofText_eq_self_iff,
    ofText_of_plain, ?_⟩
  intro scheme volume hscheme hvolume
  exact ⟨ofText_volume hscheme hvolume, ofText_address hscheme hvolume a⟩

/-- A normal path, a text that leads out of its directory and back, and the address of the path. -/
theorem normal_form_of_texts_in_volume :
    (IsNormal "/b/c" ∧ ¬ schemeEnd <:+: "a/../b".toList ∧ ¬ schemeEnd <:+: "cubefs".toList ∧
      '/' ∉ "vol".toList) ∧
      normalize "/b/c" = "/b/c" ∧ normalize "/b/c/../../../d" = "/d" ∧ ofText "a/../b" = "/b" ∧
      ofText "cubefs://vol//b/c" = "/b/c" := by
  have hnormal : IsNormal "/b/c" := ⟨["b", "c"], by decide, by decide +kernel⟩
  have hplain : ¬ schemeEnd <:+: "a/../b".toList := by decide +kernel
  have hscheme : ¬ schemeEnd <:+: "cubefs".toList := by decide +kernel
  have hvolume : '/' ∉ "vol".toList := by decide +kernel
  obtain ⟨-, happend, -, hkept, -, htext, haddress⟩ :=
    normal_form_of_texts "/b/c" "../../../d" "a/../b"
  refine ⟨⟨hnormal, hplain, hscheme, hvolume⟩, hkept.2 hnormal, ?_, ?_, ?_⟩
  · rw [show "/b/c/../../../d" = "/b/c" ++ "/" ++ "../../../d" by decide +kernel, happend]
    decide +kernel
  · rw [htext hplain]
    decide +kernel
  · rw [show "cubefs://vol//b/c" = "cubefs" ++ "://" ++ "vol" ++ "/" ++ "/b/c" by decide +kernel,
      (haddress "cubefs" "vol" hscheme hvolume).2, hkept.2 hnormal]

end VolumeFs.Path
