import VolumeFs.Proofs.NormalPaths
import VolumeFs.Volume.Tree

/-!
# Absolute paths

A path that begins with a slash names an entry by itself and needs no address in front of it. It is
taken for an address all the same if `://` occurs in it: then everything up to the next slash is
left out, and the entry is another one unless the path climbs out of all that again. The operations
of a volume see of a path only the entry that it is taken for.
-/

namespace VolumeFs

namespace Path

/-- How many directories the pieces of a path lead above the one that they start from. -/
def climb : List Name → Nat
  | [] => 0
  | piece :: rest =>
    if piece = [] ∨ piece = ['.'] then climb rest
    else if piece = ['.', '.'] then climb rest + 1
    else climb rest - 1

private theorem foldl_enter (names ps : List Name) :
    ps.foldl enter names = ps.foldl enter [] ++ names.drop (climb ps) := by
  induction ps generalizing names with
  | nil => simp [climb]
  | cons p ps ih =>
    rw [List.foldl_cons, List.foldl_cons, climb, enter, enter]
    split
    · exact ih names
    · split
      · rw [ih names.tail, ih (List.tail []), ← List.drop_one, List.drop_drop, Nat.add_comm]
        simp
      · -- The name itself is what the rest climbs out of first.
        rw [ih (p :: names), ih [p]]
        cases climb ps <;> simp

/-- What follows a slash stands below as much of the front as it does not climb out of. -/
theorem names_append (front rest : List Char) :
    names (front ++ '/' :: rest) =
      (names front).take ((names front).length - climb (pieces rest)) ++ names rest := by
  rw [names_append_slash, foldl_enter, List.reverse_append, List.drop_reverse, List.reverse_reverse]
  rfl

theorem names_append_eq_iff {front rest : List Char} :
    names (front ++ '/' :: rest) = names rest ↔ (names front).length ≤ climb (pieces rest) := by
  rw [names_append]
  by_cases hfront : names front = []
  · simp [hfront]
  · simp [hfront, Nat.sub_eq_zero_iff_le]

theorem normalize_eq_normalize_iff {a b : String} :
    normalize a = normalize b ↔ names a.toList = names b.toList := by
  constructor
  · intro h
    rw [← names_normalize a, h, names_normalize]
  · intro h
    rw [normalize, h, normalize]

/-- How a text is taken for an address: the scheme ends at the first `://`, the volume before the
next slash, and the rest is the path within the volume. -/
structure IsAddress (text scheme volume rest : String) : Prop where
  eq : text = scheme ++ "://" ++ volume ++ rest
  scheme : ¬ schemeEnd <:+: scheme.toList
  volume : '/' ∉ volume.toList
  rest : rest = "" ∨ ∃ path, rest = "/" ++ path

private theorem exists_scheme {cs : List Char} (h : schemeEnd <:+: cs) :
    ∃ scheme rest, cs = scheme ++ schemeEnd ++ rest ∧ ¬ schemeEnd <:+: scheme := by
  induction cs with
  | nil => simp [schemeEnd] at h
  | cons c cs ih =>
    by_cases hfirst : schemeEnd <+: c :: cs
    · obtain ⟨rest, hrest⟩ := hfirst
      exact ⟨[], rest, hrest.symm, by simp [schemeEnd]⟩
    · obtain ⟨scheme, rest, hcs, hscheme⟩ := ih ((List.infix_cons_iff.1 h).resolve_left hfirst)
      refine ⟨c :: scheme, rest, by simp [hcs], ?_⟩
      intro hinfix
      rcases List.infix_cons_iff.1 hinfix with hprefix | hinfix
      · apply hfirst
        rw [hcs, List.append_assoc, ← List.cons_append]
        exact hprefix.trans (List.prefix_append _ _)
      · exact hscheme hinfix

private theorem dropWhile_ne_slash (cs : List Char) :
    cs.dropWhile (· ≠ '/') = [] ∨ ∃ path, cs.dropWhile (· ≠ '/') = '/' :: path := by
  induction cs with
  | nil => simp
  | cons c cs ih =>
    by_cases hc : c = '/'
    · simp [hc]
    · simpa [hc] using ih

private theorem exists_isAddress {text : String} (h : schemeEnd <:+: text.toList) :
    ∃ scheme volume rest, IsAddress text scheme volume rest := by
  obtain ⟨scheme, behind, htext, hscheme⟩ := exists_scheme h
  refine ⟨String.ofList scheme, String.ofList (behind.takeWhile (· ≠ '/')),
    String.ofList (behind.dropWhile (· ≠ '/')), ?_, by simpa using hscheme, ?_, ?_⟩
  · rw [← String.toList_inj, htext]
    simp [schemeEnd]
  · intro hslash
    rw [String.toList_ofList] at hslash
    simpa using List.all_eq_true.1 List.all_takeWhile _ hslash
  · rcases dropWhile_ne_slash behind with hrest | ⟨path, hrest⟩
    · left
      rw [hrest]
    · right
      refine ⟨String.ofList path, ?_⟩
      rw [hrest]
      simp

private theorem IsAddress.slash_mem_scheme {path scheme volume rest : String}
    (h : IsAddress ("/" ++ path) scheme volume rest) : '/' ∈ scheme.toList := by
  have hpath := congrArg String.toList h.eq
  cases hscheme : scheme.toList with
  | nil => simp [hscheme] at hpath
  | cons c cs =>
    simp only [String.toList_append, hscheme, List.cons_append] at hpath
    exact List.mem_cons.2 (.inl (List.cons.inj hpath).1)

section

variable {text scheme volume rest : String} (h : IsAddress text scheme volume rest)

include h

private theorem ofText_of_isAddress : ofText text = normalize rest := by
  rcases h.rest with hrest | ⟨path, hrest⟩
  · rw [h.eq, hrest, String.append_empty, ofText_volume h.scheme h.volume]
    rfl
  · rw [h.eq, hrest, ← String.append_assoc, ofText_address h.scheme h.volume,
      normalize_slash_append]

theorem normalize_eq_rest_iff : normalize text = normalize rest ↔
    (names (scheme ++ "://" ++ volume).toList).length ≤ climb (pieces rest.toList) := by
  rw [normalize_eq_normalize_iff]
  rcases h.rest with hrest | ⟨path, hrest⟩
  · simp [h.eq, hrest, names, pieces, climb, enter]
  · have hslash : rest.toList = '/' :: path.toList := by simp [hrest]
    have htext : text.toList = (scheme ++ "://" ++ volume).toList ++ '/' :: path.toList := by
      simp [h.eq, hrest]
    have hnames : names rest.toList = names path.toList := by
      rw [hslash]
      rfl
    have hclimb : climb (pieces rest.toList) = climb (pieces path.toList) := by
      rw [hslash]
      simp [pieces, climb]
    rw [hnames, hclimb, htext, names_append_eq_iff]

end

/-- Nothing is lost of a text if it is no address, or what would be lost is climbed out of. -/
theorem ofText_eq_normalize_iff {text : String} : ofText text = normalize text ↔
    ∀ scheme volume rest, IsAddress text scheme volume rest →
      (names (scheme ++ "://" ++ volume).toList).length ≤ climb (pieces rest.toList) := by
  constructor
  · intro htext scheme volume rest h
    rw [← normalize_eq_rest_iff h, ← htext, ofText_of_isAddress h]
  · intro hclimbs
    by_cases hplain : schemeEnd <:+: text.toList
    · obtain ⟨scheme, volume, rest, h⟩ := exists_isAddress hplain
      rw [ofText_of_isAddress h, (normalize_eq_rest_iff h).2 (hclimbs _ _ _ h)]
    · exact ofText_of_plain hplain

end Path

/-- What can be asked of a volume about the entry at a path, with the type of the result. An entry
can be moved to another path, and another one to this path. -/
inductive EntryOperation : Type → Type where
  | create (options : CreateOptions) (token : Token) : EntryOperation Output
  | openFile (options : OpenOptions) : EntryOperation Reader
  | status : EntryOperation Status
  | fileStatus : EntryOperation FileStatus
  | directoryStatus : EntryOperation DirectoryStatus
  | exists? : EntryOperation Bool
  | isFile : EntryOperation Bool
  | isDirectory : EntryOperation Bool
  | listing : EntryOperation Listing
  | list : EntryOperation (List Status)
  | mkdirs (options : MkdirsOptions) : EntryOperation Bool
  | deleteFile : EntryOperation Bool
  | deleteDirectory (options : DeleteOptions) : EntryOperation Bool
  | renameFile (target : String) : EntryOperation Bool
  | renameFileHere (source : String) : EntryOperation Bool
  | renameDirectory (target : String) : EntryOperation Bool
  | renameDirectoryHere (source : String) : EntryOperation Bool
  | setMode (mode : UInt32) : EntryOperation Unit
  | setOwner (user group : Option String) : EntryOperation Unit

namespace EntryOperation

variable {σ α : Type} [StoreClient σ]

def on (v : Volume) (s : σ) (path : String) : EntryOperation α → Except VolumeError α × Volume × σ
  | create options token => v.create s path options token
  | openFile options => v.openFile s path options
  | status => v.status s path
  | fileStatus => v.fileStatus s path
  | directoryStatus => v.directoryStatus s path
  | exists? => v.exists? s path
  | isFile => v.isFile s path
  | isDirectory => v.isDirectory s path
  | listing => v.listing s path
  | list => v.list s path
  | mkdirs options => v.mkdirs s path options
  | deleteFile => v.deleteFile s path
  | deleteDirectory options => v.deleteDirectory s path options
  | renameFile target => v.renameFile s path target
  | renameFileHere source => v.renameFile s source path
  | renameDirectory target => v.renameDirectory s path target
  | renameDirectoryHere source => v.renameDirectory s source path
  | setMode mode => v.setMode s path mode
  | setOwner user group => v.setOwner s path user group

private theorem on_ofText (op : EntryOperation α) (v : Volume) (s : σ) (path : String) :
    op.on v s (Path.ofText path) = op.on v s path := by
  cases op with
  | create | openFile | status | fileStatus | directoryStatus | listing | list | mkdirs
  | deleteFile | deleteDirectory | setMode =>
    simp only [on, Volume.create, Volume.openFile, Volume.fileStatus, Volume.directoryStatus,
      Volume.status, Volume.list, Volume.listing, Volume.mkdirs, Volume.deleteFile,
      Volume.deleteDirectory, Volume.setMode, Path.ofText_ofText]
  | exists? | isFile | isDirectory | renameFile | renameFileHere | renameDirectory
  | renameDirectoryHere =>
    simp only [on, Volume.exists?, Volume.isFile, Volume.isDirectory, Volume.holds,
      Volume.renameFile, Volume.renameDirectory, Volume.rename, Path.ofText_ofText]
  | setOwner => rfl

end EntryOperation

namespace Path

/-- A path that begins with a slash is taken as it stands if `://` does not occur in it, and then
everything that a volume does at it is done at the entry with its names. Otherwise it is taken for
an address, though what is taken for the scheme holds a slash, and another entry is meant, unless
the path climbs out of all that was taken for scheme and volume. -/
theorem entry_of_absolute_path {path : String} (h : ∃ p, path = "/" ++ p) :
    (ofText path = normalize path ↔ ∀ scheme volume rest, IsAddress path scheme volume rest →
        (names (scheme ++ "://" ++ volume).toList).length ≤ climb (pieces rest.toList)) ∧
      (¬ schemeEnd <:+: path.toList → ofText path = normalize path) ∧
      (∀ scheme volume rest, IsAddress path scheme volume rest →
        '/' ∈ scheme.toList ∧ ofText path = normalize rest) ∧
      (ofText path = normalize path →
        Memory.components (ofText path) = (names path.toList).map String.ofList ∧
          ∀ {σ α : Type} [StoreClient σ] (op : EntryOperation α) (v : Volume) (s : σ),
            op.on v s path = op.on v s (normalize path)) := by
  refine ⟨ofText_eq_normalize_iff, ofText_of_plain, ?_, ?_⟩
  · intro scheme volume rest haddress
    obtain ⟨p, rfl⟩ := h
    exact ⟨haddress.slash_mem_scheme, ofText_of_isAddress haddress⟩
  · intro htext
    constructor
    · rw [htext]
      exact components_ofNames fun _ hn => (isName_of_mem_names hn).ne_nil_and
    · intro σ α _ op v s
      rw [← htext, op.on_ofText]

/-- A path with a colon before a slash, and one with a colon before two of them. -/
theorem entry_of_absolute_path_with_colons :
    ((∃ p, "/x:/y//z" = "/" ++ p) ∧ ¬ schemeEnd <:+: "/x:/y//z".toList ∧
        (∃ p, "/a://b/../c" = "/" ++ p) ∧ IsAddress "/a://b/../c" "/a" "b" "/../c") ∧
      Memory.components (ofText "/x:/y//z") = ["x:", "y", "z"] ∧ ofText "/a://b/../c" = "/c" ∧
      ofText "/a://b/../c" ≠ normalize "/a://b/../c" := by
  have hplain : ¬ schemeEnd <:+: "/x:/y//z".toList := by decide +kernel
  have hslash : ∃ p, "/x:/y//z" = "/" ++ p := ⟨"x:/y//z", by decide +kernel⟩
  have haddress : IsAddress "/a://b/../c" "/a" "b" "/../c" :=
    ⟨by decide +kernel, by decide +kernel, by decide +kernel, .inr ⟨"../c", by decide +kernel⟩⟩
  have hslash' : ∃ p, "/a://b/../c" = "/" ++ p := ⟨"a://b/../c", by decide +kernel⟩
  obtain ⟨-, hkept, -, hentry⟩ := entry_of_absolute_path hslash
  obtain ⟨hclimbs, -, htaken, -⟩ := entry_of_absolute_path hslash'
  refine ⟨⟨hslash, hplain, hslash', haddress⟩, ?_, ?_, ?_⟩
  · rw [(hentry (hkept hplain)).1]
    decide +kernel
  · rw [(htaken _ _ _ haddress).2]
    decide +kernel
  · intro hsame
    have hclimb := hclimbs.1 hsame _ _ _ haddress
    revert hclimb
    decide +kernel

/-- An entry below a directory whose name ends with a colon, told with a slash too many. -/
theorem absolute_path_taken_for_address :
    ofText "/a://b/c" = "/c" ∧ normalize "/a://b/c" = "/a:/b/c" ∧
      Memory.components "/a://b/c" = ["a:", "b", "c"] := by
  decide +kernel

end Path
end VolumeFs
