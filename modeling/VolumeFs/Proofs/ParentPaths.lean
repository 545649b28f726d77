import VolumeFs.Proofs.NormalPaths

/-!
# Parents, children and their names

Every normal path but the root is the path of a directory with one name more. Joining makes it
from the two, and its parent and its last name are the two again. The parent can be found in two
ways: by leaving the last name out, and by cutting the text at its last slash.
-/

namespace VolumeFs.Path

def beforeLastSlash? (cs : List Char) : Option (List Char) :=
  match cs.reverse.dropWhile (· ≠ '/') with
  | [] => none
  | _ :: front => some front.reverse

private theorem beforeLastSlash?_append_slash (front : List Char) {n : Name} (h : '/' ∉ n) :
    beforeLastSlash? (front ++ '/' :: n) = some front := by
  have hname := decide_ne_slash (mt List.mem_reverse.1 h)
  have hcut : (front ++ '/' :: n).reverse.dropWhile (· ≠ '/') = '/' :: front.reverse := by
    rw [List.reverse_append, List.reverse_cons, List.append_assoc,
      List.dropWhile_append_of_pos hname]
    simp
  rw [beforeLastSlash?, hcut]
  simp

/-- The parent as it is read off the text of the normal path. -/
def parentBySlash (text : String) : Except PathError String :=
  if ofText text = "/" then .error (.noParent text)
  else
    match beforeLastSlash? (ofText text).toList with
    | some [] => .ok "/"
    | some front => .ok (String.ofList front)
    | none => .error (.invalidPath text)

private theorem exists_last_name {text : String} (h : ofText text ≠ "/") :
    ∃ dirs last, entryNames text = dirs ++ [last] := by
  rcases List.eq_nil_or_concat (entryNames text) with hnames | ⟨dirs, last, hnames⟩
  · exact absurd (ofText_eq_root_iff.2 hnames) h
  · exact ⟨dirs, last, by simpa using hnames⟩

section

variable {text : String} {dirs : List Name} {last : Name}
  (h : entryNames text = dirs ++ [last])

include h

private theorem isName_last : IsName last := by
  have hlast : last ∈ entryNames text := by simp [h]
  exact isName_of_mem_entryNames hlast

private theorem isName_of_mem_dirs {n : Name} (hn : n ∈ dirs) : IsName n := by
  have hmem : n ∈ entryNames text := by simp [h, hn]
  exact isName_of_mem_entryNames hmem

private theorem entryNames_dirs : entryNames (String.ofList (ofNames dirs)) = dirs :=
  entryNames_ofNames_of_isName fun _ hn => isName_of_mem_dirs h hn

private theorem parent_of_names : parent text = .ok (String.ofList (ofNames dirs)) := by
  unfold parent
  split
  · simp_all
  · rw [h, List.dropLast_concat]

private theorem ofText_of_names :
    ofText text = join (String.ofList (ofNames dirs)) (String.ofList last) := by
  rw [join_eq_ofNames, entryNames_dirs h, String.toList_ofList, ← h, ofText]

private theorem fileName_of_names : fileName (ofText text) = String.ofList last := by
  rw [ofText_of_names h]
  apply fileName_join
  simpa using (isName_last h).2.2.2

/-- The last slash is the one in front of the last name. -/
theorem parentBySlash_of_names : parentBySlash text = .ok (String.ofList (ofNames dirs)) := by
  have hroot : ofText text ≠ "/" := by
    intro hroot
    simp [ofText_eq_root_iff.1 hroot] at h
  have hcut : beforeLastSlash? (ofText text).toList =
      some (if dirs = [] then [] else ofNames dirs) := by
    rw [ofText, h, String.toList_ofList, ofNames_append_singleton]
    exact beforeLastSlash?_append_slash _ (isName_last h).2.2.2
  rw [parentBySlash, if_neg hroot, hcut]
  cases dirs with
  | nil => rfl
  | cons n ns => simp [ofNames]

end

private theorem parent_of_root {text : String} (h : ofText text = "/") :
    parent text = .error (.noParent text) := by
  rw [parent, ofText_eq_root_iff.1 h]

private theorem parent_eq_parentBySlash (text : String) : parent text = parentBySlash text := by
  by_cases hroot : ofText text = "/"
  · rw [parent_of_root hroot, parentBySlash, if_pos hroot]
  · obtain ⟨dirs, last, hnames⟩ := exists_last_name hroot
    rw [parent_of_names hnames, parentBySlash_of_names hnames]

theorem parent_eq_error_iff {text : String} {e : PathError} :
    parent text = .error e ↔ ofText text = "/" ∧ e = .noParent text := by
  constructor
  · intro h
    by_cases hroot : ofText text = "/"
    · rw [parent_of_root hroot] at h
      cases h
      exact ⟨hroot, rfl⟩
    · obtain ⟨dirs, last, hnames⟩ := exists_last_name hroot
      rw [parent_of_names hnames] at h
      cases h
  · intro h
    rw [parent_of_root h.1, h.2]

private theorem parent_join (directory : String) {name : String} (hname : Memory.IsEntryName name)
    (hdot : name ≠ ".") (hdots : name ≠ "..") :
    parent (join directory name) = .ok (ofText directory) := by
  apply parent_of_names
  rw [entryNames_join directory hname, if_neg hdot, if_neg hdots]

private theorem exists_parent_join {text : String} (h : ofText text ≠ "/") :
    ∃ directory, parent text = .ok directory ∧ IsNormal directory ∧
      IsName (fileName (ofText text)).toList ∧
      join directory (fileName (ofText text)) = ofText text := by
  obtain ⟨dirs, last, hnames⟩ := exists_last_name h
  refine ⟨String.ofList (ofNames dirs), parent_of_names hnames, ?_, ?_, ?_⟩
  · exact isNormal_iff.2 ⟨dirs, fun _ hn => isName_of_mem_dirs hnames hn, rfl⟩
  · rw [fileName_of_names hnames, String.toList_ofList]
    exact isName_last hnames
  · rw [fileName_of_names hnames, ofText_of_names hnames]

/-- Joining a name to a directory, and taking the parent and the last name of a path, undo each
other. The name may be any that does not lead elsewhere. Only the root has no parent, whatever it
was written as, and the refusal always says so: the normal path of anything else has a slash in
front of its last name, at which it can be cut. -/
theorem path_of_directory_and_name (directory name path : String) :
    (name ≠ "" ∧ name ≠ "." ∧ name ≠ ".." ∧ '/' ∉ name.toList →
      ofText (join directory name) = join directory name ∧
        parent (join directory name) = .ok (ofText directory) ∧
        fileName (join directory name) = name) ∧
      (ofText path ≠ "/" →
        ∃ d, parent path = .ok d ∧ IsNormal d ∧ IsName (fileName (ofText path)).toList ∧
          join d (fileName (ofText path)) = ofText path) ∧
      (∀ e, parent path = .error e ↔ ofText path = "/" ∧ e = .noParent path) ∧
      parent path = parentBySlash path := by
  refine ⟨?_, exists_parent_join, fun _ => parent_eq_error_iff, parent_eq_parentBySlash path⟩
  intro ⟨hne, hdot, hdots, hslash⟩
  have hname : Memory.IsEntryName name := ⟨hne, hslash⟩
  exact ⟨ofText_join directory hname hdot hdots, parent_join directory hname hdot hdots,
    fileName_join directory hslash⟩

/-- A child of a directory that was given by its address, a path that is not normal, and one of
the root. -/
theorem path_of_directory_and_name_with_colons :
    ("日.b" ≠ "" ∧ "日.b" ≠ "." ∧ "日.b" ≠ ".." ∧ '/' ∉ "日.b".toList ∧ ofText "x//y:/../é" ≠ "/") ∧
      ofText "/a:/日.b" = "/a:/日.b" ∧ parent "/a:/日.b" = .ok "/a:" ∧ fileName "/a:/日.b" = "日.b" ∧
      (∃ d, parent "x//y:/../é" = .ok d ∧ join d "é" = "/x/é") ∧
      parent "x/.." = .error (.noParent "x/..") := by
  have hname : "日.b" ≠ "" ∧ "日.b" ≠ "." ∧ "日.b" ≠ ".." ∧ '/' ∉ "日.b".toList := by decide +kernel
  have hroot : ofText "x//y:/../é" ≠ "/" := by decide +kernel
  have hdirectory : ofText "cubefs://vol/a:/" = "/a:" := by decide +kernel
  have hjoin : join "cubefs://vol/a:/" "日.b" = "/a:/日.b" := by decide +kernel
  have hpath : ofText "x//y:/../é" = "/x/é" := by decide +kernel
  have hlast : fileName "/x/é" = "é" := by decide +kernel
  obtain ⟨happart, htogether, -, -⟩ :=
    path_of_directory_and_name "cubefs://vol/a:/" "日.b" "x//y:/../é"
  have hchild := happart hname
  rw [hjoin, hdirectory] at hchild
  obtain ⟨d, hd, -, -, hjoined⟩ := htogether hroot
  rw [hpath, hlast] at hjoined
  obtain ⟨-, -, herror, -⟩ := path_of_directory_and_name "/" "a" "x/.."
  refine ⟨⟨hname.1, hname.2.1, hname.2.2.1, hname.2.2.2, hroot⟩, hchild.1, hchild.2.1, hchild.2.2,
    ⟨d, hd, hjoined⟩, ?_⟩
  exact (herror _).2 ⟨by decide +kernel, rfl⟩

end VolumeFs.Path
