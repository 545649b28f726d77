import VolumeFs.Proofs.Pieces
import VolumeFs.Proofs.Tree.Forest
import VolumeFs.Record.Dirent

/-!
# Names in a listing

A listing shows a name in a field of limited size, where a long name is cut and what is left of a
broken character is replaced. What is shown is a name all the same, and a name that was cut is too
long for one that is made of dots.
-/

namespace VolumeFs

namespace Utf8

private theorem mem_decodeFrom {bytes : ByteArray} {i : Nat} {c : Char}
    (h : c ∈ decodeFrom bytes i) :
    c = '\uFFFD' ∨ ∃ j, bytes.utf8DecodeChar? j = some c := by
  fun_induction decodeFrom bytes i with
  | case1 i hi d hd ih =>
    rcases List.mem_cons.1 h with rfl | h
    · exact .inr ⟨i, hd⟩
    · exact ih h
  | case2 i hi hd ih =>
    rcases List.mem_cons.1 h with rfl | h
    · exact .inl rfl
    · exact ih h
  | case3 i hi => cases h

private theorem brokenLength_le (bytes : ByteArray) (i : Nat) : brokenLength bytes i ≤ 3 := by
  simp only [brokenLength]
  split
  · decide
  · split <;> decide

private theorem size_le_length_decodeFrom (bytes : ByteArray) (i : Nat) :
    bytes.size ≤ i + 4 * (decodeFrom bytes i).length := by
  fun_induction decodeFrom bytes i with
  | case1 i hi d hd ih =>
    have hsize := d.utf8Size_le_four
    rw [List.length_cons]
    omega
  | case2 i hi hd ih =>
    have hsize := brokenLength_le bytes i
    rw [List.length_cons]
    omega
  | case3 i hi => omega

private theorem mem_toList_of_utf8DecodeChar? {text : String} {j : Nat} {c : Char}
    (h : text.toByteArray.utf8DecodeChar? j = some c) : c ∈ text.toList := by
  have hvalid : (⟨j⟩ : String.Pos.Raw).IsValid text :=
    String.Pos.Raw.isValid_iff_isSome_utf8DecodeChar?.2 (.inr (by rw [h]; rfl))
  obtain ⟨front, back, rfl, hj⟩ := String.Pos.Raw.isValid_iff_exists_append.1 hvalid
  obtain rfl : j = front.toByteArray.size := congrArg String.Pos.Raw.byteIdx hj
  rw [String.toByteArray_append, ByteArray.utf8DecodeChar?_eq_utf8DecodeChar?_extract,
    ByteArray.extract_append_eq_right (by simp) (by simp), ← String.utf8Encode_toList] at h
  cases hback : back.toList with
  | nil =>
    rw [hback] at h
    cases h
  | cons d cs =>
    rw [hback, List.utf8DecodeChar?_utf8Encode_cons, Option.some.injEq] at h
    simp [hback, h]

/-- The first bytes of a text have no characters but its own and the replacement. -/
theorem mem_toList_of_mem_decode_extract {text : String} {count : Nat} {c : Char}
    (hcount : count ≤ text.toByteArray.size)
    (h : c ∈ (decode (text.toByteArray.extract 0 count)).toList) :
    c = '\uFFFD' ∨ c ∈ text.toList := by
  rw [decode, String.toList_ofList] at h
  rcases mem_decodeFrom h with rfl | ⟨j, hj⟩
  · exact .inl rfl
  · right
    apply mem_toList_of_utf8DecodeChar? (j := j)
    rw [← Bytes.extract_append_extract_size text.toByteArray hcount]
    exact ByteArray.utf8DecodeChar?_append_eq_some hj _

private theorem length_decode_extract {text : String} {count : Nat}
    (hcount : count ≤ text.toByteArray.size) :
    count ≤ 4 * (decode (text.toByteArray.extract 0 count)).toList.length := by
  have hsize := size_le_length_decodeFrom (text.toByteArray.extract 0 count) 0
  rw [ByteArray.size_extract, Nat.min_eq_left hcount] at hsize
  rw [decode, String.toList_ofList]
  omega

end Utf8

namespace Dirent

variable {ino : UInt64} {name : String} {kind : UInt8}

private theorem name_ofName_of_long (h : nameCapacity < name.utf8ByteSize) :
    (ofName ino name kind).name = Utf8.decode (name.toByteArray.extract 0 nameCapacity) := by
  have hcap : nameCapacity = 256 := rfl
  have hsize : name.toByteArray.data.toList.length = name.utf8ByteSize := by
    rw [Array.length_toList, ByteArray.size_data, String.size_toByteArray]
  rw [Dirent.name]
  congr 1
  apply ByteArray.ext
  rw [ByteArray.data_extract, nameBytes]
  apply Array.ext'
  simp only [ofName, String.toUTF8, hsize, UInt32.toNat_ofNat']
  rw [Nat.min_eq_right (by omega), Nat.mod_eq_of_lt (by omega), Array.toList_extract,
    List.take_of_length_le (by simp [hcap])]
  apply List.ext_getElem
  · simp [hcap]
    omega
  · intro i h₁ h₂
    have hi : i < name.toByteArray.data.size := by
      simp only [List.extract, List.length_take, List.length_drop] at h₂
      rw [← Array.length_toList]
      omega
    simp [fieldOf, Array.getElem?_eq_getElem hi]

private theorem long_of_name_ofName_ne (h : (ofName ino name kind).name ≠ name) :
    nameCapacity < name.toByteArray.size := by
  rw [String.size_toByteArray]
  by_contra hsize
  exact h (name_ofName ino name kind (by omega))

theorem isEntryName_name_ofName (hname : Memory.IsEntryName name) :
    Memory.IsEntryName (ofName ino name kind).name := by
  by_cases hshown : (ofName ino name kind).name = name
  · rwa [hshown]
  · have hlong := long_of_name_ofName_ne hshown
    rw [name_ofName_of_long (String.size_toByteArray ▸ hlong)]
    constructor
    · intro hempty
      have hlength := Utf8.length_decode_extract (Nat.le_of_lt hlong)
      rw [hempty] at hlength
      cases hlength
    · intro hslash
      rcases Utf8.mem_toList_of_mem_decode_extract (Nat.le_of_lt hlong) hslash with h | h
      · exact absurd h (by decide)
      · exact hname.2 h

theorem eq_of_name_ofName (h : (ofName ino name kind).name = "..") : name = ".." := by
  by_cases hshown : (ofName ino name kind).name = name
  · rw [← hshown, h]
  · have hlong := long_of_name_ofName_ne hshown
    rw [name_ofName_of_long (String.size_toByteArray ▸ hlong)] at h
    have hlength := Utf8.length_decode_extract (Nat.le_of_lt hlong)
    rw [h] at hlength
    exact absurd hlength (by decide)

end Dirent
end VolumeFs
