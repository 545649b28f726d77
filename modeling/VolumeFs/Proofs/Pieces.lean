import VolumeFs.Bytes

/-!
# Bytes in pieces

Byte arrays as the joining of smaller ones, and what a file holds after a piece was written at
its end.
-/

namespace VolumeFs.Bytes

def joined : List ByteArray → ByteArray
  | [] => .empty
  | piece :: pieces => piece ++ joined pieces

def total : List ByteArray → Nat
  | [] => 0
  | piece :: pieces => piece.size + total pieces

@[simp] theorem joined_nil : joined [] = .empty := rfl

@[simp] theorem total_nil : total [] = 0 := rfl

@[simp] theorem joined_append (front rest : List ByteArray) :
    joined (front ++ rest) = joined front ++ joined rest := by
  induction front with
  | nil => simp
  | cons piece front ih => simp [joined, ih, ByteArray.append_assoc]

@[simp] theorem joined_singleton (piece : ByteArray) : joined [piece] = piece := by
  simp [joined]

@[simp] theorem total_append (front rest : List ByteArray) :
    total (front ++ rest) = total front + total rest := by
  induction front with
  | nil => simp
  | cons piece front ih => simp [total, ih, Nat.add_assoc]

@[simp] theorem size_joined (pieces : List ByteArray) : (joined pieces).size = total pieces := by
  induction pieces with
  | nil => rfl
  | cons piece pieces ih => simp [joined, total, ih]

/-- What is left of bytes to be written: nothing, or one more piece. -/
def remainder (bytes : ByteArray) : List ByteArray := if bytes.size = 0 then [] else [bytes]

@[simp] theorem joined_remainder (bytes : ByteArray) : joined (remainder bytes) = bytes := by
  unfold remainder
  split
  · rename_i h
    rw [ByteArray.size_eq_zero_iff.1 h, joined_nil]
  · exact joined_singleton bytes

@[simp] theorem total_remainder (bytes : ByteArray) : total (remainder bytes) = bytes.size := by
  rw [← size_joined, joined_remainder]

theorem extract_append_extract_size (bytes : ByteArray) {count : Nat} (h : count ≤ bytes.size) :
    bytes.extract 0 count ++ bytes.extract count bytes.size = bytes := by
  rw [ByteArray.extract_append_extract]
  have hmax : max count bytes.size = bytes.size := by omega
  simp [hmax]

@[simp] theorem size_zeros (count : Nat) : (zeros count).size = count := by
  simp [zeros, ByteArray.size]

theorem overlay_padded_size (held piece : ByteArray) :
    overlay (padded held (held.size + piece.size)) held.size piece = held ++ piece := by
  unfold padded
  split
  · have hzeros : held.size + piece.size - held.size = piece.size := by omega
    rw [overlay, hzeros, ByteArray.extract_append_eq_left rfl, ByteArray.extract_eq_empty_iff.2,
      ByteArray.append_empty]
    simp
  · have hempty : piece = .empty := ByteArray.size_eq_zero_iff.1 (by omega)
    rw [overlay, hempty]
    simp

end VolumeFs.Bytes
