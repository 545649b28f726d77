/-!
# Pieces of byte arrays

Cutting a piece out, laying one over, and filling up with zeros. Positions may lie beyond the
end; a piece is then shorter than asked for.
-/

namespace VolumeFs.Bytes

/-- The bytes from a position on, at most as many as asked for. -/
def slice (bytes : ByteArray) (start length : Nat) : ByteArray :=
  if start < bytes.size then bytes.extract start (min (start + length) bytes.size) else .empty

def zeros (count : Nat) : ByteArray := ⟨Array.replicate count 0⟩

/-- The bytes, filled up with zeros to a least size. -/
def padded (bytes : ByteArray) (size : Nat) : ByteArray :=
  if bytes.size < size then bytes ++ zeros (size - bytes.size) else bytes

/-- The bytes with a piece laid over them at a position within them. -/
def overlay (bytes : ByteArray) (start : Nat) (piece : ByteArray) : ByteArray :=
  bytes.extract 0 start ++ piece ++ bytes.extract (start + piece.size) bytes.size

theorem size_slice (bytes : ByteArray) (start length : Nat) :
    (slice bytes start length).size = min length (bytes.size - start) := by
  unfold slice
  split
  · simp only [ByteArray.size_extract]; omega
  · simp only [ByteArray.size_empty]; omega

theorem size_overlay {bytes piece : ByteArray} {start : Nat}
    (h : start + piece.size ≤ bytes.size) : (overlay bytes start piece).size = bytes.size := by
  simp only [overlay, ByteArray.size_append, ByteArray.size_extract]
  omega

end VolumeFs.Bytes
