/-!
# Text in UTF-8 that may be broken

Bytes are read as UTF-8, and each maximal piece that begins no character is read as one
replacement character. A piece is a lead byte with the bytes after it that could still have
continued a character, or a single byte that can begin none.
-/

namespace VolumeFs.Utf8

/-- How many bytes a character with this lead byte takes; one for a byte that leads none. -/
def width (lead : UInt8) : Nat :=
  if 0xC2 ≤ lead && lead ≤ 0xDF then 2
  else if 0xE0 ≤ lead && lead ≤ 0xEF then 3
  else if 0xF0 ≤ lead && lead ≤ 0xF4 then 4
  else 1

/-- Whether a byte may stand second after this lead byte: overlong forms, surrogates and code
points above the last one are ruled out here. -/
def mayFollow (lead second : UInt8) : Bool :=
  if lead = 0xE0 then 0xA0 ≤ second && second ≤ 0xBF
  else if lead = 0xED then 0x80 ≤ second && second ≤ 0x9F
  else if lead = 0xF0 then 0x90 ≤ second && second ≤ 0xBF
  else if lead = 0xF4 then 0x80 ≤ second && second ≤ 0x8F
  else 0x80 ≤ second && second ≤ 0xBF

/-- Whether a byte continues a character at its third or fourth place. -/
def isContinuation (byte : UInt8) : Bool := 0x80 ≤ byte && byte ≤ 0xBF

/-- The length of the broken piece at an index where no whole character begins. -/
def brokenLength (bytes : ByteArray) (i : Nat) : Nat :=
  let lead := bytes[i]?.getD 0
  if width lead = 1 || !(bytes[i + 1]?.any (mayFollow lead)) then 1
  else if width lead = 4 && bytes[i + 2]?.any isContinuation then 3
  else 2

theorem brokenLength_pos (bytes : ByteArray) (i : Nat) : 0 < brokenLength bytes i := by
  simp only [brokenLength]
  split
  · decide
  · split <;> decide

def decodeFrom (bytes : ByteArray) (i : Nat) : List Char :=
  if _h : i < bytes.size then
    match bytes.utf8DecodeChar? i with
    | some c => c :: decodeFrom bytes (i + c.utf8Size)
    | none => '\uFFFD' :: decodeFrom bytes (i + brokenLength bytes i)
  else []
termination_by bytes.size - i
decreasing_by
  · have := c.utf8Size_pos; omega
  · have := brokenLength_pos bytes i; omega

/-- The text that the bytes hold, with replacement characters for what is broken. -/
def decode (bytes : ByteArray) : String := String.ofList (decodeFrom bytes 0)

private theorem size_utf8Encode_singleton (c : Char) : [c].utf8Encode.size = c.utf8Size := by
  rw [List.utf8Encode_singleton]
  simp [ByteArray.size]

theorem decodeFrom_append_utf8Encode (front : ByteArray) (cs : List Char) :
    decodeFrom (front ++ cs.utf8Encode) front.size = cs := by
  induction cs generalizing front with
  | nil => simp [decodeFrom]
  | cons c cs ih =>
    have hread : (front ++ (c :: cs).utf8Encode).utf8DecodeChar? front.size = some c := by
      rw [ByteArray.utf8DecodeChar?_eq_utf8DecodeChar?_extract,
        ByteArray.extract_append_eq_right (by simp) (by simp)]
      exact List.utf8DecodeChar?_utf8Encode_cons
    have hsplit : front ++ (c :: cs).utf8Encode = front ++ [c].utf8Encode ++ cs.utf8Encode := by
      rw [List.utf8Encode_cons, ByteArray.append_assoc]
    have hsize : (front ++ [c].utf8Encode).size = front.size + c.utf8Size := by
      rw [ByteArray.size_append, size_utf8Encode_singleton]
    have hpos := c.utf8Size_pos
    rw [decodeFrom, dif_pos, hread]
    · simp only
      rw [hsplit, ← hsize, ih]
    · rw [hsplit, ByteArray.size_append, hsize]
      omega

/-- A text is read back from its bytes. -/
theorem decode_toUTF8 (text : String) : decode text.toUTF8 = text := by
  have h := decodeFrom_append_utf8Encode .empty text.toList
  rw [ByteArray.empty_append, String.utf8Encode_toList, ByteArray.size_empty] at h
  rw [decode, String.toUTF8, h, String.ofList_toList]

end VolumeFs.Utf8
