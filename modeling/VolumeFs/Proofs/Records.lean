import Mathlib.Algebra.Group.Nat.Defs
import VolumeFs.Record.Dirent
import VolumeFs.Record.Stat

/-!
# Records laid out and read back

What was laid out is read back, what was read is laid out again as it was, and how many records a
buffer holds is decided by its length and by the lengths of the names in it. Reading never leaves
the buffer: with each access checked it comes to the same.
-/

namespace VolumeFs

namespace LittleEndian

private theorem decode_lt (bytes : List UInt8) : decode bytes < 256 ^ bytes.length := by
  induction bytes with
  | nil => simp [decode]
  | cons b bs ih =>
    have hb := b.toNat_lt
    rw [decode, List.length_cons, Nat.pow_succ]
    omega

private theorem encode_decode (bytes : List UInt8) :
    encode bytes.length (decode bytes) = bytes := by
  induction bytes with
  | nil => rfl
  | cons b bs ih =>
    have hb := b.toNat_lt
    have hdiv : (b.toNat + 256 * decode bs) / 256 = decode bs := by omega
    have hmod : UInt8.ofNat (b.toNat + 256 * decode bs) = b := by
      apply UInt8.toNat_inj.1
      rw [UInt8.toNat_ofNat']
      omega
    rw [decode, List.length_cons, encode, hdiv, hmod, ih]

private theorem decode_take_lt (bytes : List UInt8) (width : Nat) :
    decode (bytes.take width) < 256 ^ width := by
  apply Nat.lt_of_lt_of_le (decode_lt _)
  exact Nat.pow_le_pow_right (by decide) (List.length_take_le width bytes)

@[simp] theorem toNat_word64 (bytes : List UInt8) :
    (UInt64.ofNat (decode (bytes.take 8))).toNat = decode (bytes.take 8) :=
  UInt64.toNat_ofNat_of_lt' (decode_take_lt bytes 8)

@[simp] theorem toNat_word32 (bytes : List UInt8) :
    (UInt32.ofNat (decode (bytes.take 4))).toNat = decode (bytes.take 4) :=
  UInt32.toNat_ofNat_of_lt' (decode_take_lt bytes 4)

private theorem encode_decode_take {bytes : List UInt8} {width : Nat} (h : width ≤ bytes.length) :
    encode width (decode (bytes.take width)) = bytes.take width := by
  have hbytes := encode_decode (bytes.take width)
  rwa [List.length_take, Nat.min_eq_left h] at hbytes

theorem encode_decode_append {bytes rest : List UInt8} {width n : Nat}
    (h : n + width ≤ bytes.length)
    (hrest : n ≤ (bytes.drop width).length → rest = (bytes.drop width).take n) :
    encode width (decode (bytes.take width)) ++ rest = bytes.take (n + width) := by
  rw [encode_decode_take (Nat.le_of_add_left_le h), hrest, Nat.add_comm, List.take_add]
  rw [List.length_drop]
  omega

end LittleEndian

namespace Stat

private theorem encode_of_decode {bytes : List UInt8} {s : Stat} (h : decode bytes = .ok s) :
    s.encode = bytes.take 80 := by
  unfold decode at h
  split at h
  · cases h
  · rename_i hlength
    have hlength : 80 ≤ bytes.length := Nat.le_of_not_lt hlength
    cases h
    simp only [encode, UInt64.toUInt64_toInt64, LittleEndian.toNat_word64,
      LittleEndian.toNat_word32]
    -- All fields but the last have another one behind them.
    iterate 13 refine LittleEndian.encode_decode_append hlength fun hlength => ?_
    exact LittleEndian.encode_decode_take hlength

theorem exists_decode_iff {bytes : List UInt8} :
    (∃ s, decode bytes = .ok s) ↔ 80 ≤ bytes.length := by
  unfold decode encodedLength
  split
  · simp
    omega
  · simp
    omega

end Stat

namespace Dirent

/-- The length of the name, as it stands in the first record of the bytes. -/
def announcedLength (bytes : List UInt8) : Nat := LittleEndian.decode ((bytes.drop 268).take 4)

/-- The first record of the bytes with zeros for padding. -/
def unpadded (bytes : List UInt8) : List UInt8 :=
  bytes.take 265 ++ ([0, 0, 0] ++ (bytes.drop 268).take 4)

private theorem decode_of_length {bytes : List UInt8} (h : 272 ≤ bytes.length) :
    decode bytes =
      if 256 < announcedLength bytes then
        .error (.malformedRecord "dirent"
          ("name length " ++ toString (announcedLength bytes) ++ " exceeds " ++ toString 256))
      else
        .ok {
          ino := .ofNat (LittleEndian.decode (bytes.take 8))
          nameField := fieldOf ((bytes.drop 8).take 256)
          kind := (bytes.drop 264).headD 0
          nameLength := .ofNat (announcedLength bytes) } := by
  have hlength : ¬ bytes.length < encodedLength := Nat.not_lt.2 h
  rw [decode, if_neg hlength]
  simp only [LittleEndian.read, List.drop_drop]
  rfl

theorem exists_decode_iff {bytes : List UInt8} :
    (∃ d, decode bytes = .ok d) ↔ 272 ≤ bytes.length ∧ announcedLength bytes ≤ 256 := by
  by_cases hlength : 272 ≤ bytes.length
  · rw [decode_of_length hlength]
    split
    · simp
      omega
    · simp
      omega
  · have hshort : bytes.length < encodedLength := Nat.not_le.1 hlength
    rw [decode, if_pos hshort]
    simp [hlength]

private theorem toList_fieldOf {bytes : List UInt8} (h : bytes.length = 256) :
    (fieldOf bytes).toList = bytes := by
  have hcapacity : bytes.length ≤ nameCapacity := by simp [h, nameCapacity]
  have hfield := take_toList_fieldOf hcapacity
  rwa [List.take_of_length_le (by simp [h])] at hfield

private theorem encode_of_decode {bytes : List UInt8} {d : Dirent} (h : decode bytes = .ok d) :
    d.encode = unpadded bytes := by
  obtain ⟨hlength, hname⟩ := exists_decode_iff.1 ⟨d, h⟩
  rw [decode_of_length hlength, if_neg (Nat.not_lt.2 hname)] at h
  cases h
  have hkind : (bytes.drop 264).take 1 = [(bytes.drop 264).headD 0] := by
    cases hdrop : bytes.drop 264 with
    | nil =>
      rw [List.drop_eq_nil_iff] at hdrop
      omega
    | cons b rest => rfl
  have hsplit : bytes.take 265 =
      bytes.take 8 ++ ((bytes.drop 8).take 256 ++ (bytes.drop 264).take 1) := by
    rw [show 265 = 8 + (256 + 1) from rfl, List.take_add, List.take_add, List.drop_drop]
  have hfield : ((bytes.drop 8).take 256).length = 256 := by
    simp
    omega
  have hlast : 4 ≤ (bytes.drop 268).length := by
    simp
    omega
  simp only [encode, announcedLength, LittleEndian.toNat_word64, LittleEndian.toNat_word32]
  rw [LittleEndian.encode_decode_take (by omega), LittleEndian.encode_decode_take hlast,
    toList_fieldOf hfield, unpadded, hsplit, hkind]
  simp

end Dirent

namespace Record

variable {α : Type} {decode : List UInt8 → Except StoreError α} {length : Nat}

theorem exists_decodeAll_succ_iff {count : Nat} {bytes : List UInt8} :
    (∃ rs, decodeAll decode length (count + 1) bytes = .ok rs) ↔
      (∃ r, decode bytes = .ok r) ∧
        ∃ rs, decodeAll decode length count (bytes.drop length) = .ok rs := by
  rw [decodeAll]
  cases decode bytes with
  | error e => simp
  | ok r => cases decodeAll decode length count (bytes.drop length) <;> simp

/-- A buffer holds as many records as announced if it is long enough for them and each of them is
legible. -/
theorem exists_decodeAll_iff {Legible : List UInt8 → Prop}
    (h : ∀ bytes, (∃ r, decode bytes = .ok r) ↔ length ≤ bytes.length ∧ Legible bytes)
    (count : Nat) (bytes : List UInt8) :
    (∃ rs, decodeAll decode length count bytes = .ok rs) ↔
      length * count ≤ bytes.length ∧ ∀ i < count, Legible (bytes.drop (length * i)) := by
  induction count generalizing bytes with
  | zero => simp [decodeAll]
  | succ count ih =>
    have hlength : length * (count + 1) ≤ bytes.length ↔
        length ≤ bytes.length ∧ length * count ≤ (bytes.drop length).length := by
      rw [List.length_drop, Nat.mul_succ]
      omega
    rw [exists_decodeAll_succ_iff, h, ih, hlength, Nat.forall_lt_succ_left]
    simp only [List.drop_drop, Nat.mul_zero, List.drop_zero, Nat.mul_succ, Nat.add_comm length]
    exact and_and_and_comm

end Record

/-- A reader that goes along a buffer, and fails where it would leave it. -/
def FieldReader (α : Type) := List UInt8 → Nat → Option (α × Nat)

namespace FieldReader

variable {α β : Type} {buffer : List UInt8} {position width count : Nat}

instance : Monad FieldReader where
  pure a := fun _ position => some (a, position)
  bind read next := fun buffer position =>
    match read buffer position with
    | none => none
    | some (a, position) => next a buffer position

def bytes (count : Nat) : FieldReader (List UInt8) := fun buffer position =>
  if position + count ≤ buffer.length then
    some ((buffer.drop position).take count, position + count)
  else none

def number (width : Nat) : FieldReader Nat := do
  return LittleEndian.decode (← bytes width)

private theorem bytes_bind (h : position + count ≤ buffer.length)
    (next : List UInt8 → FieldReader β) :
    (bytes count >>= next) buffer position =
      next ((buffer.drop position).take count) buffer (position + count) := by
  simp [bind, bytes, h]

private theorem number_bind (h : position + width ≤ buffer.length) (next : Nat → FieldReader β) :
    (number width >>= next) buffer position =
      next (LittleEndian.decode ((buffer.drop position).take width)) buffer (position + width) := by
  simp [number, bind, pure, bytes, h]

end FieldReader

open FieldReader

namespace Stat

def fields : FieldReader Stat := do
  let ino ← number 8
  let size ← number 8
  let blocks ← number 8
  let atime ← number 8
  let mtime ← number 8
  let ctime ← number 8
  let atimeNsec ← number 4
  let mtimeNsec ← number 4
  let ctimeNsec ← number 4
  let mode ← number 4
  let nlink ← number 4
  let blkSize ← number 4
  let uid ← number 4
  let gid ← number 4
  return {
    ino := .ofNat ino, size := .ofNat size, blocks := .ofNat blocks
    atime := (UInt64.ofNat atime).toInt64, mtime := (UInt64.ofNat mtime).toInt64
    ctime := (UInt64.ofNat ctime).toInt64
    atimeNsec := .ofNat atimeNsec, mtimeNsec := .ofNat mtimeNsec
    ctimeNsec := .ofNat ctimeNsec, mode := .ofNat mode, nlink := .ofNat nlink
    blkSize := .ofNat blkSize, uid := .ofNat uid, gid := .ofNat gid }

/-- The attributes at the front of a buffer, each access to which is checked. -/
def decodeWithin (buffer : List UInt8) : Option (Except StoreError Stat) :=
  if buffer.length < encodedLength then
    some (.error (Record.cutShort "stat" encodedLength buffer.length))
  else (fields buffer 0).map fun (s, _) => .ok s

private theorem decodeWithin_eq (buffer : List UInt8) :
    decodeWithin buffer = some (decode buffer) := by
  unfold decodeWithin decode
  split
  · rfl
  · rename_i hlength
    have hlength : 80 ≤ buffer.length := Nat.le_of_not_lt hlength
    simp (disch := omega) only [fields, number_bind, LittleEndian.read, List.drop_drop]
    rfl

end Stat

namespace Dirent

def fields : FieldReader (Except StoreError Dirent) := do
  let ino ← number 8
  let field ← bytes nameCapacity
  let kind ← bytes 1
  let _ ← bytes 3
  let nameLength ← number 4
  if nameCapacity < nameLength then
    return .error (.malformedRecord "dirent"
      ("name length " ++ toString nameLength ++ " exceeds " ++ toString nameCapacity))
  else
    return .ok {
      ino := .ofNat ino, nameField := fieldOf field, kind := kind.headD 0
      nameLength := .ofNat nameLength }

def decodeWithin (buffer : List UInt8) : Option (Except StoreError Dirent) :=
  if buffer.length < encodedLength then
    some (.error (Record.cutShort "dirent" encodedLength buffer.length))
  else (fields buffer 0).map Prod.fst

private theorem decodeWithin_eq (buffer : List UInt8) :
    decodeWithin buffer = some (decode buffer) := by
  by_cases hlength : 272 ≤ buffer.length
  · have henough : ¬ buffer.length < encodedLength := Nat.not_lt.2 hlength
    rw [decodeWithin, if_neg henough, decode_of_length hlength]
    have hcapacity : nameCapacity = 256 := rfl
    have hkind : ((buffer.drop 264).take 1).headD 0 = (buffer.drop 264).headD 0 := by
      cases buffer.drop 264 <;> rfl
    rw [fields, number_bind (by omega), bytes_bind (by omega), bytes_bind (by omega),
      bytes_bind (by omega), number_bind (by omega), ← hkind]
    split
    · rename_i hname
      rw [if_pos (show 256 < announcedLength buffer from hname)]
      rfl
    · rename_i hname
      rw [if_neg (show ¬ 256 < announcedLength buffer from hname)]
      rfl
  · have hshort : buffer.length < encodedLength := Nat.not_le.1 hlength
    rw [decodeWithin, if_pos hshort, decode, if_pos hshort]

end Dirent

namespace Record

/-- The records from one on, as many as announced. Where a record begins is computed in 64 bits, and
must fit them. -/
def decodeAllWithin {α : Type} (decodeWithin : List UInt8 → Option (Except StoreError α))
    (length : Nat) (buffer : List UInt8) (index : Nat) :
    Nat → Option (Except StoreError (List α))
  | 0 => some (.ok [])
  | count + 1 =>
    if index * length < 2 ^ 64 then
      match decodeWithin (buffer.drop (index * length)) with
      | none => none
      | some (.error e) => some (.error e)
      | some (.ok record) =>
        match decodeAllWithin decodeWithin length buffer (index + 1) count with
        | none => none
        | some (.error e) => some (.error e)
        | some (.ok records) => some (.ok (record :: records))
    else none

private theorem decodeAllWithin_eq {α : Type} {decode : List UInt8 → Except StoreError α}
    {decodeWithin : List UInt8 → Option (Except StoreError α)} {length : Nat}
    (hwithin : ∀ buffer, decodeWithin buffer = some (decode buffer))
    (hlength : ∀ {buffer r}, decode buffer = .ok r → length ≤ buffer.length)
    {buffer : List UInt8} (hbuffer : buffer.length < 2 ^ 64) {index : Nat}
    (hindex : index * length ≤ buffer.length) (count : Nat) :
    decodeAllWithin decodeWithin length buffer index count =
      some (decodeAll decode length count (buffer.drop (index * length))) := by
  induction count generalizing index with
  | zero => rfl
  | succ count ih =>
    rw [decodeAllWithin, if_pos (Nat.lt_of_le_of_lt hindex hbuffer), hwithin, decodeAll]
    cases hdecode : decode (buffer.drop (index * length)) with
    | error e => rfl
    | ok r =>
      have hfits := hlength hdecode
      rw [List.length_drop] at hfits
      have hnext : (index + 1) * length ≤ buffer.length := by
        rw [Nat.succ_mul]
        omega
      simp only
      rw [ih hnext, List.drop_drop, Nat.succ_mul]
      cases decodeAll decode length count (buffer.drop (index * length + length)) <;> rfl

/-- What becomes of records of one length. `Fits` says which of them can be laid out and `Accepts`
which buffers hold as many as announced; `laidOut` is how the first bytes of a buffer look when they
were read and are laid out again. -/
structure ReadsBack {α : Type} (length : Nat) (encode : α → List UInt8)
    (decode : List UInt8 → Except StoreError α)
    (decodeAll : List UInt8 → Nat → Except StoreError (List α))
    (decodeWithin : List UInt8 → Option (Except StoreError α)) (Fits : α → Prop)
    (Accepts : List UInt8 → Nat → Prop) (laidOut : List UInt8 → List UInt8) : Prop where
  decode_encode : ∀ r rest, Fits r → decode (encode r ++ rest) = .ok r
  decodeAll_encode : ∀ rs rest, (∀ r ∈ rs, Fits r) →
    decodeAll (rs.flatMap encode ++ rest) rs.length = .ok rs
  accepts_iff : ∀ buffer count, (∃ rs, decodeAll buffer count = .ok rs) ↔ Accepts buffer count
  encode_decode : ∀ buffer r, decode buffer = .ok r → encode r = laidOut buffer
  within : ∀ buffer, decodeWithin buffer = some (decode buffer)
  allWithin : ∀ buffer count, buffer.length < 2 ^ 64 →
    decodeAllWithin decodeWithin length buffer 0 count = some (decodeAll buffer count)

end Record

open Record

private theorem Stat.readsBack :
    ReadsBack 80 Stat.encode Stat.decode Stat.decodeAll Stat.decodeWithin (fun _ => True)
      (fun buffer count => 80 * count ≤ buffer.length) (List.take 80) where
  decode_encode s rest _ := Stat.decode_encode_append s rest
  decodeAll_encode ss rest _ :=
    decodeAll_flatMap_append ss rest (fun s _ => Stat.length_encode s)
      fun s _ => Stat.decode_encode_append s
  accepts_iff buffer count := by
    have hlegible (bytes : List UInt8) :
        (∃ s, Stat.decode bytes = .ok s) ↔ 80 ≤ bytes.length ∧ True := by
      rw [Stat.exists_decode_iff, and_true]
    apply (exists_decodeAll_iff hlegible count buffer).trans
    simp
  encode_decode _ _ := Stat.encode_of_decode
  within := Stat.decodeWithin_eq
  allWithin _ count hbuffer :=
    decodeAllWithin_eq Stat.decodeWithin_eq (fun h => Stat.exists_decode_iff.1 ⟨_, h⟩) hbuffer
      (Nat.zero_mul 80 ▸ Nat.zero_le _) count

private theorem Dirent.readsBack :
    ReadsBack 272 Dirent.encode Dirent.decode Dirent.decodeAll Dirent.decodeWithin
      (fun d => d.nameLength.toNat ≤ 256)
      (fun buffer count => 272 * count ≤ buffer.length ∧
        ∀ i < count, Dirent.announcedLength (buffer.drop (272 * i)) ≤ 256) Dirent.unpadded where
  decode_encode := Dirent.decode_encode_append
  decodeAll_encode ds rest hds :=
    decodeAll_flatMap_append ds rest (fun d _ => Dirent.length_encode d)
      fun d hd rest => Dirent.decode_encode_append d rest (hds d hd)
  accepts_iff buffer count :=
    exists_decodeAll_iff (fun _ => Dirent.exists_decode_iff) count buffer
  encode_decode _ _ := Dirent.encode_of_decode
  within := Dirent.decodeWithin_eq
  allWithin _ count hbuffer :=
    decodeAllWithin_eq Dirent.decodeWithin_eq (fun h => (Dirent.exists_decode_iff.1 ⟨_, h⟩).1)
      hbuffer (Nat.zero_mul 272 ▸ Nat.zero_le _) count

/-- Attributes and entries are read back as they were laid out, one or many, whatever follows them.
A buffer is accepted for as many records as it has room for, if no name in them is longer than its
field, and no reading of it goes beyond its end. A name that fits its field is read back from the
entry and from what was laid out of it. -/
theorem records_read_back :
    ReadsBack 80 Stat.encode Stat.decode Stat.decodeAll Stat.decodeWithin (fun _ => True)
        (fun buffer count => 80 * count ≤ buffer.length) (List.take 80) ∧
      ReadsBack 272 Dirent.encode Dirent.decode Dirent.decodeAll Dirent.decodeWithin
        (fun d => d.nameLength.toNat ≤ 256)
        (fun buffer count => 272 * count ≤ buffer.length ∧
          ∀ i < count, Dirent.announcedLength (buffer.drop (272 * i)) ≤ 256)
        Dirent.unpadded ∧
      ∀ ino name kind rest, name.utf8ByteSize ≤ 256 →
        (Dirent.ofName ino name kind).name = name ∧
          ∃ d, Dirent.decode ((Dirent.ofName ino name kind).encode ++ rest) = .ok d ∧
            d.name = name := by
  refine ⟨Stat.readsBack, Dirent.readsBack, ?_⟩
  intro ino name kind rest hname
  have hread := Dirent.name_ofName ino name kind hname
  have hdecode := Dirent.decode_encode_append (Dirent.ofName ino name kind) rest
    (Dirent.nameLength_ofName_le ino name kind)
  exact ⟨hread, _, hdecode, hread⟩

/-- Two entries and a byte, of which two entries can be read, but not as many as 64 bits can
announce. -/
theorem records_read_back_two_entries :
    let d := Dirent.ofName 9 "résumé.txt" 8
    let buffer := [d, d].flatMap Dirent.encode ++ [1]
    ("résumé.txt".utf8ByteSize ≤ 256 ∧ d.nameLength.toNat ≤ 256 ∧ buffer.length < 2 ^ 64) ∧
      d.name = "résumé.txt" ∧ Dirent.decodeAll buffer 2 = .ok [d, d] ∧
      (¬ ∃ ds, Dirent.decodeAll buffer (2 ^ 64 - 1) = .ok ds) ∧
      ∃ e, decodeAllWithin Dirent.decodeWithin 272 buffer 0 (2 ^ 64 - 1) = some (.error e) := by
  intro d buffer
  obtain ⟨-, hentries, hnames⟩ := records_read_back
  have hname : "résumé.txt".utf8ByteSize ≤ 256 := by decide +kernel
  have hlength : d.nameLength.toNat ≤ 256 := Dirent.nameLength_ofName_le 9 "résumé.txt" 8
  have hbuffer : buffer.length = 545 := by
    simp [buffer, Dirent.encodedLength]
  have hfew : ¬ ∃ ds, Dirent.decodeAll buffer (2 ^ 64 - 1) = .ok ds := by
    rw [hentries.accepts_iff, hbuffer]
    omega
  refine ⟨⟨hname, hlength, by omega⟩, (hnames 9 _ 8 [] hname).1, ?_, hfew, ?_⟩
  · exact hentries.decodeAll_encode [d, d] [1] (by simpa using hlength)
  · rw [hentries.allWithin buffer _ (by omega)]
    cases hdecode : Dirent.decodeAll buffer (2 ^ 64 - 1) with
    | error e => exact ⟨e, rfl⟩
    | ok ds => exact absurd ⟨ds, hdecode⟩ hfew

end VolumeFs
