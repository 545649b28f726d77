import VolumeFs.Record.Basic
import VolumeFs.Text.Described
import VolumeFs.Text.Utf8

/-!
# Entries of a directory

An entry has an inode number, a name of at most 256 bytes in a fixed field, a kind and the
length of the name. Its layout takes 272 bytes, three of which are padding. What was laid out is
read back, and so is a name that fits its field.
-/

namespace VolumeFs

/-- An entry as the store lists it. -/
structure Dirent where
  ino : UInt64
  nameField : Vector UInt8 256
  kind : UInt8
  nameLength : UInt32
  deriving DecidableEq

namespace Dirent

def nameCapacity : Nat := 256

def directoryKind : UInt8 := 4

def regularKind : UInt8 := 8

/-- The name field that begins with the given bytes, cut off or filled with zeros. -/
def fieldOf (bytes : List UInt8) : Vector UInt8 256 :=
  Vector.ofFn fun i => bytes[i.val]?.getD 0

/-- The entry of a name. Of a long name only the first bytes are kept, even if that breaks a
character in two. -/
def ofName (ino : UInt64) (name : String) (kind : UInt8) : Dirent :=
  let bytes := name.toUTF8.data.toList
  { ino, nameField := fieldOf bytes, kind
    nameLength := .ofNat (min bytes.length nameCapacity) }

def nameBytes (d : Dirent) : List UInt8 := d.nameField.toList.take d.nameLength.toNat

/-- The name, read as UTF-8 that may be broken. -/
def name (d : Dirent) : String := Utf8.decode ⟨d.nameBytes.toArray⟩

def encodedLength : Nat := 272

def encode (d : Dirent) : List UInt8 :=
  LittleEndian.encode 8 d.ino.toNat ++ (d.nameField.toList ++
  (d.kind :: ([0, 0, 0] ++ LittleEndian.encode 4 d.nameLength.toNat)))

/-- The entry laid out in front of the bytes, which must be enough and must not claim a name
longer than its field. The padding is not looked at. -/
def decode (bytes : List UInt8) : Except StoreError Dirent :=
  if bytes.length < encodedLength then
    .error (Record.cutShort "dirent" encodedLength bytes.length)
  else
    let (ino, bytes) := LittleEndian.read 8 bytes
    let field := bytes.take nameCapacity
    let bytes := bytes.drop nameCapacity
    let kind := bytes.headD 0
    let (nameLength, _) := LittleEndian.read 4 (bytes.drop 4)
    if nameCapacity < nameLength then
      .error (.malformedRecord "dirent"
        ("name length " ++ toString nameLength ++ " exceeds " ++ toString nameCapacity))
    else
      .ok { ino := .ofNat ino, nameField := fieldOf field, kind, nameLength := .ofNat nameLength }

def decodeAll (bytes : List UInt8) (count : Nat) : Except StoreError (List Dirent) :=
  Record.decodeAll decode encodedLength count bytes

/-- The description of an entry shows its name as text. -/
def described (d : Dirent) : String :=
  Text.describedRecord "Dirent"
    [("ino", toString d.ino.toNat), ("name", Text.quoted d.name),
      ("d_type", toString d.kind.toNat)]

theorem fieldOf_toList (field : Vector UInt8 256) : fieldOf field.toList = field := by
  ext i hi
  simp [fieldOf]

@[simp] theorem length_encode (d : Dirent) : d.encode.length = encodedLength := by
  simp [encode, encodedLength]

theorem decode_encode_append (d : Dirent) (rest : List UInt8)
    (h : d.nameLength.toNat ≤ nameCapacity) : decode (d.encode ++ rest) = .ok d := by
  have hlen : ¬ (d.encode ++ rest).length < encodedLength := by simp
  have hcap : nameCapacity = 256 := rfl
  have h8 (w : UInt64) : w.toNat % Nat.pow 256 8 = w.toNat := Nat.mod_eq_of_lt w.toNat_lt
  have h4 (w : UInt32) : w.toNat % Nat.pow 256 4 = w.toNat := Nat.mod_eq_of_lt w.toNat_lt
  rw [decode, if_neg hlen]
  simp only [encode, List.append_assoc, List.cons_append, LittleEndian.read_encode_append]
  rw [List.drop_left' (by simp [hcap]), List.take_left' (by simp [hcap])]
  simp only [List.drop_succ_cons, List.drop_zero, List.nil_append]
  rw [LittleEndian.read_encode_append]
  simp only [h4, h8]
  rw [if_neg (by omega)]
  simp [fieldOf_toList]

theorem decodeAll_flatMap_encode (entries : List Dirent)
    (h : ∀ d ∈ entries, d.nameLength.toNat ≤ nameCapacity) :
    decodeAll (entries.flatMap encode) entries.length = .ok entries := by
  have h := Record.decodeAll_flatMap_append entries [] (fun d _ => length_encode d)
    fun d hd rest => decode_encode_append d rest (h d hd)
  rwa [List.append_nil] at h

theorem nameLength_ofName_le (ino : UInt64) (name : String) (kind : UInt8) :
    (ofName ino name kind).nameLength.toNat ≤ nameCapacity := by
  have hcap : nameCapacity = 256 := rfl
  simp only [ofName, UInt32.toNat_ofNat']
  omega

theorem take_toList_fieldOf {bytes : List UInt8} (h : bytes.length ≤ nameCapacity) :
    (fieldOf bytes).toList.take bytes.length = bytes := by
  have hcap : nameCapacity = 256 := rfl
  apply List.ext_getElem
  · simp
    omega
  · intro i h₁ h₂
    simp [fieldOf, h₂]

/-- A name that fits its field is read back from the entry. -/
theorem name_ofName (ino : UInt64) (name : String) (kind : UInt8)
    (h : name.utf8ByteSize ≤ nameCapacity) : (ofName ino name kind).name = name := by
  have hcap : nameCapacity = 256 := rfl
  have hsize : name.toUTF8.data.toList.length = name.utf8ByteSize := by
    rw [Array.length_toList, ByteArray.size_data, String.toUTF8, String.size_toByteArray]
  have hbytes : (ofName ino name kind).nameBytes = name.toUTF8.data.toList := by
    rw [nameBytes]
    simp only [ofName]
    rw [UInt32.toNat_ofNat', Nat.mod_eq_of_lt (by omega), Nat.min_eq_left (by omega)]
    exact take_toList_fieldOf (by omega)
  rw [Dirent.name, hbytes]
  exact Utf8.decode_toUTF8 name

end Dirent
end VolumeFs
