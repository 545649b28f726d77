import VolumeFs.Record.Basic

/-!
# Attributes of an entry

The attributes that the store keeps for an inode, and their layout: six words of 64 bits, then
eight of 32 bits, eighty bytes in all. What was laid out is read back.
-/

namespace VolumeFs

structure Stat where
  ino : UInt64 := 0
  size : UInt64 := 0
  blocks : UInt64 := 0
  atime : Int64 := 0
  mtime : Int64 := 0
  ctime : Int64 := 0
  atimeNsec : UInt32 := 0
  mtimeNsec : UInt32 := 0
  ctimeNsec : UInt32 := 0
  mode : UInt32 := 0
  nlink : UInt32 := 0
  blkSize : UInt32 := 0
  uid : UInt32 := 0
  gid : UInt32 := 0
  deriving DecidableEq, Inhabited

def Mode.typeMask : UInt32 := 0o170000
def Mode.directory : UInt32 := 0o040000
def Mode.regular : UInt32 := 0o100000
def Mode.link : UInt32 := 0o120000
/-- The bits of a mode that are not type bits. -/
def Mode.permissions (mode : UInt32) : UInt32 := mode &&& ~~~Mode.typeMask
def Mode.type (mode : UInt32) : UInt32 := mode &&& Mode.typeMask

namespace Stat

def isDirectory (s : Stat) : Bool := Mode.type s.mode == Mode.directory

def isFile (s : Stat) : Bool := Mode.type s.mode == Mode.regular

def permissions (s : Stat) : UInt32 := Mode.permissions s.mode

def modifiedMs (s : Stat) : Int64 := s.mtime * 1000 + (s.mtimeNsec / 1000000).toUInt64.toInt64

def encodedLength : Nat := 80

def encode (s : Stat) : List UInt8 :=
  LittleEndian.encode 8 s.ino.toNat ++ (LittleEndian.encode 8 s.size.toNat ++
  (LittleEndian.encode 8 s.blocks.toNat ++ (LittleEndian.encode 8 s.atime.toUInt64.toNat ++
  (LittleEndian.encode 8 s.mtime.toUInt64.toNat ++
  (LittleEndian.encode 8 s.ctime.toUInt64.toNat ++ (LittleEndian.encode 4 s.atimeNsec.toNat ++
  (LittleEndian.encode 4 s.mtimeNsec.toNat ++ (LittleEndian.encode 4 s.ctimeNsec.toNat ++
  (LittleEndian.encode 4 s.mode.toNat ++ (LittleEndian.encode 4 s.nlink.toNat ++
  (LittleEndian.encode 4 s.blkSize.toNat ++ (LittleEndian.encode 4 s.uid.toNat ++
  LittleEndian.encode 4 s.gid.toNat))))))))))))

/-- The attributes laid out in front of the bytes, which must be enough. -/
def decode (bytes : List UInt8) : Except StoreError Stat :=
  if bytes.length < encodedLength then
    .error (Record.cutShort "stat" encodedLength bytes.length)
  else
    let (ino, bytes) := LittleEndian.read 8 bytes
    let (size, bytes) := LittleEndian.read 8 bytes
    let (blocks, bytes) := LittleEndian.read 8 bytes
    let (atime, bytes) := LittleEndian.read 8 bytes
    let (mtime, bytes) := LittleEndian.read 8 bytes
    let (ctime, bytes) := LittleEndian.read 8 bytes
    let (atimeNsec, bytes) := LittleEndian.read 4 bytes
    let (mtimeNsec, bytes) := LittleEndian.read 4 bytes
    let (ctimeNsec, bytes) := LittleEndian.read 4 bytes
    let (mode, bytes) := LittleEndian.read 4 bytes
    let (nlink, bytes) := LittleEndian.read 4 bytes
    let (blkSize, bytes) := LittleEndian.read 4 bytes
    let (uid, bytes) := LittleEndian.read 4 bytes
    let (gid, _) := LittleEndian.read 4 bytes
    .ok {
      ino := .ofNat ino, size := .ofNat size, blocks := .ofNat blocks
      atime := (UInt64.ofNat atime).toInt64, mtime := (UInt64.ofNat mtime).toInt64
      ctime := (UInt64.ofNat ctime).toInt64
      atimeNsec := .ofNat atimeNsec, mtimeNsec := .ofNat mtimeNsec
      ctimeNsec := .ofNat ctimeNsec, mode := .ofNat mode, nlink := .ofNat nlink
      blkSize := .ofNat blkSize, uid := .ofNat uid, gid := .ofNat gid }

def decodeAll (bytes : List UInt8) (count : Nat) : Except StoreError (List Stat) :=
  Record.decodeAll decode encodedLength count bytes

@[simp] theorem length_encode (s : Stat) : s.encode.length = encodedLength := by
  simp [encode, encodedLength]

theorem decode_encode_append (s : Stat) (rest : List UInt8) :
    decode (s.encode ++ rest) = .ok s := by
  have hlen : ¬ (s.encode ++ rest).length < encodedLength := by simp
  have h8 (w : UInt64) : w.toNat % Nat.pow 256 8 = w.toNat := Nat.mod_eq_of_lt w.toNat_lt
  have h4 (w : UInt32) : w.toNat % Nat.pow 256 4 = w.toNat := Nat.mod_eq_of_lt w.toNat_lt
  rw [decode, if_neg hlen]
  simp only [encode, List.append_assoc, LittleEndian.read_encode_append]
  simp [h8, h4]

theorem decodeAll_flatMap_encode (stats : List Stat) :
    decodeAll (stats.flatMap encode) stats.length = .ok stats := by
  have h := Record.decodeAll_flatMap_append stats [] (fun s _ => length_encode s)
    fun s _ => decode_encode_append s
  rwa [List.append_nil] at h

end Stat
end VolumeFs
