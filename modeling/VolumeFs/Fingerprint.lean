import VolumeFs.Fingerprint.Xxh3

/-!
# Fingerprints of contents

Two versions of a file are told apart without reading them: the fingerprint is the hash of the
size and of the time of the last modification.
-/

namespace VolumeFs.Fingerprint

/-- The hash of some bytes, as 32 hexadecimal digits. -/
def ofBytes (bytes : ByteArray) : String := (Xxh3.hash bytes).hex

/-- The sixteen bytes of a size and a time in milliseconds. -/
def contentKey (size : UInt64) (modifiedMs : Int64) : ByteArray :=
  ⟨(LittleEndian.encode 8 size.toNat
    ++ LittleEndian.encode 8 modifiedMs.toUInt64.toNat).toArray⟩

def ofContent (size : UInt64) (modifiedMs : Int64) : String :=
  ofBytes (contentKey size modifiedMs)

end VolumeFs.Fingerprint
