import VolumeFs.Text.Radix

/-!
# Temporary names

A file that is not to be seen yet is written under its own path with a random part and a
common ending. The random part is a universally unique identifier of version 4.
-/

namespace VolumeFs

/-- The random bits of an identifier. -/
structure Token where
  bits : BitVec 128
  deriving DecidableEq

namespace Token

/-- The identifier of the bits: 32 hexadecimal digits, of which the thirteenth is the version
and the seventeenth holds the variant. -/
def identifier (t : Token) : String :=
  let versioned := (t.bits &&& ~~~(0xf#128 <<< 76)) ||| (0x4#128 <<< 76)
  let marked := (versioned &&& ~~~(0x3#128 <<< 62)) ||| (0x2#128 <<< 62)
  Radix.padded 16 32 marked.toNat

def temporaryPath (t : Token) (path : String) : String := path ++ "." ++ t.identifier ++ ".tmp"

end Token
end VolumeFs
