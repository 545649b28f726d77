/-!
# Numbers in a given base

Digits with letters in lower case, and digits padded with zeros to a fixed width.
-/

namespace VolumeFs.Radix

/-- The digits of a number, most significant first and without leading zeros. -/
def digits (base n : Nat) : String := String.ofList (Nat.toDigits base n)

/-- The digits of a number, with zeros in front up to a least width. -/
def padded (base width n : Nat) : String :=
  let cs := Nat.toDigits base n
  String.ofList (List.replicate (width - cs.length) '0' ++ cs)

/-- Two hexadecimal digits for each byte. -/
def hexBytes (bytes : List UInt8) : String :=
  String.join (bytes.map fun b => padded 16 2 b.toNat)

end VolumeFs.Radix
