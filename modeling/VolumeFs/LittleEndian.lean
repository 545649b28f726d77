/-!
# Little-endian numbers

A number is laid out in a fixed count of bytes, the lowest first. Writing keeps the number modulo
what fits; reading after writing gives that remainder back.
-/

namespace VolumeFs.LittleEndian

/-- The lowest bytes of a number, as many as the width says, lowest first. -/
def encode : Nat → Nat → List UInt8
  | 0, _ => []
  | width + 1, n => UInt8.ofNat n :: encode width (n / 256)

/-- The number that bytes stand for, lowest first. -/
def decode : List UInt8 → Nat
  | [] => 0
  | b :: bs => b.toNat + 256 * decode bs

@[simp] theorem length_encode (width n : Nat) : (encode width n).length = width := by
  induction width generalizing n with
  | zero => rfl
  | succ width ih => simp [encode, ih]

theorem decode_encode (width n : Nat) : decode (encode width n) = n % Nat.pow 256 width := by
  induction width generalizing n with
  | zero => simp [encode, decode, Nat.mod_one]
  | succ width ih =>
    have hpow : Nat.pow 256 (width + 1) = 256 * Nat.pow 256 width := Nat.mul_comm _ _
    simp only [encode, decode, ih, UInt8.toNat_ofNat']
    rw [hpow, Nat.mod_mul]

/-- Splits the first few bytes off and reads them as a number. -/
def read (width : Nat) (bytes : List UInt8) : Nat × List UInt8 :=
  (decode (bytes.take width), bytes.drop width)

@[simp] theorem read_encode_append (width n : Nat) (rest : List UInt8) :
    read width (encode width n ++ rest) = (n % Nat.pow 256 width, rest) := by
  simp [read, decode_encode]

end VolumeFs.LittleEndian
