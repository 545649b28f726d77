import VolumeFs.LittleEndian
import VolumeFs.Text.Radix

/-!
# The XXH3 hash of 128 bits

The published hash with seed zero and the default secret. Short inputs, up to 16 bytes, go
through one or two multiplications; inputs up to 240 bytes are mixed in pairs of 16 bytes; longer
ones run through eight lanes, stripe by stripe of 64 bytes.
-/

namespace VolumeFs.Xxh3

structure Hash where
  high : UInt64
  low : UInt64
  deriving DecidableEq

def Hash.hex (h : Hash) : String :=
  Radix.padded 16 32 (h.high.toNat * UInt64.size + h.low.toNat)

def prime32a : UInt64 := 0x9E3779B1
def prime32b : UInt64 := 0x85EBCA77
def prime32c : UInt64 := 0xC2B2AE3D
def prime64a : UInt64 := 0x9E3779B185EBCA87
def prime64b : UInt64 := 0xC2B2AE3D27D4EB4F
def prime64c : UInt64 := 0x165667B19E3779F9
def prime64d : UInt64 := 0x85EBCA77C2B2AE63
def prime64e : UInt64 := 0x27D4EB2F165667C5
def primeMixA : UInt64 := 0x165667919E3779F9
def primeMixB : UInt64 := 0x9FB21C651E98DF25

def secret : ByteArray := ⟨#[
  0xb8, 0xfe, 0x6c, 0x39, 0x23, 0xa4, 0x4b, 0xbe, 0x7c, 0x01, 0x81, 0x2c, 0xf7, 0x21, 0xad, 0x1c,
  0xde, 0xd4, 0x6d, 0xe9, 0x83, 0x90, 0x97, 0xdb, 0x72, 0x40, 0xa4, 0xa4, 0xb7, 0xb3, 0x67, 0x1f,
  0xcb, 0x79, 0xe6, 0x4e, 0xcc, 0xc0, 0xe5, 0x78, 0x82, 0x5a, 0xd0, 0x7d, 0xcc, 0xff, 0x72, 0x21,
  0xb8, 0x08, 0x46, 0x74, 0xf7, 0x43, 0x24, 0x8e, 0xe0, 0x35, 0x90, 0xe6, 0x81, 0x3a, 0x26, 0x4c,
  0x3c, 0x28, 0x52, 0xbb, 0x91, 0xc3, 0x00, 0xcb, 0x88, 0xd0, 0x65, 0x8b, 0x1b, 0x53, 0x2e, 0xa3,
  0x71, 0x64, 0x48, 0x97, 0xa2, 0x0d, 0xf9, 0x4e, 0x38, 0x19, 0xef, 0x46, 0xa9, 0xde, 0xac, 0xd8,
  0xa8, 0xfa, 0x76, 0x3f, 0xe3, 0x9c, 0x34, 0x3f, 0xf9, 0xdc, 0xbb, 0xc7, 0xc7, 0x0b, 0x4f, 0x1d,
  0x8a, 0x51, 0xe0, 0x4b, 0xcd, 0xb4, 0x59, 0x31, 0xc8, 0x9f, 0x7e, 0xc9, 0xd9, 0x78, 0x73, 0x64,
  0xea, 0xc5, 0xac, 0x83, 0x34, 0xd3, 0xeb, 0xc3, 0xc5, 0x81, 0xa0, 0xff, 0xfa, 0x13, 0x63, 0xeb,
  0x17, 0x0d, 0xdd, 0x51, 0xb7, 0xf0, 0xda, 0x49, 0xd3, 0x16, 0x55, 0x26, 0x29, 0xd4, 0x68, 0x9e,
  0x2b, 0x16, 0xbe, 0x58, 0x7d, 0x47, 0xa1, 0xfc, 0x8f, 0xf8, 0xb8, 0xd1, 0x7a, 0xd0, 0x31, 0xce,
  0x45, 0xcb, 0x3a, 0x8f, 0x95, 0x16, 0x04, 0x28, 0xaf, 0xd7, 0xfb, 0xca, 0xbb, 0x4b, 0x40, 0x7e]⟩

/-- The little-endian number of some bytes at an index. -/
def wordAt (width : Nat) (bytes : ByteArray) (i : Nat) : UInt64 :=
  .ofNat (LittleEndian.decode (bytes.extract i (i + width)).data.toList)

def word64 (bytes : ByteArray) (i : Nat) : UInt64 := wordAt 8 bytes i

/-- The 64-bit word of the secret at an index. -/
def key (i : Nat) : UInt64 := word64 secret i

/-- The high and the low half of a product. -/
def mulWide (a b : UInt64) : Hash :=
  let p := a.toNat * b.toNat
  ⟨.ofNat (p / UInt64.size), .ofNat p⟩

/-- The two halves of a product, folded together. -/
def mulFold (a b : UInt64) : UInt64 := (mulWide a b).high ^^^ (mulWide a b).low

def low32 (x : UInt64) : UInt64 := x &&& 0xFFFFFFFF

def swap32 (x : UInt64) : UInt64 :=
  .ofNat (LittleEndian.decode (LittleEndian.encode 4 x.toNat).reverse)

def swap64 (x : UInt64) : UInt64 :=
  .ofNat (LittleEndian.decode (LittleEndian.encode 8 x.toNat).reverse)

def rotate32 (x : UInt64) (n : UInt64) : UInt64 := low32 ((x <<< n) ||| (x >>> (32 - n)))

/-- The final mix of the older 64-bit hash. -/
def avalancheOld (h : UInt64) : UInt64 :=
  let h := (h ^^^ (h >>> 33)) * prime64b
  let h := (h ^^^ (h >>> 29)) * prime64c
  h ^^^ (h >>> 32)

def avalanche (h : UInt64) : UInt64 :=
  let h := (h ^^^ (h >>> 37)) * primeMixA
  h ^^^ (h >>> 32)

def hashEmpty : Hash :=
  ⟨avalancheOld (key 80 ^^^ key 88), avalancheOld (key 64 ^^^ key 72)⟩

def hashUpTo3 (input : ByteArray) : Hash :=
  let n := input.size
  let byte (i : Nat) : UInt64 := (input[i]?.getD 0).toUInt64
  let low := (byte 0 <<< 16) ||| (byte (n / 2) <<< 24) ||| byte (n - 1) ||| (UInt64.ofNat n <<< 8)
  let high := rotate32 (swap32 low) 13
  ⟨avalancheOld (high ^^^ (wordAt 4 secret 8 ^^^ wordAt 4 secret 12)),
    avalancheOld (low ^^^ (wordAt 4 secret 0 ^^^ wordAt 4 secret 4))⟩

def hashUpTo8 (input : ByteArray) : Hash :=
  let n := input.size
  let word := wordAt 4 input 0 + (wordAt 4 input (n - 4) <<< 32)
  let product := mulWide (word ^^^ (key 16 ^^^ key 24)) (prime64a + (UInt64.ofNat n <<< 2))
  let high := product.high + (product.low <<< 1)
  let low := product.low ^^^ (high >>> 3)
  let low := (low ^^^ (low >>> 35)) * primeMixB
  ⟨avalanche high, low ^^^ (low >>> 28)⟩

def hashUpTo16 (input : ByteArray) : Hash :=
  let n := input.size
  let first := word64 input 0
  let last := word64 input (n - 8)
  let product := mulWide (first ^^^ last ^^^ (key 32 ^^^ key 40)) prime64a
  let low := product.low + (UInt64.ofNat (n - 1) <<< 54)
  let last := last ^^^ (key 48 ^^^ key 56)
  let high := product.high + last + low32 last * (prime32b - 1)
  let low := low ^^^ swap64 high
  let product := mulWide low prime64b
  ⟨avalanche (product.high + high * prime64b), avalanche product.low⟩

/-- The folded product of sixteen bytes with sixteen bytes of the secret. -/
def mix16 (input : ByteArray) (i k : Nat) : UInt64 :=
  mulFold (word64 input i ^^^ key k) (word64 input (i + 8) ^^^ key (k + 8))

/-- Mixes two pieces of sixteen bytes into both halves. -/
def mix32 (input : ByteArray) (acc : Hash) (i j k : Nat) : Hash :=
  ⟨(acc.high + mix16 input j (k + 16)) ^^^ (word64 input i + word64 input (i + 8)),
    (acc.low + mix16 input i k) ^^^ (word64 input j + word64 input (j + 8))⟩

/-- The hash of the halves mixed from up to 240 bytes. -/
def finishMixed (n : Nat) (acc : Hash) : Hash :=
  ⟨0 - avalanche (acc.low * prime64a + acc.high * prime64d + .ofNat n * prime64b),
    avalanche (acc.low + acc.high)⟩

/-- The hash of 17 to 128 bytes: pieces from both ends inwards, the innermost first. -/
def hashUpTo128 (input : ByteArray) : Hash :=
  let n := input.size
  let rounds := (n - 1) / 32
  finishMixed n <| (List.range (rounds + 1)).reverse.foldl
    (fun acc r => mix32 input acc (16 * r) (n - 16 * (r + 1)) (32 * r))
    ⟨0, .ofNat n * prime64a⟩

def hashUpTo240 (input : ByteArray) : Hash :=
  let n := input.size
  let front := (List.range 4).foldl
    (fun acc r => mix32 input acc (32 * r) (32 * r + 16) (32 * r)) ⟨0, .ofNat n * prime64a⟩
  let front : Hash := ⟨avalanche front.high, avalanche front.low⟩
  let body := (List.range ((n - 128) / 32)).foldl
    (fun acc r => mix32 input acc (32 * r + 128) (32 * r + 144) (32 * r + 3)) front
  finishMixed n (mix32 input body (n - 16) (n - 32) 103)

/-- The eight lanes through which long inputs run. -/
abbrev Lanes := Vector UInt64 8

def initialLanes : Lanes :=
  #v[prime32c, prime64a, prime64b, prime64c, prime64d, prime32b, prime64e, prime32a]

/-- Takes in the stripe of 64 bytes at an index: each lane gets the word of its neighbour and
the product of the halves of its own word under the secret. -/
def absorb (input : ByteArray) (lanes : Lanes) (i k : Nat) : Lanes :=
  let words : Lanes := Vector.ofFn fun lane => word64 input (i + 8 * lane.val)
  Vector.ofFn fun lane =>
    let keyed := words[lane] ^^^ key (k + 8 * lane.val)
    lanes[lane] + words[lane.val ^^^ 1]?.getD 0 + low32 keyed * (keyed >>> 32)

/-- Scrambles the lanes at the end of a block of sixteen stripes. -/
def scramble (lanes : Lanes) : Lanes :=
  Vector.ofFn fun lane =>
    let x := lanes[lane]
    ((x ^^^ (x >>> 47)) ^^^ key (128 + 8 * lane.val)) * prime32a

/-- One half of the hash, merged from the lanes. -/
def merge (lanes : Lanes) (k : Nat) (start : UInt64) : UInt64 :=
  let lane (i : Nat) : UInt64 := lanes[i]?.getD 0
  avalanche <| (List.range 4).foldl
    (fun sum r => sum +
      mulFold (lane (2 * r) ^^^ key (k + 16 * r)) (lane (2 * r + 1) ^^^ key (k + 16 * r + 8)))
    start

def hashLong (input : ByteArray) : Hash :=
  let n := input.size
  let lanes := (List.range ((n - 1) / 64)).foldl
    (fun lanes s =>
      let lanes := absorb input lanes (64 * s) (8 * (s % 16))
      if s % 16 = 15 then scramble lanes else lanes)
    initialLanes
  let lanes := absorb input lanes (n - 64) 121
  ⟨merge lanes 117 (~~~(.ofNat n * prime64b)), merge lanes 11 (.ofNat n * prime64a)⟩

def hash (input : ByteArray) : Hash :=
  if input.size = 0 then hashEmpty
  else if input.size ≤ 3 then hashUpTo3 input
  else if input.size ≤ 8 then hashUpTo8 input
  else if input.size ≤ 16 then hashUpTo16 input
  else if input.size ≤ 128 then hashUpTo128 input
  else if input.size ≤ 240 then hashUpTo240 input
  else hashLong input

end VolumeFs.Xxh3
