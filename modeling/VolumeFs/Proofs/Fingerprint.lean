import Mathlib.Data.Nat.ModEq
import Mathlib.Logic.Function.Basic
import VolumeFs.Status

/-!
# Fingerprints tell versions apart

On the sixteen bytes of a size and a time the hash can be undone: every step of it is a product
with an odd number, a word mixed with its own upper bits, or a word mixed with another one that is
known by then. So two contents have the same fingerprint only if they agree in size and in time.
-/

namespace VolumeFs

namespace Radix

private def digitValue (c : Char) : Nat := if c.toNat < 97 then c.toNat - 48 else c.toNat - 87

private def valueFrom (base n : Nat) (digits : List Char) : Nat :=
  digits.foldl (fun n c => base * n + digitValue c) n

private theorem digitValue_digitChar {d : Nat} (h : d < 16) : digitValue d.digitChar = d := by
  have hall : ∀ d : Fin 16, digitValue d.val.digitChar = d.val := by decide
  exact hall ⟨d, h⟩

private theorem valueFrom_toDigits {base : Nat} (hbase : 1 < base) (hle : base ≤ 16) (n : Nat) :
    valueFrom base 0 (Nat.toDigits base n) = n := by
  induction n using Nat.strong_induction_on with
  | _ n ih =>
    rw [Nat.toDigits_eq_if hbase]
    split
    · rename_i hlt
      simp [valueFrom, digitValue_digitChar (Nat.lt_of_lt_of_le hlt hle)]
    · rename_i hge
      have hpos : 0 < base := Nat.zero_lt_of_lt hbase
      have hfront := ih (n / base) (Nat.div_lt_self (by omega) hbase)
      have hlast : n % base < 16 := Nat.lt_of_lt_of_le (Nat.mod_lt n hpos) hle
      unfold valueFrom at hfront ⊢
      rw [List.foldl_append, hfront]
      simp only [List.foldl_cons, List.foldl_nil, digitValue_digitChar hlast]
      exact Nat.div_add_mod n base

private theorem valueFrom_replicate_zero (base count : Nat) :
    valueFrom base 0 (List.replicate count '0') = 0 := by
  induction count with
  | zero => rfl
  | succ count ih =>
    have hzero : digitValue '0' = 0 := by decide
    rw [List.replicate_succ, valueFrom, List.foldl_cons, Nat.mul_zero, hzero]
    exact ih

private theorem valueFrom_padded {base : Nat} (hbase : 1 < base) (hle : base ≤ 16) (width n : Nat) :
    valueFrom base 0 (padded base width n).toList = n := by
  have hzeros := valueFrom_replicate_zero base (width - (Nat.toDigits base n).length)
  rw [padded, String.toList_ofList]
  unfold valueFrom at hzeros ⊢
  rw [List.foldl_append, hzeros]
  exact valueFrom_toDigits hbase hle n

private theorem padded_injective {base : Nat} (hbase : 1 < base) (hle : base ≤ 16) (width : Nat) :
    Function.Injective (padded base width) := by
  intro n m h
  rw [← valueFrom_padded hbase hle width n, h, valueFrom_padded hbase hle]

end Radix

namespace Xxh3

private theorem Hash.hex_injective : Function.Injective Hash.hex := by
  intro a b h
  have hvalue := Radix.padded_injective (by decide) (by decide) 32 h
  have ha := a.low.toNat_lt
  have hb := b.low.toNat_lt
  have hsize : UInt64.size = 2 ^ 64 := rfl
  obtain ⟨ahigh, alow⟩ := a
  obtain ⟨bhigh, blow⟩ := b
  simp only [hsize] at hvalue ha hb
  rw [Hash.mk.injEq, ← UInt64.toNat_inj, ← UInt64.toNat_inj]
  omega

private theorem eq_of_xor_shiftRight_eq {x y n : UInt64} (hn : n.toNat % 64 ≠ 0)
    (h : x ^^^ (x >>> n) = y ^^^ (y >>> n)) : x = y := by
  -- The difference of the words is its own shift, which only zero is.
  have hshift : x ^^^ y = (x ^^^ y) >>> n := by
    rw [UInt64.shiftRight_xor, ← UInt64.xor_eq_zero_iff]
    calc x ^^^ y ^^^ (x >>> n ^^^ y >>> n)
        = (x ^^^ x >>> n) ^^^ (y ^^^ y >>> n) := by
          rw [UInt64.xor_assoc, UInt64.xor_assoc, ← UInt64.xor_assoc y, UInt64.xor_comm y,
            UInt64.xor_assoc]
      _ = 0 := by rw [h, UInt64.xor_self]
  have hnat := congrArg UInt64.toNat hshift
  rw [UInt64.toNat_shiftRight, Nat.shiftRight_eq_div_pow] at hnat
  rw [← UInt64.xor_eq_zero_iff, ← UInt64.toNat_inj]
  by_contra hne
  have hpos : 0 < (x ^^^ y).toNat := Nat.pos_of_ne_zero hne
  exact absurd hnat (Nat.div_lt_self hpos (Nat.one_lt_two_pow hn)).ne'

private theorem mod_eq_of_mul_mod_eq {x y p bits : Nat} (hp : p % 2 = 1)
    (h : x * p % 2 ^ bits = y * p % 2 ^ bits) : x % 2 ^ bits = y % 2 ^ bits := by
  have htwo : Nat.Coprime 2 p := by
    rw [Nat.Coprime, Nat.gcd_rec, hp]
    rfl
  exact Nat.ModEq.cancel_right_of_coprime (htwo.pow_left bits) h

private theorem eq_of_mul_eq {x y p : UInt64} (hp : p.toNat % 2 = 1) (h : x * p = y * p) :
    x = y := by
  have hnat := congrArg UInt64.toNat h
  rw [UInt64.toNat_mul, UInt64.toNat_mul] at hnat
  have hmod := mod_eq_of_mul_mod_eq hp hnat
  rwa [Nat.mod_eq_of_lt x.toNat_lt, Nat.mod_eq_of_lt y.toNat_lt, UInt64.toNat_inj] at hmod

private theorem toNat_low32 (x : UInt64) : (low32 x).toNat = x.toNat % 2 ^ 32 := by
  rw [low32, UInt64.toNat_and]
  exact Nat.and_two_pow_sub_one_eq_mod x.toNat 32

/-- A word to which a multiple of its lower half is added is known from the sum if the lower half
comes to be taken an odd number of times. -/
theorem eq_of_add_low32_mul_eq {x y p : UInt64} (hp : p.toNat % 2 = 0)
    (h : x + low32 x * p = y + low32 y * p) : x = y := by
  have hlow (z : UInt64) :
      (z + low32 z * p).toNat % 2 ^ 32 = z.toNat * (p.toNat + 1) % 2 ^ 32 := by
    have hsum : (z + low32 z * p).toNat % 2 ^ 32 =
        (z.toNat + z.toNat % 2 ^ 32 * p.toNat) % 2 ^ 32 := by
      rw [UInt64.toNat_add, UInt64.toNat_mul, toNat_low32]
      omega
    rw [hsum, Nat.mul_succ, Nat.add_comm, Nat.add_mod, Nat.mod_mul_mod, ← Nat.add_mod]
  have hhalf : low32 x = low32 y := by
    rw [← UInt64.toNat_inj, toNat_low32, toNat_low32]
    apply mod_eq_of_mul_mod_eq (p := p.toNat + 1) (by omega)
    rw [← hlow, h, hlow]
  rw [hhalf] at h
  exact UInt64.add_left_inj (low32 y * p) |>.1 h

private theorem avalanche_injective : Function.Injective avalanche := by
  intro x y h
  have hmul := eq_of_xor_shiftRight_eq (by decide) h
  have hxor := eq_of_mul_eq (by decide) hmul
  exact eq_of_xor_shiftRight_eq (by decide) hxor

private theorem eq_of_low_mulWide_eq {x y p : UInt64} (hp : p.toNat % 2 = 1)
    (h : (mulWide x p).low = (mulWide y p).low) : x = y := by
  have hlow (z : UInt64) : (mulWide z p).low = z * p := by
    rw [← UInt64.toNat_inj, mulWide, UInt64.toNat_mul, UInt64.toNat_ofNat']
  rw [hlow, hlow] at h
  exact eq_of_mul_eq hp h

private theorem halves_of_hash_eq {low low' high high' : UInt64}
    (hlow : avalanche (mulWide low prime64b).low = avalanche (mulWide low' prime64b).low)
    (hhigh : avalanche ((mulWide low prime64b).high + high * prime64b) =
      avalanche ((mulWide low' prime64b).high + high' * prime64b)) :
    low = low' ∧ high = high' := by
  obtain rfl := eq_of_low_mulWide_eq (by decide) (avalanche_injective hlow)
  have hmul := (UInt64.add_right_inj _).1 (avalanche_injective hhigh)
  exact ⟨rfl, eq_of_mul_eq (by decide) hmul⟩

/-- Of inputs with the same number of bytes, from nine to sixteen, those with the same hash have
the same first and the same last word. -/
theorem words_of_hashUpTo16_eq {a b : ByteArray} (hsize : a.size = b.size)
    (h : hashUpTo16 a = hashUpTo16 b) :
    word64 a 0 = word64 b 0 ∧ word64 a (a.size - 8) = word64 b (a.size - 8) := by
  simp only [hashUpTo16, ← hsize, Hash.mk.injEq] at h
  generalize word64 a 0 = first at h ⊢
  generalize word64 b 0 = first' at h ⊢
  generalize word64 a (a.size - 8) = last at h ⊢
  generalize word64 b (a.size - 8) = last' at h ⊢
  -- The upper half is known before the lower one is unmixed from it.
  obtain ⟨hmixed, hsum⟩ := halves_of_hash_eq h.2 h.1
  rw [hsum] at hmixed
  have hproduct := (UInt64.add_left_inj _).1 ((UInt64.xor_left_inj _).1 hmixed)
  have hends := eq_of_low_mulWide_eq (by decide) hproduct
  rw [hends, UInt64.add_assoc, UInt64.add_assoc, UInt64.add_right_inj] at hsum
  obtain rfl := (UInt64.xor_left_inj _).1 (eq_of_add_low32_mul_eq (by decide) hsum)
  exact ⟨(UInt64.xor_left_inj _).1 ((UInt64.xor_left_inj _).1 hends), rfl⟩

end Xxh3

namespace Fingerprint

private theorem size_contentKey (size : UInt64) (modifiedMs : Int64) :
    (contentKey size modifiedMs).size = 16 := by
  simp [contentKey, ByteArray.size]

private theorem word64_of_split (front back : List UInt8) {bytes : ByteArray} {n : Nat}
    (hbytes : bytes.data.toList = front ++ (LittleEndian.encode 8 n ++ back)) :
    Xxh3.word64 bytes front.length = .ofNat n := by
  have hcut : (bytes.extract front.length (front.length + 8)).data.toList =
      LittleEndian.encode 8 n := by
    rw [ByteArray.data_extract, Array.toList_extract, hbytes]
    simp [List.extract]
  rw [Xxh3.word64, Xxh3.wordAt, hcut, LittleEndian.decode_encode, ← UInt64.toNat_inj,
    UInt64.toNat_ofNat', UInt64.toNat_ofNat']
  exact Nat.mod_mod n _

private theorem word64_contentKey (size : UInt64) (modifiedMs : Int64) :
    Xxh3.word64 (contentKey size modifiedMs) 0 = size ∧
      Xxh3.word64 (contentKey size modifiedMs) 8 = modifiedMs.toUInt64 := by
  constructor
  · have hfirst : Xxh3.word64 (contentKey size modifiedMs) 0 = _ := word64_of_split [] _ rfl
    rwa [UInt64.ofNat_toNat] at hfirst
  · have hsplit : (contentKey size modifiedMs).data.toList = LittleEndian.encode 8 size.toNat ++
        (LittleEndian.encode 8 modifiedMs.toUInt64.toNat ++ []) := by simp [contentKey]
    have hlast := word64_of_split _ _ hsplit
    rwa [UInt64.ofNat_toNat, LittleEndian.length_encode] at hlast

private theorem eq_of_ofContent_eq {size size' : UInt64} {modifiedMs modifiedMs' : Int64}
    (h : ofContent size modifiedMs = ofContent size' modifiedMs') :
    size = size' ∧ modifiedMs = modifiedMs' := by
  have hsize := size_contentKey size modifiedMs
  have hsize' := size_contentKey size' modifiedMs'
  have hhash := Xxh3.Hash.hex_injective h
  simp only [Xxh3.hash, hsize, hsize'] at hhash
  obtain ⟨hfirst, hlast⟩ := Xxh3.words_of_hashUpTo16_eq (hsize.trans hsize'.symm) hhash
  obtain ⟨hsizes, htime⟩ := word64_contentKey size modifiedMs
  obtain ⟨hsizes', htime'⟩ := word64_contentKey size' modifiedMs'
  rw [hsizes, hsizes'] at hfirst
  rw [hsize, htime, htime'] at hlast
  exact ⟨hfirst, congrArg Int64.ofUInt64 hlast⟩

/-- Fingerprints are equal only where size and time are, and the statuses of two files therefore
show the same fingerprint just in case they show the same length and the same time. -/
theorem contentHash_eq_iff (size size' : UInt64) (modifiedMs modifiedMs' : Int64) :
    (ofContent size modifiedMs = ofContent size' modifiedMs' ↔
      size = size' ∧ modifiedMs = modifiedMs') ∧
    ∀ (path path' : String) (stat stat' : Stat) (identity identity' : Identity)
      (blockSize blockSize' : UInt64),
      (FileStatus.ofStat path stat identity blockSize).contentHash =
          (FileStatus.ofStat path' stat' identity' blockSize').contentHash ↔
        (FileStatus.ofStat path stat identity blockSize).length =
            (FileStatus.ofStat path' stat' identity' blockSize').length ∧
          (FileStatus.ofStat path stat identity blockSize).lastModifiedMs =
            (FileStatus.ofStat path' stat' identity' blockSize').lastModifiedMs := by
  have hiff (size size' : UInt64) (modifiedMs modifiedMs' : Int64) :
      ofContent size modifiedMs = ofContent size' modifiedMs' ↔
        size = size' ∧ modifiedMs = modifiedMs' := by
    constructor
    · exact eq_of_ofContent_eq
    · rintro ⟨rfl, rfl⟩
      rfl
  exact ⟨hiff size size' modifiedMs modifiedMs', fun _ _ stat stat' _ _ _ _ =>
    hiff stat.size stat'.size stat.modifiedMs stat'.modifiedMs⟩

end Fingerprint
end VolumeFs
