import VolumeFs.LittleEndian
import VolumeFs.Store.Error

/-!
# Records in a row

The store sends its answers as records of one fixed length, one after the other.
-/

namespace VolumeFs.Record

/-- Reads as many records as announced. The first one that is cut short or malformed decides
the error. -/
def decodeAll {α : Type} (decode : List UInt8 → Except StoreError α) (length : Nat) :
    Nat → List UInt8 → Except StoreError (List α)
  | 0, _ => .ok []
  | count + 1, bytes =>
    match decode bytes with
    | .error e => .error e
    | .ok record =>
      match decodeAll decode length count (bytes.drop length) with
      | .error e => .error e
      | .ok records => .ok (record :: records)

theorem decodeAll_flatMap_append {α : Type} {decode : List UInt8 → Except StoreError α}
    {encode : α → List UInt8} {length : Nat} (records : List α) (rest : List UInt8)
    (hlen : ∀ r ∈ records, (encode r).length = length)
    (hdec : ∀ r ∈ records, ∀ rest, decode (encode r ++ rest) = .ok r) :
    decodeAll decode length records.length (records.flatMap encode ++ rest) = .ok records := by
  induction records with
  | nil => rfl
  | cons r rs ih =>
    have htail := ih (fun q hq => hlen q (List.mem_cons_of_mem _ hq))
      fun q hq => hdec q (List.mem_cons_of_mem _ hq)
    simp only [List.flatMap_cons, List.append_assoc, List.length_cons, decodeAll]
    rw [hdec r List.mem_cons_self, List.drop_left' (hlen r List.mem_cons_self), htail]

def cutShort (record : String) (length actual : Nat) : StoreError :=
  .malformedRecord record
    ("expected " ++ toString length ++ " bytes, got " ++ toString actual)

end VolumeFs.Record
