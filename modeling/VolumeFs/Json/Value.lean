/-!
# JSON values

A number keeps only what a reader of whole numbers needs to know of it. A string whose escapes
hold half of a surrogate pair is well-formed JSON but is no text, and is kept apart.
-/

namespace VolumeFs.Json

/-- A number as it was written. -/
inductive Number where
  /-- Digits alone, or digits after a minus sign. -/
  | whole (value : Int)
  /-- Anything else: a fraction, an exponent, or a zero after a minus sign. -/
  | other
  deriving DecidableEq

inductive Value where
  | null
  | bool (b : Bool)
  | number (n : Number)
  /-- A string, with its text unless an escape in it is half of a surrogate pair. -/
  | string (text : Option String)
  | array (items : List Value)
  /-- The members in the order in which they were written, repeated names included. -/
  | object (members : List (Option String × Value))

end VolumeFs.Json
