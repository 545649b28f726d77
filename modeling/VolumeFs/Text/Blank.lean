/-!
# Blank characters

The characters with the Unicode property White_Space, and texts made of nothing else.
-/

namespace VolumeFs.Text

/-- The ranges of the Unicode property White_Space. -/
def blankRanges : List (Nat × Nat) :=
  [(0x9, 0xD), (0x20, 0x20), (0x85, 0x85), (0xA0, 0xA0), (0x1680, 0x1680), (0x2000, 0x200A),
    (0x2028, 0x2029), (0x202F, 0x202F), (0x205F, 0x205F), (0x3000, 0x3000)]

def isBlankChar (c : Char) : Bool :=
  blankRanges.any fun r => r.1 ≤ c.toNat && c.toNat ≤ r.2

/-- A blank text holds blank characters only; the empty text is blank. -/
def isBlank (text : String) : Bool := text.toList.all isBlankChar

end VolumeFs.Text
