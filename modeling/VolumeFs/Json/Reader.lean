import VolumeFs.Json.Value

/-!
# Reading JSON

A strict reader: no trailing commas, no leading zeros, no raw control characters in strings, and
nothing but blanks after the value. Nesting is bounded only by the length of the text, which is
the fuel of the mutual recursion.
-/

namespace VolumeFs.Json

/-- The four blanks that may stand between tokens. -/
def isBlank (c : Char) : Bool := c = ' ' || c = '\t' || c = '\n' || c = '\r'

def skipBlanks (cs : List Char) : List Char := cs.dropWhile isBlank

/-- A text without a given word in front, which must be there. -/
def dropWord? : List Char → List Char → Option (List Char)
  | [], cs => some cs
  | w :: ws, c :: cs => if w = c then dropWord? ws cs else none
  | _ :: _, [] => none

def hexValue? (c : Char) : Option Nat :=
  if '0' ≤ c && c ≤ '9' then some (c.toNat - 48)
  else if 'a' ≤ c && c ≤ 'f' then some (c.toNat - 87)
  else if 'A' ≤ c && c ≤ 'F' then some (c.toNat - 55)
  else none

/-- What one piece of a string stands for: a character, or half of a surrogate pair. -/
inductive Piece where
  | char (c : Char)
  | half (unit : Nat)

def Piece.ofUnit (unit : Nat) : Piece :=
  if 0xD800 ≤ unit && unit ≤ 0xDFFF then .half unit else .char (Char.ofNat unit)

/-- The text of the pieces. A high half takes the low half right after it; any other half makes
the string no text. -/
def textOf? : List Piece → Option (List Char)
  | [] => some []
  | .char c :: ps => (textOf? ps).map (c :: ·)
  | .half high :: .half low :: ps =>
    if high < 0xDC00 && 0xDC00 ≤ low then
      (textOf? ps).map (Char.ofNat (0x10000 + (high - 0xD800) * 0x400 + (low - 0xDC00)) :: ·)
    else none
  | .half _ :: _ => none

/-- The rest of a string after its opening quote, with the pieces read. -/
def stringPieces? : List Char → Option (List Piece × List Char)
  | '"' :: cs => some ([], cs)
  | '\\' :: 'u' :: a :: b :: c :: d :: cs =>
    match hexValue? a, hexValue? b, hexValue? c, hexValue? d with
    | some a, some b, some c, some d =>
      (stringPieces? cs).map fun r =>
        (Piece.ofUnit (((a * 16 + b) * 16 + c) * 16 + d) :: r.1, r.2)
    | _, _, _, _ => none
  | '\\' :: c :: cs =>
    match [('"', '"'), ('\\', '\\'), ('/', '/'), ('b', '\x08'), ('f', '\x0c'), ('n', '\n'),
        ('r', '\r'), ('t', '\t')].lookup c with
    | some c => (stringPieces? cs).map fun r => (.char c :: r.1, r.2)
    | none => none
  | c :: cs =>
    if c = '\\' ∨ c.toNat < 0x20 then none
    else (stringPieces? cs).map fun r => (.char c :: r.1, r.2)
  | [] => none

def string? (cs : List Char) : Option (Option String × List Char) :=
  (stringPieces? cs).map fun r => ((textOf? r.1).map String.ofList, r.2)

/-- A fraction of at least one digit, if a point begins one here. The first answer says whether
one was read. -/
def fraction? : List Char → Option (Bool × List Char)
  | '.' :: cs =>
    if (cs.takeWhile Char.isDigit).isEmpty then none else some (true, cs.dropWhile Char.isDigit)
  | cs => some (false, cs)

def exponent? : List Char → Option (Bool × List Char)
  | c :: cs =>
    if c = 'e' ∨ c = 'E' then
      let unsigned := match cs with
        | '+' :: cs => cs
        | '-' :: cs => cs
        | cs => cs
      if (unsigned.takeWhile Char.isDigit).isEmpty then none
      else some (true, unsigned.dropWhile Char.isDigit)
    else some (false, c :: cs)
  | [] => some (false, [])

def decimal (cs : List Char) : Nat := cs.foldl (fun n c => n * 10 + (c.toNat - 48)) 0

/-- A number. More than one digit must not begin with a zero. -/
def number? (cs : List Char) : Option (Number × List Char) :=
  let (negative, cs) := match cs with
    | '-' :: cs => (true, cs)
    | cs => (false, cs)
  let ds := cs.takeWhile Char.isDigit
  if ds.isEmpty || (ds.head? = some '0' && 1 < ds.length) then none
  else do
    let (hasFraction, cs) ← fraction? (cs.dropWhile Char.isDigit)
    let (hasExponent, cs) ← exponent? cs
    let n := decimal ds
    if hasFraction || hasExponent || (negative && n = 0) then some (.other, cs)
    else some (.whole (if negative then -(n : Int) else n), cs)

mutual

def value? : Nat → List Char → Option (Value × List Char)
  | 0, _ => none
  | fuel + 1, cs =>
    match skipBlanks cs with
    | [] => none
    | '"' :: cs => (string? cs).map fun r => (.string r.1, r.2)
    | '[' :: cs =>
      match skipBlanks cs with
      | ']' :: cs => some (.array [], cs)
      | cs => (items? fuel cs).map fun r => (.array r.1, r.2)
    | '\x7b' :: cs =>
      match skipBlanks cs with
      | '\x7d' :: cs => some (.object [], cs)
      | cs => (members? fuel cs).map fun r => (.object r.1, r.2)
    | 't' :: cs => (dropWord? "rue".toList cs).map fun cs => (.bool true, cs)
    | 'f' :: cs => (dropWord? "alse".toList cs).map fun cs => (.bool false, cs)
    | 'n' :: cs => (dropWord? "ull".toList cs).map fun cs => (.null, cs)
    | c :: cs => (number? (c :: cs)).map fun r => (.number r.1, r.2)

def items? : Nat → List Char → Option (List Value × List Char)
  | 0, _ => none
  | fuel + 1, cs => do
    let (item, cs) ← value? fuel cs
    match skipBlanks cs with
    | ',' :: cs => (items? fuel cs).map fun r => (item :: r.1, r.2)
    | ']' :: cs => some ([item], cs)
    | _ => none

def members? : Nat → List Char → Option (List (Option String × Value) × List Char)
  | 0, _ => none
  | fuel + 1, cs =>
    match skipBlanks cs with
    | '"' :: cs => do
      let (name, cs) ← string? cs
      match skipBlanks cs with
      | ':' :: cs =>
        let (value, cs) ← value? fuel cs
        match skipBlanks cs with
        | ',' :: cs => (members? fuel cs).map fun r => ((name, value) :: r.1, r.2)
        | '\x7d' :: cs => some ([(name, value)], cs)
        | _ => none
      | _ => none
    | _ => none

end

def read? (text : String) : Option Value :=
  match value? (text.length + 1) text.toList with
  | some (value, rest) => if (skipBlanks rest).isEmpty then some value else none
  | none => none

end VolumeFs.Json
