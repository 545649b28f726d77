import VolumeFs.Text.Radix
import VolumeFs.Text.Shapeless

/-!
# Quoted text

A text between double quotes. The quote, the backslash and the usual controls are written with
a backslash, any other shapeless character by its number, and all else as it stands.
-/

namespace VolumeFs.Text

def quotedChar (c : Char) : List Char :=
  if c = '"' then ['\\', '"']
  else if c = '\\' then ['\\', '\\']
  else if c = '\n' then ['\\', 'n']
  else if c = '\r' then ['\\', 'r']
  else if c = '\t' then ['\\', 't']
  else if c.toNat = 0 then ['\\', '0']
  else if isShapeless c then "\\u\x7b".toList ++ Nat.toDigits 16 c.toNat ++ ['\x7d']
  else [c]

def quoted (text : String) : String :=
  String.ofList ('"' :: text.toList.flatMap quotedChar ++ ['"'])

end VolumeFs.Text
