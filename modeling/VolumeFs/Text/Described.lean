import VolumeFs.Text.Quoted

/-!
# Described values

The one-line description of a value for a log or a person: a record is its name and its fields
in braces, a wrapped value its name and the value in parentheses, a list its items in brackets.
-/

namespace VolumeFs.Text

def commaSeparated (items : List String) : String := String.intercalate ", " items

def describedRecord (name : String) (fields : List (String × String)) : String :=
  name ++ " \x7b " ++ commaSeparated (fields.map fun f => f.1 ++ ": " ++ f.2) ++ " \x7d"

/-- A value under the name of what wraps it. -/
def describedWrapped (name value : String) : String := name ++ "(" ++ value ++ ")"

def describedOption : Option String → String
  | none => "None"
  | some value => describedWrapped "Some" value

def describedList (items : List String) : String := "[" ++ commaSeparated items ++ "]"

def describedBool (b : Bool) : String := if b then "true" else "false"

end VolumeFs.Text
