import VolumeFs.Json.Reader

/-!
# Records in JSON

Reading a record of known fields from an object. Other members are passed over, a known field
may stand at most once, and one that is missing keeps the value it has by default.
-/

namespace VolumeFs.Json

/-- The members of an object, which must all have a name that is text. -/
def Value.members? : Value → Option (List (String × Value))
  | .object members => members.mapM fun m => m.1.map fun name => (name, m.2)
  | _ => none

/-- Whether each of the names is that of at most one member. -/
def atMostOnce (known : List String) (members : List (String × Value)) : Bool :=
  known.all fun name => (members.filter (·.1 = name)).length ≤ 1

/-- The members of an object in which no known field is repeated. -/
def Value.record? (known : List String) (value : Value) : Option (List (String × Value)) := do
  let members ← value.members?
  if atMostOnce known members then some members else none

/-- The field of a given name, or its default when it is missing. -/
def field? {α : Type} (members : List (String × Value)) (name : String) (default : α)
    (read : Value → Option α) : Option α :=
  match members.lookup name with
  | some value => read value
  | none => some default

/-- A whole number from zero up to a greatest one. -/
def Value.upTo? (greatest : Nat) : Value → Option Nat
  | .number (.whole n) => if 0 ≤ n ∧ n ≤ greatest then some n.toNat else none
  | _ => none

def Value.uint32? (value : Value) : Option UInt32 := (value.upTo? (UInt32.size - 1)).map .ofNat

def Value.uint64? (value : Value) : Option UInt64 := (value.upTo? (UInt64.size - 1)).map .ofNat

def Value.size? (value : Value) : Option Nat := value.upTo? (UInt64.size - 1)

def Value.text? : Value → Option String
  | .string text => text
  | _ => none

def Value.nullable? {α : Type} (read : Value → Option α) : Value → Option (Option α)
  | .null => some none
  | value => (read value).map some

end VolumeFs.Json
