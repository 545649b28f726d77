/-!
# Descriptors and flags

What a caller holds of an open entry, and what it asked for when it opened it.
-/

namespace VolumeFs

/-- The number under which the store knows an open entry. -/
structure Fd where
  number : Int
  deriving DecidableEq

def Fd.described (fd : Fd) : String := "Fd(" ++ toString fd.number ++ ")"

/-- What an entry is opened for: two bits for the kind of access, and bits for its creation. -/
structure OpenFlags where
  bits : UInt32
  deriving DecidableEq

namespace OpenFlags

def readOnly : OpenFlags := ⟨0⟩
def writeOnly : OpenFlags := ⟨1⟩
def readWrite : OpenFlags := ⟨2⟩
/-- A missing file is created. -/
def create : OpenFlags := ⟨0o100⟩
/-- With creation, an existing entry is refused. -/
def exclusive : OpenFlags := ⟨0o200⟩
def truncate : OpenFlags := ⟨0o1000⟩

def union (a b : OpenFlags) : OpenFlags := ⟨a.bits ||| b.bits⟩

instance : OrOp OpenFlags := ⟨union⟩

/-- Whether all bits of another are set. -/
def contains (a b : OpenFlags) : Bool := a.bits &&& b.bits == b.bits

def isWritable (a : OpenFlags) : Bool := a.bits &&& 3 != 0

end OpenFlags
end VolumeFs
