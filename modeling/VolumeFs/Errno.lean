/-!
# Error codes

What a call on the store answers when it fails: a negative number of 32 bits, some of which
have a name.
-/

namespace VolumeFs

/-- The code of a failed call. -/
structure Errno where
  code : Int32
  deriving DecidableEq

namespace Errno

def eperm : Errno := ⟨-1⟩
def enoent : Errno := ⟨-2⟩
/-- The store failed to carry the call out. -/
def eio : Errno := ⟨-5⟩
/-- The descriptor is not open, or not open for this. -/
def ebadf : Errno := ⟨-9⟩
def eexist : Errno := ⟨-17⟩
def enotdir : Errno := ⟨-20⟩
def eisdir : Errno := ⟨-21⟩
def einval : Errno := ⟨-22⟩
def enotempty : Errno := ⟨-39⟩

/-- The codes that have a name, with it. -/
def named : List (Errno × String) :=
  [(eperm, "EPERM"), (enoent, "ENOENT"), (eio, "EIO"), (ebadf, "EBADF"), (eexist, "EEXIST"),
    (enotdir, "ENOTDIR"), (eisdir, "EISDIR"), (einval, "EINVAL"), (enotempty, "ENOTEMPTY")]

def name? (e : Errno) : Option String := named.lookup e

/-- The wording of a code: its name with the number, or the number alone. -/
def message (e : Errno) : String :=
  match e.name? with
  | some name => name ++ " (" ++ toString e.code.toInt ++ ")"
  | none => "code " ++ toString e.code.toInt

/-- Takes the number that a call returned apart: below zero it is the code of a failure, of
which the low 32 bits count, and otherwise it is the result. -/
def check (returned : Int64) : Except Errno UInt64 :=
  if returned < 0 then .error ⟨returned.toInt32⟩ else .ok returned.toUInt64

end Errno
end VolumeFs
