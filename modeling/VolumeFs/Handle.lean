import VolumeFs.Store.Client
import VolumeFs.Text.Described

/-!
# Handles

A handle is the ownership of one open descriptor. Whoever holds it gives it back exactly once.
-/

namespace VolumeFs

/-- An open descriptor with the path under which it was opened. -/
structure Handle where
  fd : Fd
  path : String
  deriving DecidableEq

namespace Handle

variable {σ : Type} [StoreClient σ]

def openPath (s : σ) (path : String) (flags : OpenFlags) (mode : UInt32) :
    Except Errno Handle × σ :=
  match StoreClient.openPath s path flags mode with
  | (.ok fd, s) => (.ok ⟨fd, path⟩, s)
  | (.error e, s) => (.error e, s)

def close (h : Handle) (s : σ) : Except Errno Unit × σ := StoreClient.close s h.fd

/-- The description of a handle; one that is held is open. -/
def described (h : Handle) : String :=
  Text.describedRecord "OwnedHandle"
    [("fd", h.fd.described), ("path", Text.quoted h.path), ("open", Text.describedBool true)]

end Handle
end VolumeFs
