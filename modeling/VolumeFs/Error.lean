import VolumeFs.Path
import VolumeFs.Store.Access
import VolumeFs.Store.Error
import VolumeFs.Text.Radix

/-!
# Failures of volume operations

Every operation on a volume fails with one of these causes. A cause may carry a second one: the
failure of the cleaning up that the first one made necessary.
-/

namespace VolumeFs

inductive VolumeError where
  | notFound (path : String)
  | alreadyExists (path : String)
  | isDirectory (path : String)
  | directoryNotEmpty (path : String)
  /-- The store took another number of bytes than it was given. -/
  | shortWrite (fd : Fd) (expected actual : Nat)
  | flushFailed (fd : Fd) (code : Errno)
  | closeFailed (fd : Fd) (code : Errno)
  | readdirFailed (path : String) (code : Errno)
  | batchGetAttrFailed (path : String) (code : Errno)
  /-- Any other code that the store answered. -/
  | store (path : String) (code : Errno)
  /-- Both an operation and the cleaning up after it failed. -/
  | cleanupFailed (primary cleanup : VolumeError)
  | streamClosed (path : String)
  | streamBroken (path : String)
  | unknownFileType (path : String) (mode : UInt32)
  | invalidConfig (reason : String)
  | session (cause : StoreError)
  | path (cause : PathError)
  /-- A listing was given up before its end came. -/
  | unfinished (path : String)
  deriving DecidableEq

/-- The kinds of failure that byte streams know. -/
inductive FailureKind where
  | notFound
  | alreadyExists
  | writeZero
  | invalidInput
  | other
  deriving DecidableEq

namespace VolumeError

def message : VolumeError → String
  | notFound p => "No such file or directory: " ++ p
  | alreadyExists p => "Already exists: " ++ p
  | isDirectory p => "Is a directory: " ++ p
  | directoryNotEmpty p => "Directory: " ++ p ++ " is not empty"
  | shortWrite fd expected actual =>
    "Write failed on fd " ++ toString fd.number ++ ": store accepted " ++ toString actual
      ++ " of " ++ toString expected ++ " bytes"
  | flushFailed fd code => "Flush failed on fd " ++ toString fd.number ++ ": " ++ code.message
  | closeFailed fd code => "Close failed, fd = " ++ toString fd.number ++ ": " ++ code.message
  | readdirFailed p code => "readdir failed for " ++ p ++ ", code=" ++ code.message
  | batchGetAttrFailed p code =>
    "batch getattr failed for " ++ p ++ ", code=" ++ code.message
  | store p code => "Store error for " ++ p ++ ": " ++ code.message
  | cleanupFailed primary cleanup =>
    primary.message ++ " (cleanup also failed: " ++ cleanup.message ++ ")"
  | streamClosed p => "Stream is closed: " ++ p
  | streamBroken p => "Stream is unusable after an earlier write failure: " ++ p
  | unknownFileType p mode =>
    "Unknown file type for " ++ p ++ ": mode " ++ Radix.digits 8 mode.toNat
  | invalidConfig reason => "Invalid configuration: " ++ reason
  | session cause => cause.message
  | path cause => cause.message
  | unfinished p => "Listing did not come to an end: " ++ p

/-- The failure that a code means for an entry. -/
def ofErrno (code : Errno) (p : String) : VolumeError :=
  if code = .enoent then .notFound p
  else if code = .eexist then .alreadyExists p
  else if code = .eisdir then .isDirectory p
  else if code = .enotempty then .directoryNotEmpty p
  else .store p code

/-- Whether the first cause is that there is no such entry. -/
def isNotFound : VolumeError → Bool
  | notFound _ => true
  | cleanupFailed primary _ => primary.isNotFound
  | _ => false

def withCleanup (primary cleanup : VolumeError) : VolumeError := .cleanupFailed primary cleanup

def cleanup? : VolumeError → Option VolumeError
  | cleanupFailed _ cleanup => some cleanup
  | _ => none

/-- The kind under which a byte stream reports the failure. Of a failure with cleaning up, the
first cause counts if it is a missing entry or a short write. -/
def kind : VolumeError → FailureKind
  | notFound _ => .notFound
  | alreadyExists _ => .alreadyExists
  | shortWrite _ _ _ => .writeZero
  | path _ => .invalidInput
  | invalidConfig _ => .invalidInput
  | cleanupFailed (notFound _) _ => .notFound
  | cleanupFailed (shortWrite _ _ _) _ => .writeZero
  | _ => .other

/-- The outcome of an operation and of the cleaning up after it: the operation's failure comes
first, and neither is lost. -/
def combine (primary cleanup : Except VolumeError Unit) : Except VolumeError Unit :=
  match primary, cleanup with
  | .ok (), .ok () => .ok ()
  | .error e, .ok () => .error e
  | .ok (), .error c => .error c
  | .error e, .error c => .error (e.withCleanup c)

end VolumeError
end VolumeFs
