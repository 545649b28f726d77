import VolumeFs.Error
import VolumeFs.Fingerprint
import VolumeFs.Record.Stat

/-!
# Status of an entry

What a caller is told about a file or a directory. Entries of any other type have no status.
-/

namespace VolumeFs

/-- To whom the entries belong, as far as callers are told. -/
structure Identity where
  owner : String
  group : String
  deriving DecidableEq

/-- A single user, who is also the group. -/
def Identity.ofUser (user : String) : Identity := ⟨user, user⟩

/-- What is told about a file. -/
structure FileStatus where
  path : String
  name : String
  contentHash : String
  length : UInt64
  lastModifiedMs : Int64
  owner : String
  group : String
  mode : UInt32
  blockSize : UInt64
  deriving DecidableEq

/-- What is told about a directory. -/
structure DirectoryStatus where
  path : String
  name : String
  owner : String
  group : String
  mode : UInt32
  lastModifiedMs : Int64
  deriving DecidableEq

/-- What is told about an entry. -/
inductive Status where
  | file (status : FileStatus)
  | directory (status : DirectoryStatus)
  deriving DecidableEq

def FileStatus.ofStat (path : String) (stat : Stat) (identity : Identity)
    (blockSize : UInt64) : FileStatus where
  path
  name := Path.fileName path
  contentHash := Fingerprint.ofContent stat.size stat.modifiedMs
  length := stat.size
  lastModifiedMs := stat.modifiedMs
  owner := identity.owner
  group := identity.group
  mode := stat.permissions
  blockSize

def DirectoryStatus.ofStat (path : String) (stat : Stat) (identity : Identity) :
    DirectoryStatus where
  path
  name := Path.fileName path
  owner := identity.owner
  group := identity.group
  mode := stat.permissions
  lastModifiedMs := stat.modifiedMs

namespace Status

/-- The status of an entry, unless it is neither a file nor a directory. -/
def ofStat? (path : String) (stat : Stat) (identity : Identity) (blockSize : UInt64) :
    Option Status :=
  if stat.isDirectory then some (.directory (.ofStat path stat identity))
  else if stat.isFile then some (.file (.ofStat path stat identity blockSize))
  else none

def ofStat (path : String) (stat : Stat) (identity : Identity) (blockSize : UInt64) :
    Except VolumeError Status :=
  match ofStat? path stat identity blockSize with
  | some status => .ok status
  | none => .error (.unknownFileType path stat.mode)

def path : Status → String
  | file s => s.path
  | directory s => s.path

def name : Status → String
  | file s => s.name
  | directory s => s.name

def mode : Status → UInt32
  | file s => s.mode
  | directory s => s.mode

def owner : Status → String
  | file s => s.owner
  | directory s => s.owner

def lastModifiedMs : Status → Int64
  | file s => s.lastModifiedMs
  | directory s => s.lastModifiedMs

def file? : Status → Option FileStatus
  | file s => some s
  | directory _ => none

def directory? : Status → Option DirectoryStatus
  | file _ => none
  | directory s => some s

def isFile (s : Status) : Bool := s.file?.isSome

def isDirectory (s : Status) : Bool := s.directory?.isSome

end Status
end VolumeFs
