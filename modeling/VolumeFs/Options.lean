import VolumeFs.Error
import VolumeFs.Json.Fields
import VolumeFs.Text.Described

/-!
# Options

The sizes, limits and modes that a volume works with, what makes them unusable, and how they are
read from JSON.
-/

namespace VolumeFs

/-- How often the creation of a file is tried while its parent is missing. -/
structure CreateRetry where
  maxAttempts : Option UInt32 := none
  deriving DecidableEq

namespace CreateRetry

/-- The most attempts that are made. Where none is set it is beyond any number of 32 bits. -/
def limit (r : CreateRetry) : Nat :=
  match r.maxAttempts with
  | some limit => limit.toNat
  | none => 2 * UInt32.size

def allows (r : CreateRetry) (attempts : Nat) : Bool := attempts < r.limit

def described (r : CreateRetry) : String :=
  Text.describedRecord "CreateRetryPolicy"
    [("max_attempts", Text.describedOption (r.maxAttempts.map fun n => toString n.toNat))]

end CreateRetry

/-- How often a change of the tree is tried, and the pause between two attempts. -/
structure MetadataRetry where
  maxAttempts : UInt32 := 10
  backoffMs : UInt64 := 100
  deriving DecidableEq

namespace MetadataRetry

/-- How many attempts may follow the first one. -/
def retries (r : MetadataRetry) : Nat := r.maxAttempts.toNat - 1

/-- The first pauses between attempts, in nanoseconds. -/
def delays (r : MetadataRetry) (count : Nat) : List Nat :=
  List.replicate (min count r.retries) (r.backoffMs.toNat * 1000000)

def described (r : MetadataRetry) : String :=
  Text.describedRecord "MetadataRetryPolicy"
    [("max_attempts", toString r.maxAttempts.toNat), ("backoff_ms", toString r.backoffMs.toNat)]

end MetadataRetry

/-- How many buffers a pool keeps for reuse. -/
structure PoolConfig where
  maxIdle : Nat := 16
  deriving DecidableEq

def PoolConfig.described (c : PoolConfig) : String :=
  Text.describedRecord "BufferPoolConfig" [("max_idle_buffers", toString c.maxIdle)]

structure Options where
  writeBufferSize : Nat := 4 * 1024 * 1024
  minWriteBufferSize : Nat := 64 * 1024
  readBufferSize : Nat := 4 * 1024 * 1024
  listBatchSize : Nat := 100
  blockSize : UInt64 := 128 * 1024 * 1024
  createRetry : CreateRetry := {}
  metadataRetry : MetadataRetry := {}
  pool : PoolConfig := {}
  defaultFileMode : UInt32 := 0o644
  defaultDirMode : UInt32 := 0o755
  deriving DecidableEq

namespace Options

def effectiveWriteBufferSize (o : Options) : Nat := max o.writeBufferSize o.minWriteBufferSize

/-- Options must leave room for a byte, an entry and an attempt. The first fault is reported. -/
def validate (o : Options) : Except VolumeError Unit :=
  if o.effectiveWriteBufferSize = 0 then
    .error (.invalidConfig "write buffer size must be positive")
  else if o.readBufferSize = 0 then .error (.invalidConfig "read buffer size must be positive")
  else if o.listBatchSize = 0 then .error (.invalidConfig "list batch size must be positive")
  else if o.metadataRetry.maxAttempts = 0 then
    .error (.invalidConfig "metadata retry needs at least one attempt")
  else if o.createRetry.maxAttempts = some 0 then
    .error (.invalidConfig "create retry needs at least one attempt")
  else .ok ()

def described (o : Options) : String :=
  Text.describedRecord "UfsOptions"
    [("write_buffer_size", toString o.writeBufferSize),
      ("min_write_buffer_size", toString o.minWriteBufferSize),
      ("read_buffer_size", toString o.readBufferSize),
      ("list_batch_size", toString o.listBatchSize),
      ("block_size", toString o.blockSize.toNat),
      ("create_retry", o.createRetry.described),
      ("metadata_retry", o.metadataRetry.described),
      ("pool", o.pool.described),
      ("default_file_mode", toString o.defaultFileMode.toNat),
      ("default_dir_mode", toString o.defaultDirMode.toNat)]

end Options

open Json in
def CreateRetry.ofJson? (value : Json.Value) : Option CreateRetry := do
  let fields ← value.record? ["max_attempts"]
  some { maxAttempts := ← field? fields "max_attempts" none (·.nullable? Value.uint32?) }

open Json in
def MetadataRetry.ofJson? (value : Json.Value) : Option MetadataRetry := do
  let fields ← value.record? ["max_attempts", "backoff_ms"]
  let base : MetadataRetry := {}
  some {
    maxAttempts := ← field? fields "max_attempts" base.maxAttempts Value.uint32?
    backoffMs := ← field? fields "backoff_ms" base.backoffMs Value.uint64? }

open Json in
def PoolConfig.ofJson? (value : Json.Value) : Option PoolConfig := do
  let fields ← value.record? ["max_idle_buffers"]
  let base : PoolConfig := {}
  some { maxIdle := ← field? fields "max_idle_buffers" base.maxIdle Value.size? }

namespace Options

def fieldNames : List String :=
  ["write_buffer_size", "min_write_buffer_size", "read_buffer_size", "list_batch_size",
    "block_size", "create_retry", "metadata_retry", "pool", "default_file_mode",
    "default_dir_mode"]

open Json in
/-- The options read from a JSON object. What is missing has its default. -/
def ofJson? (value : Json.Value) : Option Options := do
  let fields ← value.record? fieldNames
  let base : Options := {}
  some {
    writeBufferSize := ← field? fields "write_buffer_size" base.writeBufferSize Value.size?
    minWriteBufferSize :=
      ← field? fields "min_write_buffer_size" base.minWriteBufferSize Value.size?
    readBufferSize := ← field? fields "read_buffer_size" base.readBufferSize Value.size?
    listBatchSize := ← field? fields "list_batch_size" base.listBatchSize Value.size?
    blockSize := ← field? fields "block_size" base.blockSize Value.uint64?
    createRetry := ← field? fields "create_retry" base.createRetry CreateRetry.ofJson?
    metadataRetry := ← field? fields "metadata_retry" base.metadataRetry MetadataRetry.ofJson?
    pool := ← field? fields "pool" base.pool PoolConfig.ofJson?
    defaultFileMode := ← field? fields "default_file_mode" base.defaultFileMode Value.uint32?
    defaultDirMode := ← field? fields "default_dir_mode" base.defaultDirMode Value.uint32? }

def read? (text : String) : Option Options := do ofJson? (← Json.read? text)

end Options

structure CreateOptions where
  mode : Option UInt32 := none
  /-- The file appears under its name only when the stream is closed. -/
  atomic : Bool := false

structure MkdirsOptions where
  createParent : Bool := true
  mode : Option UInt32 := none

structure DeleteOptions where
  recursive : Bool := false

structure OpenOptions where
  offset : Nat := 0

end VolumeFs
