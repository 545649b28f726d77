import VolumeFs.Bytes
import VolumeFs.Options

/-!
# Pools of read buffers

Buffers that were used once are parked and handed out again to whoever asks for the same size.
A buffer keeps what was in it. The parked ones are stacked by their size, and only so many are
kept; their number and that of the buffers handed out are counted beside the stacks.
-/

namespace VolumeFs

/-- A buffer of a pool, known by the number of its allocation. -/
structure Buffer where
  serial : Nat
  bytes : ByteArray

namespace Buffer

def size (b : Buffer) : Nat := b.bytes.size

/-- The description of a buffer leaves its bytes out. -/
def described (b : Buffer) : String :=
  Text.describedRecord "PooledBuffer" [("len", toString b.size)]

end Buffer

/-- Stacks of parked buffers by their size, the most recently parked on top. -/
abbrev Shelves := List (Nat × List Buffer)

namespace Shelves

/-- The stack of a size; there is nothing on one that was never set. -/
def stack (shelves : Shelves) (size : Nat) : List Buffer := (shelves.lookup size).getD []

def set (shelves : Shelves) (size : Nat) (buffers : List Buffer) : Shelves :=
  match shelves with
  | [] => [(size, buffers)]
  | (key, stacked) :: rest =>
    if key = size then (key, buffers) :: rest else (key, stacked) :: set rest size buffers

end Shelves

structure Pool where
  config : PoolConfig := {}
  shelves : Shelves := []
  /-- How many buffers wait for reuse. -/
  idle : Nat := 0
  /-- How many buffers are handed out. -/
  inUse : Nat := 0
  allocations : Nat := 0
  hits : Nat := 0

namespace Pool

/-- Takes the top of the stack of a size off, if there is anything on it. -/
def take (p : Pool) (size : Nat) : Option Buffer × Pool :=
  match p.shelves.stack size with
  | [] => (none, p)
  | buffer :: rest => (some buffer, { p with
      shelves := p.shelves.set size rest, idle := p.idle - 1 })

/-- Hands out a buffer of the given size: a parked one if there is, else a new one of zeros. -/
def acquire (p : Pool) (size : Nat) : Buffer × Pool :=
  match { p with inUse := p.inUse + 1 }.take size with
  | (some buffer, p) => (buffer, { p with hits := p.hits + 1 })
  | (none, p) =>
    (⟨p.allocations, Bytes.zeros size⟩, { p with allocations := p.allocations + 1 })

/-- Takes a buffer back. It is parked unless it is empty or enough are parked already. -/
def release (p : Pool) (buffer : Buffer) : Pool :=
  let p := { p with inUse := p.inUse - 1 }
  if buffer.size = 0 ∨ p.config.maxIdle ≤ p.idle then p
  else { p with
    shelves := p.shelves.set buffer.size (buffer :: p.shelves.stack buffer.size)
    idle := p.idle + 1 }

def clear (p : Pool) : Pool := { p with shelves := [], idle := 0 }

def idleBytes (p : Pool) : Nat :=
  p.shelves.foldr (fun (size, buffers) bytes => size * buffers.length + bytes) 0

/-- The share of requests that a parked buffer served, in percent. -/
def hitRate (p : Pool) : Float :=
  let total := p.hits + p.allocations
  if total = 0 then 0 else p.hits.toFloat / total.toFloat * 100

def described (p : Pool) : String :=
  Text.describedRecord "BufferPool"
    [("stats", Text.describedRecord "BufferPoolStats"
        [("idle_buffers", toString p.idle), ("in_use_buffers", toString p.inUse),
          ("idle_bytes", toString p.idleBytes),
          ("max_idle_buffers", toString p.config.maxIdle)]),
      ("allocation_count", toString p.allocations), ("hit_count", toString p.hits)]

end Pool
end VolumeFs
