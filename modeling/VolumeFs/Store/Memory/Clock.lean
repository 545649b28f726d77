/-!
# The clock of a store

Time since the epoch, as entries keep it, and a clock that stands still until it is moved.
-/

namespace VolumeFs.Memory

/-- A time stamp: seconds since the epoch and nanoseconds within the second. -/
structure Time where
  sec : Int64 := 0
  nsec : UInt32 := 0
  deriving DecidableEq

/-- A clock, which may also stand before the epoch. -/
structure Clock where
  sec : Int := 0
  nsec : Nat := 0
  deriving DecidableEq

namespace Clock

/-- The time stamp of this moment. Before the epoch all stamps are those of the epoch. -/
def now (c : Clock) : Time :=
  if c.sec < 0 then {} else ⟨.ofInt c.sec, .ofNat c.nsec⟩

def advance (c : Clock) (sec nsec : Nat) : Clock :=
  let total := c.nsec + nsec
  ⟨c.sec + sec + (total / 1000000000 : Nat), total % 1000000000⟩

end Clock
end VolumeFs.Memory
