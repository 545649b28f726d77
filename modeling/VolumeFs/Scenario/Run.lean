import VolumeFs.Scenario.OnObjects
import VolumeFs.Scenario.OnStore
import VolumeFs.Scenario.OnVolume

/-!
# Scenarios

A scenario is a list of actions on a world. Before each of them a little time passes, and within
one the clock stands still.
-/

namespace VolumeFs.Scenario

inductive Action where
  | store (action : StoreAction)
  | session (action : SessionAction)
  | volume (action : VolumeAction)
  | listing (action : ListingAction)
  | handle (action : HandleAction)
  | output (action : OutputAction)
  | reader (action : ReaderAction)
  | pool (action : PoolAction)

namespace World

def perform (w : World) : Action → Answer × World
  | .store action => w.onStore action
  | .session action => w.onSession action
  | .volume action => w.onVolume action
  | .listing action => w.onListing action
  | .handle action => w.onHandle action
  | .output action => w.onOutput action
  | .reader action => w.onReader action
  | .pool action => w.onPool action

/-- Lets time pass and carries out an action. -/
def step (w : World) (action : Action) : Answer × World := w.tick.perform action

def run (w : World) (actions : List Action) : World :=
  actions.foldl (fun w action => (w.step action).2) w

end World
end VolumeFs.Scenario
