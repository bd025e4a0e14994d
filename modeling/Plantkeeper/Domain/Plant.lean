/-
The `Plant` aggregate of the Garden context, as far as care looks at it: who keeps it, when it was
last watered, and whether it was removed.
-/
import Plantkeeper.Domain.Identifiers
import Plantkeeper.Domain.Time

namespace Plantkeeper

def MIN_WATERING_INTERVAL : Duration := hours 1

structure Plant where
  id : PlantId
  householdId : HouseholdId
  lastWateredAt : Option Instant
  removed : Bool
  deriving DecidableEq

inductive PlantError
  | plantAlreadyRemoved
  | plantWateringTooSoon
  deriving DecidableEq, Repr

namespace Plant

/-- `Plant.add`. -/
def add (id : PlantId) (householdId : HouseholdId) : Plant := ⟨id, householdId, none, false⟩

/-- `water`. -/
def water (p : Plant) (now : Instant) : Except PlantError Plant :=
  if p.removed then .error .plantAlreadyRemoved
  else if p.lastWateredAt.any fun last => now - last < MIN_WATERING_INTERVAL then .error .plantWateringTooSoon
  else .ok { p with lastWateredAt := some now }

/-- `remove`. -/
def remove (p : Plant) : Except PlantError Plant :=
  if p.removed then .error .plantAlreadyRemoved else .ok { p with removed := true }

end Plant

end Plantkeeper
