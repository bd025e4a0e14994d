/-
The `Plant` aggregate of the Garden context with all its columns, and the context's events. The
`Plant` that the care modules look at is a part of it, and its operations are these on that part.
-/
import Plantkeeper.Domain.Identifiers
import Plantkeeper.Domain.Plant
import Plantkeeper.Domain.Text
import Plantkeeper.Domain.Time

namespace Plantkeeper.Garden

def MIN_REPOTTING_INTERVAL : Duration := days 182

/-- The state of a `Plant`, which is also its row in `write_garden.plants`. -/
structure Plant where
  id : PlantId
  householdId : HouseholdId
  speciesId : SpeciesId
  name : Name
  location : Location
  addedAt : Instant
  lastWateredAt : Option Instant
  lastRepottedAt : Option Instant
  removed : Bool
  deriving DecidableEq

/-- The Garden context's events about one plant. -/
inductive Event
  | plantAdded (plantId : PlantId) (householdId : HouseholdId) (speciesId : SpeciesId) (name : Name)
      (location : Location) (addedAt : Instant) (occurredAt : Instant)
  | plantMoved (plantId : PlantId) (previousLocation location : Location) (occurredAt : Instant)
  | plantRemoved (plantId : PlantId) (removedAt : Instant) (occurredAt : Instant)
  deriving DecidableEq

def Event.plantId : Event → PlantId
  | .plantAdded plantId .. | .plantMoved plantId .. | .plantRemoved plantId .. => plantId

def Event.isPlantRemoved : Event → Bool
  | .plantRemoved .. => true
  | _ => false

inductive Error
  | plantNameEmpty
  | plantAlreadyRemoved
  | plantWateringTooSoon
  | plantRepottingTooSoon
  deriving DecidableEq, Repr

namespace Plant

/-- `Plant.add`. -/
def add (id : PlantId) (householdId : HouseholdId) (speciesId : SpeciesId) (name : List Char) (location : Location)
    (now : Instant) : Except Error (Plant × List Event) :=
  match normalizeName name with
  | none => .error .plantNameEmpty
  | some name => .ok (⟨id, householdId, speciesId, name, location, now, none, none, false⟩,
      [.plantAdded id householdId speciesId name location now now])

/-- `water`: no Garden event. -/
def water (p : Plant) (now : Instant) : Except Error (Plant × List Event) :=
  if p.removed then .error .plantAlreadyRemoved
  else if p.lastWateredAt.any fun last => now - last < MIN_WATERING_INTERVAL then .error .plantWateringTooSoon
  else .ok ({ p with lastWateredAt := some now }, [])

/-- `repot`. -/
def repot (p : Plant) (now : Instant) : Except Error (Plant × List Event) :=
  if p.removed then .error .plantAlreadyRemoved
  else if p.lastRepottedAt.any fun last => now - last < MIN_REPOTTING_INTERVAL then .error .plantRepottingTooSoon
  else .ok ({ p with lastRepottedAt := some now }, [])

/-- `move`: nothing when the plant is there already. -/
def move (p : Plant) (location : Location) (now : Instant) : Except Error (Plant × List Event) :=
  if p.removed then .error .plantAlreadyRemoved
  else if location = p.location then .ok (p, [])
  else .ok ({ p with location := location }, [.plantMoved p.id p.location location now])

/-- `remove`. -/
def remove (p : Plant) (now : Instant) : Except Error (Plant × List Event) :=
  if p.removed then .error .plantAlreadyRemoved
  else .ok ({ p with removed := true }, [.plantRemoved p.id now now])

/-- What the care modules see of a plant. -/
def seenByCare (p : Plant) : Plantkeeper.Plant := ⟨p.id, p.householdId, p.lastWateredAt, p.removed⟩

/-- Watering is accepted on the plant exactly if it is on the part, with the same result there. -/
theorem water_seenByCare (p : Plant) (now : Instant) :
    (p.seenByCare.water now).toOption = (p.water now).toOption.map fun r => r.1.seenByCare := by
  unfold water Plantkeeper.Plant.water seenByCare
  split
  · rfl
  · split <;> rfl

theorem remove_seenByCare (p : Plant) (now : Instant) :
    p.seenByCare.remove.toOption = (p.remove now).toOption.map fun r => r.1.seenByCare := by
  unfold remove Plantkeeper.Plant.remove seenByCare
  split <;> rfl

end Plant

end Plantkeeper.Garden
