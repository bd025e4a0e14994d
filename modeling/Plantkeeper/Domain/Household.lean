/-
The `Household` aggregate: the plants a family owns, at most fifty. Its row holds only its name; which
plants it owns is read from theirs.
-/
import Mathlib.Data.Finset.Insert
import Mathlib.Data.Finset.Card
import Plantkeeper.Domain.Identifiers
import Plantkeeper.Domain.Text

namespace Plantkeeper.Garden

def MAX_PLANTS : ℕ := 50

structure Household where
  id : HouseholdId
  name : Name
  plantIds : Finset PlantId
  le : plantIds.card ≤ MAX_PLANTS

inductive HouseholdError
  | householdNameEmpty
  | householdCapacityExceeded
  deriving DecidableEq, Repr

namespace Household

/-- `Household(…)`: the name is checked before the number of plants. -/
def ofStored (id : HouseholdId) (name : List Char) (plantIds : List PlantId) : Except HouseholdError Household :=
  match normalizeName name with
  | none => .error .householdNameEmpty
  | some name =>
    if h : plantIds.toFinset.card ≤ MAX_PLANTS then .ok ⟨id, name, plantIds.toFinset, h⟩
    else .error .householdCapacityExceeded

/-- `add_plant`: nothing for a plant that is registered. -/
def addPlant (household : Household) (plantId : PlantId) : Except HouseholdError Household :=
  if plantId ∈ household.plantIds then .ok household
  else if h : household.plantIds.card < MAX_PLANTS then
    .ok { household with
      plantIds := insert plantId household.plantIds
      le := (Finset.card_insert_le ..).trans h }
  else .error .householdCapacityExceeded

/-- A household is made of a name that is not blank and of no more than the plants it may own. -/
theorem ofStored_ok {id : HouseholdId} {name : List Char} {plantIds : List PlantId} {household : Household}
    (h : ofStored id name plantIds = .ok household) :
    normalizeName name = some household.name ∧ household.plantIds = plantIds.toFinset := by
  unfold ofStored at h
  split at h
  · cases h
  · rename_i hname
    split at h
    · cases h
      exact ⟨hname, rfl⟩
    · cases h

/-- A new plant is only taken below the cap. -/
theorem addPlant_ok {household household' : Household} {plantId : PlantId} (hnew : plantId ∉ household.plantIds)
    (h : household.addPlant plantId = .ok household') : household.plantIds.card < MAX_PLANTS := by
  unfold addPlant at h
  rw [if_neg hnew] at h
  split at h
  · assumption
  · cases h

end Household

end Plantkeeper.Garden
