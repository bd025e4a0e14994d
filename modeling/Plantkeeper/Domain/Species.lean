/-
The `Species` aggregate of the Catalog context and its events. A name is stored stripped and is never
blank; a change compares all four values and moves the version only if one of them differs.
-/
import Plantkeeper.Domain.Care
import Plantkeeper.Domain.Identifiers
import Plantkeeper.Domain.Text

namespace Plantkeeper

/-- How much light a species needs. -/
inductive LightRequirement
  | low
  | medium
  | high
  deriving DecidableEq, Repr

/-- The state of a `Species`, which is also its row in `write_catalog.species`. -/
structure Species where
  id : SpeciesId
  scientificName : Name
  commonName : Name
  wateringInterval : WateringInterval
  lightRequirement : LightRequirement
  version : ℕ
  deriving DecidableEq

/-- The Catalog context's events about one species. The first two carry every column of the row. -/
inductive CatalogEvent
  | speciesAdded (species : Species) (occurredAt : Instant)
  | speciesUpdated (species : Species) (occurredAt : Instant)
  | speciesCacheInvalidated (speciesId : SpeciesId) (occurredAt : Instant)
  deriving DecidableEq

inductive CatalogError
  | speciesNameEmpty
  | speciesVersionConflict
  deriving DecidableEq, Repr

namespace Species

/-- `Species.add`. -/
def add (id : SpeciesId) (scientificName commonName : List Char) (wateringInterval : WateringInterval)
    (lightRequirement : LightRequirement) (now : Instant) : Except CatalogError (Species × CatalogEvent) :=
  match normalizeName scientificName, normalizeName commonName with
  | some scientific, some common =>
    let s : Species := ⟨id, scientific, common, wateringInterval, lightRequirement, 1⟩
    .ok (s, .speciesAdded s now)
  | _, _ => .error .speciesNameEmpty

/-- `update`: the changed species and its event, or no event when the values are the stored ones. -/
def update (s : Species) (scientificName commonName : List Char) (wateringInterval : WateringInterval)
    (lightRequirement : LightRequirement) (now : Instant) (expectedVersion : ℕ) :
    Except CatalogError (Species × Option CatalogEvent) :=
  if expectedVersion ≠ s.version then .error .speciesVersionConflict
  else match normalizeName scientificName, normalizeName commonName with
    | some scientific, some common =>
      if scientific ≠ s.scientificName ∨ common ≠ s.commonName ∨ wateringInterval ≠ s.wateringInterval ∨
          lightRequirement ≠ s.lightRequirement then
        let s' : Species := ⟨s.id, scientific, common, wateringInterval, lightRequirement, s.version + 1⟩
        .ok (s', some (.speciesUpdated s' now))
      else .ok (s, none)
    | _, _ => .error .speciesNameEmpty

section

variable {s s' : Species} {id : SpeciesId} {scientificName commonName : List Char} {wateringInterval : WateringInterval}
  {lightRequirement : LightRequirement} {now : Instant} {expectedVersion : ℕ}

theorem add_ok {e : CatalogEvent} (h : add id scientificName commonName wateringInterval lightRequirement now = .ok (s, e)) :
    s.id = id ∧ e = .speciesAdded s now := by
  unfold add at h
  split at h
  · cases h
    exact ⟨rfl, rfl⟩
  · cases h

/-- A change that is not refused keeps the species as it is, or announces it with its new values. -/
theorem update_ok {e : Option CatalogEvent}
    (h : s.update scientificName commonName wateringInterval lightRequirement now expectedVersion = .ok (s', e)) :
    (s' = s ∧ e = none) ∨ (s'.id = s.id ∧ e = some (.speciesUpdated s' now)) := by
  unfold update at h
  split at h
  · cases h
  · split at h
    · split at h
      · cases h
        exact .inr ⟨rfl, rfl⟩
      · cases h
        exact .inl ⟨rfl, rfl⟩
    · cases h

/-- An announced change is the next version of the species. -/
theorem update_announced {e : CatalogEvent}
    (h : s.update scientificName commonName wateringInterval lightRequirement now expectedVersion = .ok (s', some e)) :
    s'.id = s.id ∧ s'.version = s.version + 1 ∧ e = .speciesUpdated s' now := by
  unfold update at h
  split at h
  · cases h
  · split at h
    · split at h
      · cases h
        exact ⟨rfl, rfl, rfl⟩
      · cases h
    · cases h

end

end Species

end Plantkeeper
