/-
One row of `plants` under the events of every topic. The projections of the Garden, of Care and of the
Journal make the row when it is not there, those of the Catalog never do; each sets its own columns. What
an interleaving leaves of a plant is its events run on that row alone.
-/
import Plantkeeper.ReadModel.Tables

namespace Plantkeeper.ReadModel

open Plantkeeper.Journal

/-! ## The columns an event sets -/

namespace GardenEvent

def plantId : GardenEvent → PlantId
  | .plant e => e.plantId
  | .plantOnboarded plantId _ => plantId

/-- The species of a plant that is added. -/
def added? : GardenEvent → Option SpeciesId
  | .plant (.plantAdded _ _ speciesId ..) => some speciesId
  | _ => none

def patch (row : PlantRow) : GardenEvent → PlantRow
  | .plant (.plantAdded _ householdId speciesId name location addedAt _) =>
    row.added householdId speciesId name location addedAt
  | .plant (.plantMoved _ _ location _) => { row with location := some location }
  | .plant (.plantRemoved ..) => { row with removed := true }
  | .plantOnboarded _ occurredAt => { row with onboardedAt := some occurredAt }

end GardenEvent

/-- The next watering a care event reports. -/
def nextWatering? : CareEvent → Option Instant
  | .careScheduleCreated _ _ next _ | .wateringCompleted _ _ next _ | .wateringRescheduled _ _ next _ _ |
    .careMissed _ next _ | .careSkipped _ _ next _ => some next
  | .wateringDue .. => none

def carePatch (row : PlantRow) (e : CareEvent) : PlantRow :=
  match nextWatering? e with
  | some next => { row with nextWateringAt := some next }
  | none => row

/-- The species whose values an event announces. -/
def announced? : CatalogEvent → Option Species
  | .speciesAdded s _ | .speciesUpdated s _ => some s
  | .speciesCacheInvalidated .. => none

def catalogPatch (row : PlantRow) (e : CatalogEvent) : PlantRow :=
  match announced? e with
  | some s => if row.speciesId = some s.id then { row with speciesName := some s.commonName } else row
  | none => row

/-- The columns of the Garden and the one of Care are set apart from each other. -/
theorem carePatch_patch (r : PlantRow) (c : CareEvent) (e : GardenEvent) : carePatch (e.patch r) c = e.patch (carePatch r c) := by
  simp only [carePatch]
  rcases e with (_ | _ | _) | _ <;> split <;> rfl

theorem carePatch_catalogPatch (r : PlantRow) (c : CareEvent) (e : CatalogEvent) :
    carePatch (catalogPatch r e) c = catalogPatch (carePatch r c) e := by
  have hspecies : (carePatch r c).speciesId = r.speciesId := by
    unfold carePatch
    split <;> rfl
  cases he : announced? e with
  | none => simp only [catalogPatch, he]
  | some s =>
    simp only [catalogPatch, he, hspecies]
    split
    · simp only [carePatch]
      split <;> rfl
    · rfl

/-- On a row that is there, the name of its species is set or nothing is. -/
theorem catalogPatch_cases (r : PlantRow) (e : CatalogEvent) :
    catalogPatch r e = r ∨ ∃ name, catalogPatch r e = { r with speciesName := some name } := by
  unfold catalogPatch
  split
  · split
    · exact .inr ⟨_, rfl⟩
    · exact .inl rfl
  · exact .inl rfl

/-! ## The row -/

/-- What an event does to the row of a plant. -/
def plantAct (p : PlantId) (row : Option PlantRow) : TopicEvent → Option PlantRow
  | .garden e =>
    if p = e.plantId then if e.added?.isSome then some (e.patch (row.getD .blank)) else row.map e.patch else row
  | .care e => if p = e.plantId ∧ (nextWatering? e).isSome then some (carePatch (row.getD .blank) e) else row
  | .catalog e => row.map (catalogPatch · e)
  | .journal e => if p = e.plantId then some (row.getD .blank) else row
  | .notification _ => row

/-- The Journal only sees to it that the row is there. -/
theorem plantAct_journal (p : PlantId) (row : PlantRow) (e : JournalEntryAdded) :
    plantAct p (some row) (.journal e) = some row := by
  simp only [plantAct]
  split <;> rfl

/-- No event takes a row away. -/
theorem plantAct_some (p : PlantId) (row : PlantRow) (e : TopicEvent) : ∃ row', plantAct p (some row) e = some row' := by
  cases e with
  | garden e =>
    simp only [plantAct]
    split
    · split <;> exact ⟨_, rfl⟩
    · exact ⟨_, rfl⟩
  | care e =>
    simp only [plantAct]
    split <;> exact ⟨_, rfl⟩
  | catalog e => exact ⟨_, rfl⟩
  | journal e => exact ⟨_, plantAct_journal p row e⟩
  | notification => exact ⟨_, rfl⟩

theorem plants_projectCare (p : PlantId) (t : ReadTables) (e : CareEvent) :
    (projectCare t e).plants p = plantAct p (t.plants p) (.care e) := by
  have hset : ∀ t' q next, (setNextWatering t' q next).plants p =
      if p = q then some { (t'.plants p).getD .blank with nextWateringAt := some next } else t'.plants p := by
    intro t' q next
    simp only [setNextWatering, updateOrCreate, Keyed.upsert_apply]
  cases e with
  | wateringDue => simp [projectCare, plantAct, nextWatering?]
  | careScheduleCreated | wateringCompleted | wateringRescheduled | careMissed | careSkipped =>
    simp only [plantAct, carePatch, CareEvent.plantId, nextWatering?, Option.isSome_some, and_true]
    exact hset ..

theorem plants_projectCatalog (p : PlantId) (t : ReadTables) (e : CatalogEvent) :
    (projectCatalog t e).plants p = plantAct p (t.plants p) (.catalog e) := by
  cases e with
  | speciesAdded | speciesUpdated =>
    simp [projectCatalog, upsertSpecies, Keyed.modifyWhere, plantAct, catalogPatch, announced?]
  | speciesCacheInvalidated =>
    cases h : t.plants p <;> simp [projectCatalog, plantAct, catalogPatch, announced?, h]

/-- What an event leaves of a plant depends on the row of that plant alone. -/
theorem plants_project (p : PlantId) (t : ReadTables) (e : TopicEvent) :
    (project t e).plants p = plantAct p (t.plants p) e := by
  cases e with
  | garden e =>
    rcases e with (_ | _ | _) | _
    all_goals
      simp only [project, projectGarden, updateOrCreate, Keyed.upsert_apply, Keyed.modify_apply]
      rfl
  | care e => exact plants_projectCare p t e
  | catalog e => exact plants_projectCatalog p t e
  | journal e => simp only [project, projectJournal, getOrCreate, Keyed.upsert_apply, plantAct]
  | notification e => cases e <;> rfl

theorem plants_foldl (p : PlantId) (es : List TopicEvent) (t : ReadTables) :
    (es.foldl project t).plants p = es.foldl (plantAct p) (t.plants p) :=
  (List.foldl_hom (fun t' : ReadTables => t'.plants p) fun t' e => (plants_project p t' e).symm).symm

end Plantkeeper.ReadModel
