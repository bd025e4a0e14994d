/-
The domain read models: the tables of `read_analytics` by their primary keys, and the handlers of the
five projections that write them. `updateOrCreate`, `getOrCreate` and `Keyed.modify` are Django's
`update_or_create`, `get_or_create` and `filter(pk=…).update`. A column that holds the instant of its
row's last write is left out.
-/
import Plantkeeper.Domain.Care
import Plantkeeper.Domain.Garden
import Plantkeeper.Domain.Journal
import Plantkeeper.Domain.Notification
import Plantkeeper.Domain.Species
import Plantkeeper.Lib.Keyed

namespace Plantkeeper.ReadModel

open Plantkeeper.Journal

/-! ## Rows -/

/-- A row of `plants`: the columns of the Garden, then the one of the Catalog and the one of Care. -/
structure PlantRow where
  householdId : Option HouseholdId
  speciesId : Option SpeciesId
  name : Option Name
  location : Option Location
  addedAt : Option Instant
  removed : Bool
  onboardedAt : Option Instant
  speciesName : Option Name
  nextWateringAt : Option Instant
  deriving DecidableEq

/-- A row with nothing but its identifier. -/
def PlantRow.blank : PlantRow := ⟨none, none, none, none, none, false, none, none, none⟩

/-- A row of `care_schedules`. -/
structure CareRow where
  wateringInterval : WateringInterval
  nextWateringAt : Instant
  lastWateredAt : Option Instant
  version : ℕ
  deriving DecidableEq

/-- A row of `species`. -/
structure SpeciesRow where
  scientificName : Name
  commonName : Name
  wateringInterval : WateringInterval
  lightRequirement : LightRequirement
  version : ℕ
  deriving DecidableEq

/-- A row of `journal_entries`. -/
structure JournalRow where
  plantId : PlantId
  entryType : JournalEntryType
  note : Option (List Char)
  occurredAt : Instant
  recordedAt : Instant
  deriving DecidableEq

/-- A row of `notifications`. -/
structure NotificationRow where
  householdId : HouseholdId
  notificationType : NotificationType
  payload : List (String × PayloadValue)
  createdAt : Instant
  readAt : Option Instant
  deriving DecidableEq

@[ext] structure ReadTables where
  plants : PlantId → Option PlantRow
  care : PlantId → Option CareRow
  species : SpeciesId → Option SpeciesRow
  journal : JournalEntryId → Option JournalRow
  notifications : NotificationId → Option NotificationRow

def ReadTables.empty : ReadTables := ⟨fun _ => none, fun _ => none, fun _ => none, fun _ => none, fun _ => none⟩

section

variable {κ ρ : Type} [DecidableEq κ]

/-- `update_or_create(pk=k, defaults=…)`. -/
def updateOrCreate (blank : ρ) (k : κ) (f : ρ → ρ) (t : κ → Option ρ) : κ → Option ρ :=
  Keyed.upsert k (fun row => f (row.getD blank)) t

/-- `get_or_create(pk=k, defaults=…)`. -/
def getOrCreate (row : ρ) (k : κ) (t : κ → Option ρ) : κ → Option ρ := Keyed.upsert k (fun r => r.getD row) t

end

/-! ## `GardenProjection` -/

/-- The events of the topic `garden.events`. -/
inductive GardenEvent
  | plant (event : Garden.Event)
  | plantOnboarded (plantId : PlantId) (occurredAt : Instant)
  deriving DecidableEq

/-- The columns `on_plant_added` sets. -/
def PlantRow.added (householdId : HouseholdId) (speciesId : SpeciesId) (name : Name) (location : Location)
    (addedAt : Instant) (row : PlantRow) : PlantRow :=
  { row with
    householdId := some householdId
    speciesId := some speciesId
    name := some name
    location := some location
    addedAt := some addedAt
    removed := false }

def projectGarden (t : ReadTables) : GardenEvent → ReadTables
  | .plant (.plantAdded plantId householdId speciesId name location addedAt _) =>
    { t with plants := updateOrCreate .blank plantId (.added householdId speciesId name location addedAt) t.plants }
  | .plant (.plantMoved plantId _ location _) =>
    { t with plants := Keyed.modify plantId (fun row => { row with location := some location }) t.plants }
  | .plant (.plantRemoved plantId _ _) =>
    { t with plants := Keyed.modify plantId (fun row => { row with removed := true }) t.plants }
  | .plantOnboarded plantId occurredAt =>
    { t with plants := Keyed.modify plantId (fun row => { row with onboardedAt := some occurredAt }) t.plants }

/-! ## `SpeciesProjection` -/

/-- `_upsert`: the row of the species, and the name its plants carry. -/
def upsertSpecies (t : ReadTables) (s : Species) : ReadTables :=
  { t with
    species := Keyed.upsert s.id
      (fun _ => ⟨s.scientificName, s.commonName, s.wateringInterval, s.lightRequirement, s.version⟩) t.species
    plants := Keyed.modifyWhere (fun row => row.speciesId = some s.id)
      (fun row => { row with speciesName := some s.commonName }) t.plants }

/-- The projection has no handler for `SpeciesCacheInvalidated`. -/
def projectCatalog (t : ReadTables) : CatalogEvent → ReadTables
  | .speciesAdded s _ => upsertSpecies t s
  | .speciesUpdated s _ => upsertSpecies t s
  | .speciesCacheInvalidated _ _ => t

/-! ## `CareProjection` -/

/-- `_set_next_watering`. -/
def setNextWatering (t : ReadTables) (plantId : PlantId) (nextWateringAt : Instant) : ReadTables :=
  { t with
    care := Keyed.modify plantId (fun row => { row with nextWateringAt := nextWateringAt }) t.care
    plants := updateOrCreate .blank plantId (fun row => { row with nextWateringAt := some nextWateringAt }) t.plants }

/-- The row `on_care_schedule_created` leaves: a new one has version 1, an old one keeps its version. -/
def CareRow.created (wateringInterval : WateringInterval) (nextWateringAt : Instant) : Option CareRow → CareRow
  | none => ⟨wateringInterval, nextWateringAt, none, 1⟩
  | some row => { row with wateringInterval := wateringInterval, nextWateringAt := nextWateringAt }

/-- The projection has no handler for `WateringDue`. -/
def projectCare (t : ReadTables) : CareEvent → ReadTables
  | .careScheduleCreated plantId wateringInterval nextWateringAt _ =>
    let t := setNextWatering t plantId nextWateringAt
    { t with care := Keyed.upsert plantId (.created wateringInterval nextWateringAt) t.care }
  | .wateringDue _ _ _ => t
  | .wateringCompleted plantId completedAt nextWateringAt _ =>
    let t := { t with care := Keyed.modify plantId (fun row => { row with lastWateredAt := some completedAt }) t.care }
    setNextWatering t plantId nextWateringAt
  | .wateringRescheduled plantId _ nextWateringAt _ _ => setNextWatering t plantId nextWateringAt
  | .careSkipped plantId _ nextWateringAt _ => setNextWatering t plantId nextWateringAt
  | .careMissed plantId nextWateringAt _ => setNextWatering t plantId nextWateringAt

/-! ## `JournalProjection` -/

/-- `on_journal_entry_added`. -/
def projectJournal (t : ReadTables) (e : JournalEntryAdded) : ReadTables :=
  { t with
    plants := getOrCreate .blank e.plantId t.plants
    journal := Keyed.upsert e.entryId (fun _ => ⟨e.plantId, e.entryType, e.note, e.entryOccurredAt, e.occurredAt⟩) t.journal }

/-! ## `NotificationProjection` -/

/-- The events of the topic `notifications.events`. -/
inductive NotificationEvent
  | notificationCreated (notificationId : NotificationId) (householdId : HouseholdId) (notificationType : NotificationType)
      (payload : List (String × PayloadValue)) (createdAt : Instant)
  | notificationRead (notificationId : NotificationId) (readAt : Instant)
  deriving DecidableEq

/-- The row `on_notification_created` leaves: an acknowledgement stays. -/
def NotificationRow.created (householdId : HouseholdId) (notificationType : NotificationType)
    (payload : List (String × PayloadValue)) (createdAt : Instant) (row : Option NotificationRow) : NotificationRow :=
  ⟨householdId, notificationType, payload, createdAt, row.bind (·.readAt)⟩

def projectNotification (t : ReadTables) : NotificationEvent → ReadTables
  | .notificationCreated notificationId householdId notificationType payload createdAt =>
    { t with notifications :=
        Keyed.upsert notificationId (.created householdId notificationType payload createdAt) t.notifications }
  | .notificationRead notificationId readAt =>
    { t with notifications := Keyed.modify notificationId (fun row => { row with readAt := some readAt }) t.notifications }

/-! ## Topics -/

/-- The histories of the topics, each in its own order. -/
structure Histories where
  garden : List GardenEvent
  care : List CareEvent
  catalog : List CatalogEvent
  journal : List JournalEntryAdded
  notifications : List NotificationEvent
  deriving DecidableEq

/-- An event as one projection receives it. -/
inductive TopicEvent
  | garden (event : GardenEvent)
  | care (event : CareEvent)
  | catalog (event : CatalogEvent)
  | journal (event : JournalEntryAdded)
  | notification (event : NotificationEvent)
  deriving DecidableEq

def project (t : ReadTables) : TopicEvent → ReadTables
  | .garden e => projectGarden t e
  | .care e => projectCare t e
  | .catalog e => projectCatalog t e
  | .journal e => projectJournal t e
  | .notification e => projectNotification t e

namespace TopicEvent

def garden? : TopicEvent → Option GardenEvent
  | .garden e => some e
  | _ => none

def care? : TopicEvent → Option CareEvent
  | .care e => some e
  | _ => none

def catalog? : TopicEvent → Option CatalogEvent
  | .catalog e => some e
  | _ => none

def journal? : TopicEvent → Option JournalEntryAdded
  | .journal e => some e
  | _ => none

def notification? : TopicEvent → Option NotificationEvent
  | .notification e => some e
  | _ => none

end TopicEvent

/-- The histories an interleaving is made of. -/
def historiesOf (es : List TopicEvent) : Histories :=
  ⟨es.filterMap (·.garden?), es.filterMap (·.care?), es.filterMap (·.catalog?), es.filterMap (·.journal?),
    es.filterMap (·.notification?)⟩

end Plantkeeper.ReadModel
