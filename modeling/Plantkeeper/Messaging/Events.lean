/-
The event catalogue: every event with its fields, its name, its topic and the key that orders it, and the
provenance that travels beside it. Instants keep their offset here, because they become texts.
-/
import Plantkeeper.Domain.Iso
import Plantkeeper.Domain.Journal
import Plantkeeper.Domain.Notification
import Plantkeeper.Domain.Species
import Plantkeeper.Domain.Telemetry
import Plantkeeper.Domain.Uuid
import Plantkeeper.Lib.Json

namespace Plantkeeper.Messaging

open Journal (JournalEntryType)
open Telemetry (Moisture Temperature LightLevel)

/-- A `datetime` with an offset. -/
structure AwareDatetime where
  datetime : DateTime
  aware : datetime.offset.isSome = true
  deriving DecidableEq

/-- What the field type makes of a `datetime`: `none` is its refusal. -/
def AwareDatetime.of (d : DateTime) : Option AwareDatetime := if h : d.offset.isSome = true then some ⟨d, h⟩ else none

theorem AwareDatetime.of_datetime (d : AwareDatetime) : AwareDatetime.of d.datetime = some d := dif_pos d.aware

/-- A `dict[str, JsonValue]`. -/
structure Document where
  members : List (String × Json)
  proper : (Json.obj members).Proper

def Document.json (d : Document) : Json := .obj d.members

/-! ## Events -/

inductive EventType
  | plantAdded | plantRemoved | plantMoved | plantOnboarded
  | careScheduleCreated | wateringDue | wateringCompleted | wateringRescheduled | careMissed | careSkipped
  | speciesSyncRequested | speciesAdded | speciesUpdated | speciesCacheInvalidated
  | journalEntryAdded
  | telemetryReceived | soilMoistureLow | soilMoistureHigh | temperatureAnomaly | sensorOffline
  | notificationCreated | notificationRead
  | sagaStarted | sagaCompleted | sagaFailed | sagaCompensated | sagaRetrying | sagaParked
  deriving DecidableEq, Repr

/-- What an event says beyond its identity and its instant. -/
inductive EventFields
  | plantAdded (plantId householdId speciesId : UUID) (name : String) (location : Location) (addedAt : AwareDatetime)
  | plantRemoved (plantId : UUID) (removedAt : AwareDatetime)
  | plantMoved (plantId : UUID) (previousLocation location : Location)
  | plantOnboarded (plantId householdId speciesId : UUID) (nextWateringAt : AwareDatetime)
  | careScheduleCreated (plantId : UUID) (wateringInterval : WateringInterval) (nextWateringAt : AwareDatetime)
  | wateringDue (plantId : UUID) (dueAt : AwareDatetime)
  | wateringCompleted (plantId : UUID) (completedAt nextWateringAt : AwareDatetime)
  | wateringRescheduled (plantId : UUID) (previousNextWateringAt nextWateringAt : AwareDatetime) (reason : Option String)
  | careMissed (plantId : UUID) (nextWateringAt : AwareDatetime)
  | careSkipped (plantId : UUID) (skippedAt nextWateringAt : AwareDatetime)
  | speciesSyncRequested
  | speciesAdded (speciesId : UUID) (scientificName commonName : String) (wateringInterval : WateringInterval)
      (lightRequirement : LightRequirement) (version : ℤ)
  | speciesUpdated (speciesId : UUID) (scientificName commonName : String) (wateringInterval : WateringInterval)
      (lightRequirement : LightRequirement) (version : ℤ)
  | speciesCacheInvalidated (speciesId : UUID)
  | journalEntryAdded (entryId plantId : UUID) (entryType : JournalEntryType) (note : Option String)
      (entryOccurredAt : AwareDatetime)
  | telemetryReceived (sensorId plantId : UUID) (recordedAt : AwareDatetime) (moisture : Moisture)
      (temperature : Temperature) (light : LightLevel)
  | soilMoistureLow (sensorId plantId : UUID) (moisture : Moisture) (threshold : ℚ)
  | soilMoistureHigh (sensorId plantId : UUID) (moisture : Moisture) (threshold : ℚ)
  | temperatureAnomaly (sensorId plantId : UUID) (temperature : Temperature) (lowThreshold highThreshold : ℚ)
  | sensorOffline (sensorId plantId : UUID) (lastSeenAt : AwareDatetime) (offlineFor : Duration)
  | notificationCreated (notificationId householdId : UUID) (notificationType : NotificationType) (payload : Document)
      (createdAt : AwareDatetime)
  | notificationRead (notificationId householdId : UUID) (readAt : AwareDatetime)
  | sagaStarted (sagaId : UUID) (sagaName : String)
  | sagaCompleted (sagaId : UUID) (sagaName : String)
  | sagaFailed (sagaId : UUID) (sagaName error : String)
  | sagaCompensated (sagaId : UUID) (sagaName : String)
  | sagaRetrying (sagaId : UUID) (sagaName : String) (attempt : ℤ) (error : String)
  | sagaParked (sagaId : UUID) (sagaName : String) (attempts : ℤ) (error : String)

structure DomainEvent where
  eventId : UUID
  occurredAt : AwareDatetime
  fields : EventFields

/-- `DomainEvent.schema_version`, which no event overrides. -/
def SCHEMA_VERSION : ℕ := 1

/-- `type(event)`. -/
def EventFields.type : EventFields → EventType
  | plantAdded .. => .plantAdded
  | plantRemoved .. => .plantRemoved
  | plantMoved .. => .plantMoved
  | plantOnboarded .. => .plantOnboarded
  | careScheduleCreated .. => .careScheduleCreated
  | wateringDue .. => .wateringDue
  | wateringCompleted .. => .wateringCompleted
  | wateringRescheduled .. => .wateringRescheduled
  | careMissed .. => .careMissed
  | careSkipped .. => .careSkipped
  | speciesSyncRequested => .speciesSyncRequested
  | speciesAdded .. => .speciesAdded
  | speciesUpdated .. => .speciesUpdated
  | speciesCacheInvalidated .. => .speciesCacheInvalidated
  | journalEntryAdded .. => .journalEntryAdded
  | telemetryReceived .. => .telemetryReceived
  | soilMoistureLow .. => .soilMoistureLow
  | soilMoistureHigh .. => .soilMoistureHigh
  | temperatureAnomaly .. => .temperatureAnomaly
  | sensorOffline .. => .sensorOffline
  | notificationCreated .. => .notificationCreated
  | notificationRead .. => .notificationRead
  | sagaStarted .. => .sagaStarted
  | sagaCompleted .. => .sagaCompleted
  | sagaFailed .. => .sagaFailed
  | sagaCompensated .. => .sagaCompensated
  | sagaRetrying .. => .sagaRetrying
  | sagaParked .. => .sagaParked

def DomainEvent.type (e : DomainEvent) : EventType := e.fields.type

/-! ## Topics -/

def GARDEN_EVENTS : String := "garden.events"
def CARE_EVENTS : String := "care.events"
def CATALOG_EVENTS : String := "catalog.events"
def JOURNAL_EVENTS : String := "journal.events"
def TELEMETRY_EVENTS : String := "telemetry.events"
def NOTIFICATIONS_EVENTS : String := "notifications.events"
def SAGA_EVENTS : String := "saga.events"

namespace EventType

/-- `__name__`. -/
def name : EventType → String
  | plantAdded => "PlantAdded"
  | plantRemoved => "PlantRemoved"
  | plantMoved => "PlantMoved"
  | plantOnboarded => "PlantOnboarded"
  | careScheduleCreated => "CareScheduleCreated"
  | wateringDue => "WateringDue"
  | wateringCompleted => "WateringCompleted"
  | wateringRescheduled => "WateringRescheduled"
  | careMissed => "CareMissed"
  | careSkipped => "CareSkipped"
  | speciesSyncRequested => "SpeciesSyncRequested"
  | speciesAdded => "SpeciesAdded"
  | speciesUpdated => "SpeciesUpdated"
  | speciesCacheInvalidated => "SpeciesCacheInvalidated"
  | journalEntryAdded => "JournalEntryAdded"
  | telemetryReceived => "TelemetryReceived"
  | soilMoistureLow => "SoilMoistureLow"
  | soilMoistureHigh => "SoilMoistureHigh"
  | temperatureAnomaly => "TemperatureAnomaly"
  | sensorOffline => "SensorOffline"
  | notificationCreated => "NotificationCreated"
  | notificationRead => "NotificationRead"
  | sagaStarted => "SagaStarted"
  | sagaCompleted => "SagaCompleted"
  | sagaFailed => "SagaFailed"
  | sagaCompensated => "SagaCompensated"
  | sagaRetrying => "SagaRetrying"
  | sagaParked => "SagaParked"

/-- `EVENT_TOPICS`. -/
def topic : EventType → String
  | plantAdded | plantRemoved | plantMoved | plantOnboarded => GARDEN_EVENTS
  | careScheduleCreated | wateringDue | wateringCompleted | wateringRescheduled | careMissed | careSkipped => CARE_EVENTS
  | speciesSyncRequested | speciesAdded | speciesUpdated | speciesCacheInvalidated => CATALOG_EVENTS
  | journalEntryAdded => JOURNAL_EVENTS
  | telemetryReceived | soilMoistureLow | soilMoistureHigh | temperatureAnomaly | sensorOffline => TELEMETRY_EVENTS
  | notificationCreated | notificationRead => NOTIFICATIONS_EVENTS
  | sagaStarted | sagaCompleted | sagaFailed | sagaCompensated | sagaRetrying | sagaParked => SAGA_EVENTS

/-- The types of `EVENT_TOPICS`, in its order. -/
def catalogue : List EventType :=
  [plantAdded, plantRemoved, plantMoved, plantOnboarded, careScheduleCreated, wateringDue, wateringCompleted,
    wateringRescheduled, careMissed, careSkipped, speciesSyncRequested, speciesAdded, speciesUpdated,
    speciesCacheInvalidated, journalEntryAdded, telemetryReceived, soilMoistureLow, soilMoistureHigh,
    temperatureAnomaly, sensorOffline, notificationCreated, notificationRead, sagaStarted, sagaCompleted, sagaFailed,
    sagaCompensated, sagaRetrying, sagaParked]

end EventType

/-- `topic_for`. -/
def topicFor (e : DomainEvent) : String := e.type.topic

/-- `event_type_for`. -/
def eventTypeFor (eventName : String) : Option EventType := EventType.catalogue.find? fun t => t.name = eventName

/-- Every event is found by the name its messages carry. -/
theorem eventTypeFor_name (t : EventType) : eventTypeFor t.name = some t := by cases t <;> rfl

/-! ## Keys -/

/-- The identifiers among the fields that a key is taken from. -/
def EventFields.identifiers : EventFields → List (String × UUID)
  | plantAdded plantId householdId speciesId .. | plantOnboarded plantId householdId speciesId .. =>
    [("plant_id", plantId), ("household_id", householdId), ("species_id", speciesId)]
  | plantRemoved plantId .. | plantMoved plantId .. | careScheduleCreated plantId .. | wateringDue plantId .. |
    wateringCompleted plantId .. | wateringRescheduled plantId .. | careMissed plantId .. | careSkipped plantId .. |
    journalEntryAdded _ plantId .. => [("plant_id", plantId)]
  | speciesSyncRequested => []
  | speciesAdded speciesId .. | speciesUpdated speciesId .. | speciesCacheInvalidated speciesId => [("species_id", speciesId)]
  | telemetryReceived sensorId plantId .. | soilMoistureLow sensorId plantId .. | soilMoistureHigh sensorId plantId .. |
    temperatureAnomaly sensorId plantId .. | sensorOffline sensorId plantId .. =>
    [("sensor_id", sensorId), ("plant_id", plantId)]
  | notificationCreated _ householdId .. | notificationRead _ householdId .. => [("household_id", householdId)]
  | sagaStarted sagaId .. | sagaCompleted sagaId .. | sagaFailed sagaId .. | sagaCompensated sagaId .. |
    sagaRetrying sagaId .. | sagaParked sagaId .. => [("saga_id", sagaId)]

def PARTITION_KEY_FIELDS : List String := ["plant_id", "household_id", "species_id", "sensor_id", "saga_id"]

/-- `partition_key_for`. -/
def partitionKeyFor (e : DomainEvent) : String :=
  String.ofList ((PARTITION_KEY_FIELDS.findSome? fun field => e.fields.identifiers.lookup field).getD e.eventId).str

/-! ## Provenance -/

def UNKNOWN_RAISER : String := "system:unknown"

structure MessageContext where
  raisedBy : String
  correlationId : Option UUID
  causationId : Option UUID
  traceparent : Option String
  observedAt : AwareDatetime
  deriving DecidableEq

/-- `reaction_context`, at `now`: `none` is the `ValidationError` of the context. -/
def reactionContext (now : AwareDatetime) (raisedBy : String) (causedBy : UUID) (correlationId : Option UUID)
    (traceparent : Option String) (observedAt : Option DateTime) : Option MessageContext :=
  (AwareDatetime.of (observedAt.getD now.datetime)).map fun observedAt =>
    ⟨raisedBy, some (correlationId.getD causedBy), some causedBy, traceparent, observedAt⟩

end Plantkeeper.Messaging
