/-
The two producers of reminders about plants. `NotificationConsumer` turns Care and Telemetry events into
notifications for the household it remembers of the plant, from the Garden's events; `AdaptiveWateringSaga`
reports overwatering to the household the Garden has of it. Both look among the household's unread
notifications before they add one that a sensor would repeat.
-/
import Plantkeeper.Domain.Care
import Plantkeeper.Domain.Garden
import Plantkeeper.Domain.Telemetry
import Plantkeeper.Lib.Keyed
import Plantkeeper.Notifications.Stream

namespace Plantkeeper.Notifications

/-! ## Events -/

/-- What happened, in the context it happened in. -/
inductive Fact
  | garden (event : Garden.Event)
  | care (event : CareEvent)
  | telemetry (event : Telemetry.Event)
  deriving DecidableEq

def Fact.plantId : Fact → PlantId
  | .garden e => e.plantId
  | .care e => e.plantId
  | .telemetry e => e.plantId

/-- An event with its identifier. -/
structure DomainEvent where
  eventId : Uuid
  fact : Fact
  deriving DecidableEq

/-! ## `plant_refs` -/

/-- A row of `write_notifications.plant_refs`. -/
structure PlantReference where
  householdId : HouseholdId
  name : Name
  location : Location
  seenAt : Instant
  deriving DecidableEq

abbrev PlantRefs := PlantId → Option PlantReference

/-- `upsert`: a row that was seen later stays. -/
def upsertReference (refs : PlantRefs) (plantId : PlantId) (reference : PlantReference) : PlantRefs :=
  Keyed.upsert plantId (fun stored => match stored with
    | none => reference
    | some row => if row.seenAt < reference.seenAt then reference else row) refs

/-- `maintain_plant_reference`. -/
def maintainPlantReference (refs : PlantRefs) : Garden.Event → PlantRefs
  | .plantRemoved plantId _ _ => Function.update refs plantId none
  | .plantAdded plantId householdId _ name location _ occurredAt =>
    upsertReference refs plantId ⟨householdId, name, location, occurredAt⟩
  | .plantMoved plantId _ location occurredAt =>
    match refs plantId with
    | none => refs
    | some known => upsertReference refs plantId ⟨known.householdId, known.name, location, occurredAt⟩

/-- The references after an event: only the Garden's change them. -/
def rememberPlant (refs : PlantRefs) (e : DomainEvent) : PlantRefs :=
  match e.fact with
  | .garden event => maintainPlantReference refs event
  | _ => refs

/-! ## `NotificationConsumer` -/

/-- What a trigger event calls for: its class name, and the notification's type, plant and payload. -/
structure Reminder where
  eventName : String
  notificationType : NotificationType
  plantId : PlantId
  payload : List (String × PayloadValue)

/-- `total_seconds`. -/
def totalSeconds (d : Duration) : ℚ := (d : ℚ) / 1000000

/-- The branches of `handle` that store a notification. -/
def reminder? : Fact → Option Reminder
  | .care (.wateringDue plantId dueAt _) =>
    some ⟨"WateringDue", .wateringDue, plantId, [("plant_id", .uuid plantId), ("due_at", .instant dueAt)]⟩
  | .care (.wateringRescheduled plantId previous next reason _) =>
    some ⟨"WateringRescheduled", .wateringRescheduled, plantId,
      [("plant_id", .uuid plantId), ("previous_next_watering_at", .instant previous), ("next_watering_at", .instant next),
        ("reason", reason.elim .null .text)]⟩
  | .care (.careMissed plantId next _) =>
    some ⟨"CareMissed", .careMissed, plantId, [("plant_id", .uuid plantId), ("next_watering_at", .instant next)]⟩
  | .telemetry (.soilMoistureLow _ plantId moisture threshold _) =>
    some ⟨"SoilMoistureLow", .soilMoistureLow, plantId,
      [("plant_id", .uuid plantId), ("moisture", .number moisture.value), ("threshold", .number threshold)]⟩
  | .telemetry (.temperatureAnomaly _ plantId temperature low high _) =>
    some ⟨"TemperatureAnomaly", .temperatureAnomaly, plantId,
      [("plant_id", .uuid plantId), ("temperature", .number temperature.value), ("low_threshold", .number low),
        ("high_threshold", .number high)]⟩
  | .telemetry (.sensorOffline _ plantId lastSeenAt offlineFor _) =>
    some ⟨"SensorOffline", .sensorOffline, plantId,
      [("plant_id", .uuid plantId), ("last_seen_at", .instant lastSeenAt),
        ("offline_for_seconds", .number (totalSeconds offlineFor))]⟩
  | _ => none

/-- `UNREAD_GUARDED`. -/
def unreadGuarded : NotificationType → Bool
  | .soilMoistureLow | .temperatureAnomaly => true
  | _ => false

/-- The notification is about the plant. -/
def concerns (n : Notification) (plantId : PlantId) : Bool := n.payload.lookup "plant_id" = some (.uuid plantId)

/-- `_has_unread`. -/
def hasUnread (table : List Notification) (householdId : HouseholdId) (type : NotificationType) (plantId : PlantId) : Bool :=
  (listPending table householdId none).any fun n => n.notificationType = type && concerns n plantId

/-- `notifications.get(id) is not None`. -/
def stored (table : List Notification) (id : NotificationId) : Bool := table.any (·.id = id)

theorem hasUnread_iff {table : List Notification} {householdId : HouseholdId} {type : NotificationType} {plantId : PlantId} :
    hasUnread table householdId type plantId = true ↔ ∃ n ∈ table, n.householdId = householdId ∧ n.readAt = none ∧
      n.notificationType = type ∧ concerns n plantId = true := by
  simp [hasUnread, listPending, unread, after, and_assoc]

/-- What an event calls for is about its plant, and is never a report of overwatering. -/
theorem reminder?_ok {f : Fact} {r : Reminder} (h : reminder? f = some r) :
    r.plantId = f.plantId ∧ r.payload.lookup "plant_id" = some (.uuid f.plantId) ∧ r.notificationType ≠ .soilMoistureHigh := by
  rcases f with _ | (_ | _ | _ | _ | _ | _) | (_ | _ | _ | _ | _) <;> cases h <;>
    exact ⟨rfl, rfl, fun htype => nomatch htype⟩

section

variable (names : Naming)

/-- `notification_id_for`. -/
def notificationIdFor (eventName : String) (eventId : Uuid) : NotificationId :=
  names.uuid5 ("plantkeeper:notification:" ++ eventName ++ ":" ++ names.str eventId)

/-- `_store`: the notification that is added. -/
def store (refs : PlantRefs) (table : List Notification) (now : Instant) (eventId : Uuid) (r : Reminder) :
    Option Notification :=
  match refs r.plantId with
  | none => none
  | some plant =>
    if stored table (notificationIdFor names r.eventName eventId) then none
    else if unreadGuarded r.notificationType && hasUnread table plant.householdId r.notificationType r.plantId then none
    else some (.create (notificationIdFor names r.eventName eventId) plant.householdId r.notificationType now r.payload)

/-- `handle`, as far as it stores. -/
def notificationFor (refs : PlantRefs) (table : List Notification) (now : Instant) (e : DomainEvent) : Option Notification :=
  (reminder? e.fact).bind (store names refs table now e.eventId)

end

section

variable {names : Naming} {refs : PlantRefs} {table : List Notification} {now : Instant} {eventId : Uuid} {r : Reminder}

/-- The three guards of `_store`. -/
theorem store_eq_none : store names refs table now eventId r = none ↔ ∀ plant, refs r.plantId = some plant →
    stored table (notificationIdFor names r.eventName eventId) = false →
      unreadGuarded r.notificationType = true ∧ hasUnread table plant.householdId r.notificationType r.plantId = true := by
  unfold store
  cases hplant : refs r.plantId with
  | none => simp
  | some plant =>
    cases hstored : stored table (notificationIdFor names r.eventName eventId) with
    | true => simp
    | false =>
      by_cases hg : unreadGuarded r.notificationType = true ∧ hasUnread table plant.householdId r.notificationType r.plantId = true
      · simp [hg.1, hg.2]
      · simp only [Bool.false_eq_true, ↓reduceIte, Bool.and_eq_true, if_neg hg, reduceCtorEq, false_iff]
        exact fun hall => hg (hall plant rfl trivial)

theorem store_ok {n : Notification} (h : store names refs table now eventId r = some n) :
    ∃ plant, refs r.plantId = some plant ∧
      n = .create (notificationIdFor names r.eventName eventId) plant.householdId r.notificationType now r.payload ∧
      (unreadGuarded r.notificationType = true →
        hasUnread table plant.householdId r.notificationType r.plantId = false) := by
  unfold store at h
  split at h
  · cases h
  · rename_i plant hplant
    split at h
    · cases h
    · split at h
      · cases h
      · rename_i hguard
        cases h
        refine ⟨plant, hplant, rfl, fun hg => ?_⟩
        simpa [hg] using hguard

end

/-! ## `AdaptiveWateringSaga` -/

/-- `_on_soil_moisture_high`: the notification that is added, under a new identifier. `plants` are the
households of the Garden's plants, removed ones too. -/
def onSoilMoistureHigh (plants : PlantId → Option HouseholdId) (table : List Notification) (newId : NotificationId)
    (now : Instant) (e : DomainEvent) : Option Notification :=
  match e.fact with
  | .telemetry (.soilMoistureHigh _ plantId moisture threshold _) =>
    match plants plantId with
    | none => none
    | some householdId =>
      if hasUnread table householdId .soilMoistureHigh plantId then none
      else some (.create newId householdId .soilMoistureHigh now
        [("plant_id", .uuid plantId), ("moisture", .number moisture.value), ("threshold", .number threshold)])
  | _ => none

end Plantkeeper.Notifications
