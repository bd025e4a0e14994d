/-
The `Sensor` aggregate of the Telemetry context, its readings and its events. The silence state is two
instants: when the sensor last reported, and when its current silence was announced.
-/
import Mathlib.Data.Rat.Defs
import Mathlib.Algebra.Order.Ring.Rat
import Plantkeeper.Domain.Identifiers
import Plantkeeper.Domain.Time

namespace Plantkeeper.Telemetry

abbrev SensorId := Uuid

/-! ## Values -/

/-- Soil moisture as a percentage. -/
structure Moisture where
  value : ℚ
  nonneg : 0 ≤ value
  le : value ≤ 100
  deriving DecidableEq

/-- Air temperature in degrees Celsius. -/
structure Temperature where
  value : ℚ
  ge : -50 ≤ value
  le : value ≤ 60
  deriving DecidableEq

/-- Illuminance in lux. -/
structure LightLevel where
  value : ℚ
  nonneg : 0 ≤ value
  deriving DecidableEq

/-- One measurement reported by a sensor. -/
structure SensorReading where
  sensorId : SensorId
  recordedAt : Instant
  moisture : Moisture
  temperature : Temperature
  light : LightLevel
  deriving DecidableEq

/-- A reading as it is stored, with the plant its sensor watches. -/
structure TelemetryReading where
  sensorId : SensorId
  plantId : PlantId
  recordedAt : Instant
  moisture : Moisture
  temperature : Temperature
  light : LightLevel
  deriving DecidableEq

/-- The primary key of `write_telemetry.sensor_readings`. -/
abbrev ReadingKey := SensorId × Instant

def SensorReading.key (r : SensorReading) : ReadingKey := (r.sensorId, r.recordedAt)

def TelemetryReading.key (r : TelemetryReading) : ReadingKey := (r.sensorId, r.recordedAt)

/-- The constructors check their ranges. -/
def Moisture.of (value : ℚ) : Option Moisture :=
  if h : 0 ≤ value ∧ value ≤ 100 then some ⟨value, h.1, h.2⟩ else none

def Temperature.of (value : ℚ) : Option Temperature :=
  if h : -50 ≤ value ∧ value ≤ 60 then some ⟨value, h.1, h.2⟩ else none

def LightLevel.of (value : ℚ) : Option LightLevel := if h : 0 ≤ value then some ⟨value, h⟩ else none

def MOISTURE_LOW_THRESHOLD : ℚ := 30
def MOISTURE_HIGH_THRESHOLD : ℚ := 80
def TEMPERATURE_LOW_THRESHOLD : ℚ := 10
def TEMPERATURE_HIGH_THRESHOLD : ℚ := 35
def OFFLINE_AFTER : Duration := seconds 600

/-! ## The aggregate -/

/-- The state of a `Sensor`, which is also its row in `write_telemetry.sensors`. -/
structure Sensor where
  id : SensorId
  plantId : PlantId
  addedAt : Instant
  lastSeenAt : Option Instant
  offlineAnnouncedAt : Option Instant
  deriving DecidableEq

inductive Event
  | telemetryReceived (sensorId : SensorId) (plantId : PlantId) (recordedAt : Instant) (moisture : Moisture)
      (temperature : Temperature) (light : LightLevel) (occurredAt : Instant)
  | soilMoistureLow (sensorId : SensorId) (plantId : PlantId) (moisture : Moisture) (threshold : ℚ) (occurredAt : Instant)
  | soilMoistureHigh (sensorId : SensorId) (plantId : PlantId) (moisture : Moisture) (threshold : ℚ) (occurredAt : Instant)
  | temperatureAnomaly (sensorId : SensorId) (plantId : PlantId) (temperature : Temperature)
      (lowThreshold highThreshold : ℚ) (occurredAt : Instant)
  | sensorOffline (sensorId : SensorId) (plantId : PlantId) (lastSeenAt : Instant) (offlineFor : Duration)
      (occurredAt : Instant)
  deriving DecidableEq

def Event.plantId : Event → PlantId
  | .telemetryReceived _ plantId .. | .soilMoistureLow _ plantId .. | .soilMoistureHigh _ plantId .. |
    .temperatureAnomaly _ plantId .. | .sensorOffline _ plantId .. => plantId

inductive Error
  | sensorReadingMismatch
  | sensorNeverSeen
  | sensorStillOnline
  | sensorAlreadyAnnouncedOffline
  deriving DecidableEq, Repr

namespace Sensor

/-- `Sensor.register`. -/
def register (id : SensorId) (plantId : PlantId) (addedAt : Instant) : Sensor := ⟨id, plantId, addedAt, none, none⟩

/-- The silence state after a reading: it only moves forward, and a reading that moves it ends the
silence. -/
def seen (s : Sensor) (recordedAt : Instant) : Sensor :=
  if s.lastSeenAt.all fun last => last ≤ recordedAt then
    { s with lastSeenAt := some recordedAt, offlineAnnouncedAt := none }
  else s

/-- The events of a reading: that it was received, and each threshold it crosses. -/
def events (s : Sensor) (r : SensorReading) : List Event :=
  [.telemetryReceived s.id s.plantId r.recordedAt r.moisture r.temperature r.light r.recordedAt] ++
    (if r.moisture.value < MOISTURE_LOW_THRESHOLD then
      [.soilMoistureLow s.id s.plantId r.moisture MOISTURE_LOW_THRESHOLD r.recordedAt] else []) ++
    (if MOISTURE_HIGH_THRESHOLD < r.moisture.value then
      [.soilMoistureHigh s.id s.plantId r.moisture MOISTURE_HIGH_THRESHOLD r.recordedAt] else []) ++
    (if r.temperature.value < TEMPERATURE_LOW_THRESHOLD ∨ TEMPERATURE_HIGH_THRESHOLD < r.temperature.value then
      [.temperatureAnomaly s.id s.plantId r.temperature TEMPERATURE_LOW_THRESHOLD TEMPERATURE_HIGH_THRESHOLD r.recordedAt]
      else [])

/-- `record`. -/
def record (s : Sensor) (r : SensorReading) : Except Error (Sensor × List Event) :=
  if r.sensorId ≠ s.id then .error .sensorReadingMismatch
  else .ok (s.seen r.recordedAt, s.events r)

/-- `mark_offline`. -/
def markOffline (s : Sensor) (now : Instant) : Except Error (Sensor × List Event) :=
  match s.lastSeenAt with
  | none => .error .sensorNeverSeen
  | some last =>
    if now - last < OFFLINE_AFTER then .error .sensorStillOnline
    else if s.offlineAnnouncedAt.isSome then .error .sensorAlreadyAnnouncedOffline
    else .ok ({ s with offlineAnnouncedAt := some now },
      [.sensorOffline s.id s.plantId last (now - last) now])

theorem record_ok {s s' : Sensor} {r : SensorReading} {es : List Event} (h : s.record r = .ok (s', es)) :
    s' = s.seen r.recordedAt ∧ es = s.events r := by
  unfold record at h
  split at h
  · cases h
  · cases h
    exact ⟨rfl, rfl⟩

/-- A silence is announced of a sensor that has been seen. -/
theorem markOffline_ok {s s' : Sensor} {now : Instant} {es : List Event} (h : s.markOffline now = .ok (s', es)) :
    ∃ last, s.lastSeenAt = some last ∧ s' = { s with offlineAnnouncedAt := some now } ∧
      es = [.sensorOffline s.id s.plantId last (now - last) now] := by
  unfold markOffline at h
  split at h
  · cases h
  · rename_i last hlast
    split at h
    · cases h
    · split at h
      · cases h
      · cases h
        exact ⟨last, hlast, rfl, rfl⟩

@[simp] theorem seen_id (s : Sensor) (recordedAt : Instant) : (s.seen recordedAt).id = s.id := by
  unfold seen
  split <;> rfl

@[simp] theorem seen_plantId (s : Sensor) (recordedAt : Instant) : (s.seen recordedAt).plantId = s.plantId := by
  unfold seen
  split <;> rfl

/-- `last_seen_at` only moves forward. -/
theorem seen_lastSeenAt (s : Sensor) (recordedAt : Instant) :
    (s.seen recordedAt).lastSeenAt = some (s.lastSeenAt.elim recordedAt (max · recordedAt)) := by
  unfold seen
  cases h : s.lastSeenAt with
  | none => rfl
  | some last =>
    by_cases hle : last ≤ recordedAt
    · simp [hle]
    · simp [hle, h, Int.max_eq_left (Int.le_of_not_le hle)]

/-- A silence is ended or left as it is. -/
theorem seen_offlineAnnouncedAt (s : Sensor) (recordedAt : Instant) :
    (s.seen recordedAt).offlineAnnouncedAt = none ∨ (s.seen recordedAt).offlineAnnouncedAt = s.offlineAnnouncedAt := by
  unfold seen
  split
  · exact .inl rfl
  · exact .inr rfl

/-- A reading newer than the last one ends the silence. -/
theorem seen_offlineAnnouncedAt_of_newer {s : Sensor} {recordedAt : Instant} (h : s.lastSeenAt.all (· < recordedAt)) :
    (s.seen recordedAt).offlineAnnouncedAt = none := by
  have hle : s.lastSeenAt.all (· ≤ recordedAt) := by
    cases hs : s.lastSeenAt with
    | none => rfl
    | some last =>
      rw [hs] at h
      simp only [Option.all_some, decide_eq_true_eq] at h ⊢
      exact Int.le_of_lt h
  unfold seen
  rw [if_pos hle]

end Sensor

/-- The last-seen instant a `SensorOffline` raised at `t` announces. -/
def Event.announces (t : Instant) : Event → Option Instant
  | .sensorOffline _ _ lastSeenAt _ occurredAt => if occurredAt = t then some lastSeenAt else none
  | _ => none

/-- A reading announces no silence. -/
theorem announces_events (s : Sensor) (r : SensorReading) (t : Instant) :
    (s.events r).filterMap (Event.announces t) = [] := by
  unfold Sensor.events
  simp only [List.filterMap_append, List.append_eq_nil_iff]
  refine ⟨⟨⟨rfl, ?_⟩, ?_⟩, ?_⟩
  · split <;> rfl
  · split <;> rfl
  · split <;> rfl

end Plantkeeper.Telemetry
