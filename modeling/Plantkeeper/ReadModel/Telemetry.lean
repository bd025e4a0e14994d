/-
The telemetry read side: `telemetry_rollups` and `sensor_latest` by their keys, the statements of
`TelemetryRollupProjection` and its handlers. An event's instant is written with an offset of its own;
the tables compare instants.
-/
import Mathlib.Data.Rat.Floor
import Plantkeeper.Domain.Telemetry
import Plantkeeper.Lib.Keyed

namespace Plantkeeper.ReadModel

open Plantkeeper.Telemetry

/-! ## Windows -/

/-- A timezone-aware `datetime`: its wall clock, in microseconds from the wall clock's 1970-01-01, and
its offset from UTC. -/
structure AwareDatetime where
  wall : ℤ
  offset : Duration
  deriving DecidableEq

namespace AwareDatetime

def instant (d : AwareDatetime) : Instant := d.wall - d.offset

/-- The instant as written in UTC. -/
def utc (t : Instant) : AwareDatetime := ⟨t, 0⟩

/-- `astimezone(UTC)`. -/
def astimezoneUtc (d : AwareDatetime) : AwareDatetime := utc d.instant

/-- `replace(minute=0, second=0, microsecond=0)`. -/
def onTheHour (d : AwareDatetime) : AwareDatetime := { d with wall := d.wall - d.wall % hours 1 }

end AwareDatetime

/-- `window_start`. -/
def windowStart (recordedAt : AwareDatetime) : AwareDatetime := recordedAt.astimezoneUtc.onTheHour

/-! ## The tables -/

/-- The fields of a `TelemetryReceived` that the projection reads. -/
structure TelemetryReceived where
  sensorId : SensorId
  plantId : PlantId
  recordedAt : AwareDatetime
  moisture : Moisture
  temperature : Temperature
  light : LightLevel
  deriving DecidableEq

/-- A row of `telemetry_rollups`, under its sensor and the start of its window. -/
structure TelemetryRollup where
  plantId : PlantId
  moistureMin : ℚ
  moistureMax : ℚ
  moistureAvg : ℚ
  temperatureMin : ℚ
  temperatureMax : ℚ
  temperatureAvg : ℚ
  sampleCount : ℕ
  deriving DecidableEq

inductive AlertType
  | soilMoistureLow
  | soilMoistureHigh
  | temperatureAnomaly
  deriving DecidableEq, Repr

/-- A row of `sensor_latest`, under its sensor. -/
structure SensorLatest where
  plantId : PlantId
  recordedAt : Instant
  moisture : ℚ
  temperature : ℚ
  light : ℚ
  offlineAt : Option Instant
  lastAlertAt : Option Instant
  lastAlertType : Option AlertType
  deriving DecidableEq

structure ReadTelemetry where
  rollups : SensorId × Instant → Option TelemetryRollup
  latest : SensorId → Option SensorLatest

def ReadTelemetry.empty : ReadTelemetry := ⟨fun _ => none, fun _ => none⟩

/-! ## The statements -/

/-- The row of one sample that `UPSERT_ROLLUP` inserts. -/
def TelemetryRollup.ofSample (plantId : PlantId) (moisture temperature : ℚ) : TelemetryRollup :=
  ⟨plantId, moisture, moisture, moisture, temperature, temperature, temperature, 1⟩

/-- The conflict clause of `UPSERT_ROLLUP`. -/
def TelemetryRollup.fold (row excluded : TelemetryRollup) : TelemetryRollup :=
  { plantId := excluded.plantId
    moistureMin := min row.moistureMin excluded.moistureMin
    moistureMax := max row.moistureMax excluded.moistureMax
    moistureAvg := (row.moistureAvg * row.sampleCount + excluded.moistureAvg) / (row.sampleCount + 1)
    temperatureMin := min row.temperatureMin excluded.temperatureMin
    temperatureMax := max row.temperatureMax excluded.temperatureMax
    temperatureAvg := (row.temperatureAvg * row.sampleCount + excluded.temperatureAvg) / (row.sampleCount + 1)
    sampleCount := row.sampleCount + 1 }

/-- The key of the window an event falls in. -/
def TelemetryReceived.window (e : TelemetryReceived) : SensorId × Instant := (e.sensorId, (windowStart e.recordedAt).instant)

def TelemetryReceived.sample (e : TelemetryReceived) : TelemetryRollup := .ofSample e.plantId e.moisture.value e.temperature.value

/-- `UPSERT_ROLLUP` on the row of the window. -/
def foldRollup (row : Option TelemetryRollup) (e : TelemetryReceived) : TelemetryRollup :=
  match row with
  | none => e.sample
  | some row => row.fold e.sample

/-- `UPSERT_LATEST` on the row of the sensor: the row moves for a strictly newer reading only. The columns
of the last alert are not in the statement. -/
def moveLatest (row : Option SensorLatest) (e : TelemetryReceived) : SensorLatest :=
  match row with
  | none => ⟨e.plantId, e.recordedAt.instant, e.moisture.value, e.temperature.value, e.light.value, none, none, none⟩
  | some row =>
    if row.recordedAt < e.recordedAt.instant then
      { row with
        plantId := e.plantId
        recordedAt := e.recordedAt.instant
        moisture := e.moisture.value
        temperature := e.temperature.value
        light := e.light.value
        offlineAt := none }
    else row

/-- `ANNOUNCE_OFFLINE` on the row of the sensor. -/
def announceOffline (offlineAt : Instant) (row : SensorLatest) : SensorLatest := { row with offlineAt := some offlineAt }

/-- `RECORD_ALERT` on the row of the sensor. -/
def recordAlert (alertAt : Instant) (alertType : AlertType) (row : SensorLatest) : SensorLatest :=
  if row.lastAlertAt.all fun last => last ≤ alertAt then { row with lastAlertAt := some alertAt, lastAlertType := some alertType }
  else row

/-! ## The handlers -/

/-- `on_telemetry_received`. -/
def onTelemetryReceived (t : ReadTelemetry) (e : TelemetryReceived) : ReadTelemetry :=
  { rollups := Keyed.upsert e.window (fun row => foldRollup row e) t.rollups
    latest := Keyed.upsert e.sensorId (fun row => moveLatest row e) t.latest }

/-- `on_sensor_offline`. -/
def onSensorOffline (t : ReadTelemetry) (sensorId : SensorId) (occurredAt : Instant) : ReadTelemetry :=
  { t with latest := Keyed.modify sensorId (announceOffline occurredAt) t.latest }

/-- `on_alert`. -/
def onAlert (t : ReadTelemetry) (sensorId : SensorId) (alertType : AlertType) (occurredAt : Instant) : ReadTelemetry :=
  { t with latest := Keyed.modify sensorId (recordAlert occurredAt alertType) t.latest }

/-- The projection's dispatch. -/
def projectTelemetry (t : ReadTelemetry) : Event → ReadTelemetry
  | .telemetryReceived sensorId plantId recordedAt moisture temperature light _ =>
    onTelemetryReceived t ⟨sensorId, plantId, .utc recordedAt, moisture, temperature, light⟩
  | .soilMoistureLow sensorId _ _ _ occurredAt => onAlert t sensorId .soilMoistureLow occurredAt
  | .soilMoistureHigh sensorId _ _ _ occurredAt => onAlert t sensorId .soilMoistureHigh occurredAt
  | .temperatureAnomaly sensorId _ _ _ _ occurredAt => onAlert t sensorId .temperatureAnomaly occurredAt
  | .sensorOffline sensorId _ _ _ occurredAt => onSensorOffline t sensorId occurredAt

end Plantkeeper.ReadModel
