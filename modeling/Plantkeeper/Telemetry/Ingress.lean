/-
The telemetry ingress over all sensors: raw messages in, stored readings and events out. Every delivery,
redelivery and retry is an attempt of its own; attempts interleave statement by statement under READ
COMMITTED and may be given up (an error, a crash) before any of them. A crash after a commit is the
delivery of the message once more. The outbox holds the events of this context in the order they were
appended.
-/
import Plantkeeper.Telemetry.Transactions

namespace Plantkeeper.Telemetry.Ingress

variable {Payload V : Type}

/-! ## Validation -/

/-- `json.loads` of the decoded message and what Pydantic makes of the values in it: `none` is a
`ValueError` of the first and a validation error of the others. -/
structure Json (Payload V : Type) where
  loads : Payload → Option V
  /-- `isinstance(raw, dict)`, with its items. -/
  dict : V → Option (List (String × V))
  uuid : V → Option SensorId
  awareDatetime : V → Option Instant
  /-- A finite float: an event with another has no `JSONB` payload, and no attempt on it commits. -/
  float : V → Option ℚ

variable (json : Json Payload V)

/-- `ScalarValue._accept_bare_scalar` and `extra="forbid"`: the scalar itself or under its field. -/
def acceptBareScalar (raw : V) : Option V :=
  match json.dict raw with
  | none => some raw
  | some items => if items.all fun item => item.1 = "value" then items.lookup "value" else none

def scalar {α : Type} (of : ℚ → Option α) (raw : V) : Option α :=
  ((acceptBareScalar json raw).bind json.float).bind of

/-- `RawReading.model_validate`. -/
def RawReading.modelValidate (document : List (String × V)) : Option SensorReading :=
  if document.all fun item => item.1 ∈ ["sensor_id", "recorded_at", "moisture", "temperature", "light"] then do
    let sensorId ← (document.lookup "sensor_id").bind json.uuid
    let recordedAt ← (document.lookup "recorded_at").bind json.awareDatetime
    let moisture ← (document.lookup "moisture").bind (scalar json Moisture.of)
    let temperature ← (document.lookup "temperature").bind (scalar json Temperature.of)
    let light ← (document.lookup "light").bind (scalar json LightLevel.of)
    return ⟨sensorId, recordedAt, moisture, temperature, light⟩
  else none

def parseRawReading (payload : Payload) : Option SensorReading :=
  ((json.loads payload).bind json.dict).bind (RawReading.modelValidate json)

/-! ## Transactions -/

/-- The statement `ingest` is at: `sensors.get`, `telemetry.add_many`, and after the insert `sensors.save`
and the commit, with the row as the save saw it. -/
inductive Attempt
  | get (reading : SensorReading)
  | addMany (reading : SensorReading) (sensor : Sensor)
  | save (reading : SensorReading) (sensor copy : Sensor) (events : List Event)
  | commit (reading : SensorReading) (sensor copy : Sensor) (events : List Event) (seen : Sensor)
  deriving DecidableEq

/-- The registry, the stored readings, the outbox, the open attempts and the keys they inserted. Two fields
say what happened: the messages that were delivered, and the readings that were ingested, by an attempt
that committed or that found its reading stored. -/
structure World (Payload : Type) where
  sensors : SensorId → Option Sensor
  readings : List TelemetryReading
  outbox : List Event
  attempts : ℕ → Option Attempt
  inserted : List (ℕ × ReadingKey)
  delivered : List Payload
  ingested : List SensorReading

def World.empty : World Payload := ⟨fun _ => none, [], [], fun _ => none, [], [], []⟩

namespace World

variable (w : World Payload)

def goto (i : ℕ) (pc : Attempt) : World Payload := { w with attempts := Function.update w.attempts i (some pc) }

/-- The attempt is over and what it inserted without committing is undone. -/
def close (i : ℕ) : World Payload :=
  { w with attempts := Function.update w.attempts i none, inserted := w.inserted.filter fun e => e.1 ≠ i }

def insert (i : ℕ) (key : ReadingKey) : World Payload := { w with inserted := w.inserted ++ [(i, key)] }

def ingest (reading : SensorReading) : World Payload := { w with ingested := w.ingested ++ [reading] }

/-- The update of the save is flushed over the row as it is now, and the transaction committed. -/
def commit (reading : TelemetryReading) (events : List Event) (copy seen row : Sensor) : World Payload :=
  { w with
    sensors := Function.update w.sensors row.id (some (Telemetry.sensors.merge seen copy row))
    readings := w.readings ++ [reading]
    outbox := w.outbox ++ events }

/-- The next statement of the attempt. A message of an unregistered sensor is dropped and a reading that is
stored is left as it is; `ON CONFLICT` waits for an open transaction that inserted the same key. No sensor
is ever unregistered, so a save finds its row. -/
def execute (i : ℕ) : Attempt → Option (World Payload)
  | .get reading =>
    match w.sensors reading.sensorId with
    | none => some (w.close i)
    | some sensor => some (w.goto i (.addMany reading sensor))
  | .addMany reading sensor =>
    if conflicts (stored reading sensor) w.readings then some ((w.close i).ingest reading)
    else if w.inserted.any fun e => e.2 = reading.key then none
    else
      match sensor.record reading with
      | .error _ => some (w.close i)
      | .ok (copy, events) => some ((w.insert i reading.key).goto i (.save reading sensor copy events))
  | .save reading sensor copy events =>
    (w.sensors copy.id).map fun seen => w.goto i (.commit reading sensor copy events seen)
  | .commit reading sensor copy events seen =>
    (w.sensors copy.id).map fun row =>
      ((w.close i).commit (stored reading sensor) events copy seen row).ingest reading

/-- The silence timer commits: it sets the silence of the sensor, whatever it had read of it, and appends its
announcement. -/
def silence (row : Sensor) (lastSeenAt offlineAnnouncedAt : Option Instant) (last now : Instant) : World Payload :=
  { w with
    sensors := Function.update w.sensors row.id (some { row with lastSeenAt, offlineAnnouncedAt })
    outbox := w.outbox ++ [.sensorOffline row.id row.plantId last (now - last) now] }

end World

/-- A message is delivered, again or for the first time; an attempt executes its next statement or is given
up; a sensor is registered; the silence timer commits. -/
inductive Action (Payload : Type)
  | deliver (i : ℕ) (payload : Payload)
  | execute (i : ℕ)
  | giveUp (i : ℕ)
  | register (id : SensorId) (plantId : PlantId) (addedAt : Instant)
  | silence (id : SensorId) (lastSeenAt offlineAnnouncedAt : Option Instant) (last now : Instant)

def step (json : Json Payload V) (w : World Payload) : Action Payload → Option (World Payload)
  | .deliver i payload =>
    match w.attempts i, parseRawReading json payload with
    | some _, _ => none
    | none, none => some { w with delivered := w.delivered ++ [payload] }
    | none, some reading => some ({ w with delivered := w.delivered ++ [payload] }.goto i (.get reading))
  | .execute i => (w.attempts i).bind (w.execute i)
  | .giveUp i => some (w.close i)
  | .register id plantId addedAt =>
    match w.sensors id with
    | none => some { w with sensors := Function.update w.sensors id (some (Sensor.register id plantId addedAt)) }
    | some _ => none
  | .silence id lastSeenAt offlineAnnouncedAt last now =>
    (w.sensors id).map fun row => w.silence row lastSeenAt offlineAnnouncedAt last now

end Plantkeeper.Telemetry.Ingress
