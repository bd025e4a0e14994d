/-
The telemetry ingress and the silence timer on one sensor, as interleaved transactions under READ
COMMITTED. The ingress takes one message after another; ticks of the timer run beside it. A step is
a read, an insert, a save or a commit. `sensors.get` and `sensors.list_silent` take no lock;
`sensors.save` merges the aggregate onto the row as it is then, and the columns that differ are
written with the commit.
-/
import Mathlib.Logic.Function.Basic
import Plantkeeper.Domain.Telemetry
import Plantkeeper.Lib.Columns
import Plantkeeper.Lib.Run

namespace Plantkeeper.Telemetry

/-! ## The sensors table -/

/-- The columns of `write_telemetry.sensors`. -/
inductive Column
  | id
  | plantId
  | addedAt
  | lastSeenAt
  | offlineAnnouncedAt
  deriving DecidableEq, Repr

abbrev Column.Value : Column → Type
  | .id => SensorId
  | .plantId => PlantId
  | .addedAt => Instant
  | .lastSeenAt | .offlineAnnouncedAt => Option Instant

def Sensor.column (s : Sensor) : (c : Column) → c.Value
  | .id => s.id
  | .plantId => s.plantId
  | .addedAt => s.addedAt
  | .lastSeenAt => s.lastSeenAt
  | .offlineAnnouncedAt => s.offlineAnnouncedAt

/-- `sensor_to_model` writes every column. -/
def sensors : Columns Sensor where
  Column := Column
  Value := Column.Value
  decEq
    | .id | .plantId => inferInstanceAs (DecidableEq ℕ)
    | .addedAt => inferInstanceAs (DecidableEq ℤ)
    | .lastSeenAt | .offlineAnnouncedAt => inferInstanceAs (DecidableEq (Option ℤ))
  get := Sensor.column
  make f := ⟨f .id, f .plantId, f .addedAt, f .lastSeenAt, f .offlineAnnouncedAt⟩
  get_make f c := by cases c <;> rfl
  make_get _ := rfl

/-! ## Transactions -/

/-- The statement `ingest` is at: `sensors.get`, `telemetry.add_many`, `sensors.save` after the insert,
and the commit, with the row as the save saw it. -/
inductive Ingest
  | get (message : SensorReading)
  | addMany (message : SensorReading) (read : Sensor)
  | save (message : SensorReading) (read : Sensor)
  | commit (message : SensorReading) (read : Sensor) (copy : Sensor) (events : List Event) (seen : Sensor)
  deriving DecidableEq

/-- The statement `run_once` is at for the sensor: `list_silent`, `sensors.save`, and the commit. -/
inductive Tick
  | listSilent (now : Instant)
  | save (read : Sensor) (copy : Sensor) (events : List Event)
  | commit (read : Sensor) (copy : Sensor) (events : List Event) (seen : Sensor)
  deriving DecidableEq

/-- The sensor's row, the stored readings, the outbox, the message being ingested and the ticks. -/
structure World where
  sensor : Sensor
  readings : List TelemetryReading
  outbox : List Event
  ingest : Option Ingest
  ticks : ℕ → Option Tick

/-- A sensor that was just registered. -/
def World.registered (id : SensorId) (plantId : PlantId) (addedAt : Instant) : World :=
  { sensor := Sensor.register id plantId addedAt, readings := [], outbox := [], ingest := none, ticks := fun _ => none }

/-- The row `ingest` stores, with the plant the registry names. -/
def stored (message : SensorReading) (sensor : Sensor) : TelemetryReading :=
  ⟨message.sensorId, sensor.plantId, message.recordedAt, message.moisture, message.temperature, message.light⟩

/-- The key `(sensor_id, recorded_at)` of the readings is taken. -/
def conflicts (r : TelemetryReading) (readings : List TelemetryReading) : Bool :=
  readings.any fun q => q.sensorId = r.sensorId ∧ q.recordedAt = r.recordedAt

/-- The `WHERE` of `list_silent`. -/
def silent (s : Sensor) (threshold : Instant) : Bool :=
  s.lastSeenAt.any (· ≤ threshold) && s.offlineAnnouncedAt.isNone

namespace World

def gotoIngest (w : World) (pc : Ingest) : World := { w with ingest := some pc }

def closeIngest (w : World) : World := { w with ingest := none }

def gotoTick (w : World) (i : ℕ) (pc : Tick) : World := { w with ticks := Function.update w.ticks i (some pc) }

def closeTick (w : World) (i : ℕ) : World := { w with ticks := Function.update w.ticks i none }

/-- The update of the save is flushed and the transaction committed. -/
def commit (w : World) (readings : List TelemetryReading) (copy : Sensor) (events : List Event) (seen : Sensor) : World :=
  { w with
    sensor := sensors.merge seen copy w.sensor
    readings := w.readings ++ readings
    outbox := w.outbox ++ events }

end World

/-- The next statement of `ingest`. A message of a sensor that is not registered is dropped, and a
reading that was stored already is rolled back. -/
def executeIngest (w : World) : Ingest → World
  | .get message => if message.sensorId = w.sensor.id then w.gotoIngest (.addMany message w.sensor) else w.closeIngest
  | .addMany message read =>
    if conflicts (stored message read) w.readings then w.closeIngest else w.gotoIngest (.save message read)
  | .save message read =>
    match read.record message with
    | .error _ => w.closeIngest
    | .ok (copy, events) => w.gotoIngest (.commit message read copy events w.sensor)
  | .commit message read copy events seen => w.closeIngest.commit [stored message read] copy events seen

/-- The next statement of `run_once`. -/
def executeTick (w : World) (i : ℕ) : Tick → World
  | .listSilent now =>
    if silent w.sensor (now - OFFLINE_AFTER) then
      match w.sensor.markOffline now with
      | .error _ => w.closeTick i
      | .ok (copy, events) => w.gotoTick i (.save w.sensor copy events)
    else w.closeTick i
  | .save read copy events => w.gotoTick i (.commit read copy events w.sensor)
  | .commit _ copy events seen => (w.closeTick i).commit [] copy events seen

/-- A message is received once the one before it is done; a tick begins; either executes its next
statement or is given up (an error, a crash). -/
inductive Action
  | receive (message : SensorReading)
  | ingest
  | giveUpIngest
  | tick (i : ℕ) (now : Instant)
  | executeTick (i : ℕ)
  | giveUpTick (i : ℕ)
  deriving DecidableEq

def step (w : World) : Action → Option World
  | .receive message =>
    match w.ingest with
    | none => some (w.gotoIngest (.get message))
    | some _ => none
  | .ingest => w.ingest.map (executeIngest w)
  | .giveUpIngest => some w.closeIngest
  | .tick i now =>
    match w.ticks i with
    | none => some (w.gotoTick i (.listSilent now))
    | some _ => none
  | .executeTick i => (w.ticks i).map (executeTick w i)
  | .giveUpTick i => some (w.closeTick i)

end Plantkeeper.Telemetry
