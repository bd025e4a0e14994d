/-
The writers of a care schedule as interleaved transactions under READ COMMITTED: `WaterPlant`,
`SkipWatering`, the adaptive-watering reaction and the missed-care tick. A step is one read, one row
lock, one save or one commit. A plain select takes no lock and sees the committed rows under the
transaction's own; `FOR UPDATE` and a write wait for the row's lock, which is held until the end; a
save merges the aggregate onto the row as it is read at that moment and writes nothing where they
are equal.
-/
import Mathlib.Data.Rat.Defs
import Mathlib.Logic.Function.Basic
import Plantkeeper.Care.MissedCare

namespace Plantkeeper.Concurrency

open Plantkeeper.Care Plantkeeper.Table

def WATERING_HORIZON : Duration := days 2
def MOISTURE_LOW_THRESHOLD : ℚ := 30

/-! ## Transactions -/

/-- What a transaction runs, with its argument and its clock reading. -/
inductive Task
  | waterPlant (plantId : PlantId) (expectedVersion : Option ℕ) (now : Instant)
  | skipWatering (plantId : PlantId) (expectedVersion : Option ℕ) (now : Instant)
  | telemetryReceived (plantId : PlantId) (moisture : ℚ) (now : Instant)
  | escalateOverdue (now : Instant)
  deriving DecidableEq

/-- The statement a transaction is at, with the values it has read. -/
inductive Pc
  /-- `care_schedules.get_for_update` of a command or a reaction -/
  | getForUpdate (plantId : PlantId)
  /-- `plants.get` of `WaterPlantHandler` -/
  | getPlant (s : CareSchedule)
  | savePlant (plant : Plant) (s : CareSchedule)
  /-- `care_schedules.save` of a changed schedule -/
  | save (s : CareSchedule)
  /-- `list_due_without_pending_window` -/
  | listDue
  /-- the loop of `_open_windows_for_due` -/
  | nextDue (due : List CareSchedule)
  | saveDue (plant : Plant) (s : CareSchedule) (due : List CareSchedule)
  | saveOpened (x : MissedCareWindow) (due : List CareSchedule)
  | listOverdue
  /-- the loop of `_escalate_expired` -/
  | nextExpired (expired : List MissedCareWindow)
  | saveMissed (s : CareSchedule) (x : MissedCareWindow) (expired : List MissedCareWindow)
  | saveClosed (x : MissedCareWindow) (expired : List MissedCareWindow)
  | commit
  deriving DecidableEq

/-- An open transaction: the rows it has written, in order, and the changes of a schedule it has made. -/
structure Tx where
  task : Task
  pc : Pc
  plants : List Plant
  schedules : List CareSchedule
  windows : List MissedCareWindow
  changes : List (PlantId × Instant)
  deriving DecidableEq

inductive Row
  | plant (plantId : PlantId)
  | schedule (plantId : PlantId)
  | window (plantId : PlantId)
  deriving DecidableEq

/-- The committed tables, the open transactions, the row locks with their owners, and the committed
schedule changes: which plant, and the next watering it was given. -/
structure World where
  plants : List Plant
  schedules : List CareSchedule
  windows : List MissedCareWindow
  txs : ℕ → Option Tx
  locks : List (Row × ℕ)
  log : List (PlantId × Instant)

/-- The first statement of a task. -/
def Task.start : Task → Pc
  | .waterPlant plantId _ _ | .skipWatering plantId _ _ | .telemetryReceived plantId _ _ => .getForUpdate plantId
  | .escalateOverdue _ => .listDue

def Tx.opened (task : Task) : Tx :=
  { task := task, pc := task.start, plants := [], schedules := [], windows := [], changes := [] }

/-- The tables at rest. -/
def World.atRest (plants : List Plant) (schedules : List CareSchedule) (windows : List MissedCareWindow) : World :=
  { plants := plants, schedules := schedules, windows := windows, txs := fun _ => none, locks := [], log := [] }

/-! ## Reads, locks and writes -/

namespace World

/-- The tables as the transaction sees them. -/
def plantsSeen (w : World) (tx : Tx) : List Plant := overlay Plant.id tx.plants w.plants
def schedulesSeen (w : World) (tx : Tx) : List CareSchedule := overlay CareSchedule.plantId tx.schedules w.schedules
def windowsSeen (w : World) (tx : Tx) : List MissedCareWindow := overlay MissedCareWindow.plantId tx.windows w.windows

def scheduleSeen (w : World) (tx : Tx) (plantId : PlantId) : Option CareSchedule :=
  get CareSchedule.plantId (w.schedulesSeen tx) plantId

/-- No other transaction holds the row. -/
def available (w : World) (i : ℕ) (r : Row) : Bool := w.locks.all fun l => l.1 != r || l.2 == i

def lock (w : World) (i : ℕ) (r : Row) : World := { w with locks := w.locks ++ [(r, i)] }

/-- The transaction goes on. -/
def put (w : World) (i : ℕ) (tx : Tx) : World := { w with txs := Function.update w.txs i (some tx) }

/-- The transaction is over: its locks are released. -/
def close (w : World) (i : ℕ) : World :=
  { w with txs := Function.update w.txs i none, locks := w.locks.filter fun l => l.2 != i }

/-- The transaction's rows replace the committed ones. -/
def commit (w : World) (i : ℕ) (tx : Tx) : World :=
  { w.close i with
    plants := w.plantsSeen tx
    schedules := w.schedulesSeen tx
    windows := w.windowsSeen tx
    log := w.log ++ tx.changes }

end World

/-- `save` of a row: nothing where the row is stored as it is; else its lock, and the write. `none` is
the wait for the lock. -/
def save {ρ : Type} [DecidableEq ρ] (w : World) (i : ℕ) (r : Row) (seen : Option ρ) (row : ρ) (write : Tx) (tx : Tx) :
    Option (World × Tx) :=
  if seen = some row then some (w, tx)
  else if w.available i r then some (w.lock i r, write)
  else none

def savePlant (w : World) (i : ℕ) (tx : Tx) (plant : Plant) : Option (World × Tx) :=
  save w i (.plant plant.id) (get Plant.id (w.plantsSeen tx) plant.id) plant
    { tx with plants := tx.plants ++ [plant] } tx

def saveSchedule (w : World) (i : ℕ) (tx : Tx) (s : CareSchedule) : Option (World × Tx) :=
  save w i (.schedule s.plantId) (w.scheduleSeen tx s.plantId) s { tx with schedules := tx.schedules ++ [s] } tx

def saveWindow (w : World) (i : ℕ) (tx : Tx) (x : MissedCareWindow) : Option (World × Tx) :=
  save w i (.window x.plantId) (get MissedCareWindow.plantId (w.windowsSeen tx) x.plantId) x
    { tx with windows := tx.windows ++ [x] } tx

/-! ## One statement -/

/-- What a command or a reaction does with the schedule it has locked; `none` is a refused command. -/
def withSchedule : Task → CareSchedule → Option Pc
  | .waterPlant _ _ _, s => some (.getPlant s)
  | .skipWatering _ expectedVersion now, s =>
    match s.skip now (expectedVersion.getD s.version) with
    | .error _ => none
    | .ok (s', _) => some (.save s')
  | .telemetryReceived _ moisture now, s =>
    if moisture ≥ MOISTURE_LOW_THRESHOLD then some .commit
    else if s.nextWateringAt - now ≤ WATERING_HORIZON then some .commit
    else
      match s.reschedule now now s.version (some "telemetry: soil moisture below threshold") with
      | .error _ => none
      | .ok (s', _) => some (.save s')
  | .escalateOverdue _, _ => none

/-- A missing schedule: a command is refused, the reaction has nothing to adapt. -/
def withoutSchedule : Task → Option Pc
  | .telemetryReceived _ _ _ => some .commit
  | _ => none

/-- `plant.water` and `complete_watering`. -/
def watered : Task → Plant → CareSchedule → Option (Plant × CareSchedule)
  | .waterPlant _ expectedVersion now, plant, s =>
    match plant.water now, s.completeWatering now (expectedVersion.getD s.version) with
    | .ok plant', .ok (s', _) => some (plant', s')
    | _, _ => none
  | _, _, _ => none

def Task.now : Task → Instant
  | .waterPlant _ _ now | .skipWatering _ _ now | .telemetryReceived _ _ now | .escalateOverdue now => now

/-- The transaction goes on at the statement, or is rolled back. -/
def goto (w : World) (i : ℕ) (tx : Tx) : Option Pc → World
  | some pc => w.put i { tx with pc := pc }
  | none => w.close i

/-- The statement after a save, unless the save has to wait. -/
def saved (i : ℕ) (pc : Pc) : Option (World × Tx) → Option World
  | some (w, tx) => some (goto w i tx (some pc))
  | none => none

/-- A change of a schedule was saved. -/
def changed (s : CareSchedule) : Option (World × Tx) → Option (World × Tx)
  | some (w, tx) => some (w, { tx with changes := tx.changes ++ [(s.plantId, s.nextWateringAt)] })
  | none => none

def execute (w : World) (i : ℕ) (tx : Tx) : Option World :=
  match tx.pc with
  | .getForUpdate plantId =>
    match w.scheduleSeen tx plantId with
    | none => some (goto w i tx (withoutSchedule tx.task))
    | some s =>
      if w.available i (.schedule plantId) then
        some (goto (w.lock i (.schedule plantId)) i tx (withSchedule tx.task s))
      else none
  | .getPlant s =>
    match get Plant.id (w.plantsSeen tx) s.plantId with
    | none => some (w.close i)
    | some plant => some (goto w i tx ((watered tx.task plant s).map fun r => .savePlant r.1 r.2))
  | .savePlant plant s => saved i (.save s) (savePlant w i tx plant)
  | .save s => saved i .commit (changed s (saveSchedule w i tx s))
  | .listDue =>
    some (goto w i tx (some (.nextDue (listDueWithoutPendingWindow (w.plantsSeen tx) (w.schedulesSeen tx)
      (w.windowsSeen tx) tx.task.now TICK_BATCH_SIZE))))
  | .nextDue [] => some (goto w i tx (some .listOverdue))
  | .nextDue (s :: due) =>
    match get Plant.id (w.plantsSeen tx) s.plantId with
    | none => some (goto w i tx (some (.nextDue due)))
    | some plant =>
      match s.markDue tx.task.now with
      | .error _ => some (w.close i)
      | .ok _ => some (goto w i tx (some (.saveDue plant s due)))
  | .saveDue plant s due =>
    saved i (.saveOpened (.opened plant s.nextWateringAt tx.task.now) due) (saveSchedule w i tx s)
  | .saveOpened x due => saved i (.nextDue due) (saveWindow w i tx x)
  | .listOverdue =>
    some (goto w i tx (some (.nextExpired (Care.listOverdue (w.windowsSeen tx) tx.task.now TICK_BATCH_SIZE))))
  | .nextExpired [] => some (goto w i tx (some .commit))
  | .nextExpired (x :: expired) =>
    match w.scheduleSeen tx x.plantId with
    | none => some (goto w i tx (some (.nextExpired expired)))
    | some s =>
      if w.available i (.schedule x.plantId) then
        match s.markMissed tx.task.now s.version with
        | .error _ => some (w.close i)
        | .ok (s', _) => some (goto (w.lock i (.schedule x.plantId)) i tx (some (.saveMissed s' x expired)))
      else none
  | .saveMissed s x expired =>
    saved i (.saveClosed { x with state := .missed, updatedAt := tx.task.now } expired)
      (changed s (saveSchedule w i tx s))
  | .saveClosed x expired => saved i (.nextExpired expired) (saveWindow w i tx x)
  | .commit => some (w.commit i tx)

/-- A transaction begins, executes its next statement, or is given up (an error of the database, a
deadlock, a crash). -/
inductive Action
  | start (i : ℕ) (task : Task)
  | execute (i : ℕ)
  | giveUp (i : ℕ)
  deriving DecidableEq

def step (w : World) : Action → Option World
  | .start i task =>
    match w.txs i with
    | none => some (w.put i (.opened task))
    | some _ => none
  | .execute i =>
    match w.txs i with
    | none => none
    | some tx => execute w i tx
  | .giveUp i => some (w.close i)

end Plantkeeper.Concurrency
