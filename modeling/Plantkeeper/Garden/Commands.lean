/-
`RemovePlant`, `MovePlant` and `WaterPlant` on one plant, as interleaved transactions under READ
COMMITTED. A step is a read, a save or a commit. `plants.get` takes no lock; `plants.save` merges the
aggregate onto the row as it is then, and the columns that differ are written with the commit. Only
the care schedule of `WaterPlant` is locked, so its save goes with the plant's.
-/
import Mathlib.Logic.Function.Basic
import Plantkeeper.Domain.Care
import Plantkeeper.Domain.Garden
import Plantkeeper.Lib.Columns
import Plantkeeper.Lib.Run

namespace Plantkeeper.Garden

/-! ## The plants table -/

/-- The columns of `write_garden.plants`. -/
inductive Column
  | id
  | householdId
  | speciesId
  | name
  | location
  | addedAt
  | lastWateredAt
  | lastRepottedAt
  | removed
  deriving DecidableEq, Repr

abbrev Column.Value : Column → Type
  | .id => PlantId
  | .householdId => HouseholdId
  | .speciesId => SpeciesId
  | .name => Name
  | .location => Location
  | .addedAt => Instant
  | .lastWateredAt | .lastRepottedAt => Option Instant
  | .removed => Bool

def Plant.column (p : Plant) : (c : Column) → c.Value
  | .id => p.id
  | .householdId => p.householdId
  | .speciesId => p.speciesId
  | .name => p.name
  | .location => p.location
  | .addedAt => p.addedAt
  | .lastWateredAt => p.lastWateredAt
  | .lastRepottedAt => p.lastRepottedAt
  | .removed => p.removed

def Column.all : List Column :=
  [.id, .householdId, .speciesId, .name, .location, .addedAt, .lastWateredAt, .lastRepottedAt, .removed]

theorem Column.mem_all (c : Column) : c ∈ Column.all := by
  cases c <;> decide

instance Column.decidableForall {P : Column → Prop} [∀ c, Decidable (P c)] : Decidable (∀ c, P c) :=
  decidable_of_iff (∀ c ∈ Column.all, P c) ⟨fun h c => h c c.mem_all, fun h c _ => h c⟩

/-- `plant_to_model` writes every column. -/
def plants : Columns Plant where
  Column := Column
  Value := Column.Value
  decEq
    | .id | .householdId | .speciesId => inferInstanceAs (DecidableEq ℕ)
    | .name => inferInstanceAs (DecidableEq Name)
    | .location => inferInstanceAs (DecidableEq Location)
    | .addedAt => inferInstanceAs (DecidableEq ℤ)
    | .lastWateredAt | .lastRepottedAt => inferInstanceAs (DecidableEq (Option ℤ))
    | .removed => inferInstanceAs (DecidableEq Bool)
  get := Plant.column
  make f := ⟨f .id, f .householdId, f .speciesId, f .name, f .location, f .addedAt, f .lastWateredAt, f .lastRepottedAt,
    f .removed⟩
  get_make f c := by cases c <;> rfl
  make_get _ := rfl

instance (c : Column) : DecidableEq c.Value := plants.decEq c

/-! ## Transactions -/

/-- A command with its argument and its clock reading. -/
inductive Command
  | removePlant (now : Instant)
  | movePlant (location : Location) (now : Instant)
  | waterPlant (expectedVersion : Option ℕ) (now : Instant)
  deriving DecidableEq

inductive OutboxEvent
  | garden (e : Event)
  | care (e : CareEvent)
  deriving DecidableEq

def OutboxEvent.isPlantRemoved : OutboxEvent → Bool
  | .garden e => e.isPlantRemoved
  | .care _ => false

/-- What a command made of the plant it read: the aggregate, the events it recorded, and the schedule
of a watering. -/
structure Work where
  read : Plant
  plant : Plant
  events : List OutboxEvent
  schedule : Option CareSchedule
  deriving DecidableEq

/-- The statement a handler is at: `care_schedules.get_for_update`, `plants.get`, `plants.save`, and the
commit, with the row as the save saw it. -/
inductive Pc
  | getForUpdate
  | get (schedule : Option CareSchedule)
  | save (work : Work)
  | commit (work : Work) (seen : Plant)
  deriving DecidableEq

structure Tx where
  command : Command
  pc : Pc
  deriving DecidableEq

/-- The plant's row, the row of its schedule and who holds its lock, the outbox, and the transactions. -/
structure World where
  plant : Plant
  schedule : Option CareSchedule
  lock : Option ℕ
  outbox : List OutboxEvent
  txs : ℕ → Option Tx

def World.atRest (plant : Plant) (schedule : Option CareSchedule) : World :=
  { plant := plant, schedule := schedule, lock := none, outbox := [], txs := fun _ => none }

def Command.start : Command → Pc
  | .waterPlant .. => .getForUpdate
  | .removePlant _ | .movePlant .. => .get none

/-- What the handler does with what it read; `none` is a refused command. -/
def operate : Command → Plant → Option CareSchedule → Option Work
  | .removePlant now, plant, _ =>
    match plant.remove now with
    | .error _ => none
    | .ok (p, events) => some ⟨plant, p, events.map .garden, none⟩
  | .movePlant location now, plant, _ =>
    match plant.move location now with
    | .error _ => none
    | .ok (p, events) => some ⟨plant, p, events.map .garden, none⟩
  | .waterPlant expectedVersion now, plant, some s =>
    match plant.water now, s.completeWatering now (expectedVersion.getD s.version) with
    | .ok (p, events), .ok (s', event) => some ⟨plant, p, events.map .garden ++ [.care event], some s'⟩
    | _, _ => none
  | .waterPlant _ _, _, none => none

namespace World

def goto (w : World) (i : ℕ) (command : Command) (pc : Pc) : World :=
  { w with txs := Function.update w.txs i (some ⟨command, pc⟩) }

/-- The transaction is over and its lock released. -/
def close (w : World) (i : ℕ) : World :=
  { w with txs := Function.update w.txs i none, lock := if w.lock = some i then none else w.lock }

/-- The update of the save is flushed and the transaction committed. -/
def commit (w : World) (i : ℕ) (work : Work) (seen : Plant) : World :=
  { w.close i with
    plant := plants.merge seen work.plant w.plant
    schedule := if work.schedule.isSome then work.schedule else w.schedule
    outbox := w.outbox ++ work.events }

end World

/-- The next statement of a handler. `none` is the wait for the schedule's lock. -/
def execute (w : World) (i : ℕ) (tx : Tx) : Option World :=
  match tx.pc with
  | .getForUpdate =>
    match w.schedule, w.lock with
    | none, _ => some (w.close i)
    | some s, none => some { w.goto i tx.command (.get (some s)) with lock := some i }
    | some _, some _ => none
  | .get schedule =>
    match operate tx.command w.plant schedule with
    | none => some (w.close i)
    | some work => some (w.goto i tx.command (.save work))
  | .save work => some (w.goto i tx.command (.commit work w.plant))
  | .commit work seen => some (w.commit i work seen)

/-- A command begins, executes its next statement, or is given up (an error, a crash). -/
inductive Action
  | start (i : ℕ) (command : Command)
  | execute (i : ℕ)
  | giveUp (i : ℕ)
  deriving DecidableEq

def step (w : World) : Action → Option World
  | .start i command =>
    match w.txs i with
    | none => some (w.goto i command command.start)
    | some _ => none
  | .execute i =>
    match w.txs i with
    | none => none
    | some tx => execute w i tx
  | .giveUp i => some (w.close i)

end Plantkeeper.Garden
