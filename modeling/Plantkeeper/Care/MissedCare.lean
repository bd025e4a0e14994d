/-
The missed-care choreography: `MissedCareSaga` with its two reactions and its tick, the queries the
tick runs, and the commands that move a schedule or remove a plant. A tick, a delivery and a command
are each one transaction here. The consumer handles every event of the outbox once, in the order in
which a plant's events were published, and as late as it likes.
-/
import Mathlib.Data.List.Sort
import Plantkeeper.Domain.Care
import Plantkeeper.Domain.Plant
import Plantkeeper.Lib.Run
import Plantkeeper.Lib.Table

namespace Plantkeeper.Care

open Plantkeeper.Table

/-! ## Tables and queries -/

def GRACE_PERIOD : Duration := hours 24
def TICK_BATCH_SIZE : ℕ := 200

inductive MissedCareState
  | pending
  | satisfied
  | missed
  deriving DecidableEq, Repr

/-- A row of `write_care.missed_care_windows`; the plant is its primary key. -/
structure MissedCareWindow where
  plantId : PlantId
  householdId : HouseholdId
  dueAt : Instant
  graceDeadline : Instant
  state : MissedCareState
  updatedAt : Instant
  deriving DecidableEq

/-- The window that opens when a plant comes due. -/
def MissedCareWindow.opened (plant : Plant) (dueAt updatedAt : Instant) : MissedCareWindow :=
  { plantId := plant.id, householdId := plant.householdId, dueAt := dueAt, graceDeadline := dueAt + GRACE_PERIOD,
    state := .pending, updatedAt := updatedAt }

/-- `ORDER BY next_watering_at, plant_id`. -/
def DueFirst (a b : CareSchedule) : Prop :=
  a.nextWateringAt < b.nextWateringAt ∨ (a.nextWateringAt = b.nextWateringAt ∧ a.plantId ≤ b.plantId)

instance : DecidableRel DueFirst := fun _ _ => inferInstanceAs (Decidable (_ ∨ _))

/-- `ORDER BY grace_deadline, plant_id`. -/
def ExpiresFirst (a b : MissedCareWindow) : Prop :=
  a.graceDeadline < b.graceDeadline ∨ (a.graceDeadline = b.graceDeadline ∧ a.plantId ≤ b.plantId)

instance : DecidableRel ExpiresFirst := fun _ _ => inferInstanceAs (Decidable (_ ∨ _))

/-- The join with the garden: the plant exists and is not removed. -/
def inGarden (plants : List Plant) (plantId : PlantId) : Bool :=
  plants.any fun p => p.id == plantId && !p.removed

/-- The anti-join: the plant is inside a grace window. -/
def pendingWindow (windows : List MissedCareWindow) (plantId : PlantId) : Bool :=
  windows.any fun x => x.plantId == plantId && x.state == .pending

/-- `list_due_without_pending_window`. -/
def listDueWithoutPendingWindow (plants : List Plant) (schedules : List CareSchedule) (windows : List MissedCareWindow)
    (until_ : Instant) (limit : ℕ) : List CareSchedule :=
  ((schedules.filter fun s => inGarden plants s.plantId && decide (s.nextWateringAt ≤ until_) &&
    !pendingWindow windows s.plantId).insertionSort DueFirst).take limit

/-- `list_overdue`. -/
def listOverdue (windows : List MissedCareWindow) (until_ : Instant) (limit : ℕ) : List MissedCareWindow :=
  ((windows.filter fun x => x.state == .pending && decide (x.graceDeadline ≤ until_)).insertionSort ExpiresFirst).take
    limit

/-! ## The world -/

/-- The tables, the clock, the published events and those the missed-care group has claimed.
`escalations` records on account of which plant and due moment a tick recorded each `CareMissed`,
and `skipped` which due moments a skip passed over and no later change has set again. -/
structure World where
  now : Instant
  plants : List Plant
  schedules : List CareSchedule
  windows : List MissedCareWindow
  outbox : List CareEvent
  processed : List ℕ
  escalations : List (PlantId × Instant)
  skipped : List (PlantId × Instant)
  deriving DecidableEq

def World.empty : World :=
  { now := 0, plants := [], schedules := [], windows := [], outbox := [], processed := [], escalations := [],
    skipped := [] }

namespace World

def schedule (w : World) (plantId : PlantId) : Option CareSchedule := get CareSchedule.plantId w.schedules plantId
def window (w : World) (plantId : PlantId) : Option MissedCareWindow := get MissedCareWindow.plantId w.windows plantId
def plant (w : World) (plantId : PlantId) : Option Plant := get Plant.id w.plants plantId

def saveSchedule (w : World) (s : CareSchedule) : World :=
  { w with schedules := put CareSchedule.plantId s w.schedules }

/-- A changed schedule. A skipped moment it is set to is due again. -/
def reschedule (w : World) (s : CareSchedule) : World :=
  { w.saveSchedule s with skipped := w.skipped.filter (· ≠ (s.plantId, s.nextWateringAt)) }

def saveWindow (w : World) (x : MissedCareWindow) : World :=
  { w with windows := put MissedCareWindow.plantId x w.windows }

def publish (w : World) (e : CareEvent) : World := { w with outbox := w.outbox ++ [e] }

end World

/-! ## The tick -/

/-- One round of `_open_windows_for_due`. -/
def openWindow (w : World) (s : CareSchedule) : Except CareError World :=
  match w.plant s.plantId with
  | none => .ok w
  | some plant =>
    match s.markDue w.now with
    | .error e => .error e
    | .ok event => .ok (((w.saveSchedule s).saveWindow (.opened plant s.nextWateringAt w.now)).publish event)

/-- One round of `_escalate_expired`. -/
def escalate (w : World) (x : MissedCareWindow) : Except CareError World :=
  match w.schedule x.plantId with
  | none => .ok w
  | some s =>
    match s.markMissed w.now s.version with
    | .error e => .error e
    | .ok (s', event) =>
      .ok { ((w.reschedule s').saveWindow { x with state := .missed, updatedAt := w.now }).publish event with
        escalations := w.escalations ++ [(x.plantId, x.dueAt)] }

/-- A loop of the tick: an error ends it, and the transaction with it. -/
def forEach {ρ : Type} (body : World → ρ → Except CareError World) : List ρ → World → Except CareError World
  | [], w => .ok w
  | r :: rest, w =>
    match body w r with
    | .error e => .error e
    | .ok w' => forEach body rest w'

/-- `escalate_overdue`: the world after the commit, and the number of missed deadlines. -/
def escalateOverdue (w : World) : Except CareError (World × ℕ) :=
  match forEach openWindow (listDueWithoutPendingWindow w.plants w.schedules w.windows w.now TICK_BATCH_SIZE) w with
  | .error e => .error e
  | .ok w₁ =>
    match forEach escalate (listOverdue w₁.windows w.now TICK_BATCH_SIZE) w₁ with
    | .error e => .error e
    | .ok w₂ => .ok (w₂, (listOverdue w₁.windows w.now TICK_BATCH_SIZE).length)

/-! ## The reactions -/

/-- `_on_watering_due`. -/
def onWateringDue (w : World) (plantId : PlantId) (dueAt : Instant) : World :=
  match w.plant plantId with
  | none => w
  | some plant =>
    if (w.window plantId).any fun x => x.state == .pending && x.dueAt == dueAt then w
    else w.saveWindow (.opened plant dueAt w.now)

/-- `_on_watering_completed`. -/
def onWateringCompleted (w : World) (plantId : PlantId) (completedAt : Instant) : World :=
  match w.window plantId with
  | none => w
  | some x =>
    if x.state ≠ .pending then w
    else if completedAt > x.graceDeadline then w
    else w.saveWindow { x with state := .satisfied, updatedAt := w.now }

/-- The plant of an event the consumer handles. -/
def handledPlant : CareEvent → Option PlantId
  | .wateringDue plantId _ _ => some plantId
  | .wateringCompleted plantId _ _ _ => some plantId
  | _ => none

/-- `MissedCareSaga.handle`. -/
def handle (w : World) : CareEvent → World
  | .wateringDue plantId dueAt _ => onWateringDue w plantId dueAt
  | .wateringCompleted plantId completedAt _ _ => onWateringCompleted w plantId completedAt
  | _ => w

/-- Every earlier event of the plant has been claimed. -/
def inOrder (w : World) (plantId : PlantId) (index : ℕ) : Bool :=
  (List.range index).all fun i => i ∈ w.processed || (w.outbox[i]?.bind handledPlant) != some plantId

/-- A delivery: another type is acknowledged, a claimed event is left alone, the plant's next one is
handled. -/
def deliver (w : World) (index : ℕ) : Option World :=
  match w.outbox[index]? with
  | none => none
  | some e =>
    match handledPlant e with
    | none => some w
    | some plantId =>
      if index ∈ w.processed then some w
      else if inOrder w plantId index then some (handle { w with processed := w.processed ++ [index] } e)
      else none

/-! ## The commands -/

/-- `WaterPlantHandler.handle`; `none` is a refused command. -/
def water (w : World) (plantId : PlantId) (expectedVersion : Option ℕ) : Option World :=
  match w.schedule plantId, w.plant plantId with
  | some s, some plant =>
    match plant.water w.now with
    | .error _ => none
    | .ok plant' =>
      match s.completeWatering w.now (expectedVersion.getD s.version) with
      | .error _ => none
      | .ok (s', event) =>
        some { (w.reschedule s').publish event with plants := put Plant.id plant' w.plants }
  | _, _ => none

/-- `SkipWateringHandler.handle`. -/
def skip (w : World) (plantId : PlantId) (expectedVersion : Option ℕ) : Option World :=
  match w.schedule plantId with
  | none => none
  | some s =>
    match s.skip w.now (expectedVersion.getD s.version) with
    | .error _ => none
    | .ok (s', event) =>
      let w' := (w.reschedule s').publish event
      some { w' with skipped := w'.skipped ++ [(plantId, s.nextWateringAt)] }

/-- `RemovePlantHandler.handle`. -/
def removePlant (w : World) (plantId : PlantId) : Option World :=
  match w.plant plantId with
  | none => none
  | some plant =>
    match plant.remove with
    | .error _ => none
    | .ok plant' => some { w with plants := put Plant.id plant' w.plants }

inductive Action
  | advance (microseconds : ℕ)
  | addPlant (plantId : PlantId) (householdId : HouseholdId)
  | createSchedule (plantId : PlantId) (wateringInterval : WateringInterval)
  | tick
  | deliver (index : ℕ)
  | water (plantId : PlantId) (expectedVersion : Option ℕ)
  | skip (plantId : PlantId) (expectedVersion : Option ℕ)
  | removePlant (plantId : PlantId)
  deriving DecidableEq

/-- A plant's first schedule: one interval from now, under a free primary key. -/
def createSchedule (w : World) (plantId : PlantId) (wateringInterval : WateringInterval) : Option World :=
  if plantId ∈ w.schedules.map (·.plantId) then none
  else
    match CareSchedule.create plantId wateringInterval (w.now + wateringInterval.value) w.now with
    | .error _ => none
    | .ok (s, event) => some ({ w with schedules := w.schedules ++ [s] }.publish event)

def step (w : World) : Action → Option World
  | .advance d => some { w with now := w.now + d }
  | .addPlant plantId householdId =>
    if plantId ∈ w.plants.map (·.id) then none else some { w with plants := w.plants ++ [.add plantId householdId] }
  | .createSchedule plantId wateringInterval => createSchedule w plantId wateringInterval
  | .tick =>
    match escalateOverdue w with
    | .error _ => none
    | .ok (w', _) => some w'
  | .deliver index => deliver w index
  | .water plantId expectedVersion => water w plantId expectedVersion
  | .skip plantId expectedVersion => skip w plantId expectedVersion
  | .removePlant plantId => removePlant w plantId

def everyTwoDays : WateringInterval := ⟨days 2, by decide⟩

/-- A plant watered every two days, from its first schedule on. -/
def keptPlant : List Action :=
  [.addPlant 1 9, .createSchedule 1 everyTwoDays]

end Plantkeeper.Care
