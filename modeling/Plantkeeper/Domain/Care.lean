/-
The `CareSchedule` aggregate and the events of the Care context. An operation takes the schedule it
is called on and answers with the changed schedule and the event it recorded, or with the rule it
broke; a refused operation changes nothing.
-/
import Plantkeeper.Domain.Identifiers
import Plantkeeper.Domain.Time

namespace Plantkeeper

/-- A strictly positive watering cadence. -/
structure WateringInterval where
  value : Duration
  pos : 0 < value
  deriving DecidableEq

/-- Once a week. -/
def WateringInterval.weekly : WateringInterval := ⟨days 7, by decide⟩

/-- `WateringInterval(value=…)`: the cadence, unless it is not positive. -/
def WateringInterval.ofDuration (d : Duration) : Option WateringInterval :=
  if h : 0 < d then some ⟨d, h⟩ else none

/-- The state of a `CareSchedule`, which is also its row in `write_care.care_schedules`. -/
structure CareSchedule where
  plantId : PlantId
  wateringInterval : WateringInterval
  nextWateringAt : Instant
  version : ℕ
  deriving DecidableEq

/-- The Care context's events. -/
inductive CareEvent
  | careScheduleCreated (plantId : PlantId) (wateringInterval : WateringInterval) (nextWateringAt : Instant)
      (occurredAt : Instant)
  | wateringDue (plantId : PlantId) (dueAt : Instant) (occurredAt : Instant)
  | wateringCompleted (plantId : PlantId) (completedAt nextWateringAt : Instant) (occurredAt : Instant)
  | wateringRescheduled (plantId : PlantId) (previousNextWateringAt nextWateringAt : Instant)
      (reason : Option String) (occurredAt : Instant)
  | careMissed (plantId : PlantId) (nextWateringAt : Instant) (occurredAt : Instant)
  | careSkipped (plantId : PlantId) (skippedAt nextWateringAt : Instant) (occurredAt : Instant)
  deriving DecidableEq

def CareEvent.plantId : CareEvent → PlantId
  | .careScheduleCreated plantId .. | .wateringDue plantId .. | .wateringCompleted plantId .. |
    .wateringRescheduled plantId .. | .careMissed plantId .. | .careSkipped plantId .. => plantId

/-- The rules a schedule enforces. -/
inductive CareError
  | careScheduleInvariant
  | careScheduleVersionConflict
  | wateringNotDue
  deriving DecidableEq, Repr

namespace CareSchedule

/-- `CareSchedule.create`. -/
def create (plantId : PlantId) (wateringInterval : WateringInterval) (startsAt now : Instant) :
    Except CareError (CareSchedule × CareEvent) :=
  if startsAt < now then .error .careScheduleInvariant
  else .ok (⟨plantId, wateringInterval, startsAt, 1⟩, .careScheduleCreated plantId wateringInterval startsAt now)

/-- `mark_due`: a fact is reported, the schedule stays as it is. -/
def markDue (s : CareSchedule) (now : Instant) : Except CareError CareEvent :=
  if now < s.nextWateringAt then .error .wateringNotDue
  else .ok (.wateringDue s.plantId s.nextWateringAt now)

/-- `_ensure_version` and the two assignments every change makes. -/
def change (s : CareSchedule) (expectedVersion : ℕ) (next : Instant) (event : CareEvent) :
    Except CareError (CareSchedule × CareEvent) :=
  if expectedVersion ≠ s.version then .error .careScheduleVersionConflict
  else .ok ({ s with nextWateringAt := next, version := s.version + 1 }, event)

/-- `complete_watering`. -/
def completeWatering (s : CareSchedule) (now : Instant) (expectedVersion : ℕ) :
    Except CareError (CareSchedule × CareEvent) :=
  let next := now + s.wateringInterval.value
  s.change expectedVersion next (.wateringCompleted s.plantId now next now)

/-- `reschedule`. The version is checked before the instant. -/
def reschedule (s : CareSchedule) (nextWateringAt now : Instant) (expectedVersion : ℕ) (reason : Option String) :
    Except CareError (CareSchedule × CareEvent) :=
  if expectedVersion ≠ s.version then .error .careScheduleVersionConflict
  else if nextWateringAt < now then .error .careScheduleInvariant
  else s.change expectedVersion nextWateringAt
    (.wateringRescheduled s.plantId s.nextWateringAt nextWateringAt reason now)

/-- `skip`. -/
def skip (s : CareSchedule) (now : Instant) (expectedVersion : ℕ) : Except CareError (CareSchedule × CareEvent) :=
  let next := s.nextWateringAt + s.wateringInterval.value
  s.change expectedVersion next (.careSkipped s.plantId now next now)

/-- `mark_missed`. -/
def markMissed (s : CareSchedule) (now : Instant) (expectedVersion : ℕ) :
    Except CareError (CareSchedule × CareEvent) :=
  let next := s.nextWateringAt + s.wateringInterval.value
  s.change expectedVersion next (.careMissed s.plantId next now)

/-- What an accepted change does: the plant and the cadence stay, the version goes up by one. -/
theorem change_ok {s s' : CareSchedule} {v : ℕ} {next : Instant} {e e' : CareEvent}
    (h : s.change v next e = .ok (s', e')) :
    v = s.version ∧ s' = { s with nextWateringAt := next, version := s.version + 1 } ∧ e' = e := by
  unfold change at h
  split at h
  · cases h
  · rename_i hv
    cases h
    exact ⟨by simpa using hv, rfl, rfl⟩

end CareSchedule

end Plantkeeper
