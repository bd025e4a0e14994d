/-
`care_schedules` against the `CareSchedule` aggregate. The projection follows the cadence, the next
watering and the last watering of a schedule through every operation. It never moves the version of a
row it has created, while every change of the schedule does: the version that is served is the
schedule's exactly as long as nothing but due waterings was reported.
-/
import Plantkeeper.Lib.Run
import Plantkeeper.ReadModel.Tables

namespace Plantkeeper.ReadModel

/-! ## Runs of the aggregate -/

/-- The operations on a schedule, each with the version it has. -/
inductive CareOperation
  | completeWatering (now : Instant)
  | reschedule (nextWateringAt now : Instant) (reason : Option String)
  | skip (now : Instant)
  | markDue (now : Instant)
  | markMissed (now : Instant)
  deriving DecidableEq

def CareOperation.isMarkDue : CareOperation → Bool
  | .markDue _ => true
  | _ => false

def CareOperation.on (s : CareSchedule) : CareOperation → Except CareError (CareSchedule × CareEvent)
  | .completeWatering now => s.completeWatering now s.version
  | .reschedule nextWateringAt now reason => s.reschedule nextWateringAt now s.version reason
  | .skip now => s.skip now s.version
  | .markDue now => (s.markDue now).map fun e => (s, e)
  | .markMissed now => s.markMissed now s.version

/-- A schedule with the events it has recorded. -/
structure Scheduled where
  schedule : CareSchedule
  events : List CareEvent

/-- An operation that is not refused. -/
def Scheduled.step (w : Scheduled) (op : CareOperation) : Option Scheduled :=
  match op.on w.schedule with
  | .ok (s, e) => some ⟨s, w.events ++ [e]⟩
  | .error _ => none

/-- When a watering was completed. -/
def completedAt : CareEvent → Option Instant
  | .wateringCompleted _ completedAt _ _ => some completedAt
  | _ => none

/-- The event says that the plant is next watered then. -/
def Reports (p : PlantId) (next : Instant) : CareEvent → Prop
  | .wateringCompleted p' _ n _ => p' = p ∧ n = next
  | .wateringRescheduled p' _ n _ _ => p' = p ∧ n = next
  | .careSkipped p' _ n _ => p' = p ∧ n = next
  | .careMissed p' n _ => p' = p ∧ n = next
  | .careScheduleCreated .. | .wateringDue .. => False

/-- What an operation does: a due watering is a report, everything else moves the schedule and its
version. -/
theorem on_cases {s s' : CareSchedule} {op : CareOperation} {e : CareEvent} (h : op.on s = .ok (s', e)) :
    (op.isMarkDue = true ∧ s' = s ∧ ∃ due now, e = .wateringDue s.plantId due now) ∨
      (op.isMarkDue = false ∧ ∃ next, s' = { s with nextWateringAt := next, version := s.version + 1 } ∧
        Reports s.plantId next e) := by
  cases op with
  | completeWatering now =>
    obtain ⟨-, rfl, rfl⟩ := CareSchedule.change_ok h
    exact .inr ⟨rfl, _, rfl, rfl, rfl⟩
  | reschedule nextWateringAt now reason =>
    simp only [CareOperation.on, CareSchedule.reschedule, ne_eq, not_true_eq_false, ↓reduceIte] at h
    split at h
    · cases h
    · obtain ⟨-, rfl, rfl⟩ := CareSchedule.change_ok h
      exact .inr ⟨rfl, _, rfl, rfl, rfl⟩
  | skip now =>
    obtain ⟨-, rfl, rfl⟩ := CareSchedule.change_ok h
    exact .inr ⟨rfl, _, rfl, rfl, rfl⟩
  | markDue now =>
    simp only [CareOperation.on, CareSchedule.markDue] at h
    split at h
    · cases h
    · cases h
      exact .inl ⟨rfl, rfl, _, _, rfl⟩
  | markMissed now =>
    obtain ⟨-, rfl, rfl⟩ := CareSchedule.change_ok h
    exact .inr ⟨rfl, _, rfl, rfl, rfl⟩

/-! ## The row of the plant -/

theorem care_setNextWatering (t : ReadTables) (p : PlantId) (next : Instant) :
    (setNextWatering t p next).care p = (t.care p).map fun row => { row with nextWateringAt := next } := by
  simp [setNextWatering]

/-- The row takes the next watering, and a watering that is completed; its version stays. -/
theorem care_of_reports {p : PlantId} {next : Instant} {e : CareEvent} (h : Reports p next e) (t : ReadTables) :
    (projectCare t e).care p = (t.care p).map fun row =>
      { row with nextWateringAt := next, lastWateredAt := (completedAt e).or row.lastWateredAt } := by
  cases e with
  | wateringCompleted p' completedAt n now =>
    obtain ⟨rfl, rfl⟩ := h
    simp only [projectCare]
    rw [care_setNextWatering]
    simp only [Keyed.modify_self, Option.map_map]
    rfl
  | wateringRescheduled p' previous n reason now =>
    obtain ⟨rfl, rfl⟩ := h
    exact care_setNextWatering t p' n
  | careSkipped p' skippedAt n now =>
    obtain ⟨rfl, rfl⟩ := h
    exact care_setNextWatering t p' n
  | careMissed p' n now =>
    obtain ⟨rfl, rfl⟩ := h
    exact care_setNextWatering t p' n
  | careScheduleCreated => cases h
  | wateringDue => cases h

/-- The row is the schedule's, with the completed watering last reported. -/
structure Refines (row : CareRow) (w : Scheduled) : Prop where
  wateringInterval : row.wateringInterval = w.schedule.wateringInterval
  nextWateringAt : row.nextWateringAt = w.schedule.nextWateringAt
  version : row.version = w.schedule.version
  lastWateredAt : row.lastWateredAt = (w.events.filterMap completedAt).getLast?

/-- The row follows the schedule in everything but the version, which stays 1 while the schedule's counts
the changes. -/
structure FollowsSchedule (row : CareRow) (w : Scheduled) (changes : ℕ) : Prop where
  wateringInterval : row.wateringInterval = w.schedule.wateringInterval
  nextWateringAt : row.nextWateringAt = w.schedule.nextWateringAt
  lastWateredAt : row.lastWateredAt = (w.events.filterMap completedAt).getLast?
  served : row.version = 1
  version : w.schedule.version = 1 + changes

/-- The operations that change the schedule. -/
def changesIn (ops : List CareOperation) : ℕ := ops.countP fun op => !op.isMarkDue

theorem changesIn_eq_zero (ops : List CareOperation) : changesIn ops = 0 ↔ ∀ op ∈ ops, op.isMarkDue := by
  unfold changesIn
  rw [List.countP_eq_zero]
  simp

/-- A change is accepted exactly with the schedule's version. -/
theorem change_accepted (s : CareSchedule) (v : ℕ) (next : Instant) (e : CareEvent) :
    (∃ r, s.change v next e = .ok r) ↔ v = s.version := by
  unfold CareSchedule.change
  by_cases hv : v = s.version
  · simp [hv]
  · simp [hv]

theorem getLast?_completed (es : List CareEvent) (e : CareEvent) :
    ((es ++ [e]).filterMap completedAt).getLast? = (completedAt e).or (es.filterMap completedAt).getLast? := by
  rw [List.filterMap_append]
  cases h : completedAt e with
  | none => simp [h]
  | some at₁ => simp [h]

theorem follows_operation {t : ReadTables} {w w' : Scheduled} {op : CareOperation} {p : PlantId} {row : CareRow} {n : ℕ}
    (hp : w.schedule.plantId = p) (hrow : (w.events.foldl projectCare t).care p = some row) (h : FollowsSchedule row w n)
    (hstep : w.step op = some w') : w'.schedule.plantId = p ∧ ∃ row', (w'.events.foldl projectCare t).care p = some row' ∧
      FollowsSchedule row' w' (n + if op.isMarkDue then 0 else 1) := by
  unfold Scheduled.step at hstep
  split at hstep
  · rename_i s e hon
    cases hstep
    subst hp
    have hfold : (w.events ++ [e]).foldl projectCare t = projectCare (w.events.foldl projectCare t) e := by
      rw [List.foldl_append]
      rfl
    rcases on_cases hon with ⟨hdue, rfl, due, now, rfl⟩ | ⟨hchange, next, rfl, hreports⟩
    · -- a due watering is reported, and neither side moves
      refine ⟨rfl, row, ?_, ?_⟩
      · rw [hfold]
        exact hrow
      · rw [if_pos hdue]
        refine ⟨h.wateringInterval, h.nextWateringAt, ?_, h.served, h.version⟩
        rw [getLast?_completed]
        exact h.lastWateredAt
    · -- the schedule's version moves, the row's does not
      refine ⟨rfl, { row with nextWateringAt := next, lastWateredAt := (completedAt e).or row.lastWateredAt }, ?_, ?_⟩
      · rw [hfold, care_of_reports hreports, hrow]
        rfl
      · rw [hchange]
        refine ⟨h.wateringInterval, rfl, ?_, h.served, ?_⟩
        · rw [getLast?_completed, ← h.lastWateredAt]
        · simp [h.version, Nat.add_assoc]
  · cases hstep

theorem follows_operations {t : ReadTables} {p : PlantId} {ops : List CareOperation} : ∀ {w w' : Scheduled} {row : CareRow} {n : ℕ},
    w.schedule.plantId = p → (w.events.foldl projectCare t).care p = some row → FollowsSchedule row w n →
    Run.run Scheduled.step w ops = some w' →
    ∃ row', (w'.events.foldl projectCare t).care p = some row' ∧ FollowsSchedule row' w' (n + changesIn ops) := by
  induction ops with
  | nil =>
    intro w w' row n _ hrow h hrun
    cases hrun
    exact ⟨row, hrow, h⟩
  | cons op ops ih =>
    intro w w' row n hp hrow h hrun
    obtain ⟨v, hv, hrun⟩ := Run.run_cons.1 hrun
    obtain ⟨hp', row', hrow', h'⟩ := follows_operation hp hrow h hv
    obtain ⟨row'', hrow'', h''⟩ := ih hp' hrow' h' hrun
    refine ⟨row'', hrow'', ?_⟩
    have hcount : n + changesIn (op :: ops) = (n + if op.isMarkDue then 0 else 1) + changesIn ops := by
      unfold changesIn
      rw [List.countP_cons]
      cases op.isMarkDue
      · simp
        omega
      · simp
    rw [hcount]
    exact h''

/-- For every run of operations on a created schedule: the projected row has the schedule's cadence, its
next watering and its last completed watering; and it is the schedule's row, with the version that the
schedule accepts, exactly if every operation only reported a due watering. -/
theorem care_row_refines_iff {p : PlantId} {interval : WateringInterval} {startsAt now : Instant} {s : CareSchedule}
    {e : CareEvent} {ops : List CareOperation} {w : Scheduled} {t : ReadTables}
    (hcreate : CareSchedule.create p interval startsAt now = .ok (s, e))
    (hrun : Run.run Scheduled.step ⟨s, [e]⟩ ops = some w) (hnew : t.care p = none) :
    ∃ row, (w.events.foldl projectCare t).care p = some row ∧
      (row.wateringInterval = w.schedule.wateringInterval ∧ row.nextWateringAt = w.schedule.nextWateringAt ∧
        row.lastWateredAt = (w.events.filterMap completedAt).getLast?) ∧
      (Refines row w ↔ ∀ op ∈ ops, op.isMarkDue) ∧
      ((∀ now, ∃ r, w.schedule.completeWatering now row.version = .ok r) ↔ ∀ op ∈ ops, op.isMarkDue) ∧
      ((∀ now, ∃ r, w.schedule.skip now row.version = .ok r) ↔ ∀ op ∈ ops, op.isMarkDue) := by
  unfold CareSchedule.create at hcreate
  split at hcreate
  · cases hcreate
  · cases hcreate
    have hrow : ([CareEvent.careScheduleCreated p interval startsAt now].foldl projectCare t).care p =
        some ⟨interval, startsAt, none, 1⟩ := by
      simp [projectCare, care_setNextWatering, hnew, CareRow.created]
    have hstart : FollowsSchedule ⟨interval, startsAt, none, 1⟩
        ⟨⟨p, interval, startsAt, 1⟩, [.careScheduleCreated p interval startsAt now]⟩ 0 := ⟨rfl, rfl, rfl, rfl, rfl⟩
    obtain ⟨row, hrow, h⟩ := follows_operations rfl hrow hstart hrun
    have hversion : row.version = w.schedule.version ↔ ∀ op ∈ ops, op.isMarkDue := by
      rw [h.served, h.version, ← changesIn_eq_zero]
      omega
    refine ⟨row, hrow, ⟨h.wateringInterval, h.nextWateringAt, h.lastWateredAt⟩, ?_, ?_, ?_⟩
    · rw [← hversion]
      exact ⟨fun hr => hr.version, fun hv => ⟨h.wateringInterval, h.nextWateringAt, hv, h.lastWateredAt⟩⟩
    · rw [← hversion]
      exact ⟨fun hr => (change_accepted _ _ _ _).1 (hr 0), fun hv now => (change_accepted _ _ _ _).2 hv⟩
    · rw [← hversion]
      exact ⟨fun hr => (change_accepted _ _ _ _).1 (hr 0), fun hv now => (change_accepted _ _ _ _).2 hv⟩

/-- Watered every week from the epoch on, and watered once. -/
def wateredWeekly : List CareOperation := [.completeWatering 0]

/-- The schedule is at version 2; the row serves 1, with which the next watering is refused. -/
theorem served_version_refused : ∃ w row, Run.run Scheduled.step
      ⟨⟨7, .weekly, 0, 1⟩, [.careScheduleCreated 7 .weekly 0 0]⟩ wateredWeekly = some w ∧
    (w.events.foldl projectCare .empty).care 7 = some row ∧ ¬ Refines row w ∧
    w.schedule.completeWatering (days 7) row.version = .error .careScheduleVersionConflict :=
  ⟨_, _, rfl, rfl, fun h => absurd h.version (by decide), by decide⟩

/-- A watering that is due and not done leaves the row as it should be. -/
theorem care_row_refines_iff_due : ∃ w row, Run.run Scheduled.step
      ⟨⟨7, .weekly, 0, 1⟩, [.careScheduleCreated 7 .weekly 0 0]⟩ [.markDue (days 1)] = some w ∧
    (w.events.foldl projectCare .empty).care 7 = some row ∧ Refines row w := by
  have hcreate : CareSchedule.create 7 .weekly 0 0 =
      .ok (⟨7, .weekly, 0, 1⟩, .careScheduleCreated 7 .weekly 0 0) := rfl
  have hrun : Run.run Scheduled.step ⟨⟨7, .weekly, 0, 1⟩, [.careScheduleCreated 7 .weekly 0 0]⟩ [.markDue (days 1)] =
      some ⟨⟨7, .weekly, 0, 1⟩, [.careScheduleCreated 7 .weekly 0 0, .wateringDue 7 0 (days 1)]⟩ := rfl
  obtain ⟨row, hrow, -, hiff, -⟩ := care_row_refines_iff (t := .empty) hcreate hrun rfl
  exact ⟨_, row, hrun, hrow, hiff.2 (by decide)⟩

end Plantkeeper.ReadModel
