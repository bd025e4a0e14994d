/-
`OnboardPlantSaga`: its context, its four steps and their compensations. Steps 2 and 3 record a
command for another context and mark it in the context before they commit; their compensations
cancel the command or record its undo, and clear the mark. The mark is set in memory also when the
commit then fails, and a compensation's clearing is never persisted.
-/
import Plantkeeper.Intents.Dispatch
import Plantkeeper.Saga.Transaction

namespace Plantkeeper.Saga

open Plantkeeper.Intents (Intent IntentKey IntentStatus Command Error intentKey stepCareSchedule stepNotification
  compensationStepOffset record cancelPending cancellable markExecuted park)
open Plantkeeper.Table

/-! ## The context and the tables -/

structure OnboardPlantContext where
  plantId : PlantId
  householdId : HouseholdId
  speciesId : SpeciesId
  sagaId : SagaId
  wateringInterval : Duration
  careScheduleCreated : Bool
  notificationId : Option NotificationId
  deriving DecidableEq

/-- `context_from_event`, with the saga id that `handle_event` fills in. -/
def OnboardPlantContext.fromEvent (sagaId : SagaId) (plantId : PlantId) (householdId : HouseholdId)
    (speciesId : SpeciesId) : OnboardPlantContext :=
  ⟨plantId, householdId, speciesId, sagaId, 0, false, none⟩

structure PlantOnboarded where
  plantId : PlantId
  householdId : HouseholdId
  speciesId : SpeciesId
  nextWateringAt : Instant
  occurredAt : Instant
  deriving DecidableEq

/-- The clock, the catalogue as the saga reads it, the recorded commands of all sagas, and the outbox
rows this saga raised. -/
structure OnboardTables where
  now : Instant
  catalog : SpeciesId → Option WateringInterval
  intents : List Intent
  outbox : List PlantOnboarded

/-- The tables before the saga: the commands are those of others. -/
def OnboardTables.before (sagaId : SagaId) (now : Instant) (catalog : SpeciesId → Option WateringInterval)
    (others : List Intent) : OnboardTables :=
  ⟨now, catalog, others.filter fun r => r.idempotencyKey.sagaId ≠ sagaId, []⟩

/-- The next value of the identity column. -/
def nextId (rows : List Intent) : ℕ := (rows.map (·.id)).foldr max 0 + 1

/-! ## The steps -/

/-- `ResolveSpeciesStep`. -/
def resolveSpeciesStep : Handler OnboardPlantContext OnboardTables where
  act c t fault :=
    match fault, t.catalog c.speciesId with
    | none, some interval => ({ c with wateringInterval := interval.value }, .returned t)
    | _, _ => (c, .raised t)
  compensate c t _ := (c, .returned t)

/-- `act` of the steps that record a command: the command is staged, the context marked, and the unit
of work committed. The first database call is the commit. -/
def recordCommand (stepNo : ℕ) (command : Command) (mark : OnboardPlantContext) (c : OnboardPlantContext)
    (t : OnboardTables) (fault : Option ℕ) : OnboardPlantContext × Outcome OnboardTables :=
  match fault, record t.intents (nextId t.intents) c.sagaId stepNo command with
  | none, some rows => (mark, .committed { t with intents := rows })
  | _, _ => (mark, .raised t)

/-- `withdraw`: cancel the recorded command, or record the command that undoes it. -/
def withdraw (rows : List Intent) (sagaId : SagaId) (stepNo : ℕ) (undo : Command) : Option (List Intent) :=
  if (cancelPending rows (intentKey sagaId stepNo)).2 then some (cancelPending rows (intentKey sagaId stepNo)).1
  else record rows (nextId rows) sagaId (stepNo + compensationStepOffset) undo

/-- `compensate` of the steps that record a command, for a marked context. -/
def withdrawCommand (stepNo : ℕ) (undo : Command) (cleared : OnboardPlantContext) (c : OnboardPlantContext)
    (t : OnboardTables) (fault : Option ℕ) : OnboardPlantContext × Outcome OnboardTables :=
  match fault, withdraw t.intents c.sagaId stepNo undo with
  | none, some rows => (cleared, .committed { t with intents := rows })
  | _, _ => (c, .raised t)

/-- `CreateCareScheduleStep`. -/
def createCareScheduleStep : Handler OnboardPlantContext OnboardTables where
  act c := recordCommand stepCareSchedule (.createCareSchedule c.plantId c.wateringInterval)
    { c with careScheduleCreated := true } c
  compensate c t fault :=
    if !c.careScheduleCreated then (c, .returned t)
    else withdrawCommand stepCareSchedule (.deleteCareSchedule c.plantId) { c with careScheduleCreated := false } c t fault

/-- `CreateOnboardingNotificationStep`; `reminderId` is the `uuid5` behind `_reminder_id`. -/
def createOnboardingNotificationStep (reminderId : SagaId → ℕ → NotificationId) :
    Handler OnboardPlantContext OnboardTables where
  act c t := recordCommand stepNotification
    (.createOnboardingNotification c.householdId c.plantId (t.now + c.wateringInterval)
      (reminderId c.sagaId stepNotification))
    { c with notificationId := some (reminderId c.sagaId stepNotification) } c t
  compensate c t fault :=
    match c.notificationId with
    | none => (c, .returned t)
    | some id => withdrawCommand stepNotification (.deleteNotification id) { c with notificationId := none } c t fault

/-- `PublishPlantOnboardedStep`. -/
def publishPlantOnboardedStep : Handler OnboardPlantContext OnboardTables where
  act c t fault :=
    if !c.careScheduleCreated then (c, .raised t)
    else match fault with
      | some _ => (c, .raised t)
      | none => (c, .committed { t with
          outbox := t.outbox ++ [⟨c.plantId, c.householdId, c.speciesId, t.now + c.wateringInterval, t.now⟩] })
  compensate c t _ := (c, .returned t)

/-! ## The saga -/

/-- What others do meanwhile: time passes, the catalogue changes, the dispatchers execute or park
commands, other sagas record theirs. -/
inductive OnboardEvent
  | advance (microseconds : ℕ)
  | catalog (speciesId : SpeciesId) (interval : Option WateringInterval)
  | executed (id : ℕ)
  | parked (id : ℕ) (error : Error)
  | recorded (sagaId : SagaId) (stepNo : ℕ) (command : Command)
  deriving DecidableEq

def OnboardTables.environment (self : SagaId) (t : OnboardTables) : OnboardEvent → OnboardTables
  | .advance d => { t with now := t.now + d }
  | .catalog speciesId interval =>
    { t with catalog := fun s => if s = speciesId then interval else t.catalog s }
  | .executed id => { t with intents := markExecuted t.intents id t.now }
  | .parked id error => { t with intents := park t.intents id error }
  | .recorded sagaId stepNo command =>
    if sagaId = self then t
    else { t with intents := (record t.intents (nextId t.intents) sagaId stepNo command).getD t.intents }

/-- `OnboardPlantSaga`. The steps track no aggregate and stage a row only to commit it, so between
their calls the unit of work holds nothing. -/
def onboardPlantSaga (reminderId : SagaId → ℕ → NotificationId) (sagaId : SagaId) :
    Process OnboardPlantContext OnboardTables OnboardEvent where
  steps := [resolveSpeciesStep, createCareScheduleStep, createOnboardingNotificationStep reminderId,
    publishPlantOnboardedStep]
  commit := id
  rollback := id
  renew := id
  environment e t := t.environment sagaId e

/-- A plant of a species that is watered weekly, before its onboarding. -/
def firstPlant : Engine OnboardPlantContext OnboardTables :=
  Engine.start (.fromEvent 1 2 3 4) (.before 1 0 (fun _ => some .weekly) [])

/-! ## What the steps do to the recorded commands -/

/-- The command is recorded, whatever became of it. -/
def HasIntent (rows : List Intent) (key : IntentKey) : Prop := key ∈ rows.map (·.idempotencyKey)

instance (rows : List Intent) (key : IntentKey) : Decidable (HasIntent rows key) :=
  inferInstanceAs (Decidable (key ∈ rows.map (·.idempotencyKey)))

section

variable {rows rows' : List Intent} {key : IntentKey} {sagaId : SagaId} {stepNo : ℕ} {command : Command}

theorem record_appends {id : ℕ} (h : record rows id sagaId stepNo command = some rows') :
    rows' = rows ++ [.fresh id sagaId stepNo command] := by
  unfold record at h
  split at h
  · cases h
  · split at h
    · cases h
    · cases h; rfl

theorem record_hasIntent {id : ℕ} (h : record rows id sagaId stepNo command = some rows') :
    HasIntent rows' key ↔ HasIntent rows key ∨ key = intentKey sagaId stepNo := by
  rw [record_appends h]
  simp [HasIntent, Intent.fresh]

/-- An update of other columns records nothing. -/
theorem update_hasIntent {p : Intent → Bool} {f : Intent → Intent}
    (hf : ∀ r, (f r).idempotencyKey = r.idempotencyKey) : HasIntent (update p f rows) key ↔ HasIntent rows key := by
  unfold HasIntent
  rw [map_update fun r _ _ => hf r]

/-- A withdrawn command stays in the table; at most its undo is added. -/
theorem withdraw_hasIntent (h : withdraw rows sagaId stepNo command = some rows')
    (hk : key ≠ intentKey sagaId (stepNo + compensationStepOffset)) : HasIntent rows' key ↔ HasIntent rows key := by
  unfold withdraw at h
  split at h
  · cases h
    exact update_hasIntent fun r => rfl
  · rw [record_hasIntent h]
    exact or_iff_left hk

/-- The others neither record nor delete a command of this saga. -/
theorem environment_hasIntent {t : OnboardTables} (e : OnboardEvent) (hk : key.sagaId = sagaId) :
    HasIntent (t.environment sagaId e).intents key ↔ HasIntent t.intents key := by
  cases e with
  | advance d => exact Iff.rfl
  | catalog speciesId interval => exact Iff.rfl
  | executed id => exact update_hasIntent fun r => rfl
  | parked id error => exact update_hasIntent fun r => rfl
  | recorded other stepNo command =>
    by_cases ho : other = sagaId
    · simp only [OnboardTables.environment, if_pos ho]
    · simp only [OnboardTables.environment, if_neg ho]
      cases hr : record t.intents (nextId t.intents) other stepNo command with
      | none => exact Iff.rfl
      | some rows =>
        rw [Option.getD_some, record_hasIntent hr]
        refine or_iff_left ?_
        rintro rfl
        exact ho hk

end

/-! ## The effects of the steps -/

/-- The two recorded commands and the announcement. -/
inductive OnboardEffect
  | careScheduleIntent
  | notificationIntent
  | plantOnboarded
  deriving DecidableEq

namespace OnboardEffect

def step : OnboardEffect → ℕ
  | .careScheduleIntent => 1
  | .notificationIntent => 2
  | .plantOnboarded => 3

def Wrote (sagaId : SagaId) (t : OnboardTables) : OnboardEffect → Prop
  | .careScheduleIntent => HasIntent t.intents (intentKey sagaId stepCareSchedule)
  | .notificationIntent => HasIntent t.intents (intentKey sagaId stepNotification)
  | .plantOnboarded => t.outbox ≠ []

/-- The flags a compensation reads; the announcement leaves no trace in the context. -/
def Marked (c : OnboardPlantContext) : OnboardEffect → Prop
  | .careScheduleIntent => c.careScheduleCreated = true
  | .notificationIntent => c.notificationId.isSome = true
  | .plantOnboarded => True

end OnboardEffect

section

variable {stepNo : ℕ} {command : Command} {c c' : OnboardPlantContext} {t : OnboardTables} {fault : Option ℕ}

/-- A step that recorded its command, or one that raised and left everything. -/
theorem recordCommand_cases : (∃ rows, record t.intents (nextId t.intents) c.sagaId stepNo command = some rows ∧
      recordCommand stepNo command c' c t fault = (c', .committed { t with intents := rows })) ∨
    recordCommand stepNo command c' c t fault = (c', .raised t) := by
  unfold recordCommand
  split
  · rename_i rows hr
    exact .inl ⟨rows, hr, rfl⟩
  · exact .inr rfl

theorem withdrawCommand_cases : (∃ rows, withdraw t.intents c.sagaId stepNo command = some rows ∧
      withdrawCommand stepNo command c' c t fault = (c', .committed { t with intents := rows })) ∨
    withdrawCommand stepNo command c' c t fault = (c, .raised t) := by
  unfold withdrawCommand
  split
  · rename_i rows hr
    exact .inl ⟨rows, hr, rfl⟩
  · exact .inr rfl

end

section

variable {reminderId : SagaId → ℕ → NotificationId} {sagaId : SagaId} {k : ℕ}
  {h : Handler OnboardPlantContext OnboardTables} {c : OnboardPlantContext} {t : OnboardTables} {fault : Option ℕ}

theorem onboard_steps (hk : (onboardPlantSaga reminderId sagaId).steps[k]? = some h) :
    (k = 0 ∧ h = resolveSpeciesStep) ∨ (k = 1 ∧ h = createCareScheduleStep) ∨
      (k = 2 ∧ h = createOnboardingNotificationStep reminderId) ∨ (k = 3 ∧ h = publishPlantOnboardedStep) := by
  simp only [onboardPlantSaga] at hk
  match k with
  | 0 => cases hk; exact .inl ⟨rfl, rfl⟩
  | 1 => cases hk; exact .inr (.inl ⟨rfl, rfl⟩)
  | 2 => cases hk; exact .inr (.inr (.inl ⟨rfl, rfl⟩))
  | 3 => cases hk; exact .inr (.inr (.inr ⟨rfl, rfl⟩))
  | k + 4 => simp at hk

/-- A command recorded under another step number is another command. -/
theorem wrote_record {rows : List Intent} {id stepNo : ℕ} {command : Command} {i : OnboardEffect}
    (hr : record t.intents id c.sagaId stepNo command = some rows)
    (hc : i = .careScheduleIntent → stepNo ≠ stepCareSchedule)
    (hn : i = .notificationIntent → stepNo ≠ stepNotification) :
    i.Wrote sagaId { t with intents := rows } ↔ i.Wrote sagaId t := by
  cases i with
  | careScheduleIntent =>
    simp only [OnboardEffect.Wrote]
    rw [record_hasIntent hr]
    exact or_iff_left fun h => hc rfl (congrArg IntentKey.stepNo h).symm
  | notificationIntent =>
    simp only [OnboardEffect.Wrote]
    rw [record_hasIntent hr]
    exact or_iff_left fun h => hn rfl (congrArg IntentKey.stepNo h).symm
  | plantOnboarded => exact Iff.rfl

/-- A withdrawn command has been recorded all the same. -/
theorem wrote_withdraw {rows : List Intent} {stepNo : ℕ} {command : Command} (i : OnboardEffect)
    (hr : withdraw t.intents c.sagaId stepNo command = some rows) :
    i.Wrote sagaId { t with intents := rows } ↔ i.Wrote sagaId t := by
  have other : ∀ n < compensationStepOffset, intentKey sagaId n ≠ intentKey c.sagaId (stepNo + compensationStepOffset) := by
    intro n hn h
    have hstep : n = stepNo + compensationStepOffset := congrArg IntentKey.stepNo h
    omega
  cases i with
  | careScheduleIntent => exact withdraw_hasIntent hr (other _ (by decide))
  | notificationIntent => exact withdraw_hasIntent hr (other _ (by decide))
  | plantOnboarded => exact Iff.rfl

theorem onboard_raised (hk : (onboardPlantSaga reminderId sagaId).steps[k]? = some h)
    (hok : (h.act c t fault).2.ok = false) : (h.act c t fault).2 = .raised t := by
  rcases onboard_steps hk with ⟨-, rfl⟩ | ⟨-, rfl⟩ | ⟨-, rfl⟩ | ⟨-, rfl⟩
  · simp only [resolveSpeciesStep] at hok ⊢
    split at hok
    · cases hok
    · rfl
  · simp only [createCareScheduleStep] at hok ⊢
    rcases recordCommand_cases with ⟨rows, -, ha⟩ | ha
    · rw [ha] at hok; cases hok
    · rw [ha]
  · simp only [createOnboardingNotificationStep] at hok ⊢
    rcases recordCommand_cases with ⟨rows, -, ha⟩ | ha
    · rw [ha] at hok; cases hok
    · rw [ha]
  · simp only [publishPlantOnboardedStep] at hok ⊢
    split at hok
    · rw [if_pos ‹_›]
    · rw [if_neg ‹_›]
      cases fault with
      | none => cases hok
      | some n => rfl

/-- An `act` that returns has written its own effect and marked it, and no other. -/
theorem onboard_act (hk : (onboardPlantSaga reminderId sagaId).steps[k]? = some h)
    (hok : (h.act c t fault).2.ok = true) (i : OnboardEffect) :
    (i.step = k → c.sagaId = sagaId → i.Wrote sagaId (h.act c t fault).2.tables ∧ i.Marked (h.act c t fault).1) ∧
      (i.step ≠ k → (i.Wrote sagaId (h.act c t fault).2.tables ↔ i.Wrote sagaId t)) := by
  rcases onboard_steps hk with ⟨rfl, rfl⟩ | ⟨rfl, rfl⟩ | ⟨rfl, rfl⟩ | ⟨rfl, rfl⟩
  · simp only [resolveSpeciesStep] at hok ⊢
    split at hok
    · refine ⟨fun h _ => ?_, fun _ => Iff.rfl⟩
      cases i <;> cases h
    · cases hok
  · simp only [createCareScheduleStep] at hok ⊢
    rcases recordCommand_cases with ⟨rows, hr, ha⟩ | ha
    · rw [ha]
      refine ⟨fun h hs => ?_, fun h => wrote_record hr (fun hi => absurd (hi ▸ rfl) h) (fun _ => by decide)⟩
      cases i with
      | careScheduleIntent => exact ⟨(record_hasIntent hr).2 (.inr (by rw [hs])), rfl⟩
      | notificationIntent => cases h
      | plantOnboarded => cases h
    · rw [ha] at hok; cases hok
  · simp only [createOnboardingNotificationStep] at hok ⊢
    rcases recordCommand_cases with ⟨rows, hr, ha⟩ | ha
    · rw [ha]
      refine ⟨fun h hs => ?_, fun h => wrote_record hr (fun _ => by decide) (fun hi => absurd (hi ▸ rfl) h)⟩
      cases i with
      | careScheduleIntent => cases h
      | notificationIntent => exact ⟨(record_hasIntent hr).2 (.inr (by rw [hs])), rfl⟩
      | plantOnboarded => cases h
    · rw [ha] at hok; cases hok
  · simp only [publishPlantOnboardedStep] at hok ⊢
    split at hok
    · cases hok
    · rw [if_neg ‹_›]
      cases fault with
      | some n => cases hok
      | none =>
        cases i with
        | careScheduleIntent => exact ⟨nofun, fun _ => Iff.rfl⟩
        | notificationIntent => exact ⟨nofun, fun _ => Iff.rfl⟩
        | plantOnboarded =>
          refine ⟨fun _ _ => ⟨?_, trivial⟩, fun h => absurd rfl h⟩
          simp [OnboardEffect.Wrote, Outcome.tables]

/-- A step marks its own effect and names the same saga. -/
theorem onboard_context (hk : (onboardPlantSaga reminderId sagaId).steps[k]? = some h) (c : OnboardPlantContext)
    (t : OnboardTables) (fault : Option ℕ) : (h.act c t fault).1.sagaId = c.sagaId ∧
      ∀ i : OnboardEffect, i.step ≠ k → (i.Marked (h.act c t fault).1 ↔ i.Marked c) := by
  rcases onboard_steps hk with ⟨rfl, rfl⟩ | ⟨rfl, rfl⟩ | ⟨rfl, rfl⟩ | ⟨rfl, rfl⟩
  · simp only [resolveSpeciesStep]
    split
    · exact ⟨rfl, fun i _ => by cases i <;> exact Iff.rfl⟩
    · exact ⟨rfl, fun i _ => Iff.rfl⟩
  · simp only [createCareScheduleStep]
    have hc : (recordCommand stepCareSchedule (.createCareSchedule c.plantId c.wateringInterval)
        { c with careScheduleCreated := true } c t fault).1 = { c with careScheduleCreated := true } := by
      rcases recordCommand_cases with ⟨rows, -, ha⟩ | ha <;> rw [ha]
    rw [hc]
    refine ⟨rfl, fun i hi => ?_⟩
    cases i with
    | careScheduleIntent => exact absurd rfl hi
    | notificationIntent => exact Iff.rfl
    | plantOnboarded => exact Iff.rfl
  · simp only [createOnboardingNotificationStep]
    have hc : (recordCommand stepNotification (.createOnboardingNotification c.householdId c.plantId
        (t.now + c.wateringInterval) (reminderId c.sagaId stepNotification))
        { c with notificationId := some (reminderId c.sagaId stepNotification) } c t fault).1 =
          { c with notificationId := some (reminderId c.sagaId stepNotification) } := by
      rcases recordCommand_cases with ⟨rows, -, ha⟩ | ha <;> rw [ha]
    rw [hc]
    refine ⟨rfl, fun i hi => ?_⟩
    cases i with
    | careScheduleIntent => exact Iff.rfl
    | notificationIntent => exact absurd rfl hi
    | plantOnboarded => exact Iff.rfl
  · simp only [publishPlantOnboardedStep]
    split
    · exact ⟨rfl, fun i _ => Iff.rfl⟩
    · cases fault with
      | some n => exact ⟨rfl, fun i _ => Iff.rfl⟩
      | none => exact ⟨rfl, fun i _ => Iff.rfl⟩

theorem onboard_compensate (hk : (onboardPlantSaga reminderId sagaId).steps[k]? = some h) (i : OnboardEffect) :
    i.Wrote sagaId (h.compensate c t fault).2.tables ↔ i.Wrote sagaId t := by
  rcases onboard_steps hk with ⟨rfl, rfl⟩ | ⟨rfl, rfl⟩ | ⟨rfl, rfl⟩ | ⟨rfl, rfl⟩
  · exact Iff.rfl
  · simp only [createCareScheduleStep]
    split
    · exact Iff.rfl
    · rcases withdrawCommand_cases with ⟨rows, hr, ha⟩ | ha <;> rw [ha]
      · exact wrote_withdraw i hr
      · exact Iff.rfl
  · simp only [createOnboardingNotificationStep]
    split
    · exact Iff.rfl
    · rcases withdrawCommand_cases with ⟨rows, hr, ha⟩ | ha <;> rw [ha]
      · exact wrote_withdraw i hr
      · exact Iff.rfl
  · exact Iff.rfl

end

/-- The effects of the onboarding saga with this id. -/
def onboardEffects (reminderId : SagaId → ℕ → NotificationId) (sagaId : SagaId) :
    Effects (onboardPlantSaga reminderId sagaId) OnboardEffect where
  step := OnboardEffect.step
  wrote t i := i.Wrote sagaId t
  marks c i := i.Marked c
  clean c _ := c.sagaId = sagaId
  quiet _ := True
  commit _ := ⟨trivial, fun _ => Iff.rfl⟩
  rollback _ _ := Iff.rfl
  renew _ := ⟨trivial, fun _ => Iff.rfl⟩
  environment := by
    intro e t _
    refine ⟨trivial, fun i => ?_⟩
    cases i with
    | careScheduleIntent => exact environment_hasIntent e rfl
    | notificationIntent => exact environment_hasIntent e rfl
    | plantOnboarded => cases e <;> simp [onboardPlantSaga, OnboardTables.environment, OnboardEffect.Wrote, apply_ite]
  act := by
    intro k h hk c t fault _ hfresh hok
    refine ⟨trivial, fun i hi => ?_, fun i => (onboard_act hk hok i).2⟩
    obtain ⟨hw, hm⟩ := (onboard_act hk hok i).1 hi (hfresh i hi).2
    exact iff_of_true hw hm
  raised := by
    intro k h hk c t fault hok i
    rw [onboard_raised hk hok]; rfl
  context := by
    intro k h hk c t fault _ i
    obtain ⟨hs, hm⟩ := onboard_context hk c t fault
    exact ⟨fun hlt => hm i (Nat.ne_of_lt hlt), fun _ hc => hs.trans hc⟩
  compensate := by
    intro k h hk c t fault _
    exact ⟨trivial, fun i => onboard_compensate hk i⟩

end Plantkeeper.Saga
