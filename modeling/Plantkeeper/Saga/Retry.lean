/-
A retried onboarding. `saga_log` keeps the completed entries of steps that were compensated, and the
context in `saga_state` the flags of their commands, since a compensation's clearing is not persisted.
A retry skips those steps, and the guard of the last one passes: the saga completes over commands that
were cancelled or undone. The commands of a completed saga are live as long as no retry is prepared
after something was withdrawn and the dispatchers park none of them.
-/
import Plantkeeper.Saga.Onboard

namespace Plantkeeper.Saga

open Plantkeeper.Intents (Intent IntentKey intentKey stepCareSchedule stepNotification compensationStepOffset record
  cancelPending markExecuted park)
open Plantkeeper.Run Plantkeeper.Table

/-! ## Live commands -/

/-- The saga's create-schedule or create-notification command. -/
def Creates (sagaId : SagaId) (r : Intent) : Prop :=
  r.idempotencyKey = intentKey sagaId stepCareSchedule ∨ r.idempotencyKey = intentKey sagaId stepNotification

/-- The undo of one of them. -/
def Undoes (sagaId : SagaId) (r : Intent) : Prop :=
  r.idempotencyKey = intentKey sagaId (stepCareSchedule + compensationStepOffset) ∨
    r.idempotencyKey = intentKey sagaId (stepNotification + compensationStepOffset)

/-- A create command that was given up, or an undo. -/
def Dead (sagaId : SagaId) (r : Intent) : Prop :=
  (Creates sagaId r ∧ r.status ≠ .pending ∧ r.status ≠ .executed) ∨ Undoes sagaId r

instance (sagaId : SagaId) (r : Intent) : Decidable (Creates sagaId r) := inferInstanceAs (Decidable (_ ∨ _))
instance (sagaId : SagaId) (r : Intent) : Decidable (Undoes sagaId r) := inferInstanceAs (Decidable (_ ∨ _))
instance (sagaId : SagaId) (r : Intent) : Decidable (Dead sagaId r) := inferInstanceAs (Decidable (_ ∨ _))

/-- Both create commands are recorded and pending or executed, and no undo of either is recorded. -/
def LiveCommands (sagaId : SagaId) (rows : List Intent) : Prop :=
  (∃ r ∈ rows, r.idempotencyKey = intentKey sagaId stepCareSchedule ∧ (r.status = .pending ∨ r.status = .executed)) ∧
    (∃ r ∈ rows, r.idempotencyKey = intentKey sagaId stepNotification ∧ (r.status = .pending ∨ r.status = .executed)) ∧
    ∀ r ∈ rows, ¬ Undoes sagaId r

/-- A retry is prepared while no command is given up or undone, and the dispatchers park no create
command of this saga. -/
def NothingWithdrawn (sagaId : SagaId) (w : Engine OnboardPlantContext OnboardTables) :
    EngineAction OnboardEvent → Prop
  | .retry => ∀ r ∈ w.tables.intents, ¬ Dead sagaId r
  | .environment (.parked id _) => ∀ r ∈ w.tables.intents, r.id = id → ¬ Creates sagaId r
  | _ => True

instance (sagaId : SagaId) (w : Engine OnboardPlantContext OnboardTables) : ∀ a, Decidable (NothingWithdrawn sagaId w a)
  | .retry => inferInstanceAs (Decidable (∀ r ∈ w.tables.intents, ¬ Dead sagaId r))
  | .environment (.parked id _) => inferInstanceAs (Decidable (∀ r ∈ w.tables.intents, r.id = id → ¬ Creates sagaId r))
  | .environment (.advance _) | .environment (.catalog ..) | .environment (.executed _) => inferInstanceAs (Decidable True)
  | .environment (.recorded ..) | .resume .. | .skip | .act _ | .checkpoint _ => inferInstanceAs (Decidable True)
  | .complete | .recordFailure _ | .compensate _ | .checkpointCompensation => inferInstanceAs (Decidable True)
  | .fail | .crash => inferInstanceAs (Decidable True)

/-! ## What keeps the commands live -/

section

variable {reminderId : SagaId → ℕ → NotificationId} {sagaId : SagaId} {k : ℕ}
  {h : Handler OnboardPlantContext OnboardTables} {c : OnboardPlantContext} {t : OnboardTables} {fault : Option ℕ}

/-- A command recorded for a step of the saga is pending and no undo. -/
theorem not_dead_fresh {id stepNo : ℕ} {owner : SagaId} {command : Intents.Command} (hs : stepNo < compensationStepOffset) :
    ¬ Dead sagaId (Intent.fresh id owner stepNo command) := by
  rintro (⟨-, hp, -⟩ | h)
  · exact hp rfl
  · have hstep : stepNo = stepCareSchedule + compensationStepOffset ∨ stepNo = stepNotification + compensationStepOffset :=
      h.imp (congrArg IntentKey.stepNo) (congrArg IntentKey.stepNo)
    omega

theorem record_alive {rows rows' : List Intent} {id stepNo : ℕ} {owner : SagaId} {command : Intents.Command}
    (hd : ∀ r ∈ rows, ¬ Dead sagaId r) (hs : stepNo < compensationStepOffset)
    (hr : record rows id owner stepNo command = some rows') : ∀ r ∈ rows', ¬ Dead sagaId r := by
  rw [record_appends hr]
  intro r hmem
  rcases List.mem_append.1 hmem with hmem | hmem
  · exact hd r hmem
  · cases List.mem_singleton.1 hmem
    exact not_dead_fresh hs

theorem act_alive (hk : (onboardPlantSaga reminderId sagaId).steps[k]? = some h)
    (hd : ∀ r ∈ t.intents, ¬ Dead sagaId r) : ∀ r ∈ (h.act c t fault).2.tables.intents, ¬ Dead sagaId r := by
  rcases onboard_steps hk with ⟨-, rfl⟩ | ⟨-, rfl⟩ | ⟨-, rfl⟩ | ⟨-, rfl⟩
  · simp only [resolveSpeciesStep]
    split <;> exact hd
  · simp only [createCareScheduleStep]
    rcases recordCommand_cases with ⟨rows, hr, ha⟩ | ha <;> rw [ha]
    · exact record_alive hd (by decide) hr
    · exact hd
  · simp only [createOnboardingNotificationStep]
    rcases recordCommand_cases with ⟨rows, hr, ha⟩ | ha <;> rw [ha]
    · exact record_alive hd (by decide) hr
    · exact hd
  · simp only [publishPlantOnboardedStep]
    split
    · exact hd
    · cases fault <;> exact hd

/-- A change of the status of rows that leaves the keys alone. -/
theorem update_alive {rows : List Intent} {p : Intent → Bool} {f : Intent → Intent} (hd : ∀ r ∈ rows, ¬ Dead sagaId r)
    (hf : ∀ r ∈ rows, p r = true → (f r).idempotencyKey = r.idempotencyKey ∧
      (Creates sagaId r → (f r).status = .pending ∨ (f r).status = .executed)) :
    ∀ r ∈ update p f rows, ¬ Dead sagaId r := by
  intro r hr
  rcases mem_update hr with ⟨r₀, h0, hp, rfl⟩ | ⟨h0, -⟩
  · obtain ⟨hkey, hst⟩ := hf r₀ h0 hp
    rintro (⟨hc, hn, he⟩ | hu)
    · unfold Creates at hc
      rw [hkey] at hc
      exact (hst hc).elim hn he
    · unfold Undoes at hu
      rw [hkey] at hu
      exact hd r₀ h0 (.inr hu)
  · exact hd r h0

theorem environment_alive {w : Engine OnboardPlantContext OnboardTables} {e : OnboardEvent}
    (hd : ∀ r ∈ w.tables.intents, ¬ Dead sagaId r) (hok : NothingWithdrawn sagaId w (.environment e)) :
    ∀ r ∈ (w.tables.environment sagaId e).intents, ¬ Dead sagaId r := by
  cases e with
  | advance d => exact hd
  | catalog speciesId interval => exact hd
  | executed id => exact update_alive hd fun r _ _ => ⟨rfl, fun _ => .inr rfl⟩
  | parked id error =>
    exact update_alive hd fun r hr hp => ⟨rfl, fun hc => absurd hc (hok r hr (beq_iff_eq.1 hp))⟩
  | recorded other stepNo command =>
    by_cases ho : other = sagaId
    · simp only [OnboardTables.environment, if_pos ho]
      exact hd
    · simp only [OnboardTables.environment, if_neg ho]
      cases hr : record w.tables.intents (nextId w.tables.intents) other stepNo command with
      | none => exact hd
      | some rows =>
        rw [Option.getD_some, record_appends hr]
        intro r hmem
        rcases List.mem_append.1 hmem with hmem | hmem
        · exact hd r hmem
        · cases List.mem_singleton.1 hmem
          rintro (⟨-, hp, -⟩ | hu)
          · exact hp rfl
          · exact ho (hu.elim (congrArg IntentKey.sagaId) (congrArg IntentKey.sagaId))

/-- A compensation speaks of the same saga. -/
theorem compensate_sagaId (hk : (onboardPlantSaga reminderId sagaId).steps[k]? = some h) :
    (h.compensate c t fault).1.sagaId = c.sagaId := by
  rcases onboard_steps hk with ⟨-, rfl⟩ | ⟨-, rfl⟩ | ⟨-, rfl⟩ | ⟨-, rfl⟩
  · rfl
  · simp only [createCareScheduleStep]
    split
    · rfl
    · rcases withdrawCommand_cases with ⟨rows, -, ha⟩ | ha <;> rw [ha]
  · simp only [createOnboardingNotificationStep]
    split
    · rfl
    · rcases withdrawCommand_cases with ⟨rows, -, ha⟩ | ha <;> rw [ha]
  · rfl

end

/-! ## The invariant -/

/-- The steps that are through have written their effects, and outside a rollback nothing is dead. -/
structure Retried (reminderId : SagaId → ℕ → NotificationId) (sagaId : SagaId)
    (w : Engine OnboardPlantContext OnboardTables) : Prop where
  placed : Placed (onboardPlantSaga reminderId sagaId) w
  context : w.context.sagaId = sagaId
  stored : w.stored.context.sagaId = sagaId
  wrote : ∀ i : OnboardEffect, w.stored.completed i.step ∨ w.pc = .acted i.step → i.Wrote sagaId w.tables
  alive : w.stored.status = .running ∨ w.stored.status = .completed → ∀ r ∈ w.tables.intents, ¬ Dead sagaId r

section

variable {reminderId : SagaId → ℕ → NotificationId} {sagaId : SagaId} {w w' : Engine OnboardPlantContext OnboardTables}

theorem retried_start {plantId : PlantId} {householdId : HouseholdId} {speciesId : SpeciesId} {now : Instant}
    {catalog : SpeciesId → Option WateringInterval} {others : List Intent} :
    Retried reminderId sagaId
      (Engine.start (.fromEvent sagaId plantId householdId speciesId) (.before sagaId now catalog others)) where
  placed := placed_start _ _
  context := rfl
  stored := rfl
  wrote := by
    rintro i (h | h)
    · cases h
    · cases h
  alive := by
    intro _ r hr hd
    have hne : r.idempotencyKey.sagaId ≠ sagaId := by simpa using (List.mem_filter.1 hr).2
    rcases hd with ⟨hc, -⟩ | hu
    · exact hne (hc.elim (congrArg IntentKey.sagaId) (congrArg IntentKey.sagaId))
    · exact hne (hu.elim (congrArg IntentKey.sagaId) (congrArg IntentKey.sagaId))

/-- A step that changes neither the tables nor what is completed. -/
theorem Retried.frame (hi : Retried reminderId sagaId w) (hp : Placed (onboardPlantSaga reminderId sagaId) w')
    (ht : w'.tables = w.tables) (hk : Kept w w') (hc : w'.context = w.context ∨ w'.context = w.stored.context)
    (hpc : ∀ k, w'.pc ≠ .acted k)
    (ha : w'.stored.status = .running ∨ w'.stored.status = .completed → ∀ r ∈ w.tables.intents, ¬ Dead sagaId r) :
    Retried reminderId sagaId w' where
  placed := hp
  context := by
    rcases hc with hc | hc <;> rw [hc]
    · exact hi.context
    · exact hi.stored
  stored := by
    rw [hk.context]; exact hi.stored
  wrote := by
    rintro i (h | h)
    · rw [ht]
      exact hi.wrote i (.inl ((hk.completed _).1 h))
    · exact absurd h (hpc _)
  alive := by
    rw [ht]; exact ha

theorem retried_act {k : ℕ} {h : Handler OnboardPlantContext OnboardTables} {fault : Option ℕ}
    (hi : Retried reminderId sagaId w) (hpc : w.pc = .ready k)
    (hk : (onboardPlantSaga reminderId sagaId).steps[k]? = some h)
    (hp : Placed (onboardPlantSaga reminderId sagaId) (runAct (onboardPlantSaga reminderId sagaId) w k h fault)) :
    Retried reminderId sagaId (runAct (onboardPlantSaga reminderId sagaId) w k h fault) := by
  have hrun : w.stored.status = .running := hi.placed.running (.inl hpc)
  have hctx := onboard_context hk w.context w.tables fault
  have halive : ∀ r ∈ (h.act w.context w.tables fault).2.tables.intents, ¬ Dead sagaId r :=
    act_alive hk (hi.alive (.inl hrun))
  cases hres : (h.act w.context w.tables fault).2.ok with
  | true =>
    obtain ⟨ht, hcon, hpc', -, -, hkept⟩ :=
      runAct_ok (p := onboardPlantSaga reminderId sagaId) (k := k) hi.placed.started hres
    refine ⟨hp, ?_, ?_, ?_, fun _ => ?_⟩
    · rw [hcon]; exact hctx.1.trans hi.context
    · rw [hkept.context]; exact hi.stored
    · intro i h
      have hact := onboard_act hk hres i
      rw [ht]
      by_cases hik : i.step = k
      · exact (hact.1 hik hi.context).1
      · rcases h with h | h
        · exact (hact.2 hik).2 (hi.wrote i (.inl ((hkept.completed _).1 h)))
        · rw [hpc'] at h
          exact absurd (Pc.acted.inj h).symm hik
    · rw [ht]; exact halive
  | false =>
    have htab : (h.act w.context w.tables fault).2.tables = w.tables := by rw [onboard_raised hk hres]; rfl
    rw [runAct_raised hres] at hp ⊢
    refine ⟨hp, hctx.1.trans hi.context, hi.stored, ?_, fun _ => ?_⟩
    · rintro i (h | h)
      · show i.Wrote sagaId (if w.bound then _ else _)
        rw [htab]
        split <;> exact hi.wrote i (.inl h)
      · cases h
    · show ∀ r ∈ OnboardTables.intents (if w.bound then _ else _), _
      split <;> exact halive

/-- The unit of work of these steps holds nothing, so a commit of the run leaves the tables alone. -/
theorem tables_commitRun (w : Engine OnboardPlantContext OnboardTables) (entries : List LogEntry) :
    (w.commitRun (onboardPlantSaga reminderId sagaId) entries).tables = w.tables := by
  unfold Engine.commitRun
  split <;> rfl

/-- The step is completed, and its effect is written. -/
theorem retried_checkpoint {k : ℕ} (hi : Retried reminderId sagaId w) (hpc : w.pc = .acted k)
    (hp : Placed (onboardPlantSaga reminderId sagaId) w')
    (hw : w' = { w.commitRun (onboardPlantSaga reminderId sagaId) [⟨k, .act, .completed⟩] with
      stored := { (w.commitRun (onboardPlantSaga reminderId sagaId) [⟨k, .act, .completed⟩]).stored with
        context := w.context }
      pc := .ready (k + 1) }) :
    Retried reminderId sagaId w' := by
  subst hw
  have hrun : w.stored.status = .running := hi.placed.running (.inr hpc)
  refine ⟨hp, hi.context, hi.context, ?_, fun _ => ?_⟩
  · rintro i (h | h)
    · show i.Wrote sagaId (w.commitRun (onboardPlantSaga reminderId sagaId) [⟨k, .act, .completed⟩]).tables
      rw [tables_commitRun]
      rcases List.mem_append.1 h with h | h
      · rcases List.mem_append.1 h with h | h
        · exact hi.wrote i (.inl h)
        · cases hi.placed.started _ h
      · cases List.mem_singleton.1 h
        exact hi.wrote i (.inr hpc)
    · cases h
  · show ∀ r ∈ (w.commitRun (onboardPlantSaga reminderId sagaId) [⟨k, .act, .completed⟩]).tables.intents, _
    rw [tables_commitRun]
    exact hi.alive (.inl hrun)

/-- A compensation keeps what the completed steps wrote. -/
theorem retried_compensate {k : ℕ} {todo : List ℕ} {h : Handler OnboardPlantContext OnboardTables} {fault : Option ℕ}
    (hi : Retried reminderId sagaId w) (hpc : w.pc = .compensating (k :: todo))
    (hk : (onboardPlantSaga reminderId sagaId).steps[k]? = some h)
    (hp : Placed (onboardPlantSaga reminderId sagaId)
      (runCompensate (onboardPlantSaga reminderId sagaId) w k todo h fault)) :
    Retried reminderId sagaId (runCompensate (onboardPlantSaga reminderId sagaId) w k todo h fault) := by
  obtain ⟨ht, hcon, hpc', hst, -, hkept⟩ :=
    runCompensate_kept (p := onboardPlantSaga reminderId sagaId) k todo h fault hi.placed.started
  have hstat : w.stored.status = .compensating := hi.placed.compensating (k := k) (.inl hpc)
  refine ⟨hp, ?_, ?_, ?_, ?_⟩
  · rw [hcon, compensate_sagaId hk]; exact hi.context
  · rw [hkept.context]; exact hi.stored
  · rintro i (h | h)
    · have hw : i.Wrote sagaId w.tables := hi.wrote i (.inl ((hkept.completed _).1 h))
      rcases ht with ht | ht <;> rw [ht] <;> exact (onboard_compensate hk i).2 hw
    · rcases hpc' with hpc' | hpc' <;> rw [hpc'] at h <;> cases h
  · rw [hst, hstat]
    rintro (h | h) <;> cases h

theorem retried_step {a : EngineAction OnboardEvent} (hi : Retried reminderId sagaId w)
    (hok : NothingWithdrawn sagaId w a) (h : engineStep (onboardPlantSaga reminderId sagaId) w a = some w') :
    Retried reminderId sagaId w' := by
  have hp := placed_step hi.placed h
  have hcommit : ∀ entries, (w.commitRun (onboardPlantSaga reminderId sagaId) entries).tables = w.tables :=
    tables_commitRun w
  have hkept : ∀ entries : List LogEntry, (∀ e ∈ entries, e.action = .compensate) →
      Kept w (w.commitRun (onboardPlantSaga reminderId sagaId) entries) := fun _ he => commitRun_kept hi.placed.started he
  cases engineStep_move h with
  | forward hpc hst => exact hi.frame hp rfl (.of_eq rfl) (.inr rfl) nofun hi.alive
  | backward hpc hst => exact hi.frame hp rfl (.of_eq rfl) (.inr rfl) nofun hi.alive
  | skip hpc hc => exact hi.frame hp rfl (.of_eq rfl) (.inl rfl) nofun hi.alive
  | act hpc hk hc => exact retried_act hi hpc hk hp
  | checkpoint hpc => exact retried_checkpoint hi hpc hp rfl
  | checkpointRaised hpc => exact hi.frame hp rfl (.of_eq rfl) (.inl rfl) nofun hi.alive
  | complete hpc hk =>
    have hrun : w.stored.status = .running := hi.placed.running (.inl hpc)
    exact hi.frame hp (hcommit []) ((hkept [] (by simp)).trans ⟨rfl, fun j => Iff.rfl⟩) (.inl rfl) nofun
      fun _ => hi.alive (.inl hrun)
  | recordFailure hpc =>
    refine hi.frame hp (hcommit []) ((hkept [] (by simp)).trans ⟨rfl, fun j => Iff.rfl⟩) (.inl rfl) nofun ?_
    rintro (h | h) <;> cases h
  | compensate hpc hk => exact retried_compensate hi hpc hk hp
  | @checkpointCompensation k todo hpc =>
    exact hi.frame hp (hcommit [⟨k, .compensate, .completed⟩])
      ((hkept [⟨k, .compensate, .completed⟩] (by simp)).trans (.of_eq rfl)) (.inl rfl) nofun hi.alive
  | fail hpc =>
    refine hi.frame hp (hcommit []) ((hkept [] (by simp)).trans ⟨rfl, fun j => Iff.rfl⟩) (.inl rfl) nofun ?_
    rintro (h | h) <;> cases h
  | crash => exact hi.frame hp rfl (.of_eq rfl) (.inl rfl) nofun hi.alive
  | retry hpc hst =>
    refine hi.frame hp rfl ⟨rfl, fun j => Iff.rfl⟩ (.inl rfl) (fun k => ?_) fun _ => hok
    show w.pc ≠ .acted k
    rw [hpc]; exact nofun
  | environment e =>
    have henv := ((onboardEffects reminderId sagaId).environment e (t := w.tables) trivial).2
    exact ⟨hp, hi.context, hi.stored, fun i h => (henv i).2 (hi.wrote i h),
      fun hst => environment_alive (hi.alive hst) hok⟩

/-- What the invariant says of a saga that completed. -/
theorem Retried.live (hi : Retried reminderId sagaId w) (hc : w.stored.status = .completed) :
    LiveCommands sagaId w.tables.intents ∧ w.tables.outbox ≠ [] := by
  have hall : ∀ i : OnboardEffect, i.Wrote sagaId w.tables := by
    intro i
    refine hi.wrote i (.inl (hi.placed.all hc i.step ?_))
    cases i <;> simp [onboardPlantSaga, OnboardEffect.step]
  have halive := hi.alive (.inr hc)
  have found : ∀ n, n = stepCareSchedule ∨ n = stepNotification → HasIntent w.tables.intents (intentKey sagaId n) →
      ∃ r ∈ w.tables.intents, r.idempotencyKey = intentKey sagaId n ∧ (r.status = .pending ∨ r.status = .executed) := by
    intro n hn h
    obtain ⟨r, hr, hkey⟩ := List.mem_map.1 h
    refine ⟨r, hr, hkey, ?_⟩
    by_contra hnot
    rw [not_or] at hnot
    refine halive r hr (.inl ⟨?_, hnot⟩)
    rcases hn with rfl | rfl
    · exact .inl hkey
    · exact .inr hkey
  exact ⟨⟨found _ (.inl rfl) (hall .careScheduleIntent), found _ (.inr rfl) (hall .notificationIntent),
    fun r hr hu => halive r hr (.inr hu)⟩, hall .plantOnboarded⟩

end

/-! ## Runs -/

/-- The first step fails and there is nothing to withdraw; the retry goes through. -/
def failedEarly : List (EngineAction OnboardEvent) :=
  [.resume true [], .act (some 0), .recordFailure [], .fail, .retry, .resume false [],
    .act none, .checkpoint true, .act none, .checkpoint true, .act none, .checkpoint true, .act none, .checkpoint true,
    .complete]

/-- The commit of the last step fails; steps 3 and 2 are compensated; the retry skips both. -/
def failedLate : List (EngineAction OnboardEvent) :=
  [.resume true [], .act none, .checkpoint true, .act none, .checkpoint true, .act none, .checkpoint true,
    .act (some 0), .recordFailure [2, 1, 0],
    .compensate none, .checkpointCompensation, .compensate none, .checkpointCompensation,
    .compensate none, .checkpointCompensation, .fail,
    .retry, .resume false [], .skip, .skip, .skip, .act none, .checkpoint true, .complete]

end Plantkeeper.Saga
