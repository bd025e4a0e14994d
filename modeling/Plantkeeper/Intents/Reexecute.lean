/-
Steps and compensations run again. A step commits its intent before the engine commits the checkpoint,
so a crash in between makes the recovery run it again, in a fresh unit of work and against the unique
key of `saga_intents`. A history lets the saga run `act` and `withdraw` for any step as often as it
likes, between any moves of the dispatchers, and remembers whether a run of them raised. It never did
exactly if each `act` was the first of its step and each `withdraw` found the command still pending or
its undo not yet recorded.
-/
import Plantkeeper.Intents.Final
import Plantkeeper.Intents.Withdraw

namespace Plantkeeper.Intents

open Plantkeeper.Run Plantkeeper.Table

/-! ## Histories -/

/-- The command a step's `act` records. -/
def Action.acts : Action → Option IntentKey
  | .recordCareSchedule sagaId _ => some (intentKey sagaId stepCareSchedule)
  | .recordNotification sagaId _ => some (intentKey sagaId stepNotification)
  | _ => none

/-- The id the table gives the row an `act` or a `withdraw` stages. -/
def Action.identity : Action → Option ℕ
  | .recordCareSchedule _ id | .recordNotification _ id => some id
  | .withdrawCareSchedule _ id | .withdrawNotification _ id => some id
  | _ => none

def Recorded (w : World) (k : IntentKey) : Prop := k ∈ w.intents.map (·.idempotencyKey)

instance (w : World) (k : IntentKey) : Decidable (Recorded w k) :=
  inferInstanceAs (Decidable (k ∈ w.intents.map (·.idempotencyKey)))

/-- The world, the steps whose `act` was run, and whether an `act` or a `withdraw` raised. -/
structure History where
  world : World
  acted : List IntentKey
  raised : Bool

def History.empty : History := ⟨World.empty, [], false⟩

/-- The identity column hands out new ids, and only a step that recorded its command is withdrawn. -/
def Attempted (w : World) (a : Action) : Prop :=
  (∀ id ∈ a.identity, id ∉ w.intents.map (·.id)) ∧ ∀ k ∈ a.withdraws, Recorded w k

instance (w : World) (a : Action) : Decidable (Attempted w a) :=
  inferInstanceAs (Decidable (_ ∧ _))

/-- A step of the history. A unit of work whose commit hits the unique key raises and leaves nothing. -/
def attempt (env : Env) (h : History) (a : Action) : Option History :=
  if a.identity = none then (step env h.world a).map fun w => { h with world := w }
  else if Attempted h.world a then
    match step env h.world a with
    | some w => some ⟨w, h.acted ++ a.acts.toList, h.raised⟩
    | none => some ⟨h.world, h.acted ++ a.acts.toList, true⟩
  else none

/-- Nothing raised, each step that acted has exactly one create intent, and no step two undos. -/
def Reexecuted (h : History) : Prop :=
  h.raised = false ∧
    (∀ k ∈ h.acted, (h.world.intents.map (·.idempotencyKey)).count k = 1) ∧
    ∀ k, (h.world.intents.map (·.idempotencyKey)).count (undoKey k) ≤ 1

/-- An `act` is the first of its step; a `withdraw` finds the command pending, or no undo recorded. -/
def FirstTime (h : History) (a : Action) : Prop :=
  (∀ k ∈ a.acts, ¬ Recorded h.world k) ∧
    ∀ k ∈ a.withdraws, Pending h.world.intents k ∨ ¬ Recorded h.world (undoKey k)

instance (rows : List Intent) (k : IntentKey) : Decidable (Pending rows k) :=
  inferInstanceAs (Decidable (∃ r ∈ rows, r.idempotencyKey = k ∧ r.status = .pending))

instance (h : History) (a : Action) : Decidable (FirstTime h a) :=
  inferInstanceAs (Decidable (_ ∧ _))

/-! ## One run of a step -/

theorem record_isSome {rows : List Intent} {id : ℕ} {sagaId : SagaId} {stepNo : ℕ} {command : Command}
    (hid : id ∉ rows.map (·.id)) : (record rows id sagaId stepNo command).isSome = true ↔
      intentKey sagaId stepNo ∉ rows.map (·.idempotencyKey) := by
  unfold record
  rw [if_neg hid]
  split
  · rename_i hk
    simp [hk]
  · rename_i hk
    simp [hk]

theorem cancelPending_iff {rows : List Intent} {k : IntentKey} : (cancelPending rows k).2 = true ↔ Pending rows k := by
  unfold cancelPending Pending
  rw [List.any_eq_true]
  simp [cancellable]

/-- `withdraw` succeeds by cancelling, or by recording the undo under a free key. -/
theorem withdraw_isSome {w : World} {sagaId : SagaId} {stepNo id : ℕ} {undo : Command}
    (hid : id ∉ w.intents.map (·.id)) (hrec : Recorded w (intentKey sagaId stepNo)) :
    (withdraw w sagaId stepNo id undo).isSome = true ↔
      Pending w.intents (intentKey sagaId stepNo) ∨ ¬ Recorded w (undoKey (intentKey sagaId stepNo)) := by
  have hin : ¬ intentKey sagaId stepNo ∉ w.intents.map (·.idempotencyKey) := not_not_intro hrec
  simp only [withdraw]
  rw [if_neg hin]
  by_cases hp : Pending w.intents (intentKey sagaId stepNo)
  · rw [if_pos (cancelPending_iff.2 hp)]
    simp [hp]
  · rw [if_neg (fun h => hp (cancelPending_iff.1 h)), Option.isSome_map, record_isSome hid]
    simp only [hp, false_or]
    exact Iff.rfl

/-- The saga's action is carried out exactly if it is run for the first time. -/
theorem step_isSome {env : Env} {h : History} {a : Action} (ha : a.identity ≠ none) (hat : Attempted h.world a) :
    (step env h.world a).isSome = true ↔ FirstTime h a := by
  obtain ⟨hid, hrec⟩ := hat
  cases a with
  | recordCareSchedule sagaId id =>
    simp only [step, recordCreate, Option.isSome_map]
    rw [record_isSome (hid id rfl)]
    simp [FirstTime, Action.acts, Action.withdraws, Recorded]
  | recordNotification sagaId id =>
    simp only [step, recordCreate, Option.isSome_map]
    rw [record_isSome (hid id rfl)]
    simp [FirstTime, Action.acts, Action.withdraws, Recorded]
  | withdrawCareSchedule sagaId id =>
    simp only [step]
    rw [withdraw_isSome (hid id rfl) (hrec _ rfl)]
    simp [FirstTime, Action.acts, Action.withdraws]
  | withdrawNotification sagaId id =>
    simp only [step]
    rw [withdraw_isSome (hid id rfl) (hrec _ rfl)]
    simp [FirstTime, Action.acts, Action.withdraws]
  | _ => exact absurd rfl ha

theorem firstTime_other {h : History} {a : Action} (ha : a.identity = none) : FirstTime h a := by
  cases a <;> simp_all [Action.identity, FirstTime, Action.acts, Action.withdraws]

theorem recordCreate_recorded {w w' : World} {sagaId : SagaId} {stepNo id : ℕ} {command : Command}
    (h : recordCreate w sagaId stepNo id command = some w') : Recorded w' (intentKey sagaId stepNo) := by
  obtain ⟨rows, hr, rfl⟩ := Option.map_eq_some_iff.1 h
  obtain ⟨-, -, rfl⟩ := record_some hr
  unfold Recorded
  rw [List.map_append]
  exact List.mem_append_right _ (List.mem_singleton.2 rfl)

theorem acts_recorded {env : Env} {w w' : World} {a : Action} (h : step env w a = some w') :
    ∀ k ∈ a.acts, Recorded w' k := by
  intro k hk
  cases a <;> simp only [Action.acts, Option.mem_def, Option.some.injEq, reduceCtorEq] at hk
  · subst hk; exact recordCreate_recorded h
  · subst hk; exact recordCreate_recorded h

/-- What a step of the history does: it raises exactly if it is not the first of its kind, and a step
that acted has its command recorded, by this run or an earlier one. -/
structure AttemptSpec (env : Env) (h h' : History) (a : Action) : Prop where
  raised : h'.raised = false ↔ h.raised = false ∧ FirstTime h a
  world : step env h.world a = some h'.world ∨ h'.world = h.world
  acted : h'.acted = h.acted ++ a.acts.toList
  recorded : ∀ k ∈ a.acts, Recorded h'.world k

theorem attempt_spec {env : Env} {h h' : History} {a : Action} (ht : attempt env h a = some h') :
    AttemptSpec env h h' a := by
  unfold attempt at ht
  split at ht
  · rename_i ha
    obtain ⟨w, hw, rfl⟩ := Option.map_eq_some_iff.1 ht
    have hacts : a.acts = none := by
      cases a <;> simp_all [Action.identity, Action.acts]
    refine ⟨?_, .inl hw, ?_, acts_recorded hw⟩
    · simp [firstTime_other ha]
    · simp [hacts]
  · rename_i ha
    split at ht
    · rename_i hat
      have hiff : (step env h.world a).isSome = true ↔ FirstTime h a := step_isSome ha hat
      split at ht
      · rename_i w hw
        cases ht
        have hfirst : FirstTime h a := hiff.1 (by rw [hw]; rfl)
        exact ⟨by simp [hfirst], .inl hw, rfl, acts_recorded hw⟩
      · rename_i hw
        cases ht
        have hnot : ¬ FirstTime h a := by
          intro hfirst
          have := hiff.2 hfirst
          rw [hw] at this; cases this
        refine ⟨by simp [hnot], .inr rfl, rfl, ?_⟩
        -- the run that raised found the command recorded
        intro k hk
        by_contra hk'
        refine hnot ⟨?_, ?_⟩
        · intro k' hk''
          rw [Option.mem_unique hk'' hk]; exact hk'
        · intro k' hk''
          cases a <;> simp_all [Action.acts, Action.withdraws]
    · cases ht

/-! ## Every history -/

theorem raised_iff {env : Env} : ∀ {acts : List Action} {h h' : History}, run (attempt env) h acts = some h' →
    (h'.raised = false ↔ h.raised = false ∧ Meets (attempt env) FirstTime h acts)
  | [], h, h', ht => by
    cases ht
    simp [Meets]
  | a :: acts, h, h', ht => by
    obtain ⟨h₁, h1, ht⟩ := run_cons.1 ht
    rw [raised_iff ht, (attempt_spec h1).raised, and_assoc]
    simp only [Meets, h1]

/-- The commands of the steps that acted are recorded, under keys that are unique. -/
structure ActsRecorded (env : Env) (h : History) : Prop where
  base : Inv env h.world
  acted : ∀ k ∈ h.acted, Recorded h.world k

theorem recorded_step {env : Env} {w w' : World} {a : Action} (hi : Inv env w) (hs : step env w a = some w')
    {k : IntentKey} (h : Recorded w k) : Recorded w' k := by
  obtain ⟨r, hr, rfl⟩ := List.mem_map.1 h
  obtain ⟨r', hr', hsame, -⟩ := statusAfter_move hi (step_moves hs) hr
  exact List.mem_map.2 ⟨r', hr', hsame.idempotencyKey.symm⟩

theorem actsRecorded_attempt {env : Env} {h h' : History} {a : Action} (hk : ActsRecorded env h) (ht : attempt env h a = some h') :
    ActsRecorded env h' := by
  have hs := attempt_spec ht
  have hold : ∀ k ∈ h.acted, Recorded h'.world k := by
    intro k hmem
    rcases hs.world with hw | hw
    · exact recorded_step hk.base hw (hk.acted k hmem)
    · rw [hw]; exact hk.acted k hmem
  constructor
  · rcases hs.world with hw | hw
    · exact inv_move hk.base (step_moves hw)
    · rw [hw]; exact hk.base
  · intro k hmem
    rw [hs.acted, List.mem_append] at hmem
    rcases hmem with hmem | hmem
    · exact hold k hmem
    · exact hs.recorded k (by simpa using hmem)

/-- Over every history of the saga's steps and compensations, run any number of times in any order
between any moves of the dispatchers: no run raised, each step that acted has exactly one create intent
and no step has two undos, if and only if each `act` was the first of its step and each `withdraw` found
the command pending or its undo not recorded. -/
theorem reexecution_succeeds_iff (env : Env) {acts : List Action} {h : History}
    (ht : run (attempt env) History.empty acts = some h) :
    Reexecuted h ↔ Meets (attempt env) FirstTime History.empty acts := by
  have hk : ActsRecorded env h := by
    refine inv (fun _ _ _ hk ht => actsRecorded_attempt hk ht) ⟨inv_empty env, ?_⟩ ht
    intro k hmem; cases hmem
  have hr := raised_iff ht
  constructor
  · intro hre
    exact (hr.1 hre.1).2
  · intro hm
    refine ⟨hr.2 ⟨rfl, hm⟩, ?_, ?_⟩
    · intro k hmem
      exact List.count_eq_one_of_mem hk.base.tables.keys (hk.acted k hmem)
    · intro k
      exact List.nodup_iff_count_le_one.1 hk.base.tables.keys (undoKey k)

/-- Both steps act once; the first command is cancelled and its withdrawal repeated, the second is
executed and undone. -/
def withdrawnTwice : List Action :=
  [.recordCareSchedule 7 1, .recordNotification 7 2, .claim 0 [1], .handle 0 true, .commitHandler 0 true,
    .markExecuted 0 true, .withdrawNotification 7 3, .withdrawCareSchedule 7 4, .withdrawCareSchedule 7 5]

theorem reexecution_succeeds_iff_twice :
    ∃ h, run (attempt sampleEnv) History.empty withdrawnTwice = some h ∧ h.acted.length = 2 ∧ Reexecuted h := by
  have hrun : run (attempt sampleEnv) History.empty withdrawnTwice =
      some ((run (attempt sampleEnv) History.empty withdrawnTwice).get (by decide)) := (Option.some_get _).symm
  exact ⟨_, hrun, by decide, (reexecution_succeeds_iff sampleEnv hrun).2 (by decide)⟩

/-- The worker stops after the step's commit and before its checkpoint, and the recovery runs it again. -/
def actedAgain : List Action := [.recordCareSchedule 7 1, .recordCareSchedule 7 2]

/-- The compensation is repeated twice. -/
def withdrawnThrice : List Action :=
  [.recordCareSchedule 7 1, .withdrawCareSchedule 7 2, .withdrawCareSchedule 7 3, .withdrawCareSchedule 7 4]

/-- The second `act` raises; and the second `withdraw` records an undo of a command that was cancelled,
so that the third raises. -/
theorem second_act_raises :
    (∃ h, run (attempt sampleEnv) History.empty actedAgain = some h ∧ h.raised = true ∧ ¬ Reexecuted h) ∧
    ∃ h, run (attempt sampleEnv) History.empty withdrawnThrice = some h ∧ h.raised = true ∧ ¬ Reexecuted h := by
  have h1 : run (attempt sampleEnv) History.empty actedAgain =
      some ((run (attempt sampleEnv) History.empty actedAgain).get (by decide)) := (Option.some_get _).symm
  have h2 : run (attempt sampleEnv) History.empty withdrawnThrice =
      some ((run (attempt sampleEnv) History.empty withdrawnThrice).get (by decide)) := (Option.some_get _).symm
  refine ⟨⟨_, h1, by decide, ?_⟩, ⟨_, h2, by decide, ?_⟩⟩
  · intro hre; exact absurd hre.1 (by decide)
  · intro hre; exact absurd hre.1 (by decide)

end Plantkeeper.Intents
