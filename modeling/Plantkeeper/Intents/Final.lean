/-
Outcomes are final, as far as the code keeps it. `cancel_pending` looks at the status before it writes;
`mark_executed` and `mark_failed` update by id and look at nothing, so a dispatcher that reports late
overwrites what others decided meanwhile: a cancelled or parked command becomes executed, an executed
or cancelled one parked. Where no report comes that late, an outcome once reached stays.
-/
import Plantkeeper.Intents.Invariant

namespace Plantkeeper.Intents

open Plantkeeper.Run Plantkeeper.Table

/-! ## What a step makes of a status -/

/-- The statuses nothing but an operator moves on from. -/
def IntentStatus.final : IntentStatus → Bool
  | .executed | .cancelled | .parked => true
  | .pending | .failed => false

/-- The status of a row after a step, with what moved it. -/
inductive StatusAfter (env : Env) (w : World) (r : Intent) : Action → IntentStatus → Prop
  | same (a : Action) : StatusAfter env w r a r.status
  | cancelled {a : Action} (ha : a.withdraws = some r.idempotencyKey) (hp : r.status = .pending) :
      StatusAfter env w r a .cancelled
  | executed {i : ℕ} {c : IntentClaim} {cs : List IntentClaim} (hd : (w.dispatchers i).claims = c :: cs)
      (hid : r.id = c.id) : StatusAfter env w r (.markExecuted i true) .executed
  | parked {i : ℕ} {c : IntentClaim} {cs : List IntentClaim} (hd : (w.dispatchers i).claims = c :: cs)
      (hid : r.id = c.id) (hge : env.maxAttempts ≤ r.attempts + 1) : StatusAfter env w r (.markFailed i true) .parked

section

variable {env : Env} {w w' : World} {a : Action} {r : Intent}

/-- A step that leaves the table alone, or writes other columns of it. -/
theorem statusAfter_update {p : Intent → Bool} {f : Intent → Intent} (hr : r ∈ w.intents)
    (hf : ∀ r : Intent, r.Same (f r)) (hs : ∀ r : Intent, (f r).status = r.status) :
    ∃ r' ∈ update p f w.intents, r.Same r' ∧ StatusAfter env w r a r'.status := by
  rcases mem_update_of_mem (p := p) (f := f) hr with ⟨-, h0⟩ | ⟨-, h0⟩
  · exact ⟨f r, h0, hf r, (hs r).symm ▸ .same a⟩
  · exact ⟨r, h0, .refl r, .same a⟩

theorem statusAfter_failed {i : ℕ} {c : IntentClaim} {cs : List IntentClaim} {error : Error} {rows : List Intent}
    {status : IntentStatus} (hi : Inv env w) (hr : r ∈ w.intents) (hd : (w.dispatchers i).claims = c :: cs)
    (hm : markFailed w.intents c.id error env.maxAttempts = some (rows, status)) :
    ∃ r' ∈ rows, r.Same r' ∧ StatusAfter env w r (.markFailed i true) r'.status := by
  obtain ⟨r₁, h1, hs1, hst1⟩ : ∃ r₁ ∈ countFailure w.intents c.id error, r.Same r₁ ∧ r₁.status = r.status := by
    rcases mem_update_of_mem (p := fun r => r.id == c.id) (f := fun r : Intent => { r with
      attempts := r.attempts + 1, lastError := some error, claimedAt := none }) hr with ⟨-, h0⟩ | ⟨-, h0⟩
    · exact ⟨_, h0, countFailure_same error r, rfl⟩
    · exact ⟨r, h0, .refl r, rfl⟩
  obtain ⟨x, hx, hid, ⟨hge, rfl⟩ | ⟨-, rfl⟩⟩ := markFailed_some hm
  · rcases mem_update_of_mem (p := fun r => r.id == c.id) (f := fun r : Intent => { r with
      status := .parked, lastError := some error, claimedAt := none }) h1 with ⟨hp, h0⟩ | ⟨-, h0⟩
    · -- the row that was counted is the row that is parked
      have hrid : r.id = c.id := hs1.id.trans (beq_iff_eq.1 hp)
      have hxr : x = r := List.inj_on_of_nodup_map hi.tables.ids hx hr (hid.trans hrid.symm)
      subst hxr
      exact ⟨_, h0, hs1.trans (park_same error r₁), .parked hd hid hge⟩
    · exact ⟨r₁, h0, hs1, hst1.symm ▸ .same _⟩
  · exact ⟨r₁, h1, hs1, hst1.symm ▸ .same _⟩

/-- A row is still there after a step, and its status is as before or was moved by one of three
statements. -/
theorem statusAfter_move (hi : Inv env w) (hm : Move env w a w') (hr : r ∈ w.intents) :
    ∃ r' ∈ w'.intents, r.Same r' ∧ StatusAfter env w r a r'.status := by
  have keep : ∃ r' ∈ w.intents, r.Same r' ∧ StatusAfter env w r a r'.status := ⟨r, hr, .refl r, .same a⟩
  cases hm with
  | advance d => exact keep
  | record _ _ hrec =>
    obtain ⟨-, -, rfl⟩ := record_some hrec
    exact ⟨r, List.mem_append_left _ hr, .refl r, .same a⟩
  | @cancel _ k ha hk =>
    rcases mem_update_of_mem (p := cancellable k) (f := fun r : Intent => { r with
      status := .cancelled, claimedAt := none }) hr with ⟨hp, h0⟩ | ⟨-, h0⟩
    · simp only [cancellable, Bool.and_eq_true, beq_iff_eq] at hp
      exact ⟨_, h0, cancel_same r, .cancelled (by rw [hp.1]; exact ha) hp.2⟩
    · exact ⟨r, h0, .refl r, .same a⟩
  | undo _ _ _ _ hrec =>
    obtain ⟨-, -, rfl⟩ := record_some hrec
    exact ⟨r, List.mem_append_left _ hr, .refl r, .same a⟩
  | claim skipped hd =>
    exact statusAfter_update hr (fun r => ⟨rfl, rfl, rfl, rfl, rfl⟩) fun r => rfl
  | phase hd hp => exact keep
  | delete hd hc => exact keep
  | insert hd hp hk hrow => exact keep
  | @executed i c cs hd hp =>
    rcases mem_update_of_mem (p := fun r => r.id == c.id) (f := fun r : Intent => { r with
      status := .executed, executedAt := some w.now, lastError := none, claimedAt := none }) hr with ⟨hp, h0⟩ | ⟨-, h0⟩
    · exact ⟨_, h0, ⟨rfl, rfl, rfl, rfl, rfl⟩, .executed hd (beq_iff_eq.1 hp)⟩
    · exact ⟨r, h0, .refl r, .same _⟩
  | failed hd hp hm => exact statusAfter_failed hi hr hd hm
  | drop i => exact keep

end

/-! ## Reports in time -/

/-- A success is reported while the command is neither cancelled nor parked, and a failure while it is
neither executed nor cancelled, or while it leaves attempts. -/
def InTime (env : Env) (w : World) : Action → Prop
  | .markExecuted i true => ∀ c ∈ (w.dispatchers i).claims.head?, ∀ r ∈ w.intents, r.id = c.id →
      r.status ≠ .cancelled ∧ r.status ≠ .parked
  | .markFailed i true => ∀ c ∈ (w.dispatchers i).claims.head?, ∀ r ∈ w.intents, r.id = c.id →
      (r.status ≠ .executed ∧ r.status ≠ .cancelled) ∨ r.attempts + 1 < env.maxAttempts
  | _ => True

instance (env : Env) (w : World) : ∀ a, Decidable (InTime env w a)
  | .markExecuted i true => inferInstanceAs (Decidable (∀ c ∈ (w.dispatchers i).claims.head?, ∀ r ∈ w.intents,
      r.id = c.id → r.status ≠ .cancelled ∧ r.status ≠ .parked))
  | .markFailed i true => inferInstanceAs (Decidable (∀ c ∈ (w.dispatchers i).claims.head?, ∀ r ∈ w.intents,
      r.id = c.id → (r.status ≠ .executed ∧ r.status ≠ .cancelled) ∨ r.attempts + 1 < env.maxAttempts))
  | .markExecuted _ false | .markFailed _ false => inferInstanceAs (Decidable True)
  | .advance _ | .recordCareSchedule .. | .recordNotification .. | .withdrawCareSchedule .. => inferInstanceAs (Decidable True)
  | .withdrawNotification .. | .claim .. | .handle .. | .commitHandler .. => inferInstanceAs (Decidable True)
  | .readWinner .. | .crash _ => inferInstanceAs (Decidable True)

theorem final_step {env : Env} {w : World} {a : Action} {r : Intent} {s : IntentStatus} (hr : r ∈ w.intents)
    (hf : r.status.final = true) (hok : InTime env w a) (h : StatusAfter env w r a s) : s = r.status := by
  cases h with
  | same => rfl
  | cancelled ha hp => rw [hp] at hf; cases hf
  | @executed i c cs hd hid =>
    obtain ⟨h1, h2⟩ := hok c (by rw [hd]; rfl) r hr hid
    cases hst : r.status with
    | executed => rfl
    | cancelled => exact absurd hst h1
    | parked => exact absurd hst h2
    | pending | failed => rw [hst] at hf; cases hf
  | @parked i c cs hd hid hge =>
    rcases hok c (by rw [hd]; rfl) r hr hid with ⟨h1, h2⟩ | hlt
    · cases hst : r.status with
      | parked => rfl
      | executed => exact absurd hst h1
      | cancelled => exact absurd hst h2
      | pending | failed => rw [hst] at hf; cases hf
    · omega

/-! ## Outcomes are final -/

/-- From any state the sagas and any number of dispatchers reach, along every run whose reports come in
time: a command that is executed, cancelled or parked keeps that status. -/
theorem intent_outcomes_final (env : Env) {before acts : List Action} {w w' : World}
    (hw : run (step env) World.empty before = some w) (hm : Meets (step env) (InTime env) w acts)
    (h : run (step env) w acts = some w') {r : Intent} (hr : r ∈ w.intents) (hf : r.status.final = true) :
    ∃ r' ∈ w'.intents, r'.id = r.id ∧ r'.status = r.status := by
  -- along the run: the invariant, and the row with its id and its status
  have hinv : Inv env w' ∧ ∃ r' ∈ w'.intents, r'.id = r.id ∧ r'.status = r.status := by
    refine inv_of_meets (P := fun v => Inv env v ∧ ∃ r' ∈ v.intents, r'.id = r.id ∧ r'.status = r.status) ?_
      ⟨inv_run hw, r, hr, rfl, rfl⟩ hm h
    rintro v a v' ⟨hi, r₁, hr₁, hid, hst⟩ hok ht
    have hmove := step_moves ht
    obtain ⟨r₂, hr₂, hs, hafter⟩ := statusAfter_move hi hmove hr₁
    have hsame := final_step hr₁ (by rw [hst]; exact hf) hok hafter
    exact ⟨inv_move hi hmove, r₂, hr₂, hs.id.symm.trans hid, hsame.trans hst⟩
  exact hinv.2

/-- A dispatcher executes the command; the saga then withdraws it. -/
def executedBefore : List Action :=
  [.recordCareSchedule 7 1, .claim 0 [], .handle 0 true, .commitHandler 0 true, .markExecuted 0 true]

def withdrawnAfter : List Action :=
  [.withdrawCareSchedule 7 2, .claim 1 [], .handle 1 true, .markExecuted 1 true]

/-- The command stays executed, and its undo is executed too. -/
theorem intent_outcomes_final_withdrawn :
    ∃ w w', run (step sampleEnv) World.empty executedBefore = some w ∧
      run (step sampleEnv) w withdrawnAfter = some w' ∧
      ∃ r' ∈ w'.intents, r'.id = 1 ∧ r'.status = .executed := by
  have hw : run (step sampleEnv) World.empty executedBefore =
      some ((run (step sampleEnv) World.empty executedBefore).get (by decide)) := (Option.some_get _).symm
  have hw' : run (step sampleEnv) ((run (step sampleEnv) World.empty executedBefore).get (by decide)) withdrawnAfter =
      some ((run (step sampleEnv) ((run (step sampleEnv) World.empty executedBefore).get (by decide))
        withdrawnAfter).get (by decide)) := (Option.some_get _).symm
  refine ⟨_, _, hw, hw', ?_⟩
  have hrow : ∃ r ∈ ((run (step sampleEnv) World.empty executedBefore).get (by decide)).intents,
      r.id = 1 ∧ r.status = .executed := by decide
  obtain ⟨r, hr, hid, hst⟩ := hrow
  obtain ⟨r', hr', hid', hst'⟩ := intent_outcomes_final sampleEnv hw (by decide) hw' hr (by rw [hst]; rfl)
  exact ⟨r', hr', hid'.trans hid, hst'.trans hst⟩

/-- The saga cancels a command that a dispatcher has claimed. -/
def cancelledBefore : List Action := [.recordCareSchedule 7 1, .claim 0 [], .withdrawCareSchedule 7 2]

/-- The dispatcher carries on, and reports. -/
def reportedAfter : List Action := [.handle 0 true, .commitHandler 0 true, .markExecuted 0 true]

/-- The cancelled command ends executed. -/
theorem cancelled_becomes_executed :
    ∃ w w', run (step sampleEnv) World.empty cancelledBefore = some w ∧
      run (step sampleEnv) w reportedAfter = some w' ∧
      w.intents.map (fun r => (r.id, r.status)) = [(1, .cancelled)] ∧
      w'.intents.map (fun r => (r.id, r.status)) = [(1, .executed)] := by
  have hw : run (step sampleEnv) World.empty cancelledBefore =
      some ((run (step sampleEnv) World.empty cancelledBefore).get (by decide)) := (Option.some_get _).symm
  have hw' : run (step sampleEnv) ((run (step sampleEnv) World.empty cancelledBefore).get (by decide)) reportedAfter =
      some ((run (step sampleEnv) ((run (step sampleEnv) World.empty cancelledBefore).get (by decide))
        reportedAfter).get (by decide)) := (Option.some_get _).symm
  exact ⟨_, _, hw, hw', by decide, by decide⟩

end Plantkeeper.Intents
