/-
No trigger is lost, as far as the code keeps it. Once a delivery's claim is committed, redeliveries
stop at it, so something else must still know of the saga: a row the recovery query selects, or a
record of the failure in the outbox. The claim is committed with `SagaStarted`, before the engine
has written its row and set it running, and a worker that stops in between leaves neither
(`trigger_absorbed`). The recovery job has two such gaps of its own: a recovery that fails on a
running saga whose budget is spent, and `_park`, whose counter and announcement are two commits.
-/
import Plantkeeper.Saga.Trigger

namespace Plantkeeper.Saga

open Plantkeeper.Run

/-! ## The property and its condition -/

/-- A `SagaFailed` or `SagaParked` is in the outbox. -/
def World.recorded (w : World) : Bool := w.outbox.any SagaEvent.stopped

/-- The engine's row exists and left `PENDING`. -/
def World.begun (w : World) : Bool := w.saga.any fun s => s.status != .pending

/-- The saga is completed or the recovery query selects it. -/
def World.resumable (maxAttempts : ℕ) (w : World) : Bool :=
  w.saga.any fun s => s.status == .completed || s.selected maxAttempts

/-- Whenever worker and job are at rest, a claimed trigger is completed, selectable or recorded. -/
def NotAbsorbed (maxAttempts : ℕ) (w : World) : Prop :=
  w.processed = true → w.worker = .idle → w.job = .idle → w.resumable maxAttempts = true ∨ w.recorded = true

/-- A recovery that failed. -/
def Action.countsFailure : Action → Bool
  | .notRecovered _ => true
  | _ => false

/-- `_park` stands between its two commits. -/
def Recovery.isAnnouncing : Recovery → Bool
  | .announcing _ => true
  | _ => false

/-- Unless the failure is on record: a worker stops after its claim's commit only once the row has
left `PENDING`, a recovery fails only with budget left, and the job does not stop inside `_park`. -/
def Orderly (maxAttempts : ℕ) (w : World) (a : Action) : Prop :=
  w.recorded = true ∨
    ((a = .crash → w.processed = true → w.begun = true) ∧
    (a.countsFailure = true → ∀ s ∈ w.saga, s.recoveryAttempts < maxAttempts) ∧
    (a = .stopJob → w.job.isAnnouncing = false))

instance (maxAttempts : ℕ) (w : World) (a : Action) : Decidable (Orderly maxAttempts w a) :=
  inferInstanceAs (Decidable (_ ∨ _))

/-- The worker stops right after the commit that carries the claim; the trigger is delivered again. -/
def absorbed : List Action := [.deliver, .dispatch, .crash, .deliver]

/-- There is a claim and a `SagaStarted`, and nothing that would ever run the saga. -/
theorem trigger_absorbed :
    ¬ ∀ (maxAttempts : ℕ) (acts : List Action) (w : World),
      run (step maxAttempts) World.empty acts = some w → NotAbsorbed maxAttempts w := by
  intro h
  have hrun : run (step 5) World.empty absorbed = some ((run (step 5) World.empty absorbed).get (by decide)) :=
    (Option.some_get _).symm
  have := h 5 absorbed _ hrun (by decide) (by decide) (by decide)
  revert this
  decide

/-! ## The invariant -/

structure Inv (maxAttempts : ℕ) (w : World) : Prop where
  fresh : w.processed = false → w.saga = none
  claimed : w.worker = .claimed → w.processed = false
  counted : ∀ s ∈ w.saga, w.recorded = true ∨ w.job.isAnnouncing = true ∨ s.recoveryAttempts ≤ maxAttempts
  begun : w.worker = .running ∨ w.worker = .compensating ∨ w.worker = .completed → w.begun = true
  settled : w.worker = .idle → w.processed = true → w.begun = true ∨ w.recorded = true

theorem inv_empty (maxAttempts : ℕ) : Inv maxAttempts World.empty := by
  constructor <;> simp [World.empty]

theorem begun_iff {w : World} : w.begun = true ↔ ∃ s, w.saga = some s ∧ s.status ≠ .pending := by
  unfold World.begun
  cases w.saga <;> simp

/-- What is on record stays on record. -/
theorem recorded_append {w : World} {events : List SagaEvent} (h : w.recorded = true) :
    (w.outbox ++ events).any SagaEvent.stopped = true := by
  rw [List.any_append, Bool.or_eq_true]
  exact .inl h

/-- The worker commits: its row keeps its counter, and is begun where the engine has begun it. -/
theorem inv_commit {maxAttempts : ℕ} {w : World} {saga : Option SagaState} {events : List SagaEvent}
    {worker : Delivery} (h : Inv maxAttempts w)
    (hcount : ∀ s ∈ saga, s.recoveryAttempts = 0 ∨ ∃ s₀, w.saga = some s₀ ∧ s.recoveryAttempts = s₀.recoveryAttempts)
    (hbegun : worker ≠ .started → worker ≠ .created → worker ≠ .raised → saga.any (fun s => s.status != .pending) = true ∨
      events.any SagaEvent.stopped = true ∧ worker = .idle) (hw : worker ≠ .claimed) :
    Inv maxAttempts (w.commit saga events worker) := by
  constructor
  · intro hp; cases hp
  · intro hc; exact absurd hc hw
  · intro s hs
    rcases hcount s hs with h0 | ⟨s₀, h0, heq⟩
    · right; right; omega
    · rcases h.counted s₀ h0 with hrec | hann | hle
      · exact .inl (recorded_append hrec)
      · exact .inr (.inl hann)
      · right; right; omega
  · intro hrun
    have hrun : worker = .running ∨ worker = .compensating ∨ worker = .completed := hrun
    rcases hbegun (by rintro rfl; simp at hrun) (by rintro rfl; simp at hrun) (by rintro rfl; simp at hrun)
      with hb | ⟨-, rfl⟩
    · exact hb
    · simp at hrun
  · intro hidle _
    have hidle : worker = .idle := hidle
    subst hidle
    rcases hbegun (by simp) (by simp) (by simp) with hb | ⟨hrec, -⟩
    · exact .inl hb
    · right
      show (w.outbox ++ events).any SagaEvent.stopped = true
      rw [List.any_append, hrec, Bool.or_true]

/-- The engine moves an existing row to a status other than `PENDING`. -/
theorem inv_commitStatus {maxAttempts : ℕ} {w : World} {s : SagaState} (h : Inv maxAttempts w) (hs : w.saga = some s)
    {status : SagaStatus} (hst : status ≠ .pending) {worker : Delivery} (hw : worker ≠ .claimed) :
    Inv maxAttempts (w.commitStatus s status worker) := by
  refine inv_commit h (fun s' hs' => ?_) (fun _ _ _ => ?_) hw
  · cases hs'
    exact .inr ⟨s, hs, rfl⟩
  · left
    simpa [SagaState.updateStatus] using hst

/-- The worker commits without touching the row. -/
theorem inv_commit_same {maxAttempts : ℕ} {w : World} {events : List SagaEvent} {worker : Delivery}
    (h : Inv maxAttempts w) (hb : w.begun = true ∨ events.any SagaEvent.stopped = true ∧ worker = .idle)
    (hw : worker ≠ .claimed) : Inv maxAttempts (w.commit w.saga events worker) := by
  refine inv_commit h (fun s hs => .inr ⟨s, hs, rfl⟩) (fun _ _ _ => ?_) hw
  rcases hb with hb | hb
  · exact .inl hb
  · exact .inr hb

/-- Only the worker's place changes. -/
theorem inv_worker {maxAttempts : ℕ} {w : World} {worker : Delivery} (h : Inv maxAttempts w)
    (hclaim : worker = .claimed → w.processed = false)
    (hbegun : worker = .running ∨ worker = .compensating ∨ worker = .completed → w.begun = true)
    (hidle : worker = .idle → w.processed = true → w.begun = true ∨ w.recorded = true) :
    Inv maxAttempts { w with worker := worker } :=
  ⟨h.fresh, hclaim, h.counted, hbegun, hidle⟩

theorem inv_workerStep {maxAttempts : ℕ} {w w' : World} {a : Action} (h : Inv maxAttempts w)
    (ho : Orderly maxAttempts w a) (ht : workerStep w a = some w') : Inv maxAttempts w' := by
  cases a with
  | deliver =>
    simp only [workerStep] at ht
    split at ht
    · cases ht
      split
      · exact h
      · rename_i hp
        exact inv_worker h (fun _ => by simpa using hp) (by simp) (by simp)
    · cases ht
  | dispatch =>
    simp only [workerStep] at ht
    split at ht
    · rename_i hw
      -- a delivery that got past its claim finds no row
      have hnone := h.fresh (h.claimed hw)
      cases ht
      rw [dispatch, hnone]
      exact inv_commit h (fun s hs => (nomatch hs)) (fun hn => absurd rfl hn) (by simp)
    · cases ht
  | create =>
    simp only [workerStep] at ht
    split at ht
    · cases ht
      refine inv_commit h (fun s hs => ?_) (fun _ hn => absurd rfl hn) (by simp)
      cases hs; exact .inl rfl
    · cases ht
  | begin =>
    simp only [workerStep] at ht
    split at ht
    · rename_i hs
      cases ht; exact inv_commitStatus h hs (by simp) (by simp)
    · cases ht
  | checkpoint =>
    simp only [workerStep] at ht
    split at ht
    · rename_i hw
      cases ht; exact inv_commit_same h (.inl (h.begun (.inl hw))) (by simp)
    · rename_i hw
      cases ht; exact inv_commit_same h (.inl (h.begun (.inr (.inl hw)))) (by simp)
    · cases ht
  | compensate =>
    simp only [workerStep] at ht
    split at ht
    · rename_i hs
      cases ht; exact inv_commitStatus h hs (by simp) (by simp)
    · cases ht
  | fail =>
    simp only [workerStep] at ht
    split at ht
    · rename_i hs
      cases ht; exact inv_commitStatus h hs (by simp) (by simp)
    · rename_i hs
      cases ht; exact inv_commitStatus h hs (by simp) (by simp)
    · cases ht
  | complete =>
    simp only [workerStep] at ht
    split at ht
    · rename_i hs
      cases ht; exact inv_commitStatus h hs (by simp) (by simp)
    · cases ht
  | finish =>
    simp only [workerStep] at ht
    split at ht
    · rename_i hw
      cases ht; exact inv_commit_same h (.inl (h.begun (.inr (.inr hw)))) (by simp)
    · cases ht
  | raise =>
    simp only [workerStep] at ht
    split at ht
    all_goals first
      | (cases ht; exact inv_worker h (by simp) (by simp) (by simp))
      | cases ht
  | recordFailure compensated =>
    simp only [workerStep] at ht
    split at ht
    · cases ht; exact inv_commit_same h (.inr ⟨rfl, rfl⟩) (by simp)
    · cases ht
  | crash =>
    cases ht
    refine inv_worker h (by simp) (by simp) fun _ hp => ?_
    rcases ho with hrec | ⟨hcrash, -⟩
    · exact .inr hrec
    · exact .inl (hcrash rfl hp)
  | _ => cases ht

/-- The job commits: a begun row stays begun, and its counter is in bounds, on record, or being
announced. -/
theorem inv_job {maxAttempts : ℕ} {w : World} {s s' : SagaState} {outbox : List SagaEvent} {job : Recovery}
    (h : Inv maxAttempts w) (hs : w.saga = some s) (hst : s.status ≠ .pending → s'.status ≠ .pending)
    (hout : w.recorded = true → outbox.any SagaEvent.stopped = true)
    (hcount : outbox.any SagaEvent.stopped = true ∨ job.isAnnouncing = true ∨ s'.recoveryAttempts ≤ maxAttempts) :
    Inv maxAttempts { w with saga := some s', outbox := outbox, job := job } := by
  have hbegun : w.begun = true → s'.status ≠ .pending := by
    intro hb
    obtain ⟨s₀, h0, hne⟩ := begun_iff.1 hb
    rw [hs] at h0
    cases h0; exact hst hne
  constructor
  · intro hp
    rw [h.fresh hp] at hs; cases hs
  · exact h.claimed
  · rintro s'' hs''
    cases hs''
    exact hcount
  · intro hw
    exact begun_iff.2 ⟨s', rfl, hbegun (h.begun hw)⟩
  · intro hw hp
    rcases h.settled hw hp with hb | hrec
    · exact .inl (begun_iff.2 ⟨s', rfl, hbegun hb⟩)
    · exact .inr (hout hrec)

/-- Outside `_park` a row's counter is in bounds or on record. -/
theorem counted_of_not_announcing {maxAttempts : ℕ} {w : World} {s : SagaState} (h : Inv maxAttempts w)
    (hs : w.saga = some s) (hj : w.job.isAnnouncing = false) :
    w.recorded = true ∨ s.recoveryAttempts ≤ maxAttempts := by
  rcases h.counted s hs with hrec | hann | hle
  · exact .inl hrec
  · rw [hj] at hann; cases hann
  · exact .inr hle

/-- The job moves the row to another status, or not at all, outside `_park`. -/
theorem inv_job_status {maxAttempts : ℕ} {w : World} {s s' : SagaState} {outbox : List SagaEvent} {job : Recovery}
    (h : Inv maxAttempts w) (hs : w.saga = some s) (hst : s.status ≠ .pending → s'.status ≠ .pending)
    (hsame : s'.recoveryAttempts = s.recoveryAttempts) (hj : w.job.isAnnouncing = false)
    (hout : w.recorded = true → outbox.any SagaEvent.stopped = true) :
    Inv maxAttempts { w with saga := some s', outbox := outbox, job := job } := by
  refine inv_job h hs hst hout ?_
  rcases counted_of_not_announcing h hs hj with hrec | hle
  · exact .inl (hout hrec)
  · right; right; omega

theorem inv_job_same {maxAttempts : ℕ} {w : World} {s : SagaState} {outbox : List SagaEvent} {job : Recovery}
    (h : Inv maxAttempts w) (hs : w.saga = some s) (hj : w.job.isAnnouncing = false)
    (hout : w.recorded = true → outbox.any SagaEvent.stopped = true) :
    Inv maxAttempts { w with outbox := outbox, job := job } := by
  have hrow : Inv maxAttempts { w with saga := some s, outbox := outbox, job := job } :=
    inv_job_status h hs id rfl hj hout
  rwa [← hs] at hrow

theorem inv_prepare {maxAttempts : ℕ} {w : World} {s : SagaState} (h : Inv maxAttempts w) (hs : w.saga = some s)
    (hj : w.job.isAnnouncing = false) : Inv maxAttempts (prepare maxAttempts w s) := by
  unfold prepare
  split
  · exact inv_job_same h hs hj id
  · split
    · exact inv_job_same h hs hj id
    · exact inv_job_same h hs hj recorded_append

theorem inv_jobStep {maxAttempts : ℕ} {w w' : World} {a : Action} (h : Inv maxAttempts w)
    (ho : Orderly maxAttempts w a) (ht : jobStep maxAttempts w a = some w') : Inv maxAttempts w' := by
  cases a with
  | select =>
    simp only [jobStep] at ht
    split at ht
    · rename_i s hj hs
      split at ht
      · cases ht; exact inv_job_same h hs (by rw [hj]; rfl) id
      · cases ht
    · cases ht
  | prepare =>
    simp only [jobStep] at ht
    split at ht
    · rename_i s hj hs
      cases ht; exact inv_prepare h hs (by rw [hj]; rfl)
    · cases ht
  | clearStatus =>
    simp only [jobStep] at ht
    split at ht
    · rename_i s hj hs
      cases ht; exact inv_job_status h hs (by simp [SagaState.updateStatus]) rfl (by rw [hj]; rfl) id
    · cases ht
  | recovered =>
    simp only [jobStep] at ht
    split at ht
    · rename_i s hj hs
      cases ht; exact inv_job_status h hs (by simp [SagaState.updateStatus]) rfl (by rw [hj]; rfl) id
    · cases ht
  | notRecovered status =>
    simp only [jobStep] at ht
    split at ht
    · rename_i s hj hs
      split at ht
      · rename_i hrec
        cases ht
        refine inv_job h hs (fun _ => ?_) id ?_
        · rintro hp
          simp only [SagaState.incrementRecoveryAttempts] at hp
          rw [hp] at hrec; cases hrec
        · -- the failure is counted, and the budget had room for it
          rcases ho with hrec | ⟨-, hbudget, -⟩
          · exact .inl hrec
          · have := hbudget rfl s hs
            right; right
            simp only [SagaState.incrementRecoveryAttempts]
            omega
      · cases ht
    · cases ht
  | pushCounter =>
    simp only [jobStep] at ht
    split at ht
    · rename_i s hj hs
      cases ht; exact inv_job h hs id id (.inr (.inl rfl))
    · cases ht
  | announceParked =>
    simp only [jobStep] at ht
    split at ht
    · rename_i attempt _
      cases ht
      have hrec : (w.outbox ++ [SagaEvent.sagaParked attempt]).any SagaEvent.stopped = true := by
        rw [List.any_append]; simp [SagaEvent.stopped]
      exact ⟨h.fresh, h.claimed, fun s hs => .inl hrec, h.begun, fun hw hp => .inr hrec⟩
    · cases ht
  | stopJob =>
    cases ht
    refine ⟨h.fresh, h.claimed, fun s hs => ?_, h.begun, h.settled⟩
    rcases ho with hrec | ⟨-, -, hstop⟩
    · exact .inl hrec
    · rcases counted_of_not_announcing h hs (hstop rfl) with hrec | hle
      · exact .inl hrec
      · exact .inr (.inr hle)
  | reset =>
    obtain ⟨s, hs, rfl⟩ := Option.map_eq_some_iff.1 ht
    refine inv_job h hs (by simp [SagaState.resetForRetry]) id (.inr (.inr ?_))
    simp [SagaState.resetForRetry]
  | _ => cases ht

theorem inv_step {maxAttempts : ℕ} {w w' : World} {a : Action} (h : Inv maxAttempts w) (ho : Orderly maxAttempts w a)
    (ht : step maxAttempts w a = some w') : Inv maxAttempts w' := by
  unfold step at ht
  split at ht
  · rename_i hworker
    cases ht; exact inv_workerStep h ho hworker
  · exact inv_jobStep h ho ht

/-! ## No lost trigger -/

/-- In every orderly run, whenever the worker and the recovery job are at rest and the trigger's
claim is committed, the saga is completed, the recovery query selects its row, or its failure is in
the outbox. -/
theorem trigger_not_lost (maxAttempts : ℕ) {acts : List Action} {w : World}
    (ho : Meets (step maxAttempts) (Orderly maxAttempts) World.empty acts)
    (h : run (step maxAttempts) World.empty acts = some w) : NotAbsorbed maxAttempts w := by
  have hi : Inv maxAttempts w := inv_of_meets (fun _ _ _ hi ha ht => inv_step hi ha ht) (inv_empty maxAttempts) ho h
  intro hp hw hj
  rcases hi.settled hw hp with hb | hrec
  · obtain ⟨s, hs, hne⟩ := begun_iff.1 hb
    rcases counted_of_not_announcing hi hs (by rw [hj]; rfl) with hrec | hle
    · exact .inr hrec
    · left
      unfold World.resumable
      rw [hs]
      -- a row that left `PENDING` is completed or recoverable
      cases hst : s.status with
      | pending => exact absurd hst hne
      | completed => simp [hst]
      | running | compensating | failed =>
        have hlt : s.recoveryAttempts < maxAttempts + PARK_MARGIN := Nat.lt_succ_of_le hle
        simp [SagaState.selected, SagaStatus.recoverable, hst, hlt]
  · exact .inr hrec

/-- The worker stops in the middle of the steps, and the job's first recovery fails. -/
def resumed : List Action :=
  [.deliver, .dispatch, .create, .begin, .checkpoint, .crash, .deliver, .select, .prepare, .notRecovered .failed]

theorem trigger_not_lost_resumed :
    ∃ w, run (step 5) World.empty resumed = some w ∧ w.processed = true ∧ w.recorded = false ∧
      w.resumable 5 = true := by
  have hrun : run (step 5) World.empty resumed = some ((run (step 5) World.empty resumed).get (by decide)) :=
    (Option.some_get _).symm
  refine ⟨_, hrun, by decide, by decide, ?_⟩
  have := trigger_not_lost 5 (by decide) hrun (by decide) (by decide) (by decide)
  exact this.resolve_right (by decide)

end Plantkeeper.Saga
