/-
Parked if and only if announced, as far as the code keeps it. The counter that takes a saga out of the
recovery query is moved by the engine, by `_park` and by the operator's reset; `SagaParked` is appended
by `_park` alone, in a commit after the one that moved the counter. A recovery that fails on a crashed
saga whose budget is spent moves the counter past the query without a word (`parked_unannounced`), and
so does a stop between the two commits.
-/
import Plantkeeper.Saga.NoLostTrigger

namespace Plantkeeper.Saga

open Plantkeeper.Run

/-! ## Announcements since the last reset -/

/-- The saga with the length the outbox had at its last reset. -/
structure Ledger where
  world : World
  mark : ℕ
  deriving DecidableEq

def Ledger.empty : Ledger := ⟨World.empty, 0⟩

def SagaEvent.isParked : SagaEvent → Bool
  | .sagaParked _ => true
  | _ => false

/-- How often `SagaParked` was committed since the last reset. -/
def Ledger.announced (l : Ledger) : ℕ := (l.world.outbox.drop l.mark).countP SagaEvent.isParked

def Ledger.step (maxAttempts : ℕ) (l : Ledger) (a : Action) : Option Ledger :=
  (Saga.step maxAttempts l.world a).map fun w =>
    ⟨w, if a = .reset then w.outbox.length else l.mark⟩

/-- `SagaParked` is announced at most once a reset, and, unless `_park` is about to announce it, a
saga in a recoverable status is out of the query exactly if it was announced. -/
def ParkedIffAnnounced (maxAttempts : ℕ) (l : Ledger) : Prop :=
  l.announced ≤ 1 ∧ (l.world.job.isAnnouncing = false → ∀ s ∈ l.world.saga, s.status.recoverable = true →
    (s.selected maxAttempts = false ↔ l.announced = 1))

instance (maxAttempts : ℕ) (l : Ledger) : Decidable (ParkedIffAnnounced maxAttempts l) :=
  inferInstanceAs (Decidable (_ ∧ (_ → ∀ s ∈ l.world.saga, _ → _)))

/-- A recovery fails only with budget left, and `_park` is neither stopped nor overtaken by a reset
between its two commits. -/
def Unbroken (maxAttempts : ℕ) (l : Ledger) (a : Action) : Prop :=
  (a.countsFailure = true → ∀ s ∈ l.world.saga, s.recoveryAttempts < maxAttempts) ∧
    (a = .stopJob ∨ a = .reset → l.world.job.isAnnouncing = false)

instance (maxAttempts : ℕ) (l : Ledger) (a : Action) : Decidable (Unbroken maxAttempts l a) :=
  inferInstanceAs (Decidable (_ ∧ _))

/-! ## The invariant -/

/-- The job is with a saga that the query selected. -/
def Recovery.busy : Recovery → Bool
  | .idle | .announcing _ => false
  | _ => true

/-- The counter says what was announced: nothing while it is in the query's reach, and in the middle of
`_park`; one `SagaParked` once it is past. -/
structure Counted (maxAttempts : ℕ) (l : Ledger) : Prop where
  mark : l.mark ≤ l.world.outbox.length
  unborn : l.world.saga = none → l.announced = 0
  busy : l.world.job.busy = true → ∀ s ∈ l.world.saga, s.recoveryAttempts ≤ maxAttempts
  spent : ∀ attempt, l.world.job = .parking attempt → maxAttempts ≤ attempt
  pushed : l.world.job.isAnnouncing = true → l.announced = 0 ∧ ∃ s ∈ l.world.saga, maxAttempts < s.recoveryAttempts
  counted : l.world.job.isAnnouncing = false → ∀ s ∈ l.world.saga,
    l.announced = if maxAttempts < s.recoveryAttempts then 1 else 0

theorem counted_empty (maxAttempts : ℕ) : Counted maxAttempts Ledger.empty := by
  constructor <;> simp [Ledger.empty, Ledger.announced, World.empty, Recovery.busy, Recovery.isAnnouncing]

theorem announced_append {l : Ledger} (hm : l.mark ≤ l.world.outbox.length) {w : World} {events : List SagaEvent}
    (hw : w.outbox = l.world.outbox ++ events) :
    (⟨w, l.mark⟩ : Ledger).announced = l.announced + events.countP SagaEvent.isParked := by
  unfold Ledger.announced
  simp only [hw]
  rw [List.drop_append_of_le_length hm, List.countP_append]

/-- What the worker does to the counter and the outbox: it appends no `SagaParked`, and keeps the
counter or starts it at zero. -/
structure WorkerFrame (w w' : World) : Prop where
  job : w'.job = w.job
  outbox : ∃ events, w'.outbox = w.outbox ++ events ∧ events.countP SagaEvent.isParked = 0
  unborn : w'.saga = none → w.saga = none
  counter : ∀ s' ∈ w'.saga, (w.saga = none ∧ s'.recoveryAttempts = 0) ∨
    ∃ s ∈ w.saga, s'.recoveryAttempts = s.recoveryAttempts

theorem workerFrame_refl {w : World} {worker : Delivery} : WorkerFrame w { w with worker := worker } :=
  ⟨rfl, ⟨[], (List.append_nil _).symm, rfl⟩, fun h => h, fun s hs => .inr ⟨s, hs, rfl⟩⟩

theorem workerFrame_same {w : World} {events : List SagaEvent} {worker : Delivery}
    (he : events.countP SagaEvent.isParked = 0) : WorkerFrame w (w.commit w.saga events worker) :=
  ⟨rfl, ⟨events, rfl, he⟩, fun h => h, fun s hs => .inr ⟨s, hs, rfl⟩⟩

theorem workerFrame_status {w : World} {s : SagaState} (hs : w.saga = some s) (status : SagaStatus)
    (worker : Delivery) : WorkerFrame w (w.commitStatus s status worker) := by
  refine ⟨rfl, ⟨[], rfl, rfl⟩, ?_, ?_⟩
  · intro h; cases h
  · intro s' hs'
    cases hs'
    exact .inr ⟨s, hs, rfl⟩

theorem workerStep_frame {w w' : World} {a : Action} (ht : workerStep w a = some w') : WorkerFrame w w' := by
  cases a with
  | deliver =>
    simp only [workerStep] at ht
    split at ht
    · cases ht
      split
      · exact workerFrame_refl
      · exact workerFrame_refl
    · cases ht
  | dispatch =>
    simp only [workerStep] at ht
    split at ht
    · cases ht
      unfold dispatch
      split
      · rename_i hs
        rw [← hs]; exact workerFrame_same rfl
      · split
        · exact workerFrame_same rfl
        · exact workerFrame_refl
    · cases ht
  | create =>
    simp only [workerStep] at ht
    split at ht
    · rename_i hs
      cases ht
      refine ⟨rfl, ⟨[], rfl, rfl⟩, fun _ => hs, ?_⟩
      intro s' hs'
      cases hs'
      exact .inl ⟨hs, rfl⟩
    · cases ht
  | checkpoint =>
    simp only [workerStep] at ht
    split at ht
    all_goals first
      | (cases ht; exact workerFrame_same rfl)
      | cases ht
  | begin | compensate | fail | complete =>
    simp only [workerStep] at ht
    split at ht
    all_goals first
      | (rename_i hs; cases ht; exact workerFrame_status hs _ _)
      | cases ht
  | finish =>
    simp only [workerStep] at ht
    split at ht
    · cases ht; exact workerFrame_same rfl
    · cases ht
  | raise =>
    simp only [workerStep] at ht
    split at ht
    all_goals first
      | (cases ht; exact workerFrame_refl)
      | cases ht
  | recordFailure compensated =>
    simp only [workerStep] at ht
    split at ht
    · cases ht
      apply workerFrame_same
      cases compensated <;> rfl
    · cases ht
  | crash => cases ht; exact workerFrame_refl
  | _ => cases ht

theorem counted_worker {maxAttempts : ℕ} {l : Ledger} {w : World} (h : Counted maxAttempts l)
    (f : WorkerFrame l.world w) : Counted maxAttempts ⟨w, l.mark⟩ := by
  obtain ⟨hj, ⟨events, hout, hnone⟩, hun, hcount⟩ := f
  have han := announced_append h.mark hout
  rw [hnone, Nat.add_zero] at han
  refine ⟨?_, ?_, ?_, ?_, ?_, ?_⟩
  · simp only [hout, List.length_append]
    have := h.mark
    omega
  · intro hs
    rw [han]; exact h.unborn (hun hs)
  · intro hb s' hs'
    simp only [hj] at hb
    rcases hcount s' hs' with ⟨-, h0⟩ | ⟨s, hs, heq⟩
    · omega
    · have := h.busy hb s hs
      omega
  · intro attempt ha
    simp only [hj] at ha
    exact h.spent attempt ha
  · intro hp
    simp only [hj] at hp
    obtain ⟨h0, s, hs, hlt⟩ := h.pushed hp
    refine ⟨han.trans h0, ?_⟩
    cases hw : w.saga with
    | none => rw [hun hw] at hs; cases hs
    | some s' =>
      refine ⟨s', rfl, ?_⟩
      rcases hcount s' hw with ⟨hn, -⟩ | ⟨s₀, hs₀, heq⟩
      · rw [hn] at hs; cases hs
      · rw [hs] at hs₀
        cases hs₀; omega
  · intro hp s' hs'
    simp only [hj] at hp
    rw [han]
    rcases hcount s' hs' with ⟨hn, h0⟩ | ⟨s, hs, heq⟩
    · rw [h.unborn hn, h0]; rfl
    · rw [heq]; exact h.counted hp s hs

/-- The job moves on outside `_park` and announces nothing; the counter stays in the query's reach or
where it was. -/
theorem counted_job {maxAttempts : ℕ} {l : Ledger} {s s' : SagaState} {events : List SagaEvent} {job : Recovery}
    (h : Counted maxAttempts l) (hs : l.world.saga = some s) (hj : l.world.job.isAnnouncing = false)
    (he : events.countP SagaEvent.isParked = 0) (hj' : job.isAnnouncing = false)
    (hspent : ∀ attempt, job = .parking attempt → maxAttempts ≤ attempt)
    (hbusy : job.busy = true → s'.recoveryAttempts ≤ maxAttempts)
    (hc : maxAttempts < s'.recoveryAttempts ↔ maxAttempts < s.recoveryAttempts) :
    Counted maxAttempts
      ⟨{ l.world with saga := some s', outbox := l.world.outbox ++ events, job := job }, l.mark⟩ := by
  have han := announced_append (w := { l.world with
    saga := some s', outbox := l.world.outbox ++ events, job := job }) h.mark rfl
  rw [he, Nat.add_zero] at han
  refine ⟨?_, ?_, ?_, hspent, ?_, ?_⟩
  · simp only [List.length_append]
    have := h.mark
    omega
  · intro hn; cases hn
  · intro hb t ht
    cases ht; exact hbusy hb
  · intro hp
    rw [hj'] at hp; cases hp
  · intro _ t ht
    cases ht
    rw [han, h.counted hj s hs]
    simp only [hc]

/-- The job moves on outside `_park` with the row as it is. -/
theorem counted_job_same {maxAttempts : ℕ} {l : Ledger} {s : SagaState} {events : List SagaEvent} {job : Recovery}
    (h : Counted maxAttempts l) (hs : l.world.saga = some s) (hj : l.world.job.isAnnouncing = false)
    (he : events.countP SagaEvent.isParked = 0) (hj' : job.isAnnouncing = false)
    (hspent : ∀ attempt, job = .parking attempt → maxAttempts ≤ attempt)
    (hbusy : job.busy = true → s.recoveryAttempts ≤ maxAttempts) :
    Counted maxAttempts ⟨{ l.world with outbox := l.world.outbox ++ events, job := job }, l.mark⟩ := by
  have hrow := counted_job h hs hj he hj' hspent hbusy Iff.rfl
  rwa [← hs] at hrow

section

variable {maxAttempts : ℕ} {l : Ledger} {s : SagaState}

theorem counted_job_silent (h : Counted maxAttempts l) (hs : l.world.saga = some s)
    (hj : l.world.job.isAnnouncing = false) (s' : SagaState) (job : Recovery) (hj' : job.isAnnouncing = false)
    (hspent : ∀ attempt, job = .parking attempt → maxAttempts ≤ attempt)
    (hbusy : job.busy = true → s'.recoveryAttempts ≤ maxAttempts)
    (hc : maxAttempts < s'.recoveryAttempts ↔ maxAttempts < s.recoveryAttempts) :
    Counted maxAttempts ⟨{ l.world with saga := some s', job := job }, l.mark⟩ := by
  have hrow := counted_job h hs hj (List.countP_nil ..) hj' hspent hbusy hc
  rwa [List.append_nil] at hrow

theorem counted_job_silent_same (h : Counted maxAttempts l) (hs : l.world.saga = some s)
    (hj : l.world.job.isAnnouncing = false) (job : Recovery) (hj' : job.isAnnouncing = false)
    (hspent : ∀ attempt, job = .parking attempt → maxAttempts ≤ attempt)
    (hbusy : job.busy = true → s.recoveryAttempts ≤ maxAttempts) :
    Counted maxAttempts ⟨{ l.world with job := job }, l.mark⟩ := by
  have hrow := counted_job_silent h hs hj s job hj' hspent hbusy Iff.rfl
  rwa [← hs] at hrow

/-- A retry is announced as such, and a spent budget only leads into `_park`. -/
theorem counted_prepare (h : Counted maxAttempts l) (hs : l.world.saga = some s) (hj : l.world.job = .preparing) :
    Counted maxAttempts ⟨prepare maxAttempts l.world s, l.mark⟩ := by
  have hle := h.busy (by rw [hj]; rfl) s hs
  have hna : l.world.job.isAnnouncing = false := by rw [hj]; rfl
  unfold prepare
  split
  · exact counted_job_silent_same h hs hna .recovering rfl (by simp) fun _ => hle
  · split
    · rename_i hge
      refine counted_job_silent_same h hs hna (.parking s.recoveryAttempts) rfl ?_ fun _ => hle
      intro attempt ha
      cases ha; exact hge
    · exact counted_job_same h hs hna rfl rfl (by simp) fun _ => hle

/-- The first commit of `_park`: the counter is past the query, and the announcement is to come. -/
theorem counted_pushCounter {attempt : ℕ} (h : Counted maxAttempts l) (hs : l.world.saga = some s)
    (hj : l.world.job = .parking attempt) :
    Counted maxAttempts ⟨{ l.world with
      saga := some (s.setRecoveryAttempts (attempt + PARK_MARGIN)), job := .announcing attempt }, l.mark⟩ := by
  have hle := h.busy (by rw [hj]; rfl) s hs
  have hge := h.spent attempt hj
  have h0 := h.counted (by rw [hj]; rfl) s hs
  rw [if_neg (by omega)] at h0
  refine ⟨h.mark, by simp, by simp [Recovery.busy], by simp, ?_, by simp [Recovery.isAnnouncing]⟩
  intro _
  refine ⟨h0, _, rfl, ?_⟩
  simp only [SagaState.setRecoveryAttempts, PARK_MARGIN]
  omega

/-- The second commit of `_park`. -/
theorem counted_announceParked {attempt : ℕ} (h : Counted maxAttempts l) (hj : l.world.job = .announcing attempt) :
    Counted maxAttempts ⟨{ l.world with outbox := l.world.outbox ++ [.sagaParked attempt], job := .idle }, l.mark⟩ := by
  obtain ⟨h0, s, hs, hlt⟩ := h.pushed (by rw [hj]; rfl)
  have han := announced_append (w := { l.world with
    outbox := l.world.outbox ++ [.sagaParked attempt], job := .idle }) h.mark rfl
  rw [h0] at han
  have hmark := h.mark
  refine ⟨?_, ?_, by simp [Recovery.busy], by simp, by simp [Recovery.isAnnouncing], ?_⟩
  · simp only [List.length_append]
    omega
  · intro hn
    rw [hn] at hs; cases hs
  · intro _ t ht
    rw [hs] at ht
    cases ht
    rw [if_pos hlt]; exact han

/-- Outside `_park` a reset starts the counting again. -/
theorem counted_reset (h : Counted maxAttempts l) (hna : l.world.job.isAnnouncing = false) :
    Counted maxAttempts ⟨{ l.world with saga := some s.resetForRetry }, l.world.outbox.length⟩ := by
  have h0 : Ledger.announced ⟨{ l.world with saga := some s.resetForRetry }, l.world.outbox.length⟩ = 0 := by
    simp [Ledger.announced]
  refine ⟨Nat.le_refl _, fun _ => h0, ?_, h.spent, ?_, ?_⟩
  · intro _ t ht
    cases ht
    simp [SagaState.resetForRetry]
  · intro hp
    simp only [hna] at hp; cases hp
  · intro _ t ht
    cases ht
    rw [h0]
    simp [SagaState.resetForRetry]

end

theorem counted_jobStep {maxAttempts : ℕ} {l : Ledger} {w : World} {a : Action} (h : Counted maxAttempts l)
    (ho : Unbroken maxAttempts l a) (ht : jobStep maxAttempts l.world a = some w) :
    Counted maxAttempts ⟨w, if a = .reset then w.outbox.length else l.mark⟩ := by
  cases a with
  | select =>
    simp only [jobStep] at ht
    split at ht
    · rename_i s hj hs
      split at ht
      · rename_i hsel
        cases ht
        have hle : s.recoveryAttempts ≤ maxAttempts := by
          unfold SagaState.selected PARK_MARGIN at hsel
          rw [Bool.and_eq_true, decide_eq_true_eq] at hsel
          omega
        exact counted_job_silent_same h hs (by rw [hj]; rfl) .preparing rfl (by simp) fun _ => hle
      · cases ht
    · cases ht
  | prepare =>
    simp only [jobStep] at ht
    split at ht
    · rename_i s hj hs
      cases ht
      exact counted_prepare h hs hj
    · cases ht
  | clearStatus =>
    simp only [jobStep] at ht
    split at ht
    · rename_i s hj hs
      cases ht
      have hle := h.busy (by rw [hj]; rfl) s hs
      exact counted_job_silent h hs (by rw [hj]; rfl) (s.updateStatus .running) .recovering rfl (by simp) (fun _ => hle)
        Iff.rfl
    · cases ht
  | recovered =>
    simp only [jobStep] at ht
    split at ht
    · rename_i s hj hs
      cases ht
      exact counted_job_silent h hs (by rw [hj]; rfl) (s.updateStatus .completed) .idle rfl (by simp)
        (by simp [Recovery.busy]) Iff.rfl
    · cases ht
  | notRecovered status =>
    simp only [jobStep] at ht
    split at ht
    · rename_i s hj hs
      split at ht
      · cases ht
        -- the failure is counted, and the budget had room for it
        have hlt := ho.1 rfl s hs
        refine counted_job_silent h hs (by rw [hj]; rfl) (s.incrementRecoveryAttempts status) .idle rfl (by simp)
          (by simp [Recovery.busy]) ?_
        simp only [SagaState.incrementRecoveryAttempts]
        omega
      · cases ht
    · cases ht
  | pushCounter =>
    simp only [jobStep] at ht
    split at ht
    · rename_i attempt s hj hs
      cases ht
      exact counted_pushCounter h hs hj
    · cases ht
  | announceParked =>
    simp only [jobStep] at ht
    split at ht
    · rename_i attempt hj
      cases ht
      exact counted_announceParked h hj
    · cases ht
  | stopJob =>
    cases ht
    have hna := ho.2 (.inl rfl)
    refine ⟨h.mark, h.unborn, by simp [Recovery.busy], by simp, by simp [Recovery.isAnnouncing], ?_⟩
    intro _ s hs
    exact h.counted hna s hs
  | reset =>
    obtain ⟨s, hs, rfl⟩ := Option.map_eq_some_iff.1 ht
    rw [if_pos rfl]
    exact counted_reset h (ho.2 (.inr rfl))
  | _ => cases ht

theorem counted_step {maxAttempts : ℕ} {l l' : Ledger} {a : Action} (h : Counted maxAttempts l)
    (ho : Unbroken maxAttempts l a) (ht : Ledger.step maxAttempts l a = some l') : Counted maxAttempts l' := by
  obtain ⟨w, hw, rfl⟩ := Option.map_eq_some_iff.1 ht
  unfold step at hw
  split at hw
  · rename_i hworker
    cases hw
    -- no step of the worker is a reset
    have hne : a ≠ .reset := by
      rintro rfl; cases hworker
    rw [if_neg hne]
    exact counted_worker h (workerStep_frame hworker)
  · exact counted_jobStep h ho hw

/-! ## Parked if and only if announced -/

/-- In every unbroken run, whatever the worker, the ticks of the recovery job, crashes and operator
resets do in between: `SagaParked` was committed at most once since the last reset, and outside `_park`
a saga in a recoverable status is no longer selected exactly if it was. -/
theorem parked_iff_announced (maxAttempts : ℕ) {acts : List Action} {l : Ledger}
    (ho : Meets (Ledger.step maxAttempts) (Unbroken maxAttempts) Ledger.empty acts)
    (h : run (Ledger.step maxAttempts) Ledger.empty acts = some l) : ParkedIffAnnounced maxAttempts l := by
  have hc : Counted maxAttempts l := inv_of_meets (fun _ _ _ => counted_step) (counted_empty maxAttempts) ho h
  have hone : l.announced ≤ 1 := by
    by_cases hp : l.world.job.isAnnouncing = true
    · rw [(hc.pushed hp).1]; omega
    · cases hs : l.world.saga with
      | none => rw [hc.unborn hs]; omega
      | some s =>
        rw [hc.counted (by simpa using hp) s hs]
        split <;> omega
  refine ⟨hone, ?_⟩
  intro hp s hs hrec
  have hcount := hc.counted hp s hs
  rw [hcount]
  unfold SagaState.selected PARK_MARGIN
  by_cases hlt : maxAttempts < s.recoveryAttempts
  · rw [if_pos hlt]
    simp only [hrec, Bool.true_and, decide_eq_false_iff_not, iff_true]
    omega
  · rw [if_neg hlt]
    simp only [hrec, Bool.true_and, decide_eq_false_iff_not]
    omega

/-- With a budget of one retry: the saga fails, is retried and fails again, and is parked. -/
def parked : List Action :=
  [.deliver, .dispatch, .create, .begin, .fail, .recordFailure false,
    .select, .prepare, .clearStatus, .notRecovered .failed,
    .select, .prepare, .pushCounter, .announceParked]

theorem parked_iff_announced_parked :
    ∃ l, run (Ledger.step 1) Ledger.empty parked = some l ∧ l.announced = 1 ∧ ParkedIffAnnounced 1 l := by
  have hrun : run (Ledger.step 1) Ledger.empty parked = some ((run (Ledger.step 1) Ledger.empty parked).get (by decide)) :=
    (Option.some_get _).symm
  exact ⟨_, hrun, by decide, parked_iff_announced 1 (by decide) hrun⟩

/-- A worker stops in the middle of a step; the saga stays running, and its two recoveries fail. -/
def crashLoop : List Action :=
  [.deliver, .dispatch, .create, .begin, .crash,
    .select, .prepare, .notRecovered .running, .select, .prepare, .notRecovered .running]

/-- The second failure takes the saga out of the query, and no `SagaParked` says so. -/
theorem parked_unannounced :
    ∃ l, run (Ledger.step 1) Ledger.empty crashLoop = some l ∧
      (∃ s ∈ l.world.saga, s.status = .running ∧ s.selected 1 = false) ∧ l.world.job = .idle ∧
      l.announced = 0 ∧ ¬ ParkedIffAnnounced 1 l := by
  have hrun : run (Ledger.step 1) Ledger.empty crashLoop =
      some ((run (Ledger.step 1) Ledger.empty crashLoop).get (by decide)) := (Option.some_get _).symm
  exact ⟨_, hrun, by decide, by decide, by decide, by decide⟩

end Plantkeeper.Saga
