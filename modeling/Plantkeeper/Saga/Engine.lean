/-
The saga engine over `SqlAlchemySagaStorage`. For each step the engine logs that its `act` started,
runs it, stages the new context and the completed entry, and commits the run; a failed step is rolled
back and the completed ones compensated; a saga is resumed from its log and its last context. The
steps commit the unit of work themselves, inside `act` and `compensate`. A run over a request-bound
storage shares the unit of work, so either commit takes along what the other staged; an unbound one
has a session of its own. Every commit is a step, and the process may stop before any.
-/
import Mathlib.Data.List.Basic
import Plantkeeper.Lib.Run
import Plantkeeper.Saga.Storage

namespace Plantkeeper.Saga

variable {κ ω ε : Type}

/-! ## Steps and sagas -/

/-- How `act` or `compensate` ended, with the tables then: it returned without a commit, it committed
the unit of work, or it raised. -/
inductive Outcome (ω : Type)
  | returned (t : ω)
  | committed (t : ω)
  | raised (t : ω)

def Outcome.tables : Outcome ω → ω
  | .returned t | .committed t | .raised t => t

def Outcome.ok : Outcome ω → Bool
  | .returned _ | .committed _ => true
  | .raised _ => false

/-- A `SagaStepHandler` over contexts `κ` and tables `ω`. The number tells which of its database calls
fails, if one does; the context is changed in place, also by a step that raises. -/
structure Handler (κ ω : Type) where
  act : κ → ω → Option ℕ → κ × Outcome ω
  compensate : κ → ω → Option ℕ → κ × Outcome ω

/-- The steps of a process, the unit of work they share, and what others do to the tables meanwhile.
`commit` makes durable what is staged and publishes what is tracked, `rollback` drops what is staged,
and `renew` is the fresh unit of work of another request. -/
structure Process (κ ω ε : Type) where
  steps : List (Handler κ ω)
  commit : ω → ω
  rollback : ω → ω
  renew : ω → ω
  environment : ε → ω → ω

/-! ## The storage -/

inductive StepAction
  | act
  | compensate
  deriving DecidableEq, Repr

inductive SagaStepStatus
  | started
  | completed
  | failed
  deriving DecidableEq, Repr

/-- A row of `write_shared.saga_log`. -/
structure LogEntry where
  stepNo : ℕ
  action : StepAction
  status : SagaStepStatus
  deriving DecidableEq, Repr

/-- The saga's row in `saga_state` and its rows in `saga_log`. -/
structure Execution (κ : Type) where
  status : SagaStatus
  context : κ
  log : List LogEntry

/-- The step's `act` is logged as completed: the engine skips it from then on. -/
def Execution.completed (x : Execution κ) (k : ℕ) : Prop := ⟨k, .act, .completed⟩ ∈ x.log

instance (x : Execution κ) (k : ℕ) : Decidable (x.completed k) :=
  inferInstanceAs (Decidable (_ ∈ x.log))

/-! ## Runs -/

/-- Where the engine is: at rest; before a step; between the step's own commit and its checkpoint;
with a step that raised; before the compensation of the steps that are left; and between a
compensation's commit and its log entry. -/
inductive Pc
  | idle
  | ready (k : ℕ)
  | acted (k : ℕ)
  | raised
  | compensating (todo : List ℕ)
  | compensated (k : ℕ) (todo : List ℕ)
  deriving DecidableEq, Repr

structure Engine (κ ω : Type) where
  tables : ω
  stored : Execution κ
  staged : List LogEntry
  context : κ
  bound : Bool
  pc : Pc

/-- The saga's row is created and running, and nothing was done. -/
def Engine.start (c : κ) (t : ω) : Engine κ ω :=
  { tables := t, stored := ⟨.running, c, []⟩, staged := [], context := c, bound := true, pc := .idle }

inductive EngineAction (ε : Type)
  | resume (bound : Bool) (todo : List ℕ)
  | skip
  | act (fault : Option ℕ)
  | checkpoint (ok : Bool)
  | complete
  | recordFailure (todo : List ℕ)
  | compensate (fault : Option ℕ)
  | checkpointCompensation
  | fail
  | crash
  | retry
  | environment (e : ε)

namespace Engine

/-- The entries staged so far and some more are stored. -/
def store (w : Engine κ ω) (entries : List LogEntry) : Engine κ ω :=
  { w with stored := { w.stored with log := w.stored.log ++ w.staged ++ entries }, staged := [] }

def setStatus (w : Engine κ ω) (status : SagaStatus) : Engine κ ω :=
  { w with stored := { w.stored with status := status } }

/-- The run's `commit`, of the unit of work or of the run's own session. -/
def commitRun (p : Process κ ω ε) (w : Engine κ ω) (entries : List LogEntry) : Engine κ ω :=
  { w.store entries with tables := if w.bound then p.commit w.tables else w.tables }

/-- The request ends, and its unit of work with it. -/
def close (p : Process κ ω ε) (w : Engine κ ω) : Engine κ ω :=
  { w with tables := p.renew w.tables, staged := [], pc := .idle }

end Engine

/-- `act` of one step, logged as started. The commit of a step stores the entry of a bound run; a bound
run rolls back what a step that raised left staged. -/
def runAct (p : Process κ ω ε) (w : Engine κ ω) (k : ℕ) (h : Handler κ ω) (fault : Option ℕ) : Engine κ ω :=
  let started : LogEntry := ⟨k, .act, .started⟩
  match h.act w.context w.tables fault with
  | (c, .returned t) => { w with tables := t, staged := w.staged ++ [started], context := c, pc := .acted k }
  | (c, .committed t) =>
    if w.bound then { w.store [started] with tables := t, context := c, pc := .acted k }
    else { w with tables := t, staged := w.staged ++ [started], context := c, pc := .acted k }
  | (c, .raised t) =>
    { w with tables := if w.bound then p.rollback t else t, staged := [], context := c, pc := .raised }

/-- `compensate` of one step. One that raises is logged as failed, and the next one follows. -/
def runCompensate (p : Process κ ω ε) (w : Engine κ ω) (k : ℕ) (todo : List ℕ) (h : Handler κ ω)
    (fault : Option ℕ) : Engine κ ω :=
  let started : LogEntry := ⟨k, .compensate, .started⟩
  match h.compensate w.context w.tables fault with
  | (c, .returned t) =>
    { w with tables := t, staged := w.staged ++ [started], context := c, pc := .compensated k todo }
  | (c, .committed t) =>
    if w.bound then { w.store [started] with tables := t, context := c, pc := .compensated k todo }
    else { w with tables := t, staged := w.staged ++ [started], context := c, pc := .compensated k todo }
  | (c, .raised t) =>
    { Engine.commitRun p { w with tables := t } [started, ⟨k, .compensate, .failed⟩] with
      context := c, pc := .compensating todo }

/-- One step of the engine, of the recovery job (`retry`, `resume`), or of the others. The steps to
compensate are among the completed ones; which of them the engine takes is left to it. -/
def engineStep (p : Process κ ω ε) (w : Engine κ ω) : EngineAction ε → Option (Engine κ ω)
  | .resume bound todo =>
    match w.pc, w.stored.status with
    | .idle, .running => some { w with context := w.stored.context, bound := bound, pc := .ready 0 }
    | .idle, .compensating =>
      if ∀ k ∈ todo, w.stored.completed k then
        some { w with context := w.stored.context, bound := bound, pc := .compensating todo }
      else none
    | _, _ => none
  | .skip =>
    match w.pc with
    | .ready k => if w.stored.completed k then some { w with pc := .ready (k + 1) } else none
    | _ => none
  | .act fault =>
    match w.pc with
    | .ready k =>
      match p.steps[k]? with
      | some h => if w.stored.completed k then none else some (runAct p w k h fault)
      | none => none
    | _ => none
  | .checkpoint ok =>
    match w.pc with
    | .acted k =>
      if ok then
        let w' := w.commitRun p [⟨k, .act, .completed⟩]
        some { w' with stored := { w'.stored with context := w.context }, pc := .ready (k + 1) }
      else some { w with staged := [], pc := .raised }
    | _ => none
  | .complete =>
    match w.pc with
    | .ready k =>
      if k = p.steps.length then some (((w.commitRun p []).setStatus .completed).close p) else none
    | _ => none
  | .recordFailure todo =>
    match w.pc with
    | .raised =>
      if ∀ k ∈ todo, w.stored.completed k then
        some { (w.commitRun p []).setStatus .compensating with pc := .compensating todo }
      else none
    | _ => none
  | .compensate fault =>
    match w.pc with
    | .compensating (k :: todo) =>
      match p.steps[k]? with
      | some h => some (runCompensate p w k todo h fault)
      | none => none
    | _ => none
  | .checkpointCompensation =>
    match w.pc with
    | .compensated k todo =>
      some { w.commitRun p [⟨k, .compensate, .completed⟩] with pc := .compensating todo }
    | _ => none
  | .fail =>
    match w.pc with
    | .compensating [] => some (((w.commitRun p []).setStatus .failed).close p)
    | _ => none
  | .crash => some (w.close p)
  | .retry =>
    match w.pc, w.stored.status with
    | .idle, .failed => some (w.setStatus .running)
    | _, _ => none
  | .environment e => some { w with tables := p.environment e w.tables }

/-! ## What a step can do -/

/-- The steps of the engine, one constructor each, with what holds before them. -/
inductive EngineMove (p : Process κ ω ε) (w : Engine κ ω) : EngineAction ε → Engine κ ω → Prop
  | forward {bound : Bool} {todo : List ℕ} (hpc : w.pc = .idle) (hs : w.stored.status = .running) :
      EngineMove p w (.resume bound todo) { w with context := w.stored.context, bound := bound, pc := .ready 0 }
  | backward {bound : Bool} {todo : List ℕ} (hpc : w.pc = .idle) (hs : w.stored.status = .compensating) :
      EngineMove p w (.resume bound todo)
        { w with context := w.stored.context, bound := bound, pc := .compensating todo }
  | skip {k : ℕ} (hpc : w.pc = .ready k) (hc : w.stored.completed k) :
      EngineMove p w .skip { w with pc := .ready (k + 1) }
  | act {k : ℕ} {h : Handler κ ω} {fault : Option ℕ} (hpc : w.pc = .ready k) (hk : p.steps[k]? = some h)
      (hc : ¬ w.stored.completed k) : EngineMove p w (.act fault) (runAct p w k h fault)
  | checkpoint {k : ℕ} (hpc : w.pc = .acted k) :
      EngineMove p w (.checkpoint true) { w.commitRun p [⟨k, .act, .completed⟩] with
        stored := { (w.commitRun p [⟨k, .act, .completed⟩]).stored with context := w.context }, pc := .ready (k + 1) }
  | checkpointRaised {k : ℕ} (hpc : w.pc = .acted k) :
      EngineMove p w (.checkpoint false) { w with staged := [], pc := .raised }
  | complete {k : ℕ} (hpc : w.pc = .ready k) (hk : k = p.steps.length) :
      EngineMove p w .complete (((w.commitRun p []).setStatus .completed).close p)
  | recordFailure {todo : List ℕ} (hpc : w.pc = .raised) :
      EngineMove p w (.recordFailure todo)
        { (w.commitRun p []).setStatus .compensating with pc := .compensating todo }
  | compensate {k : ℕ} {todo : List ℕ} {h : Handler κ ω} {fault : Option ℕ}
      (hpc : w.pc = .compensating (k :: todo)) (hk : p.steps[k]? = some h) :
      EngineMove p w (.compensate fault) (runCompensate p w k todo h fault)
  | checkpointCompensation {k : ℕ} {todo : List ℕ} (hpc : w.pc = .compensated k todo) :
      EngineMove p w .checkpointCompensation
        { w.commitRun p [⟨k, .compensate, .completed⟩] with pc := .compensating todo }
  | fail (hpc : w.pc = .compensating []) :
      EngineMove p w .fail (((w.commitRun p []).setStatus .failed).close p)
  | crash : EngineMove p w .crash (w.close p)
  | retry (hpc : w.pc = .idle) (hs : w.stored.status = .failed) : EngineMove p w .retry (w.setStatus .running)
  | environment (e : ε) : EngineMove p w (.environment e) { w with tables := p.environment e w.tables }

variable {p : Process κ ω ε} {w w' : Engine κ ω}

theorem engineStep_move {a : EngineAction ε} (h : engineStep p w a = some w') : EngineMove p w a w' := by
  cases a with
  | resume bound todo =>
    simp only [engineStep] at h
    split at h
    · rename_i hpc hs
      cases h; exact .forward hpc hs
    · rename_i hpc hs
      split at h
      · cases h; exact .backward hpc hs
      · cases h
    · cases h
  | skip =>
    simp only [engineStep] at h
    split at h
    · rename_i k hpc
      split at h
      · rename_i hc
        cases h; exact .skip hpc hc
      · cases h
    · cases h
  | act fault =>
    simp only [engineStep] at h
    split at h
    · rename_i k hpc
      split at h
      · rename_i hh hk
        split at h
        · cases h
        · rename_i hc
          cases h; exact .act hpc hk hc
      · cases h
    · cases h
  | checkpoint ok =>
    simp only [engineStep] at h
    split at h
    · rename_i k hpc
      cases ok with
      | true => cases h; exact .checkpoint hpc
      | false => cases h; exact .checkpointRaised hpc
    · cases h
  | complete =>
    simp only [engineStep] at h
    split at h
    · rename_i k hpc
      split at h
      · rename_i hk
        cases h; exact .complete hpc hk
      · cases h
    · cases h
  | recordFailure todo =>
    simp only [engineStep] at h
    split at h
    · rename_i hpc
      split at h
      · cases h; exact .recordFailure hpc
      · cases h
    · cases h
  | compensate fault =>
    simp only [engineStep] at h
    split at h
    · rename_i k todo hpc
      split at h
      · rename_i hh hk
        cases h; exact .compensate hpc hk
      · cases h
    · cases h
  | checkpointCompensation =>
    simp only [engineStep] at h
    split at h
    · rename_i k todo hpc
      cases h; exact .checkpointCompensation hpc
    · cases h
  | fail =>
    simp only [engineStep] at h
    split at h
    · rename_i hpc
      cases h; exact .fail hpc
    · cases h
  | crash => cases h; exact .crash
  | retry =>
    simp only [engineStep] at h
    split at h
    · rename_i hpc hs
      cases h; exact .retry hpc hs
    · cases h
  | environment e => cases h; exact .environment e

/-! ## What is stored -/

/-- No entry that is only staged counts as completed. -/
def Engine.Started (w : Engine κ ω) : Prop := ∀ e ∈ w.staged, e.status = .started

/-- Nothing the engine reads back changed: the persisted context and which steps are completed. -/
structure Kept (w w' : Engine κ ω) : Prop where
  context : w'.stored.context = w.stored.context
  completed : ∀ j, w'.stored.completed j ↔ w.stored.completed j

namespace Kept

theorem of_eq (h : w'.stored = w.stored) : Kept w w' := by
  constructor
  · rw [h]
  · intro j
    rw [h]

/-- Entries other than a completed `act` are no progress. -/
theorem of_store {entries : List LogEntry} (hs : w.Started)
    (he : ∀ e ∈ entries, e.action = .compensate ∨ e.status ≠ .completed) : Kept w (w.store entries) := by
  constructor
  · rfl
  · intro j
    simp only [Execution.completed, Engine.store, List.mem_append]
    constructor
    · rintro ((h | h) | h)
      · exact h
      · cases hs _ h
      · rcases he _ h with h | h
        · cases h
        · exact absurd rfl h
    · exact fun h => .inl (.inl h)

theorem trans {w₁ w₂ w₃ : Engine κ ω} (h : Kept w₁ w₂) (h' : Kept w₂ w₃) : Kept w₁ w₃ :=
  ⟨h'.context.trans h.context, fun j => (h'.completed j).trans (h.completed j)⟩

end Kept

theorem started_nil (h : w.staged = []) : w.Started := by
  intro e he
  rw [h] at he; cases he

theorem commitRun_kept (hs : w.Started) {entries : List LogEntry} (he : ∀ e ∈ entries, e.action = .compensate) :
    Kept w (w.commitRun p entries) :=
  (Kept.of_store hs fun e h => .inl (he e h)).trans (.of_eq rfl)

/-- A step that returned: its context and tables are the engine's, and nothing is completed yet. -/
theorem runAct_ok {k : ℕ} {h : Handler κ ω} {fault : Option ℕ} (hs : w.Started)
    (hok : (h.act w.context w.tables fault).2.ok = true) :
    (runAct p w k h fault).tables = (h.act w.context w.tables fault).2.tables ∧
      (runAct p w k h fault).context = (h.act w.context w.tables fault).1 ∧ (runAct p w k h fault).pc = .acted k ∧
      (runAct p w k h fault).stored.status = w.stored.status ∧ (runAct p w k h fault).Started ∧
      Kept w (runAct p w k h fault) := by
  have staged : ∀ e ∈ w.staged ++ [⟨k, .act, .started⟩], e.status = .started := by
    intro e he
    rcases List.mem_append.1 he with he | he
    · exact hs e he
    · cases List.mem_singleton.1 he; rfl
  unfold runAct
  split
  · rename_i c t ho
    rw [ho]
    exact ⟨rfl, rfl, rfl, rfl, staged, .of_eq rfl⟩
  · rename_i c t ho
    rw [ho]
    split
    · refine ⟨rfl, rfl, rfl, rfl, fun e he => (List.not_mem_nil he).elim, ?_⟩
      have hstore : Kept w (w.store [⟨k, .act, .started⟩]) := by
        apply Kept.of_store hs
        intro e he
        cases List.mem_singleton.1 he
        right; simp
      exact hstore.trans (.of_eq rfl)
    · exact ⟨rfl, rfl, rfl, rfl, staged, .of_eq rfl⟩
  · rename_i c t ho
    rw [ho] at hok
    cases hok

/-- A step that raised: nothing is stored, and a bound run was rolled back. -/
theorem runAct_raised {k : ℕ} {h : Handler κ ω} {fault : Option ℕ}
    (hok : (h.act w.context w.tables fault).2.ok = false) :
    runAct p w k h fault = { w with
      tables := if w.bound then p.rollback (h.act w.context w.tables fault).2.tables
        else (h.act w.context w.tables fault).2.tables
      staged := [], context := (h.act w.context w.tables fault).1, pc := .raised } := by
  unfold runAct
  split
  · rename_i c t ho
    rw [ho] at hok
    cases hok
  · rename_i c t ho
    rw [ho] at hok
    cases hok
  · rename_i c t ho
    rw [ho]; rfl

/-- A compensation: the tables as it left them, or as the commit of its failure did. -/
theorem runCompensate_kept (k : ℕ) (todo : List ℕ) (h : Handler κ ω) (fault : Option ℕ) (hs : w.Started) :
    ((runCompensate p w k todo h fault).tables = (h.compensate w.context w.tables fault).2.tables ∨
        (runCompensate p w k todo h fault).tables = p.commit (h.compensate w.context w.tables fault).2.tables) ∧
      (runCompensate p w k todo h fault).context = (h.compensate w.context w.tables fault).1 ∧
      ((runCompensate p w k todo h fault).pc = .compensated k todo ∨
        (runCompensate p w k todo h fault).pc = .compensating todo) ∧
      (runCompensate p w k todo h fault).stored.status = w.stored.status ∧
      (runCompensate p w k todo h fault).Started ∧ Kept w (runCompensate p w k todo h fault) := by
  have staged : ∀ e ∈ w.staged ++ [⟨k, .compensate, .started⟩], e.status = .started := by
    intro e he
    rcases List.mem_append.1 he with he | he
    · exact hs e he
    · cases List.mem_singleton.1 he; rfl
  have stored : ∀ entries : List LogEntry, (∀ e ∈ entries, e.action = .compensate) → Kept w (w.store entries) :=
    fun entries he => .of_store hs fun e h => .inl (he e h)
  unfold runCompensate
  split
  · rename_i c t ho
    rw [ho]
    exact ⟨.inl rfl, rfl, .inl rfl, rfl, staged, .of_eq rfl⟩
  · rename_i c t ho
    rw [ho]
    split
    · exact ⟨.inl rfl, rfl, .inl rfl, rfl, fun e he => (List.not_mem_nil he).elim,
        (stored [⟨k, .compensate, .started⟩] (by simp)).trans (.of_eq rfl)⟩
    · exact ⟨.inl rfl, rfl, .inl rfl, rfl, staged, .of_eq rfl⟩
  · rename_i c t ho
    rw [ho]
    refine ⟨?_, rfl, .inr rfl, rfl, fun e he => (List.not_mem_nil he).elim,
      (stored [⟨k, .compensate, .started⟩, ⟨k, .compensate, .failed⟩] (by simp)).trans (.of_eq rfl)⟩
    show (if w.bound then p.commit t else t) = t ∨ (if w.bound then p.commit t else t) = p.commit t
    split
    · exact .inr rfl
    · exact .inl rfl

/-! ## Where the engine can be -/

/-- The status goes with the phase, and a step is reached only over the completed ones. -/
def AtPhase (w : Engine κ ω) : Prop :=
  match w.pc with
  | .idle => True
  | .ready k | .acted k => w.stored.status = .running ∧ ∀ j < k, w.stored.completed j
  | .raised => w.stored.status = .running
  | .compensating _ | .compensated _ _ => w.stored.status = .compensating

/-- Holds in every run: the phase, and that a completed saga has all its steps completed. -/
structure Placed (p : Process κ ω ε) (w : Engine κ ω) : Prop where
  started : w.Started
  phase : AtPhase w
  all : w.stored.status = .completed → ∀ j < p.steps.length, w.stored.completed j

theorem placed_start (c : κ) (t : ω) : Placed p (Engine.start c t) :=
  ⟨started_nil rfl, trivial, nofun⟩

theorem Placed.running {k : ℕ} (hp : Placed p w) (hpc : w.pc = .ready k ∨ w.pc = .acted k) :
    w.stored.status = .running := by
  have hat := hp.phase
  unfold AtPhase at hat
  rcases hpc with hpc | hpc <;> rw [hpc] at hat <;> exact hat.1

theorem Placed.compensating {k : ℕ} {todo : List ℕ} (hp : Placed p w)
    (hpc : w.pc = .compensating todo ∨ w.pc = .compensated k todo) : w.stored.status = .compensating := by
  have hat := hp.phase
  unfold AtPhase at hat
  rcases hpc with hpc | hpc <;> rw [hpc] at hat <;> exact hat

theorem Kept.below {k : ℕ} (h : Kept w w') (hb : ∀ j < k, w.stored.completed j) : ∀ j < k, w'.stored.completed j :=
  fun j hj => (h.completed j).2 (hb j hj)

/-- One more completed step. -/
theorem below_succ {x : Execution κ} {k : ℕ} (hb : ∀ j < k, x.completed j) (hk : x.completed k) :
    ∀ j < k + 1, x.completed j := by
  intro j hj
  rcases Nat.lt_or_eq_of_le (Nat.lt_succ_iff.1 hj) with h | rfl
  · exact hb j h
  · exact hk

theorem placed_step {a : EngineAction ε} (hp : Placed p w) (h : engineStep p w a = some w') : Placed p w' := by
  have hat := hp.phase
  unfold AtPhase at hat
  cases engineStep_move h with
  | forward hpc hs => exact ⟨hp.started, ⟨hs, fun j hj => absurd hj (Nat.not_lt_zero j)⟩, hp.all⟩
  | backward hpc hs => exact ⟨hp.started, hs, hp.all⟩
  | skip hpc hc =>
    rw [hpc] at hat
    exact ⟨hp.started, ⟨hat.1, below_succ hat.2 hc⟩, hp.all⟩
  | @act k hd fault hpc hk hc =>
    rw [hpc] at hat
    cases hres : (hd.act w.context w.tables fault).2.ok with
    | true =>
      obtain ⟨-, -, hpc', hs, hst, hkept⟩ := runAct_ok (p := p) (k := k) hp.started hres
      refine ⟨hst, ?_, fun hc => ?_⟩
      · unfold AtPhase
        rw [hpc']
        exact ⟨hs.trans hat.1, hkept.below hat.2⟩
      · rw [hs, hat.1] at hc; cases hc
    | false =>
      rw [runAct_raised hres]
      exact ⟨started_nil rfl, hat.1, hp.all⟩
  | @checkpoint k hpc =>
    rw [hpc] at hat
    have hkeep : ∀ j, w.stored.completed j → (w.commitRun p [⟨k, .act, .completed⟩]).stored.completed j :=
      fun j hj => List.mem_append_left _ (List.mem_append_left _ hj)
    refine ⟨started_nil rfl, ⟨hat.1, below_succ (fun j hj => hkeep j (hat.2 j hj)) ?_⟩, fun hc => ?_⟩
    · exact List.mem_append_right _ (List.mem_singleton_self _)
    · have hrun : w.stored.status = .completed := hc
      rw [hat.1] at hrun; cases hrun
  | checkpointRaised hpc =>
    rw [hpc] at hat
    exact ⟨started_nil rfl, hat.1, hp.all⟩
  | complete hpc hk =>
    rw [hpc, hk] at hat
    exact ⟨started_nil rfl, trivial, fun _ => (commitRun_kept (p := p) hp.started (by simp)).below hat.2⟩
  | recordFailure hpc => exact ⟨started_nil rfl, rfl, nofun⟩
  | @compensate k todo hd fault hpc hk =>
    rw [hpc] at hat
    obtain ⟨-, -, hpc', hs, hst, -⟩ := runCompensate_kept (p := p) k todo hd fault hp.started
    refine ⟨hst, ?_, fun hc => ?_⟩
    · unfold AtPhase
      rcases hpc' with hpc' | hpc' <;> rw [hpc'] <;> exact hs.trans hat
    · rw [hs, hat] at hc; cases hc
  | checkpointCompensation hpc =>
    rw [hpc] at hat
    refine ⟨started_nil rfl, hat, fun hc => ?_⟩
    have hrun : w.stored.status = .completed := hc
    rw [hat] at hrun; cases hrun
  | fail hpc => exact ⟨started_nil rfl, trivial, nofun⟩
  | crash => exact ⟨started_nil rfl, trivial, hp.all⟩
  | retry hpc hs =>
    refine ⟨hp.started, ?_, nofun⟩
    unfold AtPhase Engine.setStatus
    rw [hpc]; trivial
  | environment e => exact ⟨hp.started, hp.phase, hp.all⟩

end Plantkeeper.Saga
