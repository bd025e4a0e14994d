/-
The row of one saga in `write_shared.saga_state` and the statements of `SqlAlchemySagaStorage` on
it, the recovery query of `SagaRecoveryJob`, and the lifecycle events a saga appends to the outbox.
Each statement is called by its own commit; the context column is the engine's and is left out.
-/
import Mathlib.Data.Nat.Notation

namespace Plantkeeper.Saga

/-! ## The row -/

/-- The engine's statuses. -/
inductive SagaStatus
  | pending
  | running
  | compensating
  | completed
  | failed
  deriving DecidableEq, Repr

structure SagaState where
  status : SagaStatus
  version : ℕ
  recoveryAttempts : ℕ
  deriving DecidableEq, Repr

/-- `create_saga`. -/
def createSaga : SagaState := ⟨.pending, 1, 0⟩

namespace SagaState

/-- `update_status`. -/
def updateStatus (s : SagaState) (status : SagaStatus) : SagaState :=
  { s with status := status, version := s.version + 1 }

/-- `increment_recovery_attempts`, with the status a failed recovery leaves. -/
def incrementRecoveryAttempts (s : SagaState) (newStatus : SagaStatus) : SagaState :=
  { status := newStatus, version := s.version + 1, recoveryAttempts := s.recoveryAttempts + 1 }

/-- `set_recovery_attempts`. -/
def setRecoveryAttempts (s : SagaState) (attempts : ℕ) : SagaState :=
  { s with recoveryAttempts := attempts, version := s.version + 1 }

/-- `reset_for_retry`. -/
def resetForRetry (s : SagaState) : SagaState :=
  { status := .running, version := s.version + 1, recoveryAttempts := 0 }

end SagaState

/-! ## The recovery query -/

/-- `CRASHED_STATUSES + RETRYABLE_STATUSES`. -/
def SagaStatus.recoverable : SagaStatus → Bool
  | .running | .compensating | .failed => true
  | .pending | .completed => false

def PARK_MARGIN : ℕ := 1

/-- The rows `get_sagas_for_recovery` selects for the job, whose limit is the budget and the margin. -/
def SagaState.selected (maxAttempts : ℕ) (s : SagaState) : Bool :=
  s.status.recoverable && s.recoveryAttempts < maxAttempts + PARK_MARGIN

/-! ## Lifecycle events -/

inductive SagaEvent
  | sagaStarted
  | sagaCompleted
  | sagaFailed
  | sagaCompensated
  | sagaRetrying (attempt : ℕ)
  | sagaParked (attempts : ℕ)
  deriving DecidableEq, Repr

/-- The events that tell an operator the process stopped. -/
def SagaEvent.stopped : SagaEvent → Bool
  | .sagaFailed => true
  | .sagaParked _ => true
  | _ => false

end Plantkeeper.Saga
