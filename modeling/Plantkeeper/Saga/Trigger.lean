/-
One delivery of a saga trigger: `consume_once`, `Saga._dispatch` and `_record_failure`, the engine
run behind them, and `SagaRecoveryJob`. Every commit is a step; the worker and the job may stop
after any of them. The claim of the delivery is staged first and becomes durable with whatever the
worker commits next, which is `SagaStarted`, before the engine has written its row.
-/
import Mathlib.Data.List.Basic
import Plantkeeper.Lib.Run
import Plantkeeper.Saga.Storage

namespace Plantkeeper.Saga

/-! ## The worker and the job -/

/-- Where the delivering worker is: nothing in hand; the claim staged; `SagaStarted` committed; the
row created; the row set running; compensating; the engine done; or the engine raised and
`_record_failure` to come. -/
inductive Delivery
  | idle
  | claimed
  | started
  | created
  | running
  | compensating
  | completed
  | raised
  deriving DecidableEq, Repr

/-- Where the recovery job is with the saga: `_prepare_retry`; the retry announced; `recover_saga`;
`_park` before its counter update, and between that and `SagaParked`. -/
inductive Recovery
  | idle
  | preparing
  | retrying
  | recovering
  | parking (attempt : ℕ)
  | announcing (attempt : ℕ)
  deriving DecidableEq, Repr

structure World where
  processed : Bool
  saga : Option SagaState
  outbox : List SagaEvent
  worker : Delivery
  job : Recovery
  deriving DecidableEq

def World.empty : World := ⟨false, none, [], .idle, .idle⟩

inductive Action
  | deliver
  | dispatch
  | create
  | begin
  | checkpoint
  | compensate
  | fail
  | complete
  | finish
  | raise
  | recordFailure (compensated : Bool)
  | crash
  | select
  | prepare
  | clearStatus
  | recovered
  | notRecovered (status : SagaStatus)
  | pushCounter
  | announceParked
  | stopJob
  | reset
  deriving DecidableEq

namespace World

/-- The worker commits its unit of work, with the claim in it. -/
def commit (w : World) (saga : Option SagaState) (events : List SagaEvent) (worker : Delivery) : World :=
  { w with processed := true, saga := saga, outbox := w.outbox ++ events, worker := worker }

/-- The engine sets the saga's status in the worker's run and commits it. -/
def commitStatus (w : World) (s : SagaState) (status : SagaStatus) (worker : Delivery) : World :=
  w.commit (some (s.updateStatus status)) [] worker

end World

/-- `_dispatch` up to the engine: a completed saga is left alone and its claim committed; an unknown
one is announced, and the announcement committed with the claim. -/
def dispatch (w : World) : World :=
  match w.saga with
  | none => w.commit none [.sagaStarted] .started
  | some s => if s.status = .completed then w.commit w.saga [] .idle else { w with worker := .running }

/-- `_prepare_retry`: a crashed saga is recovered as it is, a failed one is retried within the budget
or parked. -/
def prepare (maxAttempts : ℕ) (w : World) (s : SagaState) : World :=
  if s.status ≠ .failed then { w with job := .recovering }
  else if s.recoveryAttempts ≥ maxAttempts then { w with job := .parking s.recoveryAttempts }
  else { w with outbox := w.outbox ++ [.sagaRetrying (s.recoveryAttempts + 1)], job := .retrying }

/-- The engine's steps, in the worker's run. A redelivery stops at the claim. -/
def workerStep (w : World) : Action → Option World
  | .deliver =>
    match w.worker with
    | .idle => some (if w.processed then w else { w with worker := .claimed })
    | _ => none
  | .dispatch => if w.worker = .claimed then some (dispatch w) else none
  | .create =>
    match w.worker, w.saga with
    | .started, none => some (w.commit (some createSaga) [] .created)
    | _, _ => none
  | .begin =>
    match w.worker, w.saga with
    | .created, some s => some (w.commitStatus s .running .running)
    | _, _ => none
  | .checkpoint =>
    match w.worker with
    | .running => some (w.commit w.saga [] .running)
    | .compensating => some (w.commit w.saga [] .compensating)
    | _ => none
  | .compensate =>
    match w.worker, w.saga with
    | .running, some s => some (w.commitStatus s .compensating .compensating)
    | _, _ => none
  | .fail =>
    match w.worker, w.saga with
    | .running, some s => some (w.commitStatus s .failed .raised)
    | .compensating, some s => some (w.commitStatus s .failed .raised)
    | _, _ => none
  | .complete =>
    match w.worker, w.saga with
    | .running, some s => some (w.commitStatus s .completed .completed)
    | _, _ => none
  | .finish => if w.worker = .completed then some (w.commit w.saga [.sagaCompleted] .idle) else none
  | .raise =>
    match w.worker with
    | .started | .created | .running | .compensating => some { w with worker := .raised }
    | _ => none
  | .recordFailure compensated =>
    if w.worker = .raised then
      some (w.commit w.saga (.sagaFailed :: if compensated then [.sagaCompensated] else []) .idle)
    else none
  | .crash => some { w with worker := .idle }
  | _ => none

/-- The recovery job's steps, and the operator's reset. A failed recovery counts, and leaves the saga
in any status a crash or a failure leaves. -/
def jobStep (maxAttempts : ℕ) (w : World) : Action → Option World
  | .select =>
    match w.job, w.saga with
    | .idle, some s => if s.selected maxAttempts then some { w with job := .preparing } else none
    | _, _ => none
  | .prepare =>
    match w.job, w.saga with
    | .preparing, some s => some (prepare maxAttempts w s)
    | _, _ => none
  | .clearStatus =>
    match w.job, w.saga with
    | .retrying, some s => some { w with saga := some (s.updateStatus .running), job := .recovering }
    | _, _ => none
  | .recovered =>
    match w.job, w.saga with
    | .recovering, some s => some { w with saga := some (s.updateStatus .completed), job := .idle }
    | _, _ => none
  | .notRecovered status =>
    match w.job, w.saga with
    | .recovering, some s =>
      if status.recoverable then some { w with saga := some (s.incrementRecoveryAttempts status), job := .idle }
      else none
    | _, _ => none
  | .pushCounter =>
    match w.job, w.saga with
    | .parking attempt, some s =>
      some { w with saga := some (s.setRecoveryAttempts (attempt + PARK_MARGIN)), job := .announcing attempt }
    | _, _ => none
  | .announceParked =>
    match w.job with
    | .announcing attempt => some { w with outbox := w.outbox ++ [.sagaParked attempt], job := .idle }
    | _ => none
  | .stopJob => some { w with job := .idle }
  | .reset => w.saga.map fun s => { w with saga := some s.resetForRetry }
  | _ => none

/-- One step of the worker or of the job. -/
def step (maxAttempts : ℕ) (w : World) (a : Action) : Option World :=
  match workerStep w a with
  | some w' => some w'
  | none => jobStep maxAttempts w a

end Plantkeeper.Saga
