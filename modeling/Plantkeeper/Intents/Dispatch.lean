/-
Recorded cross-context commands: the `saga_intents` table, the steps of the onboarding saga that
record and withdraw commands, and the dispatchers that execute them
(`SqlAlchemySagaIntentRepository`, `sagas/onboard.py`, `CommandDispatcher`, `commit_create` and the
four handlers behind it). Every commit is a step of its own: the claim, the handler's effect, and
the mark of the outcome; a dispatcher may crash between any two of them, a lease expire, another
dispatcher take the command over.
-/
import Mathlib.Data.List.Sort
import Plantkeeper.Domain.Care
import Plantkeeper.Domain.Notification
import Plantkeeper.Lib.Run
import Plantkeeper.Lib.Table

namespace Plantkeeper.Intents

open Plantkeeper.Table

/-! ## Recorded commands -/

/-- Where a recorded command is in its life. -/
inductive IntentStatus
  | pending
  | executed
  | failed
  | parked
  | cancelled
  deriving DecidableEq, Repr

/-- The idempotency key of a recorded command: the text `saga-intent:<saga>:<step>` names the pair. -/
structure IntentKey where
  sagaId : SagaId
  stepNo : ℕ
  deriving DecidableEq, Repr

def intentKey (sagaId : SagaId) (stepNo : ℕ) : IntentKey := ⟨sagaId, stepNo⟩

def stepCareSchedule : ℕ := 2
def stepNotification : ℕ := 3
def compensationStepOffset : ℕ := 1000

/-- A command's name and payload. -/
inductive Command
  | createCareSchedule (plantId : PlantId) (wateringInterval : Duration)
  | createOnboardingNotification (householdId : HouseholdId) (plantId : PlantId) (nextWateringAt : Instant)
      (notificationId : NotificationId)
  | deleteCareSchedule (plantId : PlantId)
  | deleteNotification (notificationId : NotificationId)
  deriving DecidableEq

/-- The row a command creates or deletes, by its table and primary key. -/
inductive Target
  | careSchedule (plantId : PlantId)
  | notification (notificationId : NotificationId)
  deriving DecidableEq

def Command.target : Command → Target
  | .createCareSchedule plantId _ => .careSchedule plantId
  | .createOnboardingNotification _ _ _ notificationId => .notification notificationId
  | .deleteCareSchedule plantId => .careSchedule plantId
  | .deleteNotification notificationId => .notification notificationId

def Command.isCreate : Command → Bool
  | .createCareSchedule .. => true
  | .createOnboardingNotification .. => true
  | _ => false

/-- What an execution ended with instead of an effect. -/
inductive Error
  | validation
  | idempotencyKeyConflict
  | concurrentWrite
  | database (text : String)
  deriving DecidableEq, Repr

/-- A row of `write_shared.saga_intents`. -/
structure Intent where
  id : ℕ
  sagaId : SagaId
  stepNo : ℕ
  command : Command
  status : IntentStatus
  attempts : ℕ
  idempotencyKey : IntentKey
  lastError : Option Error
  claimedAt : Option Instant
  executedAt : Option Instant
  deriving DecidableEq

/-- A claimed intent that still has to be executed. -/
structure IntentClaim where
  id : ℕ
  sagaId : SagaId
  command : Command
  attempts : ℕ
  idempotencyKey : IntentKey
  deriving DecidableEq

/-! ## The repository -/

/-- The row `record` inserts. -/
def Intent.fresh (id : ℕ) (sagaId : SagaId) (stepNo : ℕ) (command : Command) : Intent :=
  { id, sagaId, stepNo, command, status := .pending, attempts := 0, idempotencyKey := intentKey sagaId stepNo,
    lastError := none, claimedAt := none, executedAt := none }

/-- `record`, committed: a new pending row, or `none` when the key exists already (the commit then
raises and nothing is stored). -/
def record (rows : List Intent) (id : ℕ) (sagaId : SagaId) (stepNo : ℕ) (command : Command) :
    Option (List Intent) :=
  if id ∈ rows.map (·.id) then none
  else if intentKey sagaId stepNo ∈ rows.map (·.idempotencyKey) then none
  else some (rows ++ [.fresh id sagaId stepNo command])

/-- `_lease_expired`. -/
def Intent.leaseExpired (leaseSeconds : ℕ) (now : Instant) (r : Intent) : Bool :=
  match r.claimedAt with
  | none => true
  | some c => now - c > seconds leaseSeconds

/-- Both `pending` and `failed` are claimable. -/
def Intent.retryable (r : Intent) : Bool := r.status == .pending || r.status == .failed

def Intent.toClaim (r : Intent) : IntentClaim := ⟨r.id, r.sagaId, r.command, r.attempts, r.idempotencyKey⟩

/-- The rows `claim_pending` selects: retryable, unleased, not locked by another transaction, oldest
first, up to the limit. -/
def claimable (rows : List Intent) (skipped : List ℕ) (now : Instant) (limit leaseSeconds : ℕ) : List Intent :=
  ((rows.filter fun r => r.retryable && r.leaseExpired leaseSeconds now && decide (r.id ∉ skipped)).insertionSort
    fun a b : Intent => a.id ≤ b.id).take limit

/-- The `UPDATE` of `claim_pending`: the lease is set, the status stays. -/
def markClaimed (rows : List Intent) (ids : List ℕ) (now : Instant) : List Intent :=
  update (fun r => decide (r.id ∈ ids) && r.retryable) (fun r => { r with claimedAt := some now }) rows

/-- The row `cancel_pending` matches: the status alone decides, the lease is not looked at. -/
def cancellable (key : IntentKey) (r : Intent) : Bool :=
  r.idempotencyKey == key && r.status == .pending

/-- `cancel_pending`: the new table, and whether a row was cancelled. -/
def cancelPending (rows : List Intent) (key : IntentKey) : List Intent × Bool :=
  (update (cancellable key) (fun r => { r with status := .cancelled, claimedAt := none }) rows,
    rows.any (cancellable key))

/-- `mark_executed`: by id alone, whatever the status. -/
def markExecuted (rows : List Intent) (id : ℕ) (now : Instant) : List Intent :=
  update (fun r => r.id == id)
    (fun r => { r with status := .executed, executedAt := some now, lastError := none, claimedAt := none }) rows

/-- `park`. -/
def park (rows : List Intent) (id : ℕ) (error : Error) : List Intent :=
  update (fun r => r.id == id) (fun r => { r with status := .parked, lastError := some error, claimedAt := none }) rows

/-- The first `UPDATE` of `mark_failed`: the failure is counted, the status stays as it is. -/
def countFailure (rows : List Intent) (id : ℕ) (error : Error) : List Intent :=
  update (fun r => r.id == id)
    (fun r => { r with attempts := r.attempts + 1, lastError := some error, claimedAt := none }) rows

/-- `mark_failed`: the failure is counted, and the intent parked once the budget is out. `none` is
the `ValueError` of an intent that does not exist. -/
def markFailed (rows : List Intent) (id : ℕ) (error : Error) (maxAttempts : ℕ) :
    Option (List Intent × IntentStatus) :=
  match (countFailure rows id error).find? (fun r => r.id == id) with
  | none => none
  | some r =>
    if r.attempts ≥ maxAttempts then some (park (countFailure rows id error) id error, .parked)
    else some (countFailure rows id error, .failed)

/-! ## The handlers -/

/-- The row a create handler stores, and the view it answers with. -/
inductive Created
  | careSchedule (s : CareSchedule)
  | notification (n : Notification)
  deriving DecidableEq

/-- A stored row, with the recorded command whose handler inserted it. -/
structure Stored where
  origin : IntentKey
  row : Created
  deriving DecidableEq

/-- The event a create handler's aggregate recorded. -/
inductive Event
  | careScheduleCreated (s : CareSchedule) (occurredAt : Instant)
  | notificationCreated (n : Notification) (occurredAt : Instant)
  deriving DecidableEq

/-- The response stored under an idempotency key. The request fingerprint is a digest of the
command's content, so it is the content that is compared. -/
structure IdempotencyRecord where
  requestHash : Command
  statusCode : ℕ
  response : Created
  createdAt : Instant
  deriving DecidableEq

def CREATED : ℕ := 201

/-- `CreateCareScheduleHandler._create` and `CreateOnboardingNotificationHandler._create`: the row to
insert and the event to publish. A delete command creates nothing. -/
def operation (now : Instant) : Command → Except Error (Created × Event)
  | .createCareSchedule plantId wateringInterval =>
    match WateringInterval.ofDuration wateringInterval with
    | none => .error .validation
    | some interval =>
      match CareSchedule.create plantId interval (now + wateringInterval) now with
      | .error _ => .error .validation
      | .ok (s, _) => .ok (.careSchedule s, .careScheduleCreated s now)
  | .createOnboardingNotification householdId plantId nextWateringAt notificationId =>
    let n := Notification.create notificationId householdId .plantOnboarded now
      [("plant_id", .uuid plantId), ("next_watering_at", .instant nextWateringAt)]
    .ok (.notification n, .notificationCreated n now)
  | _ => .error .validation

/-- `_replayed`: the stored response, unless the key was used for other content. -/
def replayed (stored : IdempotencyRecord) (command : Command) : Except Error Created :=
  if stored.requestHash ≠ command then .error .idempotencyKeyConflict else .ok stored.response

/-! ## The dispatchers -/

/-- Where `_execute` is with the first claim: not begun; `commit_create` found no stored response
and staged its write; its commit hit a unique constraint and was rolled back; the handler returned;
or an exception was caught and the work rolled back. -/
inductive Phase
  | ready
  | staged (row : Created) (event : Event)
  | conflict
  | handled
  | failed (error : Error)
  deriving DecidableEq

/-- One dispatcher's batch; an idle dispatcher holds no claim. -/
structure Dispatcher where
  claims : List IntentClaim
  phase : Phase
  deriving DecidableEq

def Dispatcher.idle : Dispatcher := ⟨[], .ready⟩

/-- The outcome of the first claim is recorded. -/
def Dispatcher.pop (d : Dispatcher) : Dispatcher := ⟨d.claims.tail, .ready⟩

/-- What the onboarding saga of one plant was started with and resolved in its first step. -/
structure OnboardPlantContext where
  plantId : PlantId
  householdId : HouseholdId
  wateringInterval : Duration

/-- The dispatcher's settings, the contexts of the sagas, and the `uuid5` behind `_reminder_id`. -/
structure Env where
  batchSize : ℕ
  leaseSeconds : ℕ
  maxAttempts : ℕ
  context : SagaId → OnboardPlantContext
  reminderId : SagaId → ℕ → NotificationId

/-- The tables, the clock, the dispatchers, and the compensations committed so far. -/
structure World where
  now : Instant
  intents : List Intent
  rows : Target → Option Stored
  idempotency : IntentKey → Option IdempotencyRecord
  outbox : List (IntentKey × Event)
  dispatchers : ℕ → Dispatcher
  withdrawn : List IntentKey

inductive Action
  | advance (microseconds : ℕ)
  | recordCareSchedule (sagaId : SagaId) (id : ℕ)
  | recordNotification (sagaId : SagaId) (id : ℕ)
  | withdrawCareSchedule (sagaId : SagaId) (id : ℕ)
  | withdrawNotification (sagaId : SagaId) (id : ℕ)
  | claim (dispatcher : ℕ) (skipped : List ℕ)
  | handle (dispatcher : ℕ) (ok : Bool)
  | commitHandler (dispatcher : ℕ) (ok : Bool)
  | readWinner (dispatcher : ℕ) (ok : Bool)
  | markExecuted (dispatcher : ℕ) (ok : Bool)
  | markFailed (dispatcher : ℕ) (ok : Bool)
  | crash (dispatcher : ℕ)
  deriving DecidableEq

namespace World

def empty : World :=
  { now := 0, intents := [], rows := fun _ => none, idempotency := fun _ => none, outbox := [],
    dispatchers := fun _ => .idle, withdrawn := [] }

def setDispatcher (w : World) (i : ℕ) (d : Dispatcher) : World :=
  { w with dispatchers := fun j => if j = i then d else w.dispatchers j }

def setPhase (w : World) (i : ℕ) (p : Phase) : World :=
  w.setDispatcher i { w.dispatchers i with phase := p }

def setRow (w : World) (t : Target) (x : Option Stored) : World :=
  { w with rows := fun u => if u = t then x else w.rows u }

/-- The transaction of a create handler: the row, the stored response and the event, together. -/
def insert (w : World) (key : IntentKey) (command : Command) (row : Created) (event : Event) : World :=
  { w.setRow command.target (some ⟨key, row⟩) with
    idempotency := fun k => if k = key then some ⟨command, CREATED, row, w.now⟩ else w.idempotency k
    outbox := w.outbox ++ [(key, event)] }

end World

/-- `CreateCareScheduleStep.act` and `CreateOnboardingNotificationStep.act`. -/
def recordCreate (w : World) (sagaId : SagaId) (stepNo id : ℕ) (command : Command) : Option World :=
  (record w.intents id sagaId stepNo command).map fun rows => { w with intents := rows }

/-- `withdraw`: cancel the recorded command, or record the command that undoes it. The saga reaches
it only for a step whose command it recorded. -/
def withdraw (w : World) (sagaId : SagaId) (stepNo id : ℕ) (undo : Command) : Option World :=
  let key := intentKey sagaId stepNo
  if key ∉ w.intents.map (·.idempotencyKey) then none
  else if (cancelPending w.intents key).2 then
    some { w with intents := (cancelPending w.intents key).1, withdrawn := w.withdrawn ++ [key] }
  else
    (record w.intents id sagaId (stepNo + compensationStepOffset) undo).map fun rows =>
      { w with intents := rows, withdrawn := w.withdrawn ++ [key] }

/-- `run_once` up to the commit of the claims. -/
def claim (env : Env) (w : World) (i : ℕ) (skipped : List ℕ) : World :=
  let models := claimable w.intents skipped w.now env.batchSize env.leaseSeconds
  { w with intents := markClaimed w.intents (models.map Intent.id) w.now }.setDispatcher i
    ⟨models.map Intent.toClaim, .ready⟩

/-- `handler.handle` up to its commit. A create handler looks for the stored response and stages its
write; a delete handler locks the row it deletes, so its read and its commit are one step. -/
def handle (w : World) (i : ℕ) (c : IntentClaim) (ok : Bool) : World :=
  if !ok then w.setPhase i (.failed (.database "handle"))
  else if c.command.isCreate then
    match w.idempotency c.idempotencyKey with
    | some stored =>
      match replayed stored c.command with
      | .ok _ => w.setPhase i .handled
      | .error e => w.setPhase i (.failed e)
    | none =>
      match operation w.now c.command with
      | .ok (row, event) => w.setPhase i (.staged row event)
      | .error e => w.setPhase i (.failed e)
  else (w.setRow c.command.target none).setPhase i .handled

/-- The commit of `commit_create`: both primary keys must be free. -/
def commitHandler (w : World) (i : ℕ) (c : IntentClaim) (row : Created) (event : Event) (ok : Bool) : World :=
  if !ok then w.setPhase i (.failed (.database "commit"))
  else if (w.idempotency c.idempotencyKey).isSome || (w.rows c.command.target).isSome then w.setPhase i .conflict
  else (w.insert c.idempotencyKey c.command row event).setPhase i .handled

/-- After a lost race `commit_create` reads the winner's response. -/
def readWinner (w : World) (i : ℕ) (c : IntentClaim) (ok : Bool) : World :=
  if !ok then w.setPhase i (.failed (.database "get"))
  else match w.idempotency c.idempotencyKey with
    | none => w.setPhase i (.failed .concurrentWrite)
    | some stored =>
      match replayed stored c.command with
      | .ok _ => w.setPhase i .handled
      | .error e => w.setPhase i (.failed e)

/-- One step of the world. -/
def step (env : Env) (w : World) : Action → Option World
  | .advance d => some { w with now := w.now + d }
  | .recordCareSchedule sagaId id =>
    recordCreate w sagaId stepCareSchedule id
      (.createCareSchedule (env.context sagaId).plantId (env.context sagaId).wateringInterval)
  | .recordNotification sagaId id =>
    recordCreate w sagaId stepNotification id
      (.createOnboardingNotification (env.context sagaId).householdId (env.context sagaId).plantId
        (w.now + (env.context sagaId).wateringInterval) (env.reminderId sagaId stepNotification))
  | .withdrawCareSchedule sagaId id =>
    withdraw w sagaId stepCareSchedule id (.deleteCareSchedule (env.context sagaId).plantId)
  | .withdrawNotification sagaId id =>
    withdraw w sagaId stepNotification id (.deleteNotification (env.reminderId sagaId stepNotification))
  | .claim i skipped =>
    if (w.dispatchers i).claims = [] then some (claim env w i skipped) else none
  | .handle i ok =>
    match (w.dispatchers i).claims, (w.dispatchers i).phase with
    | c :: _, .ready => some (handle w i c ok)
    | _, _ => none
  | .commitHandler i ok =>
    match (w.dispatchers i).claims, (w.dispatchers i).phase with
    | c :: _, .staged row event => some (commitHandler w i c row event ok)
    | _, _ => none
  | .readWinner i ok =>
    match (w.dispatchers i).claims, (w.dispatchers i).phase with
    | c :: _, .conflict => some (readWinner w i c ok)
    | _, _ => none
  | .markExecuted i ok =>
    match (w.dispatchers i).claims, (w.dispatchers i).phase with
    | c :: _, .handled =>
      if ok then
        some ({ w with intents := markExecuted w.intents c.id w.now }.setDispatcher i (w.dispatchers i).pop)
      else some (w.setPhase i (.failed (.database "mark_executed")))
    | _, _ => none
  | .markFailed i ok =>
    match (w.dispatchers i).claims, (w.dispatchers i).phase with
    | c :: _, .failed error =>
      match ok, markFailed w.intents c.id error env.maxAttempts with
      | true, some (rows, _) => some ({ w with intents := rows }.setDispatcher i (w.dispatchers i).pop)
      | _, _ => some (w.setDispatcher i .idle)
    | _, _ => none
  | .crash i => some (w.setDispatcher i .idle)

end Plantkeeper.Intents
