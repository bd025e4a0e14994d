/-
The two subscriber sets: the worker's consumers and Django's projections, each delivery under the
failure policy. An attempt claims the delivery, runs the handler and commits both; a delivery that
cannot succeed is moved aside, which on the write side is claim, copy, commit and on the read side
copy, then claim. A step is one call to the database or the broker, or one run of the handler; its
outcome comes with the action.
-/
import Mathlib.Data.List.Nodup
import Mathlib.Logic.Function.Basic
import Plantkeeper.Domain.Identifiers
import Plantkeeper.Lib.Run

namespace Plantkeeper.Delivery

/-! ## Consumers and the failure policy -/

inductive Side
  | write
  | read
  deriving DecidableEq, Repr

structure ConsumerGroup where
  side : Side
  name : String
  deriving DecidableEq

/-- A domain event: its identifier and its class. -/
structure Event (τ : Type) where
  eventId : Uuid
  type : τ
  deriving DecidableEq

/-- A `Consumer` that starts no saga, or a `Projection`. -/
structure Consumer (τ : Type) where
  group : ConsumerGroup
  handledTypes : List τ
  deriving DecidableEq

/-- The unique key of a row of `processed_events`. -/
abbrev Key := ConsumerGroup × Uuid

inductive Failure
  | domainError
  | otherError
  deriving DecidableEq, Repr

structure FailurePolicy where
  maxAttempts : ℕ
  atLeastOne : 1 ≤ maxAttempts

/-- `is_terminal`. -/
def isTerminal : Failure → Bool
  | .domainError => true
  | .otherError => false

/-- What a call of the database or the broker came to: it took effect; it raised and did not; it
took effect and its answer was lost. -/
inductive Outcome
  | done
  | failed (error : Failure)
  | lost (error : Failure)
  deriving DecidableEq

/-- Where a subscriber is with its delivery. -/
inductive Phase
  /-- about to claim, in this attempt -/
  | attempt (n : ℕ)
  | claimed (n : ℕ)
  /-- the handler returned, the commit is next -/
  | handled (n : ℕ)
  | moveAside (error : Failure)
  | asideClaimed (error : Failure)
  | asidePublished (error : Failure)
  deriving DecidableEq

/-- The branches of `run_with_failure_policy` after failure number `n`. -/
def afterFailure (policy : FailurePolicy) (n : ℕ) (error : Failure) : Phase :=
  if isTerminal error then .moveAside error
  else if n ≥ policy.maxAttempts then .moveAside error
  else .attempt (n + 1)

/-! ## The world -/

/-- A subscriber at work on a delivery. `tracked` is what its next commit writes for the handler: an
entry for each run of the handler whose writes are still to be committed. A rollback of the unit of
work does not clear it, a commit does, whether or not it succeeds; a handler saves its aggregate last,
so one that raises has tracked nothing. -/
structure Subscriber (τ ω : Type) where
  consumer : Consumer τ
  event : Event τ
  phase : Phase
  tracked : List ω
  deriving DecidableEq

def Subscriber.key {τ ω : Type} (d : Subscriber τ ω) : Key := (d.consumer.group, d.event.eventId)

/-- The committed claims, the uncommitted ones with the subscriber that inserted them, the committed
writes of the handlers, the copies the broker accepted, the acknowledged deliveries, and the
subscribers at work. -/
structure World (τ ω : Type) where
  ledger : List Key
  staged : List (Key × ℕ)
  effects : List (Key × ω)
  deadLetters : List (Key × Failure)
  acked : List (Consumer τ × Option (Event τ))
  subscribers : ℕ → Option (Subscriber τ ω)

def World.empty {τ ω : Type} : World τ ω :=
  { ledger := [], staged := [], effects := [], deadLetters := [], acked := [], subscribers := fun _ => none }

section

variable {τ ω : Type}

namespace World

/-- The subscriber's transaction is rolled back. -/
def rollback (w : World τ ω) (i : ℕ) : World τ ω := { w with staged := w.staged.filter fun s => s.2 != i }

def put (w : World τ ω) (i : ℕ) (d : Subscriber τ ω) : World τ ω :=
  { w with subscribers := Function.update w.subscribers i (some d) }

/-- The subscriber raised, or is gone: the broker offers the delivery again. -/
def raise (w : World τ ω) (i : ℕ) : World τ ω :=
  { w.rollback i with subscribers := Function.update w.subscribers i none }

/-- The subscriber returned. -/
def ack (w : World τ ω) (i : ℕ) (d : Subscriber τ ω) : World τ ω :=
  { w.raise i with acked := w.acked ++ [(d.consumer, some d.event)] }

/-- The row of the ledger is inserted, and not committed yet. -/
def stage (w : World τ ω) (i : ℕ) (k : Key) : World τ ω := { w with staged := w.staged ++ [(k, i)] }

/-- The subscriber's transaction is committed: its claim, and what is tracked for the handler. -/
def commit (w : World τ ω) (i : ℕ) (d : Subscriber τ ω) : World τ ω :=
  { w.rollback i with
    ledger := w.ledger ++ [d.key]
    effects := w.effects ++ d.tracked.map fun writes => (d.key, writes) }

/-- The broker accepted a copy of the delivery. -/
def copy (w : World τ ω) (d : Subscriber τ ω) (error : Failure) : World τ ω :=
  { w with deadLetters := w.deadLetters ++ [(d.key, error)] }

end World

/-- `processed_events.claim`, and `get_or_create` in Django: whether the row is new. `none` is the
wait for another transaction that has inserted it. -/
def claim (w : World τ ω) (i : ℕ) (k : Key) : Option (World τ ω × Bool) :=
  if k ∈ w.ledger then some (w, false)
  else if w.staged.any fun s => s.1 == k && s.2 != i then none
  else some (w.stage i k, true)

/-! ## One call -/

/-- The claim of an attempt. -/
def claimAttempt (policy : FailurePolicy) (w : World τ ω) (i : ℕ) (d : Subscriber τ ω) (n : ℕ) :
    Outcome → Option (World τ ω)
  | .failed e | .lost e => some ((w.rollback i).put i { d with phase := afterFailure policy n e })
  | .done =>
    match claim w i d.key with
    | none => none
    | some (w', false) => some (w'.ack i d)
    | some (w', true) => some (w'.put i { d with phase := .claimed n })

/-- The commit of an attempt. -/
def commitAttempt (policy : FailurePolicy) (w : World τ ω) (i : ℕ) (d : Subscriber τ ω) (n : ℕ) : Outcome → World τ ω
  | .done => (w.commit i d).ack i d
  | .failed e => (w.rollback i).put i { d with phase := afterFailure policy n e, tracked := [] }
  | .lost e => (w.commit i d).put i { d with phase := afterFailure policy n e, tracked := [] }

/-- The claim of the write side's `move_aside`. -/
def claimAside (w : World τ ω) (i : ℕ) (d : Subscriber τ ω) (error : Failure) : Outcome → Option (World τ ω)
  | .failed _ | .lost _ => some (w.raise i)
  | .done =>
    match claim w i d.key with
    | none => none
    | some (w', false) => some (w'.ack i d)
    | some (w', true) => some (w'.put i { d with phase := .asideClaimed error })

/-- `publish_moved_aside`. -/
def publishAside (w : World τ ω) (i : ℕ) (d : Subscriber τ ω) (error : Failure) : Outcome → World τ ω
  | .done => (w.copy d error).put i { d with phase := .asidePublished error }
  | .failed _ => w.raise i
  | .lost _ => (w.copy d error).raise i

/-- The commit of the write side's `move_aside`. -/
def commitAside (w : World τ ω) (i : ℕ) (d : Subscriber τ ω) : Outcome → World τ ω
  | .done => (w.commit i d).ack i d
  | .failed _ => w.raise i
  | .lost _ => (w.commit i d).raise i

/-- `record_move_aside` of the read side, one transaction of its own. -/
def recordMoveAside (w : World τ ω) (i : ℕ) (d : Subscriber τ ω) : Outcome → Option (World τ ω)
  | .failed _ => some (w.raise i)
  | .done =>
    match claim w i d.key with
    | none => none
    | some (w', false) => some (w'.ack i d)
    | some (w', true) => some ((w'.commit i d).ack i d)
  | .lost _ =>
    match claim w i d.key with
    | none => none
    | some (w', false) => some (w'.raise i)
    | some (w', true) => some ((w'.commit i d).raise i)

/-- The next call of a subscriber. -/
def call (policy : FailurePolicy) (w : World τ ω) (i : ℕ) (d : Subscriber τ ω) (outcome : Outcome) : Option (World τ ω) :=
  match d.phase, d.consumer.group.side with
  | .attempt n, _ => claimAttempt policy w i d n outcome
  | .claimed _, _ => none
  | .handled n, _ => some (commitAttempt policy w i d n outcome)
  | .moveAside error, .write => claimAside w i d error outcome
  | .moveAside error, .read => some (publishAside w i d error outcome)
  | .asideClaimed error, _ => some (publishAside w i d error outcome)
  | .asidePublished _, .write => some (commitAside w i d outcome)
  | .asidePublished _, .read => recordMoveAside w i d outcome

/-- The handler runs inside the claim's transaction. -/
def handle (policy : FailurePolicy) (w : World τ ω) (i : ℕ) (d : Subscriber τ ω) (result : Except Failure ω) :
    Option (World τ ω) :=
  match d.phase, result with
  | .claimed n, .error e => some ((w.rollback i).put i { d with phase := afterFailure policy n e })
  | .claimed n, .ok writes => some (w.put i { d with phase := .handled n, tracked := d.tracked ++ [writes] })
  | _, _ => none

/-- A message reaches a subscriber of the group, for the first time or again; `none` is one that does
not decode. A subscriber goes on with its next call, or runs its handler; or its process dies. -/
inductive Action (τ ω : Type)
  | deliver (i : ℕ) (consumer : Consumer τ) (message : Option (Event τ))
  | call (i : ℕ) (outcome : Outcome)
  | handle (i : ℕ) (result : Except Failure ω)
  | crash (i : ℕ)

/-- A message of another class, or of none, is acknowledged at once. -/
def receive [DecidableEq τ] (w : World τ ω) (i : ℕ) (consumer : Consumer τ) (message : Option (Event τ)) : World τ ω :=
  match message with
  | none => { w with acked := w.acked ++ [(consumer, none)] }
  | some event =>
    if event.type ∈ consumer.handledTypes then
      w.put i { consumer := consumer, event := event, phase := .attempt 1, tracked := [] }
    else { w with acked := w.acked ++ [(consumer, some event)] }

def step [DecidableEq τ] (policy : FailurePolicy) (w : World τ ω) : Action τ ω → Option (World τ ω)
  | .deliver i consumer message =>
    match w.subscribers i with
    | none => some (receive w i consumer message)
    | some _ => none
  | .call i outcome => (w.subscribers i).bind fun d => call policy w i d outcome
  | .handle i result => (w.subscribers i).bind fun d => handle policy w i d result
  | .crash i => some (w.raise i)

end

end Plantkeeper.Delivery
