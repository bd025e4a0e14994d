/-
The outbox table and the relays that publish it: `SqlAlchemyOutboxRepository` and `OutboxRelay`.
Any number of relays, the writers, the database clock and the broker move in any order. A relay's
poll is one session: the claim of its batch and the first outcome share a transaction, every later
outcome has one of its own, and a crash or a failed statement between any two of them loses what
was not committed. The broker may accept a message and the relay never hear of it.
-/
import Mathlib.Data.List.Sort
import Plantkeeper.Domain.Time
import Plantkeeper.Lib.Run
import Plantkeeper.Lib.Table

namespace Plantkeeper.Outbox

variable {π : Type}

/-! ## The table -/

/-- A row of `write_shared.outbox`. `body` stands for the columns frozen when the event is appended
and read by the publisher only: the event id, name and payload, its instants and its provenance. -/
structure Row (π : Type) where
  id : ℕ
  topic : String
  partitionKey : String
  body : π
  attempts : ℕ
  lastError : Option String
  publishedAt : Option Instant
  deadLetteredAt : Option Instant
  claimedAt : Option Instant

/-- `_still_pending`. -/
def Row.stillPending (r : Row π) : Bool := r.publishedAt.isNone && r.deadLetteredAt.isNone

/-- `_lease_expired`. -/
def Row.leaseExpired (leaseSeconds : ℕ) (now : Instant) (r : Row π) : Bool :=
  match r.claimedAt with
  | none => true
  | some c => now - c > seconds leaseSeconds

/-- An older row with the same key is still waiting: the ordering barrier. -/
def blocked (rows : List (Row π)) (r : Row π) : Bool :=
  rows.any fun p => p.partitionKey == r.partitionKey && decide (p.id < r.id) && p.stillPending

/-- `SqlAlchemyOutboxRepository.fetch_unpublished` on the committed rows: the publishable ones that
are not locked, oldest first, up to the limit, as the `UPDATE` that claims them returns them. -/
def fetchUnpublished (rows : List (Row π)) (locked : List ℕ) (now : Instant) (limit leaseSeconds : ℕ) :
    List (Row π) :=
  let models := ((rows.filter fun r =>
    r.stillPending && !blocked rows r && r.leaseExpired leaseSeconds now && decide (r.id ∉ locked)).insertionSort
      fun a b : Row π => a.id ≤ b.id).take limit
  (models.filter fun r => r.stillPending && r.leaseExpired leaseSeconds now).map
    fun r => { r with claimedAt := some now }

/-- The updates a relay stages on one row. -/
inductive Change
  | claim
  | markPublished
  | recordFailure (error : String)
  | deadLetter (error : String)
  | releaseClaim
  deriving DecidableEq, Repr

/-- One staged `UPDATE`, in a transaction that began at `now`. -/
def Change.apply (now : Instant) : Change → Row π → Row π
  | .claim, r => { r with claimedAt := some now }
  | .markPublished, r => { r with publishedAt := some now, lastError := none }
  | .recordFailure error, r => { r with attempts := r.attempts + 1, lastError := some error }
  | .deadLetter error, r => { r with deadLetteredAt := some now, lastError := some error }
  | .releaseClaim, r => { r with claimedAt := none }

/-- `UPDATE outbox SET … WHERE id = …`. -/
def update (now : Instant) (rows : List (Row π)) (u : ℕ × Change) : List (Row π) :=
  Table.update (fun r => r.id == u.1) (u.2.apply now) rows

/-! ## The relay -/

/-- The relay's settings: `outbox_batch_size`, `outbox_claim_lease_seconds`, `outbox_max_attempts`. -/
structure Settings where
  batchSize : ℕ
  leaseSeconds : ℕ
  maxAttempts : ℕ
  deriving DecidableEq, Repr

def publishAttemptsPerCycle : ℕ := 3

/-- Where `deliver` is with the first message of the batch: publishing, after some broker errors in
this poll; about to copy it to the dead-letter topic; or with its outcome staged. -/
inductive Phase
  | publishing (failures : ℕ)
  | deadLettering (error : String)
  | recorded
  deriving DecidableEq, Repr

/-- One `run_once`: the messages still to deliver, the instant its open transaction began, and the
updates staged in it. -/
structure Session (π : Type) where
  messages : List (Row π)
  phase : Phase
  began : Option Instant
  staged : List (ℕ × Change)

/-- The committed table, the database clock, the relays, the rows their open claims lock, and what
the broker accepted on the rows' own topics and on the dead-letter topic. -/
structure World (π : Type) where
  now : Instant
  rows : List (Row π)
  relays : ℕ → Option (Session π)
  locks : List (ℕ × ℕ)
  accepted : List (Row π)
  deadLetters : List (Row π)

/-- What a publish comes back with. A broker error does not say whether the message was taken. -/
inductive Answer
  | ok
  | error (taken : Bool) (text : String)
  deriving DecidableEq, Repr

inductive Action (π : Type)
  | advance (microseconds : ℕ)
  | write (id : ℕ) (topic partitionKey : String) (body : π)
  | fetch (relay : ℕ) (skipped : List ℕ)
  | publish (relay : ℕ) (answer : Answer)
  | publishDeadLetter (relay : ℕ) (answer : Answer)
  | commit (relay : ℕ) (ok : Bool)
  | crash (relay : ℕ)

namespace World

def empty : World π :=
  { now := 0, rows := [], relays := fun _ => none, locks := [], accepted := [], deadLetters := [] }

def setRelay (w : World π) (i : ℕ) (x : Option (Session π)) : World π :=
  { w with relays := fun j => if j = i then x else w.relays j }

/-- The relay's transaction ends: its row locks are released. -/
def unlock (w : World π) (i : ℕ) : World π :=
  { w with locks := w.locks.filter fun l => l.1 ≠ i }

def accept (w : World π) (taken : Bool) (m : Row π) : World π :=
  if taken then { w with accepted := w.accepted ++ [m] } else w

def acceptDeadLetter (w : World π) (taken : Bool) (m : Row π) : World π :=
  if taken then { w with deadLetters := w.deadLetters ++ [m] } else w

end World

/-- The outcome of the first message is staged, the claim released with it. -/
def Session.record (x : Session π) (now : Instant) (id : ℕ) (c : Change) : Session π :=
  { x with
    phase := .recorded
    began := some (x.began.getD now)
    staged := x.staged ++ [(id, c), (id, .releaseClaim)] }

/-- A poll: the claims are staged in the session's transaction and their rows locked until it ends.
`skipped` are rows some other transaction holds at that instant. -/
def fetch (cfg : Settings) (w : World π) (i : ℕ) (skipped : List ℕ) : World π :=
  let batch := fetchUnpublished w.rows (w.locks.map (·.2) ++ skipped) w.now cfg.batchSize cfg.leaseSeconds
  if batch.isEmpty then w
  else
    { w with locks := w.locks ++ batch.map fun m : Row π => (i, m.id) }.setRelay i (some
      { messages := batch, phase := .publishing 0, began := some w.now
        staged := batch.map fun m : Row π => (m.id, .claim) })

/-- `_publish_with_retry`, one attempt, and what `deliver` does after the last: `mark_published`, or
`_record_failure` up to the point where the dead-letter copy has to be published. -/
def publish (cfg : Settings) (w : World π) (i : ℕ) (x : Session π) (m : Row π) (failures : ℕ) :
    Answer → World π
  | .ok => (w.accept true m).setRelay i (some (x.record w.now m.id .markPublished))
  | .error taken text =>
    let x' : Session π :=
      if failures + 1 < publishAttemptsPerCycle then { x with phase := .publishing (failures + 1) }
      else if m.attempts + 1 < cfg.maxAttempts then x.record w.now m.id (.recordFailure text)
      else { x with phase := .deadLettering text }
    (w.accept taken m).setRelay i (some x')

/-- The rest of `_record_failure`: the dead-letter copy, or one more failure if that copy fails. -/
def publishDeadLetter (w : World π) (i : ℕ) (x : Session π) (m : Row π) (error : String) : Answer → World π
  | .ok => (w.acceptDeadLetter true m).setRelay i (some (x.record w.now m.id (.deadLetter error)))
  | .error taken text =>
    (w.acceptDeadLetter taken m).setRelay i (some (x.record w.now m.id
      (.recordFailure (error ++ "; dead-letter publish failed: " ++ text))))

/-- The session's transaction is committed and the next message is delivered. -/
def commit (w : World π) (i : ℕ) (x : Session π) (rest : List (Row π)) : World π :=
  { w with rows := x.staged.foldl (update (x.began.getD w.now)) w.rows }.unlock i |>.setRelay i <|
    if rest.isEmpty then none
    else some { messages := rest, phase := .publishing 0, began := none, staged := [] }

/-- One step of the world. A writer's row gets a fresh id and becomes visible here, in any order of
ids; an outcome waits for the row's lock; a statement or commit that fails ends the poll. -/
def step (cfg : Settings) (w : World π) : Action π → Option (World π)
  | .advance d => some { w with now := w.now + d }
  | .write id topic partitionKey body =>
    if id ∈ w.rows.map (·.id) then none
    else some { w with rows := w.rows ++ [⟨id, topic, partitionKey, body, 0, none, none, none, none⟩] }
  | .fetch i skipped =>
    match w.relays i with
    | none => some (fetch cfg w i skipped)
    | some _ => none
  | .publish i answer =>
    match w.relays i with
    | some x =>
      match x.messages, x.phase with
      | m :: _, .publishing failures => some (publish cfg w i x m failures answer)
      | _, _ => none
    | none => none
  | .publishDeadLetter i answer =>
    match w.relays i with
    | some x =>
      match x.messages, x.phase with
      | m :: _, .deadLettering error => some (publishDeadLetter w i x m error answer)
      | _, _ => none
    | none => none
  | .commit i ok =>
    match w.relays i with
    | some x =>
      match x.messages, x.phase with
      | _ :: rest, .recorded =>
        if ok then
          if w.locks.any fun l => l.1 ≠ i && x.staged.any (·.1 == l.2) then none
          else some (commit w i x rest)
        else some ((w.unlock i).setRelay i none)
      | _, _ => none
    | none => none
  | .crash i => some ((w.unlock i).setRelay i none)

/-- What a step can do, with the guards it passed. -/
inductive Move (cfg : Settings) (w : World π) : Action π → World π → Prop
  | advance (d : ℕ) : Move cfg w (.advance d) { w with now := w.now + d }
  | write {id : ℕ} (topic key : String) (body : π) (hid : id ∉ w.rows.map (·.id)) :
    Move cfg w (.write id topic key body)
      { w with rows := w.rows ++ [⟨id, topic, key, body, 0, none, none, none, none⟩] }
  | fetch {i : ℕ} (skipped : List ℕ) (hx : w.relays i = none) : Move cfg w (.fetch i skipped) (fetch cfg w i skipped)
  | publish {i : ℕ} {x : Session π} {m : Row π} {rest : List (Row π)} {failures : ℕ} (answer : Answer)
    (hx : w.relays i = some x) (hm : x.messages = m :: rest) (hp : x.phase = .publishing failures) :
    Move cfg w (.publish i answer) (publish cfg w i x m failures answer)
  | publishDeadLetter {i : ℕ} {x : Session π} {m : Row π} {rest : List (Row π)} {error : String} (answer : Answer)
    (hx : w.relays i = some x) (hm : x.messages = m :: rest) (hp : x.phase = .deadLettering error) :
    Move cfg w (.publishDeadLetter i answer) (publishDeadLetter w i x m error answer)
  | commit {i : ℕ} {x : Session π} {m : Row π} {rest : List (Row π)} (hx : w.relays i = some x)
    (hm : x.messages = m :: rest) (hp : x.phase = .recorded)
    (hl : (w.locks.any fun l => l.1 ≠ i && x.staged.any (·.1 == l.2)) = false) :
    Move cfg w (.commit i true) (commit w i x rest)
  | fail {i : ℕ} {x : Session π} {m : Row π} {rest : List (Row π)} (hx : w.relays i = some x)
    (hm : x.messages = m :: rest) (hp : x.phase = .recorded) :
    Move cfg w (.commit i false) ((w.unlock i).setRelay i none)
  | crash (i : ℕ) : Move cfg w (.crash i) ((w.unlock i).setRelay i none)

theorem step_move {cfg : Settings} {w w' : World π} {a : Action π} (h : step cfg w a = some w') : Move cfg w a w' := by
  cases a with
  | advance d => cases h; exact .advance d
  | write id topic key body =>
    simp only [step] at h
    split at h
    · cases h
    · rename_i hid
      cases h; exact .write topic key body hid
  | fetch i skipped =>
    simp only [step] at h
    split at h
    · rename_i hx
      cases h; exact .fetch skipped hx
    · cases h
  | publish i answer =>
    simp only [step] at h
    split at h
    · rename_i x hx
      split at h
      · rename_i m rest failures hm hp
        cases h; exact .publish answer hx hm hp
      · cases h
    · cases h
  | publishDeadLetter i answer =>
    simp only [step] at h
    split at h
    · rename_i x hx
      split at h
      · rename_i m rest error hm hp
        cases h; exact .publishDeadLetter answer hx hm hp
      · cases h
    · cases h
  | commit i ok =>
    simp only [step] at h
    split at h
    · rename_i x hx
      split at h
      · rename_i m rest hm hp
        split at h
        · rename_i hok
          subst hok
          split at h
          · cases h
          · rename_i hl
            cases h; exact .commit hx hm hp (Bool.not_eq_true _ ▸ hl)
        · rename_i hok
          rw [Bool.not_eq_true] at hok
          subst hok
          cases h; exact .fail hx hm hp
      · cases h
    · cases h
  | crash i => cases h; exact .crash i

/-! ## One attempt -/

def Answer.taken : Answer → Bool
  | .ok => true
  | .error taken _ => taken

def Change.isOutcome : Change → Bool
  | .markPublished | .recordFailure _ | .deadLetter _ => true
  | _ => false

/-- An attempt leaves the session with the message still to deliver, or with an outcome staged. -/
def Attempted (now : Instant) (m : Row π) (x y : Session π) : Prop :=
  (∃ p : Phase, p ≠ .recorded ∧ y = { x with phase := p }) ∨ ∃ c : Change, c.isOutcome = true ∧ y = x.record now m.id c

theorem Attempted.messages {now : Instant} {m : Row π} {x y : Session π} (h : Attempted now m x y) :
    y.messages = x.messages := by
  rcases h with ⟨p, -, rfl⟩ | ⟨c, -, rfl⟩ <;> rfl

theorem publish_eq (cfg : Settings) (w : World π) (i : ℕ) (x : Session π) (m : Row π) (failures : ℕ) (answer : Answer) :
    ∃ y, Attempted w.now m x y ∧
      publish cfg w i x m failures answer = (w.accept answer.taken m).setRelay i (some y) := by
  cases answer with
  | ok => exact ⟨x.record w.now m.id .markPublished, .inr ⟨_, rfl, rfl⟩, rfl⟩
  | error taken text =>
    refine ⟨_, ?_, rfl⟩
    split
    · exact .inl ⟨.publishing (failures + 1), by simp, rfl⟩
    · split
      · exact .inr ⟨.recordFailure text, rfl, rfl⟩
      · exact .inl ⟨.deadLettering text, by simp, rfl⟩

theorem publishDeadLetter_eq (w : World π) (i : ℕ) (x : Session π) (m : Row π) (error : String) (answer : Answer) :
    ∃ y, Attempted w.now m x y ∧
      publishDeadLetter w i x m error answer = (w.acceptDeadLetter answer.taken m).setRelay i (some y) := by
  cases answer with
  | ok => exact ⟨x.record w.now m.id (.deadLetter error), .inr ⟨_, rfl, rfl⟩, rfl⟩
  | error taken text =>
    exact ⟨x.record w.now m.id (.recordFailure (error ++ "; dead-letter publish failed: " ++ text)),
      .inr ⟨_, rfl, rfl⟩, rfl⟩

/-- The broker's log is all a publish changes beside the session. -/
theorem accept_frame (w : World π) (taken : Bool) (m : Row π) :
    (w.accept taken m).now = w.now ∧ (w.accept taken m).rows = w.rows ∧ (w.accept taken m).relays = w.relays ∧
      (w.accept taken m).locks = w.locks := by
  unfold World.accept
  split <;> exact ⟨rfl, rfl, rfl, rfl⟩

theorem acceptDeadLetter_frame (w : World π) (taken : Bool) (m : Row π) :
    (w.acceptDeadLetter taken m).now = w.now ∧ (w.acceptDeadLetter taken m).rows = w.rows ∧
      (w.acceptDeadLetter taken m).relays = w.relays ∧ (w.acceptDeadLetter taken m).locks = w.locks ∧
      (w.acceptDeadLetter taken m).accepted = w.accepted := by
  unfold World.acceptDeadLetter
  split <;> exact ⟨rfl, rfl, rfl, rfl, rfl⟩

end Plantkeeper.Outbox
