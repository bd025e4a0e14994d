/-
`commit_create`: a create runs once per idempotency key and is replayed from the stored response.
Any number of calls, each in a unit of work of its own, interleave at the lookup of the key, the
operation, the commit and the second lookup of a caller that lost the race. The operations are
anything: each raises an error or stages writes and answers with a view. The digest and the JSON of
the views are the libraries' and come as parameters.
-/
import Mathlib.Data.Rat.Defs
import Mathlib.Logic.Function.Basic
import Plantkeeper.Domain.Telemetry
import Plantkeeper.Domain.Text
import Plantkeeper.Lib.Run

namespace Plantkeeper.Idempotency

/-! ## Commands -/

/-- The content of the commands whose handlers go through `commit_create`. -/
inductive Create
  | household (name : List Char)
  | plant (householdId : HouseholdId) (speciesId : SpeciesId) (name : List Char) (location : Location)
  | sensor (plantId : PlantId) (sensorId : Option Telemetry.SensorId)
  | careSchedule (plantId : PlantId) (wateringIntervalSeconds : ℚ)
  | onboardingNotification (householdId : HouseholdId) (plantId : PlantId) (nextWateringAt : Instant)
      (notificationId : Option NotificationId)
  deriving DecidableEq

/-- An idempotency key is at most 255 characters. -/
structure Key where
  text : List Char
  le : text.length ≤ 255
  deriving DecidableEq

/-- `IdempotentCommand`. -/
structure Command where
  create : Create
  idempotencyKey : Option Key
  deriving DecidableEq

/-- The view type a handler passes. -/
inductive ViewType
  | household
  | plant
  | sensor
  | careSchedule
  | notification
  deriving DecidableEq, Repr

def Create.viewType : Create → ViewType
  | .household _ => .household
  | .plant .. => .plant
  | .sensor .. => .sensor
  | .careSchedule .. => .careSchedule
  | .onboardingNotification .. => .notification

/-- A JSON value of a command, by what it renders. -/
inductive Value
  | null
  | uuid (id : Uuid)
  | text (s : List Char)
  | number (q : ℚ)
  | instant (t : Instant)
  deriving DecidableEq

/-- `model_dump_json(exclude={"idempotency_key"})`: the fields in the order they are declared. The
command's type is not among them. -/
def Create.modelDumpJson : Create → List (String × Value)
  | .household name => [("name", .text name)]
  | .plant householdId speciesId name location =>
    [("household_id", .uuid householdId), ("species_id", .uuid speciesId), ("name", .text name),
      ("location", .text location.text)]
  | .sensor plantId sensorId => [("plant_id", .uuid plantId), ("sensor_id", sensorId.elim .null .uuid)]
  | .careSchedule plantId wateringIntervalSeconds =>
    [("plant_id", .uuid plantId), ("watering_interval_seconds", .number wateringIntervalSeconds)]
  | .onboardingNotification householdId plantId nextWateringAt notificationId =>
    [("household_id", .uuid householdId), ("plant_id", .uuid plantId), ("next_watering_at", .instant nextWateringAt),
      ("notification_id", notificationId.elim .null .uuid)]

/-- The fields of the command a view type answers. -/
def ViewType.fields : ViewType → List String
  | .household => ["name"]
  | .plant => ["household_id", "species_id", "name", "location"]
  | .sensor => ["plant_id", "sensor_id"]
  | .careSchedule => ["plant_id", "watering_interval_seconds"]
  | .notification => ["household_id", "plant_id", "next_watering_at", "notification_id"]

theorem modelDumpJson_fields (c : Create) : c.modelDumpJson.map Prod.fst = c.viewType.fields := by
  cases c <;> rfl

theorem ViewType.fields_inj {t t' : ViewType} (h : t.fields = t'.fields) : t = t' := by
  cases t <;> cases t' <;> first | rfl | exact absurd h (by decide)

/-- The names of the fields tell the commands apart, so one content has one view type. -/
theorem viewType_of_modelDumpJson {c c' : Create} (h : c.modelDumpJson = c'.modelDumpJson) : c.viewType = c'.viewType := by
  apply ViewType.fields_inj
  rw [← modelDumpJson_fields, ← modelDumpJson_fields, h]

/-! ## The libraries -/

/-- SHA-256 of a JSON text, and Pydantic's `model_dump(mode="json")` and `model_validate`; `none` is a
`ValidationError`. -/
structure Library (View Json Digest : Type) where
  sha256 : List (String × Value) → Digest
  typeOf : View → ViewType
  modelDump : View → Json
  modelValidate : ViewType → Json → Option View

/-- What is relied on: the JSON of a view validates to the view, and no two contents share a digest. -/
structure Library.Lawful {View Json Digest : Type} (lib : Library View Json Digest) : Prop where
  roundTrip : ∀ view, lib.modelValidate (lib.typeOf view) (lib.modelDump view) = some view
  noCollision : Function.Injective lib.sha256

variable {View Json Digest Write E : Type}

/-- `request_fingerprint`. -/
def requestFingerprint (lib : Library View Json Digest) (command : Command) : Digest :=
  lib.sha256 command.create.modelDumpJson

/-! ## Stored responses -/

/-- A stored response; its key is not empty. -/
structure IdempotencyRecord (Json Digest : Type) where
  key : Key
  nonempty : key.text ≠ []
  requestHash : Digest
  statusCode : ℕ
  response : Json
  createdAt : Instant

/-- What a call fails with: what its operation raised, a key used for other content, a constraint
violated by what it staged, a value Pydantic refuses. -/
inductive Failure (E : Type)
  | operation (error : E)
  | idempotencyKeyConflict
  | concurrentWrite
  | validation
  deriving DecidableEq

/-- `_replayed`. -/
def replayed [DecidableEq Digest] (lib : Library View Json Digest) (command : Command)
    (stored : IdempotencyRecord Json Digest) : Except (Failure E) View :=
  if stored.requestHash ≠ requestFingerprint lib command then .error .idempotencyKeyConflict
  else match lib.modelValidate command.create.viewType stored.response with
    | none => .error .validation
    | some view => .ok view

/-! ## Calls -/

/-- Where a call is: the lookup of its key, its operation, the commit of what it staged, the second
lookup after a `ConcurrentWriteError`, and how it ended; `gone` is a caller that died. -/
inductive Pc (View Json Digest Write E : Type)
  | get
  | operation
  | commit (writes : List Write) (record : Option (IdempotencyRecord Json Digest)) (view : View)
  | reread
  | returned (view : View)
  | raised (failure : Failure E)
  | gone

/-- The call has not ended. -/
def Pc.isOpen : Pc View Json Digest Write E → Bool
  | .get | .operation | .commit .. | .reread => true
  | .returned _ | .raised _ | .gone => false

theorem Pc.ne_returned_of_isOpen {pc : Pc View Json Digest Write E} {view : View} (h : pc.isOpen = true) :
    pc ≠ .returned view := by
  rintro rfl
  cases h

def Pc.ofResult : Except (Failure E) View → Pc View Json Digest Write E
  | .ok view => .returned view
  | .error failure => .raised failure

/-- A call of `commit_create` with the status of its handler. -/
structure Call (View Json Digest Write E : Type) where
  command : Command
  statusCode : ℕ
  pc : Pc View Json Digest Write E

/-- A committed transaction: whose it is, what its operation wrote, and the stored response. -/
structure Commit (Json Digest Write : Type) where
  caller : ℕ
  command : Command
  writes : List Write
  record : Option (IdempotencyRecord Json Digest)

/-- The transactions committed so far, which are the database, and the calls. -/
structure World (View Json Digest Write E : Type) where
  commits : List (Commit Json Digest Write)
  calls : ℕ → Option (Call View Json Digest Write E)

def World.empty : World View Json Digest Write E := { commits := [], calls := fun _ => none }

/-- The response stored under a key. -/
def stored (commits : List (Commit Json Digest Write)) (key : Key) : Option (IdempotencyRecord Json Digest) :=
  (commits.filterMap (·.record)).find? fun r => r.key = key

namespace World

variable (w : World View Json Digest Write E)

def goto (i : ℕ) (call : Call View Json Digest Write E) (pc : Pc View Json Digest Write E) :
    World View Json Digest Write E :=
  { w with calls := Function.update w.calls i (some { call with pc := pc }) }

variable {w}

theorem calls_goto_self {i : ℕ} {call : Call View Json Digest Write E} (pc : Pc View Json Digest Write E) :
    (w.goto i call pc).calls i = some { call with pc := pc } :=
  Function.update_self ..

theorem calls_goto_ne {i j : ℕ} {call : Call View Json Digest Write E} (hj : j ≠ i) (pc : Pc View Json Digest Write E) :
    (w.goto i call pc).calls j = w.calls j :=
  Function.update_of_ne hj ..

variable (w)

/-- The commit goes through and the call returns. -/
def commit (i : ℕ) (call : Call View Json Digest Write E) (writes : List Write)
    (record : Option (IdempotencyRecord Json Digest)) (view : View) : World View Json Digest Write E :=
  { w.goto i call (.returned view) with commits := w.commits ++ [⟨i, call.command, writes, record⟩] }

variable {w} {i j : ℕ} {call : Call View Json Digest Write E} {writes : List Write}
  {record : Option (IdempotencyRecord Json Digest)} {view : View}

theorem calls_commit_self : (w.commit i call writes record view).calls i = some { call with pc := .returned view } :=
  calls_goto_self _

theorem calls_commit_ne (hj : j ≠ i) : (w.commit i call writes record view).calls j = w.calls j :=
  calls_goto_ne hj _

end World

/-- The unique key column refuses the record. -/
def taken (commits : List (Commit Json Digest Write)) (record : Option (IdempotencyRecord Json Digest)) : Bool :=
  record.any fun r => (stored commits r.key).isSome

/-- After the operation: without a key only its writes are committed, with one the response is
remembered with them. -/
def remember (lib : Library View Json Digest) (call : Call View Json Digest Write E) (now : Instant)
    (writes : List Write) (view : View) : Pc View Json Digest Write E :=
  match call.command.idempotencyKey with
  | none => .commit writes none view
  | some key =>
    if h : key.text = [] then .raised .validation
    else .commit writes
      (some ⟨key, h, requestFingerprint lib call.command, call.statusCode, lib.modelDump view, now⟩) view

/-- What happens next: a call begins, looks its key up, runs its operation (with the outcome), commits
(with whether a row of its own violates a constraint), looks the key up again, or its caller dies. -/
inductive Action (View Write E : Type)
  | call (i : ℕ) (command : Command) (statusCode : ℕ)
  | get (i : ℕ)
  | operate (i : ℕ) (outcome : Except E (List Write × View)) (now : Instant)
  | commit (i : ℕ) (violated : Bool)
  | reread (i : ℕ)
  | die (i : ℕ)

variable [DecidableEq Digest] (lib : Library View Json Digest)

/-- The lookup of the key: a stored response is replayed. -/
def lookup (commits : List (Commit Json Digest Write)) (command : Command) (missing : Pc View Json Digest Write E) :
    Pc View Json Digest Write E :=
  match command.idempotencyKey.bind (stored commits) with
  | some r => .ofResult (replayed lib command r)
  | none => missing

/-- One statement of a call. An operation answers with a view of the handler's type. -/
def step (w : World View Json Digest Write E) : Action View Write E → Option (World View Json Digest Write E)
  | .call i command statusCode =>
    match w.calls i with
    | none => some (w.goto i ⟨command, statusCode, .get⟩ (if command.idempotencyKey.isNone then .operation else .get))
    | some _ => none
  | .get i =>
    match w.calls i with
    | some call =>
      match call.pc with
      | .get => some (w.goto i call (lookup lib w.commits call.command .operation))
      | _ => none
    | none => none
  | .operate i outcome now =>
    match w.calls i with
    | some call =>
      match call.pc, outcome with
      | .operation, .error e => some (w.goto i call (.raised (.operation e)))
      | .operation, .ok (writes, view) =>
        if lib.typeOf view = call.command.create.viewType then some (w.goto i call (remember lib call now writes view))
        else none
      | _, _ => none
    | none => none
  | .commit i violated =>
    match w.calls i with
    | some call =>
      match call.pc with
      | .commit writes record view =>
        if violated || taken w.commits record then
          some (w.goto i call (if record.isNone then .raised .concurrentWrite else .reread))
        else some (w.commit i call writes record view)
      | _ => none
    | none => none
  | .reread i =>
    match w.calls i with
    | some call =>
      match call.pc with
      | .reread => some (w.goto i call (lookup lib w.commits call.command (.raised .concurrentWrite)))
      | _ => none
    | none => none
  | .die i =>
    match w.calls i with
    | some call => if call.pc.isOpen then some (w.goto i call .gone) else none
    | none => none

end Plantkeeper.Idempotency
