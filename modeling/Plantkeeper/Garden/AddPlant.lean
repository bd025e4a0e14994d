/-
`AddPlant` and `RemovePlant` requests on one household, as interleaved transactions under READ COMMITTED.
An `AddPlant` goes through `commit_create`: it looks its key up if it has one, locks the household's row,
reads the household's plants in a statement of its own, and stages the plant and the response; what is
staged is flushed with the commit. A removal takes no lock. The responses are stored for every handler, so
a key may have been used for something else before.
-/
import Mathlib.Logic.Function.Basic
import Plantkeeper.Domain.Household
import Plantkeeper.Garden.Commands
import Plantkeeper.Idempotency.Create

namespace Plantkeeper.Garden.AddPlant

open Idempotency (Key Library IdempotencyRecord Failure replayed requestFingerprint)

/-! ## Requests -/

structure AddPlantCommand where
  householdId : HouseholdId
  speciesId : SpeciesId
  name : List Char
  location : Location
  idempotencyKey : Option Key
  deriving DecidableEq

/-- The command as `commit_create` takes it. -/
def AddPlantCommand.toCreate (c : AddPlantCommand) : Idempotency.Command :=
  ⟨.plant c.householdId c.speciesId c.name c.location, c.idempotencyKey⟩

inductive Request
  | addPlant (command : AddPlantCommand)
  | removePlant (plantId : PlantId)
  deriving DecidableEq

structure PlantView where
  plantId : PlantId
  householdId : HouseholdId
  speciesId : SpeciesId
  name : Name
  location : Location
  addedAt : Instant
  lastWateredAt : Option Instant
  removed : Bool
  deriving DecidableEq

/-- `PlantView.from_domain`. -/
def PlantView.fromDomain (p : Plant) : PlantView :=
  ⟨p.id, p.householdId, p.speciesId, p.name, p.location, p.addedAt, p.lastWateredAt, p.removed⟩

/-- What the handlers' own code raises. -/
inductive Error
  | notFound
  | plant (error : Garden.Error)
  | household (error : HouseholdError)
  deriving DecidableEq

/-! ## Transactions -/

variable {Json Digest : Type}

/-- The statement a request is at. `AddPlant`: the lookup of its key, the household's row, its plants, the
commit, and the second lookup. `RemovePlant`: `plants.get`, `plants.save` and the commit, with the row as
the save saw it. Then how it ended; `gone` is a request given up for an error of the database or a crash. -/
inductive Pc (Json Digest : Type)
  | lookup
  | getForUpdate
  | plantIds (name : List Char)
  | commit (plant : Plant) (events : List Event) (record : Option (IdempotencyRecord Json Digest))
  | reread
  | get
  | save (plant : Plant) (events : List Event)
  | commitRemoval (plant : Plant) (events : List Event) (seen : Plant)
  | returned (view : PlantView)
  | raised (failure : Failure Error)
  | gone

/-- The request has not ended. -/
def Pc.isOpen : Pc Json Digest → Bool
  | .returned _ | .raised _ | .gone => false
  | _ => true

/-- What the request was refused with. -/
def Pc.failure : Pc Json Digest → Option (Failure Error)
  | .raised failure => some failure
  | _ => none

def Pc.ofResult : Except (Failure Error) PlantView → Pc Json Digest
  | .ok view => .returned view
  | .error failure => .raised failure

structure Tx (Json Digest : Type) where
  request : Request
  pc : Pc Json Digest

/-- The household's row by its name, if it is there, and who holds its lock; the plants, the outbox and the
stored responses; and the requests. -/
structure World (Json Digest : Type) where
  householdId : HouseholdId
  household : Option (List Char)
  lock : Option ℕ
  plants : List Plant
  outbox : List Event
  responses : List (IdempotencyRecord Json Digest)
  txs : ℕ → Option (Tx Json Digest)

/-- The rows of the household's plants that are not removed. -/
def members (w : World Json Digest) : List Plant :=
  w.plants.filter fun p => p.householdId = w.householdId && !p.removed

/-- `idempotency.get`. -/
def stored (responses : List (IdempotencyRecord Json Digest)) (key : Key) : Option (IdempotencyRecord Json Digest) :=
  responses.find? fun r => r.key = key

/-- What a statement gets from outside: a new `PlantId`, and two readings of the clock. -/
structure Env where
  plantId : PlantId
  now : Instant
  createdAt : Instant
  deriving DecidableEq

/-- `_add` after the household's plants were read. -/
def add (c : AddPlantCommand) (name : List Char) (plantIds : List PlantId) (env : Env) : Except Error (Plant × List Event) :=
  match Household.ofStored c.householdId name plantIds with
  | .error e => .error (.household e)
  | .ok household =>
    match Plant.add env.plantId c.householdId c.speciesId c.name c.location env.now with
    | .error e => .error (.plant e)
    | .ok (plant, events) =>
      match household.addPlant plant.id with
      | .error e => .error (.household e)
      | .ok _ => .ok (plant, events)

def CREATED : ℕ := 201

/-- The response to remember, with a key. -/
def remember (lib : Library PlantView Json Digest) (c : AddPlantCommand) (plant : Plant) (createdAt : Instant) :
    Except (Failure Error) (Option (IdempotencyRecord Json Digest)) :=
  match c.idempotencyKey with
  | none => .ok none
  | some key =>
    if h : key.text = [] then .error .validation
    else .ok (some ⟨key, h, requestFingerprint lib c.toCreate, CREATED, lib.modelDump (.fromDomain plant), createdAt⟩)

/-- `commit_create` up to the commit: what is staged. -/
def create (lib : Library PlantView Json Digest) (c : AddPlantCommand) (name : List Char) (plantIds : List PlantId)
    (env : Env) : Pc Json Digest :=
  match add c name plantIds env with
  | .error e => .raised (.operation e)
  | .ok (plant, events) =>
    match remember lib c plant env.createdAt with
    | .error f => .raised f
    | .ok record => .commit plant events record

/-- The unique key column refuses the response. -/
def taken (responses : List (IdempotencyRecord Json Digest)) (record : Option (IdempotencyRecord Json Digest)) : Bool :=
  record.any fun r => (stored responses r.key).isSome

namespace World

variable (w : World Json Digest)

/-- The request goes on, or ends, which ends its transaction and releases its lock. -/
def goto (i : ℕ) (request : Request) (pc : Pc Json Digest) : World Json Digest :=
  { w with
    txs := Function.update w.txs i (some ⟨request, pc⟩)
    lock := if pc.isOpen then w.lock else if w.lock = some i then none else w.lock }

/-- The transaction is rolled back and the request goes on in another. -/
def rollback (i : ℕ) (request : Request) (pc : Pc Json Digest) : World Json Digest :=
  { w.goto i request pc with lock := if w.lock = some i then none else w.lock }

/-- `UPDATE … WHERE id = plant_id` of the columns in which the aggregate differs from the row it was compared with. -/
def update (plantId : PlantId) (seen plant : Plant) : List Plant :=
  w.plants.map fun row => if row.id = plantId then Garden.plants.merge seen plant row else row

end World

variable [DecidableEq Digest] (lib : Library PlantView Json Digest)

/-- The lookup of the key: a stored response is replayed. -/
def lookup (responses : List (IdempotencyRecord Json Digest)) (c : AddPlantCommand) (missing : Pc Json Digest) :
    Pc Json Digest :=
  match c.idempotencyKey.bind (stored responses) with
  | some r => .ofResult (replayed lib c.toCreate r)
  | none => missing

/-- The next statement of a request. `none` is the wait for the lock; nothing deletes a row, so a save finds
the one that was read, and a new identifier is one that no row has. -/
def execute (w : World Json Digest) (i : ℕ) (tx : Tx Json Digest) (env : Env) : Option (World Json Digest) :=
  match tx.request, tx.pc with
  | .addPlant c, .lookup => some (w.goto i tx.request (lookup lib w.responses c .getForUpdate))
  | .addPlant _, .getForUpdate =>
    match w.household, w.lock with
    | none, _ => some (w.goto i tx.request (.raised (.operation .notFound)))
    | some name, none => some { w.goto i tx.request (.plantIds name) with lock := some i }
    | some _, some _ => none
  | .addPlant c, .plantIds name =>
    if env.plantId ∈ w.plants.map (·.id) then none
    else some (w.goto i tx.request (create lib c name ((members w).map (·.id)) env))
  | .addPlant _, .commit plant events record =>
    if taken w.responses record then some (w.rollback i tx.request .reread)
    else
      some { w.goto i tx.request (.returned (.fromDomain plant)) with
        plants := w.plants ++ [plant]
        outbox := w.outbox ++ events
        responses := w.responses ++ record.toList }
  | .addPlant c, .reread => some (w.goto i tx.request (lookup lib w.responses c (.raised .concurrentWrite)))
  | .removePlant plantId, .get =>
    match w.plants.find? fun p => p.id = plantId with
    | none => some (w.goto i tx.request (.raised (.operation .notFound)))
    | some p =>
      match p.remove env.now with
      | .error e => some (w.goto i tx.request (.raised (.operation (.plant e))))
      | .ok (plant, events) => some (w.goto i tx.request (.save plant events))
  | .removePlant plantId, .save plant events =>
    (w.plants.find? fun p => p.id = plantId).map fun seen => w.goto i tx.request (.commitRemoval plant events seen)
  | .removePlant plantId, .commitRemoval plant events seen =>
    some { w.goto i tx.request (.returned (.fromDomain plant)) with
      plants := w.update plantId seen plant
      outbox := w.outbox ++ events }
  | _, _ => none

def Request.start : Request → Pc Json Digest
  | .addPlant c => if c.idempotencyKey.isNone then .getForUpdate else .lookup
  | .removePlant _ => .get

/-- A request on the household. -/
def Request.isOn (householdId : HouseholdId) : Request → Bool
  | .addPlant c => c.householdId = householdId
  | .removePlant _ => true

/-- A request comes, executes its next statement, or is given up. -/
inductive Action
  | start (i : ℕ) (request : Request)
  | execute (i : ℕ) (env : Env)
  | giveUp (i : ℕ)
  deriving DecidableEq

def step (w : World Json Digest) : Action → Option (World Json Digest)
  | .start i request =>
    match w.txs i with
    | none => if request.isOn w.householdId then some (w.goto i request request.start) else none
    | some _ => none
  | .execute i env =>
    match w.txs i with
    | none => none
    | some tx => execute lib w i tx env
  | .giveUp i =>
    match w.txs i with
    | none => none
    | some tx => if tx.pc.isOpen then some (w.goto i tx.request .gone) else none

end Plantkeeper.Garden.AddPlant
