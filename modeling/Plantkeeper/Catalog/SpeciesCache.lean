/-
The species cache and what reads and drops its entries. `GetSpeciesQueryHandler` looks in the cache, reads
the catalogue on a miss and sets what it read; `SpeciesCacheConsumer` drops the entry of a species when an
event of the outbox declares it stale. Queries interleave at each of these operations with the commits of
the catalogue and the deliveries of its events. Cache operations succeed and entries do not expire.
-/
import Mathlib.Logic.Function.Basic
import Plantkeeper.Domain.Species
import Plantkeeper.Lib.Run

namespace Plantkeeper.Catalog

/-- `SpeciesView`. -/
structure SpeciesView where
  speciesId : SpeciesId
  scientificName : Name
  commonName : Name
  wateringInterval : Duration
  lightRequirement : LightRequirement
  version : ℕ
  deriving DecidableEq

def SpeciesView.fromDomain (s : Species) : SpeciesView :=
  ⟨s.id, s.scientificName, s.commonName, s.wateringInterval.value, s.lightRequirement, s.version⟩

/-- The operation a query is at: the cache's `get`, the repository's, the cache's `set`. -/
inductive Pc
  | get
  | read
  | set (view : SpeciesView)
  deriving DecidableEq

/-- A `GetSpeciesQuery`, and the version of its species that the consumer had processed when it started. -/
structure Query where
  speciesId : SpeciesId
  since : ℕ
  pc : Pc
  deriving DecidableEq

/-- What a query returned; `none` is the `NotFoundError`. -/
structure Answer where
  speciesId : SpeciesId
  since : ℕ
  view : Option SpeciesView
  deriving DecidableEq

/-- The catalogue's rows and its events as they are committed, the cache, the open queries, the latest version
of each species that a processed event announced, and the answers given. -/
structure World where
  species : SpeciesId → Option Species
  outbox : List CatalogEvent
  cache : SpeciesId → Option SpeciesView
  queries : ℕ → Option Query
  processed : SpeciesId → ℕ
  answers : List Answer

namespace World

def empty : World := ⟨fun _ => none, [], fun _ => none, fun _ => none, fun _ => 0, []⟩

variable (w : World)

def goto (i : ℕ) (q : Query) : World := { w with queries := Function.update w.queries i (some q) }

def close (i : ℕ) : World := { w with queries := Function.update w.queries i none }

def respond (i : ℕ) (q : Query) (view : Option SpeciesView) : World :=
  { w.close i with answers := w.answers ++ [⟨q.speciesId, q.since, view⟩] }

def setCache (view : SpeciesView) : World := { w with cache := Function.update w.cache view.speciesId (some view) }

/-- The next operation of `handle`. -/
def execute (i : ℕ) (q : Query) : World :=
  match q.pc with
  | .get =>
    match w.cache q.speciesId with
    | some cached => w.respond i q (some cached)
    | none => w.goto i { q with pc := .read }
  | .read =>
    match w.species q.speciesId with
    | none => w.respond i q none
    | some species => w.goto i { q with pc := .set (SpeciesView.fromDomain species) }
  | .set view => (w.setCache view).respond i q (some view)

/-- `SpeciesCacheConsumer.handle`: the entry is dropped. The ledger row committed after it keeps later deliveries
from dropping it again. -/
def consume : CatalogEvent → World
  | .speciesAdded .. => w
  | .speciesUpdated s _ =>
    { w with
      cache := Function.update w.cache s.id none
      processed := Function.update w.processed s.id (max (w.processed s.id) s.version) }
  | .speciesCacheInvalidated speciesId _ => { w with cache := Function.update w.cache speciesId none }

/-- The row and its event are committed together. -/
def write (s : Species) (e : CatalogEvent) : World :=
  { w with species := Function.update w.species s.id (some s), outbox := w.outbox ++ [e] }

end World

/-- A species is added to the catalogue or updated, under a lock of its row; the synchronisation declares it stale;
a query starts, goes on or is given up; an event that was committed is delivered. -/
inductive Action
  | add (id : SpeciesId) (scientificName commonName : List Char) (wateringInterval : WateringInterval)
      (lightRequirement : LightRequirement) (now : Instant)
  | update (id : SpeciesId) (scientificName commonName : List Char) (wateringInterval : WateringInterval)
      (lightRequirement : LightRequirement) (now : Instant)
  | invalidate (id : SpeciesId) (now : Instant)
  | start (i : ℕ) (id : SpeciesId)
  | execute (i : ℕ)
  | giveUp (i : ℕ)
  | deliver (event : CatalogEvent)
  deriving DecidableEq

def step (w : World) : Action → Option World
  | .add id scientificName commonName wateringInterval lightRequirement now =>
    match w.species id, Species.add id scientificName commonName wateringInterval lightRequirement now with
    | none, .ok (s, e) => some (w.write s e)
    | _, _ => none
  | .update id scientificName commonName wateringInterval lightRequirement now =>
    match w.species id with
    | none => none
    | some s =>
      match s.update scientificName commonName wateringInterval lightRequirement now s.version with
      | .ok (s', some e) => some (w.write s' e)
      | .ok (_, none) => some w
      | .error _ => none
  | .invalidate id now => some { w with outbox := w.outbox ++ [.speciesCacheInvalidated id now] }
  | .start i id =>
    match w.queries i with
    | none => some (w.goto i ⟨id, w.processed id, .get⟩)
    | some _ => none
  | .execute i => (w.queries i).map (w.execute i)
  | .giveUp i => some (w.close i)
  | .deliver event => if event ∈ w.outbox then some (w.consume event) else none

end Plantkeeper.Catalog
