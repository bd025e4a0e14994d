/-
The writers of the journal as interleaved transactions: the `AddJournalEntry` command and the delivery
of a `WateringCompleted` to the journal's consumer. A step is one statement. A reader sees the committed
rows; an append is flushed at once and meets the unique keys of the store there, waiting for a
transaction that has inserted one of its keys and not ended; everything else is written at the commit.
The deliveries of an event may be repeated, at the same time or later, and the ledger may be lost
between them.
-/
import Mathlib.Logic.Function.Basic
import Plantkeeper.Journal.Snapshots
import Plantkeeper.Lib.Run

namespace Plantkeeper.Journal

/-- The facts the consumer reads of a `WateringCompleted`. -/
structure WateringCompleted where
  eventId : Uuid
  plantId : PlantId
  completedAt : Instant
  deriving DecidableEq

/-- What a transaction is opened for. -/
inductive Job
  | addJournalEntry (plantId : PlantId) (entryType : JournalEntryType) (occurredAt : Option Instant)
      (note : Option (List Char)) (entryId : Option JournalEntryId)
  | watering (event : WateringCompleted)
  deriving DecidableEq

def Job.plantId : Job → PlantId
  | .addJournalEntry plantId .. => plantId
  | .watering event => event.plantId

/-- The clock reading of a transaction and the identifiers it draws. -/
structure Drawn where
  now : Instant
  mintedId : JournalEntryId
  eventId : Uuid
  deriving DecidableEq

/-- The statement a transaction is at, with what it has read. -/
inductive Pc
  /-- `processed_events.claim` of a delivery -/
  | claim
  /-- `plants.get` of the command, `plant_refs.get` of the consumer -/
  | getPlant
  | latest
  | loadStream (state : Option JournalState)
  /-- `event_store.append` -/
  | append (expectedVersion : ℕ) (entry : JournalEntry) (events : List JournalEntryAdded) (snapshot : Option JournalState)
  | commit
  deriving DecidableEq

/-- An open transaction, with its claim and the rows it has added to its session. -/
structure Writer where
  job : Job
  drawn : Drawn
  pc : Pc
  claimed : List Uuid
  rows : List EventRow
  outbox : List JournalEntryAdded
  entries : List JournalEntry
  snapshots : List JournalState
  deriving DecidableEq

/-- The unique keys a transaction inserts before its commit. -/
inductive Key
  | delivery (eventId : Uuid)
  | version (streamId : PlantId) (version : ℕ)
  | event (eventId : Uuid)
  deriving DecidableEq

/-- The committed tables: the plants of the Garden and the journal's own references to them, the
consumer's ledger, and what the journal writes. -/
structure Tables where
  plants : List PlantId
  plantRefs : List PlantId
  ledger : List Uuid
  eventStore : List EventRow
  outbox : List JournalEntryAdded
  journalEntries : List JournalEntry
  snapshots : List JournalState

/-- The tables, the open transactions, and the keys these have inserted with their owners. `log` is no
table: it says for which job each stored event was committed. -/
structure World where
  tables : Tables
  writers : ℕ → Option Writer
  keys : List (Key × ℕ)
  log : List (Job × JournalEntryAdded)

def World.empty : World :=
  { tables := { plants := [], plantRefs := [], ledger := [], eventStore := [], outbox := [], journalEntries := [],
                snapshots := [] }
    writers := fun _ => none
    keys := []
    log := [] }

/-- The first statement of a job. -/
def Job.start : Job → Pc
  | .addJournalEntry .. => .getPlant
  | .watering _ => .claim

def Writer.opened (job : Job) (drawn : Drawn) : Writer :=
  { job := job, drawn := drawn, pc := job.start, claimed := [], rows := [], outbox := [], entries := [], snapshots := [] }

namespace World

/-- The transaction goes on. -/
def put (w : World) (i : ℕ) (x : Writer) : World := { w with writers := Function.update w.writers i (some x) }

/-- The transaction is over: what it has not committed is gone. -/
def close (w : World) (i : ℕ) : World :=
  { w with writers := Function.update w.writers i none, keys := w.keys.filter fun k => k.2 != i }

/-- Another transaction has inserted one of the keys and has not ended. -/
def waits (w : World) (i : ℕ) (ks : List Key) : Bool := w.keys.any fun k => k.1 ∈ ks && k.2 != i

def insert (w : World) (i : ℕ) (ks : List Key) : World := { w with keys := w.keys ++ ks.map fun k => (k, i) }

end World

/-- The keys of rows of the store. -/
def keysOf (rows : List EventRow) : List Key :=
  rows.flatMap fun r => [.version r.streamId r.version, .event r.document.eventId]

/-- An `IntegrityError` at the flush of an append: a row of the store has one of the keys. -/
def clashes (t : Tables) (rows : List EventRow) : Bool := (keysOf t.eventStore).any fun k => k ∈ keysOf rows

/-- An `IntegrityError` at the commit: the event is in the outbox, the entry in the mirror, or a
snapshot of that version is stored. -/
def violates (t : Tables) (x : Writer) : Bool :=
  (x.outbox.any fun e => e.eventId ∈ t.outbox.map (·.eventId)) ||
    (x.entries.any fun e => e.id ∈ t.journalEntries.map (·.id)) ||
    x.snapshots.any fun s => (s.plantId, s.version) ∈ t.snapshots.map fun s => (s.plantId, s.version)

/-- The rows of a transaction are committed. -/
def Tables.write (t : Tables) (x : Writer) : Tables :=
  { t with
    ledger := t.ledger ++ x.claimed
    eventStore := t.eventStore ++ x.rows
    outbox := t.outbox ++ x.outbox
    journalEntries := t.journalEntries ++ x.entries
    snapshots := t.snapshots ++ x.snapshots }

section

variable (names : Naming)

/-- `watering_entry_id`. -/
def wateringEntryId (plantId : PlantId) (completedAt : Instant) : JournalEntryId :=
  names.uuid5 ("plantkeeper:journal:watering:" ++ names.str plantId ++ ":" ++ names.isoformat completedAt)

/-- The arguments of `record_journal_entry`. The consumer derives the entry's identifier from the event. -/
def Job.newEntry (job : Job) (d : Drawn) : NewEntry :=
  match job with
  | .addJournalEntry _ entryType occurredAt note entryId =>
    ⟨entryType, occurredAt.getD d.now, d.now, note, entryId, d.mintedId, d.eventId⟩
  | .watering event =>
    ⟨.watering, event.completedAt, d.now, none, some (wateringEntryId names event.plantId event.completedAt), d.mintedId, d.eventId⟩

/-- A missing plant: the command is refused; the consumer drops the watering and commits its claim. -/
def withoutPlant (w : World) (i : ℕ) (x : Writer) : World :=
  match x.job with
  | .addJournalEntry .. => w.close i
  | .watering _ => w.put i { x with pc := .commit }

def plantKnown (t : Tables) : Job → Bool
  | .addJournalEntry plantId .. => plantId ∈ t.plants
  | .watering event => event.plantId ∈ t.plantRefs

/-- `record_journal_entry` with the aggregate it has loaded. -/
def recorded (w : World) (i : ℕ) (x : Writer) (a : JournalAggregate) : World :=
  match record a (x.job.newEntry names x.drawn) with
  | .existing _ => w.put i { x with pc := .commit }
  | .refused _ => w.close i
  | .append v entry events snapshot => w.put i { x with pc := .append v entry events snapshot }

/-- The flush of `event_store.append`. A clash raises and rolls the transaction back. -/
def flush (w : World) (i : ℕ) (x : Writer) (v : ℕ) (entry : JournalEntry) (events : List JournalEntryAdded)
    (snapshot : Option JournalState) : Option World :=
  let rows := rowsFrom x.job.plantId (v + 1) events
  if clashes w.tables rows then some (w.close i)
  else if w.waits i (keysOf rows) then none
  else some ((w.insert i (keysOf rows)).put i
    { x with pc := .commit, rows := rows, outbox := events, entries := [entry], snapshots := snapshot.toList })

/-- The next statement of a transaction; `none` is a wait. -/
def execute (w : World) (i : ℕ) (x : Writer) : Option World :=
  match x.pc with
  | .claim =>
    match x.job with
    | .addJournalEntry .. => none
    | .watering event =>
      if event.eventId ∈ w.tables.ledger then some (w.close i)
      else if w.waits i [.delivery event.eventId] then none
      else some ((w.insert i [.delivery event.eventId]).put i { x with pc := .getPlant, claimed := [event.eventId] })
  | .getPlant =>
    if plantKnown w.tables x.job then some (w.put i { x with pc := .latest }) else some (withoutPlant w i x)
  | .latest => some (w.put i { x with pc := .loadStream (latest w.tables.snapshots x.job.plantId) })
  | .loadStream state =>
    match loadAfter state w.tables.eventStore x.job.plantId with
    | .error _ => some (w.close i)
    | .ok a => some (recorded names w i x a)
  | .append v entry events snapshot => flush w i x v entry events snapshot
  | .commit =>
    if violates w.tables x then some (w.close i)
    else some { w.close i with
      tables := w.tables.write x
      log := w.log ++ x.outbox.map fun e => (x.job, e) }

/-- A transaction begins, goes on, or fails at its statement (an error, a failed commit, a crash); rows
of the ledger are lost; plants become known to the Garden, and known to the journal or forgotten by it. -/
inductive Action
  | start (i : ℕ) (job : Job) (drawn : Drawn)
  | execute (i : ℕ)
  | fail (i : ℕ)
  | loseLedger (eventIds : List Uuid)
  | addPlant (plantId : PlantId)
  | addPlantRef (plantId : PlantId)
  | removePlantRef (plantId : PlantId)
  deriving DecidableEq

def step (w : World) : Action → Option World
  | .start i job drawn =>
    match w.writers i with
    | none => some (w.put i (.opened job drawn))
    | some _ => none
  | .execute i => (w.writers i).bind fun x => execute names w i x
  | .fail i => some (w.close i)
  | .loseLedger eventIds => some { w with tables := { w.tables with ledger := w.tables.ledger.filter (· ∉ eventIds) } }
  | .addPlant p => some { w with tables := { w.tables with plants := w.tables.plants ++ [p] } }
  | .addPlantRef p => some { w with tables := { w.tables with plantRefs := w.tables.plantRefs ++ [p] } }
  | .removePlantRef p => some { w with tables := { w.tables with plantRefs := w.tables.plantRefs.filter (· ≠ p) } }

end

end Plantkeeper.Journal
