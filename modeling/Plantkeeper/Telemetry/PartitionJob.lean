/-
`TelemetryPartitionJob.run_once` over Postgres. A row goes to the partition whose range holds its instant
and otherwise to the default one, and a partition is not created over a range that meets another's or
that a row of the default partition lies in. A tick is one transaction: whatever it raises, the database
is as before.
-/
import Plantkeeper.Domain.Identifiers
import Plantkeeper.Telemetry.Partitions

namespace Plantkeeper.Telemetry.Partitions

open Fold

/-! ## The partitioned table -/

/-- How the session reads a bound: midnight of a date in its time zone. -/
structure SessionTimeZone where
  midnight : Date → Instant
  mono : ∀ {a b : Date}, a < b → midnight a < midnight b

def utc : SessionTimeZone := ⟨Date.midnight, Date.midnight_lt⟩

/-- The key of a row of `sensor_readings`. -/
structure Reading where
  sensorId : Uuid
  recordedAt : Instant
  deriving DecidableEq, Repr

/-- A partition: its bounds, which the default one has none of, and its rows. -/
structure Partition where
  relname : Relname
  bounds : Option (Date × Date)
  rows : List Reading
  deriving DecidableEq

structure Database where
  parentExists : Bool
  partitions : List Partition
  deriving DecidableEq

/-- What the migration leaves: the table and its default partition. -/
def Database.migrated : Database := ⟨true, [⟨unqualified defaultPartitionName, none, []⟩]⟩

/-- `existing_partitions`. -/
def Database.existingPartitions (db : Database) : List Relname := db.partitions.map (·.relname)

variable (zone : SessionTimeZone)

/-- The instant lies in the range of the bounds. -/
def Within (bounds : Date × Date) (t : Instant) : Prop := zone.midnight bounds.1 ≤ t ∧ t < zone.midnight bounds.2

instance (bounds : Date × Date) (t : Instant) : Decidable (Within zone bounds t) :=
  inferInstanceAs (Decidable (_ ∧ _))

/-- The partition's own range holds the instant. -/
def Partition.Holds (p : Partition) (t : Instant) : Prop := ∃ bounds ∈ p.bounds, Within zone bounds t

instance (p : Partition) (t : Instant) : Decidable (p.Holds zone t) :=
  match h : p.bounds with
  | none => isFalse fun ⟨_, hb, _⟩ => by rw [h] at hb; cases hb
  | some bounds =>
    if hw : Within zone bounds t then isTrue ⟨bounds, h, hw⟩
    else isFalse fun ⟨b, hb, hbw⟩ => by rw [h] at hb; cases hb; exact hw hbw

/-- The row goes to this partition. -/
def Database.Routes (db : Database) (t : Instant) (p : Partition) : Prop :=
  p.Holds zone t ∨ p.bounds = none ∧ ∀ q ∈ db.partitions, ¬ q.Holds zone t

instance (db : Database) (t : Instant) (p : Partition) : Decidable (db.Routes zone t p) :=
  inferInstanceAs (Decidable (_ ∨ _ ∧ _))

/-- `INSERT … ON CONFLICT DO NOTHING`. -/
def Partition.insert (p : Partition) (r : Reading) : Partition := if r ∈ p.rows then p else { p with rows := p.rows ++ [r] }

@[simp] theorem Partition.relname_insert (p : Partition) (r : Reading) : (p.insert r).relname = p.relname := by
  unfold Partition.insert; split <;> rfl

@[simp] theorem Partition.bounds_insert (p : Partition) (r : Reading) : (p.insert r).bounds = p.bounds := by
  unfold Partition.insert; split <;> rfl

theorem Partition.mem_insert {p : Partition} {r x : Reading} : x ∈ (p.insert r).rows ↔ x ∈ p.rows ∨ x = r := by
  unfold Partition.insert
  split
  · rename_i hin
    exact ⟨.inl, fun h => h.elim (fun h => h) fun h => h ▸ hin⟩
  · rw [List.mem_append, List.mem_singleton]

def Database.insert (db : Database) (r : Reading) : Database :=
  { db with partitions := db.partitions.map fun p => if db.Routes zone r.recordedAt p then p.insert r else p }

/-- Two ranges meet. -/
def Overlap (a b : Date × Date) : Prop := zone.midnight a.1 < zone.midnight b.2 ∧ zone.midnight b.1 < zone.midnight a.2

instance (a b : Date × Date) : Decidable (Overlap zone a b) := inferInstanceAs (Decidable (_ ∧ _))

/-- Why a partition over the bounds is refused: its range meets another's, or a default row lies in it. -/
def Database.Refuses (db : Database) (bounds : Date × Date) : Prop :=
  ∃ p ∈ db.partitions, (∃ b ∈ p.bounds.toList, Overlap zone b bounds) ∨
    p.bounds = none ∧ ∃ r ∈ p.rows, Within zone bounds r.recordedAt

instance (db : Database) (bounds : Date × Date) : Decidable (db.Refuses zone bounds) :=
  inferInstanceAs (Decidable (∃ p ∈ db.partitions, _))

/-- A statement of the job; `none` is Postgres' error. -/
def Database.execute (db : Database) : Statement → Option Database
  | .createDefault name _ =>
    if unqualified name ∈ db.existingPartitions then some db
    else if ∃ p ∈ db.partitions, p.bounds = none then none
    else some { db with partitions := db.partitions ++ [⟨unqualified name, none, []⟩] }
  | .createMonth name _ lower upper =>
    if unqualified name ∈ db.existingPartitions then some db
    else if db.Refuses zone (lower, upper) then none
    else some { db with partitions := db.partitions ++ [⟨unqualified name, some (lower, upper), []⟩] }
  | .drop name => some { db with partitions := db.partitions.filter fun p => p.relname ≠ unqualified name }

/-! ## The job -/

/-- How a tick fails: a `ValueError` of the arithmetic, or a refused statement. -/
inductive TickError
  | value (e : ValueError)
  | refused (name : Relname)
  deriving DecidableEq, Repr

def Database.executeNamed (db : Database) (name : Relname) (statement : Statement) : Except TickError Database :=
  match db.execute zone statement with
  | some db => .ok db
  | none => .error (.refused name)

/-- One turn of the loop of `ensure_telemetry_partitions`. -/
def ensureStep (present : List Relname) (s : Database × List Relname) (x : Relname × Statement) :
    Except TickError (Database × List Relname) :=
  if unqualified x.1 ∈ present then .ok s
  else (s.1.executeNamed zone x.1 x.2).map fun db => (db, s.2 ++ [x.1])

/-- `ensure_telemetry_partitions`, and the names it returns. -/
def ensureTelemetryPartitions (db : Database) (today : Date) (monthsAhead : ℤ) : Except TickError (Database × List Relname) :=
  if db.parentExists then do
    let statements ← (statementsFor today monthsAhead).mapError .value
    statements.foldlM (ensureStep zone db.existingPartitions) (db, [])
  else .ok (db, [])

/-- One turn of the loop of `drop_expired_partitions`. -/
def dropStep (s : Database × List Relname) (x : Date × Relname) : Except TickError (Database × List Relname) :=
  (s.1.executeNamed zone x.2 (dropStatement x.1)).map fun db => (db, s.2 ++ [x.2])

/-- `drop_expired_partitions`, and the names it returns. -/
def dropExpiredPartitions (db : Database) (today : Date) (retentionMonths : ℤ) : Except TickError (Database × List Relname) :=
  if db.parentExists then do
    let expired ← (expiredPartitions db.existingPartitions today retentionMonths).mapError .value
    expired.foldlM (dropStep zone) (db, [])
  else .ok (db, [])

/-- What a committed tick did. -/
structure Tick where
  db : Database
  created : List Relname
  dropped : List Relname
  deriving DecidableEq

/-- `run_once`. Each of the two reads the clock for itself. -/
def runOnce (db : Database) (today later : Date) (monthsAhead retentionMonths : ℤ) : Except TickError Tick := do
  let (db, created) ← ensureTelemetryPartitions zone db today monthsAhead
  let (db, dropped) ← dropExpiredPartitions zone db later retentionMonths
  return ⟨db, created, dropped⟩

end Plantkeeper.Telemetry.Partitions
