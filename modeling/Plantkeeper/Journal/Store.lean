/-
The journal's event store: the rows of `event_store` and `journal_snapshots`, how an aggregate is
loaded from them, and what appending one entry writes. A stream is stored when the table's rows for
it are its events at versions 1 to n; the rows of other streams and the order of the table do not
matter.
-/
import Plantkeeper.Domain.Journal

namespace Plantkeeper.Journal

/-! ## The tables -/

/-- The document of a row of `event_store`: the one event of the journal, or one of another class. -/
inductive StoredDocument
  | journalEntryAdded (event : JournalEntryAdded)
  | other (eventId : Uuid) (eventType : String)
  deriving DecidableEq

def StoredDocument.eventId : StoredDocument → Uuid
  | .journalEntryAdded event => event.eventId
  | .other eventId _ => eventId

/-- A row of `write_journal.event_store`. -/
structure EventRow where
  streamId : PlantId
  version : ℕ
  document : StoredDocument
  deriving DecidableEq

/-- `load_stream`. -/
def loadStream (rows : List EventRow) (streamId : PlantId) (afterVersion : ℕ) : List EventRow :=
  (rows.filter fun r => r.streamId = streamId && afterVersion < r.version).insertionSort fun a b => a.version ≤ b.version

/-- `latest` of the snapshots: the one with the greatest version. -/
def latest (snapshots : List JournalState) (plantId : PlantId) : Option JournalState :=
  ((snapshots.filter fun s => s.plantId = plantId).insertionSort fun a b => b.version ≤ a.version).head?

theorem mem_of_latest {snapshots : List JournalState} {p : PlantId} {s : JournalState}
    (h : latest snapshots p = some s) : s ∈ snapshots ∧ s.plantId = p := by
  have hs := List.mem_of_mem_head? h
  rw [List.mem_insertionSort, List.mem_filter] at hs
  exact ⟨hs.1, by simpa using hs.2⟩

/-! ## Loading -/

inductive LoadError
  | jumps (version expected : ℕ)
  | notAJournalEvent (eventType : String)
  | journal (error : JournalError)
  deriving DecidableEq

/-- The loop of `load_journal_aggregate`. -/
def replay : JournalAggregate → ℕ → List EventRow → Except LoadError JournalAggregate
  | a, _, [] => .ok a
  | a, expectedVersion, r :: rs =>
    if r.version ≠ expectedVersion then .error (.jumps r.version expectedVersion)
    else match r.document with
      | .other _ eventType => .error (.notAJournalEvent eventType)
      | .journalEntryAdded event =>
        match a.apply event with
        | .error e => .error (.journal e)
        | .ok a => replay a (expectedVersion + 1) rs

/-- `load_journal_aggregate` once the newest snapshot is read. -/
def loadAfter (state : Option JournalState) (rows : List EventRow) (plantId : PlantId) : Except LoadError JournalAggregate :=
  let afterVersion := (state.map (·.version)).getD 0
  let stored := loadStream rows plantId afterVersion
  match state with
  | none => replay (.empty plantId) (afterVersion + 1) stored
  | some state =>
    match JournalAggregate.fromState state with
    | .error e => .error (.journal e)
    | .ok a => replay a (afterVersion + 1) stored

/-- `load_journal_aggregate`. -/
def load (snapshots : List JournalState) (rows : List EventRow) (plantId : PlantId) : Except LoadError JournalAggregate :=
  loadAfter (latest snapshots plantId) rows plantId

/-! ## Appending -/

def SNAPSHOT_EVERY : ℤ := 50

/-- What `record_journal_entry` comes to with the aggregate it loaded. -/
inductive Recording
  | existing (entry : JournalEntry)
  | refused (error : JournalError)
  /-- the events go to the store after this version and to the outbox, the entry to the mirror -/
  | append (expectedVersion : ℕ) (entry : JournalEntry) (events : List JournalEntryAdded) (snapshot : Option JournalState)

/-- `record_journal_entry`, after the load. -/
def record (a : JournalAggregate) (n : NewEntry) : Recording :=
  match n.entryId.bind a.entry with
  | some entry => .existing entry
  | none =>
    match a.addEntry n with
    | (_, .error e) => .refused e
    | (a', .ok entry) =>
      .append a.version entry a'.events (if a'.shouldSnapshot SNAPSHOT_EVERY then some a'.state else none)

/-- The rows `append` builds: consecutive versions from the given one. -/
def rowsFrom (streamId : PlantId) : ℕ → List JournalEntryAdded → List EventRow
  | _, [] => []
  | version, e :: es => ⟨streamId, version, .journalEntryAdded e⟩ :: rowsFrom streamId (version + 1) es

section

variable {p : PlantId} {es : List JournalEntryAdded}

theorem rowsFrom_append (v : ℕ) (es fs : List JournalEntryAdded) :
    rowsFrom p v (es ++ fs) = rowsFrom p v es ++ rowsFrom p (v + es.length) fs := by
  induction es generalizing v with
  | nil => simp [rowsFrom]
  | cons e es ih => simp [rowsFrom, ih, Nat.add_comm, Nat.add_left_comm]

theorem mem_rowsFrom {v : ℕ} {r : EventRow} (h : r ∈ rowsFrom p v es) : r.streamId = p ∧ v ≤ r.version := by
  induction es generalizing v with
  | nil => cases h
  | cons e es ih =>
    rcases List.mem_cons.1 h with rfl | h
    · exact ⟨rfl, Nat.le_refl _⟩
    · obtain ⟨hs, hv⟩ := ih h
      exact ⟨hs, by omega⟩

theorem pairwise_rowsFrom (v : ℕ) (es : List JournalEntryAdded) :
    (rowsFrom p v es).Pairwise fun a b => a.version < b.version := by
  induction es generalizing v with
  | nil => exact List.Pairwise.nil
  | cons e es ih =>
    refine List.Pairwise.cons ?_ (ih (v + 1))
    intro r hr
    exact (mem_rowsFrom hr).2

theorem versions_rowsFrom (v : ℕ) (es : List JournalEntryAdded) :
    (rowsFrom p v es).map (·.version) = List.range' v es.length := by
  induction es generalizing v with
  | nil => rfl
  | cons e es ih => simp [rowsFrom, ih, List.range'_succ]

theorem nodup_rowsFrom (v : ℕ) (es : List JournalEntryAdded) : ((rowsFrom p v es).map (·.version)).Nodup := by
  rw [versions_rowsFrom]
  exact List.nodup_range'

/-- What is left of a stream after a version. -/
theorem filter_rowsFrom (m v : ℕ) (es : List JournalEntryAdded) :
    (rowsFrom p v es).filter (fun r => m < r.version) = rowsFrom p (max v (m + 1)) (es.drop (m + 1 - v)) := by
  induction es generalizing v with
  | nil => simp [rowsFrom]
  | cons e es ih =>
    simp only [rowsFrom, List.filter_cons]
    by_cases hv : m < v
    · have hmax : max v (m + 1) = v := by omega
      have hmax' : max (v + 1) (m + 1) = v + 1 := by omega
      have hsub : m + 1 - v = 0 := by omega
      have hsub' : m + 1 - (v + 1) = 0 := by omega
      simp [hv, ih, hmax, hmax', hsub, hsub', rowsFrom]
    · have hmax : max v (m + 1) = max (v + 1) (m + 1) := by omega
      have hsub : m + 1 - v = (m + 1 - (v + 1)) + 1 := by omega
      simp [hv, ih, hmax, hsub]

/-- The table holds exactly the events of the stream, at versions 1 to n and in any order. -/
def Stores (rows : List EventRow) (p : PlantId) (es : List JournalEntryAdded) : Prop :=
  (rows.filter fun r => r.streamId = p).Perm (rowsFrom p 1 es)

theorem loadStream_eq {rows : List EventRow} (h : Stores rows p es) (m : ℕ) :
    loadStream rows p m = rowsFrom p (m + 1) (es.drop m) := by
  have hfilter : (rows.filter fun r => r.streamId = p && m < r.version).Perm (rowsFrom p (m + 1) (es.drop m)) := by
    have := h.filter fun r => decide (m < r.version)
    rw [filter_rowsFrom, List.filter_filter] at this
    simpa [Bool.and_comm, Nat.max_eq_right (Nat.succ_le_succ (Nat.zero_le m))] using this
  have hpw := pairwise_rowsFrom (p := p) (m + 1) (es.drop m)
  have hperm := (List.perm_insertionSort (fun a b : EventRow => a.version ≤ b.version) _).trans hfilter
  refine hperm.eq_of_pairwise ?_ (@List.pairwise_insertionSort _ _ _ ?_ ?_ _) (hpw.imp Nat.le_of_lt)
  · -- two rows of the stream with one version are one row
    intro a b ha hb hab hba
    exact List.inj_on_of_nodup_map (nodup_rowsFrom _ _) (hperm.subset ha) hb (Nat.le_antisymm hab hba)
  · exact ⟨fun a b => Nat.le_total _ _⟩
  · exact ⟨fun a b c => Nat.le_trans⟩

end

end Plantkeeper.Journal
