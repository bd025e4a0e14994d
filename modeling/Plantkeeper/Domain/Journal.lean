/-
The journal of one plant: the entry, the stream that registers entries, and the event-sourced
aggregate over it. A stream cannot hold an entry of another plant or one entry twice; its recording
order is kept apart from the chronological order it answers with.
-/
import Mathlib.Data.List.Sort
import Plantkeeper.Domain.Identifiers
import Plantkeeper.Domain.Text
import Plantkeeper.Domain.Time

namespace Plantkeeper.Journal

abbrev JournalEntryId := Uuid

inductive JournalEntryType
  | watering
  | fertilizing
  | repotting
  | note
  deriving DecidableEq, Repr

inductive JournalError
  | plantMismatch
  | alreadyAppended
  deriving DecidableEq, Repr

/-- `JournalEntryAdded`. -/
structure JournalEntryAdded where
  eventId : Uuid
  entryId : JournalEntryId
  plantId : PlantId
  entryType : JournalEntryType
  note : Option (List Char)
  entryOccurredAt : Instant
  occurredAt : Instant
  deriving DecidableEq

/-! ## Entries -/

/-- A `JournalEntry`. A note is stripped and not blank, as a name is. -/
structure JournalEntry where
  id : JournalEntryId
  plantId : PlantId
  entryType : JournalEntryType
  occurredAt : Instant
  note : Option Name
  deriving DecidableEq

/-- `_normalize_note`. -/
def normalizeNote (note : Option (List Char)) : Option Name := note.bind normalizeName

/-- A note that an entry keeps is kept as it is. -/
theorem normalizeNote_text (note : Option Name) : normalizeNote (note.map Name.text) = note := by
  cases note with
  | none => rfl
  | some n => exact normalizeName_text n

namespace JournalEntry

/-- `JournalEntry(…)`. -/
def new (id : JournalEntryId) (plantId : PlantId) (entryType : JournalEntryType) (occurredAt : Instant)
    (note : Option (List Char)) : JournalEntry :=
  ⟨id, plantId, entryType, occurredAt, normalizeNote note⟩

/-- `JournalEntry.add`: the entry, and the event it records. -/
def add (eventId : Uuid) (id : JournalEntryId) (plantId : PlantId) (entryType : JournalEntryType)
    (occurredAt now : Instant) (note : Option (List Char)) : JournalEntry × List JournalEntryAdded :=
  let entry := new id plantId entryType occurredAt note
  (entry, [⟨eventId, entry.id, plantId, entryType, entry.note.map Name.text, occurredAt, now⟩])

/-- The entry that `JournalAggregate.apply` makes of a stored event. -/
def ofEvent (e : JournalEntryAdded) : JournalEntry := new e.entryId e.plantId e.entryType e.entryOccurredAt e.note

/-- The order of `(occurred_at, id)`. -/
def Before (a b : JournalEntry) : Prop := a.occurredAt < b.occurredAt ∨ a.occurredAt = b.occurredAt ∧ a.id ≤ b.id

instance decidableBefore : DecidableRel Before := fun a b =>
  inferInstanceAs (Decidable (a.occurredAt < b.occurredAt ∨ a.occurredAt = b.occurredAt ∧ a.id ≤ b.id))

instance before_total : Std.Total Before where
  total a b := by
    unfold Before
    rcases Int.lt_trichotomy a.occurredAt b.occurredAt with h | h | h
    · exact .inl (.inl h)
    · rcases Nat.le_total a.id b.id with hid | hid
      · exact .inl (.inr ⟨h, hid⟩)
      · exact .inr (.inr ⟨h.symm, hid⟩)
    · exact .inr (.inl h)

instance before_trans : IsTrans JournalEntry Before where
  trans a b c := by
    rintro (hab | ⟨hab, hid⟩) (hbc | ⟨hbc, hid'⟩)
    · exact .inl (Int.lt_trans hab hbc)
    · exact .inl (hbc ▸ hab)
    · exact .inl (hab ▸ hbc)
    · exact .inr ⟨hab.trans hbc, Nat.le_trans hid hid'⟩

/-- Two entries before each other have the same identifier. -/
theorem id_eq_of_before {a b : JournalEntry} (hab : Before a b) (hba : Before b a) : a.id = b.id := by
  rcases hab with h | ⟨_, h⟩
  · rcases hba with h' | ⟨h', _⟩
    · exact absurd (Int.lt_trans h h') (Int.lt_irrefl _)
    · exact absurd (h' ▸ h) (Int.lt_irrefl _)
  · rcases hba with h' | ⟨_, h'⟩
    · simp_all
    · exact Nat.le_antisymm h h'

end JournalEntry

/-! ## Streams -/

/-- A `JournalStream`: its plant and its entries in the order they were registered. `_entry_ids` is
the set of their identifiers. -/
structure JournalStream where
  plantId : PlantId
  recorded : List JournalEntry
  ofPlant : ∀ e ∈ recorded, e.plantId = plantId
  distinct : (recorded.map (·.id)).Nodup

namespace JournalStream

def empty (plantId : PlantId) : JournalStream := ⟨plantId, [], by simp, by simp⟩

/-- `_register`. -/
def register (s : JournalStream) (e : JournalEntry) : Except JournalError JournalStream :=
  if hp : e.plantId ≠ s.plantId then .error .plantMismatch
  else if hid : e.id ∈ s.recorded.map (·.id) then .error .alreadyAppended
  else .ok
    { plantId := s.plantId
      recorded := s.recorded ++ [e]
      ofPlant := by
        intro x hx
        rcases List.mem_append.1 hx with h | h
        · exact s.ofPlant x h
        · rw [List.mem_singleton.1 h]
          exact not_not.1 hp
      distinct := by
        rw [List.map_append, List.nodup_append']
        refine ⟨s.distinct, List.nodup_singleton _, ?_⟩
        simpa [List.disjoint_singleton] using hid }

/-- `JournalStream(plant_id, entries)`. -/
def ofEntries (plantId : PlantId) (entries : List JournalEntry) : Except JournalError JournalStream :=
  entries.foldlM register (empty plantId)

/-- `entries`, in chronological order. -/
def entries (s : JournalStream) : List JournalEntry := s.recorded.insertionSort JournalEntry.Before

/-- `find`. -/
def find (s : JournalStream) (id : JournalEntryId) : Option JournalEntry := s.recorded.find? fun e => e.id = id

theorem register_eq_ok {s t : JournalStream} {e : JournalEntry} :
    s.register e = .ok t ↔ e.plantId = s.plantId ∧ e.id ∉ s.recorded.map (·.id) ∧
      t.plantId = s.plantId ∧ t.recorded = s.recorded ++ [e] := by
  unfold register
  constructor
  · intro h
    split at h
    · cases h
    · rename_i hp
      split at h
      · cases h
      · rename_i hid
        cases h
        exact ⟨not_not.1 hp, hid, rfl, rfl⟩
  · rintro ⟨hp, hid, htp, htr⟩
    rw [dif_neg (not_not.2 hp), dif_neg hid]
    cases t
    simp_all

/-- An entry that is refused is refused for its plant first, for its identifier otherwise. -/
theorem register_eq_error {s : JournalStream} {e : JournalEntry} {err : JournalError} :
    s.register e = .error err ↔ (e.plantId ≠ s.plantId ∧ err = .plantMismatch) ∨
      (e.plantId = s.plantId ∧ e.id ∈ s.recorded.map (·.id) ∧ err = .alreadyAppended) := by
  unfold register
  constructor
  · intro h
    split at h
    · rename_i hp
      cases h
      exact .inl ⟨hp, rfl⟩
    · rename_i hp
      split at h
      · rename_i hid
        cases h
        exact .inr ⟨not_not.1 hp, hid, rfl⟩
      · cases h
  · rintro (⟨hp, rfl⟩ | ⟨hp, hid, rfl⟩)
    · rw [dif_pos hp]
    · rw [dif_neg (not_not.2 hp), dif_pos hid]

/-- A new entry of the plant is registered last. -/
theorem register_new {s : JournalStream} {e : JournalEntry} (hp : e.plantId = s.plantId)
    (hid : e.id ∉ s.recorded.map (·.id)) :
    ∃ t, s.register e = .ok t ∧ t.plantId = s.plantId ∧ t.recorded = s.recorded ++ [e] := by
  cases hreg : s.register e with
  | error err =>
    rcases register_eq_error.1 hreg with ⟨hne, -⟩ | ⟨-, hin, -⟩
    · exact absurd hp hne
    · exact absurd hin hid
  | ok t =>
    obtain ⟨-, -, htp, htr⟩ := register_eq_ok.1 hreg
    exact ⟨t, rfl, htp, htr⟩

end JournalStream

/-! ## The aggregate -/

/-- One entry of a snapshot. -/
structure JournalEntryState where
  entryId : JournalEntryId
  entryType : JournalEntryType
  occurredAt : Instant
  note : Option (List Char)
  deriving DecidableEq

/-- What a snapshot stores and the temporal query answers with. -/
structure JournalState where
  plantId : PlantId
  version : ℕ
  entries : List JournalEntryState
  deriving DecidableEq

/-- `JournalEntryState.from_domain`. -/
def JournalEntryState.fromDomain (e : JournalEntry) : JournalEntryState :=
  ⟨e.id, e.entryType, e.occurredAt, e.note.map Name.text⟩

/-- `JournalEntryState.to_domain`. -/
def JournalEntryState.toDomain (s : JournalEntryState) (plantId : PlantId) : JournalEntry :=
  .new s.entryId plantId s.entryType s.occurredAt s.note

/-- An entry flattened and rebuilt for its own plant is the entry. -/
theorem toDomain_fromDomain (e : JournalEntry) : (JournalEntryState.fromDomain e).toDomain e.plantId = e := by
  unfold JournalEntryState.fromDomain JournalEntryState.toDomain JournalEntry.new
  rw [normalizeNote_text]

/-- A `JournalAggregate`, with the events that have not reached the store yet. -/
structure JournalAggregate where
  stream : JournalStream
  version : ℕ
  events : List JournalEntryAdded

/-- The arguments of a call of `add_entry`, with the identifiers drawn for it: the event's, and the
entry's where the caller brings none. -/
structure NewEntry where
  entryType : JournalEntryType
  occurredAt : Instant
  now : Instant
  note : Option (List Char)
  entryId : Option JournalEntryId
  mintedId : JournalEntryId
  eventId : Uuid
  deriving DecidableEq

namespace JournalAggregate

/-- `JournalAggregate(plant_id)`. -/
def empty (plantId : PlantId) : JournalAggregate := ⟨.empty plantId, 0, []⟩

def plantId (a : JournalAggregate) : PlantId := a.stream.plantId

def entries (a : JournalAggregate) : List JournalEntry := a.stream.entries

/-- `entry`. -/
def entry (a : JournalAggregate) (id : JournalEntryId) : Option JournalEntry := a.stream.find id

/-- `from_state`. -/
def fromState (s : JournalState) : Except JournalError JournalAggregate :=
  (JournalStream.ofEntries s.plantId (s.entries.map (·.toDomain s.plantId))).map fun stream => ⟨stream, s.version, []⟩

/-- `apply`: folds a stored event in and records nothing. -/
def apply (a : JournalAggregate) (e : JournalEntryAdded) : Except JournalError JournalAggregate :=
  (a.stream.register (.ofEvent e)).map fun stream => { a with stream := stream, version := a.version + 1 }

/-- `add_entry`. The event is recorded before the stream is asked, so it stays behind on the aggregate
when the entry is refused. -/
def addEntry (a : JournalAggregate) (n : NewEntry) : JournalAggregate × Except JournalError JournalEntry :=
  let (entry, events) := JournalEntry.add n.eventId (n.entryId.getD n.mintedId) a.plantId n.entryType n.occurredAt n.now n.note
  let a := { a with events := a.events ++ events }
  match a.stream.register entry with
  | .error e => (a, .error e)
  | .ok stream => ({ a with stream := stream, version := a.version + 1 }, .ok entry)

/-- `state`. -/
def state (a : JournalAggregate) : JournalState := ⟨a.plantId, a.version, a.entries.map .fromDomain⟩

/-- `state_at`. -/
def stateAt (a : JournalAggregate) (moment : Instant) : JournalState :=
  ⟨a.plantId, a.version, (a.entries.filter fun e => e.occurredAt ≤ moment).map .fromDomain⟩

/-- `should_snapshot`. -/
def shouldSnapshot (a : JournalAggregate) (every : ℤ) : Bool :=
  0 < every && 0 < a.version && (a.version : ℤ) % every == 0

end JournalAggregate

end Plantkeeper.Journal
