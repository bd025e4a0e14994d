/-
What a refused `add_entry` leaves behind. The entry is made with its event first, so an instant without
an offset is refused before the aggregate is touched. The event is then recorded on the aggregate, and
only then is the stream asked, which refuses an identifier it already holds: the version and the entries
stay as they were, and the event stays pending. That is the only call that is not atomic.
-/
import Plantkeeper.Domain.Journal

namespace Plantkeeper.Journal

/-- The arguments of `add_entry` as a caller passes them, with the identifiers drawn for the call. -/
structure AddEntryArgs where
  entryType : JournalEntryType
  occurredAt : Datetime
  now : Datetime
  note : Option (List Char)
  entryId : Option JournalEntryId
  mintedId : JournalEntryId
  eventId : Uuid
  deriving DecidableEq

/-- How `add_entry` raises: a `ValidationError`, or the stream's refusal. -/
inductive AddEntryError
  | validation
  | journal (e : JournalError)
  deriving DecidableEq, Repr

/-- The identifier of the entry the call makes. -/
def AddEntryArgs.id (args : AddEntryArgs) : JournalEntryId := args.entryId.getD args.mintedId

/-- What the event's model lets through. `rejects` is whatever else it checks of the arguments. -/
def AddEntryArgs.validate (rejects : AddEntryArgs → Bool) (args : AddEntryArgs) : Option NewEntry :=
  match args.occurredAt.instant, args.now.instant with
  | some occurredAt, some now =>
    if rejects args then none
    else some ⟨args.entryType, occurredAt, now, args.note, args.entryId, args.mintedId, args.eventId⟩
  | _, _ => none

/-- The call passes every check made before the aggregate is touched. -/
def AddEntryArgs.Valid (rejects : AddEntryArgs → Bool) (args : AddEntryArgs) : Prop :=
  args.occurredAt.instant.isSome ∧ args.now.instant.isSome ∧ rejects args = false

theorem AddEntryArgs.validate_eq_some {rejects : AddEntryArgs → Bool} {args : AddEntryArgs} :
    (∃ n, args.validate rejects = some n ∧ n.entryId.getD n.mintedId = args.id) ↔ args.Valid rejects := by
  unfold validate Valid
  cases args.occurredAt.instant with
  | none => simp
  | some o =>
    cases args.now.instant with
    | none => simp
    | some n => cases h : rejects args <;> simp [id]

theorem AddEntryArgs.validate_eq_none {rejects : AddEntryArgs → Bool} {args : AddEntryArgs} :
    args.validate rejects = none ↔ ¬ args.Valid rejects := by
  unfold validate Valid
  cases args.occurredAt.instant with
  | none => simp
  | some o =>
    cases args.now.instant with
    | none => simp
    | some n => cases h : rejects args <;> simp

namespace JournalAggregate

/-- `collect_events`. -/
def collectEvents (a : JournalAggregate) : List JournalEntryAdded × JournalAggregate := (a.events, { a with events := [] })

/-- `add_entry`, from the arguments it is called with. -/
def callAddEntry (rejects : AddEntryArgs → Bool) (a : JournalAggregate) (args : AddEntryArgs) :
    JournalAggregate × Except AddEntryError JournalEntry :=
  match args.validate rejects with
  | none => (a, .error .validation)
  | some n => ((a.addEntry n).1, (a.addEntry n).2.mapError .journal)

/-- Every pending event is the event of an entry in the stream. -/
def Recorded (a : JournalAggregate) : Prop := ∀ e ∈ a.collectEvents.1, JournalEntry.ofEvent e ∈ a.entries

/-- If the call raises, the entries, the version and the pending events are what they were, so nothing
is collected that the stream does not hold. -/
def AtomicOnError (rejects : AddEntryArgs → Bool) (a : JournalAggregate) (args : AddEntryArgs) : Prop :=
  ∀ err, (a.callAddEntry rejects args).2 = .error err →
    (a.callAddEntry rejects args).1.entries = a.entries ∧
    (a.callAddEntry rejects args).1.version = a.version ∧
    (a.callAddEntry rejects args).1.events = a.events ∧
    (a.Recorded → (a.callAddEntry rejects args).1.Recorded)

/-- The call comes to the stream with an identifier that the stream holds. -/
def Collides (rejects : AddEntryArgs → Bool) (a : JournalAggregate) (args : AddEntryArgs) : Prop :=
  args.Valid rejects ∧ (a.entry args.id).isSome

/-- A journal with one entry, and a call that brings that entry's identifier again. -/
def onePlanted : JournalAggregate :=
  ((empty 1).addEntry ⟨.note, 0, 0, none, some 2, 9, 4⟩).1.collectEvents.2

def again : AddEntryArgs := ⟨.watering, .aware 5, .aware 6, none, some 2, 9, 8⟩

/-- The duplicate is refused, and its event is collected. -/
theorem duplicate_stays_pending : ¬ ∀ (rejects : AddEntryArgs → Bool) (a : JournalAggregate) (args : AddEntryArgs),
    AtomicOnError rejects a args := by
  intro h
  obtain ⟨_, _, hevents, _⟩ := h (fun _ => false) onePlanted again (.journal .alreadyAppended) rfl
  exact absurd hevents (by decide)

variable {rejects : AddEntryArgs → Bool} {a : JournalAggregate} {args : AddEntryArgs} {n : NewEntry}

theorem entry_isSome {id : JournalEntryId} : (a.entry id).isSome ↔ id ∈ a.stream.recorded.map (·.id) := by
  unfold entry JournalStream.find
  rw [List.find?_isSome, List.mem_map]
  simp only [decide_eq_true_eq]

theorem callAddEntry_valid (h : args.validate rejects = some n) :
    a.callAddEntry rejects args = ((a.addEntry n).1, (a.addEntry n).2.mapError .journal) := by
  unfold callAddEntry
  rw [h]

/-- A call that is not valid touches nothing. -/
theorem callAddEntry_invalid (h : ¬ args.Valid rejects) : a.callAddEntry rejects args = (a, .error .validation) := by
  unfold callAddEntry
  rw [AddEntryArgs.validate_eq_none.2 h]

/-- An entry the stream does not hold is added. -/
theorem addEntry_new (hnew : n.entryId.getD n.mintedId ∉ a.stream.recorded.map (·.id)) :
    ∃ e, (a.addEntry n).2 = .ok e := by
  unfold addEntry
  obtain ⟨t, ht, -, -⟩ := JournalStream.register_new (s := a.stream)
    (e := (JournalEntry.add n.eventId (n.entryId.getD n.mintedId) a.plantId n.entryType n.occurredAt n.now n.note).1) rfl hnew
  simp only [ht]
  exact ⟨_, rfl⟩

/-- An entry the stream holds is refused, with one more event pending than before. -/
theorem addEntry_held (hheld : n.entryId.getD n.mintedId ∈ a.stream.recorded.map (·.id)) :
    (a.addEntry n).2 = .error .alreadyAppended ∧ (a.addEntry n).1.events.length = a.events.length + 1 := by
  unfold addEntry
  have hreg : a.stream.register (JournalEntry.add n.eventId (n.entryId.getD n.mintedId) a.plantId n.entryType
      n.occurredAt n.now n.note).1 = .error .alreadyAppended :=
    JournalStream.register_eq_error.2 (.inr ⟨rfl, hheld, rfl⟩)
  simp only [hreg]
  exact ⟨trivial, by simp [JournalEntry.add]⟩

/-- `add_entry` is atomic on error exactly when it does not come to the stream with an identifier the
stream holds. -/
theorem callAddEntry_atomic_iff (rejects : AddEntryArgs → Bool) (a : JournalAggregate) (args : AddEntryArgs) :
    AtomicOnError rejects a args ↔ ¬ Collides rejects a args := by
  constructor
  · rintro h ⟨hvalid, hheld⟩
    obtain ⟨n, hn, hid⟩ := AddEntryArgs.validate_eq_some.2 hvalid
    rw [← hid] at hheld
    obtain ⟨herr, hlen⟩ := addEntry_held (entry_isSome.1 hheld)
    obtain ⟨_, _, hevents, _⟩ := h (.journal .alreadyAppended) (by rw [callAddEntry_valid hn, herr]; rfl)
    rw [callAddEntry_valid hn] at hevents
    have hsame : a.events.length = a.events.length + 1 := (congrArg List.length hevents).symm.trans hlen
    omega
  · intro hno err herr
    by_cases hvalid : args.Valid rejects
    · obtain ⟨n, hn, hid⟩ := AddEntryArgs.validate_eq_some.2 hvalid
      have hnew : n.entryId.getD n.mintedId ∉ a.stream.recorded.map (·.id) := by
        rw [hid]
        exact fun hmem => hno ⟨hvalid, entry_isSome.2 hmem⟩
      obtain ⟨e, he⟩ := addEntry_new hnew
      rw [callAddEntry_valid hn, he] at herr
      cases herr
    · rw [callAddEntry_invalid hvalid]
      exact ⟨rfl, rfl, rfl, fun h => h⟩

end JournalAggregate

end Plantkeeper.Journal
