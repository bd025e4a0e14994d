/-
Snapshots are invisible. An aggregate is the journal of a list of events (`Holds`) when it has one
entry for each of them, registered in any order: a snapshot stores its entries sorted, so an aggregate
rebuilt from one differs from a replay of the whole stream in that order and in nothing that can be
asked. `Along` is how snapshots come about: a writer that loaded the journal appends an event and, when
its policy says so, stores the state it reached.
-/
import Plantkeeper.Journal.Store

namespace Plantkeeper.Journal

/-! ## The journal of a list of events -/

/-- The aggregate is the journal of the events, and has nothing to publish. -/
structure Holds (a : JournalAggregate) (p : PlantId) (es : List JournalEntryAdded) : Prop where
  plant : a.plantId = p
  version : a.version = es.length
  entries : a.stream.recorded.Perm (es.map .ofEvent)
  clean : a.events = []

/-- Events of one plant with distinct entries. -/
structure OfOnePlant (p : PlantId) (es : List JournalEntryAdded) : Prop where
  plant : ∀ e ∈ es, e.plantId = p
  distinct : (es.map (·.entryId)).Nodup

section

variable {p : PlantId} {es fs : List JournalEntryAdded} {e : JournalEntryAdded} {a b : JournalAggregate}

theorem OfOnePlant.left (h : OfOnePlant p (es ++ fs)) : OfOnePlant p es := by
  constructor
  · intro e he
    exact h.plant e (List.mem_append_left _ he)
  · have := h.distinct
    rw [List.map_append] at this
    exact this.of_append_left

theorem OfOnePlant.take (h : OfOnePlant p es) (k : ℕ) : OfOnePlant p (es.take k) := by
  have : OfOnePlant p (es.take k ++ es.drop k) := by
    rw [List.take_append_drop]
    exact h
  exact this.left

/-- The entry of the last event is no other event's. -/
theorem OfOnePlant.fresh (h : OfOnePlant p (es ++ [e])) : e.entryId ∉ es.map (·.entryId) := by
  have := h.distinct
  rw [List.map_append, List.nodup_append'] at this
  intro he
  exact this.2.2 he (by simp)

theorem OfOnePlant.snoc (h : OfOnePlant p es) (hp : e.plantId = p) (hnew : e.entryId ∉ es.map (·.entryId)) :
    OfOnePlant p (es ++ [e]) := by
  constructor
  · intro x hx
    rcases List.mem_append.1 hx with hx | hx
    · exact h.plant x hx
    · rw [List.mem_singleton.1 hx]
      exact hp
  · rw [List.map_append, List.nodup_append']
    refine ⟨h.distinct, List.nodup_singleton _, ?_⟩
    simpa [List.disjoint_singleton] using hnew

theorem apply_eq {stream : JournalStream} (h : a.stream.register (.ofEvent e) = .ok stream) :
    a.apply e = .ok { a with stream := stream, version := a.version + 1 } := by
  unfold JournalAggregate.apply
  rw [h]
  rfl

theorem Holds.empty (p : PlantId) : Holds (.empty p) p [] := ⟨rfl, rfl, List.Perm.refl _, rfl⟩

/-- The entries of the aggregate are identified as the events are. -/
theorem Holds.mem_ids (h : Holds a p es) (id : JournalEntryId) :
    id ∈ a.stream.recorded.map (·.id) ↔ id ∈ es.map (·.entryId) := by
  have hids : (es.map JournalEntry.ofEvent).map (·.id) = es.map (·.entryId) := by
    rw [List.map_map]
    rfl
  rw [← hids]
  exact (h.entries.map _).mem_iff

/-- A stored event of the plant with a new entry is folded in. -/
theorem Holds.apply (h : Holds a p es) (hone : OfOnePlant p (es ++ [e])) :
    ∃ b, a.apply e = .ok b ∧ Holds b p (es ++ [e]) := by
  have hp : e.plantId = a.stream.plantId := (hone.plant e (by simp)).trans h.plant.symm
  have hid : e.entryId ∉ a.stream.recorded.map (·.id) := (h.mem_ids _).not.2 hone.fresh
  obtain ⟨stream, hreg, hsp, hsr⟩ := JournalStream.register_new (e := .ofEvent e) hp hid
  refine ⟨_, apply_eq hreg, hsp.trans h.plant, ?_, ?_, h.clean⟩
  · simp [h.version]
  · show stream.recorded.Perm _
    rw [hsr, List.map_append]
    exact h.entries.append (List.Perm.refl _)

/-- The loop of a load over the stored events that follow. -/
theorem Holds.replay (h : Holds a p es) (hone : OfOnePlant p (es ++ fs)) :
    ∃ b, replay a (es.length + 1) (rowsFrom p (es.length + 1) fs) = .ok b ∧ Holds b p (es ++ fs) := by
  induction fs generalizing a es with
  | nil =>
    refine ⟨a, rfl, ?_⟩
    rw [List.append_nil]
    exact h
  | cons f fs ih =>
    have hsplit : es ++ f :: fs = (es ++ [f]) ++ fs := by simp
    rw [hsplit] at hone ⊢
    obtain ⟨b, hb, hholds⟩ := h.apply hone.left
    obtain ⟨c, hc, hholds⟩ := ih hholds hone
    refine ⟨c, ?_, hholds⟩
    rw [List.length_append, List.length_singleton] at hc
    simp only [rowsFrom, Journal.replay, ne_eq, not_true_eq_false, ↓reduceIte]
    rw [hb]
    exact hc

/-! ## What can be asked -/

/-- Two aggregates that differ in the order of registration at most. -/
structure Same (a b : JournalAggregate) : Prop where
  plant : a.plantId = b.plantId
  version : a.version = b.version
  recorded : a.stream.recorded.Perm b.stream.recorded
  events : a.events = b.events

theorem Holds.same (ha : Holds a p es) (hb : Holds b p es) : Same a b := by
  constructor
  · rw [ha.plant, hb.plant]
  · rw [ha.version, hb.version]
  · exact ha.entries.trans hb.entries.symm
  · rw [ha.clean, hb.clean]

/-- The chronological order does not depend on the order of registration: entries at one instant are
ordered by their identifiers, which are distinct. -/
theorem Same.entries_eq (h : Same a b) : a.entries = b.entries := by
  have hperm := ((List.perm_insertionSort JournalEntry.Before a.stream.recorded).trans h.recorded).trans
    (List.perm_insertionSort JournalEntry.Before b.stream.recorded).symm
  refine hperm.eq_of_pairwise ?_ (List.pairwise_insertionSort _ _) (List.pairwise_insertionSort _ _)
  intro x y hx hy hxy hyx
  have hx := h.recorded.subset ((List.mem_insertionSort _).1 hx)
  have hy := (List.mem_insertionSort _).1 hy
  exact List.inj_on_of_nodup_map b.stream.distinct hx hy (JournalEntry.id_eq_of_before hxy hyx)

theorem Same.entry_eq (h : Same a b) (id : JournalEntryId) : a.entry id = b.entry id := by
  have hfound : ∀ {c d : JournalAggregate}, c.stream.recorded.Perm d.stream.recorded → ∀ x, c.entry id = some x →
      d.entry id = some x := by
    intro c d hperm x hx
    have hmem := hperm.subset (List.mem_of_find?_eq_some hx)
    have hxid : x.id = id := by simpa using List.find?_some hx
    cases hd : d.entry id with
    | none =>
      have := List.find?_eq_none.1 hd x hmem
      simp [hxid] at this
    | some y =>
      have hyid : y.id = id := by simpa using List.find?_some hd
      rw [List.inj_on_of_nodup_map d.stream.distinct (List.mem_of_find?_eq_some hd) hmem (hyid.trans hxid.symm)]
  cases ha : a.entry id with
  | some x => exact (hfound h.recorded x ha).symm
  | none =>
    cases hb : b.entry id with
    | none => rfl
    | some x =>
      rw [hfound h.recorded.symm x hb] at ha
      cases ha

theorem Same.stateAt_eq (h : Same a b) (m : Instant) : a.stateAt m = b.stateAt m := by
  unfold JournalAggregate.stateAt
  rw [h.plant, h.version, h.entries_eq]

theorem Same.mem_ids (h : Same a b) (id : JournalEntryId) :
    id ∈ a.stream.recorded.map (·.id) ↔ id ∈ b.stream.recorded.map (·.id) :=
  (h.recorded.map _).mem_iff

/-- Both accept the entry, or both refuse it for the same reason; and they stay alike. -/
theorem Same.addEntry (h : Same a b) (n : NewEntry) :
    (a.addEntry n).2 = (b.addEntry n).2 ∧ Same (a.addEntry n).1 (b.addEntry n).1 := by
  have hplant : a.stream.plantId = b.stream.plantId := h.plant
  simp only [JournalAggregate.addEntry, JournalEntry.add, h.plant, h.events]
  generalize JournalEntry.new (n.entryId.getD n.mintedId) b.plantId n.entryType n.occurredAt n.note = entry
  cases hb : b.stream.register entry with
  | error err =>
    have ha : a.stream.register entry = .error err := by
      rw [JournalStream.register_eq_error] at hb ⊢
      rw [hplant, h.mem_ids]
      exact hb
    rw [ha]
    exact ⟨rfl, h.plant, h.version, h.recorded, rfl⟩
  | ok t =>
    obtain ⟨hp, hid, htp, htr⟩ := JournalStream.register_eq_ok.1 hb
    obtain ⟨s, ha, hsp, hsr⟩ := JournalStream.register_new (hp.trans hplant.symm) ((h.mem_ids _).not.2 hid)
    rw [ha]
    refine ⟨rfl, hsp.trans (hplant.trans htp.symm), by simp [h.version], ?_, rfl⟩
    show s.recorded.Perm t.recorded
    rw [hsr, htr]
    exact h.recorded.append (List.Perm.refl _)

/-- A sequence of calls of `add_entry`: the aggregate they leave, and what each answered. -/
def addEntries : JournalAggregate → List NewEntry → JournalAggregate × List (Except JournalError JournalEntry)
  | a, [] => (a, [])
  | a, n :: ns => ((addEntries (a.addEntry n).1 ns).1, (a.addEntry n).2 :: (addEntries (a.addEntry n).1 ns).2)

theorem Same.addEntries (h : Same a b) (ns : List NewEntry) :
    (addEntries a ns).2 = (addEntries b ns).2 ∧ Same (addEntries a ns).1 (addEntries b ns).1 := by
  induction ns generalizing a b with
  | nil => exact ⟨rfl, h⟩
  | cons n ns ih =>
    obtain ⟨hanswer, hsame⟩ := h.addEntry n
    obtain ⟨hanswers, hsame⟩ := ih hsame
    refine ⟨?_, hsame⟩
    simp only [Journal.addEntries]
    rw [hanswer, hanswers]

/-! ## Snapshots -/

/-- The state was taken of the journal of a beginning of the stream. -/
def Checkpoint (p : PlantId) (es : List JournalEntryAdded) (s : JournalState) : Prop :=
  ∃ k ≤ es.length, ∃ a, Holds a p (es.take k) ∧ s = a.state

theorem Checkpoint.append {s : JournalState} (h : Checkpoint p es s) (fs : List JournalEntryAdded) :
    Checkpoint p (es ++ fs) s := by
  obtain ⟨k, hk, a, ha, rfl⟩ := h
  refine ⟨k, by simp; omega, a, ?_, rfl⟩
  rw [List.take_append_of_le_length hk]
  exact ha

/-- Registering distinct entries of the plant accepts all of them, in order. -/
theorem ofEntries_ok {es : List JournalEntry} (hp : ∀ e ∈ es, e.plantId = p) (hid : (es.map (·.id)).Nodup) :
    ∃ s, JournalStream.ofEntries p es = .ok s ∧ s.plantId = p ∧ s.recorded = es := by
  suffices h : ∀ s : JournalStream, s.plantId = p → ((s.recorded ++ es).map (·.id)).Nodup →
      ∃ t, es.foldlM JournalStream.register s = .ok t ∧ t.plantId = p ∧ t.recorded = s.recorded ++ es by
    exact h (.empty p) rfl (by simpa [JournalStream.empty] using hid)
  induction es with
  | nil =>
    intro s hs _
    exact ⟨s, rfl, hs, by simp⟩
  | cons e es ih =>
    intro s hs hnodup
    have hidE : e.id ∉ s.recorded.map (·.id) := by
      rw [List.map_append, List.nodup_append'] at hnodup
      intro he
      exact hnodup.2.2 he (by simp)
    obtain ⟨t, hreg, htp, htr⟩ := JournalStream.register_new ((hp e (List.mem_cons_self ..)).trans hs.symm) hidE
    have hsplit : s.recorded ++ e :: es = t.recorded ++ es := by simp [htr]
    rw [hsplit] at hnodup ⊢
    rw [List.foldlM_cons, hreg]
    exact ih (fun x hx => hp x (List.mem_cons_of_mem _ hx)) (by simpa using (List.nodup_cons.1 hid).2) t
      (htp.trans hs) hnodup

/-- What is rebuilt from a snapshot is the journal it was taken of. -/
theorem Holds.fromState (h : Holds a p es) : ∃ b, JournalAggregate.fromState a.state = .ok b ∧ Holds b p es := by
  have hperm : a.entries.Perm a.stream.recorded := List.perm_insertionSort _ _
  have hplant : ∀ e ∈ a.entries, e.plantId = a.plantId := by
    intro e he
    exact a.stream.ofPlant e (hperm.subset he)
  -- the entries come back from their stored form as they were
  have hback : (a.entries.map JournalEntryState.fromDomain).map (·.toDomain a.plantId) = a.entries := by
    rw [List.map_map]
    conv_rhs => rw [← List.map_id a.entries]
    apply List.map_congr_left
    intro e he
    show (JournalEntryState.fromDomain e).toDomain a.plantId = e
    rw [← hplant e he, toDomain_fromDomain]
  have hdistinct : (a.entries.map (·.id)).Nodup := (hperm.map _).nodup_iff.2 a.stream.distinct
  obtain ⟨s, hs, hsp, hsr⟩ := ofEntries_ok hplant hdistinct
  refine ⟨⟨s, a.version, []⟩, ?_, hsp.trans h.plant, h.version, ?_, rfl⟩
  · unfold JournalAggregate.fromState JournalAggregate.state
    rw [hback, hs]
    rfl
  · show s.recorded.Perm _
    rw [hsr]
    exact hperm.trans h.entries

/-- A load that starts from a snapshot of the stream, or from nothing, yields the journal of the stream. -/
theorem loadAfter_holds {rows : List EventRow} {state : Option JournalState} (hone : OfOnePlant p es) (hrows : Stores rows p es)
    (hstate : ∀ s, state = some s → Checkpoint p es s) : ∃ a, loadAfter state rows p = .ok a ∧ Holds a p es := by
  cases state with
  | none =>
    obtain ⟨a, ha, hholds⟩ := (Holds.empty p).replay hone
    refine ⟨a, ?_, hholds⟩
    simp only [loadAfter, Option.map_none, Option.getD_none]
    rw [loadStream_eq hrows, List.drop_zero]
    exact ha
  | some s =>
    obtain ⟨k, hk, c, hc, rfl⟩ := hstate s rfl
    obtain ⟨b, hb, hholds⟩ := hc.fromState
    have hlen : (es.take k).length = k := by simp [hk]
    have hversion : c.state.version = k := hc.version.trans hlen
    -- the rest of the stream is replayed on the journal of its beginning
    have hwhole : OfOnePlant p (es.take k ++ es.drop k) := by
      rw [List.take_append_drop]
      exact hone
    obtain ⟨a, ha, hholds⟩ := hholds.replay hwhole
    rw [hlen] at ha
    rw [List.take_append_drop] at hholds
    refine ⟨a, ?_, hholds⟩
    simp only [loadAfter, Option.map_some, Option.getD_some]
    rw [hversion, loadStream_eq hrows, hb]
    exact ha

theorem load_holds {rows : List EventRow} {snapshots : List JournalState} (hone : OfOnePlant p es) (hrows : Stores rows p es)
    (hsnaps : ∀ s ∈ snapshots, s.plantId = p → Checkpoint p es s) :
    ∃ a, load snapshots rows p = .ok a ∧ Holds a p es := by
  apply loadAfter_holds hone hrows
  intro s hs
  obtain ⟨hmem, hplant⟩ := mem_of_latest hs
  exact hsnaps s hmem hplant

end

/-! ## Appending an entry -/

/-- The event that `add_entry` records. -/
def NewEntry.event (n : NewEntry) (p : PlantId) : JournalEntryAdded :=
  ⟨n.eventId, n.entryId.getD n.mintedId, p, n.entryType, (normalizeNote n.note).map Name.text, n.occurredAt, n.now⟩

/-- The entry is the one its own event is folded in as. -/
theorem add_eq (n : NewEntry) (p : PlantId) :
    JournalEntry.add n.eventId (n.entryId.getD n.mintedId) p n.entryType n.occurredAt n.now n.note =
      (.ofEvent (n.event p), [n.event p]) := by
  simp [JournalEntry.add, JournalEntry.ofEvent, JournalEntry.new, NewEntry.event, normalizeNote_text]

/-- What an append writes: one event with a new entry, after the last version; and, if it is due, the
state of the journal with that event. -/
theorem Holds.record {a : JournalAggregate} {p : PlantId} {es : List JournalEntryAdded} (h : Holds a p es)
    (hone : OfOnePlant p es) {n : NewEntry} {v : ℕ} {entry : JournalEntry} {events : List JournalEntryAdded}
    {snapshot : Option JournalState} (hrec : record a n = .append v entry events snapshot) :
    v = es.length ∧ entry = .ofEvent (n.event p) ∧ events = [n.event p] ∧ OfOnePlant p (es ++ [n.event p]) ∧
      ∀ s, snapshot = some s → s.plantId = p ∧
        ∃ b, a.apply (n.event p) = .ok b ∧ b.shouldSnapshot SNAPSHOT_EVERY = true ∧ s = b.state := by
  have hplant : a.stream.plantId = p := h.plant
  unfold Journal.record at hrec
  split at hrec
  · cases hrec
  · simp only [JournalAggregate.addEntry, h.plant, add_eq, h.clean, List.nil_append] at hrec
    cases hreg : a.stream.register (.ofEvent (n.event p)) with
    | error err =>
      rw [hreg] at hrec
      cases hrec
    | ok stream =>
      rw [hreg] at hrec
      obtain ⟨-, hid, hsp, -⟩ := JournalStream.register_eq_ok.1 hreg
      injection hrec with hv hentry hevents hsnapshot
      refine ⟨hv.symm.trans h.version, hentry.symm, hevents.symm, hone.snoc rfl ((h.mem_ids _).not.1 hid), ?_⟩
      rintro s rfl
      -- a snapshot is the state of the aggregate with the event folded in
      split at hsnapshot
      · rename_i hdue
        injection hsnapshot with hsnapshot
        refine ⟨?_, _, apply_eq hreg, hdue, hsnapshot.symm⟩
        rw [← hsnapshot]
        exact hsp.trans hplant
      · cases hsnapshot

/-! ## Snapshots are invisible -/

/-- The snapshots that can have been stored along a stream. Before each event its writer loads the
journal from any of those stored by then, and may store the state after the event if some interval
makes it due. -/
inductive Along (p : PlantId) : List JournalEntryAdded → List JournalState → Prop
  | nil : Along p [] []
  | append {es e snapshots} : Along p es snapshots → Along p (es ++ [e]) snapshots
  | snapshot {es e snapshots} {seen : List JournalState} {a b : JournalAggregate} (every : ℤ) : Along p es snapshots →
      seen ⊆ snapshots → load seen (rowsFrom p 1 es) p = .ok a → a.apply e = .ok b → b.shouldSnapshot every = true →
      Along p (es ++ [e]) (snapshots ++ [b.state])

/-- The stream's own rows store it. -/
theorem stores_rowsFrom (p : PlantId) (es : List JournalEntryAdded) : Stores (rowsFrom p 1 es) p es := by
  unfold Stores
  rw [List.filter_eq_self.2]
  intro r hr
  simp [(mem_rowsFrom hr).1]

/-- Every snapshot stored along a stream was taken of a beginning of it. -/
theorem Along.checkpoint {p : PlantId} {es : List JournalEntryAdded} {snapshots : List JournalState}
    (h : Along p es snapshots) (hone : OfOnePlant p es) : ∀ s ∈ snapshots, Checkpoint p es s := by
  induction h with
  | nil => simp
  | append _ ih =>
    intro s hs
    exact (ih hone.left s hs).append _
  | @snapshot es e snapshots seen a b every _ hseen hload happly hdue ih =>
    intro s hs
    rcases List.mem_append.1 hs with hs | hs
    · exact (ih hone.left s hs).append _
    · rw [List.mem_singleton.1 hs]
      -- its writer had loaded the journal of the stream before the event
      obtain ⟨a', ha', hholds⟩ := load_holds hone.left (stores_rowsFrom p es) fun s hs _ => ih hone.left s (hseen hs)
      obtain rfl : a = a' := Except.ok.inj (hload.symm.trans ha')
      obtain ⟨b', hb', hholds⟩ := hholds.apply hone
      obtain rfl : b = b' := Except.ok.inj (happly.symm.trans hb')
      refine ⟨(es ++ [e]).length, Nat.le_refl _, b, ?_, rfl⟩
      rw [List.take_length]
      exact hholds

/-- A state is due, and can be stored, at every multiple of an interval. -/
theorem Along.due {p : PlantId} {es : List JournalEntryAdded} {e : JournalEntryAdded} {snapshots : List JournalState}
    (h : Along p es snapshots) (hone : OfOnePlant p (es ++ [e])) (every : ℤ) (hpos : 0 < every)
    (hdvd : every ∣ (es.length + 1 : ℕ)) : ∃ s, Along p (es ++ [e]) (snapshots ++ [s]) := by
  obtain ⟨a, ha, hholds⟩ := load_holds hone.left (stores_rowsFrom p es) fun s hs _ => h.checkpoint hone.left s hs
  obtain ⟨b, hb, hholds⟩ := hholds.apply hone
  refine ⟨b.state, h.snapshot every (List.Subset.refl _) ha hb ?_⟩
  have hversion : b.version = es.length + 1 := by simpa using hholds.version
  have hmod : ((es.length + 1 : ℕ) : ℤ) % every = 0 := Int.emod_eq_zero_of_dvd hdvd
  unfold JournalAggregate.shouldSnapshot
  rw [hversion, hmod]
  simp [hpos]

/-- What an aggregate answers: its version, its ordered entries, an entry by its identifier and the
journal at a moment. -/
structure Alike (a b : JournalAggregate) : Prop where
  version : a.version = b.version
  entries : a.entries = b.entries
  entry : ∀ id, a.entry id = b.entry id
  stateAt : ∀ m, a.stateAt m = b.stateAt m

theorem Same.alike {a b : JournalAggregate} (h : Same a b) : Alike a b :=
  ⟨h.version, h.entries_eq, h.entry_eq, h.stateAt_eq⟩

/-- Loading from the newest snapshot and replaying the whole stream give aggregates that answer alike,
accept and refuse the same entries from then on, and still answer alike after them. -/
theorem snapshots_invisible {p : PlantId} {es : List JournalEntryAdded} {rows : List EventRow}
    {stored snapshots : List JournalState} (hone : OfOnePlant p es) (hrows : Stores rows p es) (halong : Along p es stored)
    (hsnaps : ∀ s ∈ snapshots, s.plantId = p → s ∈ stored) :
    ∃ a b, load snapshots rows p = .ok a ∧ load [] rows p = .ok b ∧ Alike a b ∧
      ∀ ns : List NewEntry, (addEntries a ns).2 = (addEntries b ns).2 ∧
        Alike (addEntries a ns).1 (addEntries b ns).1 := by
  obtain ⟨a, ha, hholds⟩ := load_holds hone hrows fun s hs hp => halong.checkpoint hone s (hsnaps s hs hp)
  obtain ⟨b, hb, hholds'⟩ : ∃ b, load [] rows p = .ok b ∧ Holds b p es := load_holds hone hrows (by simp)
  have hsame := hholds.same hholds'
  refine ⟨a, b, ha, hb, hsame.alike, ?_⟩
  intro ns
  obtain ⟨hanswers, hsame⟩ := hsame.addEntries ns
  exact ⟨hanswers, hsame.alike⟩

/-- Three entries recorded out of order, two of them of one instant. -/
def recordedLate : List JournalEntryAdded :=
  [⟨101, 3, 7, .watering, none, seconds 20, seconds 30⟩, ⟨102, 2, 7, .note, some [' ', 'o', 'k'], seconds 20, seconds 31⟩,
    ⟨103, 1, 7, .repotting, none, seconds 10, seconds 32⟩]

/-- With a snapshot of the first two entries, in whose order they were not recorded. -/
theorem snapshots_invisible_late : ∃ s, Along 7 recordedLate [s] ∧
    ∃ a b, load [s] (rowsFrom 7 1 recordedLate) 7 = .ok a ∧ load [] (rowsFrom 7 1 recordedLate) 7 = .ok b ∧ Alike a b ∧
      ∀ ns : List NewEntry, (addEntries a ns).2 = (addEntries b ns).2 ∧
        Alike (addEntries a ns).1 (addEntries b ns).1 := by
  have hone : OfOnePlant 7 recordedLate := ⟨by decide, by decide⟩
  have hfirst : Along 7 (recordedLate.take 1) [] := Along.nil.append
  obtain ⟨s, hs⟩ := hfirst.due (hone.take 2) 2 (by decide) (by decide)
  have halong : Along 7 recordedLate [s] := hs.append
  exact ⟨s, halong, snapshots_invisible hone (stores_rowsFrom _ _) halong (by simp)⟩

end Plantkeeper.Journal
