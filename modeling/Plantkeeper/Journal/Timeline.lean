/-
The two answers a client gets about a plant's journal. The timeline is read from the projected table, in
the order the entries were recorded; the journal as of a date is replayed from the event store, through
whatever snapshots there are, in the order the care happened. What the projection has shown is in the
replay, and once it has seen the plant's events the two are the same entries on every date.
-/
import Plantkeeper.Domain.Date
import Plantkeeper.Journal.InStep
import Plantkeeper.Lib.Dict
import Plantkeeper.Lib.Query
import Plantkeeper.ReadModel.Rebuild

namespace Plantkeeper.Journal

open Plantkeeper.ReadModel Plantkeeper.Run
open Query (Lists select)

/-! ## The views -/

/-- A row of the port's answer. -/
structure JournalTimelineRow where
  entryId : JournalEntryId
  plantId : PlantId
  entryType : JournalEntryType
  occurredAt : Instant
  note : Option (List Char)
  deriving DecidableEq

structure JournalEntryView where
  entryId : JournalEntryId
  plantId : PlantId
  entryType : JournalEntryType
  occurredAt : Instant
  note : Option (List Char)
  deriving DecidableEq

/-- `counts_by_type`. -/
def JournalState.countsByType (s : JournalState) : Dict JournalEntryType ℕ :=
  s.entries.foldl (fun counts entry => counts.set entry.entryType ((counts.get? entry.entryType).getD 0 + 1)) Dict.empty

structure JournalStateView where
  plantId : PlantId
  asOf : Instant
  entryCount : ℕ
  countsByType : Dict JournalEntryType ℕ
  entries : List JournalEntryView

/-- `JournalEntryView.from_state`. -/
def JournalEntryView.fromState (plantId : PlantId) (entry : JournalEntryState) : JournalEntryView :=
  ⟨entry.entryId, plantId, entry.entryType, entry.occurredAt, entry.note⟩

/-- `JournalStateView.from_state`. -/
def JournalStateView.fromState (state : JournalState) (asOf : Instant) : JournalStateView where
  plantId := state.plantId
  asOf := asOf
  entryCount := state.entries.length
  countsByType := state.countsByType
  entries := state.entries.map (.fromState state.plantId)

/-! ## The queries -/

inductive QueryError
  | notFound (message : String)
  | load (error : LoadError)
  deriving DecidableEq

/-- `_journal_entry_row`. -/
def journalEntryRow (r : JournalEntryId × JournalRow) : JournalTimelineRow :=
  ⟨r.1, r.2.plantId, r.2.entryType, r.2.occurredAt, r.2.note⟩

/-- `list_journal_entries`, over the rows of the table. -/
def listJournalEntries (rows : List (JournalEntryId × JournalRow)) (plantId : PlantId) : List JournalTimelineRow :=
  (select (fun r => r.2.plantId = plantId) (·.recordedAt) rows).map journalEntryRow

/-- `_journal_entry_view`. -/
def journalEntryView (row : JournalTimelineRow) : JournalEntryView :=
  ⟨row.entryId, row.plantId, row.entryType, row.occurredAt, row.note⟩

section

variable (names : Naming)

def plantNotFound (plantId : PlantId) : QueryError := .notFound ("plant " ++ names.str plantId ++ " does not exist")

/-- `GetJournalTimelineHandler.handle`. -/
def getJournalTimeline (read : ReadTables) (rows : List (JournalEntryId × JournalRow)) (plantId : PlantId) :
    Except QueryError (List JournalEntryView) :=
  if (read.plants plantId).isNone then .error (plantNotFound names plantId)
  else .ok ((listJournalEntries rows plantId).map journalEntryView)

/-- `datetime.combine(date, time.max, tzinfo=UTC)`. -/
def dayEnd (date : Date) : Instant := date.midnight + days 1 - 1

/-- `GetJournalAtDateHandler.handle`. -/
def getJournalAtDate (t : Tables) (plantId : PlantId) (date : Date) : Except QueryError JournalStateView :=
  if plantId ∉ t.plants then .error (plantNotFound names plantId)
  else
    match load t.snapshots t.eventStore plantId with
    | .error e => .error (.load e)
    | .ok aggregate => .ok (.fromState (aggregate.stateAt (dayEnd date)) (dayEnd date))

end

/-- The counts are those of the entries. -/
theorem get?_countsByType (s : JournalState) (t : JournalEntryType) :
    ((s.countsByType.get? t).getD 0) = s.entries.countP fun e => e.entryType = t := by
  have hfold : ∀ (entries : List JournalEntryState) (d : Dict JournalEntryType ℕ),
      ((entries.foldl (fun counts entry => counts.set entry.entryType ((counts.get? entry.entryType).getD 0 + 1)) d).get? t).getD 0 =
        (d.get? t).getD 0 + entries.countP fun e => e.entryType = t := by
    intro entries
    induction entries with
    | nil => simp
    | cons e entries ih =>
      intro d
      rw [List.foldl_cons, ih, Dict.get?_set, List.countP_cons]
      by_cases he : e.entryType = t
      · subst he
        simp only [if_true, Option.getD_some, decide_true]
        omega
      · simp [he]
  simpa [JournalState.countsByType] using hfold s.entries Dict.empty

/-- The summary of an answer is that of the entries it lists. -/
structure Counted (v : JournalStateView) : Prop where
  entryCount : v.entryCount = v.entries.length
  countsByType : ∀ t, (v.countsByType.get? t).getD 0 = v.entries.countP fun e => e.entryType = t

theorem counted_fromState (state : JournalState) (asOf : Instant) : Counted (.fromState state asOf) where
  entryCount := by simp [JournalStateView.fromState]
  countsByType t := by
    show (state.countsByType.get? t).getD 0 = (state.entries.map (JournalEntryView.fromState state.plantId)).countP _
    rw [get?_countsByType, List.countP_map]
    rfl

/-! ## What is stored -/

section

variable {names : Naming} {w w' : World} {i : ℕ} {x : Writer}

theorem outbox_execute (h : execute names w i x = some w') :
    w'.tables.outbox = w.tables.outbox ∨ w'.tables.outbox = w.tables.outbox ++ x.outbox := by
  unfold execute at h
  split at h
  · split at h
    · cases h
    · split at h
      · cases h
        exact .inl rfl
      · split at h <;> cases h
        exact .inl rfl
  · split at h <;> cases h
    · exact .inl rfl
    · unfold withoutPlant
      split <;> exact .inl rfl
  · cases h
    exact .inl rfl
  · split at h <;> cases h
    · exact .inl rfl
    · unfold recorded
      split <;> exact .inl rfl
  · unfold flush at h
    dsimp only at h
    split at h
    · cases h
      exact .inl rfl
    · split at h <;> cases h
      exact .inl rfl
  · split at h <;> cases h
    · exact .inl rfl
    · exact .inr rfl

/-- The event is one that `add_entry` has recorded, so that its note is kept as it is. -/
def Added (e : JournalEntryAdded) : Prop := ∃ n p, e = NewEntry.event n p

theorem added_step {a : Action} (h : Inv names w ∧ ∀ e ∈ w.tables.outbox, Added e) (hs : step names w a = some w') :
    Inv names w' ∧ ∀ e ∈ w'.tables.outbox, Added e := by
  obtain ⟨hinv, hadded⟩ := h
  refine ⟨inv_step a hinv hs, ?_⟩
  cases a with
  | start j job drawn =>
    simp only [step] at hs
    split at hs <;> cases hs
    exact hadded
  | execute j =>
    obtain ⟨x, hx, hs⟩ := Option.bind_eq_some_iff.1 hs
    rcases outbox_execute hs with hsame | hmore
    · rw [hsame]
      exact hadded
    · rw [hmore]
      rintro e he
      rcases List.mem_append.1 he with he | he
      · exact hadded e he
      · -- the transaction has added nothing, or the one event of its job
        rcases (hinv.writers j x hx).clean_or_staged with hclean | hstaged
        · rw [hclean.outbox] at he
          cases he
        · rw [hstaged.outbox, List.mem_singleton] at he
          exact ⟨_, _, he⟩
  | fail | loseLedger | addPlant | addPlantRef | removePlantRef =>
    cases hs
    exact hadded

end

/-! ## What is projected -/

def JournalEntryView.ofEvent (e : JournalEntryAdded) : JournalEntryView :=
  ⟨e.entryId, e.plantId, e.entryType, e.entryOccurredAt, e.note⟩

/-- The row the projection leaves of an event. -/
def rowOf (e : JournalEntryAdded) : JournalEntryId × JournalRow :=
  (e.entryId, ⟨e.plantId, e.entryType, e.note, e.entryOccurredAt, e.occurredAt⟩)

/-- The events of an interleaving that the Journal's projection has seen. -/
def seen (es : List TopicEvent) : List JournalEntryAdded := (historiesOf es).journal

theorem seen_snoc (es : List TopicEvent) (e : TopicEvent) : seen (es ++ [e]) = seen es ++ e.journal?.toList := by
  simp only [seen, historiesOf, List.filterMap_append]
  cases e <;> rfl

/-- The table has the row of each event that was seen, however often and in whatever order they came. -/
theorem journal_rows {es : List TopicEvent} (hids : ∀ e ∈ seen es, ∀ e' ∈ seen es, e.entryId = e'.entryId → e = e')
    (i : JournalEntryId) (r : JournalRow) :
    (es.foldl project .empty).journal i = some r ↔ ∃ e ∈ seen es, (i, r) = rowOf e := by
  induction es using List.reverseRecOn with
  | nil => simp [seen, historiesOf, ReadTables.empty]
  | append_singleton es e ih =>
    have hfront : ∀ e' ∈ seen es, e' ∈ seen (es ++ [e]) := by
      intro e' he'
      rw [seen_snoc]
      exact List.mem_append_left _ he'
    have ih := ih fun a ha b hb => hids a (hfront a ha) b (hfront b hb)
    rw [List.foldl_concat, journal_project]
    cases e with
    | journal e =>
      have hlast : e ∈ seen (es ++ [.journal e]) := by
        rw [seen_snoc]
        exact List.mem_append_right _ (List.mem_singleton.2 rfl)
      by_cases hi : i = e.entryId
      · subst hi
        simp only [journalAct, if_true, Option.some.injEq]
        constructor
        · rintro rfl
          exact ⟨e, hlast, rfl⟩
        · rintro ⟨e', he', hrow⟩
          have hsame : e' = e := hids e' he' e hlast (congrArg Prod.fst hrow).symm
          subst hsame
          exact (congrArg Prod.snd hrow).symm
      · simp only [journalAct, hi, if_false, ih, seen_snoc]
        constructor
        · rintro ⟨e', he', hrow⟩
          exact ⟨e', List.mem_append_left _ he', hrow⟩
        · rintro ⟨e', he', hrow⟩
          rcases List.mem_append.1 he' with he' | he'
          · exact ⟨e', he', hrow⟩
          · obtain rfl : e' = e := List.mem_singleton.1 he'
            exact absurd (congrArg Prod.fst hrow) hi
    | garden | care | catalog | notification =>
      rw [seen_snoc]
      simpa [journalAct, TopicEvent.journal?] using ih

/-- An entry's plant has a row, if only a blank one. -/
theorem plants_isSome {es : List TopicEvent} {e : JournalEntryAdded} (he : e ∈ seen es) :
    ((es.foldl project .empty).plants e.plantId).isSome := by
  rw [plants_foldl]
  induction es using List.reverseRecOn with
  | nil => cases he
  | append_singleton es e' ih =>
    rw [List.foldl_concat]
    rw [seen_snoc] at he
    rcases List.mem_append.1 he with he | he
    · obtain ⟨row, hrow⟩ := Option.isSome_iff_exists.1 (ih he)
      obtain ⟨row', hrow'⟩ := plantAct_some e.plantId row e'
      rw [hrow, hrow', Option.isSome_some]
    · obtain rfl : e' = .journal e := by
        cases e' <;> simp_all [TopicEvent.journal?]
      simp [plantAct]

section

variable {t : Tables} {es : List TopicEvent} {rows : List (JournalEntryId × JournalRow)} {p : PlantId}

/-- The events the projection has seen have been committed. -/
def Behind (t : Tables) (es : List TopicEvent) : Prop := ∀ e ∈ seen es, e ∈ t.outbox

/-- The projection has seen every event of the plant. -/
def CaughtUp (t : Tables) (es : List TopicEvent) (p : PlantId) : Prop := ∀ e ∈ t.eventsOf p, e ∈ seen es

theorem TablesOk.distinct_seen (h : TablesOk t) (hbehind : Behind t es) :
    ∀ e ∈ seen es, ∀ e' ∈ seen es, e.entryId = e'.entryId → e = e' := fun e he e' he' hid =>
  List.inj_on_of_nodup_map h.entryIds (hbehind e he) (hbehind e' he') hid

/-- The rows that the timeline asks for are those of the plant's events that were seen. -/
theorem mem_timeline (h : TablesOk t) (hbehind : Behind t es) (hrows : Lists (es.foldl project .empty).journal rows)
    (r : JournalEntryId × JournalRow) : r ∈ select (fun r => r.2.plantId = p) (·.recordedAt) rows ↔
      ∃ e ∈ seen es, e.plantId = p ∧ r = rowOf e := by
  rw [Query.mem_select hrows, journal_rows (h.distinct_seen hbehind)]
  constructor
  · rintro ⟨⟨e, he, hr⟩, hp⟩
    have hr : r = rowOf e := hr
    subst hr
    exact ⟨e, he, of_decide_eq_true hp, rfl⟩
  · rintro ⟨e, he, hp, rfl⟩
    exact ⟨⟨e, he, rfl⟩, decide_eq_true hp⟩

theorem mem_timeline_of_caughtUp (h : TablesOk t) (hbehind : Behind t es) (hcaught : CaughtUp t es p)
    (hrows : Lists (es.foldl project .empty).journal rows) (r : JournalEntryId × JournalRow) :
    r ∈ select (fun r => r.2.plantId = p) (·.recordedAt) rows ↔ r ∈ (t.eventsOf p).map rowOf := by
  rw [mem_timeline h hbehind hrows, List.mem_map]
  constructor
  · rintro ⟨e, he, hp, rfl⟩
    exact ⟨e, List.mem_filter.2 ⟨hbehind e he, decide_eq_true hp⟩, rfl⟩
  · rintro ⟨e, he, rfl⟩
    exact ⟨e, hcaught e he, of_decide_eq_true (List.mem_filter.1 he).2, rfl⟩

theorem nodup_rowOf (h : TablesOk t) : ((t.eventsOf p).map rowOf).Nodup := by
  refine List.Nodup.of_map Prod.fst ?_
  rw [List.map_map]
  exact (h.ofOnePlant p).distinct

/-! ## Timeline and replay -/

/-- An entry that is stored flat is shown as its event says. -/
theorem fromState_ofEvent {e : JournalEntryAdded} (h : Added e) (hp : e.plantId = p) :
    JournalEntryView.fromState p (.fromDomain (.ofEvent e)) = .ofEvent e := by
  obtain ⟨n, q, rfl⟩ := h
  simp [JournalEntryView.fromState, JournalEntryState.fromDomain, JournalEntry.ofEvent, JournalEntry.new, JournalEntryView.ofEvent,
    NewEntry.event, normalizeNote_text, ← hp]

/-- The replay succeeds, and answers with the plant's events of the time up to the end of the day. -/
theorem getJournalAtDate_eq (names : Naming) (h : TablesOk t) (hadded : ∀ e ∈ t.outbox, Added e) (hp : p ∈ t.plants) (date : Date) :
    ∃ state, getJournalAtDate names t p date = .ok state ∧ Counted state ∧
      (state.entries.Pairwise fun a b => a.occurredAt ≤ b.occurredAt) ∧
      state.entries.Perm (((t.eventsOf p).map .ofEvent).filter fun v : JournalEntryView => v.occurredAt ≤ dayEnd date) := by
  obtain ⟨a, ha, hholds⟩ := load_holds (h.ofOnePlant p) (h.stores p) fun s hs hplant =>
    h.checkpoint (List.mem_filter.2 ⟨hs, by simpa using hplant⟩)
  have hanswer : getJournalAtDate names t p date = .ok (.fromState (a.stateAt (dayEnd date)) (dayEnd date)) := by
    unfold getJournalAtDate
    rw [if_neg (not_not.2 hp), ha]
  have hentries : (JournalStateView.fromState (a.stateAt (dayEnd date)) (dayEnd date)).entries =
      (a.entries.filter fun e => e.occurredAt ≤ dayEnd date).map fun e => .fromState p (.fromDomain e) := by
    show ((a.entries.filter _).map JournalEntryState.fromDomain).map (JournalEntryView.fromState a.plantId) = _
    rw [List.map_map, hholds.plant]
    rfl
  refine ⟨_, hanswer, counted_fromState _ _, ?_, ?_⟩
  · rw [hentries, List.pairwise_map]
    refine ((List.pairwise_insertionSort JournalEntry.Before a.stream.recorded).filter _).imp ?_
    rintro x y (hlt | ⟨heq, -⟩)
    · exact Int.le_of_lt hlt
    · exact Int.le_of_eq heq
  · -- the entries in order are those of the events in any order
    have hperm : a.entries.Perm ((t.eventsOf p).map .ofEvent) := (List.perm_insertionSort _ _).trans hholds.entries
    rw [hentries]
    refine ((hperm.filter _).map _).trans (List.Perm.of_eq ?_)
    rw [List.filter_map, List.map_map, List.filter_map]
    refine List.map_congr_left fun e he => ?_
    obtain ⟨hmem, hplant⟩ := List.mem_filter.1 (List.mem_of_mem_filter he)
    exact fromState_ofEvent (hadded e hmem) (of_decide_eq_true hplant)

theorem timeline_eq (rows : List (JournalEntryId × JournalRow)) (p : PlantId) : (listJournalEntries rows p).map journalEntryView =
    (select (fun r => r.2.plantId = p) (·.recordedAt) rows).map fun r => journalEntryView (journalEntryRow r) := by
  rw [listJournalEntries, List.map_map]
  rfl

end

/-- However the writers of the journal interleave, and whatever else is projected in between: the replay as
of a date succeeds for every plant there is, is in the order of the care and sums up what it lists; whatever
of that time the timeline shows is in it. Once the projection has seen the plant's events, the timeline of a plant with
entries is found, and is the same entries on every date; it is in the order of the stream, if the clock
went forward with it. -/
theorem timeline_replays {names : Naming} {as : List Action} {w : World} (hrun : run (step names) World.empty as = some w)
    {es : List TopicEvent} (hbehind : Behind w.tables es) {rows : List (JournalEntryId × JournalRow)}
    (hrows : Lists (es.foldl project .empty).journal rows) {p : PlantId} (hp : p ∈ w.tables.plants) (date : Date) :
    ∃ state, getJournalAtDate names w.tables p date = .ok state ∧ Counted state ∧
      (state.entries.Pairwise fun a b => a.occurredAt ≤ b.occurredAt) ∧
      (∀ timeline, getJournalTimeline names (es.foldl project .empty) rows p = .ok timeline →
        ∀ v ∈ timeline, v.occurredAt ≤ dayEnd date → v ∈ state.entries) ∧
      (CaughtUp w.tables es p → w.tables.eventsOf p ≠ [] → ∃ timeline,
        getJournalTimeline names (es.foldl project .empty) rows p = .ok timeline ∧
        (timeline.filter fun v => v.occurredAt ≤ dayEnd date).Perm state.entries ∧
        (((w.tables.eventsOf p).Pairwise fun a b => a.occurredAt < b.occurredAt) →
          timeline = (w.tables.eventsOf p).map .ofEvent)) := by
  obtain ⟨hinv, hadded⟩ : Inv names w ∧ ∀ e ∈ w.tables.outbox, Added e :=
    inv (P := fun w => Inv names w ∧ ∀ e ∈ w.tables.outbox, Added e) (fun _ _ _ => added_step)
      ⟨inv_empty names, by simp [World.empty]⟩ hrun
  have hok := hinv.tables
  obtain ⟨state, hstate, hcounted, horder, hperm⟩ := getJournalAtDate_eq names hok hadded hp date
  refine ⟨state, hstate, hcounted, horder, fun timeline htimeline v hv hdate => ?_, fun hcaught hne => ?_⟩
  · unfold getJournalTimeline at htimeline
    split at htimeline
    · cases htimeline
    · cases htimeline
      rw [timeline_eq, List.mem_map] at hv
      obtain ⟨r, hr, rfl⟩ := hv
      obtain ⟨e, he, hplant, rfl⟩ := (mem_timeline hok hbehind hrows r).1 hr
      refine hperm.symm.subset (List.mem_filter.2 ⟨List.mem_map.2 ⟨e, ?_, rfl⟩, decide_eq_true hdate⟩)
      exact List.mem_filter.2 ⟨hbehind e he, decide_eq_true hplant⟩
  · obtain ⟨e, he⟩ := List.exists_mem_of_ne_nil _ hne
    have hplant : e.plantId = p := of_decide_eq_true (List.mem_filter.1 he).2
    have hknown : ¬ ((es.foldl project .empty).plants p).isNone := by
      rw [← hplant, Bool.not_eq_true, Option.isNone_eq_false_iff]
      exact plants_isSome (hcaught e he)
    have hmem := mem_timeline_of_caughtUp hok hbehind hcaught hrows
    refine ⟨_, if_neg hknown, ?_, fun hclock => ?_⟩
    · have hselected : (select (fun r => r.2.plantId = p) (·.recordedAt) rows).Perm ((w.tables.eventsOf p).map rowOf) :=
        (List.perm_ext_iff_of_nodup (Query.nodup_select hrows) (nodup_rowOf hok)).2 hmem
      rw [timeline_eq]
      refine ((hselected.map _).filter _).trans (List.Perm.trans (List.Perm.of_eq ?_) hperm.symm)
      rw [List.map_map]
      rfl
    · have hsorted : ((w.tables.eventsOf p).map rowOf).Pairwise (Query.By (·.recordedAt)) := by
        rw [List.pairwise_map]
        exact hclock.imp fun hlt => .inl hlt
      have hselected := Query.select_eq hrows (nodup_rowOf hok) (fun r => by rw [← hmem r, Query.mem_select hrows]) hsorted
      rw [timeline_eq, hselected, List.map_map]
      rfl

/-- The table, where every entry was seen once. -/
theorem lists_seen {es : List TopicEvent} (h : ((seen es).map (·.entryId)).Nodup) :
    Lists (es.foldl project .empty).journal ((seen es).map rowOf) where
  keys := by
    rw [List.map_map]
    exact h
  mem i r := by
    rw [journal_rows fun e he e' he' hid => List.inj_on_of_nodup_map h he he' hid, List.mem_map]
    simp only [eq_comm]

def watered : World := (run (step wateredNaming) World.empty wateredThrice).get run_wateredThrice

/-- The watering is shown, and replayed as of its day. -/
theorem timeline_replays_watered : ∃ state, getJournalAtDate wateredNaming watered.tables 7 ⟨1970, 1, 1, by decide, by decide, by decide⟩ =
    .ok state ∧ state.entries.length = 1 ∧ ∃ timeline, getJournalTimeline wateredNaming
      ((watered.tables.outbox.map TopicEvent.journal).foldl project .empty)
      ((seen (watered.tables.outbox.map TopicEvent.journal)).map rowOf) 7 = .ok timeline ∧
      (timeline.filter fun v => v.occurredAt ≤ dayEnd ⟨1970, 1, 1, by decide, by decide, by decide⟩).Perm state.entries := by
  have hbehind : Behind watered.tables (watered.tables.outbox.map TopicEvent.journal) := by unfold Behind; decide
  obtain ⟨state, hstate, hcounted, -, -, hcaught⟩ := timeline_replays (w := watered) (p := 7) (Option.some_get run_wateredThrice).symm
    hbehind (lists_seen (by decide)) (by decide) ⟨1970, 1, 1, by decide, by decide, by decide⟩
  obtain ⟨timeline, htimeline, hperm, -⟩ := hcaught (by unfold CaughtUp; decide) (by decide)
  refine ⟨state, hstate, ?_, timeline, htimeline, hperm⟩
  have hlength : (getJournalAtDate wateredNaming watered.tables 7 ⟨1970, 1, 1, by decide, by decide, by decide⟩).toOption.map
      (·.entryCount) = some 1 := by decide
  rw [hstate] at hlength
  rw [← hcounted.entryCount]
  exact Option.some.inj hlength

end Plantkeeper.Journal
