/-
The store, the outbox and the mirror stay in step. The stream of a plant is read off the outbox: its
events of that plant, in the order they were committed, are the stream's rows at versions 1 to n. A
transaction that has flushed its row has the version after the last one, and no other transaction can
have it: the key is its own until it ends.
-/
import Mathlib.Data.List.Infix
import Plantkeeper.Journal.Writers
import Plantkeeper.Lib.Table

namespace Plantkeeper.Journal

open Plantkeeper.Run

/-! ## What holds of the tables and of a transaction -/

/-- The events of the plant, in the order they were committed. -/
def Tables.eventsOf (t : Tables) (p : PlantId) : List JournalEntryAdded := t.outbox.filter fun e => e.plantId = p

def Tables.snapshotsOf (t : Tables) (p : PlantId) : List JournalState := t.snapshots.filter fun s => s.plantId = p

structure TablesOk (t : Tables) : Prop where
  stored : ∀ p, (t.eventStore.filter fun r => r.streamId = p) = rowsFrom p 1 (t.eventsOf p)
  documents : t.eventStore.map (·.document) = t.outbox.map .journalEntryAdded
  mirror : t.journalEntries = t.outbox.map .ofEvent
  entryIds : (t.outbox.map (·.entryId)).Nodup
  eventIds : (t.outbox.map (·.eventId)).Nodup
  along : ∀ p, Along p (t.eventsOf p) (t.snapshotsOf p)

/-- The event a transaction appends to the stream, and the snapshot it may store after it. -/
structure Draft (p : PlantId) (es : List JournalEntryAdded) (snapshots : List JournalState) (e : JournalEntryAdded)
    (snapshot : Option JournalState) : Prop where
  fresh : OfOnePlant p (es ++ [e])
  due : ∀ s, snapshot = some s → s.plantId = p ∧ ∃ seen a b, seen ⊆ snapshots ∧ load seen (rowsFrom p 1 es) p = .ok a ∧
    a.apply e = .ok b ∧ b.shouldSnapshot SNAPSHOT_EVERY = true ∧ s = b.state

theorem Draft.mono {p : PlantId} {es : List JournalEntryAdded} {snapshots more : List JournalState} {e : JournalEntryAdded}
    {snapshot : Option JournalState} (h : Draft p es snapshots e snapshot) (hsub : snapshots ⊆ more) :
    Draft p es more e snapshot := by
  refine ⟨h.fresh, ?_⟩
  intro s hs
  obtain ⟨hp, seen, a, b, hseen, hrest⟩ := h.due s hs
  exact ⟨hp, seen, a, b, List.Subset.trans hseen hsub, hrest⟩

/-- Nothing is added to the session yet. -/
structure Writer.Clean (x : Writer) : Prop where
  rows : x.rows = []
  outbox : x.outbox = []
  entries : x.entries = []
  snapshots : x.snapshots = []

theorem Writer.Clean.at {x : Writer} (h : x.Clean) (pc : Pc) : ({ x with pc := pc } : Writer).Clean :=
  ⟨h.rows, h.outbox, h.entries, h.snapshots⟩

section

variable (names : Naming)

/-- The event of a transaction. -/
def Writer.event (x : Writer) : JournalEntryAdded := (x.job.newEntry names x.drawn).event x.job.plantId

/-- The row is flushed, at the version after the last one. -/
structure Staged (t : Tables) (x : Writer) : Prop where
  rows : x.rows = rowsFrom x.job.plantId ((t.eventsOf x.job.plantId).length + 1) [x.event names]
  outbox : x.outbox = [x.event names]
  entries : x.entries = [.ofEvent (x.event names)]
  draft : ∃ snapshot : Option JournalState, x.snapshots = snapshot.toList ∧
    Draft x.job.plantId (t.eventsOf x.job.plantId) (t.snapshotsOf x.job.plantId) (x.event names) snapshot

/-- The staged row does not depend on the other streams. -/
theorem Staged.congr {names : Naming} {t t' : Tables} {x : Writer} (h : Staged names t x)
    (hevents : t'.eventsOf x.job.plantId = t.eventsOf x.job.plantId)
    (hsnapshots : t'.snapshotsOf x.job.plantId = t.snapshotsOf x.job.plantId) : Staged names t' x where
  rows := by rw [hevents]; exact h.rows
  outbox := h.outbox
  entries := h.entries
  draft := by rw [hevents, hsnapshots]; exact h.draft

/-- What is known of a transaction at its statement. What it has loaded is a beginning of the stream. -/
def WriterOk (t : Tables) (x : Writer) : Prop :=
  match x.pc with
  | .claim | .getPlant | .latest => x.Clean
  | .loadStream state => x.Clean ∧ ∀ s, state = some s → s ∈ t.snapshotsOf x.job.plantId
  | .append v entry events snapshot => x.Clean ∧ entry = .ofEvent (x.event names) ∧ events = [x.event names] ∧
      ∃ es, es <+: t.eventsOf x.job.plantId ∧ v = es.length ∧
        Draft x.job.plantId es (t.snapshotsOf x.job.plantId) (x.event names) snapshot
  | .commit => x.Clean ∨ Staged names t x

structure Inv (w : World) : Prop where
  tables : TablesOk w.tables
  log : w.log.map (·.2) = w.tables.outbox
  named : ∀ event e, (Job.watering event, e) ∈ w.log → e.entryId = wateringEntryId names event.plantId event.completedAt
  writers : ∀ i x, w.writers i = some x → WriterOk names w.tables x
  held : ∀ i x, w.writers i = some x → ∀ r ∈ x.rows, (.version r.streamId r.version, i) ∈ w.keys
  unique : ∀ k i j, (k, i) ∈ w.keys → (k, j) ∈ w.keys → i = j

theorem inv_empty : Inv names World.empty where
  tables := ⟨fun _ => rfl, rfl, rfl, by simp [World.empty], by simp [World.empty], fun _ => Along.nil⟩
  log := rfl
  named := by simp [World.empty]
  writers := by simp [World.empty]
  held := by simp [World.empty]
  unique := by simp [World.empty]

end

/-! ## The tables -/

section

variable {t : Tables}

theorem TablesOk.ofOnePlant (h : TablesOk t) (p : PlantId) : OfOnePlant p (t.eventsOf p) := by
  constructor
  · intro e he
    simpa using (List.mem_filter.1 he).2
  · exact h.entryIds.sublist (List.filter_sublist.map _)

theorem TablesOk.stores (h : TablesOk t) (p : PlantId) : Stores t.eventStore p (t.eventsOf p) := by
  unfold Stores
  rw [h.stored]

theorem TablesOk.checkpoint (h : TablesOk t) {p : PlantId} {s : JournalState} (hs : s ∈ t.snapshotsOf p) :
    Checkpoint p (t.eventsOf p) s :=
  (h.along p).checkpoint (h.ofOnePlant p) s hs

/-- What a load reads depends on the rows of the stream alone. -/
theorem TablesOk.load_eq (h : TablesOk t) {p : PlantId} {state : Option JournalState}
    (hstate : ∀ s, state = some s → s ∈ t.snapshotsOf p) :
    load state.toList (rowsFrom p 1 (t.eventsOf p)) p = loadAfter state t.eventStore p := by
  have hlatest : latest state.toList p = state := by
    cases state with
    | none => rfl
    | some s =>
      have hp : s.plantId = p := by simpa using (List.mem_filter.1 (hstate s rfl)).2
      simp [latest, hp]
  simp only [load, loadAfter, hlatest, loadStream_eq (stores_rowsFrom p _), loadStream_eq (h.stores p)]

end

/-! ## Steps that commit nothing -/

section

variable {names : Naming} {w : World} {i : ℕ} {x : Writer}

/-- A transaction goes on, with the rows it has the keys of. -/
theorem Inv.put (h : Inv names w) (hx : WriterOk names w.tables x)
    (hheld : ∀ r ∈ x.rows, (.version r.streamId r.version, i) ∈ w.keys) : Inv names (w.put i x) where
  tables := h.tables
  log := h.log
  named := h.named
  writers := by
    intro j y hy
    rcases update_eq_some.1 hy with ⟨rfl, hsame⟩ | ⟨-, hother⟩
    · cases hsame
      exact hx
    · exact h.writers j y hother
  held := by
    intro j y hy
    rcases update_eq_some.1 hy with ⟨rfl, hsame⟩ | ⟨-, hother⟩
    · cases hsame
      exact hheld
    · exact h.held j y hother
  unique := h.unique

theorem Inv.close (h : Inv names w) (i : ℕ) : Inv names (w.close i) where
  tables := h.tables
  log := h.log
  named := h.named
  writers := fun j y hy => h.writers j y (eq_some_of_remove hy).2
  held := by
    intro j y hy r hr
    obtain ⟨hne, hother⟩ := eq_some_of_remove hy
    exact List.mem_filter.2 ⟨h.held j y hother r hr, by simpa using hne⟩
  unique := by
    intro k a b ha hb
    exact h.unique k a b (List.mem_filter.1 ha).1 (List.mem_filter.1 hb).1

/-- Keys are inserted only while no other transaction has them. -/
theorem Inv.insert (h : Inv names w) {ks : List Key} (hfree : w.waits i ks = false) : Inv names (w.insert i ks) where
  tables := h.tables
  log := h.log
  named := h.named
  writers := h.writers
  held := by
    intro j y hy r hr
    exact List.mem_append_left _ (h.held j y hy r hr)
  unique := by
    have howner : ∀ k ∈ ks, ∀ a, (k, a) ∈ w.keys → a = i := by
      intro k hk a ha
      unfold World.waits at hfree
      rw [List.any_eq_false] at hfree
      simpa [hk] using hfree (k, a) ha
    intro k a b ha hb
    have hnew : ∀ c, (k, c) ∈ ks.map (fun k => (k, i)) → k ∈ ks ∧ c = i := by
      intro c hc
      simp only [List.mem_map, Prod.mk.injEq] at hc
      obtain ⟨k', hk', rfl, rfl⟩ := hc
      exact ⟨hk', rfl⟩
    rcases List.mem_append.1 ha with hold | hins <;> rcases List.mem_append.1 hb with hold' | hins'
    · exact h.unique k a b hold hold'
    · obtain ⟨hk, rfl⟩ := hnew b hins'
      exact howner k hk a hold
    · obtain ⟨hk, rfl⟩ := hnew a hins
      exact (howner k hk b hold').symm
    · rw [(hnew a hins).2, (hnew b hins').2]

/-- Nothing of this depends on the plants, their references or the ledger. -/
theorem Inv.frame (h : Inv names w) {t : Tables} (hstore : t.eventStore = w.tables.eventStore)
    (houtbox : t.outbox = w.tables.outbox) (hmirror : t.journalEntries = w.tables.journalEntries)
    (hsnapshots : t.snapshots = w.tables.snapshots) : Inv names { w with tables := t } := by
  have hevents : t.eventsOf = w.tables.eventsOf := by
    funext p
    unfold Tables.eventsOf
    rw [houtbox]
  have hsnaps : t.snapshotsOf = w.tables.snapshotsOf := by
    funext p
    unfold Tables.snapshotsOf
    rw [hsnapshots]
  refine ⟨⟨?_, ?_, ?_, ?_, ?_, ?_⟩, ?_, h.named, ?_, h.held, h.unique⟩
  · rw [hstore, hevents]
    exact h.tables.stored
  · rw [hstore, houtbox]
    exact h.tables.documents
  · rw [hmirror, houtbox]
    exact h.tables.mirror
  · rw [houtbox]
    exact h.tables.entryIds
  · rw [houtbox]
    exact h.tables.eventIds
  · rw [hevents, hsnaps]
    exact h.tables.along
  · rw [houtbox]
    exact h.log
  · intro i x hx
    have hok := h.writers i x hx
    unfold WriterOk at hok ⊢
    rw [hevents, hsnaps]
    split at hok
    · exact hok
    · exact hok
    · exact hok
    · exact hok
    · exact hok
    · exact hok.imp id fun hstaged => hstaged.congr (by rw [hevents]) (by rw [hsnaps])

/-- A statement that adds nothing to the session. -/
theorem Inv.goto (h : Inv names w) (hclean : x.Clean) (hx : WriterOk names w.tables x) : Inv names (w.put i x) := by
  refine h.put hx ?_
  rw [hclean.rows]
  simp

/-- The aggregate a transaction loads is the journal of the stream as it is. -/
theorem Inv.recorded (h : Inv names w) (hclean : x.Clean) {state : Option JournalState}
    (hstate : ∀ s, state = some s → s ∈ w.tables.snapshotsOf x.job.plantId) {a : JournalAggregate}
    (ha : loadAfter state w.tables.eventStore x.job.plantId = .ok a) : Inv names (recorded names w i x a) := by
  have hone := h.tables.ofOnePlant x.job.plantId
  obtain ⟨b, hb, hholds⟩ := loadAfter_holds hone (h.tables.stores _) fun s hs => h.tables.checkpoint (hstate s hs)
  obtain rfl : a = b := Except.ok.inj (ha.symm.trans hb)
  unfold Journal.recorded
  cases hrec : record a (x.job.newEntry names x.drawn) with
  | existing entry => exact h.goto (hclean.at _) (.inl (hclean.at _))
  | refused error => exact h.close i
  | append v entry events snapshot =>
    obtain ⟨hv, hentry, hevents, hfresh, hdue⟩ := hholds.record hone hrec
    refine h.goto (hclean.at _) ⟨hclean.at _, hentry, hevents, _, List.prefix_refl _, hv, hfresh, ?_⟩
    intro s hs
    obtain ⟨hp, b, hb, hsnap, rfl⟩ := hdue s hs
    refine ⟨hp, state.toList, a, b, ?_, (h.tables.load_eq hstate).trans ha, hb, hsnap, rfl⟩
    intro s' hs'
    exact hstate s' (by simpa using hs')

/-- A version that is stored is taken. -/
theorem TablesOk.clashes {t : Tables} (h : TablesOk t) {p : PlantId} {v : ℕ} (hv : v < (t.eventsOf p).length)
    (e : JournalEntryAdded) : clashes t (rowsFrom p (v + 1) [e]) = true := by
  have hversion : v + 1 ∈ (rowsFrom p 1 (t.eventsOf p)).map (·.version) := by
    rw [versions_rowsFrom, List.mem_range'_1]
    omega
  obtain ⟨r, hr, hrv⟩ := List.mem_map.1 hversion
  have hrs := (mem_rowsFrom hr).1
  rw [← h.stored] at hr
  unfold Journal.clashes
  rw [List.any_eq_true]
  refine ⟨.version r.streamId r.version, ?_, ?_⟩
  · exact List.mem_flatMap.2 ⟨r, (List.mem_filter.1 hr).1, by simp⟩
  · simp [keysOf, rowsFrom, hrs, hrv]

/-- Past the unique key, the version is the one after the last. -/
theorem Inv.flush (h : Inv names w) (hx : WriterOk names w.tables x) {v : ℕ} {entry : JournalEntry}
    {events : List JournalEntryAdded} {snapshot : Option JournalState} (hpc : x.pc = .append v entry events snapshot)
    {w' : World} (hstep : flush w i x v entry events snapshot = some w') : Inv names w' := by
  simp only [WriterOk, hpc] at hx
  obtain ⟨hclean, rfl, rfl, es, hfront, rfl, hdraft⟩ := hx
  simp only [Journal.flush] at hstep
  split at hstep
  · cases hstep
    exact h.close i
  · rename_i hclash
    split at hstep
    · cases hstep
    · rename_i hwait
      have hlen : ¬ es.length < (w.tables.eventsOf x.job.plantId).length := fun hlt => hclash (h.tables.clashes hlt _)
      obtain rfl : es = w.tables.eventsOf x.job.plantId := hfront.eq_of_length_le (by omega)
      cases hstep
      refine (h.insert (by simpa using hwait)).put (.inr ⟨rfl, rfl, rfl, snapshot, rfl, hdraft⟩) ?_
      intro r hr
      refine List.mem_append_right _ (List.mem_map.2 ⟨.version r.streamId r.version, ?_, rfl⟩)
      exact List.mem_flatMap.2 ⟨r, hr, by simp⟩

end

/-! ## Commits -/

section

variable {names : Naming} {t : Tables} {x : Writer}

theorem write_clean (hx : x.Clean) (t : Tables) : t.write x = { t with ledger := t.ledger ++ x.claimed } := by
  simp [Tables.write, hx.rows, hx.outbox, hx.entries, hx.snapshots]

/-- The streams after a commit: the one of the plant has one more event. -/
theorem Staged.eventsOf (h : Staged names t x) (p : PlantId) :
    (t.write x).eventsOf p = t.eventsOf p ++ if x.job.plantId = p then [x.event names] else [] := by
  have hp : (x.event names).plantId = x.job.plantId := rfl
  unfold Tables.eventsOf Tables.write
  rw [h.outbox, List.filter_append]
  by_cases hplant : x.job.plantId = p <;> simp [hp, hplant]

theorem Staged.snapshotsOf (h : Staged names t x) (p : PlantId) :
    (t.write x).snapshotsOf p = t.snapshotsOf p ++ if x.job.plantId = p then x.snapshots else [] := by
  obtain ⟨snapshot, hsnap, hdraft⟩ := h.draft
  unfold Tables.snapshotsOf Tables.write
  rw [List.filter_append, hsnap]
  cases snapshot with
  | none => simp
  | some s =>
    have hp := (hdraft.due s rfl).1
    by_cases hplant : x.job.plantId = p <;> simp [hp, hplant]

theorem Staged.stored (h : Staged names t x) (ht : TablesOk t) (p : PlantId) :
    ((t.write x).eventStore.filter fun r => r.streamId = p) = rowsFrom p 1 ((t.write x).eventsOf p) := by
  rw [h.eventsOf, rowsFrom_append, ← ht.stored]
  simp only [Tables.write]
  rw [List.filter_append, h.rows]
  by_cases hplant : x.job.plantId = p
  · subst hplant
    simp [rowsFrom, Nat.add_comm]
  · simp [rowsFrom, hplant]

/-- Along the stream with one more event. -/
theorem Staged.along (h : Staged names t x) (ht : TablesOk t) (p : PlantId) :
    Along p ((t.write x).eventsOf p) ((t.write x).snapshotsOf p) := by
  rw [h.eventsOf, h.snapshotsOf]
  by_cases hplant : x.job.plantId = p
  · subst hplant
    obtain ⟨snapshot, hsnap, hdraft⟩ := h.draft
    rw [if_pos rfl, if_pos rfl, hsnap]
    cases snapshot with
    | none =>
      rw [Option.toList_none, List.append_nil]
      exact (ht.along _).append
    | some s =>
      obtain ⟨-, seen, a, b, hseen, hload, happly, hdue, rfl⟩ := hdraft.due s rfl
      exact (ht.along _).snapshot SNAPSHOT_EVERY hseen hload happly hdue
  · rw [if_neg hplant, if_neg hplant, List.append_nil, List.append_nil]
    exact ht.along p

/-- What the unique keys let through at the commit is new to the outbox and to the mirror. -/
theorem TablesOk.write (ht : TablesOk t) (h : Staged names t x) (hok : violates t x = false) : TablesOk (t.write x) := by
  simp only [violates, Bool.or_eq_false_iff, h.outbox, h.entries, List.any_cons, List.any_nil, Bool.or_false,
    decide_eq_false_iff_not] at hok
  obtain ⟨⟨hevent, hentry⟩, -⟩ := hok
  have hids : t.journalEntries.map (·.id) = t.outbox.map (·.entryId) := by
    rw [ht.mirror, List.map_map]
    rfl
  rw [hids] at hentry
  refine ⟨h.stored ht, ?_, ?_, ?_, ?_, h.along ht⟩
  · simp [Tables.write, ht.documents, h.rows, h.outbox, rowsFrom]
  · simp [Tables.write, ht.mirror, h.entries, h.outbox]
  · simp only [Tables.write, h.outbox]
    exact Table.nodup_insert ht.entryIds hentry
  · simp only [Tables.write, h.outbox]
    exact Table.nodup_insert ht.eventIds hevent

/-- What another transaction has read is still so: its stream has grown at most, and not at all if it
has flushed its own row. -/
theorem WriterOk.write {y : Writer} (hy : WriterOk names t y) (h : Staged names t x)
    (hapart : y.rows ≠ [] → y.job.plantId ≠ x.job.plantId) : WriterOk names (t.write x) y := by
  have hevents : ∀ p, t.eventsOf p <+: (t.write x).eventsOf p := by
    intro p
    rw [h.eventsOf]
    exact List.prefix_append _ _
  have hsnaps : ∀ p, t.snapshotsOf p ⊆ (t.write x).snapshotsOf p := by
    intro p
    rw [h.snapshotsOf]
    exact List.subset_append_left _ _
  unfold WriterOk at hy ⊢
  split at hy
  · exact hy
  · exact hy
  · exact hy
  · obtain ⟨hclean, hstate⟩ := hy
    exact ⟨hclean, fun s hs => hsnaps _ (hstate s hs)⟩
  · obtain ⟨hclean, hentry, hevs, es, hfront, hv, hdraft⟩ := hy
    exact ⟨hclean, hentry, hevs, es, hfront.trans (hevents _), hv, hdraft.mono (hsnaps _)⟩
  · rcases hy with hclean | hstaged
    · exact .inl hclean
    · right
      have hne : x.job.plantId ≠ y.job.plantId := by
        apply Ne.symm
        apply hapart
        rw [hstaged.rows]
        simp [rowsFrom]
      refine hstaged.congr ?_ ?_
      · rw [h.eventsOf, if_neg hne, List.append_nil]
      · rw [h.snapshotsOf, if_neg hne, List.append_nil]

end

/-! ## Runs -/

section

variable {names : Naming} {w w' : World} {i : ℕ} {x : Writer}

theorem WriterOk.clean_or_staged {t : Tables} (h : WriterOk names t x) : x.Clean ∨ Staged names t x := by
  unfold WriterOk at h
  split at h
  · exact .inl h
  · exact .inl h
  · exact .inl h
  · exact .inl h.1
  · exact .inl h.1
  · exact h

/-- Two transactions that have flushed their rows write to different streams. -/
theorem Inv.apart (h : Inv names w) (hx : w.writers i = some x) (hstaged : Staged names w.tables x) {j : ℕ} {y : Writer}
    (hy : w.writers j = some y) (hne : j ≠ i) (hrows : y.rows ≠ []) : y.job.plantId ≠ x.job.plantId := by
  intro heq
  rcases (h.writers j y hy).clean_or_staged with hclean | hstaged'
  · exact hrows hclean.rows
  · -- both would hold the key of one version
    have hkey := h.held i x hx
    have hkey' := h.held j y hy
    rw [hstaged.rows] at hkey
    rw [hstaged'.rows, heq] at hkey'
    simp only [rowsFrom, List.mem_singleton, forall_eq] at hkey hkey'
    exact hne (h.unique _ j i hkey' hkey)

theorem Inv.commit (h : Inv names w) (hx : w.writers i = some x) (hok : violates w.tables x = false) :
    Inv names { w.close i with tables := w.tables.write x, log := w.log ++ x.outbox.map fun e => (x.job, e) } := by
  have hclose := h.close i
  rcases (h.writers i x hx).clean_or_staged with hclean | hstaged
  · rw [write_clean hclean, hclean.outbox, List.map_nil, List.append_nil]
    exact hclose.frame rfl rfl rfl rfl
  · refine ⟨h.tables.write hstaged hok, ?_, ?_, ?_, hclose.held, hclose.unique⟩
    · simp [Tables.write, h.log]
    · intro event e he
      rcases List.mem_append.1 he with hold | hnew
      · exact h.named event e hold
      · simp only [hstaged.outbox, List.map_cons, List.map_nil, List.mem_singleton, Prod.mk.injEq] at hnew
        obtain ⟨hjob, rfl⟩ := hnew
        simp [Writer.event, NewEntry.event, Job.newEntry, ← hjob]
    · intro j y hy
      obtain ⟨hne, hother⟩ := eq_some_of_remove hy
      exact (h.writers j y hother).write hstaged (h.apart hx hstaged hother hne)

theorem Inv.execute (h : Inv names w) (hx : w.writers i = some x) (hstep : execute names w i x = some w') :
    Inv names w' := by
  have hok := h.writers i x hx
  unfold Journal.execute at hstep
  split at hstep
  all_goals rename_i hpc
  · -- the claim of the ledger
    have hclean : x.Clean := by simpa [WriterOk, hpc] using hok
    split at hstep
    · cases hstep
    · split at hstep
      · cases hstep
        exact h.close i
      · split at hstep
        · cases hstep
        · rename_i event _ _ hwait
          cases hstep
          have hclean' : ({ x with pc := .getPlant, claimed := [event.eventId] } : Writer).Clean :=
            ⟨hclean.rows, hclean.outbox, hclean.entries, hclean.snapshots⟩
          exact (h.insert (by simpa using hwait)).goto hclean' hclean'
  · -- the look at the plant
    have hclean : x.Clean := by simpa [WriterOk, hpc] using hok
    split at hstep
    · cases hstep
      exact h.goto (hclean.at _) (hclean.at _)
    · cases hstep
      unfold withoutPlant
      split
      · exact h.close i
      · exact h.goto (hclean.at _) (.inl (hclean.at _))
  · -- the newest snapshot
    have hclean : x.Clean := by simpa [WriterOk, hpc] using hok
    cases hstep
    refine h.goto (hclean.at _) ⟨hclean.at _, ?_⟩
    intro s hs
    obtain ⟨hmem, hplant⟩ := mem_of_latest hs
    exact List.mem_filter.2 ⟨hmem, by simpa using hplant⟩
  · -- the rows after it
    rename_i state
    have hread : x.Clean ∧ ∀ s, state = some s → s ∈ w.tables.snapshotsOf x.job.plantId := by
      simpa [WriterOk, hpc] using hok
    split at hstep
    · cases hstep
      exact h.close i
    · rename_i hload
      cases hstep
      exact h.recorded hread.1 hread.2 hload
  · exact h.flush hok hpc hstep
  · -- the commit, which the unique keys may refuse
    split at hstep
    · cases hstep
      exact h.close i
    · rename_i hviolates
      cases hstep
      exact h.commit hx (by simpa using hviolates)

theorem inv_step (a : Action) (h : Inv names w) (hstep : step names w a = some w') : Inv names w' := by
  cases a with
  | start j job drawn =>
    simp only [step] at hstep
    split at hstep
    · cases hstep
      have hclean : (Writer.opened job drawn).Clean := ⟨rfl, rfl, rfl, rfl⟩
      refine h.goto hclean ?_
      cases job <;> exact hclean
    · cases hstep
  | execute j =>
    obtain ⟨y, hy, hstep⟩ := Option.bind_eq_some_iff.1 hstep
    exact h.execute hy hstep
  | fail j =>
    cases hstep
    exact h.close j
  | loseLedger eventIds =>
    cases hstep
    exact h.frame rfl rfl rfl rfl
  | addPlant p =>
    cases hstep
    exact h.frame rfl rfl rfl rfl
  | addPlantRef p =>
    cases hstep
    exact h.frame rfl rfl rfl rfl
  | removePlantRef p =>
    cases hstep
    exact h.frame rfl rfl rfl rfl

end

/-! ## In step -/

/-- The entry a stored document tells of. -/
def StoredDocument.entryId : StoredDocument → Option JournalEntryId
  | .journalEntryAdded event => some event.entryId
  | .other .. => none

/-- The versions of every stream are 1 to n, no entry is stored twice, and every row of the store has
its one row in the outbox and its one row in the mirror. -/
structure InStep (t : Tables) : Prop where
  versions : ∀ p, ∃ n, ((t.eventStore.filter fun r => r.streamId = p).map (·.version)).Perm (List.range' 1 n)
  distinct : (t.eventStore.filterMap fun r => r.document.entryId).Nodup
  rows : ∀ r ∈ t.eventStore, ∃ e, r.document = .journalEntryAdded e ∧
    (t.outbox.filter fun o => o.eventId = e.eventId) = [e] ∧
    (t.journalEntries.filter fun m => m.id = e.entryId) = [.ofEvent e]

theorem TablesOk.inStep {t : Tables} (h : TablesOk t) : InStep t := by
  refine ⟨?_, ?_, ?_⟩
  · intro p
    refine ⟨(t.eventsOf p).length, ?_⟩
    rw [h.stored, versions_rowsFrom]
  · have : (t.eventStore.filterMap fun r => r.document.entryId) = t.outbox.map (·.entryId) := by
      have := congrArg (List.filterMap StoredDocument.entryId) h.documents
      simpa [List.filterMap_map, Function.comp_def, StoredDocument.entryId] using this
    rw [this]
    exact h.entryIds
  · intro r hr
    have hdoc : r.document ∈ t.outbox.map .journalEntryAdded := h.documents ▸ List.mem_map_of_mem hr
    obtain ⟨e, he, hr⟩ := List.mem_map.1 hdoc
    refine ⟨e, hr.symm, Table.filter_eq_singleton h.eventIds he, ?_⟩
    have hmirror : (t.journalEntries.map (·.id)).Nodup := by
      rw [h.mirror, List.map_map]
      exact h.entryIds
    have hmem : JournalEntry.ofEvent e ∈ t.journalEntries := by
      rw [h.mirror]
      exact List.mem_map_of_mem he
    exact Table.filter_eq_singleton hmirror hmem

/-- However the writers of the journal interleave, fail and are repeated: its tables are in step, the
deliveries of one watering have stored one entry at most, and a transaction whose version another one
has taken is rolled back at its append. -/
theorem journal_in_step {names : Naming} {as : List Action} {w : World} (hrun : run (step names) World.empty as = some w) :
    InStep w.tables ∧
      (w.log.map (·.2) = w.tables.outbox ∧ ∀ event, (w.log.filter fun l => l.1 = .watering event).length ≤ 1) ∧
      ∀ i x v entry events snapshot, w.writers i = some x → x.pc = .append v entry events snapshot →
        v ≠ (w.tables.eventStore.filter fun r => r.streamId = x.job.plantId).length →
        step names w (.execute i) = some (w.close i) ∧ (w.close i).tables = w.tables := by
  have h : Inv names w := inv (fun w a w' => inv_step a) (inv_empty names) hrun
  refine ⟨h.tables.inStep, ⟨h.log, ?_⟩, ?_⟩
  · -- the entries of one watering have one identifier, and identifiers are distinct
    intro event
    have hids : (w.log.map fun l => l.2.entryId).Nodup := by
      have := h.tables.entryIds
      rwa [← h.log, List.map_map] at this
    refine Table.length_filter_le_one hids (k := wateringEntryId names event.plantId event.completedAt) ?_
    rintro ⟨job, e⟩ hlog hjob
    obtain rfl : job = .watering event := of_decide_eq_true hjob
    exact h.named event e hlog
  · intro i x v entry events snapshot hx hpc hv
    have hok := h.writers i x hx
    simp only [WriterOk, hpc] at hok
    obtain ⟨-, -, rfl, es, hfront, rfl, -⟩ := hok
    have hlen : (rowsFrom x.job.plantId 1 (w.tables.eventsOf x.job.plantId)).length =
        (w.tables.eventsOf x.job.plantId).length := by
      simpa using congrArg List.length (versions_rowsFrom (p := x.job.plantId) 1 (w.tables.eventsOf x.job.plantId))
    rw [h.tables.stored, hlen] at hv
    have hlt : es.length < (w.tables.eventsOf x.job.plantId).length := lt_of_le_of_ne hfront.length_le hv
    refine ⟨?_, rfl⟩
    simp only [step, hx, Option.bind_some, Journal.execute, hpc, Journal.flush]
    rw [if_pos (h.tables.clashes hlt _)]

/-- Plant 7 watered a second after the epoch. -/
def wateredOnce : WateringCompleted := ⟨90, 7, seconds 1⟩

/-- The watering's identifier, and the plant's and the instant's texts. -/
def wateredNaming : Naming :=
  { uuid5 := fun _ => 11512374279231403063503571199492509035
    str := fun _ => "00000000-0000-0000-0000-000000000007"
    isoformat := fun _ => "1970-01-01T00:00:01+00:00" }

/-- A note is written while the watering is delivered twice; the note loses the version to the first
delivery, the second stops at the ledger, and a third, after the ledger is lost, finds the entry. -/
def wateredThrice : List Action :=
  [.addPlant 7, .addPlantRef 7, .start 0 (.watering wateredOnce) ⟨seconds 2, 0, 101⟩,
    .start 1 (.addJournalEntry 7 .note none (some ['o', 'k']) none) ⟨seconds 2, 55, 102⟩,
    .start 2 (.watering wateredOnce) ⟨seconds 3, 0, 103⟩] ++
  [.execute 0, .execute 0, .execute 0, .execute 0, .execute 1, .execute 1, .execute 1, .execute 0, .execute 0,
    .execute 1, .execute 2] ++
  [.loseLedger [90], .start 3 (.watering wateredOnce) ⟨seconds 4, 0, 104⟩, .execute 3, .execute 3, .execute 3, .execute 3,
    .execute 3]

theorem run_wateredThrice : (run (step wateredNaming) World.empty wateredThrice).isSome := by decide

theorem journal_in_step_watered : ∃ w, run (step wateredNaming) World.empty wateredThrice = some w ∧
    w.tables.eventStore.length = 1 ∧ InStep w.tables :=
  ⟨(run (step wateredNaming) World.empty wateredThrice).get run_wateredThrice, (Option.some_get _).symm, by decide,
    (journal_in_step (Option.some_get run_wateredThrice).symm).1⟩

end Plantkeeper.Journal
