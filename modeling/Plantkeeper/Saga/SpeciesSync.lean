/-
`SpeciesSyncSaga`: fetch the upstream catalogue, write the differences, declare the changed entries
stale. The steps work on the open unit of work: rows they write and events they append are staged in
the session, and the events of the species they save are held by the tracker until a commit publishes
them. A rollback drops the rows but not what is tracked.
-/
import Plantkeeper.Domain.Species
import Plantkeeper.Lib.Table
import Plantkeeper.Saga.Transaction

namespace Plantkeeper.Saga

open Plantkeeper.Table

/-! ## The context and the tables -/

/-- One upstream entry, as the source reports it. -/
structure SpeciesRecord where
  speciesId : SpeciesId
  scientificName : List Char
  commonName : List Char
  wateringInterval : WateringInterval
  lightRequirement : LightRequirement
  deriving DecidableEq

/-- One catalogue entry, as the saga saw it. -/
structure SpeciesSnapshot where
  speciesId : SpeciesId
  scientificName : List Char
  commonName : List Char
  wateringInterval : Duration
  lightRequirement : LightRequirement
  version : ℕ
  deriving DecidableEq

structure SpeciesSyncContext where
  requestedAt : Instant
  requestedBy : Uuid
  fetched : List SpeciesSnapshot
  updated : List SpeciesSnapshot
  created : List SpeciesId
  deriving DecidableEq

/-- `context_from_event`. -/
def SpeciesSyncContext.fromEvent (requestedAt : Instant) (requestedBy : Uuid) : SpeciesSyncContext :=
  ⟨requestedAt, requestedBy, [], [], []⟩

/-- A row written or deleted in the session. -/
inductive Write
  | put (s : Species)
  | delete (speciesId : SpeciesId)
  deriving DecidableEq

def Write.run (rows : List Species) : Write → List Species
  | .put s => Table.put Species.id s rows
  | .delete speciesId => rows.filter fun s => s.id ≠ speciesId

/-- The clock, the upstream source, the species table and the outbox rows of this saga; the unit of
work with the rows written, the rows appended to the outbox and the events tracked; and the writes
committed so far. Writes and events carry whether an `act` or a `compensate` made them. -/
structure Catalogue where
  now : Instant
  upstream : List SpeciesRecord
  species : List Species
  outbox : List (StepAction × CatalogEvent)
  writes : List (StepAction × Write)
  staged : List (StepAction × CatalogEvent)
  tracked : List (StepAction × CatalogEvent)
  written : List (StepAction × Write)

namespace Catalogue

/-- The tables before the saga. -/
def before (now : Instant) (upstream : List SpeciesRecord) (species : List Species) : Catalogue :=
  ⟨now, upstream, species, [], [], [], [], []⟩

/-- `get_for_update`: the row as the open transaction sees it. -/
def get (t : Catalogue) (speciesId : SpeciesId) : Option Species :=
  Table.get Species.id ((t.writes.map (·.2)).foldl Write.run t.species) speciesId

def write (t : Catalogue) (a : StepAction) (x : Write) : Catalogue := { t with writes := t.writes ++ [(a, x)] }

/-- `add` and `save`: the row is written, and the aggregate tracked with the event it recorded. -/
def save (t : Catalogue) (a : StepAction) (s : Species) (events : List CatalogEvent) : Catalogue :=
  { t.write a (.put s) with tracked := t.tracked ++ events.map (a, ·) }

/-- `outbox.append`. -/
def append (t : Catalogue) (a : StepAction) (events : List CatalogEvent) : Catalogue :=
  { t with staged := t.staged ++ events.map (a, ·) }

/-- `SqlAlchemyUnitOfWork.commit`. -/
def commit (t : Catalogue) : Catalogue :=
  { t with
    species := (t.writes.map (·.2)).foldl Write.run t.species
    outbox := t.outbox ++ t.staged ++ t.tracked
    written := t.written ++ t.writes
    writes := []
    staged := []
    tracked := [] }

/-- `rollback`: the tracker keeps its aggregates. -/
def rollback (t : Catalogue) : Catalogue := { t with writes := [], staged := [] }

/-- A fresh unit of work; also what a failed commit leaves, since it drained the tracker first. -/
def renew (t : Catalogue) : Catalogue := { t with writes := [], staged := [], tracked := [] }

end Catalogue

/-! ## The steps -/

/-- `_snapshot`. -/
def snapshot (s : Species) : SpeciesSnapshot :=
  ⟨s.id, s.scientificName.text, s.commonName.text, s.wateringInterval.value, s.lightRequirement, s.version⟩

/-- `FetchSpeciesStep`. -/
def fetchSpeciesStep : Handler SpeciesSyncContext Catalogue where
  act c t fault :=
    match fault with
    | some _ => (c, .raised t)
    | none => ({ c with fetched := t.upstream.map fun r =>
        ⟨r.speciesId, r.scientificName, r.commonName, r.wateringInterval.value, r.lightRequirement, 0⟩ }, .returned t)
  compensate c t _ := (c, .returned t)

/-- One round of `ApplySpeciesUpdatesStep.act`: the species is created, or changed if it differs.
`none` is an exception: a blank name, or a cadence that is not positive. -/
def applyRecord (c : SpeciesSyncContext) (t : Catalogue) (r : SpeciesSnapshot) :
    Option (SpeciesSyncContext × Catalogue) :=
  match WateringInterval.ofDuration r.wateringInterval, t.get r.speciesId with
  | none, _ => none
  | some interval, none =>
    match Species.add r.speciesId r.scientificName r.commonName interval r.lightRequirement t.now with
    | .error _ => none
    | .ok (s, event) => some ({ c with created := c.created ++ [r.speciesId] }, t.save .act s [event])
  | some interval, some s =>
    match s.update r.scientificName r.commonName interval r.lightRequirement t.now s.version with
    | .error _ => none
    | .ok (_, none) => some (c, t)
    | .ok (s', some event) => some ({ c with updated := c.updated ++ [snapshot s] }, t.save .act s' [event])

/-- The loop: where it ended, and whether it came to its end. -/
def applyRecords (c : SpeciesSyncContext) (t : Catalogue) :
    List SpeciesSnapshot → Option ℕ → SpeciesSyncContext × Catalogue × Bool
  | [], _ => (c, t, true)
  | _ :: _, some 0 => (c, t, false)
  | r :: rs, fault =>
    match applyRecord c t r with
    | none => (c, t, false)
    | some (c', t') => applyRecords c' t' rs (fault.map (· - 1))

/-- What an undo of `ApplySpeciesUpdatesStep` does to one species. -/
inductive Undo
  | delete (speciesId : SpeciesId)
  | restore (before : SpeciesSnapshot)

/-- One round of `compensate`. A restored species is saved also when nothing changed. -/
def undoRecord (t : Catalogue) : Undo → Option Catalogue
  | .delete speciesId =>
    some (if (t.get speciesId).isSome then t.write .compensate (.delete speciesId) else t)
  | .restore before =>
    match t.get before.speciesId, WateringInterval.ofDuration before.wateringInterval with
    | none, _ => some t
    | some _, none => none
    | some s, some interval =>
      match s.update before.scientificName before.commonName interval before.lightRequirement t.now s.version with
      | .error _ => none
      | .ok (s', event) => some (t.save .compensate s' event.toList)

def undoRecords (t : Catalogue) : List Undo → Option ℕ → Catalogue × Bool
  | [], _ => (t, true)
  | _ :: _, some 0 => (t, false)
  | u :: us, fault =>
    match undoRecord t u with
    | none => (t, false)
    | some t' => undoRecords t' us (fault.map (· - 1))

/-- `ApplySpeciesUpdatesStep`. The call after the last round is the commit. -/
def applySpeciesUpdatesStep : Handler SpeciesSyncContext Catalogue where
  act c t fault :=
    match applyRecords c t c.fetched fault, fault with
    | (c', t', false), _ => (c', .raised t')
    | (c', t', true), some _ => (c', .raised t'.renew)
    | (c', t', true), none => (c', .committed t'.commit)
  compensate c t fault :=
    match undoRecords t (c.created.map .delete ++ c.updated.map .restore) fault, fault with
    | (t', false), _ => (c, .raised t')
    | (t', true), some _ => (c, .raised t'.renew)
    | (t', true), none => ({ c with updated := [], created := [] }, .committed t'.commit)

/-- `InvalidateSpeciesCacheStep`: one `SpeciesCacheInvalidated` per changed species, then the commit. -/
def invalidateSpeciesCacheStep : Handler SpeciesSyncContext Catalogue where
  act c t fault :=
    let events := c.updated.map fun s => CatalogEvent.speciesCacheInvalidated s.speciesId t.now
    match fault with
    | none => (c, .committed (t.append .act events).commit)
    | some n => if n < events.length then (c, .raised (t.append .act (events.take n))) else (c, .raised t.renew)
  compensate c t _ := (c, .returned t)

/-! ## The saga -/

/-- What others do meanwhile: time passes, the source changes, others write the catalogue. -/
inductive CatalogueEvent
  | advance (microseconds : ℕ)
  | upstream (records : List SpeciesRecord)
  | write (x : Write)

def Catalogue.environment (t : Catalogue) : CatalogueEvent → Catalogue
  | .advance d => { t with now := t.now + d }
  | .upstream records => { t with upstream := records }
  | .write x => { t with species := x.run t.species }

/-- `SpeciesSyncSaga`. -/
def speciesSyncSaga : Process SpeciesSyncContext Catalogue CatalogueEvent where
  steps := [fetchSpeciesStep, applySpeciesUpdatesStep, invalidateSpeciesCacheStep]
  commit := Catalogue.commit
  rollback := Catalogue.rollback
  renew := Catalogue.renew
  environment e t := t.environment e

/-! ## The effects of the steps -/

/-- The rows and the events of the second step, and the events of the third. -/
inductive CatalogueEffect
  | speciesRows
  | speciesEvents
  | cacheInvalidations
  deriving DecidableEq

def ofSpecies : CatalogEvent → Bool
  | .speciesAdded .. | .speciesUpdated .. => true
  | .speciesCacheInvalidated .. => false

namespace CatalogueEffect

def step : CatalogueEffect → ℕ
  | .speciesRows | .speciesEvents => 1
  | .cacheInvalidations => 2

/-- Among these writes or events is one of the effect, made by an `act`. -/
def Among (writes : List (StepAction × Write)) (events : List (StepAction × CatalogEvent)) : CatalogueEffect → Prop
  | .speciesRows => ∃ x ∈ writes, x.1 = .act
  | .speciesEvents => ∃ x ∈ events, x.1 = .act ∧ ofSpecies x.2 = true
  | .cacheInvalidations => ∃ x ∈ events, x.1 = .act ∧ ofSpecies x.2 = false

def Wrote (t : Catalogue) (i : CatalogueEffect) : Prop := i.Among t.written t.outbox

/-- The effect waits for the next commit of the unit of work. -/
def Waits (t : Catalogue) (i : CatalogueEffect) : Prop := i.Among t.writes (t.staged ++ t.tracked)

def Marked (c : SpeciesSyncContext) : CatalogueEffect → Prop
  | .speciesRows | .speciesEvents => c.created ≠ [] ∨ c.updated ≠ []
  | .cacheInvalidations => c.updated ≠ []

/-- Before the second step the context names no species. -/
def Clean (c : SpeciesSyncContext) : CatalogueEffect → Prop
  | .speciesRows | .speciesEvents => c.created = [] ∧ c.updated = []
  | .cacheInvalidations => True

theorem among_append {ws ws' : List (StepAction × Write)} {es es' : List (StepAction × CatalogEvent)}
    (i : CatalogueEffect) : i.Among (ws ++ ws') (es ++ es') ↔ i.Among ws es ∨ i.Among ws' es' := by
  cases i <;> simp only [Among, List.mem_append, or_and_right, exists_or]

theorem wrote_commit (t : Catalogue) (i : CatalogueEffect) : i.Wrote t.commit ↔ i.Wrote t ∨ i.Waits t := by
  unfold Wrote Waits Catalogue.commit
  rw [List.append_assoc]
  exact among_append i

end CatalogueEffect

open CatalogueEffect (among_append wrote_commit)

/-- Nothing that an `act` made waits for a commit. -/
def Catalogue.Quiet (t : Catalogue) : Prop := ∀ i : CatalogueEffect, ¬ i.Waits t

section

variable {c c' : SpeciesSyncContext} {t t' : Catalogue}

theorem quiet_commit (t : Catalogue) : t.commit.Quiet := by
  rintro (_ | _ | _) ⟨x, hx, -⟩ <;> cases hx

theorem quiet_renew (t : Catalogue) : t.renew.Quiet := by
  rintro (_ | _ | _) ⟨x, hx, -⟩ <;> cases hx

/-- What one more saved species adds to the effects that wait. -/
theorem waits_save (a : StepAction) (s : Species) (events : List CatalogEvent) (i : CatalogueEffect) :
    i.Waits (t.save a s events) ↔ i.Waits t ∨ i.Among [(a, .put s)] (events.map (a, ·)) := by
  unfold CatalogueEffect.Waits
  rw [← among_append]
  show i.Among (t.writes ++ [(a, .put s)]) (t.staged ++ (t.tracked ++ events.map (a, ·))) ↔ _
  rw [← List.append_assoc]

theorem waits_append (a : StepAction) (events : List CatalogEvent) (i : CatalogueEffect) :
    i.Waits (t.append a events) ↔ i.Waits t ∨ i.Among [] (events.map (a, ·)) := by
  cases i <;> simp only [CatalogueEffect.Waits, CatalogueEffect.Among, Catalogue.append, List.mem_append, List.not_mem_nil,
    or_and_right, exists_or, false_and, exists_false, or_false, or_right_comm]

/-- What a compensation makes is no effect of an `act`. -/
theorem not_among_compensate (ws : List Write) (events : List CatalogEvent) (i : CatalogueEffect) :
    ¬ i.Among (ws.map (StepAction.compensate, ·)) (events.map (StepAction.compensate, ·)) := by
  cases i <;> simp [CatalogueEffect.Among]

/-- Nothing is committed yet: the rows and the outbox are as before. -/
structure Uncommitted (t t' : Catalogue) : Prop where
  written : t'.written = t.written
  outbox : t'.outbox = t.outbox

namespace Uncommitted

theorem refl (t : Catalogue) : Uncommitted t t := ⟨rfl, rfl⟩

theorem trans {t₁ t₂ t₃ : Catalogue} (h : Uncommitted t₁ t₂) (h' : Uncommitted t₂ t₃) : Uncommitted t₁ t₃ :=
  ⟨h'.written.trans h.written, h'.outbox.trans h.outbox⟩

theorem wrote (h : Uncommitted t t') (i : CatalogueEffect) : i.Wrote t' ↔ i.Wrote t := by
  unfold CatalogueEffect.Wrote
  rw [h.written, h.outbox]

end Uncommitted

/-! ## The second step -/

/-- What the open transaction sees of a species is its row. -/
theorem Catalogue.get_id {id : SpeciesId} {s : Species} (h : t.get id = some s) : s.id = id := (mem_of_get h).2

theorem get_write (a : StepAction) (x : Write) (id : SpeciesId) :
    (t.write a x).get id = Table.get Species.id (x.run ((t.writes.map (·.2)).foldl Write.run t.species)) id := by
  unfold Catalogue.get Catalogue.write
  rw [List.map_append, List.foldl_append]
  rfl

theorem get_save (a : StepAction) (s : Species) (events : List CatalogEvent) (id : SpeciesId) :
    (t.save a s events).get id = if s.id = id then some s else t.get id :=
  (get_write (t := t) a (.put s) id).trans (Table.get_put s id _)

theorem get_delete (a : StepAction) (deleted id : SpeciesId) :
    (t.write a (.delete deleted)).get id = if deleted = id then none else t.get id :=
  (get_write (t := t) a (.delete deleted) id).trans (Table.get_filter_ne deleted id _)

/-- What a round does: nothing, or a species that was not there is created, or one that was is changed. -/
theorem applyRecord_ok {r : SpeciesSnapshot} (h : applyRecord c t r = some (c', t')) : (c' = c ∧ t' = t) ∨
    (∃ s, s.id = r.speciesId ∧ t.get r.speciesId = none ∧ c' = { c with created := c.created ++ [r.speciesId] } ∧
      t' = t.save .act s [.speciesAdded s t.now]) ∨
    ∃ s s', s'.id = r.speciesId ∧ t.get r.speciesId = some s ∧ c' = { c with updated := c.updated ++ [snapshot s] } ∧
      t' = t.save .act s' [.speciesUpdated s' t.now] := by
  unfold applyRecord at h
  split at h
  · cases h
  · rename_i interval _ hget
    split at h
    · cases h
    · rename_i s event hadd
      cases h
      obtain ⟨hid, rfl⟩ := Species.add_ok hadd
      exact .inr (.inl ⟨s, hid, hget, rfl, rfl⟩)
  · rename_i interval s _ hget
    split at h
    · cases h
    · cases h
      exact .inl ⟨rfl, rfl⟩
    · rename_i s' event hupdate
      cases h
      rcases Species.update_ok hupdate with ⟨-, hnone⟩ | ⟨hid, hevent⟩
      · cases hnone
      · cases hevent
        exact .inr (.inr ⟨s, s', hid.trans (Catalogue.get_id hget), hget, rfl, rfl⟩)

/-- A round that changes nothing, or saves one species and remembers it in the context. -/
theorem applyRecord_cases {r : SpeciesSnapshot} (h : applyRecord c t r = some (c', t')) :
    (c' = c ∧ t' = t) ∨ (CatalogueEffect.speciesRows.Marked c' ∧
      ∃ s event, ofSpecies event = true ∧ t' = t.save .act s [event]) := by
  rcases applyRecord_ok h with hsame | ⟨s, -, -, rfl, rfl⟩ | ⟨s, s', -, -, rfl, rfl⟩
  · exact .inl hsame
  · exact .inr ⟨.inl (by simp), s, _, rfl, rfl⟩
  · exact .inr ⟨.inr (by simp), s', _, rfl, rfl⟩

/-- What the loop keeps: the effects of the step wait exactly if the context remembers a species. -/
structure Applying (t₀ : Catalogue) (c : SpeciesSyncContext) (t : Catalogue) : Prop where
  uncommitted : Uncommitted t₀ t
  rows : CatalogueEffect.speciesRows.Waits t ↔ CatalogueEffect.speciesRows.Marked c
  events : CatalogueEffect.speciesEvents.Waits t ↔ CatalogueEffect.speciesRows.Marked c
  caches : ¬ CatalogueEffect.cacheInvalidations.Waits t

theorem applying_start (hq : t.Quiet) (hc : CatalogueEffect.speciesRows.Clean c) : Applying t c t where
  uncommitted := .refl t
  rows := iff_of_false (hq _) (by simp [CatalogueEffect.Marked, hc.1, hc.2])
  events := iff_of_false (hq _) (by simp [CatalogueEffect.Marked, hc.1, hc.2])
  caches := hq _

theorem applying_record {t₀ : Catalogue} {r : SpeciesSnapshot} (hi : Applying t₀ c t)
    (h : applyRecord c t r = some (c', t')) : Applying t₀ c' t' := by
  rcases applyRecord_cases h with ⟨rfl, rfl⟩ | ⟨hm, s, event, he, rfl⟩
  · exact hi
  · refine ⟨hi.uncommitted.trans ⟨rfl, rfl⟩, ?_, ?_, ?_⟩
    · rw [waits_save]
      exact iff_of_true (.inr ⟨_, List.mem_singleton_self _, rfl⟩) hm
    · rw [waits_save]
      exact iff_of_true (.inr ⟨_, List.mem_singleton_self _, rfl, he⟩) hm
    · rw [waits_save]
      rintro (h | ⟨x, hx, -, hx'⟩)
      · exact hi.caches h
      · cases List.mem_singleton.1 hx
        rw [he] at hx'; cases hx'

theorem applying_records {t₀ : Catalogue} {rs : List SpeciesSnapshot} {fault : Option ℕ} (hi : Applying t₀ c t) :
    Applying t₀ (applyRecords c t rs fault).1 (applyRecords c t rs fault).2.1 := by
  fun_induction applyRecords c t rs fault with
  | case1 | case2 | case3 => exact hi
  | case4 c t r rs fault hf c' t' hr ih => exact ih (applying_record hi hr)

theorem applyRecords_uncommitted {rs : List SpeciesSnapshot} {fault : Option ℕ} :
    Uncommitted t (applyRecords c t rs fault).2.1 := by
  fun_induction applyRecords c t rs fault with
  | case1 | case2 | case3 => exact .refl _
  | case4 c t r rs fault hf c' t' hr ih =>
    rcases applyRecord_cases hr with ⟨rfl, rfl⟩ | ⟨-, s, event, -, rfl⟩
    · exact ih
    · have hs : Uncommitted t (t.save .act s [event]) := ⟨rfl, rfl⟩
      exact hs.trans ih

/-- Restoring and deleting makes nothing that an `act` would have made. -/
theorem undoRecord_keeps {u : Undo} (hq : t.Quiet) (h : undoRecord t u = some t') : Uncommitted t t' ∧ t'.Quiet := by
  cases u with
  | delete speciesId =>
    simp only [undoRecord, Option.some.injEq] at h
    subst h
    split
    · refine ⟨⟨rfl, rfl⟩, fun i => ?_⟩
      have happend : i.Waits (t.write .compensate (.delete speciesId)) ↔
          i.Waits t ∨ i.Among [(.compensate, .delete speciesId)] [] := by
        unfold CatalogueEffect.Waits
        rw [← among_append, List.append_nil]; rfl
      rw [happend]
      exact not_or.2 ⟨hq i, not_among_compensate [.delete speciesId] [] i⟩
    · exact ⟨.refl t, hq⟩
  | restore before =>
    simp only [undoRecord] at h
    split at h
    · cases h; exact ⟨.refl t, hq⟩
    · cases h
    · split at h
      · cases h
      · rename_i s' event _
        cases h
        refine ⟨⟨rfl, rfl⟩, fun i => ?_⟩
        rw [waits_save]
        exact not_or.2 ⟨hq i, not_among_compensate [.put s'] event.toList i⟩

theorem undoRecords_keeps (us : List Undo) (fault : Option ℕ) (hq : t.Quiet) :
    Uncommitted t (undoRecords t us fault).1 ∧ (undoRecords t us fault).1.Quiet := by
  fun_induction undoRecords t us fault with
  | case1 | case2 | case3 => exact ⟨.refl _, hq⟩
  | case4 t u us fault hf t' hr ih =>
    obtain ⟨hu, hq'⟩ := undoRecord_keeps hq hr
    obtain ⟨hu', hq''⟩ := ih hq'
    exact ⟨hu.trans hu', hq''⟩

end

section

variable {k : ℕ} {h : Handler SpeciesSyncContext Catalogue} {c : SpeciesSyncContext} {t : Catalogue} {fault : Option ℕ}

theorem speciesSync_steps (hk : speciesSyncSaga.steps[k]? = some h) : (k = 0 ∧ h = fetchSpeciesStep) ∨
    (k = 1 ∧ h = applySpeciesUpdatesStep) ∨ (k = 2 ∧ h = invalidateSpeciesCacheStep) := by
  simp only [speciesSyncSaga] at hk
  match k with
  | 0 => cases hk; exact .inl ⟨rfl, rfl⟩
  | 1 => cases hk; exact .inr (.inl ⟨rfl, rfl⟩)
  | 2 => cases hk; exact .inr (.inr ⟨rfl, rfl⟩)
  | k + 3 => simp at hk

/-- `act` of the second step, when it returns: the loop came to its end and was committed. -/
theorem applySpeciesUpdates_ok (hok : (applySpeciesUpdatesStep.act c t fault).2.ok = true) :
    (applySpeciesUpdatesStep.act c t fault).1 = (applyRecords c t c.fetched fault).1 ∧
      (applySpeciesUpdatesStep.act c t fault).2.tables = (applyRecords c t c.fetched fault).2.1.commit := by
  simp only [applySpeciesUpdatesStep] at hok ⊢
  split at hok
  · cases hok
  · cases hok
  · rename_i c' t' hr
    rw [hr]; exact ⟨rfl, rfl⟩

theorem applySpeciesUpdates_raised (hok : (applySpeciesUpdatesStep.act c t fault).2.ok = false) :
    Uncommitted (applyRecords c t c.fetched fault).2.1 (applySpeciesUpdatesStep.act c t fault).2.tables := by
  simp only [applySpeciesUpdatesStep] at hok ⊢
  split at hok
  · rename_i c' t' hr
    rw [hr]; exact .refl _
  · rename_i c' t' n hr
    rw [hr]; exact ⟨rfl, rfl⟩
  · cases hok

theorem speciesSync_raised (hk : speciesSyncSaga.steps[k]? = some h) (hok : (h.act c t fault).2.ok = false) :
    Uncommitted t (h.act c t fault).2.tables := by
  rcases speciesSync_steps hk with ⟨-, rfl⟩ | ⟨-, rfl⟩ | ⟨-, rfl⟩
  · simp only [fetchSpeciesStep] at hok ⊢
    cases fault with
    | some n => exact .refl t
    | none => cases hok
  · exact applyRecords_uncommitted.trans (applySpeciesUpdates_raised hok)
  · simp only [invalidateSpeciesCacheStep] at hok ⊢
    cases fault with
    | none => cases hok
    | some n =>
      simp only
      split
      · exact ⟨rfl, rfl⟩
      · exact ⟨rfl, rfl⟩

/-- An `act` that returns has written the effects the context then shows, and no other. -/
theorem speciesSync_act (hk : speciesSyncSaga.steps[k]? = some h) (hq : t.Quiet)
    (hfresh : ∀ i : CatalogueEffect, i.step = k → ¬ i.Wrote t ∧ i.Clean c) (hok : (h.act c t fault).2.ok = true) :
    (h.act c t fault).2.tables.Quiet ∧
      (∀ i : CatalogueEffect, i.step = k → (i.Wrote (h.act c t fault).2.tables ↔ i.Marked (h.act c t fault).1)) ∧
      ∀ i : CatalogueEffect, i.step ≠ k → (i.Wrote (h.act c t fault).2.tables ↔ i.Wrote t) := by
  rcases speciesSync_steps hk with ⟨rfl, rfl⟩ | ⟨rfl, rfl⟩ | ⟨rfl, rfl⟩
  · simp only [fetchSpeciesStep] at hok ⊢
    cases fault with
    | some n => cases hok
    | none =>
      refine ⟨hq, fun i hi => ?_, fun i _ => Iff.rfl⟩
      cases i <;> cases hi
  · obtain ⟨hc, ht⟩ := applySpeciesUpdates_ok hok
    have happly : Applying t (applyRecords c t c.fetched fault).1 (applyRecords c t c.fetched fault).2.1 :=
      applying_records (applying_start hq (hfresh .speciesRows rfl).2)
    have hwrote := happly.uncommitted.wrote
    rw [hc, ht]
    refine ⟨quiet_commit _, fun i hi => ?_, fun i hi => ?_⟩
    · rw [wrote_commit, hwrote, or_iff_right (hfresh i hi).1]
      cases i with
      | speciesRows => exact happly.rows
      | speciesEvents => exact happly.events
      | cacheInvalidations => cases hi
    · rw [wrote_commit, hwrote]
      cases i with
      | speciesRows => exact absurd rfl hi
      | speciesEvents => exact absurd rfl hi
      | cacheInvalidations => exact or_iff_left happly.caches
  · simp only [invalidateSpeciesCacheStep] at hok ⊢
    cases fault with
    | some n =>
      simp only at hok
      split at hok <;> cases hok
    | none =>
      have hsame : ∀ (i : CatalogueEffect) (events : List CatalogEvent), i.Wrote (t.append .act events) ↔ i.Wrote t :=
        fun i events => Iff.rfl
      refine ⟨quiet_commit _, fun i hi => ?_, fun i hi => ?_⟩
      · rw [Outcome.tables, wrote_commit, hsame, or_iff_right (hfresh i hi).1, waits_append, or_iff_right (hq i)]
        cases i with
        | speciesRows => cases hi
        | speciesEvents => cases hi
        | cacheInvalidations =>
          cases hu : c.updated with
          | nil => simp [CatalogueEffect.Among, CatalogueEffect.Marked, hu]
          | cons s ss => simp [CatalogueEffect.Among, CatalogueEffect.Marked, hu, ofSpecies]
      · rw [Outcome.tables, wrote_commit, hsame, waits_append, or_iff_right (hq i)]
        refine or_iff_left ?_
        cases i with
        | speciesRows => simp [CatalogueEffect.Among]
        | speciesEvents => simp [CatalogueEffect.Among, ofSpecies]
        | cacheInvalidations => exact absurd rfl hi

/-- The first step leaves the remembered species alone, the third the whole context. -/
theorem speciesSync_context (hk : speciesSyncSaga.steps[k]? = some h) (c : SpeciesSyncContext) (t : Catalogue)
    (fault : Option ℕ) (i : CatalogueEffect) : (i.step < k → (i.Marked (h.act c t fault).1 ↔ i.Marked c)) ∧
      (k < i.step → i.Clean c → i.Clean (h.act c t fault).1) := by
  rcases speciesSync_steps hk with ⟨rfl, rfl⟩ | ⟨rfl, rfl⟩ | ⟨rfl, rfl⟩
  · refine ⟨fun h => absurd h (Nat.not_lt_zero _), fun _ hc => ?_⟩
    simp only [fetchSpeciesStep]
    cases fault with
    | some n => exact hc
    | none => cases i <;> exact hc
  · refine ⟨fun h => ?_, fun h _ => ?_⟩
    · cases i <;> simp [CatalogueEffect.step] at h
    · cases i with
      | speciesRows => simp [CatalogueEffect.step] at h
      | speciesEvents => simp [CatalogueEffect.step] at h
      | cacheInvalidations => trivial
  · have hc : (invalidateSpeciesCacheStep.act c t fault).1 = c := by
      simp only [invalidateSpeciesCacheStep]
      cases fault with
      | none => rfl
      | some n => simp only; split <;> rfl
    rw [hc]
    exact ⟨fun _ => Iff.rfl, fun _ h => h⟩

theorem speciesSync_compensate (hk : speciesSyncSaga.steps[k]? = some h) (hq : t.Quiet) :
    (h.compensate c t fault).2.tables.Quiet ∧
      ∀ i : CatalogueEffect, i.Wrote (h.compensate c t fault).2.tables ↔ i.Wrote t := by
  rcases speciesSync_steps hk with ⟨-, rfl⟩ | ⟨-, rfl⟩ | ⟨-, rfl⟩
  · exact ⟨hq, fun i => Iff.rfl⟩
  · simp only [applySpeciesUpdatesStep]
    obtain ⟨hu, hq'⟩ := undoRecords_keeps (c.created.map .delete ++ c.updated.map .restore) fault hq
    split
    · rename_i t' hr
      rw [hr] at hu hq'
      exact ⟨hq', hu.wrote⟩
    · rename_i t' n hr
      rw [hr] at hu
      exact ⟨quiet_renew t', fun i => hu.wrote i⟩
    · rename_i t' hr
      rw [hr] at hu hq'
      refine ⟨quiet_commit t', fun i => ?_⟩
      rw [Outcome.tables, wrote_commit, hu.wrote]
      exact or_iff_left (hq' i)
  · exact ⟨hq, fun i => Iff.rfl⟩

end

/-- The effects of the catalogue synchronisation. -/
def speciesSyncEffects : Effects speciesSyncSaga CatalogueEffect where
  step := CatalogueEffect.step
  wrote t i := i.Wrote t
  marks c i := i.Marked c
  clean c i := i.Clean c
  quiet := Catalogue.Quiet
  commit := by
    intro t hq
    refine ⟨quiet_commit t, fun i => ?_⟩
    exact (wrote_commit t i).trans (or_iff_left (hq i))
  rollback _ _ := Iff.rfl
  renew t := ⟨quiet_renew t, fun _ => Iff.rfl⟩
  environment := by
    intro e t hq
    cases e <;> exact ⟨hq, fun i => Iff.rfl⟩
  act := by
    intro k h hk c t fault hq hfresh hok
    exact speciesSync_act hk hq hfresh hok
  raised := by
    intro k h hk c t fault hok
    exact (speciesSync_raised hk hok).wrote
  context := by
    intro k h hk c t fault _
    exact speciesSync_context hk c t fault
  compensate := by
    intro k h hk c t fault hq
    exact speciesSync_compensate hk hq

end Plantkeeper.Saga
