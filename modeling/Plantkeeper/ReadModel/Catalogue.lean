/-
`species` against the catalogue it is read from, through the synchronisations that write it. A run
either completes or is compensated after its second step committed: the compensation restores what was
changed through the aggregate, which announces it, and deletes what was created, which nothing announces.
So the rows that are served are those of the catalogue, and those of creations that were rolled back and
not made again.
-/
import Plantkeeper.Lib.Run
import Plantkeeper.ReadModel.Tables
import Plantkeeper.Saga.SpeciesSync

namespace Plantkeeper.ReadModel

open Plantkeeper.Saga

/-! ## Synchronisations -/

/-- What becomes of the unit of work in which the third step raised: it is used on, it is rolled back, or
another process compensates. -/
inductive AfterFailure
  | kept
  | rolledBack
  | renewed
  deriving DecidableEq

def AfterFailure.run (t : Catalogue) : AfterFailure → Catalogue
  | .kept => t
  | .rolledBack => t.rollback
  | .renewed => t.renew

/-- How a run ends after its second step was committed: with the third step, or with the compensation at
an instant after the third step raised at one of its calls. -/
inductive Ending
  | completed
  | compensated (call : ℕ) (work : AfterFailure) (now : Instant)
  deriving DecidableEq

/-- One request to synchronise: what the source answers, and when the answer is applied. -/
structure SyncRun where
  requestedAt : Instant
  requestedBy : Uuid
  upstream : List SpeciesRecord
  now : Instant
  ending : Ending

/-- The first two steps, if the second comes to its commit. -/
def applied (t : Catalogue) (r : SyncRun) : Option (SpeciesSyncContext × Catalogue) :=
  let fetched := fetchSpeciesStep.act (.fromEvent r.requestedAt r.requestedBy)
    { t.renew with now := r.now, upstream := r.upstream } none
  match applySpeciesUpdatesStep.act fetched.1 fetched.2.tables none with
  | (c, .committed t) => some (c, t)
  | _ => none

/-- The rest of the run, if it comes to its commit. -/
def ended (c : SpeciesSyncContext) (t : Catalogue) : Ending → Option Catalogue
  | .completed =>
    match invalidateSpeciesCacheStep.act c t none with
    | (_, .committed t) => some t
    | _ => none
  | .compensated call work now =>
    let failed := invalidateSpeciesCacheStep.act c t (some call)
    match applySpeciesUpdatesStep.compensate failed.1 { work.run failed.2.tables with now } none with
    | (_, .committed t) => some t
    | _ => none

/-- The species a run created, and whether it was compensated. -/
structure SyncReport where
  created : List SpeciesId
  compensated : Bool

def Ending.isCompensated : Ending → Bool
  | .completed => false
  | .compensated .. => true

/-- The catalogue with the runs so far. -/
structure Synchronised where
  tables : Catalogue
  reports : List SyncReport

def Synchronised.step (w : Synchronised) (r : SyncRun) : Option Synchronised :=
  match applied w.tables r with
  | none => none
  | some (c, t) => (ended c t r.ending).map fun t' => ⟨t', w.reports ++ [⟨c.created, r.ending.isCompensated⟩]⟩

/-- A compensation rolled the creation of the species back, and no later run created it. -/
def RolledBack (reports : List SyncReport) (id : SpeciesId) : Prop :=
  ∃ before r after, reports = before ++ r :: after ∧ r.compensated = true ∧ id ∈ r.created ∧ ∀ r' ∈ after, id ∉ r'.created

theorem rolledBack_append (reports : List SyncReport) (r : SyncReport) (id : SpeciesId) :
    RolledBack (reports ++ [r]) id ↔ (RolledBack reports id ∧ id ∉ r.created) ∨ (r.compensated = true ∧ id ∈ r.created) := by
  constructor
  · rintro ⟨before, r₁, after, heq, hc, hid, hafter⟩
    rcases List.eq_nil_or_concat after with rfl | ⟨after, r₂, rfl⟩
    · -- the last run is the one that was rolled back
      obtain ⟨rfl, hr⟩ := List.append_inj' heq rfl
      cases hr
      exact .inr ⟨hc, hid⟩
    · rw [List.concat_eq_append, ← List.cons_append, ← List.append_assoc] at heq
      obtain ⟨rfl, hr⟩ := List.append_inj' heq rfl
      cases hr
      simp only [List.concat_eq_append, List.mem_append, List.mem_singleton] at hafter
      exact .inl ⟨⟨before, r₁, after, rfl, hc, hid, fun r' hr' => hafter r' (.inl hr')⟩, hafter r (.inr rfl)⟩
  · rintro (⟨⟨before, r₁, after, rfl, hc, hid, hafter⟩, hnot⟩ | ⟨hc, hid⟩)
    · refine ⟨before, r₁, after ++ [r], by simp, hc, hid, ?_⟩
      intro r' hr'
      rcases List.mem_append.1 hr' with hr' | hr'
      · exact hafter r' hr'
      · cases List.mem_singleton.1 hr'
        exact hnot
    · exact ⟨reports, r, [], rfl, hc, hid, by simp⟩

/-! ## What the transaction sees and what is served -/

/-- The row the projection writes of a species. -/
def rowOf (s : Species) : SpeciesRow :=
  ⟨s.scientificName, s.commonName, s.wateringInterval, s.lightRequirement, s.version⟩

/-- The events published and those that the open unit of work will publish. -/
def eventsOf (t : Catalogue) : List CatalogEvent := (t.outbox ++ t.staged ++ t.tracked).map (·.2)

/-- The row that is served when all of these events have been projected. -/
def served (read : ReadTables) (t : Catalogue) (id : SpeciesId) : Option SpeciesRow :=
  ((eventsOf t).foldl projectCatalog read).species id

/-- The event carries the values of the species. -/
def Announces (s : Species) : CatalogEvent → Prop
  | .speciesAdded s' _ | .speciesUpdated s' _ => s' = s
  | .speciesCacheInvalidated _ _ => False

section

variable {read : ReadTables} {t : Catalogue} {a : StepAction} {s : Species}

theorem species_of_announces {e : CatalogEvent} (he : Announces s e) (tables : ReadTables) (id : SpeciesId) :
    (projectCatalog tables e).species id = if id = s.id then some (rowOf s) else tables.species id := by
  have hupsert : (upsertSpecies tables s).species id = if id = s.id then some (rowOf s) else tables.species id :=
    Keyed.upsert_apply s.id (fun _ => rowOf s) tables.species id
  cases e with
  | speciesAdded s' now =>
    cases he
    exact hupsert
  | speciesUpdated s' now =>
    cases he
    exact hupsert
  | speciesCacheInvalidated => cases he

theorem foldl_not_ofSpecies {es : List CatalogEvent} (h : ∀ e ∈ es, ofSpecies e = false) (tables : ReadTables) :
    es.foldl projectCatalog tables = tables := by
  induction es with
  | nil => rfl
  | cons e es ih =>
    have he : projectCatalog tables e = tables := by
      cases e with
      | speciesAdded => simpa [ofSpecies] using h _ (List.mem_cons_self ..)
      | speciesUpdated => simpa [ofSpecies] using h _ (List.mem_cons_self ..)
      | speciesCacheInvalidated => rfl
    rw [List.foldl_cons, he]
    exact ih fun e' he' => h e' (List.mem_cons_of_mem _ he')

/-- The rows as the open transaction sees them. -/
def rowsOf (t : Catalogue) : List Species := (t.writes.map (·.2)).foldl Write.run t.species

theorem rowsOf_write (t : Catalogue) (a : StepAction) (x : Write) : rowsOf (t.write a x) = x.run (rowsOf t) := by
  unfold rowsOf Catalogue.write
  rw [List.map_append, List.foldl_append]
  rfl

/-- The saved species is served as announced, every other one as before. -/
theorem served_save {e : CatalogEvent} (he : Announces s e) (id : SpeciesId) :
    served read (t.save a s [e]) id = if id = s.id then some (rowOf s) else served read t id := by
  have hevents : eventsOf (t.save a s [e]) = eventsOf t ++ [e] := by
    show (t.outbox ++ t.staged ++ (t.tracked ++ [(a, e)])).map (·.2) = _
    unfold eventsOf
    simp
  unfold served
  rw [hevents, List.foldl_append]
  exact species_of_announces he _ id

theorem served_commit (t : Catalogue) : served read t.commit = served read t := by
  funext id
  unfold served eventsOf Catalogue.commit
  simp

end

/-! ## The invariant -/

/-- Every species is served as it stands, and what is served besides is `gone`. -/
structure Mirrors (read : ReadTables) (gone : SpeciesId → Prop) (t : Catalogue) : Prop where
  unique : ((rowsOf t).map Species.id).Nodup
  known : ∀ {id s}, t.get id = some s → served read t id = some (rowOf s) ∧ ¬ gone id
  others : ∀ {id}, t.get id = none → ((served read t id).isSome ↔ gone id)

namespace Mirrors

variable {read : ReadTables} {gone gone' : SpeciesId → Prop} {t t' : Catalogue} {a : StepAction} {s : Species}

theorem congr (h : Mirrors read gone t) (hgone : ∀ id, gone' id ↔ gone id) : Mirrors read gone' t where
  unique := h.unique
  known hs := ⟨(h.known hs).1, fun hg => (h.known hs).2 ((hgone _).1 hg)⟩
  others hn := (h.others hn).trans (hgone _).symm

/-- The rows and the events are the same. -/
theorem of_eq (h : Mirrors read gone t) (hrows : rowsOf t' = rowsOf t) (hserved : served read t' = served read t) :
    Mirrors read gone t' := by
  have hget : t'.get = t.get := by
    funext id
    show Table.get Species.id (rowsOf t') id = Table.get Species.id (rowsOf t) id
    rw [hrows]
  exact ⟨by rw [hrows]; exact h.unique, by rw [hget, hserved]; exact h.known, by rw [hget, hserved]; exact h.others⟩

theorem commit (h : Mirrors read gone t) : Mirrors read gone t.commit := h.of_eq rfl (served_commit t)

/-- A species that is saved and announced is gone no more. -/
theorem save (h : Mirrors read gone t) {e : CatalogEvent} (he : Announces s e) :
    Mirrors read (fun id => gone id ∧ id ≠ s.id) (t.save a s [e]) where
  unique := by
    show ((rowsOf (t.write a (.put s))).map Species.id).Nodup
    rw [rowsOf_write]
    exact Table.nodup_put h.unique
  known := by
    intro id s₁ hs
    rw [get_save] at hs
    rw [served_save he]
    by_cases hid : s.id = id
    · rw [if_pos hid] at hs
      cases hs
      exact ⟨if_pos hid.symm, fun hg => hg.2 hid.symm⟩
    · rw [if_neg hid] at hs
      rw [if_neg (Ne.symm hid)]
      exact ⟨(h.known hs).1, fun hg => (h.known hs).2 hg.1⟩
  others := by
    intro id hn
    rw [get_save] at hn
    rw [served_save he]
    by_cases hid : s.id = id
    · rw [if_pos hid] at hn
      cases hn
    · rw [if_neg hid] at hn
      rw [if_neg (Ne.symm hid), h.others hn]
      exact (and_iff_left (Ne.symm hid)).symm

/-- A species that was there is saved with new values. -/
theorem save_known (h : Mirrors read gone t) {s₀ : Species} (hget : t.get s.id = some s₀) {e : CatalogEvent}
    (he : Announces s e) : Mirrors read gone (t.save a s [e]) := by
  refine (h.save he).congr fun id => ⟨fun hg => ⟨hg, ?_⟩, fun hg => hg.1⟩
  rintro rfl
  exact (h.known hget).2 hg

/-- A species that is saved as it stands. -/
theorem save_same (h : Mirrors read gone t) (hget : t.get s.id = some s) : Mirrors read gone (t.save a s []) := by
  refine h.of_eq ?_ ?_
  · show rowsOf (t.write a (.put s)) = rowsOf t
    rw [rowsOf_write]
    exact Table.put_self hget
  · funext id
    unfold served eventsOf Catalogue.save Catalogue.write
    simp

/-- A species that is served and deleted is gone. -/
theorem delete (h : Mirrors read gone t) {id : SpeciesId} (hserved : (served read t id).isSome) :
    Mirrors read (fun j => gone j ∨ j = id) (t.write a (.delete id)) where
  unique := by
    rw [rowsOf_write]
    exact h.unique.sublist (List.filter_sublist.map _)
  known := by
    intro j s hs
    rw [get_delete] at hs
    split at hs
    · cases hs
    · rename_i hid
      exact ⟨(h.known hs).1, fun hg => hg.elim (h.known hs).2 fun hj => hid hj.symm⟩
  others := by
    intro j hn
    rw [get_delete] at hn
    show (served read t j).isSome ↔ _
    by_cases hid : id = j
    · subst hid
      exact iff_of_true hserved (.inr rfl)
    · rw [if_neg hid] at hn
      rw [h.others hn]
      exact (or_iff_left (Ne.symm hid)).symm

end Mirrors

/-! ## The steps keep it -/

section

variable {read : ReadTables} {gone : SpeciesId → Prop} {c c' : SpeciesSyncContext} {t t' : Catalogue}

theorem isSome_served_save {a : StepAction} {s : Species} {e : CatalogEvent} (he : Announces s e) {id : SpeciesId}
    (h : (served read t id).isSome) : (served read (t.save a s [e]) id).isSome := by
  rw [served_save he]
  split
  · rfl
  · exact h

/-- In the loop of the second step: what it created is gone no more, and served. -/
structure AppliedSoFar (read : ReadTables) (gone : SpeciesId → Prop) (c : SpeciesSyncContext) (t : Catalogue) : Prop where
  mirrors : Mirrors read (fun id => gone id ∧ id ∉ c.created) t
  created : ∀ id ∈ c.created, (served read t id).isSome

theorem appliedSoFar_record {r : SpeciesSnapshot} (h : AppliedSoFar read gone c t)
    (hr : applyRecord c t r = some (c', t')) : AppliedSoFar read gone c' t' := by
  rcases applyRecord_ok hr with ⟨rfl, rfl⟩ | ⟨s, hid, hget, rfl, rfl⟩ | ⟨s, s', hid, hget, rfl, rfl⟩
  · exact h
  · have he : Announces s (.speciesAdded s t.now) := rfl
    rw [← hid]
    refine ⟨(h.mirrors.save he).congr fun id => ?_, fun id hin => ?_⟩
    · simp [and_assoc]
    · rcases List.mem_append.1 hin with hold | hnew
      · exact isSome_served_save he (h.created id hold)
      · rw [served_save he, if_pos (List.mem_singleton.1 hnew)]
        rfl
  · have he : Announces s' (.speciesUpdated s' t.now) := rfl
    rw [← hid] at hget
    exact ⟨h.mirrors.save_known hget he, fun id hin => isSome_served_save he (h.created id hin)⟩

theorem appliedSoFar_records (h : AppliedSoFar read gone c t) (rs : List SpeciesSnapshot) (fault : Option ℕ) :
    AppliedSoFar read gone (applyRecords c t rs fault).1 (applyRecords c t rs fault).2.1 := by
  fun_induction applyRecords c t rs fault with
  | case1 | case2 | case3 => exact h
  | case4 c t r rs fault hf c' t' hr ih => exact ih (appliedSoFar_record h hr)

/-- The species an undo deletes. -/
def deletedBy : Undo → List SpeciesId
  | .delete id => [id]
  | .restore _ => []

/-- A round of the compensation: what it deletes is gone, what it restores is announced. -/
theorem mirrors_undoRecord {u : Undo} (h : Mirrors read gone t) (hserved : ∀ id ∈ deletedBy u, (served read t id).isSome)
    (hu : undoRecord t u = some t') : Mirrors read (fun id => gone id ∨ id ∈ deletedBy u) t' ∧
      ∀ id, (served read t id).isSome → (served read t' id).isSome := by
  cases u with
  | delete id =>
    cases hu
    have hid : (served read t id).isSome := hserved id (List.mem_singleton_self id)
    split
    · exact ⟨(h.delete hid).congr fun j => by simp [deletedBy], fun _ hj => hj⟩
    · -- no row to delete: the species is gone already
      rename_i hnone
      have hgone : gone id := (h.others (by simpa using hnone)).1 hid
      refine ⟨h.congr fun j => ⟨?_, .inl⟩, fun _ hj => hj⟩
      rintro (hj | hj)
      · exact hj
      · cases List.mem_singleton.1 hj
        exact hgone
  | restore before =>
    have hsame : ∀ id, gone id ∨ id ∈ deletedBy (.restore before) ↔ gone id := fun id => by simp [deletedBy]
    simp only [undoRecord] at hu
    split at hu
    · cases hu
      exact ⟨h.congr hsame, fun _ hj => hj⟩
    · cases hu
    · rename_i s interval hget _
      split at hu
      · cases hu
      · rename_i s' event hupdate
        cases hu
        have hid : s.id = before.speciesId := Catalogue.get_id hget
        rcases Species.update_ok hupdate with ⟨rfl, rfl⟩ | ⟨hid', rfl⟩
        · -- nothing to restore, and nothing announced
          refine ⟨(h.save_same (by rw [hid]; exact hget)).congr hsame, fun id hj => ?_⟩
          simpa [served, eventsOf, Catalogue.save, Catalogue.write] using hj
        · have he : Announces s' (.speciesUpdated s' t.now) := rfl
          refine ⟨(h.save_known (by rw [hid', hid]; exact hget) he).congr hsame, fun id hj => ?_⟩
          exact isSome_served_save he hj

theorem mirrors_undoRecords {us : List Undo} {fault : Option ℕ} (h : Mirrors read gone t)
    (hserved : ∀ id ∈ us.flatMap deletedBy, (served read t id).isSome) (hdone : (undoRecords t us fault).2 = true) :
    Mirrors read (fun id => gone id ∨ id ∈ us.flatMap deletedBy) (undoRecords t us fault).1 := by
  fun_induction undoRecords t us fault generalizing gone with
  | case1 => exact h.congr fun id => by simp
  | case2 => cases hdone
  | case3 => cases hdone
  | case4 t u us fault hf t' hu ih =>
    simp only [List.flatMap_cons, List.mem_append] at hserved
    obtain ⟨hm, hmono⟩ := mirrors_undoRecord h (fun id hid => hserved id (.inl hid)) hu
    refine (ih hm (fun id hid => hmono id (hserved id (.inr hid))) hdone).congr fun id => ?_
    simp [or_assoc]

/-! ## Whole runs -/

/-- The unit of work is as good as new. -/
def Settled (t : Catalogue) : Prop := t.renew = t

theorem Settled.tracked (h : Settled t) : t.tracked = [] := by
  rw [← h]
  rfl

/-- What the third step appends is not served. -/
theorem served_append (hs : Settled t) (a : StepAction) {es : List CatalogEvent} (hes : ∀ e ∈ es, ofSpecies e = false) :
    served read (t.append a es) = served read t := by
  have hevents : eventsOf (t.append a es) = eventsOf t ++ es := by
    simp [eventsOf, Catalogue.append, hs.tracked, Function.comp_def]
  funext id
  unfold served
  rw [hevents, List.foldl_append, foldl_not_ofSpecies hes]

theorem invalidated_not_ofSpecies (c : SpeciesSyncContext) (now : Instant) :
    ∀ e ∈ c.updated.map fun s => CatalogEvent.speciesCacheInvalidated s.speciesId now, ofSpecies e = false := by
  intro e he
  obtain ⟨s, -, rfl⟩ := List.mem_map.1 he
  rfl

/-- Whatever becomes of the unit of work in which the third step raised, nothing else is seen or served. -/
theorem failed_same (hs : Settled t) (c : SpeciesSyncContext) (call : ℕ) (work : AfterFailure) :
    rowsOf (work.run (invalidateSpeciesCacheStep.act c t (some call)).2.tables) = rowsOf t ∧
      served read (work.run (invalidateSpeciesCacheStep.act c t (some call)).2.tables) = served read t := by
  have hrollback : t.rollback = t := by
    rw [← hs]
    rfl
  simp only [invalidateSpeciesCacheStep]
  split
  · have htake : ∀ e ∈ (c.updated.map fun s => CatalogEvent.speciesCacheInvalidated s.speciesId t.now).take call,
        ofSpecies e = false := fun e he => invalidated_not_ofSpecies c t.now e (List.mem_of_mem_take he)
    -- some invalidations are appended before the step raises
    cases work with
    | kept => exact ⟨rfl, served_append hs .act htake⟩
    | rolledBack =>
      show rowsOf t.rollback = rowsOf t ∧ served read t.rollback = served read t
      rw [hrollback]
      exact ⟨rfl, rfl⟩
    | renewed =>
      show rowsOf t.renew = rowsOf t ∧ served read t.renew = served read t
      rw [hs]
      exact ⟨rfl, rfl⟩
  · -- the commit itself failed
    have hrenewed : work.run t.renew = t := by
      cases work with
      | kept => exact hs
      | rolledBack => exact hs
      | renewed => exact hs
    rw [Outcome.tables, hrenewed]
    exact ⟨rfl, rfl⟩

theorem act_committed {c₀ : SpeciesSyncContext} {t₀ : Catalogue} (h : AppliedSoFar read gone c₀ t₀)
    (hact : applySpeciesUpdatesStep.act c₀ t₀ none = (c, .committed t)) : AppliedSoFar read gone c t ∧ Settled t := by
  obtain ⟨hc, ht⟩ := applySpeciesUpdates_ok (by rw [hact]; rfl)
  rw [hact] at hc ht
  have hc : c = (applyRecords c₀ t₀ c₀.fetched none).1 := hc
  have ht : t = (applyRecords c₀ t₀ c₀.fetched none).2.1.commit := ht
  have hloop := appliedSoFar_records h c₀.fetched none
  rw [hc, ht]
  exact ⟨⟨hloop.mirrors.commit, by rw [served_commit]; exact hloop.created⟩, rfl⟩

theorem applied_ok {r : SyncRun} (h : Mirrors read gone t) (hs : Settled t) (hrun : applied t r = some (c, t')) :
    AppliedSoFar read gone c t' ∧ Settled t' := by
  have hm : Mirrors read gone { t with now := r.now, upstream := r.upstream } := h.of_eq rfl rfl
  unfold applied at hrun
  rw [hs] at hrun
  simp only at hrun
  split at hrun
  · rename_i c₁ t₁ hact
    cases hrun
    refine act_committed ?_ hact
    -- the context the first step leaves has created nothing yet
    refine ⟨hm.congr fun id => ?_, fun id hid => ?_⟩
    · simp [fetchSpeciesStep, SpeciesSyncContext.fromEvent]
    · cases hid
  · cases hrun

/-- `compensate` of the second step, when it returns: the loop came to its end and was committed. -/
theorem compensate_committed (h : applySpeciesUpdatesStep.compensate c t none = (c', .committed t')) :
    (undoRecords t (c.created.map .delete ++ c.updated.map .restore) none).2 = true ∧
      t' = (undoRecords t (c.created.map .delete ++ c.updated.map .restore) none).1.commit := by
  simp only [applySpeciesUpdatesStep] at h
  cases hundo : undoRecords t (c.created.map .delete ++ c.updated.map .restore) none with
  | mk t₁ done =>
    rw [hundo] at h
    cases done with
    | false => cases h
    | true =>
      cases h
      exact ⟨rfl, rfl⟩

theorem ended_ok {e : Ending} (h : AppliedSoFar read gone c t) (hs : Settled t) (hrun : ended c t e = some t') :
    Mirrors read (fun id => (gone id ∧ id ∉ c.created) ∨ (e.isCompensated = true ∧ id ∈ c.created)) t' ∧ Settled t' := by
  cases e with
  | completed =>
    cases hrun
    have hm : Mirrors read _ (t.append .act (c.updated.map fun s => .speciesCacheInvalidated s.speciesId t.now)) :=
      h.mirrors.of_eq rfl (served_append hs .act (invalidated_not_ofSpecies c t.now))
    exact ⟨hm.commit.congr fun id => by simp [Ending.isCompensated], rfl⟩
  | compensated call work now =>
    have hcontext : (invalidateSpeciesCacheStep.act c t (some call)).1 = c := by
      simp only [invalidateSpeciesCacheStep]
      split <;> rfl
    obtain ⟨hrows, hserved⟩ : _ ∧ served read _ = served read t := failed_same hs c call work
    have hdeleted : (c.created.map Undo.delete ++ c.updated.map Undo.restore).flatMap deletedBy = c.created := by
      simp [List.flatMap_append, List.flatMap_map, deletedBy]
    simp only [ended, hcontext] at hrun
    generalize (work.run (invalidateSpeciesCacheStep.act c t (some call)).2.tables) = t₀ at hrun hrows hserved
    have hm : Mirrors read (fun id => gone id ∧ id ∉ c.created) { t₀ with now } := h.mirrors.of_eq hrows hserved
    have hcreated : ∀ id ∈ (c.created.map Undo.delete ++ c.updated.map Undo.restore).flatMap deletedBy,
        (served read { t₀ with now } id).isSome := by
      intro id hid
      rw [hdeleted] at hid
      show (served read t₀ id).isSome
      rw [hserved]
      exact h.created id hid
    split at hrun
    · rename_i c₁ t₁ hcompensate
      cases hrun
      obtain ⟨hdone, rfl⟩ := compensate_committed hcompensate
      have hundo := mirrors_undoRecords hm hcreated hdone
      rw [hdeleted] at hundo
      exact ⟨hundo.commit.congr fun id => by simp [Ending.isCompensated], rfl⟩
    · cases hrun

end

theorem mirrors_step {read : ReadTables} {w w' : Synchronised} {r : SyncRun}
    (h : Mirrors read (RolledBack w.reports) w.tables ∧ Settled w.tables) (hstep : w.step r = some w') :
    Mirrors read (RolledBack w'.reports) w'.tables ∧ Settled w'.tables := by
  unfold Synchronised.step at hstep
  split at hstep
  · cases hstep
  · rename_i c t happlied
    obtain ⟨t', hended, rfl⟩ := Option.map_eq_some_iff.1 hstep
    obtain ⟨hsofar, hs⟩ := applied_ok h.1 h.2 happlied
    obtain ⟨hm, hs'⟩ := ended_ok hsofar hs hended
    exact ⟨hm.congr fun id => rolledBack_append w.reports _ id, hs'⟩

/-- For every catalogue that is served as it stands and every sequence of synchronisations: when the events
they committed have been projected, each species is served as it stands, and a row is served besides
exactly if it is of a species whose creation a compensation rolled back and no later run made again. -/
theorem catalogue_served {now : Instant} {upstream : List SpeciesRecord} {species : List Species} {read : ReadTables}
    {runs : List SyncRun} {w : Synchronised} (hunique : (species.map Species.id).Nodup)
    (hboth : ∀ id, read.species id = (Table.get Species.id species id).map rowOf)
    (hrun : Run.run Synchronised.step ⟨.before now upstream species, []⟩ runs = some w) :
    (∀ s ∈ w.tables.species,
        ((w.tables.outbox.map (·.2)).foldl projectCatalog read).species s.id = some (rowOf s)) ∧
      ∀ id, (∀ s ∈ w.tables.species, s.id ≠ id) →
        ((((w.tables.outbox.map (·.2)).foldl projectCatalog read).species id).isSome ↔ RolledBack w.reports id) := by
  have hstart : Mirrors read (RolledBack []) (.before now upstream species) := by
    have hnone : ∀ id, ¬ RolledBack [] id := by
      rintro id ⟨before, r, after, heq, -⟩
      cases before <;> cases heq
    refine ⟨hunique, fun {id s} hs => ⟨(hboth id).trans ?_, hnone id⟩, fun {id} hn => ?_⟩
    · exact congrArg (Option.map rowOf) hs
    · refine iff_of_false ?_ (hnone id)
      show ¬ (read.species id).isSome
      rw [hboth id]
      have hget : Table.get Species.id species id = none := hn
      simp [hget]
  have hsettled : Settled (.before now upstream species) := rfl
  obtain ⟨hm, hs⟩ := Run.inv (fun _ _ _ => mirrors_step) ⟨hstart, hsettled⟩ hrun
  have hrows : rowsOf w.tables = w.tables.species := by
    rw [← hs]
    rfl
  have hserved : served read w.tables = ((w.tables.outbox.map (·.2)).foldl projectCatalog read).species := by
    rw [← hs]
    funext id
    simp [served, eventsOf, Catalogue.renew]
  rw [← hserved, ← hrows]
  refine ⟨fun s hin => ?_, fun id hnot => ?_⟩
  · exact (hm.known (Table.get_of_mem hm.unique hin)).1
  · apply hm.others
    show Table.get Species.id (rowsOf w.tables) id = none
    rw [Table.get, List.find?_eq_none]
    intro s hin
    simpa using hnot s hin

def fern : Species := ⟨1, ⟨['F'], by decide, by decide⟩, ⟨['P'], by decide, by decide⟩, .weekly, .low, 1⟩

/-- A fern of another name and two new species, rolled back; then one of the two again. -/
def syncs : List SyncRun :=
  [⟨0, 0, [⟨1, ['F'], [' ', 'g'], .weekly, .low⟩, ⟨2, ['A'], ['a'], .weekly, .high⟩, ⟨3, ['M'], ['m'], .weekly, .low⟩], 1,
      .compensated 0 .rolledBack 2⟩,
    ⟨3, 1, [⟨2, ['A'], ['a'], .weekly, .high⟩], 4, .completed⟩]

def servedFern : ReadTables :=
  { ReadTables.empty with species := fun id => if id = 1 then some (rowOf fern) else none }

theorem run_syncs : (Run.run Synchronised.step ⟨.before 0 [] [fern], []⟩ syncs).isSome := by decide

/-- The species that was not created again is still served, and it alone. -/
theorem catalogue_served_rolledBack : ∃ w, Run.run Synchronised.step ⟨.before 0 [] [fern], []⟩ syncs = some w ∧
    w.tables.species.map Species.id = [1, 2] ∧ w.tables.species.map Species.version = [3, 1] ∧
    (∀ s ∈ w.tables.species,
      ((w.tables.outbox.map (·.2)).foldl projectCatalog servedFern).species s.id = some (rowOf s)) ∧
    RolledBack w.reports 3 := by
  have hboth : ∀ id, servedFern.species id = (Table.get Species.id [fern] id).map rowOf := by
    intro id
    by_cases hid : id = 1
    · subst hid
      rfl
    · have hne : fern.id ≠ id := fun h => hid h.symm
      simp [servedFern, Table.get, hid, hne]
  have hrun := (Option.some_get run_syncs).symm
  have h := catalogue_served (by decide) hboth hrun
  exact ⟨_, hrun, by decide, by decide, h.1, (h.2 3 (by decide)).1 (by decide)⟩

end Plantkeeper.ReadModel
