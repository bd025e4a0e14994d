/-
Whether the species cache goes back. A query that read its row before a newer version was committed may set
the cache after the event of that version has dropped the entry, and the old version is then served until
the next event. In runs without such a set no query that starts after an event was processed is answered
with an older version than the event announced.
-/
import Plantkeeper.Catalog.SpeciesCache

namespace Plantkeeper.Catalog

open Plantkeeper.Run

/-- What a query is about to set is no older than what was processed: no event of a newer version dropped the
entry since the row was read. -/
def Current (processed : SpeciesId → ℕ) : Option Query → Prop
  | some ⟨_, _, .set view⟩ => processed view.speciesId ≤ view.version
  | _ => True

def SetCurrent (w : World) : Action → Prop
  | .execute i => Current w.processed (w.queries i)
  | _ => True

instance decidableCurrent (processed : SpeciesId → ℕ) : ∀ q, Decidable (Current processed q)
  | some ⟨_, _, .set view⟩ => inferInstanceAs (Decidable (processed view.speciesId ≤ view.version))
  | none | some ⟨_, _, .get⟩ | some ⟨_, _, .read⟩ => inferInstanceAs (Decidable True)

instance decidableSetCurrent (w : World) : ∀ a, Decidable (SetCurrent w a)
  | .execute i => inferInstanceAs (Decidable (Current w.processed (w.queries i)))
  | .add .. | .update .. | .invalidate .. | .start .. | .giveUp _ | .deliver _ => inferInstanceAs (Decidable True)

/-- Every answer is at least of the version that was processed when its query started. -/
def NeverBack (w : World) : Prop := ∀ a ∈ w.answers, a.since ≤ a.view.elim 0 SpeciesView.version

instance decidableNeverBack (w : World) : Decidable (NeverBack w) :=
  inferInstanceAs (Decidable (∀ a ∈ w.answers, _))

/-- A query started with what was processed, and what it is about to set is of its species and not older. -/
structure QueryOk (processed : SpeciesId → ℕ) (q : Query) : Prop where
  since : q.since ≤ processed q.speciesId
  view : ∀ view, q.pc = .set view → view.speciesId = q.speciesId ∧ q.since ≤ view.version

/-- No row is behind what was announced of it, and no entry behind what was processed. -/
structure Inv (w : World) : Prop where
  rows : ∀ id s, w.species id = some s → s.id = id ∧ w.processed id ≤ s.version
  absent : ∀ id, w.species id = none → w.processed id = 0
  announced : ∀ s t, .speciesUpdated s t ∈ w.outbox → ∃ row, w.species s.id = some row ∧ s.version ≤ row.version
  cache : ∀ id view, w.cache id = some view → w.processed id ≤ view.version
  queries : ∀ i q, w.queries i = some q → QueryOk w.processed q
  answers : NeverBack w

theorem inv_empty : Inv World.empty where
  rows := by intro id s h; cases h
  absent := fun _ _ => rfl
  announced := by intro s t h; cases h
  cache := by intro id view h; cases h
  queries := by intro i q h; cases h
  answers := by intro a h; cases h

section

variable {w w' : World} {i : ℕ} {q : Query}

theorem QueryOk.mono (hp : ∀ id, w.processed id ≤ w'.processed id) (h : QueryOk w.processed q) :
    QueryOk w'.processed q :=
  ⟨Nat.le_trans h.since (hp _), h.view⟩

theorem Inv.goto (hi : Inv w) (hq : QueryOk w.processed q) : Inv (w.goto i q) where
  rows := hi.rows
  absent := hi.absent
  announced := hi.announced
  cache := hi.cache
  queries := by
    intro j p h
    change Function.update w.queries i (some q) j = some p at h
    rcases update_eq_some.1 h with ⟨_, hset⟩ | ⟨_, hold⟩
    · cases hset
      exact hq
    · exact hi.queries j p hold
  answers := hi.answers

theorem Inv.close (hi : Inv w) (i : ℕ) : Inv (w.close i) where
  rows := hi.rows
  absent := hi.absent
  announced := hi.announced
  cache := hi.cache
  queries := fun j p h => hi.queries j p (eq_some_of_remove h).2
  answers := hi.answers

theorem Inv.respond (hi : Inv w) {view : Option SpeciesView} (hview : q.since ≤ view.elim 0 SpeciesView.version) :
    Inv (w.respond i q view) where
  rows := hi.rows
  absent := hi.absent
  announced := hi.announced
  cache := hi.cache
  queries := (hi.close i).queries
  answers := by
    intro a ha
    rcases List.mem_append.1 ha with ha | ha
    · exact hi.answers a ha
    · rw [List.mem_singleton.1 ha]
      exact hview

theorem Inv.setCache {view : SpeciesView} (hi : Inv w) (hcurrent : w.processed view.speciesId ≤ view.version) :
    Inv (w.setCache view) where
  rows := hi.rows
  absent := hi.absent
  announced := hi.announced
  cache := by
    intro id v h
    rcases update_eq_some.1 h with ⟨rfl, hset⟩ | ⟨_, hold⟩
    · cases hset
      exact hcurrent
    · exact hi.cache id v hold
  queries := hi.queries
  answers := hi.answers

theorem inv_execute (hi : Inv w) (hq : w.queries i = some q) (hcurrent : Current w.processed (some q)) :
    Inv (w.execute i q) := by
  have hok := hi.queries i q hq
  obtain ⟨id, since, pc⟩ := q
  cases pc with
  | get =>
    simp only [World.execute]
    split
    · rename_i cached hcached
      exact hi.respond (Nat.le_trans hok.since (hi.cache _ _ hcached))
    · exact hi.goto ⟨hok.since, fun view h => by cases h⟩
  | read =>
    simp only [World.execute]
    split
    · rename_i hnone
      have hzero : since = 0 := Nat.le_zero.1 (Nat.le_trans hok.since (Nat.le_of_eq (hi.absent _ hnone)))
      exact hi.respond (Nat.le_of_eq hzero)
    · rename_i s hs
      obtain ⟨hid, hversion⟩ := hi.rows _ _ hs
      refine hi.goto ⟨hok.since, fun view h => ?_⟩
      cases h
      exact ⟨hid, Nat.le_trans hok.since hversion⟩
  | set view => exact (hi.setCache hcurrent).respond (hok.view view rfl).2

/-- A row is inserted, or replaced by its next version, with an event that announces no other. -/
theorem Inv.write {s : Species} {e : CatalogEvent} (hi : Inv w) (hnext : ∀ row, w.species s.id = some row → row.version ≤ s.version)
    (he : ∀ s' t, e = .speciesUpdated s' t → s' = s) : Inv (w.write s e) := by
  have hprocessed : w.processed s.id ≤ s.version := by
    cases hrow : w.species s.id with
    | none => rw [hi.absent _ hrow]; exact Nat.zero_le _
    | some row => exact Nat.le_trans (hi.rows _ _ hrow).2 (hnext row hrow)
  refine ⟨?_, ?_, ?_, hi.cache, hi.queries, hi.answers⟩
  · intro id row h
    rcases update_eq_some.1 h with ⟨rfl, hset⟩ | ⟨_, hold⟩
    · cases hset
      exact ⟨rfl, hprocessed⟩
    · exact hi.rows id row hold
  · intro id h
    change Function.update w.species s.id (some s) id = none at h
    by_cases hid : id = s.id
    · rw [hid, Function.update_self] at h
      cases h
    · rw [Function.update_of_ne hid] at h
      exact hi.absent id h
  · intro s' t h
    show ∃ row, Function.update w.species s.id (some s) s'.id = some row ∧ _
    rcases List.mem_append.1 h with h | h
    · obtain ⟨row, hrow, hle⟩ := hi.announced s' t h
      by_cases hid : s'.id = s.id
      · rw [hid, Function.update_self]
        rw [hid] at hrow
        exact ⟨s, rfl, Nat.le_trans hle (hnext row hrow)⟩
      · rw [Function.update_of_ne hid]
        exact ⟨row, hrow, hle⟩
    · rw [he s' t (List.mem_singleton.1 h).symm, Function.update_self]
      exact ⟨s, rfl, Nat.le_refl _⟩

/-- The entry an event declares stale is dropped, so none is behind the event. -/
theorem inv_consume {e : CatalogEvent} (hi : Inv w) (he : e ∈ w.outbox) : Inv (w.consume e) := by
  cases e with
  | speciesAdded s t => exact hi
  | speciesCacheInvalidated id t =>
    refine ⟨hi.rows, hi.absent, hi.announced, ?_, hi.queries, hi.answers⟩
    exact fun id' view h => hi.cache id' view (eq_some_of_remove h).2
  | speciesUpdated s t =>
    obtain ⟨row, hrow, hle⟩ := hi.announced s t he
    have hmono : ∀ id, w.processed id ≤ (w.consume (.speciesUpdated s t)).processed id := by
      intro id
      show w.processed id ≤ Function.update w.processed s.id (max (w.processed s.id) s.version) id
      by_cases hid : id = s.id
      · rw [hid, Function.update_self]
        exact Nat.le_max_left _ _
      · rw [Function.update_of_ne hid]
    have hother : ∀ id, id ≠ s.id → (w.consume (.speciesUpdated s t)).processed id = w.processed id := fun id hid =>
      Function.update_of_ne hid _ _
    refine ⟨?_, ?_, hi.announced, ?_, fun j q h => (hi.queries j q h).mono hmono, hi.answers⟩
    · intro id row' h
      obtain ⟨hid', hversion⟩ := hi.rows id row' h
      refine ⟨hid', ?_⟩
      by_cases hid : id = s.id
      · subst hid
        change w.species s.id = some row' at h
        rw [hrow] at h
        cases h
        show Function.update w.processed s.id (max (w.processed s.id) s.version) s.id ≤ _
        rw [Function.update_self]
        exact Nat.max_le.2 ⟨hversion, hle⟩
      · rw [hother id hid]
        exact hversion
    · intro id h
      have hid : id ≠ s.id := by
        rintro rfl
        exact absurd (hrow.symm.trans h) (by simp)
      rw [hother id hid]
      exact hi.absent id h
    · intro id view h
      obtain ⟨hid, hold⟩ := eq_some_of_remove h
      rw [hother id hid]
      exact hi.cache id view hold

theorem inv_step {a : Action} (hi : Inv w) (hcurrent : SetCurrent w a) (h : step w a = some w') : Inv w' := by
  cases a with
  | add id scientificName commonName wateringInterval lightRequirement now =>
    simp only [step] at h
    split at h
    · rename_i s e hnone hadd
      obtain ⟨rfl, rfl⟩ := Species.add_ok hadd
      cases h
      refine hi.write (fun row hrow => ?_) fun s' t he => by cases he
      rw [hnone] at hrow
      cases hrow
    · cases h
  | update id scientificName commonName wateringInterval lightRequirement now =>
    simp only [step] at h
    split at h
    · cases h
    · rename_i s hs
      split at h
      · rename_i s' e hupdate
        obtain ⟨hid, hversion, rfl⟩ := Species.update_announced hupdate
        cases h
        refine hi.write (fun row hrow => ?_) fun s'' t he => by cases he; rfl
        rw [hid, (hi.rows _ _ hs).1, hs] at hrow
        cases hrow
        exact Nat.le_of_lt (hversion ▸ Nat.lt_succ_self _)
      · cases h; exact hi
      · cases h
  | invalidate id now =>
    cases h
    refine ⟨hi.rows, hi.absent, fun s t h => ?_, hi.cache, hi.queries, hi.answers⟩
    rcases List.mem_append.1 h with h | h
    · exact hi.announced s t h
    · cases List.mem_singleton.1 h
  | start i id =>
    simp only [step] at h
    split at h
    · cases h
      exact hi.goto ⟨Nat.le_refl _, fun view h => by cases h⟩
    · cases h
  | execute i =>
    obtain ⟨q, hq, rfl⟩ := Option.map_eq_some_iff.1 h
    have hset : Current w.processed (w.queries i) := hcurrent
    rw [hq] at hset
    exact inv_execute hi hq hset
  | giveUp i =>
    cases h
    exact hi.close i
  | deliver event =>
    simp only [step] at h
    split at h
    · rename_i he
      cases h
      exact inv_consume hi he
    · cases h

end

/-- In a run in which no query sets a version older than one already processed, no query that starts after an
event was processed is answered with an older version. -/
theorem cache_neverBack {as : List Action} {w : World} (hm : Meets step SetCurrent World.empty as)
    (h : run step World.empty as = some w) : NeverBack w :=
  (inv_of_meets (fun _ _ _ hi hok hstep => inv_step hi hok hstep) inv_empty hm h).answers

def text : List Char := ['t', 'u', 'l', 'i', 'p']

/-- A query fills the cache, the species changes, its event is delivered, and a second query reads the change. -/
def filled : List Action :=
  [.add 3 text text .weekly .low 0, .start 0 3, .execute 0, .execute 0, .execute 0, .update 3 text text .weekly .high 1,
    .deliver (.speciesUpdated ⟨3, ⟨text, by decide, by decide⟩, ⟨text, by decide, by decide⟩, .weekly, .high, 2⟩ 1),
    .start 1 3, .execute 1, .execute 1, .execute 1]

theorem cache_neverBack_filled : ∃ w, run step World.empty filled = some w ∧ w.answers.length = 2 ∧ NeverBack w :=
  have hrun : run step World.empty filled = some ((run step World.empty filled).get (by decide +kernel)) :=
    (Option.some_get _).symm
  ⟨_, hrun, by decide +kernel, cache_neverBack (by decide +kernel) hrun⟩

/-- The first query reads its row before the change and sets it after the event dropped the entry. -/
def refilled : List Action :=
  [.add 3 text text .weekly .low 0, .start 0 3, .execute 0, .execute 0, .update 3 text text .weekly .high 1,
    .deliver (.speciesUpdated ⟨3, ⟨text, by decide, by decide⟩, ⟨text, by decide, by decide⟩, .weekly, .high, 2⟩ 1),
    .execute 0, .start 1 3, .execute 1]

/-- The second query is answered with the version before. -/
theorem refilled_back : ∃ w, run step World.empty refilled = some w ∧
    (∃ a ∈ w.answers, a.since = 2 ∧ a.view.map SpeciesView.version = some 1) ∧ ¬ NeverBack w :=
  have hrun : run step World.empty refilled = some ((run step World.empty refilled).get (by decide +kernel)) :=
    (Option.some_get _).symm
  ⟨_, hrun, by decide +kernel, by decide +kernel⟩

end Plantkeeper.Catalog
