/-
A synchronisation and its compensation leave the catalogue's values as they were. Each fetched record
concerns one species: it creates it, changes it or leaves it. The compensation deletes what was created and
sets what was changed back through the aggregate, which moves the version on and announces it once more.
-/
import Plantkeeper.Saga.SpeciesSync

namespace Plantkeeper

/-! ## Values -/

/-- What a synchronisation sets of a species. -/
structure SpeciesValues where
  scientificName : Name
  commonName : Name
  wateringInterval : WateringInterval
  lightRequirement : LightRequirement
  deriving DecidableEq

def Species.values (s : Species) : SpeciesValues :=
  ⟨s.scientificName, s.commonName, s.wateringInterval, s.lightRequirement⟩

def SpeciesValues.species (v : SpeciesValues) (id : SpeciesId) (version : ℕ) : Species :=
  ⟨id, v.scientificName, v.commonName, v.wateringInterval, v.lightRequirement, version⟩

namespace Saga

/-- The values of a snapshot, if a species can have them. -/
def SpeciesSnapshot.values (r : SpeciesSnapshot) : Option SpeciesValues :=
  match normalizeName r.scientificName, normalizeName r.commonName, WateringInterval.ofDuration r.wateringInterval with
  | some scientificName, some commonName, some wateringInterval =>
    some ⟨scientificName, commonName, wateringInterval, r.lightRequirement⟩
  | _, _, _ => none

theorem values_snapshot (s : Species) : (snapshot s).values = some s.values := by
  have hinterval : WateringInterval.ofDuration s.wateringInterval.value = some s.wateringInterval := by
    simp [WateringInterval.ofDuration, s.wateringInterval.pos]
  simp [SpeciesSnapshot.values, snapshot, normalizeName_text, hinterval, Species.values]

section

variable {r : SpeciesSnapshot} {v : SpeciesValues}

/-- What values a snapshot has, part by part. -/
theorem of_values (h : r.values = some v) : normalizeName r.scientificName = some v.scientificName ∧
    normalizeName r.commonName = some v.commonName ∧
    WateringInterval.ofDuration r.wateringInterval = some v.wateringInterval ∧ r.lightRequirement = v.lightRequirement := by
  unfold SpeciesSnapshot.values at h
  split at h
  · rename_i h1 h2 h3
    cases h
    exact ⟨h1, h2, h3, rfl⟩
  · cases h

theorem species_eq_iff (s : Species) : (v.scientificName ≠ s.scientificName ∨ v.commonName ≠ s.commonName ∨
    v.wateringInterval ≠ s.wateringInterval ∨ v.lightRequirement ≠ s.lightRequirement) ↔ v ≠ s.values := by
  obtain ⟨scientificName, commonName, wateringInterval, lightRequirement⟩ := v
  simp only [Species.values, ne_eq, SpeciesValues.mk.injEq]
  tauto

/-- A species given the values of a snapshot. -/
theorem update_values (h : r.values = some v) (s : Species) {interval : WateringInterval}
    (hinterval : WateringInterval.ofDuration r.wateringInterval = some interval) (now : Instant) :
    s.update r.scientificName r.commonName interval r.lightRequirement now s.version =
      if v = s.values then .ok (s, none)
      else .ok (v.species s.id (s.version + 1), some (.speciesUpdated (v.species s.id (s.version + 1)) now)) := by
  obtain ⟨hscientific, hcommon, hofDuration, hlight⟩ := of_values h
  rw [hofDuration] at hinterval
  cases hinterval
  unfold Species.update
  rw [hscientific, hcommon, hlight, if_neg (by simp)]
  simp only [species_eq_iff]
  by_cases hv : v = s.values
  · simp [hv]
  · simp [hv, SpeciesValues.species]

end

/-! ## What a record does -/

/-- The species after the record: created, changed, or as it was. -/
def rowAfter (r : SpeciesSnapshot) (stored : Option Species) : Option Species :=
  match r.values, stored with
  | none, _ => stored
  | some v, none => some (v.species r.speciesId 1)
  | some v, some s => if v = s.values then some s else some (v.species r.speciesId (s.version + 1))

/-- What `act` announces for the record. -/
def forward (t : Catalogue) (r : SpeciesSnapshot) : Option CatalogEvent :=
  match r.values, t.get r.speciesId with
  | none, _ => none
  | some v, none => some (.speciesAdded (v.species r.speciesId 1) t.now)
  | some v, some s => if v = s.values then none else some (.speciesUpdated (v.species r.speciesId (s.version + 1)) t.now)

/-- The species the record creates. -/
def created (t : Catalogue) (r : SpeciesSnapshot) : Option SpeciesId :=
  match t.get r.speciesId with
  | none => some r.speciesId
  | some _ => none

/-- The species the record changes, as it was. -/
def changed (t : Catalogue) (r : SpeciesSnapshot) : Option Species :=
  match r.values, t.get r.speciesId with
  | some v, some s => if v = s.values then none else some s
  | _, _ => none

/-- What `compensate` announces for a species that was changed. -/
def restoring (later : Instant) (before : Species) : CatalogEvent :=
  .speciesUpdated { before with version := before.version + 2 } later

/-- The unit of work after the records, the rest of the tables being as they were. -/
structure Applied (t : Catalogue) (rs : List SpeciesSnapshot) (t' : Catalogue) : Prop where
  others : ∀ id, (∀ r ∈ rs, r.speciesId ≠ id) → t'.get id = t.get id
  own : ∀ r ∈ rs, t'.get r.speciesId = rowAfter r (t.get r.speciesId)
  tracked : t'.tracked = t.tracked ++ (rs.filterMap (forward t)).map (StepAction.act, ·)
  staged : t'.staged = t.staged
  outbox : t'.outbox = t.outbox
  now : t'.now = t.now

section

variable {c : SpeciesSyncContext} {t t' : Catalogue} {r : SpeciesSnapshot} {rs : List SpeciesSnapshot}

/-- One record: its species is as it leaves it, and the others are as they were. -/
theorem applied_single (hothers : ∀ id, r.speciesId ≠ id → t'.get id = t.get id)
    (hown : t'.get r.speciesId = rowAfter r (t.get r.speciesId))
    (htracked : t'.tracked = t.tracked ++ (forward t r).toList.map (StepAction.act, ·)) (hstaged : t'.staged = t.staged)
    (houtbox : t'.outbox = t.outbox) (hnow : t'.now = t.now) : Applied t [r] t' := by
  refine ⟨fun id hid => hothers id (hid r (List.mem_singleton_self _)), fun r' hr' => ?_, ?_, hstaged, houtbox, hnow⟩
  · rw [List.mem_singleton] at hr'
    subst hr'
    exact hown
  · rw [htracked]
    cases hforward : forward t r <;> simp [hforward]

/-- A record with proper values goes through, and concerns its species alone. -/
theorem applyRecord_valid (hr : r.values.isSome = true) : ∃ t',
    applyRecord c t r = some ({ c with
      created := c.created ++ (created t r).toList
      updated := c.updated ++ ((changed t r).map snapshot).toList }, t') ∧ Applied t [r] t' := by
  obtain ⟨v, hv⟩ := Option.isSome_iff_exists.1 hr
  obtain ⟨hscientific, hcommon, hinterval, hlight⟩ := of_values hv
  unfold applyRecord
  rw [hinterval]
  cases hget : t.get r.speciesId with
  | none =>
    simp only [Species.add, hscientific, hcommon, hlight]
    refine ⟨_, by simp [created, changed, hget]; rfl, ?_⟩
    refine applied_single (fun id hid => ?_) ?_ ?_ rfl rfl rfl
    · rw [get_save, if_neg hid]
    · rw [get_save, if_pos rfl]
      simp [rowAfter, hv, hget, SpeciesValues.species]
    · simp [Catalogue.save, Catalogue.write, forward, hv, hget, SpeciesValues.species]
  | some s =>
    have hid : s.id = r.speciesId := Catalogue.get_id hget
    simp only [update_values hv s hinterval]
    by_cases hsame : v = s.values
    · simp only [if_pos hsame]
      refine ⟨t, by simp [created, changed, hget, hv, hsame], ?_⟩
      refine applied_single (fun _ _ => rfl) ?_ ?_ rfl rfl rfl
      · simp [rowAfter, hv, hget, hsame]
      · simp [forward, hv, hget, hsame]
    · simp only [if_neg hsame]
      refine ⟨_, by simp [created, changed, hget, hv, hsame]; rfl, ?_⟩
      refine applied_single (fun id hne => ?_) ?_ ?_ rfl rfl rfl
      · rw [get_save, if_neg]
        show s.id ≠ id
        rw [hid]
        exact hne
      · rw [get_save, if_pos (show (v.species s.id (s.version + 1)).id = r.speciesId from hid)]
        simp [rowAfter, hv, hget, hsame, hid]
      · simp [Catalogue.save, Catalogue.write, forward, hv, hget, hsame, hid]

/-- What a record does depends on its species alone. -/
theorem same_record (hget : t'.get r.speciesId = t.get r.speciesId) (hnow : t'.now = t.now) :
    created t' r = created t r ∧ changed t' r = changed t r ∧ forward t' r = forward t r := by
  unfold created changed forward
  rw [hget, hnow]
  exact ⟨rfl, rfl, rfl⟩

theorem Applied.trans {t₁ t₂ : Catalogue} (h : Applied t [r] t₁) (h' : Applied t₁ rs t₂)
    (hr : ∀ r' ∈ rs, r'.speciesId ≠ r.speciesId) : Applied t (r :: rs) t₂ := by
  have hget : ∀ r' ∈ rs, t₁.get r'.speciesId = t.get r'.speciesId := by
    intro r' hr'
    apply h.others
    simpa using (hr r' hr').symm
  have hforward : rs.filterMap (forward t₁) = rs.filterMap (forward t) :=
    List.filterMap_congr fun r' hr' => (same_record (hget r' hr') h.now).2.2
  constructor
  · intro id hid
    rw [h'.others id fun r' hr' => hid r' (List.mem_cons_of_mem _ hr')]
    exact h.others id fun r' hr' => hid r' (by simp [List.mem_singleton.1 hr'])
  · intro r' hr'
    rcases List.mem_cons.1 hr' with rfl | hmem
    · rw [h'.others r'.speciesId hr]
      exact h.own r' (List.mem_singleton_self _)
    · rw [h'.own r' hmem, hget r' hmem]
  · rw [h'.tracked, h.tracked, hforward]
    cases hf : forward t r <;> simp [hf]
  · exact h'.staged.trans h.staged
  · exact h'.outbox.trans h.outbox
  · exact h'.now.trans h.now

theorem Applied.nil (t : Catalogue) : Applied t [] t where
  others := fun _ _ => rfl
  own := nofun
  tracked := by simp
  staged := rfl
  outbox := rfl
  now := rfl

/-- The whole loop. -/
theorem applyRecords_valid : ∀ {rs : List SpeciesSnapshot} {c : SpeciesSyncContext} {t : Catalogue},
    (rs.map (·.speciesId)).Nodup → (∀ r ∈ rs, r.values.isSome = true) → ∃ t',
      applyRecords c t rs none = ({ c with
        created := c.created ++ rs.filterMap (created t)
        updated := c.updated ++ (rs.filterMap (changed t)).map snapshot }, t', true) ∧ Applied t rs t'
  | [], c, t, _, _ => ⟨t, by simp [applyRecords], .nil t⟩
  | r :: rs, c, t, hnodup, hvalid => by
    rw [List.map_cons, List.nodup_cons] at hnodup
    obtain ⟨t₁, happly, h₁⟩ := applyRecord_valid (c := c) (t := t) (hvalid r (List.mem_cons_self ..))
    obtain ⟨t₂, hrest, h₂⟩ := applyRecords_valid (t := t₁) hnodup.2 fun r' hr' => hvalid r' (List.mem_cons_of_mem _ hr')
    have hr : ∀ r' ∈ rs, r'.speciesId ≠ r.speciesId := by
      intro r' hr' heq
      exact hnodup.1 (heq ▸ List.mem_map_of_mem hr')
    have hget : ∀ r' ∈ rs, t₁.get r'.speciesId = t.get r'.speciesId := by
      intro r' hr'
      apply h₁.others
      simpa using (hr r' hr').symm
    have hcreated : rs.filterMap (created t₁) = rs.filterMap (created t) :=
      List.filterMap_congr fun r' hr' => (same_record (hget r' hr') h₁.now).1
    have hchanged : rs.filterMap (changed t₁) = rs.filterMap (changed t) :=
      List.filterMap_congr fun r' hr' => (same_record (hget r' hr') h₁.now).2.1
    refine ⟨t₂, ?_, h₁.trans h₂ hr⟩
    simp only [applyRecords, happly, Option.map_none]
    rw [hrest, hcreated, hchanged]
    cases hc : created t r <;> cases hch : changed t r <;> simp [hc, hch]

/-! ## The compensation -/

theorem undoRecords_append : ∀ {us us' : List Undo} {t t' : Catalogue}, undoRecords t us none = (t', true) →
    undoRecords t (us ++ us') none = undoRecords t' us' none
  | [], us', t, t', h => by
    cases h
    rfl
  | u :: us, us', t, t', h => by
    simp only [List.cons_append, undoRecords] at h ⊢
    cases hu : undoRecord t u with
    | none =>
      rw [hu] at h
      cases h
    | some t₁ =>
      rw [hu] at h
      exact undoRecords_append h

/-- The unit of work after deletions. -/
theorem undo_deletes : ∀ (ids : List SpeciesId) (t : Catalogue), ∃ t',
    undoRecords t (ids.map .delete) none = (t', true) ∧ (∀ id, t'.get id = if id ∈ ids then none else t.get id) ∧
      t'.tracked = t.tracked ∧ t'.staged = t.staged ∧ t'.outbox = t.outbox ∧ t'.now = t.now
  | [], t => ⟨t, rfl, by simp, rfl, rfl, rfl, rfl⟩
  | deleted :: ids, t => by
    by_cases hsome : (t.get deleted).isSome = true
    · obtain ⟨t', hundo, hget, htracked, hstaged, houtbox, hnow⟩ := undo_deletes ids (t.write .compensate (.delete deleted))
      refine ⟨t', ?_, fun id => ?_, htracked, hstaged, houtbox, hnow⟩
      · simpa [undoRecords, undoRecord, hsome] using hundo
      · rw [hget, get_delete]
        by_cases hid : deleted = id
        · simp [hid]
        · have hne : id ≠ deleted := fun h => hid h.symm
          simp [hid, hne]
    · obtain ⟨t', hundo, hget, htracked, hstaged, houtbox, hnow⟩ := undo_deletes ids t
      refine ⟨t', ?_, fun id => ?_, htracked, hstaged, houtbox, hnow⟩
      · simpa [undoRecords, undoRecord, hsome] using hundo
      · rw [hget]
        by_cases hid : id = deleted
        · subst hid
          have hnone : t.get id = none := by simpa using hsome
          simp [hnone]
        · simp [hid]

/-- One species that was changed once is set back. -/
theorem undo_restore {before s : Species} (hget : t.get before.id = some s) (hchanged : before.values ≠ s.values)
    (hversion : s.version = before.version + 1) : undoRecord t (.restore (snapshot before)) =
      some (t.save .compensate { before with version := before.version + 2 } [restoring t.now before]) := by
  have hid : s.id = before.id := Catalogue.get_id hget
  have hv := values_snapshot before
  obtain ⟨-, -, hinterval, -⟩ := of_values hv
  have hget' : t.get (snapshot before).speciesId = some s := hget
  have hupdate := update_values hv s hinterval t.now
  rw [if_neg hchanged, hid, hversion] at hupdate
  simp only [undoRecord, hget', hinterval, hversion, hupdate]
  rfl

/-- The unit of work after restorations. -/
theorem undo_restores : ∀ (bs : List Species) (t : Catalogue), (bs.map (·.id)).Nodup →
    (∀ b ∈ bs, ∃ s, t.get b.id = some s ∧ b.values ≠ s.values ∧ s.version = b.version + 1) → ∃ t',
      undoRecords t (bs.map fun b => .restore (snapshot b)) none = (t', true) ∧
        (∀ id, (∀ b ∈ bs, b.id ≠ id) → t'.get id = t.get id) ∧
        (∀ b ∈ bs, t'.get b.id = some { b with version := b.version + 2 }) ∧
        t'.tracked = t.tracked ++ (bs.map (restoring t.now)).map (StepAction.compensate, ·) ∧
        t'.staged = t.staged ∧ t'.outbox = t.outbox
  | [], t, _, _ => ⟨t, rfl, fun _ _ => rfl, nofun, by simp, rfl, rfl⟩
  | b :: bs, t, hnodup, hchanged => by
    rw [List.map_cons, List.nodup_cons] at hnodup
    obtain ⟨s, hget, hvalues, hversion⟩ := hchanged b (List.mem_cons_self ..)
    have hround := undo_restore hget hvalues hversion
    obtain ⟨t₁, ht₁⟩ : ∃ t₁, t₁ = t.save .compensate { b with version := b.version + 2 } [restoring t.now b] := ⟨_, rfl⟩
    rw [← ht₁] at hround
    have hsave : ∀ id, t₁.get id = if b.id = id then some { b with version := b.version + 2 } else t.get id := by
      intro id
      rw [ht₁]
      exact get_save ..
    have hne : ∀ b' ∈ bs, b.id ≠ b'.id := by
      intro b' hb' heq
      exact hnodup.1 (heq ▸ List.mem_map_of_mem hb')
    have hrest : ∀ b' ∈ bs, ∃ s, t₁.get b'.id = some s ∧ b'.values ≠ s.values ∧ s.version = b'.version + 1 := by
      intro b' hb'
      rw [hsave, if_neg (hne b' hb')]
      exact hchanged b' (List.mem_cons_of_mem _ hb')
    obtain ⟨t', hundo, hothers, hown, htracked, hstaged, houtbox⟩ := undo_restores bs t₁ hnodup.2 hrest
    refine ⟨t', ?_, fun id hid => ?_, fun b' hb' => ?_, ?_, ?_, ?_⟩
    · simpa [undoRecords, hround] using hundo
    · rw [hothers id fun b' hb' => hid b' (List.mem_cons_of_mem _ hb'), hsave, if_neg (hid b (List.mem_cons_self ..))]
    · rcases List.mem_cons.1 hb' with rfl | hmem
      · rw [hothers b'.id fun b'' hb'' => (hne b'' hb'').symm, hsave, if_pos rfl]
      · exact hown b' hmem
    · rw [htracked, ht₁]
      simp [Catalogue.save, Catalogue.write]
    · rw [hstaged, ht₁]
      rfl
    · rw [houtbox, ht₁]
      rfl

/-! ## There and back -/

theorem of_changed {b : Species} (h : changed t r = some b) :
    ∃ v, r.values = some v ∧ t.get r.speciesId = some b ∧ v ≠ b.values ∧ b.id = r.speciesId := by
  unfold changed at h
  split at h
  · rename_i v s hv hget
    split at h
    · cases h
    · rename_i hne
      cases h
      exact ⟨v, hv, hget, hne, Catalogue.get_id hget⟩
  · cases h

theorem mem_changed {b : Species} (h : b ∈ rs.filterMap (changed t)) :
    ∃ r ∈ rs, ∃ v, r.values = some v ∧ t.get r.speciesId = some b ∧ v ≠ b.values ∧ b.id = r.speciesId := by
  obtain ⟨r, hr, hb⟩ := List.mem_filterMap.1 h
  exact ⟨r, hr, of_changed hb⟩

theorem mem_created {id : SpeciesId} : id ∈ rs.filterMap (created t) ↔ (∃ r ∈ rs, r.speciesId = id) ∧ t.get id = none := by
  rw [List.mem_filterMap]
  constructor
  · rintro ⟨r, hr, hid⟩
    unfold created at hid
    split at hid
    · rename_i hget
      cases hid
      exact ⟨⟨r, hr, rfl⟩, hget⟩
    · cases hid
  · rintro ⟨⟨r, hr, rfl⟩, hget⟩
    exact ⟨r, hr, by simp [created, hget]⟩

theorem nodup_changed (hnodup : (rs.map (·.speciesId)).Nodup) : ((rs.filterMap (changed t)).map (·.id)).Nodup := by
  induction rs with
  | nil => exact List.nodup_nil
  | cons r rs ih =>
    rw [List.map_cons, List.nodup_cons] at hnodup
    cases hb : changed t r with
    | none =>
      rw [List.filterMap_cons_none hb]
      exact ih hnodup.2
    | some b =>
      rw [List.filterMap_cons_some hb, List.map_cons, List.nodup_cons]
      refine ⟨fun hin => ?_, ih hnodup.2⟩
      obtain ⟨b', hb', heq⟩ := List.mem_map.1 hin
      obtain ⟨r', hr', -, -, -, -, hid'⟩ := mem_changed hb'
      obtain ⟨-, -, -, -, hid⟩ := of_changed hb
      exact hnodup.1 (List.mem_map.2 ⟨r', hr', by rw [← hid', heq, hid]⟩)

/-- A species that no record creates or changes is as it was. -/
theorem Applied.unchanged {t₁ : Catalogue} {id : SpeciesId} (h : Applied t rs t₁) (hc : id ∉ rs.filterMap (created t))
    (hfix : ∀ s, t.get id = some s → s ∉ rs.filterMap (changed t)) : t₁.get id = t.get id := by
  by_cases hrecord : ∃ r ∈ rs, r.speciesId = id
  · obtain ⟨r, hr, rfl⟩ := hrecord
    rw [h.own r hr]
    cases hs : t.get r.speciesId with
    | none => exact absurd (mem_created.2 ⟨⟨r, hr, rfl⟩, hs⟩) hc
    | some s =>
      cases hv : r.values with
      | none => simp [rowAfter, hv]
      | some v =>
        have heq : v = s.values := by
          by_contra hne
          exact hfix s hs (List.mem_filterMap.2 ⟨r, hr, by simp [changed, hv, hs, hne]⟩)
        simp [rowAfter, hv, heq]
  · exact h.others id fun r hr heq => hrecord ⟨r, hr, heq⟩

/-- `act` comes to its commit. -/
theorem act_ok (hcreated : c.created = []) (hupdated : c.updated = []) (hnodup : (c.fetched.map (·.speciesId)).Nodup)
    (hvalid : ∀ r ∈ c.fetched, r.values.isSome = true) : ∃ t₁ : Catalogue,
      applySpeciesUpdatesStep.act c t none = ({ c with
        created := c.fetched.filterMap (created t)
        updated := (c.fetched.filterMap (changed t)).map snapshot }, .committed t₁.commit) ∧ Applied t c.fetched t₁ := by
  obtain ⟨t₁, happly, h⟩ := applyRecords_valid (c := c) (t := t) hnodup hvalid
  refine ⟨t₁, ?_, h⟩
  rw [hcreated, hupdated] at happly
  simp only [applySpeciesUpdatesStep, happly, List.nil_append]

/-- `compensate` of what `act` did comes to its commit: what was created is gone, and what was changed has
its values again, two versions on. -/
theorem compensate_ok (c₁ : SpeciesSyncContext) {t₁ : Catalogue} (h : Applied t rs t₁)
    (hnodup : (rs.map (·.speciesId)).Nodup) (hcreated : c₁.created = rs.filterMap (created t))
    (hupdated : c₁.updated = (rs.filterMap (changed t)).map snapshot) (later : Instant) : ∃ t₂ : Catalogue,
      applySpeciesUpdatesStep.compensate c₁ { t₁.commit with now := later } none =
        ({ c₁ with updated := [], created := [] }, .committed t₂.commit) ∧
      (∀ id, t₂.get id = (t.get id).map fun s =>
        if s ∈ rs.filterMap (changed t) then { s with version := s.version + 2 } else s) ∧
      t₂.commit.outbox =
        t₁.commit.outbox ++ ((rs.filterMap (changed t)).map (restoring later)).map (StepAction.compensate, ·) := by
  obtain ⟨t', hdeletes, hget, htracked, hstaged, houtbox, hnow⟩ :=
    undo_deletes (rs.filterMap (created t)) { t₁.commit with now := later }
  have hget' : ∀ id, t'.get id = if id ∈ rs.filterMap (created t) then none else t₁.get id := hget
  -- what was changed is there as the act left it
  have hchanged : ∀ b ∈ rs.filterMap (changed t), ∃ s, t'.get b.id = some s ∧ b.values ≠ s.values ∧ s.version = b.version + 1 := by
    intro b hb
    obtain ⟨r, hr, v, hv, hstored, hne, hid⟩ := mem_changed hb
    have hkept : b.id ∉ rs.filterMap (created t) := by
      rw [mem_created, hid, hstored]
      exact fun hnone => nomatch hnone.2
    refine ⟨v.species r.speciesId (b.version + 1), ?_, fun heq => hne heq.symm, rfl⟩
    rw [hget', if_neg hkept, hid, h.own r hr]
    simp [rowAfter, hv, hstored, hne]
  obtain ⟨t₂, hrestores, hothers, hown, htracked₂, hstaged₂, houtbox₂⟩ :=
    undo_restores (rs.filterMap (changed t)) t' (nodup_changed hnodup) hchanged
  refine ⟨t₂, ?_, fun id => ?_, ?_⟩
  · have hundo := (undoRecords_append hdeletes).trans hrestores
    simp only [applySpeciesUpdatesStep, hcreated, hupdated, List.map_map]
    simp only [Function.comp_def]
    rw [hundo]
  · by_cases hmem : ∃ b ∈ rs.filterMap (changed t), b.id = id
    · obtain ⟨b, hb, rfl⟩ := hmem
      obtain ⟨r, -, v, -, hstored, -, hid⟩ := mem_changed hb
      rw [← hid] at hstored
      rw [hown b hb, hstored, Option.map_some, if_pos hb]
    · rw [hothers id fun b hb heq => hmem ⟨b, hb, heq⟩, hget']
      have hfix : ∀ s, t.get id = some s → s ∉ rs.filterMap (changed t) := by
        intro s hs hin
        exact hmem ⟨s, hin, Catalogue.get_id hs⟩
      by_cases hc : id ∈ rs.filterMap (created t)
      · rw [if_pos hc, (mem_created.1 hc).2]
        rfl
      · rw [if_neg hc]
        rw [h.unchanged hc hfix]
        cases hs : t.get id with
        | none => rfl
        | some s => rw [Option.map_some, if_neg (hfix s hs)]
  · show t₂.outbox ++ t₂.staged ++ t₂.tracked = _
    rw [houtbox₂, hstaged₂, htracked₂, houtbox, hstaged, htracked, hnow]
    simp [Catalogue.commit]

/-- A species that was there is there after the act, at no older version. -/
theorem Applied.version_le {t₁ : Catalogue} {id : SpeciesId} {s : Species} (h : Applied t rs t₁) (hs : t.get id = some s) :
    ∃ s₁, t₁.get id = some s₁ ∧ s.version ≤ s₁.version ∧ s₁.version ≤ s.version + 1 ∧
      (s ∉ rs.filterMap (changed t) → s₁ = s) := by
  by_cases hrecord : ∃ r ∈ rs, r.speciesId = id
  · obtain ⟨r, hr, rfl⟩ := hrecord
    rw [h.own r hr, hs]
    unfold rowAfter
    cases hv : r.values with
    | none => exact ⟨s, rfl, le_rfl, Nat.le_succ _, fun _ => rfl⟩
    | some v =>
      by_cases hsame : v = s.values
      · exact ⟨s, if_pos hsame, le_rfl, Nat.le_succ _, fun _ => rfl⟩
      · refine ⟨_, if_neg hsame, Nat.le_succ _, le_rfl, fun hnot => absurd ?_ hnot⟩
        exact List.mem_filterMap.2 ⟨r, hr, by simp [changed, hv, hs, hsame]⟩
  · exact ⟨s, (h.others id fun r hr heq => hrecord ⟨r, hr, heq⟩).trans hs, le_rfl, Nat.le_succ _, fun _ => rfl⟩

/-- **A synchronisation and its compensation are the identity on values**: with distinct species and proper
values fetched, both steps come to their commits, every species has the values it had and no other is left,
no version goes back, and each changed species was announced as changed and as restored, each created one as
added, and no other. -/
theorem sync_compensated (hsettled : t.renew = t) (hcreated : c.created = []) (hupdated : c.updated = [])
    (hnodup : (c.fetched.map (·.speciesId)).Nodup) (hvalid : ∀ r ∈ c.fetched, r.values.isSome = true) (later : Instant) :
    ∃ c₁ t₁ c₂ t₂, applySpeciesUpdatesStep.act c t none = (c₁, .committed t₁) ∧
      applySpeciesUpdatesStep.compensate c₁ { t₁ with now := later } none = (c₂, .committed t₂) ∧
      (∀ id, (Table.get Species.id t₂.species id).map Species.values =
        (Table.get Species.id t.species id).map Species.values) ∧
      (∀ id s, Table.get Species.id t.species id = some s → ∃ s₁ s₂, Table.get Species.id t₁.species id = some s₁ ∧
        Table.get Species.id t₂.species id = some s₂ ∧ s.version ≤ s₁.version ∧ s₁.version ≤ s₂.version) ∧
      t₂.outbox = t.outbox ++ (c.fetched.filterMap (forward t)).map (StepAction.act, ·) ++
        ((c.fetched.filterMap (changed t)).map (restoring later)).map (StepAction.compensate, ·) := by
  obtain ⟨t₁, hact, h⟩ := act_ok (t := t) hcreated hupdated hnodup hvalid
  obtain ⟨t₂, hcompensate, hget, houtbox⟩ := compensate_ok { c with
    created := c.fetched.filterMap (created t)
    updated := (c.fetched.filterMap (changed t)).map snapshot } h hnodup rfl rfl later
  have hrow : ∀ id, Table.get Species.id t.species id = t.get id := by
    intro id
    rw [← hsettled]
    rfl
  have hget₂ : ∀ id, Table.get Species.id t₂.commit.species id = (t.get id).map fun s =>
      if s ∈ c.fetched.filterMap (changed t) then { s with version := s.version + 2 } else s := hget
  refine ⟨_, _, _, _, hact, hcompensate, fun id => ?_, fun id s hs => ?_, ?_⟩
  · rw [hget₂, hrow]
    cases t.get id with
    | none => rfl
    | some s =>
      simp only [Option.map_some, Option.some.injEq]
      split <;> rfl
  · rw [hrow] at hs
    obtain ⟨s₁, hs₁, hle, hle₁, hsame⟩ := h.version_le hs
    refine ⟨s₁, _, hs₁, by rw [hget₂, hs, Option.map_some], hle, ?_⟩
    split
    · show s₁.version ≤ s.version + 2
      omega
    · rename_i hnot
      rw [hsame hnot]
  · have hstaged : t.staged = [] := by
      rw [← hsettled]
      rfl
    have htracked : t.tracked = [] := by
      rw [← hsettled]
      rfl
    rw [houtbox]
    show t₁.outbox ++ t₁.staged ++ t₁.tracked ++ _ = _
    rw [h.outbox, h.staged, h.tracked, hstaged, htracked]
    simp

end

/-- A catalogue of two species. -/
def twoSpecies : Catalogue :=
  .before 10 [] [⟨1, ⟨['n'], by decide, by decide⟩, ⟨['i'], by decide, by decide⟩, .weekly, .low, 4⟩,
    ⟨2, ⟨['o'], by decide, by decide⟩, ⟨['u'], by decide, by decide⟩, .weekly, .high, 1⟩]

/-- The source names the first differently, the second as it is with spaces around, and knows a third. -/
def threeFetched : SpeciesSyncContext :=
  ⟨5, 9, [⟨1, ['n'], ['i', 'i'], days 7, .low, 0⟩, ⟨2, ['o', ' '], [' ', 'u'], days 7, .high, 0⟩,
    ⟨3, ['y'], ['y'], days 3, .medium, 0⟩], [], []⟩

/-- The first is announced twice, the third once and the second not at all. -/
theorem sync_compensated_three :
    ∃ c₁ t₁ c₂ t₂, applySpeciesUpdatesStep.act threeFetched twoSpecies none = (c₁, .committed t₁) ∧
      applySpeciesUpdatesStep.compensate c₁ { t₁ with now := 20 } none = (c₂, .committed t₂) ∧
      (∀ id, (Table.get Species.id t₂.species id).map Species.values =
        (Table.get Species.id twoSpecies.species id).map Species.values) ∧ t₂.outbox.length = 3 := by
  obtain ⟨c₁, t₁, c₂, t₂, hact, hcompensate, hvalues, -, houtbox⟩ :=
    sync_compensated (c := threeFetched) (t := twoSpecies) rfl rfl rfl (by decide) (by decide) 20
  exact ⟨c₁, t₁, c₂, t₂, hact, hcompensate, hvalues, by rw [houtbox]; decide⟩

end Saga

end Plantkeeper
