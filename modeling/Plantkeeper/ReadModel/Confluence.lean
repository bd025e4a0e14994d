/-
Does the row of a plant depend on how the topics are interleaved? The Garden, Care and the Journal set
columns of their own on a row that each of them makes when it has to, so between these the order does not
matter. The Catalog names the species of the plants it finds: a plant that is projected after the last
event of its species never gets the name. So the rows are the same for every interleaving exactly if the
catalog history says nothing of the species of any plant.
-/
import Plantkeeper.ReadModel.PlantRows

namespace Plantkeeper.ReadModel

open Plantkeeper.Journal

/-! ## The statement -/

/-- Every interleaving of the histories leaves the same `plants`. -/
def Confluent (h : Histories) : Prop :=
  ∀ es es', historiesOf es = h → historiesOf es' = h →
    (es.foldl project .empty).plants = (es'.foldl project .empty).plants

/-- A plant is added by its first event and by no other. -/
def AddedOnce (garden : List GardenEvent) : Prop :=
  ∀ p g gs, (garden.filter fun e => p = e.plantId) = g :: gs → g.added?.isSome ∧ ∀ g' ∈ gs, g'.added? = none

/-- The catalog history has no event about the species of a plant. -/
def Unannounced (h : Histories) : Prop :=
  ∀ e ∈ h.garden, ∀ c ∈ h.catalog, ∀ s, announced? c = some s → e.added? ≠ some s.id

/-! ## The row of a plant that no catalog event names -/

/-- The columns of the Garden over the one of Care, on a row that any of the three topics makes. -/
def rowFrom (gs : List GardenEvent) (cs : List CareEvent) (js : List JournalEntryAdded) : Option PlantRow :=
  if gs = [] ∧ cs = [] ∧ js = [] then none else some (gs.foldl GardenEvent.patch (cs.foldl carePatch .blank))

/-- The row of a plant from its own events in the three topics. -/
def assembled (p : PlantId) (h : Histories) : Option PlantRow :=
  rowFrom (h.garden.filter fun e => p = e.plantId) (h.care.filter fun e => p = e.plantId ∧ (nextWatering? e).isSome)
    (h.journal.filter fun e => p = e.plantId)

section

variable {gs : List GardenEvent} {cs : List CareEvent} {js : List JournalEntryAdded}

theorem rowFrom_getD : (rowFrom gs cs js).getD .blank = gs.foldl GardenEvent.patch (cs.foldl carePatch .blank) := by
  unfold rowFrom
  split
  · rename_i h
    obtain ⟨rfl, rfl, rfl⟩ := h
    rfl
  · rfl

theorem rowFrom_garden (g : GardenEvent) : rowFrom (gs ++ [g]) cs js = some (g.patch ((rowFrom gs cs js).getD .blank)) := by
  rw [rowFrom_getD]
  simp [rowFrom]

/-- A plant that was added has a row to set. -/
theorem rowFrom_map (g : GardenEvent) (hgs : gs ≠ []) : rowFrom (gs ++ [g]) cs js = (rowFrom gs cs js).map g.patch := by
  simp [rowFrom, hgs]

theorem rowFrom_care (c : CareEvent) : rowFrom gs (cs ++ [c]) js = some (carePatch ((rowFrom gs cs js).getD .blank) c) := by
  -- the column of Care is set before or after those of the Garden
  have hcomm : gs.foldl GardenEvent.patch (carePatch (cs.foldl carePatch .blank) c) =
      carePatch (gs.foldl GardenEvent.patch (cs.foldl carePatch .blank)) c :=
    List.foldl_hom (carePatch · c) fun r g => (carePatch_patch r c g).symm
  rw [rowFrom_getD]
  simp [rowFrom, hcomm]

theorem rowFrom_journal (j : JournalEntryAdded) : rowFrom gs cs (js ++ [j]) = some ((rowFrom gs cs js).getD .blank) := by
  rw [rowFrom_getD]
  simp [rowFrom]

end

/-- The histories with one more event. -/
def Histories.add (h : Histories) : TopicEvent → Histories
  | .garden e => { h with garden := h.garden ++ [e] }
  | .care e => { h with care := h.care ++ [e] }
  | .catalog e => { h with catalog := h.catalog ++ [e] }
  | .journal e => { h with journal := h.journal ++ [e] }
  | .notification e => { h with notifications := h.notifications ++ [e] }

theorem historiesOf_snoc (es : List TopicEvent) (e : TopicEvent) : historiesOf (es ++ [e]) = (historiesOf es).add e := by
  cases e <;> simp [historiesOf, Histories.add, TopicEvent.garden?, TopicEvent.care?, TopicEvent.catalog?,
    TopicEvent.journal?, TopicEvent.notification?]

theorem Histories.garden_le_add (h : Histories) (e : TopicEvent) : h.garden <+: (h.add e).garden := by
  cases e with
  | garden e => exact List.prefix_append ..
  | care | catalog | journal | notification => exact List.prefix_rfl

theorem Histories.catalog_le_add (h : Histories) (e : TopicEvent) : h.catalog <+: (h.add e).catalog := by
  cases e with
  | catalog e => exact List.prefix_append ..
  | garden | care | journal | notification => exact List.prefix_rfl

/-- The species of a row is one that was added to it. -/
theorem speciesId_foldl {x : SpeciesId} : ∀ (gs : List GardenEvent) (r : PlantRow),
    (gs.foldl GardenEvent.patch r).speciesId = some x → (∃ g ∈ gs, g.added? = some x) ∨ r.speciesId = some x
  | [], _, h => .inr h
  | g :: gs, r, h => by
    rcases speciesId_foldl gs _ h with ⟨g', hg', hx⟩ | hx
    · exact .inl ⟨g', List.mem_cons_of_mem _ hg', hx⟩
    · rcases g with (_ | _ | _) | _
      · exact .inl ⟨_, List.mem_cons_self .., hx⟩
      · exact .inr hx
      · exact .inr hx
      · exact .inr hx

theorem speciesId_carePatch (r : PlantRow) (c : CareEvent) : (carePatch r c).speciesId = r.speciesId := by
  unfold carePatch
  split <;> rfl

theorem speciesId_foldl_carePatch (cs : List CareEvent) (r : PlantRow) :
    (cs.foldl carePatch r).speciesId = r.speciesId := by
  induction cs generalizing r with
  | nil => rfl
  | cons c cs ih => exact (ih _).trans (speciesId_carePatch r c)

/-- The first event about the plant adds it. -/
def FirstAdds (p : PlantId) (garden : List GardenEvent) : Prop :=
  ∀ e ∈ (garden.filter fun e => p = e.plantId).head?, e.added?.isSome

theorem assembled_garden {p : PlantId} {h : Histories} {e : GardenEvent} (hfirst : FirstAdds p (h.garden ++ [e])) :
    assembled p (h.add (.garden e)) = plantAct p (assembled p h) (.garden e) := by
  simp only [assembled, Histories.add, plantAct, List.filter_append]
  by_cases hp : p = e.plantId
  · have hone : ([e].filter fun e => p = e.plantId) = [e] := by simp [hp]
    rw [hone, if_pos hp]
    split
    · exact rowFrom_garden e
    · -- an event that adds no plant is not the first about it, so there is a row
      rename_i hadded
      refine rowFrom_map e fun hnil => hadded ?_
      unfold FirstAdds at hfirst
      rw [List.filter_append, hnil, hone] at hfirst
      exact hfirst e rfl
  · simp [hp]

theorem assembled_care (p : PlantId) (h : Histories) (e : CareEvent) :
    assembled p (h.add (.care e)) = plantAct p (assembled p h) (.care e) := by
  simp only [assembled, Histories.add, plantAct, List.filter_append]
  by_cases hp : p = e.plantId ∧ (nextWatering? e).isSome
  · have hone : ([e].filter fun e => p = e.plantId ∧ (nextWatering? e).isSome) = [e] := by simp [hp.1, hp.2]
    rw [hone, if_pos hp]
    exact rowFrom_care e
  · have hnone : ([e].filter fun e => p = e.plantId ∧ (nextWatering? e).isSome) = [] := by simpa using hp
    rw [hnone, if_neg hp, List.append_nil]

theorem assembled_journal (p : PlantId) (h : Histories) (e : JournalEntryAdded) :
    assembled p (h.add (.journal e)) = plantAct p (assembled p h) (.journal e) := by
  simp only [assembled, Histories.add, plantAct, List.filter_append]
  by_cases hp : p = e.plantId
  · have hone : ([e].filter fun e => p = e.plantId) = [e] := by simp [hp]
    rw [hone, if_pos hp]
    exact rowFrom_journal e
  · simp [hp]

/-- A catalog event does not find the row when its species was not added. -/
theorem assembled_catalog {p : PlantId} {h : Histories} {e : CatalogEvent} (hun : Unannounced (h.add (.catalog e))) :
    assembled p h = plantAct p (assembled p h) (.catalog e) := by
  have hskip : ∀ r, r.speciesId = none ∨ (∃ x, r.speciesId = some x ∧ ∃ g ∈ h.garden, g.added? = some x) →
      catalogPatch r e = r := by
    intro r hr
    unfold catalogPatch
    split
    · rename_i s hs
      refine if_neg fun hx => ?_
      rcases hr with hr | ⟨x, hr, g, hg, hadded⟩
      · rw [hr] at hx
        cases hx
      · rw [hr] at hx
        cases hx
        exact hun g hg e (List.mem_append_right _ (List.mem_singleton_self e)) s hs hadded
    · rfl
  cases hrow : assembled p h with
  | none => rfl
  | some r =>
    refine congrArg some (hskip r ?_).symm
    cases hx : r.speciesId with
    | none => exact .inl rfl
    | some x =>
      refine .inr ⟨x, rfl, ?_⟩
      have hr : (assembled p h).getD .blank = (h.garden.filter fun e => p = e.plantId).foldl GardenEvent.patch
          ((h.care.filter fun e => p = e.plantId ∧ (nextWatering? e).isSome).foldl carePatch .blank) := rowFrom_getD
      rw [hrow, Option.getD_some] at hr
      rw [hr] at hx
      rcases speciesId_foldl _ _ hx with ⟨g, hg, hadded⟩ | hblank
      · exact ⟨g, (List.mem_filter.1 hg).1, hadded⟩
      · rw [speciesId_foldl_carePatch] at hblank
        cases hblank

/-- Every interleaving assembles the same row, as long as no catalog event names a species of it. -/
theorem foldl_plantAct (p : PlantId) (es : List TopicEvent) (hfirst : FirstAdds p (historiesOf es).garden)
    (hun : Unannounced (historiesOf es)) : es.foldl (plantAct p) none = assembled p (historiesOf es) := by
  induction es using List.reverseRecOn with
  | nil => rfl
  | append_singleton es e ih =>
    rw [historiesOf_snoc] at hfirst hun ⊢
    have hgarden := (historiesOf es).garden_le_add e
    have hcatalog := (historiesOf es).catalog_le_add e
    -- the conditions hold of every beginning of the histories
    have hprev : es.foldl (plantAct p) none = assembled p (historiesOf es) := by
      refine ih (fun e' he' => hfirst e' ?_) fun e' he' c hc => hun e' (hgarden.subset he') c (hcatalog.subset hc)
      obtain ⟨l, hl⟩ := hgarden
      rw [← hl, List.filter_append, List.head?_append, he']
      rfl
    rw [List.foldl_append, hprev]
    cases e with
    | garden e => exact (assembled_garden hfirst).symm
    | care e => exact (assembled_care p _ e).symm
    | catalog e => exact (assembled_catalog hun).symm
    | journal e => exact (assembled_journal p _ e).symm
    | notification e => rfl

/-! ## The row of a plant that a catalog event names -/

/-- Only the Catalog sets the name of a species. -/
theorem speciesName_plantAct (p : PlantId) (row : Option PlantRow) {e : TopicEvent} (he : e.catalog? = none) :
    (plantAct p row e).bind (·.speciesName) = row.bind (·.speciesName) := by
  have hgetD : (row.getD .blank).speciesName = row.bind (·.speciesName) := by cases row <;> rfl
  cases e with
  | garden e =>
    have hpatch : ∀ r : PlantRow, (e.patch r).speciesName = r.speciesName := by
      intro r
      rcases e with (_ | _ | _) | _ <;> rfl
    simp only [plantAct]
    split
    · split
      · exact (hpatch _).trans hgetD
      · cases row with
        | none => rfl
        | some r => exact hpatch r
    · rfl
  | care e =>
    have hpatch : ∀ r : PlantRow, (carePatch r e).speciesName = r.speciesName := by
      intro r
      unfold carePatch
      split <;> rfl
    simp only [plantAct]
    split
    · exact (hpatch _).trans hgetD
    · rfl
  | catalog e => cases he
  | journal e =>
    simp only [plantAct]
    split
    · exact hgetD
    · rfl
  | notification e => rfl

theorem speciesName_foldl (p : PlantId) : ∀ (es : List TopicEvent) (row : Option PlantRow), (∀ e ∈ es, e.catalog? = none) →
    (es.foldl (plantAct p) row).bind (·.speciesName) = row.bind (·.speciesName)
  | [], _, _ => rfl
  | e :: es, row, h => by
    have hrest := speciesName_foldl p es (plantAct p row e) fun e' he' => h e' (List.mem_cons_of_mem _ he')
    exact hrest.trans (speciesName_plantAct p row (h e (List.mem_cons_self ..)))

theorem speciesId_catalogPatch (r : PlantRow) (c : CatalogEvent) : (catalogPatch r c).speciesId = r.speciesId := by
  rcases catalogPatch_cases r c with h | ⟨name, h⟩ <;> rw [h]

theorem isSome_catalogPatch {r : PlantRow} (c : CatalogEvent) (h : r.speciesName.isSome) :
    (catalogPatch r c).speciesName.isSome := by
  rcases catalogPatch_cases r c with hc | ⟨name, hc⟩ <;> rw [hc]
  · exact h
  · rfl

/-- A row whose species is announced has its name. -/
theorem isSome_foldl_catalogPatch {x : SpeciesId} : ∀ {cs : List CatalogEvent} {r : PlantRow}, r.speciesId = some x →
    (r.speciesName.isSome ∨ ∃ c ∈ cs, ∃ s, announced? c = some s ∧ s.id = x) → (cs.foldl catalogPatch r).speciesName.isSome
  | [], r, _, h => by
    rcases h with h | ⟨c, hc, -⟩
    · exact h
    · cases hc
  | c :: cs, r, hx, h => by
    rw [List.foldl_cons]
    refine isSome_foldl_catalogPatch ((speciesId_catalogPatch r c).trans hx) ?_
    rcases h with h | ⟨c', hc', s, hs, hid⟩
    · exact .inl (isSome_catalogPatch c h)
    · rcases List.mem_cons.1 hc' with rfl | hrest
      · left
        simp [catalogPatch, hs, hx, hid]
      · exact .inr ⟨c', hrest, s, hs, hid⟩

theorem foldl_catalog (p : PlantId) (r : PlantRow) : ∀ cs : List CatalogEvent,
    (cs.map TopicEvent.catalog).foldl (plantAct p) (some r) = some (cs.foldl catalogPatch r) := by
  intro cs
  induction cs generalizing r with
  | nil => rfl
  | cons c cs ih => exact ih (catalogPatch r c)

theorem foldl_catalog_none (p : PlantId) (cs : List CatalogEvent) :
    (cs.map TopicEvent.catalog).foldl (plantAct p) none = none := by
  induction cs with
  | nil => rfl
  | cons c cs ih => exact ih

/-- The topics but the Catalog, one after the other. -/
def otherTopics (h : Histories) : List TopicEvent :=
  h.garden.map .garden ++ h.care.map .care ++ h.journal.map .journal ++ h.notifications.map .notification

theorem historiesOf_otherTopics (h : Histories) : historiesOf (otherTopics h) = { h with catalog := [] } := by
  simp [historiesOf, otherTopics, List.filterMap_map, TopicEvent.garden?, TopicEvent.care?, TopicEvent.catalog?,
    TopicEvent.journal?, TopicEvent.notification?]

theorem catalog?_otherTopics {h : Histories} {e : TopicEvent} (he : e ∈ otherTopics h) : e.catalog? = none := by
  simp only [otherTopics, List.mem_append, List.mem_map] at he
  rcases he with ((⟨_, -, rfl⟩ | ⟨_, -, rfl⟩) | ⟨_, -, rfl⟩) | ⟨_, -, rfl⟩ <;> rfl

theorem historiesOf_catalogLast (h : Histories) : historiesOf (otherTopics h ++ h.catalog.map .catalog) = h := by
  simp [historiesOf, otherTopics, List.filterMap_map, TopicEvent.garden?, TopicEvent.care?, TopicEvent.catalog?,
    TopicEvent.journal?, TopicEvent.notification?]

theorem historiesOf_catalogFirst (h : Histories) : historiesOf (h.catalog.map .catalog ++ otherTopics h) = h := by
  simp [historiesOf, otherTopics, List.filterMap_map, TopicEvent.garden?, TopicEvent.care?, TopicEvent.catalog?,
    TopicEvent.journal?, TopicEvent.notification?]

theorem AddedOnce.first {garden : List GardenEvent} (h : AddedOnce garden) (p : PlantId) : FirstAdds p garden := by
  intro e he
  cases hgs : garden.filter fun e => p = e.plantId with
  | nil =>
    rw [hgs] at he
    cases he
  | cons g gs =>
    rw [hgs] at he
    cases he
    exact (h p e gs hgs).1

theorem speciesId_foldl_of_none : ∀ (gs : List GardenEvent) (r : PlantRow), (∀ g ∈ gs, g.added? = none) →
    (gs.foldl GardenEvent.patch r).speciesId = r.speciesId
  | [], _, _ => rfl
  | g :: gs, r, h => by
    have hg : (g.patch r).speciesId = r.speciesId := by
      have hnone := h g (List.mem_cons_self ..)
      rcases g with (_ | _ | _) | _
      · cases hnone
      · rfl
      · rfl
      · rfl
    exact (speciesId_foldl_of_none gs _ fun g' hg' => h g' (List.mem_cons_of_mem _ hg')).trans hg

/-- A plant that was added once has the species it was added with. -/
theorem speciesId_of_added {garden : List GardenEvent} (h : AddedOnce garden) {e : GardenEvent} (he : e ∈ garden)
    {x : SpeciesId} (hx : e.added? = some x) (r : PlantRow) :
    ((garden.filter fun g => e.plantId = g.plantId).foldl GardenEvent.patch r).speciesId = some x := by
  have hmem : e ∈ garden.filter fun g => e.plantId = g.plantId := List.mem_filter.2 ⟨he, by simp⟩
  cases hgs : garden.filter fun g => e.plantId = g.plantId with
  | nil =>
    rw [hgs] at hmem
    cases hmem
  | cons g gs =>
    obtain ⟨-, hrest⟩ := h e.plantId g gs hgs
    rw [hgs] at hmem
    rcases List.mem_cons.1 hmem with heq | hin
    · have hset : (g.patch r).speciesId = some x := by
        rw [← heq]
        rcases e with (_ | _ | _) | _ <;> cases hx
        rfl
      exact (speciesId_foldl_of_none gs _ hrest).trans hset
    · rw [hrest e hin] at hx
      cases hx

/-- Before any catalog event a plant that was added has its row, with its species and no name for it. -/
theorem foldl_otherTopics {h : Histories} (hgarden : AddedOnce h.garden) {e : GardenEvent} (he : e ∈ h.garden)
    {x : SpeciesId} (hx : e.added? = some x) :
    ∃ r, (otherTopics h).foldl (plantAct e.plantId) none = some r ∧ r.speciesId = some x ∧ r.speciesName = none := by
  have hun : Unannounced { h with catalog := [] } := by
    intro e' _ c hc
    cases hc
  have hrow := foldl_plantAct e.plantId (otherTopics h)
    (by rw [historiesOf_otherTopics]; exact hgarden.first e.plantId) (by rw [historiesOf_otherTopics]; exact hun)
  rw [historiesOf_otherTopics] at hrow
  have hne : (h.garden.filter fun g => e.plantId = g.plantId) ≠ [] :=
    List.ne_nil_of_mem (List.mem_filter.2 ⟨he, by simp⟩)
  have hname := speciesName_foldl e.plantId (otherTopics h) none fun e' he' => catalog?_otherTopics he'
  refine ⟨_, hrow.trans (if_neg fun hnil => hne hnil.1), speciesId_of_added hgarden he hx _, ?_⟩
  rw [hrow.trans (if_neg fun hnil => hne hnil.1)] at hname
  exact hname

/-- For all histories in which a plant is added once and first: every interleaving of the topics leaves
the same `plants` exactly if the catalog history has no event about the species of a plant. -/
theorem plants_confluent_iff {h : Histories} (hgarden : AddedOnce h.garden) :
    Confluent h ↔ Unannounced h := by
  constructor
  · -- the catalog before and after everything else
    intro hconfluent e he c hc s hs hadded
    have hplants := congrFun (hconfluent _ _ (historiesOf_catalogLast h) (historiesOf_catalogFirst h)) e.plantId
    rw [plants_foldl, plants_foldl, List.foldl_append, List.foldl_append] at hplants
    obtain ⟨r, hr, hspecies, hnone⟩ := foldl_otherTopics hgarden he hadded
    have hplants : (h.catalog.map TopicEvent.catalog).foldl (plantAct e.plantId) ((otherTopics h).foldl (plantAct e.plantId) none) =
        (otherTopics h).foldl (plantAct e.plantId) ((h.catalog.map TopicEvent.catalog).foldl (plantAct e.plantId) none) := hplants
    -- first, it finds no row and nothing names the species; last, it names it
    rw [foldl_catalog_none, hr, foldl_catalog, Option.some.injEq] at hplants
    have hnamed : (h.catalog.foldl catalogPatch r).speciesName.isSome :=
      isSome_foldl_catalogPatch hspecies (.inr ⟨c, hc, s, hs, rfl⟩)
    rw [hplants, hnone] at hnamed
    cases hnamed
  · -- both rows are put together from the same events
    intro hun es es' hes hes'
    funext p
    rw [plants_foldl, plants_foldl]
    show es.foldl (plantAct p) none = es'.foldl (plantAct p) none
    rw [foldl_plantAct p es (by rw [hes]; exact hgarden.first p) (by rw [hes]; exact hun), hes,
      foldl_plantAct p es' (by rw [hes']; exact hgarden.first p) (by rw [hes']; exact hun), hes']

def fernAdded : CatalogEvent :=
  .speciesAdded ⟨5, ⟨['f', 'e', 'r', 'n'], by decide, by decide⟩, ⟨['p', 't', 'e', 'r', 'i', 's'], by decide, by decide⟩,
    .weekly, .low, 1⟩ 0

def plantAdded : GardenEvent :=
  .plant (.plantAdded 7 3 5 ⟨['k', 'i', 'm'], by decide, by decide⟩ ⟨['d', 'e', 'n'], by decide, by decide, by decide⟩ 1 1)

theorem addedOnce_plantAdded : AddedOnce [plantAdded] := by
  intro p g gs h
  by_cases hp : p = 7
  · subst hp
    cases h
    exact ⟨rfl, by simp⟩
  · simp [plantAdded, GardenEvent.plantId, Garden.Event.plantId, hp] at h

/-- A species enters the catalogue, and a plant of it the garden; the schedule and the journal follow. -/
def newFern : Histories :=
  ⟨[plantAdded], [.careScheduleCreated 7 .weekly 2 1], [fernAdded], [⟨8, 9, 7, .note, none, 2, 2⟩], []⟩

/-- The plant has the name of its species only if it is projected before the species. -/
theorem plants_depend_on_order : AddedOnce newFern.garden ∧ ¬ Confluent newFern ∧
    ((otherTopics newFern ++ newFern.catalog.map TopicEvent.catalog).foldl project .empty).plants 7 ≠
      ((newFern.catalog.map TopicEvent.catalog ++ otherTopics newFern).foldl project .empty).plants 7 := by
  have hne : ((otherTopics newFern ++ newFern.catalog.map TopicEvent.catalog).foldl project .empty).plants 7 ≠
      ((newFern.catalog.map TopicEvent.catalog ++ otherTopics newFern).foldl project .empty).plants 7 := by decide
  exact ⟨addedOnce_plantAdded,
    fun h => hne (congrFun (h _ _ (historiesOf_catalogLast newFern) (historiesOf_catalogFirst newFern)) 7), hne⟩

/-- A catalogue that only ever speaks of another species. -/
theorem plants_confluent_iff_other : Confluent { newFern with catalog := [.speciesCacheInvalidated 5 3,
    .speciesUpdated ⟨6, ⟨['a', 'l', 'o', 'e'], by decide, by decide⟩, ⟨['v', 'e', 'r', 'a'], by decide, by decide⟩,
      .weekly, .high, 2⟩ 3] } := by
  refine (plants_confluent_iff addedOnce_plantAdded).2 ?_
  intro e he c hc s hs hadded
  cases List.mem_singleton.1 he
  simp only [List.mem_cons, List.not_mem_nil, or_false] at hc
  rcases hc with rfl | rfl
  · cases hs
  · cases hs
    simp [plantAdded, GardenEvent.added?] at hadded

end Plantkeeper.ReadModel
