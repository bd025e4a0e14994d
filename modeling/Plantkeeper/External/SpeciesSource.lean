/-
The synchronisation's source: Trefle, with the last list it answered kept for a day on which it does not. An
outage is answered with that list, or with an empty one when there is none; whatever else the client raises
is raised. A list Trefle answers has each species once, with the values of a detail it served.
-/
import Plantkeeper.External.Paging
import Plantkeeper.Saga.Restored

namespace Plantkeeper.Saga

/-- An upstream entry as the first step keeps it in the context. -/
def SpeciesRecord.fetched (r : SpeciesRecord) : SpeciesSnapshot :=
  ⟨r.speciesId, r.scientificName, r.commonName, r.wateringInterval.value, r.lightRequirement, 0⟩

/-- The values of an upstream entry, if a species can have them. -/
def SpeciesRecord.values (r : SpeciesRecord) : Option SpeciesValues := r.fetched.values

end Plantkeeper.Saga

namespace Plantkeeper.External.Trefle

open Plantkeeper.Saga

/-! ## The snapshot and the source -/

/-- The list under `SNAPSHOT_KEY`. -/
abbrev SpeciesSnapshotStore := Option (List SpeciesRecord)

/-- `load`. Valkey fails, or what it holds does not validate, where it is not `usable`. -/
def SpeciesSnapshotStore.load (stored : SpeciesSnapshotStore) (usable : Bool) : Option (List SpeciesRecord) :=
  if usable then stored else none

/-- `save`. -/
def SpeciesSnapshotStore.save (stored : SpeciesSnapshotStore) (records : List SpeciesRecord) (usable : Bool) :
    SpeciesSnapshotStore :=
  if records = [] then stored else if usable then some records else stored

/-- `_fallback`. -/
def fallback (stored : SpeciesSnapshotStore) (usable : Bool) : List SpeciesRecord :=
  match stored.load usable with
  | none => []
  | some cached => cached

/-- `TrefleSpeciesSource.fetch_all`, from what the client's `fetch_all` came to: the answer, and what is stored
after it. -/
def TrefleSpeciesSource.fetchAll (stored : SpeciesSnapshotStore) (usable : Bool) :
    Except Error (List SpeciesRecord) → Except Error (List SpeciesRecord) × SpeciesSnapshotStore
  | .error .trefleUnavailable | .error .circuitOpen => (.ok (fallback stored usable), stored)
  | .error e => (.error e, stored)
  | .ok records => (.ok records, if records = [] then stored else stored.save records usable)

/-- The list, if there is one, is what Trefle answered, what was stored, or empty; and what is stored after it
is what was stored before or what Trefle answered. -/
theorem source_fetchAll {stored : SpeciesSnapshotStore} {usable : Bool} {answer : Except Error (List SpeciesRecord)}
    {outcome : Except Error (List SpeciesRecord)} {stored' : SpeciesSnapshotStore}
    (h : TrefleSpeciesSource.fetchAll stored usable answer = (outcome, stored')) :
    (∀ records, outcome = .ok records → answer = .ok records ∨ stored = some records ∨ records = []) ∧
      ∀ records, stored' = some records → stored = some records ∨ answer = .ok records := by
  have hfallback : ∀ records, fallback stored usable = records → stored = some records ∨ records = [] := by
    intro records hf
    cases usable with
    | false => exact .inr hf.symm
    | true =>
      cases stored with
      | none => exact .inr hf.symm
      | some cached => exact .inl (congrArg some hf)
  unfold TrefleSpeciesSource.fetchAll at h
  split at h
  · cases h
    refine ⟨fun records hok => .inr (hfallback records ?_), fun records hs => .inl hs⟩
    cases hok
    rfl
  · cases h
    refine ⟨fun records hok => .inr (hfallback records ?_), fun records hs => .inl hs⟩
    cases hok
    rfl
  · cases h
    exact ⟨nofun, fun records hs => .inl hs⟩
  · cases h
    refine ⟨fun records hok => .inl hok, fun records hs => ?_⟩
    unfold SpeciesSnapshotStore.save at hs
    split at hs
    · exact .inl hs
    · split at hs
      · exact .inr (congrArg Except.ok (Option.some.inj hs))
      · exact .inl hs

/-! ## What Trefle answers -/

/-- A text that is stripped already makes the name it is. -/
theorem normalizeName_isSome {text : List Char} (h : strip text ≠ []) : (normalizeName text).isSome = true := by
  simp [normalizeName, h]

/-- A mapped record can be the values of a species. -/
theorem values_recordFromDetail {speciesIdFor : String → SpeciesId} {detail : SpeciesDetail} {r : SpeciesRecord}
    (h : recordFromDetail speciesIdFor detail = some r) : r.values.isSome = true := by
  unfold recordFromDetail at h
  simp only at h
  split at h
  · cases h
  · rename_i hscientific
    cases h
    have hname : strip (strip detail.scientificName) ≠ [] := by
      rw [strip_strip]
      exact hscientific
    obtain ⟨scientific, hs⟩ := Option.isSome_iff_exists.1 (normalizeName_isSome hname)
    generalize (detail.commonName.filter fun name => name ≠ []).getD (strip detail.scientificName) = given
    -- a blank common name is replaced by the scientific one
    have hcommon : strip (if strip given = [] then strip detail.scientificName else strip given) ≠ [] := by
      split
      · exact hname
      · rename_i hgiven
        rw [strip_strip]
        exact hgiven
    obtain ⟨common, hc⟩ := Option.isSome_iff_exists.1 (normalizeName_isSome hcommon)
    simp [SpeciesRecord.values, SpeciesRecord.fetched, SpeciesSnapshot.values, hs, hc, WateringInterval.ofDuration, WateringInterval.pos]

section

variable {Body V : Type} {wire : Wire Body V} {client : Client} {up : Upstream Body} {s : Session} {r : SpeciesRecord}

theorem mem_setdefault {records : List SpeciesRecord} {r' : SpeciesRecord} (h : r ∈ setdefault records r') :
    r ∈ records ∨ r = r' := by
  unfold setdefault at h
  split at h
  · exact .inl h
  · simpa using h

theorem mem_firsts {records : List SpeciesRecord} (h : r ∈ firsts records) : r ∈ records := by
  induction records using List.reverseRecOn with
  | nil => exact h
  | append_singleton records r' ih =>
    unfold firsts at h ih
    rw [List.foldl_append] at h
    rcases mem_setdefault h with hold | rfl
    · exact List.mem_append_left _ (ih hold)
    · exact List.mem_append_right _ (List.mem_singleton_self _)

/-- A record an entry is answered with is that of a detail. -/
theorem detailOutcome_record {page index : ℕ} (h : (detailOutcome wire client up page index).record = some r) :
    ∃ detail, recordFromDetail wire.speciesIdFor detail = some r := by
  unfold detailOutcome at h
  split at h
  · split at h <;> cases h
  · split at h
    · cases h
    · rename_i body _ record hparse
      unfold parseDetail at hparse
      split at hparse
      · cases hparse
      · cases hparse
        obtain ⟨detail, -, hr⟩ := Option.bind_eq_some_iff.1 h
        exact ⟨detail, hr⟩

theorem pageOutcome_record (page : ℕ) : (pageOutcome wire client up page).record = none := by
  unfold pageOutcome
  split
  · rfl
  · split <;> rfl

/-- Every record of a fetch is that of a detail Trefle served. -/
theorem fetchAll_mapped {fuel : ℕ} {records : List SpeciesRecord}
    (h : (fetchAll wire client up fuel s).2 = some (.ok records)) (hr : r ∈ records) :
    ∃ detail, recordFromDetail wire.speciesIdFor detail = some r := by
  by_cases htoken : client.token = ""
  · rw [fetchAll_untokened htoken] at h
    cases h
    cases hr
  · obtain ⟨k, -, position, hwalk, -⟩ := (fetchAll_iff htoken).1 ⟨fuel, h⟩
    have hrecords : records = _ := (found_of_visits hwalk).1
    rw [hrecords] at hr
    obtain ⟨o, ho, hrecord⟩ := List.mem_filterMap.1 (mem_firsts (List.mem_of_mem_take hr))
    obtain ⟨p, -, hpage⟩ := List.mem_flatMap.1 ho
    rcases List.mem_cons.1 hpage with rfl | hentry
    · rw [pageOutcome_record] at hrecord
      cases hrecord
    · obtain ⟨index, -, rfl⟩ := List.mem_map.1 hentry
      exact detailOutcome_record hrecord

end

end Plantkeeper.External.Trefle
