/-
When `fetch_all` comes to an end. The loop over the pages has no bound of its own: it ends with a page that
is the last, with a request that fails, or with enough records. Where none of these comes it asks for
page after page; whatever it returns is at most the limit, with each species once.
-/
import Mathlib.Data.Finset.Lattice.Fold
import Plantkeeper.External.Visits

namespace Plantkeeper.External.Trefle

open Plantkeeper.Fold Plantkeeper.Saga

section

variable {Body V : Type} {wire : Wire Body V} {client : Client} {up : Upstream Body} {s : Session}

/-- A fetch that has ended stays as it is, however many more turns it is allowed. -/
theorem pages_stable {result : Except Error (List SpeciesRecord)} (more : ℕ) :
    ∀ {fuel page : ℕ} {records : List SpeciesRecord} {s : Session},
      (pages wire client up fuel page records s).2 = some result →
      pages wire client up (fuel + more) page records s = pages wire client up fuel page records s
  | 0, _, _, _, h => by cases h
  | fuel + 1, page, records, s, h => by
    by_cases hle : client.speciesLimit ≤ records.length
    · rw [Nat.add_right_comm, pages_enough hle, pages_enough hle]
    · rw [Nat.add_right_comm]
      unfold pages at h ⊢
      rw [if_neg hle] at h ⊢
      rw [if_neg hle]
      split at h
      · rfl
      · split at h
        · rename_i hdata
          simp only [hdata, ↓reduceIte]
        · rename_i hdata
          rw [if_neg hdata, if_neg hdata]
          split at h
          · rfl
          · split at h
            · rename_i hnext
              rw [if_pos hnext, if_pos hnext]
              exact pages_stable more h
            · rename_i hlast
              rw [if_neg hlast, if_neg hlast]

/-- The walk stops with page `k`: it is the last, or the records up to it are enough, or a request up to it is
rejected by the breaker or raises. -/
def Stops (wire : Wire Body V) (client : Client) (up : Upstream Body) (start : Position) (k : ℕ) : Prop :=
  (0 < k ∧ continues wire client up k = false) ∨
    client.speciesLimit ≤ (recordsOf (outcomes wire client up k)).length ∨
    ∃ done o rest, outcomes wire client up k = done ++ o :: rest ∧ Fails client up start done o

/-- A walk ends with some result exactly where it stops. -/
theorem ends_iff_stops {start : Position} {k : ℕ} : (∃ result, Ends wire client up start k result) ↔
    Stops wire client up start k := by
  constructor
  · rintro ⟨result, hend⟩
    cases result with
    | error e =>
      have hno : ¬ ∃ q, walk wire client up start k = .ok q := by
        rintro ⟨q, hq⟩
        exact absurd (hq.symm.trans hend) (by simp)
      rw [walk_ok_iff] at hno
      push Not at hno
      exact .inr (.inr hno)
    | ok records =>
      obtain ⟨position, hwalk, henough | hlast⟩ := hend
      · have hrecords := (found_of_visits hwalk).1
        dsimp only at hrecords
        rw [hrecords, List.length_take] at henough
        exact .inr (.inl (by omega))
      · exact .inl hlast
  · intro hstops
    cases hwalk : walk wire client up start k with
    | error e => exact ⟨.error e, hwalk⟩
    | ok q =>
      refine ⟨.ok q.records, q.position, hwalk, ?_⟩
      rcases hstops with hlast | henough | ⟨done, o, rest, hos, hfails⟩
      · exact .inr hlast
      · rw [(found_of_visits hwalk).1, List.length_take]
        exact .inl (by omega)
      · exact absurd hfails (walk_ok_iff.1 ⟨q, hwalk⟩ done o rest hos)

/-- A walk that stops with no page is at every page, and has sent a request for each. -/
theorem unended (h : ∀ k, Linked wire client up k → ¬ Stops wire client up s.position k) (k : ℕ) :
    s.sent + k ≤ (pages wire client up k 1 [] s).1.sent := by
  have hcont : ∀ k, ∀ p < k, continues wire client up (p + 1) = true := by
    intro k
    induction k with
    | zero => exact fun p hp => absurd hp (Nat.not_lt_zero p)
    | succ k ih =>
      have hstep : continues wire client up (k + 1) = true := by
        have hstops := h (k + 1) fun p hp => ih p (by omega)
        unfold Stops at hstops
        simp only [not_or] at hstops
        simpa using hstops.1
      intro p hp
      rcases Nat.lt_succ_iff_lt_or_eq.1 hp with hp | rfl
      · exact ih p hp
      · exact hstep
  have hnot := h k fun p hp => hcont k p (by omega)
  cases hwalk : walk wire client up s.position k with
  | error e => exact absurd (ends_iff_stops.1 ⟨.error e, hwalk⟩) hnot
  | ok q =>
    have hfew : q.records.length < client.speciesLimit := by
      rw [(found_of_visits hwalk).1, List.length_take]
      unfold Stops at hnot
      simp only [not_or] at hnot
      omega
    obtain ⟨s', _, hsent, hpages⟩ := pages_walk (hcont k) hwalk hfew
    have hhere := hpages 0
    rw [Nat.zero_add] at hhere
    rw [hhere]
    exact hsent

/-- Without a token nothing is requested. -/
theorem fetchAll_untokened (htoken : client.token = "") (fuel : ℕ) :
    fetchAll wire client up fuel s = (s, some (.ok [])) := by
  unfold fetchAll
  rw [if_pos htoken]

theorem fetchAll_tokened (htoken : client.token ≠ "") (fuel : ℕ) :
    fetchAll wire client up fuel s = pages wire client up fuel 1 [] s := by
  unfold fetchAll
  rw [if_neg htoken]

/-- A fetch that ends sends a bounded number of requests: the turns after the end send nothing. -/
theorem sent_le_of_ended {ended : ℕ} {result : Except Error (List SpeciesRecord)}
    (hend : (pages wire client up ended 1 [] s).2 = some result) :
    ∃ bound, ∀ fuel, (pages wire client up fuel 1 [] s).1.sent ≤ bound := by
  refine ⟨(Finset.range (ended + 1)).sup fun fuel => (pages wire client up fuel 1 [] s).1.sent, fun fuel => ?_⟩
  rcases Nat.lt_or_ge fuel (ended + 1) with hlt | hge
  · exact Finset.le_sup (f := fun fuel => (pages wire client up fuel 1 [] s).1.sent) (Finset.mem_range.2 hlt)
  · have hsame : pages wire client up fuel 1 [] s = pages wire client up ended 1 [] s := by
      rw [show fuel = ended + (fuel - ended) by omega]
      exact pages_stable _ hend
    rw [hsame]
    exact Finset.le_sup (f := fun fuel => (pages wire client up fuel 1 [] s).1.sent)
      (Finset.mem_range.2 (Nat.lt_succ_self ended))

/-- A configured client's fetch ends exactly when its pages come to an end. -/
theorem fetchAll_ends_iff (htoken : client.token ≠ "") :
    (∃ fuel result, (fetchAll wire client up fuel s).2 = some result) ↔
      ∃ k, Linked wire client up k ∧ Stops wire client up s.position k := by
  rw [exists_comm]
  simp only [fetchAll_iff htoken, ← ends_iff_stops]
  constructor
  · rintro ⟨result, k, hlinked, hend⟩
    exact ⟨k, hlinked, result, hend⟩
  · rintro ⟨k, hlinked, result, hend⟩
    exact ⟨result, k, hlinked, hend⟩

/-- Only pages that come to an end are fetched with finitely many requests. -/
theorem sent_bounded_iff (htoken : client.token ≠ "") :
    (∃ bound, ∀ fuel, (fetchAll wire client up fuel s).1.sent ≤ bound) ↔
      ∃ k, Linked wire client up k ∧ Stops wire client up s.position k := by
  constructor
  · rintro ⟨bound, hbound⟩
    by_contra hnone
    push Not at hnone
    have hmore := unended hnone (bound + 1)
    have hless := hbound (bound + 1)
    rw [fetchAll_tokened htoken] at hless
    omega
  · intro hstops
    obtain ⟨ended, result, hend⟩ := (fetchAll_ends_iff htoken).2 hstops
    rw [fetchAll_tokened htoken] at hend
    simp only [fetchAll_tokened htoken]
    exact sent_le_of_ended hend

/-- What is returned is at most the limit, with each species once. -/
theorem fetchAll_records {fuel : ℕ} {records : List SpeciesRecord}
    (h : (fetchAll wire client up fuel s).2 = some (.ok records)) :
    (records.map (·.speciesId)).Nodup ∧ records.length ≤ client.speciesLimit := by
  by_cases htoken : client.token = ""
  · rw [fetchAll_untokened htoken] at h
    cases h
    exact ⟨List.nodup_nil, Nat.zero_le _⟩
  · obtain ⟨k, _, position, hwalk, _⟩ := (fetchAll_iff htoken).1 ⟨fuel, h⟩
    have hrecords := (found_of_visits hwalk).1
    dsimp only at hrecords
    rw [hrecords]
    refine ⟨(nodup_firsts _).sublist ((List.take_sublist _ _).map _), ?_⟩
    rw [List.length_take]
    exact Nat.min_le_left _ _

end

/-- `fetch_all` makes finitely many requests if and only if it has no token or its pages come to an end, and then
it returns or raises; what it returns is at most the limit, with each species once. -/
theorem fetchAll_finite {Body V : Type} (wire : Wire Body V) (client : Client) (up : Upstream Body) (s : Session) :
    ((∃ bound, ∀ fuel, (fetchAll wire client up fuel s).1.sent ≤ bound) ↔
      client.token = "" ∨ ∃ k, Linked wire client up k ∧ Stops wire client up s.position k) ∧
    ((∃ fuel result, (fetchAll wire client up fuel s).2 = some result) ↔
      client.token = "" ∨ ∃ k, Linked wire client up k ∧ Stops wire client up s.position k) ∧
    ∀ fuel records, (fetchAll wire client up fuel s).2 = some (.ok records) →
      (records.map (·.speciesId)).Nodup ∧ records.length ≤ client.speciesLimit := by
  refine ⟨?_, ?_, fun fuel records h => fetchAll_records h⟩
  · by_cases htoken : client.token = ""
    · refine iff_of_true ⟨s.sent, fun fuel => ?_⟩ (.inl htoken)
      rw [fetchAll_untokened htoken]
    · rw [or_iff_right htoken]
      exact sent_bounded_iff htoken
  · by_cases htoken : client.token = ""
    · exact iff_of_true ⟨0, .ok [], by rw [fetchAll_untokened htoken]⟩ (.inl htoken)
    · rw [or_iff_right htoken]
      exact fetchAll_ends_iff htoken

/-! ## An upstream without an end -/

/-- Bodies as what they are parsed to: a list page or a detail. -/
def catalogue : Wire (ListResponse ⊕ SpeciesDetail) (ListResponse ⊕ SpeciesDetail) where
  json := some
  listResponse := Sum.getLeft?
  detailResponse := Sum.getRight?
  speciesIdFor slug := if slug = "ficus-lyrata" then 194102090553784053605851244599989127421 else 0

def ficus : SpeciesDetail := ⟨"ficus-lyrata", ['F', 'i', 'c', 'u', 's'], none, none⟩

def ficusRecord : SpeciesRecord :=
  ⟨194102090553784053605851244599989127421, ['F', 'i', 'c', 'u', 's'], ['F', 'i', 'c', 'u', 's'], .weekly, .medium⟩

/-- A client that keeps `speciesLimit` records, with a breaker that opens after `failureThreshold` failures. -/
def clientOf (speciesLimit failureThreshold : ℕ) (h : 1 ≤ failureThreshold) : Client where
  token := "token"
  speciesLimit := speciesLimit
  maxAttempts := 3
  breaker := ⟨failureThreshold, seconds 300, h, by decide⟩

/-- Every page lists the same species and links to a next one. -/
def endless : Upstream (ListResponse ⊕ SpeciesDetail) where
  list _ _ := .response 200 (.inl ⟨["ficus-lyrata"], some "/api/v1/species"⟩)
  detail _ _ _ := .response 200 (.inr ficus)
  before _ := 0
  after _ := 0

/-- With the one species found, a turn of the loop sends two requests and finds nothing. -/
theorem endless_sent (h : 1 ≤ 5) : ∀ fuel page calls sent : ℕ, sent + fuel ≤
    (pages catalogue (clientOf 2 5 h) endless fuel page [ficusRecord] ⟨.new, calls, sent⟩).1.sent
  | 0, _, _, sent => Nat.le_refl sent
  | fuel + 1, page, calls, sent => by
    have hturn := endless_sent h fuel (page + 1) (calls + 2) (sent + 2)
    exact Nat.le_trans (by omega) hturn

/-- A page that repeats a species and links on is followed by the next without end. -/
theorem fetchAll_endless : ¬ ∃ bound, ∀ fuel,
    (fetchAll catalogue (clientOf 2 5 (by decide)) endless fuel ⟨.new, 0, 0⟩).1.sent ≤ bound := by
  rintro ⟨bound, hbound⟩
  have hmore := endless_sent (by decide) bound 2 2 2
  have hless : (pages catalogue (clientOf 2 5 (by decide)) endless bound 2 [ficusRecord] ⟨.new, 2, 2⟩).1.sent ≤ bound :=
    hbound (bound + 1)
  omega

end Plantkeeper.External.Trefle
