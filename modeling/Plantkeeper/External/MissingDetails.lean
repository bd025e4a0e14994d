/-
When `fetch_all` returns the first records of the upstream. A missing detail is skipped by the client and
counted by the breaker below it: once as many details in a row are missing as the breaker allows failures,
the next request is rejected unless the reset timeout has passed since. A fetch returns its records exactly
where this does not happen and everything it asks for can be read.
-/
import Plantkeeper.External.Paging

namespace Plantkeeper.External.Trefle

open Plantkeeper.Fold Plantkeeper.Saga

/-- How many of the last requests in a row were for missing details. -/
def streak (os : List Outcome) : ℕ := (os.reverse.takeWhile Outcome.isMissing).length

theorem streak_concat (os : List Outcome) (o : Outcome) :
    streak (os ++ [o]) = if o.isMissing then streak os + 1 else 0 := by
  unfold streak
  rw [List.reverse_append, List.reverse_singleton, List.singleton_append, List.takeWhile_cons]
  split <;> rfl

section

variable {Body V : Type} (wire : Wire Body V) (client : Client) (up : Upstream Body)

/-- After too many missing details in a row, the reset timeout has passed between the last of them and the next
request. -/
def Waited (os : List Outcome) : Prop :=
  client.breaker.failureThreshold ≤ streak os →
    client.breaker.resetTimeout ≤ up.before os.length - up.after (os.length - 1)

instance decidableWaited (os : List Outcome) : Decidable (Waited client up os) :=
  inferInstanceAs (Decidable (_ → _))

/-- Each request of the first `k` pages that is asked for before there are enough records has waited, and can be
read. -/
def Uninterrupted (k : ℕ) : Prop :=
  ∀ j (h : j < (outcomes wire client up k).length),
    (recordsOf ((outcomes wire client up k).take j)).length < client.speciesLimit →
      Waited client up ((outcomes wire client up k).take j) ∧ (outcomes wire client up k)[j].raises = false

instance decidableUninterrupted (k : ℕ) : Decidable (Uninterrupted wire client up k) :=
  inferInstanceAs (Decidable (∀ j (_ : j < _), _ → _))

/-- The pages come to an end with page `k`: it is the last one, or there are enough records. -/
def EndsAt (k : ℕ) : Prop :=
  Linked wire client up k ∧
    (client.speciesLimit ≤ (recordsOf (outcomes wire client up k)).length ∨ 0 < k ∧ continues wire client up k = false)

/-- A fetch with a new breaker returns the first `species_limit` distinct records in the order of the pages. -/
def ReturnsFirst : Prop :=
  ∃ fuel k, EndsAt wire client up k ∧ (fetchAll wire client up fuel ⟨.new, 0, 0⟩).2 =
    some (.ok ((recordsOf (outcomes wire client up k)).take client.speciesLimit))

variable {wire client up} {os done : List Outcome} {o : Outcome}

/-! ## The breaker and the streak -/

/-- A new breaker after the requests: it counts the streak, and is open once that reaches the threshold. -/
def breakerAfter (client : Client) (up : Upstream Body) (os : List Outcome) : CircuitBreaker :=
  if streak os < client.breaker.failureThreshold then ⟨.closed, streak os, none, false⟩
  else ⟨.opened, client.breaker.failureThreshold, some (up.after (os.length - 1)), false⟩

theorem admits_breakerAfter :
    Position.admits client up ⟨breakerAfter client up os, os.length⟩ = true ↔ Waited client up os := by
  unfold Position.admits breakerAfter Waited
  by_cases hlt : streak os < client.breaker.failureThreshold
  · have hnot : ¬ client.breaker.failureThreshold ≤ streak os := Nat.not_le_of_lt hlt
    simp [hlt, hnot, CircuitBreaker.beforeCall, CircuitBreaker.effectiveState]
  · have hle : client.breaker.failureThreshold ≤ streak os := Nat.le_of_not_lt hlt
    by_cases hwait : client.breaker.resetTimeout ≤ up.before os.length - up.after (os.length - 1)
    · simp [hlt, hwait, CircuitBreaker.beforeCall, CircuitBreaker.effectiveState]
    · simp [hlt, hle, hwait, CircuitBreaker.beforeCall, CircuitBreaker.effectiveState]

/-- A request that has waited leads from one such breaker to the next: a failed trial is one more of the streak. -/
theorem next_breakerAfter (hwait : Waited client up os) (o : Outcome) :
    Position.next client up ⟨breakerAfter client up os, os.length⟩ o =
      ⟨breakerAfter client up (os ++ [o]), (os ++ [o]).length⟩ := by
  have hpos := client.breaker.threshold_pos
  have hlen : (os ++ [o]).length - 1 = os.length := by simp
  unfold Position.next breakerAfter
  rw [streak_concat, hlen]
  cases hmissing : o.isMissing with
  | false => simp [CircuitBreaker.recordSuccess, Nat.lt_of_lt_of_le Nat.zero_lt_one hpos]
  | true =>
    by_cases hlt : streak os < client.breaker.failureThreshold
    · by_cases hreached : client.breaker.failureThreshold ≤ streak os + 1
      · have hnot : ¬ streak os + 1 < client.breaker.failureThreshold := Nat.not_lt_of_le hreached
        simp [hlt, hreached, hnot, CircuitBreaker.beforeCall, CircuitBreaker.effectiveState,
          CircuitBreaker.recordFailure, CircuitBreaker.doOpen]
      · have hless : streak os + 1 < client.breaker.failureThreshold := Nat.lt_of_not_le hreached
        simp [hlt, hreached, hless, CircuitBreaker.beforeCall, CircuitBreaker.effectiveState,
          CircuitBreaker.recordFailure]
    · have hle : client.breaker.failureThreshold ≤ streak os := Nat.le_of_not_lt hlt
      have hnot : ¬ streak os + 1 < client.breaker.failureThreshold := by omega
      have hreset := hwait hle
      simp [hlt, hnot, hreset, CircuitBreaker.beforeCall, CircuitBreaker.effectiveState,
        CircuitBreaker.recordFailure, CircuitBreaker.doOpen]

/-- If every request has waited, the breaker is the one of the streak. -/
theorem position_eq : (∀ j < os.length, Waited client up (os.take j)) →
    os.foldl (Position.next client up) ⟨.new, 0⟩ = ⟨breakerAfter client up os, os.length⟩ := by
  induction os using List.reverseRecOn with
  | nil =>
    intro _
    have hpos : 0 < client.breaker.failureThreshold := client.breaker.threshold_pos
    simp [breakerAfter, streak, hpos, CircuitBreaker.new]
  | append_singleton os o ih =>
    intro hwait
    have hbefore : ∀ j < os.length, Waited client up (os.take j) := by
      intro j hj
      have hj' : j < (os ++ [o]).length := by
        rw [List.length_append]
        omega
      have hw := hwait j hj'
      rwa [List.take_append_of_le_length (Nat.le_of_lt hj)] at hw
    have hlast : Waited client up os := by
      have hw := hwait os.length (by simp)
      rwa [List.take_left] at hw
    rw [List.foldl_append, ih hbefore]
    exact next_breakerAfter hlast o

/-! ## Fetches -/

theorem length_recordsOf_take (os : List Outcome) {i j : ℕ} (h : i ≤ j) :
    (recordsOf (os.take i)).length ≤ (recordsOf (os.take j)).length := by
  induction j, h using Nat.le_induction with
  | base => exact Nat.le_refl _
  | succ j _ ih =>
    refine Nat.le_trans ih ?_
    rcases Nat.lt_or_ge j os.length with hj | hj
    · rw [← List.take_append_getElem hj, recordsOf_concat]
      cases (os[j]).record with
      | none => exact Nat.le_refl _
      | some r => exact le_length_setdefault _ r
    · rw [List.take_of_length_le hj, List.take_of_length_le (Nat.le_succ_of_le hj)]

/-- No request of the walk fails if and only if each that is asked for has waited and can be read. -/
theorem uninterrupted_iff {k : ℕ} : Uninterrupted wire client up k ↔
    ∀ j (h : j < (outcomes wire client up k).length),
      ¬ Fails client up ⟨.new, 0⟩ ((outcomes wire client up k).take j) (outcomes wire client up k)[j] := by
  unfold Uninterrupted Fails
  generalize outcomes wire client up k = os
  -- where the requests before `j` have waited, the breaker admits `j` if it has waited
  have hadmits : ∀ j < os.length, (∀ i < j, Waited client up (os.take i)) →
      (((os.take j).foldl (Position.next client up) ⟨.new, 0⟩).admits client up = true ↔ Waited client up (os.take j)) := by
    intro j hj hbefore
    have hprefixes : ∀ i < (os.take j).length, Waited client up ((os.take j).take i) := by
      intro i hi
      rw [List.length_take] at hi
      rw [List.take_take, Nat.min_eq_left (by omega)]
      exact hbefore i (by omega)
    rw [position_eq hprefixes]
    exact admits_breakerAfter
  constructor
  · intro h j hj ⟨hfew, hbad⟩
    have hbefore : ∀ i < j, Waited client up (os.take i) := fun i hi =>
      (h i (Nat.lt_trans hi hj) (Nat.lt_of_le_of_lt (length_recordsOf_take os (Nat.le_of_lt hi)) hfew)).1
    obtain ⟨hwait, hread⟩ := h j hj hfew
    rcases hbad with hbad | hbad
    · rw [(hadmits j hj hbefore).2 hwait] at hbad
      cases hbad
    · rw [hread] at hbad
      cases hbad
  · intro h j
    induction j using Nat.strong_induction_on with
    | _ j ih =>
      intro hj hfew
      have hbefore : ∀ i < j, Waited client up (os.take i) := fun i hi =>
        (ih i hi (Nat.lt_trans hi hj) (Nat.lt_of_le_of_lt (length_recordsOf_take os (Nat.le_of_lt hi)) hfew)).1
      have hok := h j hj
      rw [not_and_or, not_or] at hok
      obtain ⟨hadmitted, hread⟩ := hok.resolve_left (fun hn => hn hfew)
      rw [Bool.not_eq_false] at hadmitted
      exact ⟨(hadmits j hj hbefore).1 hadmitted, by simpa using hread⟩

end

/-- A client with a token returns the first `species_limit` distinct records if and only if the pages come to an
end and no run of missing details reaches the threshold before a request that has not waited, and everything
asked for can be read. -/
theorem fetchAll_returns_iff {Body V : Type} (wire : Wire Body V) (client : Client) (up : Upstream Body)
    (htoken : client.token ≠ "") : ReturnsFirst wire client up ↔
      ∃ k, EndsAt wire client up k ∧ Uninterrupted wire client up k := by
  have hwalk : ∀ k, (∃ q, walk wire client up ⟨.new, 0⟩ k = .ok q) ↔ Uninterrupted wire client up k := by
    intro k
    rw [walk_ok_iff, uninterrupted_iff]
    exact forall_split (P := fun done o => ¬ Fails client up ⟨.new, 0⟩ done o)
  constructor
  · rintro ⟨fuel, _, _, h⟩
    obtain ⟨k, hlinked, position, hok, hend⟩ := (fetchAll_iff htoken).1 ⟨fuel, h⟩
    have hrecords := (found_of_visits hok).1
    refine ⟨k, ⟨hlinked, ?_⟩, (hwalk k).1 ⟨_, hok⟩⟩
    dsimp only at hrecords
    rw [hrecords, List.length_take] at hend
    exact hend.imp (fun hle => by omega) id
  · rintro ⟨k, ⟨hlinked, hend⟩, hun⟩
    obtain ⟨q, hok⟩ := (hwalk k).2 hun
    have hrecords := (found_of_visits hok).1
    have hends : Ends wire client up ⟨.new, 0⟩ k (.ok q.records) := by
      refine ⟨q.position, hok, hend.imp (fun hle => ?_) id⟩
      rw [hrecords, List.length_take]
      omega
    obtain ⟨fuel, h⟩ := (fetchAll_iff (s := ⟨.new, 0, 0⟩) htoken).2 ⟨k, hlinked, hends⟩
    exact ⟨fuel, k, ⟨hlinked, hend⟩, by rw [h, hrecords]⟩

/-- A page of three species, the first two without a detail. -/
def gaps : Upstream (ListResponse ⊕ SpeciesDetail) where
  list _ _ := .response 200 (.inl ⟨["acer-campestre", "alnus-incana", "ficus-lyrata"], none⟩)
  detail _ index _ := .response (if index < 2 then 404 else 200) (.inr ficus)
  before _ := 0
  after _ := 0

/-- With a threshold of three the two are skipped. -/
theorem fetchAll_returns_gaps : ReturnsFirst catalogue (clientOf 1 3 (by decide)) gaps :=
  (fetchAll_returns_iff catalogue (clientOf 1 3 (by decide)) gaps (by decide)).2
    ⟨1, ⟨fun p hp => absurd hp (by omega), .inr ⟨Nat.one_pos, by decide +kernel⟩⟩, by decide +kernel⟩

/-- With a threshold of two they open the breaker, and the third species is not asked for. -/
theorem gaps_circuitOpen : (∀ page attempt, ∃ body, gaps.list page attempt = .response 200 body) ∧
    (∀ page index attempt, ∃ body, gaps.detail page index attempt = .response 200 body ∨
      gaps.detail page index attempt = .response 404 body) ∧
    ¬ ReturnsFirst catalogue (clientOf 1 2 (by decide)) gaps := by
  refine ⟨fun _ _ => ⟨_, rfl⟩, fun page index attempt => ⟨.inr ficus, ?_⟩, ?_⟩
  · by_cases hindex : index < 2
    · exact .inr (by simp only [gaps, if_pos hindex])
    · exact .inl (by simp only [gaps, if_neg hindex])
  · rintro ⟨fuel, k, _, h⟩
    cases fuel with
    | zero => cases h
    | succ fuel =>
      have hraises : (fetchAll catalogue (clientOf 1 2 (by decide)) gaps (fuel + 1) ⟨.new, 0, 0⟩).2 =
          some (.error .circuitOpen) := rfl
      rw [hraises] at h
      cases h

end Plantkeeper.External.Trefle
