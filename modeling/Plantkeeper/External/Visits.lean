/-
A fetch as a walk over the outcomes of its requests. The pages and their entries are asked for in one
order, whatever the breaker does, so a fetch is a fold over the outcomes of the first `k` pages that stops
at the first request that is rejected or raises and asks for nothing more once it has enough records.
-/
import Mathlib.Data.List.Nodup
import Plantkeeper.External.Trefle
import Plantkeeper.Lib.Fold

namespace Plantkeeper.External.Trefle

open Plantkeeper.Fold Plantkeeper.Saga

/-! ## Outcomes -/

/-- What a request comes to if the breaker lets it through: an answer, with the record if it is a detail that can
be mapped; a missing detail; or an exception that ends the fetch. -/
inductive Outcome
  | answered (record : Option SpeciesRecord)
  | missing
  | raised (e : Error)
  deriving DecidableEq

def Outcome.record : Outcome → Option SpeciesRecord
  | .answered record => record
  | .missing | .raised _ => none

def Outcome.raises : Outcome → Bool
  | .raised _ => true
  | .answered _ | .missing => false

def Outcome.isMissing : Outcome → Bool
  | .missing => true
  | .answered _ | .raised _ => false

section

variable {Body V : Type} (wire : Wire Body V) (client : Client) (up : Upstream Body)

def pageOutcome (page : ℕ) : Outcome :=
  match (operation client (up.list page)).2 with
  | .error e => .raised e.translate
  | .ok body =>
    match parseList wire body with
    | .error e => .raised e
    | .ok _ => .answered none

def detailOutcome (page index : ℕ) : Outcome :=
  match (operation client (up.detail page index)).2 with
  | .error e => if e.translate = .trefleRecordMissing then .missing else .raised e.translate
  | .ok body =>
    match parseDetail wire body with
    | .error e => .raised e
    | .ok record => .answered record

/-- The page as it is answered, if it can be read. -/
def response (page : ℕ) : Option ListResponse :=
  match (operation client (up.list page)).2 with
  | .error _ => none
  | .ok body =>
    match parseList wire body with
    | .error _ => none
    | .ok payload => some payload

def entries (page : ℕ) : ℕ := (response wire client up page).elim 0 fun payload => payload.data.length

/-- Whether a page has entries and a link to the next. -/
def continues (page : ℕ) : Bool := (response wire client up page).any ListResponse.continues

/-- The outcomes of a page and its entries. -/
def outcomesOf (page : ℕ) : List Outcome :=
  pageOutcome wire client up page ::
    (List.range (entries wire client up page)).map (detailOutcome wire client up page)

/-- The outcomes of the first `k` pages. -/
def outcomes (k : ℕ) : List Outcome := (List.range k).flatMap fun p => outcomesOf wire client up (p + 1)

/-! ## The records -/

/-- The first record of each species, in order. -/
def firsts (records : List SpeciesRecord) : List SpeciesRecord := records.foldl setdefault []

/-- The records the outcomes can be mapped to, one for each species. -/
def recordsOf (os : List Outcome) : List SpeciesRecord := firsts (os.filterMap Outcome.record)

/-! ## Visits -/

/-- The breaker before each request and how many were made. -/
structure Position where
  breaker : CircuitBreaker
  calls : ℕ
  deriving DecidableEq

/-- Whether the breaker lets the next request through. -/
def Position.admits (p : Position) : Bool := (p.breaker.beforeCall client.breaker (up.before p.calls)).2

/-- The position after a request that was let through. -/
def Position.next (p : Position) (o : Outcome) : Position :=
  let b := (p.breaker.beforeCall client.breaker (up.before p.calls)).1
  ⟨if o.isMissing then b.recordFailure client.breaker (up.after p.calls) else CircuitBreaker.recordSuccess, p.calls + 1⟩

structure Progress where
  records : List SpeciesRecord
  position : Position
  deriving DecidableEq

/-- One request of the walk. -/
def visit (p : Progress) (o : Outcome) : Except Error Progress :=
  if client.speciesLimit ≤ p.records.length then .ok p
  else if !p.position.admits client up then .error .circuitOpen
  else
    match o with
    | .raised e => .error e
    | .answered _ | .missing => .ok ⟨o.record.elim p.records (setdefault p.records), p.position.next client up o⟩

def Session.position (s : Session) : Position := ⟨s.breaker, s.calls⟩

variable {wire client up} {s s' : Session} {records : List SpeciesRecord}

@[simp] theorem position_breaker : s.position.breaker = s.breaker := rfl

@[simp] theorem position_calls : s.position.calls = s.calls := rfl

@[simp] theorem position_mk (b : CircuitBreaker) (calls sent : ℕ) : (Session.mk b calls sent).position = ⟨b, calls⟩ := rfl

theorem visit_enough {p : Progress} (h : client.speciesLimit ≤ p.records.length) (o : Outcome) :
    visit client up p o = .ok p := by
  unfold visit
  rw [if_pos h]

theorem foldlM_visit_enough {p : Progress} (h : client.speciesLimit ≤ p.records.length) :
    ∀ os : List Outcome, os.foldlM (visit client up) p = .ok p
  | [] => rfl
  | o :: os => by
    rw [List.foldlM_cons, visit_enough h]
    exact foldlM_visit_enough h os

/-! ## The client walks -/

/-- A request of the breaker: rejected, or let through with the outcome of the operation. -/
theorem get_eq (answers : ℕ → Answer Body) (s : Session) : get client up answers s =
    if s.position.admits client up then
      match (operation client answers).2 with
      | .ok body => (⟨CircuitBreaker.recordSuccess, s.calls + 1, s.sent + (operation client answers).1⟩, .ok body)
      | .error e =>
        (⟨((s.breaker.beforeCall client.breaker (up.before s.calls)).1).recordFailure client.breaker (up.after s.calls),
          s.calls + 1, s.sent + (operation client answers).1⟩, .error e.translate)
    else (⟨(s.breaker.beforeCall client.breaker (up.before s.calls)).1, s.calls + 1, s.sent⟩, .error .circuitOpen) := by
  unfold get Position.admits Session.position CircuitBreaker.call
  cases hb : s.breaker.beforeCall client.breaker (up.before s.calls) with
  | mk b admitted =>
    cases admitted with
    | false => rfl
    | true => cases h : (operation client answers).2 <;> simp [h, Except.mapError]

theorem withRetry_pos (answers : ℕ → Answer Body) : ∀ left attempt, attempt < (withRetry answers left attempt).1
  | 0, attempt => by
    unfold withRetry
    split <;> simp_all
  | left + 1, attempt => by
    unfold withRetry
    split
    · exact Nat.lt_succ_self _
    · exact Nat.lt_succ_self _
    · rename_i left' _ hleft
      cases hleft
      split
      · exact Nat.lt_of_succ_lt (withRetry_pos answers left (attempt + 1))
      · exact Nat.lt_succ_self _

/-- A request that is let through is sent at least once. -/
theorem get_sent {answers : ℕ → Answer Body} {body : Body} (h : get client up answers s = (s', .ok body)) :
    s.sent < s'.sent := by
  have hpos : 0 < (operation client answers).1 := withRetry_pos answers _ _
  rw [get_eq] at h
  split at h
  · split at h
    · cases h
      exact Nat.lt_add_of_pos_right hpos
    · cases h
  · cases h

theorem get_mono (answers : ℕ → Answer Body) (s : Session) : s.sent ≤ (get client up answers s).1.sent := by
  rw [get_eq]
  split
  · split
    · exact Nat.le_add_right _ _
    · exact Nat.le_add_right _ _
  · exact Nat.le_refl _

/-- The list request is the visit of the page. -/
theorem listPage_visit (hlt : records.length < client.speciesLimit) (page : ℕ) (s : Session) :
    visit client up ⟨records, s.position⟩ (pageOutcome wire client up page) =
      match listPage wire client up page s with
      | (s', .ok _) => .ok ⟨records, s'.position⟩
      | (_, .error e) => .error e := by
  unfold visit listPage pageOutcome
  rw [if_neg (Nat.not_le_of_lt hlt), get_eq]
  by_cases hadmits : s.position.admits client up
  · rw [if_pos hadmits]
    cases hop : (operation client (up.list page)).2 with
    | error e => simp [hadmits]
    | ok body =>
      cases hparse : parseList wire body with
      | error e => simp [hadmits, hparse]
      | ok payload => simp [hadmits, hparse, Outcome.record, Position.next, Outcome.isMissing]
  · simp [hadmits]

/-- The detail request is the visit of the entry. -/
theorem recordFor_visit (hlt : records.length < client.speciesLimit) (page index : ℕ) (s : Session) :
    visit client up ⟨records, s.position⟩ (detailOutcome wire client up page index) =
      match recordFor wire client up page index s with
      | (s', .ok record) => .ok ⟨record.elim records (setdefault records), s'.position⟩
      | (_, .error e) => .error e := by
  unfold visit recordFor detailOutcome
  rw [if_neg (Nat.not_le_of_lt hlt), get_eq]
  by_cases hadmits : s.position.admits client up
  · rw [if_pos hadmits]
    cases hop : (operation client (up.detail page index)).2 with
    | error e =>
      by_cases hmissing : e.translate = .trefleRecordMissing
      · simp [hadmits, hmissing, Outcome.record, Position.next, Outcome.isMissing]
      · simp [hadmits, hmissing]
    | ok body =>
      cases hparse : parseDetail wire body with
      | error e => simp [hadmits, hparse]
      | ok record => simp [hadmits, hparse, Outcome.record, Position.next, Outcome.isMissing]
  · simp [hadmits]

theorem listPage_ok {page : ℕ} {payload : ListResponse} (h : listPage wire client up page s = (s', .ok payload)) :
    response wire client up page = some payload ∧ s.sent < s'.sent := by
  unfold listPage at h
  split at h
  · cases h
  · rename_i t body hget
    have hsent := get_sent hget
    obtain ⟨rfl, hparse⟩ := Prod.mk.inj h
    refine ⟨?_, hsent⟩
    rw [get_eq] at hget
    split at hget
    · split at hget
      · rename_i hop
        cases hget
        unfold response
        rw [hop]
        simp only [hparse]
      · cases hget
    · cases hget

theorem recordFor_mono (page index : ℕ) (s : Session) : s.sent ≤ (recordFor wire client up page index s).1.sent := by
  have hmono : s.sent ≤ (get client up (up.detail page index) s).1.sent := get_mono _ s
  unfold recordFor
  split
  all_goals
    rename_i hget
    rw [hget] at hmono
    exact hmono

/-- The loop over the entries is the walk over their outcomes. -/
theorem items_visits (page : ℕ) : ∀ (data : List String) (index : ℕ) (records : List SpeciesRecord) (s : Session),
    ((List.range' index data.length).map (detailOutcome wire client up page)).foldlM (visit client up)
        ⟨records, s.position⟩ =
      match items wire client up page data index records s with
      | (s', .ok records) => .ok ⟨records, s'.position⟩
      | (_, .error e) => .error e
  | [], _, _, _ => rfl
  | _ :: rest, index, records, s => by
    rw [List.length_cons, List.range'_succ, List.map_cons, List.foldlM_cons]
    unfold items
    by_cases hle : client.speciesLimit ≤ records.length
    · rw [visit_enough hle, if_pos hle]
      exact foldlM_visit_enough hle _
    · rw [recordFor_visit (Nat.lt_of_not_le hle), if_neg hle]
      split
      · rename_i s' record hrecord
        rw [hrecord]
        exact items_visits page rest (index + 1) _ s'
      · rename_i s' e hrecord
        rw [hrecord]
        rfl

theorem items_mono (page : ℕ) : ∀ (data : List String) (index : ℕ) (records : List SpeciesRecord) (s : Session),
    s.sent ≤ (items wire client up page data index records s).1.sent
  | [], _, _, _ => Nat.le_refl _
  | _ :: rest, index, records, s => by
    have hmono : s.sent ≤ (recordFor wire client up page index s).1.sent := recordFor_mono page index s
    unfold items
    split
    · exact Nat.le_refl _
    · split
      · rename_i hrecord
        rw [hrecord] at hmono
        exact hmono
      · rename_i s' record hrecord
        rw [hrecord] at hmono
        exact Nat.le_trans hmono (items_mono page rest (index + 1) _ s')

/-! ## Pages -/

theorem pages_enough (h : client.speciesLimit ≤ records.length) (fuel page : ℕ) (s : Session) :
    pages wire client up (fuel + 1) page records s = (s, some (.ok records)) := by
  unfold pages
  rw [if_pos h]

/-- A page whose outcomes are walked is turned: its next is asked for, or the fetch returns. -/
theorem pages_turn {page : ℕ} {q : Progress} (hlt : records.length < client.speciesLimit)
    (h : (outcomesOf wire client up page).foldlM (visit client up) ⟨records, s.position⟩ = .ok q) :
    ∃ s', s'.position = q.position ∧ s.sent < s'.sent ∧ ∀ fuel, pages wire client up (fuel + 1) page records s =
      if continues wire client up page then pages wire client up fuel (page + 1) q.records s'
      else (s', some (.ok q.records)) := by
  obtain ⟨⟨records₁, position₁⟩, hvisit, hitems⟩ := foldlM_cons_ok.1 h
  rw [listPage_visit hlt] at hvisit
  split at hvisit
  · rename_i s₁ payload hlist
    cases hvisit
    obtain ⟨hresponse, hsent⟩ := listPage_ok hlist
    have hlen : entries wire client up page = payload.data.length := by
      unfold entries
      rw [hresponse]; rfl
    have hcont : continues wire client up page = payload.continues := by
      unfold continues
      rw [hresponse]; rfl
    rw [hlen, List.range_eq_range', items_visits] at hitems
    have hmono : s₁.sent ≤ (items wire client up page payload.data 0 records s₁).1.sent := items_mono page _ 0 records s₁
    split at hitems
    · rename_i s₂ records₂ hloop
      cases hitems
      rw [hloop] at hmono
      refine ⟨s₂, rfl, Nat.lt_of_lt_of_le hsent hmono, fun fuel => ?_⟩
      conv_lhs => unfold pages
      rw [if_neg (Nat.not_le_of_lt hlt), hlist, hcont]
      simp only [hloop]
      by_cases hdata : payload.data = []
      · -- an empty page ends the fetch, and has no entries to ask for
        rw [hdata] at hloop
        cases hloop
        simp [hdata, ListResponse.continues]
      · rw [if_neg hdata]
        simp [ListResponse.continues, hdata]
    · cases hitems
  · cases hvisit

theorem pages_turn_error {page : ℕ} {e : Error} (hlt : records.length < client.speciesLimit)
    (h : (outcomesOf wire client up page).foldlM (visit client up) ⟨records, s.position⟩ = .error e) (fuel : ℕ) :
    (pages wire client up (fuel + 1) page records s).2 = some (.error e) := by
  unfold pages
  rw [if_neg (Nat.not_le_of_lt hlt)]
  unfold outcomesOf at h
  rw [List.foldlM_cons, listPage_visit hlt] at h
  split
  · rename_i s₁ e₁ hlist
    rw [hlist] at h
    cases h; rfl
  · rename_i s₁ payload hlist
    rw [hlist] at h
    have hlen : entries wire client up page = payload.data.length := by
      unfold entries
      rw [(listPage_ok hlist).1]; rfl
    change ((List.range (entries wire client up page)).map _).foldlM _ (⟨records, s₁.position⟩ : Progress) = _ at h
    rw [hlen, List.range_eq_range', items_visits] at h
    split at h
    · cases h
    · rename_i s₂ e₂ hloop
      cases h
      have hdata : payload.data ≠ [] := by
        rintro hnil
        rw [hnil] at hloop
        cases hloop
      rw [if_neg hdata, hloop]

theorem outcomes_succ (k : ℕ) : outcomes wire client up (k + 1) =
    outcomes wire client up k ++ outcomesOf wire client up (k + 1) := by
  unfold outcomes
  rw [List.range_succ, List.flatMap_append, List.flatMap_singleton]

/-- The first `k - 1` pages have entries and a link. -/
def Linked (wire : Wire Body V) (client : Client) (up : Upstream Body) (k : ℕ) : Prop :=
  ∀ p, p + 1 < k → continues wire client up (p + 1) = true

/-- The walk over the first `k` pages. -/
def walk (wire : Wire Body V) (client : Client) (up : Upstream Body) (start : Position) (k : ℕ) : Except Error Progress :=
  (outcomes wire client up k).foldlM (visit client up) ⟨[], start⟩

theorem walk_succ {start : Position} {k : ℕ} {q : Progress} : walk wire client up start (k + 1) = .ok q ↔
    ∃ d, walk wire client up start k = .ok d ∧ (outcomesOf wire client up (k + 1)).foldlM (visit client up) d = .ok q := by
  unfold walk
  rw [outcomes_succ, foldlM_append_ok]

/-- A walk that has raised stays where it is. -/
theorem walk_succ_error {start : Position} {k : ℕ} {e : Error} (h : walk wire client up start k = .error e) :
    walk wire client up start (k + 1) = .error e := by
  unfold walk at *
  rw [outcomes_succ]
  exact foldlM_append_error _ h

/-- As long as the pages are linked and the records too few, the fetch is where the walk is. -/
theorem pages_walk : ∀ {k : ℕ} {q : Progress}, (∀ p < k, continues wire client up (p + 1) = true) →
    walk wire client up s.position k = .ok q → q.records.length < client.speciesLimit →
    ∃ s', s'.position = q.position ∧ s.sent + k ≤ s'.sent ∧
      ∀ fuel, pages wire client up (fuel + k) 1 [] s = pages wire client up fuel (k + 1) q.records s'
  | 0, q, _, hwalk, _ => by
    cases hwalk
    exact ⟨s, rfl, Nat.le_refl _, fun _ => rfl⟩
  | k + 1, q, hcont, hwalk, hlt => by
    obtain ⟨d, hd, hpage⟩ := walk_succ.1 hwalk
    by_cases hle : client.speciesLimit ≤ d.records.length
    · rw [foldlM_visit_enough hle] at hpage
      cases hpage
      exact absurd hle (Nat.not_le_of_lt hlt)
    · obtain ⟨s₁, hpos, hsent, hpages⟩ := pages_walk (fun p hp => hcont p (Nat.lt_succ_of_lt hp)) hd (Nat.lt_of_not_le hle)
      rw [show d = ⟨d.records, s₁.position⟩ by rw [hpos]] at hpage
      obtain ⟨s₂, hpos₂, hsent₂, hturn⟩ := pages_turn (Nat.lt_of_not_le hle) hpage
      refine ⟨s₂, hpos₂, by omega, fun fuel => ?_⟩
      rw [show fuel + (k + 1) = fuel + 1 + k by omega, hpages, hturn, if_pos (hcont k (Nat.lt_succ_self k))]

/-- The walk over the first `k` pages ends the fetch with the result. -/
def Ends (wire : Wire Body V) (client : Client) (up : Upstream Body) (start : Position) (k : ℕ) :
    Except Error (List SpeciesRecord) → Prop
  | .error e => walk wire client up start k = .error e
  | .ok records => ∃ position, walk wire client up start k = .ok ⟨records, position⟩ ∧
      (client.speciesLimit ≤ records.length ∨ 0 < k ∧ continues wire client up k = false)

/-- A fetch that has ended from a page of the walk ended with the walk. -/
theorem ends_of_pages : ∀ {fuel k : ℕ} {records : List SpeciesRecord} {s' : Session} {start : Position}
    {result : Except Error (List SpeciesRecord)}, (∀ p < k, continues wire client up (p + 1) = true) →
    walk wire client up start k = .ok ⟨records, s'.position⟩ →
    (pages wire client up fuel (k + 1) records s').2 = some result →
    ∃ k', Linked wire client up k' ∧ Ends wire client up start k' result
  | 0, _, _, _, _, _, _, _, h => by cases h
  | fuel + 1, k, records, s', start, result, hcont, hwalk, h => by
    by_cases hle : client.speciesLimit ≤ records.length
    · rw [pages_enough hle] at h
      cases h
      exact ⟨k, fun p hp => hcont p (by omega), s'.position, hwalk, .inl hle⟩
    · cases hpage : (outcomesOf wire client up (k + 1)).foldlM (visit client up) ⟨records, s'.position⟩ with
      | error e =>
        rw [pages_turn_error (Nat.lt_of_not_le hle) hpage] at h
        cases h
        refine ⟨k + 1, fun p hp => hcont p (by omega), ?_⟩
        show (outcomes wire client up (k + 1)).foldlM (visit client up) ⟨[], start⟩ = .error e
        unfold walk at hwalk
        rw [outcomes_succ, List.foldlM_append, hwalk]
        exact hpage
      | ok q =>
        have hwalk' := walk_succ.2 ⟨_, hwalk, hpage⟩
        obtain ⟨s₁, hpos, _, hturn⟩ := pages_turn (Nat.lt_of_not_le hle) hpage
        rw [hturn] at h
        split at h
        · rename_i hnext
          have hall : ∀ p < k + 1, continues wire client up (p + 1) = true := by
            intro p hp
            rcases Nat.lt_succ_iff_lt_or_eq.1 hp with hp | rfl
            · exact hcont p hp
            · exact hnext
          exact ends_of_pages hall (by rw [hwalk', hpos]) h
        · rename_i hlast
          cases h
          exact ⟨k + 1, fun p hp => hcont p (by omega), q.position, hwalk',
            .inr ⟨Nat.succ_pos k, by simpa using hlast⟩⟩

/-- A walk that ends over linked pages ends the fetch. -/
theorem pages_of_ends : ∀ {k : ℕ} {result : Except Error (List SpeciesRecord)}, Linked wire client up k →
    Ends wire client up s.position k result → ∃ fuel, (pages wire client up fuel 1 [] s).2 = some result
  | 0, .error e, _, h => by cases h
  | 0, .ok records, _, ⟨position, hwalk, hend⟩ => by
    cases hwalk
    refine ⟨1, ?_⟩
    rcases hend with hle | ⟨hk, _⟩
    · rw [pages_enough hle]
    · cases hk
  | k + 1, result, hlinked, h => by
    have hcont : ∀ p < k, continues wire client up (p + 1) = true := fun p hp => hlinked p (by omega)
    have hlinked' : Linked wire client up k := fun p hp => hcont p (by omega)
    cases hd : walk wire client up s.position k with
    | error e =>
      have herror := walk_succ_error hd
      cases result with
      | error e' =>
        have heq : Except.error e = Except.error e' := herror.symm.trans h
        cases heq
        exact pages_of_ends hlinked' hd
      | ok records =>
        obtain ⟨position, hok, _⟩ := h
        rw [herror] at hok
        cases hok
    | ok d =>
      by_cases hle : client.speciesLimit ≤ d.records.length
      · have hok : walk wire client up s.position (k + 1) = .ok d := walk_succ.2 ⟨d, hd, foldlM_visit_enough hle _⟩
        cases result with
        | error e' => exact absurd (hok.symm.trans h) (by simp)
        | ok records =>
          obtain ⟨position, hok', _⟩ := h
          rw [hok] at hok'
          cases hok'
          exact pages_of_ends hlinked' ⟨position, hd, .inl hle⟩
      · obtain ⟨s₁, hpos, _, hpages⟩ := pages_walk hcont hd (Nat.lt_of_not_le hle)
        cases result with
        | error e' =>
          have hpage : (outcomesOf wire client up (k + 1)).foldlM (visit client up) ⟨d.records, s₁.position⟩ = .error e' := by
            change (outcomes wire client up (k + 1)).foldlM (visit client up) ⟨[], s.position⟩ = .error e' at h
            unfold walk at hd
            rw [outcomes_succ, List.foldlM_append, hd] at h
            rw [hpos]
            exact h
          refine ⟨1 + k, ?_⟩
          rw [hpages]
          exact pages_turn_error (Nat.lt_of_not_le hle) hpage 0
        | ok records =>
          obtain ⟨position, hwalk, hend⟩ := h
          obtain ⟨d', hd', hpage⟩ := walk_succ.1 hwalk
          rw [hd] at hd'
          cases hd'
          rw [show d = ⟨d.records, s₁.position⟩ by rw [hpos]] at hpage
          obtain ⟨s₂, _, _, hturn⟩ := pages_turn (Nat.lt_of_not_le hle) hpage
          refine ⟨2 + k, ?_⟩
          rw [hpages, hturn]
          split
          · rename_i hnext
            rcases hend with henough | ⟨_, hlast⟩
            · rw [pages_enough henough]
            · rw [hnext] at hlast
              cases hlast
          · rfl

/-- What a configured client's fetch comes to is what the walk over some linked pages ends with. -/
theorem fetchAll_iff (htoken : client.token ≠ "") {result : Except Error (List SpeciesRecord)} :
    (∃ fuel, (fetchAll wire client up fuel s).2 = some result) ↔
      ∃ k, Linked wire client up k ∧ Ends wire client up s.position k result := by
  unfold fetchAll
  simp only [if_neg htoken]
  constructor
  · rintro ⟨fuel, h⟩
    exact ends_of_pages (k := 0) (fun p hp => absurd hp (Nat.not_lt_zero p)) rfl h
  · rintro ⟨k, hlinked, hend⟩
    exact pages_of_ends hlinked hend

/-! ## What the walk finds -/

theorem recordsOf_concat (os : List Outcome) (o : Outcome) :
    recordsOf (os ++ [o]) = o.record.elim (recordsOf os) (setdefault (recordsOf os)) := by
  unfold recordsOf firsts
  rw [List.filterMap_append]
  cases h : o.record with
  | none => simp [h]
  | some r => simp [h]

theorem length_setdefault (records : List SpeciesRecord) (r : SpeciesRecord) :
    (setdefault records r).length ≤ records.length + 1 := by
  unfold setdefault
  split
  · exact Nat.le_succ _
  · simp

theorem le_length_setdefault (records : List SpeciesRecord) (r : SpeciesRecord) :
    records.length ≤ (setdefault records r).length := by
  unfold setdefault
  split
  · exact Nat.le_refl _
  · simp

/-- No record is given up for a later one. -/
theorem take_setdefault {n : ℕ} (h : n ≤ records.length) (r : SpeciesRecord) :
    (setdefault records r).take n = records.take n := by
  unfold setdefault
  split
  · rfl
  · exact List.take_append_of_le_length h

theorem nodup_firsts (records : List SpeciesRecord) : ((firsts records).map (·.speciesId)).Nodup := by
  unfold firsts
  induction records using List.reverseRecOn with
  | nil => exact List.nodup_nil
  | append_singleton records r ih =>
    rw [List.foldl_append]
    simp only [List.foldl_cons, List.foldl_nil]
    generalize records.foldl setdefault [] = known at ih
    unfold setdefault
    split
    · exact ih
    · rename_i hnew
      refine Table.nodup_insert ih fun hmem => hnew ?_
      obtain ⟨q, hq, hid⟩ := List.mem_map.1 hmem
      exact List.any_eq_true.2 ⟨q, hq, by simpa using hid⟩

/-- A walk keeps the first records up to the limit, and until there are enough its position is the one that
every request so far led to. -/
def Found (client : Client) (up : Upstream Body) (start : Position) (os : List Outcome) (q : Progress) : Prop :=
  q.records = (recordsOf os).take client.speciesLimit ∧
    ((recordsOf os).length < client.speciesLimit → q.position = os.foldl (Position.next client up) start)

theorem found_of_visits {start : Position} {os : List Outcome} {q : Progress}
    (h : os.foldlM (visit client up) ⟨[], start⟩ = .ok q) : Found client up start os q := by
  refine foldlM_inv (P := Found client up start) ⟨List.take_nil.symm, fun _ => rfl⟩ ?_ h
  rintro done o c d ⟨hrecords, hposition⟩ hvisit
  unfold Found
  rw [recordsOf_concat]
  by_cases hle : client.speciesLimit ≤ (recordsOf done).length
  · have henough : client.speciesLimit ≤ c.records.length := by
      rw [hrecords, List.length_take]
      omega
    rw [visit_enough henough] at hvisit
    cases hvisit
    cases o.record with
    | none => exact ⟨hrecords, fun h => absurd h (Nat.not_lt_of_le hle)⟩
    | some r =>
      exact ⟨hrecords.trans (take_setdefault hle r).symm,
        fun h => absurd h (Nat.not_lt_of_le (Nat.le_trans hle (le_length_setdefault _ r)))⟩
  · have hlt : (recordsOf done).length < client.speciesLimit := Nat.lt_of_not_le hle
    rw [List.take_of_length_le (Nat.le_of_lt hlt)] at hrecords
    have hfew : ¬ client.speciesLimit ≤ c.records.length := by
      rw [hrecords]
      exact hle
    unfold visit at hvisit
    rw [if_neg hfew] at hvisit
    split at hvisit
    · cases hvisit
    · have hnext : d = ⟨o.record.elim c.records (setdefault c.records), c.position.next client up o⟩ := by
        split at hvisit
        · cases hvisit
        all_goals
          cases hvisit
          rfl
      subst hnext
      refine ⟨?_, fun _ => ?_⟩
      · rw [hrecords]
        refine (List.take_of_length_le ?_).symm
        cases o.record with
        | none => exact Nat.le_of_lt hlt
        | some r => exact Nat.le_trans (length_setdefault _ r) hlt
      · rw [List.foldl_append, ← hposition hlt]
        rfl

/-- The request after `done` is asked for and ends the fetch: the breaker rejects it or it raises. -/
def Fails (client : Client) (up : Upstream Body) (start : Position) (done : List Outcome) (o : Outcome) : Prop :=
  (recordsOf done).length < client.speciesLimit ∧
    ((done.foldl (Position.next client up) start).admits client up = false ∨ o.raises = true)

theorem visit_ok_iff {start : Position} {done : List Outcome} {d : Progress} {o : Outcome}
    (h : done.foldlM (visit client up) ⟨[], start⟩ = .ok d) :
    (∃ q, visit client up d o = .ok q) ↔ ¬ Fails client up start done o := by
  obtain ⟨hrecords, hposition⟩ := found_of_visits h
  unfold Fails
  by_cases hle : client.speciesLimit ≤ (recordsOf done).length
  · have henough : client.speciesLimit ≤ d.records.length := by
      rw [hrecords, List.length_take]
      omega
    rw [visit_enough henough]
    exact iff_of_true ⟨d, rfl⟩ fun hfails => absurd hfails.1 (Nat.not_lt_of_le hle)
  · have hlt := Nat.lt_of_not_le hle
    have hfew : ¬ client.speciesLimit ≤ d.records.length := by
      rw [hrecords, List.take_of_length_le (Nat.le_of_lt hlt)]
      exact hle
    rw [← hposition hlt]
    unfold visit
    rw [if_neg hfew]
    cases hadmits : d.position.admits client up with
    | false => simp [hlt]
    | true => cases o <;> simp [Outcome.raises, hlt]

/-- A walk succeeds if and only if no request it comes to fails. -/
theorem walk_ok_iff {start : Position} {k : ℕ} : (∃ q, walk wire client up start k = .ok q) ↔
    ∀ done o rest, outcomes wire client up k = done ++ o :: rest → ¬ Fails client up start done o := by
  unfold walk
  constructor
  · rintro ⟨q, hq⟩ done o rest hos
    rw [hos] at hq
    obtain ⟨d, hd, hrest⟩ := foldlM_append_ok.1 hq
    obtain ⟨d', hd', _⟩ := foldlM_cons_ok.1 hrest
    exact (visit_ok_iff hd).1 ⟨d', hd'⟩
  · intro h
    exact foldlM_ok_iff.2 fun done o rest hos d hd => (visit_ok_iff hd).2 (h done o rest hos)

end

end Plantkeeper.External.Trefle
