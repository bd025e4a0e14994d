/-
Recorded commands end. Once the other dispatchers are gone and their leases have lapsed, one dispatcher
alone executes or parks every recorded command that is not cancelled, whatever comes of the handlers. A
batch that finds commands claims some of them, and each report ends one or uses up one of its attempts.
-/
import Mathlib.Algebra.GroupWithZero.Nat
import Mathlib.Algebra.Order.BigOperators.Group.List
import Mathlib.Algebra.Order.Group.Nat
import Plantkeeper.Intents.Final
import Plantkeeper.Lib.Potential

namespace Plantkeeper.Intents

open Plantkeeper.Run Plantkeeper.Table

/-! ## What is left to do -/

/-- The executions a command may still take: the last of them parks it. -/
def Intent.attemptsLeft (env : Env) (r : Intent) : ℕ := if r.retryable then max 1 (env.maxAttempts - r.attempts) else 0

def attemptsLeft (env : Env) (rows : List Intent) : ℕ := (rows.map (·.attemptsLeft env)).sum

/-- How many steps a dispatcher is from its next report, or from the batch that leads to it. -/
def stepsLeft (d : Dispatcher) : ℕ :=
  if d.claims = [] then 5
  else match d.phase with
    | .ready => 4
    | .staged .. => 3
    | .conflict => 2
    | .handled => 1
    | .failed _ => 0

def potential (env : Env) (i : ℕ) (w : World) : ℕ := 6 * attemptsLeft env w.intents + stepsLeft (w.dispatchers i)

/-- A command is still to be executed. -/
def Waits (w : World) : Prop := ∃ r ∈ w.intents, r.retryable = true

/-- What the dispatcher does, uninterrupted, and with its failures recorded; and the clock goes on. -/
def OfDispatcher (i : ℕ) : Action → Prop
  | .advance _ => True
  | .claim j skipped => j = i ∧ skipped = []
  | .handle j _ | .commitHandler j _ | .readWinner j _ | .markExecuted j _ => j = i
  | .markFailed j ok => j = i ∧ ok = true
  | .recordCareSchedule .. | .recordNotification .. | .withdrawCareSchedule .. | .withdrawNotification .. | .crash _ => False

/-- A step of the dispatcher, not of the clock. -/
def isStep : Action → Bool
  | .advance _ => false
  | _ => true

theorem attemptsLeft_pos {env : Env} {r : Intent} : 0 < r.attemptsLeft env ↔ r.retryable = true := by
  unfold Intent.attemptsLeft
  split
  · simp_all
  · simp_all

/-! ## A dispatcher alone -/

structure Alone (env : Env) (i : ℕ) (w : World) : Prop where
  ids : (w.intents.map (·.id)).Nodup
  claims : ((w.dispatchers i).claims.map (·.id)).Nodup
  rows : ∀ c ∈ (w.dispatchers i).claims, ∃ r ∈ w.intents, r.id = c.id ∧ r.retryable = true
  others : ∀ r ∈ w.intents, r.retryable = true → r.id ∉ (w.dispatchers i).claims.map (·.id) →
    r.leaseExpired env.leaseSeconds w.now = true

section

variable {env : Env} {i : ℕ} {w w' : World} {c : IntentClaim} {cs : List IntentClaim}

theorem leaseExpired_mono {leaseSeconds : ℕ} {now : Instant} {r : Intent} (d : ℕ) (h : r.leaseExpired leaseSeconds now = true) :
    r.leaseExpired leaseSeconds (now + d) = true := by
  unfold Intent.leaseExpired at h ⊢
  split at h
  · rfl
  · rename_i claimedAt _
    have hlater : ∀ now c lease d : ℤ, 0 ≤ d → lease < now - c → lease < now + d - c := by omega
    simp only [decide_eq_true_eq] at h ⊢
    exact hlater now claimedAt (seconds leaseSeconds) d (Int.natCast_nonneg d) h

theorem alone_advance (h : Alone env i w) (d : ℕ) : Alone env i { w with now := w.now + d } :=
  ⟨h.ids, h.claims, h.rows, fun r hr hp hm => leaseExpired_mono d (h.others r hr hp hm)⟩

/-! ### The batch -/

theorem claimable_ids {rows : List Intent} (hids : (rows.map (·.id)).Nodup) (skipped : List ℕ) (now : Instant) (limit lease : ℕ) :
    ((claimable rows skipped now limit lease).map (·.id)).Nodup := by
  unfold claimable
  refine List.Nodup.sublist ((List.take_sublist _ _).map _) ?_
  refine ((List.perm_insertionSort _ _).map _).nodup_iff.2 ?_
  exact hids.sublist (List.filter_sublist.map _)

theorem claimable_ne_nil (hbatch : 0 < env.batchSize) {rows : List Intent} {now : Instant}
    (hlapsed : ∀ r ∈ rows, r.retryable = true → r.leaseExpired env.leaseSeconds now = true) (hwaits : ∃ r ∈ rows, r.retryable = true) :
    claimable rows [] now env.batchSize env.leaseSeconds ≠ [] := by
  obtain ⟨r, hr, hp⟩ := hwaits
  have hclaimable : r ∈ (rows.filter fun r => r.retryable && r.leaseExpired env.leaseSeconds now && decide (r.id ∉ ([] : List ℕ))).insertionSort
      fun a b : Intent => a.id ≤ b.id := by
    simp [hr, hp, hlapsed r hr hp]
  obtain ⟨q, qs, hsorted⟩ := List.exists_cons_of_ne_nil (List.ne_nil_of_mem hclaimable)
  unfold claimable
  rw [hsorted, ← Nat.succ_pred_eq_of_pos hbatch, List.take_succ_cons]
  simp

/-- A claim puts the lease on its batch and leaves the rest of every row. -/
theorem mem_markClaimed {rows : List Intent} {ids : List ℕ} {now : Instant} {r' : Intent} (h : r' ∈ markClaimed rows ids now) :
    ∃ r ∈ rows, r.id = r'.id ∧ r.retryable = r'.retryable ∧ (r.id ∉ ids → r' = r) := by
  rcases mem_update h with ⟨r, hr, hp, rfl⟩ | ⟨hr, -⟩
  · refine ⟨r, hr, rfl, rfl, fun hid => ?_⟩
    simp only [Bool.and_eq_true, decide_eq_true_eq] at hp
    exact absurd hp.1 hid
  · exact ⟨r', hr, rfl, rfl, fun _ => rfl⟩

theorem ids_markClaimed (rows : List Intent) (ids : List ℕ) (now : Instant) : (markClaimed rows ids now).map (·.id) = rows.map (·.id) :=
  map_update fun _ _ _ => rfl

theorem attemptsLeft_markClaimed (rows : List Intent) (ids : List ℕ) (now : Instant) :
    attemptsLeft env (markClaimed rows ids now) = attemptsLeft env rows :=
  congrArg List.sum (map_update fun _ _ _ => rfl)

theorem alone_claim (h : Alone env i w) (hidle : (w.dispatchers i).claims = []) : Alone env i (claim env w i []) := by
  have hd : (claim env w i []).dispatchers i = ⟨(claimable w.intents [] w.now env.batchSize env.leaseSeconds).map Intent.toClaim, .ready⟩ :=
    if_pos rfl
  have hbatch : ((claim env w i []).dispatchers i).claims.map (·.id) =
      (claimable w.intents [] w.now env.batchSize env.leaseSeconds).map (·.id) := by
    rw [hd, List.map_map]
    rfl
  refine ⟨?_, ?_, fun c hc => ?_, fun r' hr' hp hm => ?_⟩
  · exact (ids_markClaimed w.intents _ w.now).symm ▸ h.ids
  · rw [hbatch]
    exact claimable_ids h.ids ..
  · rw [hd] at hc
    obtain ⟨r, hr, rfl⟩ := List.mem_map.1 hc
    obtain ⟨hmem, hp⟩ := mem_claimable hr
    rcases mem_update_of_mem (p := fun r => decide (r.id ∈ (claimable w.intents [] w.now env.batchSize env.leaseSeconds).map Intent.id) && r.retryable)
      (f := fun r : Intent => { r with claimedAt := some w.now }) hmem with ⟨-, hset⟩ | ⟨-, hkept⟩
    · exact ⟨_, hset, rfl, hp⟩
    · exact ⟨r, hkept, rfl, hp⟩
  · rw [hbatch] at hm
    obtain ⟨r, hr, hid, hretry, hsame⟩ := mem_markClaimed hr'
    rw [hsame (hid ▸ hm)] at hp ⊢
    exact h.others r hr hp (by simp [hidle])

theorem claim_waits (hbatch : 0 < env.batchSize) (h : Alone env i w) (hidle : (w.dispatchers i).claims = []) (hwaits : Waits w) :
    stepsLeft ((claim env w i []).dispatchers i) = 4 := by
  have hne := claimable_ne_nil hbatch (fun r hr hp => h.others r hr hp (by simp [hidle])) hwaits
  have hd : (claim env w i []).dispatchers i = ⟨(claimable w.intents [] w.now env.batchSize env.leaseSeconds).map Intent.toClaim, .ready⟩ :=
    if_pos rfl
  rw [hd]
  simp [stepsLeft, hne]

/-! ### The executions -/

/-- A step of the dispatcher that is paid for. -/
structure Progress (env : Env) (i : ℕ) (w w' : World) : Prop where
  alone : Alone env i w'
  left : attemptsLeft env w'.intents ≤ attemptsLeft env w.intents
  pays : potential env i w' + 1 ≤ potential env i w

/-- The dispatcher goes on with its batch, nearer to its report. -/
theorem alone_phase (h : Alone env i w) {p : Phase} (hintents : w'.intents = w.intents) (hnow : w'.now = w.now)
    (hd : w'.dispatchers i = ⟨(w.dispatchers i).claims, p⟩) (hsteps : stepsLeft ⟨(w.dispatchers i).claims, p⟩ < stepsLeft (w.dispatchers i)) :
    Progress env i w w' := by
  refine ⟨⟨hintents.symm ▸ h.ids, by rw [hd]; exact h.claims, ?_, ?_⟩, by rw [hintents], ?_⟩
  · rw [hd, hintents]
    exact h.rows
  · rw [hd, hintents, hnow]
    exact h.others
  · unfold potential
    rw [hd, hintents]
    omega

theorem setPhase_dispatcher (w : World) (i : ℕ) (p : Phase) : (w.setPhase i p).dispatchers i = ⟨(w.dispatchers i).claims, p⟩ := if_pos rfl

/-- The end of a handler: the phase it leaves the dispatcher in, and the tables it may have written. -/
theorem alone_handler (h : Alone env i w) {v : World} {p : Phase} (hv : v.intents = w.intents ∧ v.now = w.now ∧ v.dispatchers = w.dispatchers)
    (hsteps : stepsLeft ⟨(w.dispatchers i).claims, p⟩ < stepsLeft (w.dispatchers i)) :
    Progress env i w (v.setPhase i p) :=
  alone_phase h hv.1 hv.2.1 ((setPhase_dispatcher v i p).trans (by rw [hv.2.2])) hsteps

theorem alone_handle (h : Alone env i w) (hc : (w.dispatchers i).claims = c :: cs) (hp : (w.dispatchers i).phase = .ready) (ok : Bool) :
    Progress env i w (handle w i c ok) := by
  have hready : stepsLeft (w.dispatchers i) = 4 := by simp [stepsLeft, hc, hp]
  have hsame : w.intents = w.intents ∧ w.now = w.now ∧ w.dispatchers = w.dispatchers := ⟨rfl, rfl, rfl⟩
  unfold handle
  split
  · exact alone_handler h hsame (by rw [hready]; simp [stepsLeft, hc])
  · split
    · split
      · split <;> exact alone_handler h hsame (by rw [hready]; simp [stepsLeft, hc])
      · split <;> exact alone_handler h hsame (by rw [hready]; simp [stepsLeft, hc])
    · exact alone_handler (v := w.setRow c.command.target none) h ⟨rfl, rfl, rfl⟩ (by rw [hready]; simp [stepsLeft, hc])

theorem alone_commitHandler (h : Alone env i w) (hc : (w.dispatchers i).claims = c :: cs) {row : Created} {event : Event}
    (hp : (w.dispatchers i).phase = .staged row event) (ok : Bool) : Progress env i w (commitHandler w i c row event ok) := by
  have hstaged : stepsLeft (w.dispatchers i) = 3 := by simp [stepsLeft, hc, hp]
  have hsame : w.intents = w.intents ∧ w.now = w.now ∧ w.dispatchers = w.dispatchers := ⟨rfl, rfl, rfl⟩
  unfold commitHandler
  split
  · exact alone_handler h hsame (by rw [hstaged]; simp [stepsLeft, hc])
  · split
    · exact alone_handler h hsame (by rw [hstaged]; simp [stepsLeft, hc])
    · exact alone_handler (v := w.insert c.idempotencyKey c.command row event) h ⟨rfl, rfl, rfl⟩ (by rw [hstaged]; simp [stepsLeft, hc])

theorem alone_readWinner (h : Alone env i w) (hc : (w.dispatchers i).claims = c :: cs) (hp : (w.dispatchers i).phase = .conflict) (ok : Bool) :
    Progress env i w (readWinner w i c ok) := by
  have hconflict : stepsLeft (w.dispatchers i) = 2 := by simp [stepsLeft, hc, hp]
  have hsame : w.intents = w.intents ∧ w.now = w.now ∧ w.dispatchers = w.dispatchers := ⟨rfl, rfl, rfl⟩
  unfold readWinner
  split
  · exact alone_handler h hsame (by rw [hconflict]; simp [stepsLeft, hc])
  · split
    · exact alone_handler h hsame (by rw [hconflict]; simp [stepsLeft, hc])
    · split <;> exact alone_handler h hsame (by rw [hconflict]; simp [stepsLeft, hc])

/-! ### The reports -/

/-- What a report makes of the row of its command: it is over, or one of its executions is used up. -/
def Reported (env : Env) (r r' : Intent) : Prop := r'.id = r.id ∧ r'.claimedAt = none ∧ r'.attemptsLeft env < r.attemptsLeft env

/-- A report is about the first claim's row alone. -/
def Reports (env : Env) (c : IntentClaim) (rows rows' : List Intent) : Prop :=
  ∃ f : Intent → Intent, rows' = update (fun r => r.id == c.id) f rows ∧ ∀ r ∈ rows, r.id = c.id → r.retryable = true → Reported env r (f r)

theorem reports_executed (rows : List Intent) (c : IntentClaim) (now : Instant) : Reports env c rows (markExecuted rows c.id now) := by
  refine ⟨_, rfl, fun r _ _ hp => ⟨rfl, rfl, ?_⟩⟩
  have hpos : 0 < r.attemptsLeft env := attemptsLeft_pos.2 hp
  simpa [Intent.attemptsLeft, Intent.retryable] using hpos

theorem reports_failed {rows rows' : List Intent} (hids : (rows.map (·.id)).Nodup) {error : Error} {status : IntentStatus}
    (h : markFailed rows c.id error env.maxAttempts = some (rows', status)) : Reports env c rows rows' := by
  obtain ⟨q, hq, hqid, ⟨hout, rfl⟩ | ⟨hleft, rfl⟩⟩ := markFailed_some h
  · -- the budget is out: the row is counted and parked
    refine ⟨fun r => { r with attempts := r.attempts + 1, lastError := some error, claimedAt := none, status := .parked }, ?_,
      fun r _ _ hp => ⟨rfl, rfl, ?_⟩⟩
    · unfold park countFailure update
      rw [List.map_map]
      refine List.map_congr_left fun r _ => ?_
      by_cases hid : r.id = c.id <;> simp [hid]
    · have hpos : 0 < r.attemptsLeft env := attemptsLeft_pos.2 hp
      simpa [Intent.attemptsLeft, Intent.retryable] using hpos
  · refine ⟨_, rfl, fun r hr hid hp => ⟨rfl, rfl, ?_⟩⟩
    obtain rfl := List.inj_on_of_nodup_map hids hr hq (hid.trans hqid.symm)
    have hstill : ({ r with attempts := r.attempts + 1, lastError := some error, claimedAt := none } : Intent).retryable = true := hp
    simp only [Intent.attemptsLeft, hstill, hp, if_true]
    omega

theorem markFailed_some_of_mem {rows : List Intent} {r : Intent} {id : ℕ} (hr : r ∈ rows) (hid : r.id = id) (error : Error) (maxAttempts : ℕ) :
    ∃ x, markFailed rows id error maxAttempts = some x := by
  unfold markFailed
  split
  · rename_i hnone
    rw [List.find?_eq_none] at hnone
    rcases mem_update_of_mem (p := fun r : Intent => r.id == id)
      (f := fun r => { r with attempts := r.attempts + 1, lastError := some error, claimedAt := none }) hr with ⟨-, hcounted⟩ | ⟨hne, -⟩
    · exact absurd (beq_iff_eq.2 hid) (hnone { r with attempts := r.attempts + 1, lastError := some error, claimedAt := none } hcounted)
    · exact absurd hid (beq_eq_false_iff_ne.1 hne)
  · split <;> exact ⟨_, rfl⟩

/-- The batch goes on without the reported command. -/
theorem alone_report (h : Alone env i w) (hc : (w.dispatchers i).claims = c :: cs) {rows : List Intent} (hreports : Reports env c w.intents rows) :
    Progress env i w ({ w with intents := rows }.setDispatcher i (w.dispatchers i).pop) := by
  obtain ⟨f, rfl, hreported⟩ := hreports
  have hd : ({ w with intents := update (fun r => r.id == c.id) f w.intents }.setDispatcher i (w.dispatchers i).pop).dispatchers i = ⟨cs, .ready⟩ := by
    simp [World.setDispatcher, Dispatcher.pop, hc]
  have hclaims := h.claims
  rw [hc, List.map_cons, List.nodup_cons] at hclaims
  obtain ⟨q, hq, hqid, hqp⟩ := h.rows c (hc ▸ List.mem_cons_self ..)
  -- the one row of the command that was reported
  have hfirst : ∀ r ∈ w.intents, r.id = c.id → Reported env r (f r) := fun r hr hid => by
    obtain rfl := List.inj_on_of_nodup_map h.ids hr hq (hid.trans hqid.symm)
    exact hreported r hr hid hqp
  have hless : attemptsLeft env (update (fun r => r.id == c.id) f w.intents) < attemptsLeft env w.intents := by
    unfold attemptsLeft update
    rw [List.map_map]
    refine List.sum_lt_sum _ _ (fun r hr => ?_) ⟨q, hq, ?_⟩
    · simp only [Function.comp_apply]
      split
      · rename_i hid
        exact Nat.le_of_lt (hfirst r hr (beq_iff_eq.1 hid)).2.2
      · exact Nat.le_refl _
    · simp only [Function.comp_apply, hqid, beq_self_eq_true, if_true]
      exact (hfirst q hq hqid).2.2
  refine ⟨⟨?_, ?_, fun c' hc' => ?_, fun r' hr' hp hm => ?_⟩, Nat.le_of_lt hless, ?_⟩
  · have hids : (update (fun r => r.id == c.id) f w.intents).map (·.id) = w.intents.map (·.id) :=
      map_update fun r hr hid => (hfirst r hr (beq_iff_eq.1 hid)).1
    exact hids.symm ▸ h.ids
  · rw [hd]
    exact hclaims.2
  · rw [hd] at hc'
    obtain ⟨r, hr, hid, hp⟩ := h.rows c' (hc ▸ List.mem_cons_of_mem _ hc')
    rcases mem_update_of_mem (p := fun r : Intent => r.id == c.id) (f := f) hr with ⟨hsame, -⟩ | ⟨-, hkept⟩
    · exact absurd (List.mem_map.2 ⟨c', hc', hid.symm.trans (beq_iff_eq.1 hsame)⟩) hclaims.1
    · exact ⟨r, hkept, hid, hp⟩
  · rw [hd] at hm
    rcases mem_update hr' with ⟨r, hr, hid, rfl⟩ | ⟨hr, hid⟩
    · simp [Intent.leaseExpired, (hfirst r hr (beq_iff_eq.1 hid)).2.1]
    · refine h.others r' hr hp ?_
      rw [hc, List.map_cons, List.mem_cons]
      exact not_or.2 ⟨beq_eq_false_iff_ne.1 hid, hm⟩
  · have hnext : stepsLeft (⟨cs, .ready⟩ : Dispatcher) ≤ 5 := by
      unfold stepsLeft
      split <;> simp
    unfold potential
    rw [hd]
    show 6 * attemptsLeft env (update _ f w.intents) + _ + 1 ≤ _
    omega

/-! ### The run -/

theorem alone_step (hbatch : 0 < env.batchSize) {a : Action} (h : Alone env i w) (ha : OfDispatcher i a) (hs : step env w a = some w') :
    Alone env i w' ∧ attemptsLeft env w'.intents ≤ attemptsLeft env w.intents ∧
      (Waits w → potential env i w' + (if isStep a then 1 else 0) ≤ potential env i w) := by
  have hprogress : isStep a = true → Progress env i w w' → Alone env i w' ∧ attemptsLeft env w'.intents ≤ attemptsLeft env w.intents ∧
      (Waits w → potential env i w' + (if isStep a then 1 else 0) ≤ potential env i w) := fun hstep hp => by
    rw [hstep]
    exact ⟨hp.alone, hp.left, fun _ => hp.pays⟩
  cases a with
  | advance d =>
    cases hs
    exact ⟨alone_advance h d, Nat.le_refl _, fun _ => Nat.le_refl _⟩
  | claim j skipped =>
    obtain ⟨rfl, rfl⟩ := ha
    simp only [step] at hs
    split at hs
    · rename_i hidle
      cases hs
      have hsame : attemptsLeft env (claim env w j []).intents = attemptsLeft env w.intents := attemptsLeft_markClaimed ..
      refine ⟨alone_claim h hidle, Nat.le_of_eq hsame, fun hwaits => ?_⟩
      have hbefore : stepsLeft (w.dispatchers j) = 5 := by simp [stepsLeft, hidle]
      unfold potential
      rw [claim_waits hbatch h hidle hwaits, hbefore, hsame]
      exact Nat.le_refl _
    · cases hs
  | handle j ok =>
    cases ha
    simp only [step] at hs
    split at hs
    · rename_i hc hp
      cases hs
      exact hprogress rfl (alone_handle h hc hp ok)
    · cases hs
  | commitHandler j ok =>
    cases ha
    simp only [step] at hs
    split at hs
    · rename_i hc hp
      cases hs
      exact hprogress rfl (alone_commitHandler h hc hp ok)
    · cases hs
  | readWinner j ok =>
    cases ha
    simp only [step] at hs
    split at hs
    · rename_i hc hp
      cases hs
      exact hprogress rfl (alone_readWinner h hc hp ok)
    · cases hs
  | markExecuted j ok =>
    cases ha
    simp only [step] at hs
    split at hs
    · rename_i hc hp
      have hhandled : stepsLeft (w.dispatchers i) = 1 := by simp [stepsLeft, hc, hp]
      split at hs
      · cases hs
        exact hprogress rfl (alone_report h hc (reports_executed ..))
      · cases hs
        exact hprogress rfl (alone_handler h ⟨rfl, rfl, rfl⟩ (by rw [hhandled]; simp [stepsLeft, hc]))
    · cases hs
  | markFailed j ok =>
    obtain ⟨rfl, rfl⟩ := ha
    simp only [step] at hs
    split at hs
    · rename_i c cs error hc hp
      obtain ⟨r, hr, hid, -⟩ := h.rows c (hc ▸ List.mem_cons_self ..)
      obtain ⟨⟨rows, status⟩, hmark⟩ := markFailed_some_of_mem hr hid error env.maxAttempts
      simp only [hmark] at hs
      cases hs
      exact hprogress rfl (alone_report h hc (reports_failed h.ids hmark))
    · cases hs
  | recordCareSchedule | recordNotification | withdrawCareSchedule | withdrawNotification | crash => cases ha

theorem waits_iff : Waits w ↔ 0 < attemptsLeft env w.intents := by
  unfold attemptsLeft Waits
  rw [Nat.pos_iff_ne_zero, Ne, List.sum_eq_zero_iff]
  simp only [List.mem_map, forall_exists_index, and_imp, forall_apply_eq_imp_iff₂, not_forall]
  constructor
  · rintro ⟨r, hr, hp⟩
    exact ⟨r, hr, Nat.pos_iff_ne_zero.1 (attemptsLeft_pos.2 hp)⟩
  · rintro ⟨r, hr, hp⟩
    exact ⟨r, hr, attemptsLeft_pos.1 (Nat.pos_iff_ne_zero.2 hp)⟩

theorem pays (hbatch : 0 < env.batchSize) : Potential.Pays (step env) (OfDispatcher i) isStep (Alone env i) Waits (potential env i) where
  keeps h ha hs := (alone_step hbatch h ha hs).1
  stays h ha hs hwaits := waits_iff.2 (Nat.lt_of_lt_of_le (waits_iff.1 hwaits) (alone_step hbatch h ha hs).2.1)
  pays h ha hs hwaits := (alone_step hbatch h ha hs).2.2 hwaits

/-- The dispatcher is never stuck. -/
theorem alone_moves (h : Alone env i w) : ∃ a, OfDispatcher i a ∧ isStep a = true ∧ (step env w a).isSome = true := by
  cases hc : (w.dispatchers i).claims with
  | nil => exact ⟨.claim i [], ⟨rfl, rfl⟩, rfl, by simp [step, hc]⟩
  | cons c cs =>
    cases hp : (w.dispatchers i).phase with
    | ready => exact ⟨.handle i true, rfl, rfl, by simp [step, hc, hp]⟩
    | staged row event => exact ⟨.commitHandler i true, rfl, rfl, by simp [step, hc, hp]⟩
    | conflict => exact ⟨.readWinner i true, rfl, rfl, by simp [step, hc, hp]⟩
    | handled => exact ⟨.markExecuted i true, rfl, rfl, by simp [step, hc, hp]⟩
    | failed error =>
      obtain ⟨r, hr, hid, -⟩ := h.rows c (hc ▸ List.mem_cons_self ..)
      obtain ⟨⟨rows, status⟩, hmark⟩ := markFailed_some_of_mem hr hid error env.maxAttempts
      exact ⟨.markFailed i true, ⟨rfl, rfl⟩, rfl, by simp [step, hc, hp, hmark]⟩

end

/-- Whatever sagas, compensations and any number of dispatchers have made of the recorded commands: once no
dispatcher has a batch and every lease on a waiting command has lapsed, one dispatcher alone brings every
command to an end after so many of its steps, executed or parked unless it was cancelled, whatever comes of
the handlers, if its failures are recorded. It can always take the next step. -/
theorem recorded_commands_end {env : Env} (hbatch : 0 < env.batchSize) {before after : List Action} {w w' : World} {i : ℕ}
    (hbefore : run (step env) World.empty before = some w) (hidle : ∀ j, (w.dispatchers j).claims = [])
    (hlapsed : ∀ r ∈ w.intents, r.retryable = true → r.leaseExpired env.leaseSeconds w.now = true)
    (hafter : run (step env) w after = some w') (halone : ∀ a ∈ after, OfDispatcher i a) :
    (6 * attemptsLeft env w.intents + 5 < after.countP isStep → ∀ r ∈ w'.intents, r.status.final = true) ∧
      ∃ a, OfDispatcher i a ∧ isStep a = true ∧ (step env w' a).isSome = true := by
  have hinv := inv_run hbefore
  have hstart : Alone env i w :=
    ⟨hinv.tables.ids, by simp [hidle i], by simp [hidle i], fun r hr hp _ => hlapsed r hr hp⟩
  have hend := (Potential.paid (pays hbatch) hstart halone hafter).1
  refine ⟨fun hlong => ?_, alone_moves hend⟩
  have hpotential : potential env i w = 6 * attemptsLeft env w.intents + 5 := by simp [potential, hidle i, stepsLeft]
  have hdone := Potential.done (pays hbatch) hstart halone hafter (by rw [hpotential]; exact hlong)
  intro r hr
  by_contra hfinal
  refine hdone ⟨r, hr, ?_⟩
  cases hs : r.status <;> simp_all [IntentStatus.final, Intent.retryable]

/-- A dispatcher crashes with a command, and the lease goes by. -/
def leftBehind : List Action := [.recordCareSchedule 7 1, .claim 0 [], .crash 0, .advance 60000001]

/-- Another executes it twice in vain, and polls on. -/
def failedTwice : List Action :=
  [.claim 2 [], .handle 2 false, .markFailed 2 true, .claim 2 [], .handle 2 false, .markFailed 2 true] ++ List.replicate 12 (.claim 2 [])

def twoAttempts : Env := { sampleEnv with maxAttempts := 2 }

theorem run_leftBehind : (run (step twoAttempts) World.empty leftBehind).isSome := by decide

def leftBehindWorld : World := (run (step twoAttempts) World.empty leftBehind).get run_leftBehind

theorem run_failedTwice : (run (step twoAttempts) leftBehindWorld failedTwice).map (·.intents.map (·.status)) = some [.parked] := by decide

/-- The command is parked, and so has come to its end. -/
theorem recorded_commands_end_parked : ∃ w', run (step twoAttempts) leftBehindWorld failedTwice = some w' ∧
    w'.intents.map (·.status) = [.parked] ∧ ∀ r ∈ w'.intents, r.status.final = true := by
  obtain ⟨w', hrun, hparked⟩ := Option.map_eq_some_iff.1 run_failedTwice
  have hidle : ∀ j, (leftBehindWorld.dispatchers j).claims = [] := by
    intro j
    cases j <;> rfl
  have halone : ∀ a ∈ failedTwice, OfDispatcher 2 a := by simp [failedTwice, OfDispatcher]
  exact ⟨w', hrun, hparked, (recorded_commands_end (by decide) (Option.some_get run_leftBehind).symm hidle (by decide) hrun halone).1 (by decide)⟩

end Plantkeeper.Intents
