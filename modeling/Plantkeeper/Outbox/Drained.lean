/-
The outbox drains. Once the relays that crashed or finished are gone and their leases have lapsed, one
relay alone gets rid of every row that waits, whatever the broker answers on the rows' own topics, as long
as it takes the dead-letter copies. A poll that finds work claims some of it, every outcome it commits
settles a row or uses up one of its attempts, and between two outcomes there are few steps.
-/
import Mathlib.Algebra.GroupWithZero.Nat
import Mathlib.Algebra.Order.BigOperators.Group.List
import Mathlib.Algebra.Order.Group.Nat
import Plantkeeper.Lib.Potential
import Plantkeeper.Outbox.Lease

namespace Plantkeeper.Outbox

open Plantkeeper.Run

variable {π : Type}

/-! ## What is left to do -/

/-- The attempts a row may still take: the last of them ends in the dead-letter topic. -/
def Row.attemptsLeft (cfg : Settings) (r : Row π) : ℕ :=
  if r.stillPending then max 1 (cfg.maxAttempts - r.attempts) else 0

def attemptsLeft (cfg : Settings) (rows : List (Row π)) : ℕ := (rows.map (·.attemptsLeft cfg)).sum

/-- How many steps the relay is from its next commit, or from the poll that leads to it. -/
def stepsLeft : Option (Session π) → ℕ
  | none => 5
  | some x => match x.phase with
    | .publishing failures => 4 - failures
    | .deadLettering _ => 1
    | .recorded => 0

def potential (cfg : Settings) (i : ℕ) (w : World π) : ℕ := 6 * attemptsLeft cfg w.rows + stepsLeft (w.relays i)

/-- The row waits. -/
def Waits (w : World π) : Prop := ∃ r ∈ w.rows, r.stillPending = true

/-- What the relay does, uninterrupted, with a broker that takes dead letters; and the clock goes on. -/
def OfRelay (i : ℕ) : Action π → Prop
  | .advance _ => True
  | .fetch j skipped => j = i ∧ skipped = []
  | .publish j _ => j = i
  | .publishDeadLetter j answer => j = i ∧ answer = .ok
  | .commit j ok => j = i ∧ ok = true
  | .write .. | .crash _ => False

/-- A step of the relay, not of the clock. -/
def isStep : Action π → Bool
  | .advance _ => false
  | _ => true

theorem attemptsLeft_pos {cfg : Settings} {r : Row π} : 0 < r.attemptsLeft cfg ↔ r.stillPending = true := by
  unfold Row.attemptsLeft
  split
  · simp_all
  · simp_all

theorem waits_iff {cfg : Settings} {w : World π} : Waits w ↔ 0 < attemptsLeft cfg w.rows := by
  unfold attemptsLeft Waits
  rw [Nat.pos_iff_ne_zero, Ne, List.sum_eq_zero_iff]
  simp only [List.mem_map, forall_exists_index, and_imp, forall_apply_eq_imp_iff₂, not_forall]
  constructor
  · rintro ⟨r, hr, hp⟩
    exact ⟨r, hr, Nat.pos_iff_ne_zero.1 (attemptsLeft_pos.2 hp)⟩
  · rintro ⟨r, hr, hp⟩
    exact ⟨r, hr, attemptsLeft_pos.1 (Nat.pos_iff_ne_zero.2 hp)⟩

/-! ## A relay alone -/

/-- An outcome that settles a row or uses up an attempt. -/
def Settles (cfg : Settings) (m : Row π) (c : Change) : Prop :=
  c = .markPublished ∨ (∃ e, c = .deadLetter e) ∨ ∃ e, c = .recordFailure e ∧ m.attempts + 1 < cfg.maxAttempts

/-- What the session has staged: the claims of its batch in its first transaction, and the outcome. -/
def StagedBy (cfg : Settings) (x : Session π) : Prop :=
  ∃ claims, (claims = [] ∨ claims = x.messages.map fun m => (m.id, Change.claim)) ∧
    ((x.phase ≠ .recorded ∧ x.staged = claims) ∨
      ∃ m rest c, x.messages = m :: rest ∧ x.phase = .recorded ∧ Settles cfg m c ∧
        x.staged = claims ++ [(m.id, c), (m.id, .releaseClaim)])

/-- The session has the rows it delivers as they are in the table. -/
structure Busy (cfg : Settings) (w : World π) (x : Session π) : Prop where
  messages : x.messages ≠ []
  ids : (x.messages.map (·.id)).Nodup
  rows : ∀ m ∈ x.messages, ∃ r ∈ w.rows, r.id = m.id ∧ r.stillPending = true ∧ r.attempts = m.attempts
  others : ∀ r ∈ w.rows, r.stillPending = true → r.id ∉ x.messages.map (·.id) → r.leaseExpired cfg.leaseSeconds w.now = true
  staged : StagedBy cfg x
  failures : ∀ f, x.phase = .publishing f → f < publishAttemptsPerCycle

structure Alone (cfg : Settings) (i : ℕ) (w : World π) : Prop where
  ids : (w.rows.map (·.id)).Nodup
  locks : ∀ l ∈ w.locks, l.1 = i
  idle : w.relays i = none → w.locks = [] ∧ ∀ r ∈ w.rows, r.stillPending = true → r.leaseExpired cfg.leaseSeconds w.now = true
  busy : ∀ x, w.relays i = some x → Busy cfg w x

section

variable {cfg : Settings} {i : ℕ} {w w' : World π} {x : Session π} {m : Row π} {rest : List (Row π)}

theorem leaseExpired_mono {leaseSeconds : ℕ} {now : Instant} {r : Row π} (d : ℕ) (h : r.leaseExpired leaseSeconds now = true) :
    r.leaseExpired leaseSeconds (now + d) = true := by
  unfold Row.leaseExpired at h ⊢
  split at h
  · rfl
  · rename_i c hc
    have hlater : ∀ now c lease d : ℤ, 0 ≤ d → lease < now - c → lease < now + d - c := by omega
    simp only [decide_eq_true_eq] at h ⊢
    exact hlater now c (seconds leaseSeconds) d (Int.natCast_nonneg d) h

theorem alone_advance (h : Alone cfg i w) (d : ℕ) : Alone cfg i { w with now := w.now + d } where
  ids := h.ids
  locks := h.locks
  idle hi := ⟨(h.idle hi).1, fun r hr hp => leaseExpired_mono d ((h.idle hi).2 r hr hp)⟩
  busy x hx :=
    have hb := h.busy x hx
    ⟨hb.messages, hb.ids, hb.rows, fun r hr hp hm => leaseExpired_mono d (hb.others r hr hp hm), hb.staged, hb.failures⟩

/-! ### The poll -/

/-- The oldest row that waits is claimed. -/
theorem fetchUnpublished_ne_nil (hbatch : 0 < cfg.batchSize) {rows : List (Row π)} {now : Instant}
    (hlapsed : ∀ r ∈ rows, r.stillPending = true → r.leaseExpired cfg.leaseSeconds now = true)
    (hwaits : ∃ r ∈ rows, r.stillPending = true) : fetchUnpublished rows [] now cfg.batchSize cfg.leaseSeconds ≠ [] := by
  classical
  have hid : ∃ id, ∃ r ∈ rows, r.stillPending = true ∧ r.id = id := by
    obtain ⟨r, hr, hp⟩ := hwaits
    exact ⟨r.id, r, hr, hp, rfl⟩
  obtain ⟨r, hr, hp, hfirst⟩ := Nat.find_spec hid
  have hblocked : blocked rows r = false := by
    unfold blocked
    rw [List.any_eq_false]
    rintro q hq hblocks
    simp only [Bool.and_eq_true, decide_eq_true_eq] at hblocks
    exact Nat.find_min hid (hfirst ▸ hblocks.1.2) ⟨q, hq, hblocks.2, rfl⟩
  have hclaimable : r ∈ (rows.filter fun r => r.stillPending && !blocked rows r && r.leaseExpired cfg.leaseSeconds now &&
      decide (r.id ∉ ([] : List ℕ))).insertionSort fun a b : Row π => a.id ≤ b.id := by
    simp [hr, hp, hblocked, hlapsed r hr hp]
  intro hnil
  unfold fetchUnpublished at hnil
  rw [List.map_eq_nil_iff] at hnil
  obtain ⟨q, qs, hsorted⟩ := List.exists_cons_of_ne_nil (List.ne_nil_of_mem hclaimable)
  have hq : q ∈ rows.filter fun r => r.stillPending && !blocked rows r && r.leaseExpired cfg.leaseSeconds now &&
      decide (r.id ∉ ([] : List ℕ)) := (List.mem_insertionSort _).1 (hsorted ▸ List.mem_cons_self ..)
  simp only [List.mem_filter, Bool.and_eq_true] at hq
  rw [hsorted, ← Nat.succ_pred_eq_of_pos hbatch, List.take_succ_cons, List.filter_cons_of_pos (by simp [hq.2.1.1.1, hq.2.1.2])] at hnil
  cases hnil

/-- A message is the row that was claimed. -/
theorem fetchUnpublished_row {rows : List (Row π)} {locked : List ℕ} {now : Instant} {limit lease : ℕ}
    (h : m ∈ fetchUnpublished rows locked now limit lease) :
    ∃ r ∈ rows, r.id = m.id ∧ r.stillPending = true ∧ r.attempts = m.attempts := by
  obtain ⟨r, hr, rfl⟩ := List.mem_map.1 h
  have hr := (List.mem_insertionSort _).1 (List.mem_of_mem_take (List.mem_filter.1 hr).1)
  obtain ⟨hmem, hp⟩ := List.mem_filter.1 hr
  simp only [Bool.and_eq_true] at hp
  exact ⟨r, hmem, rfl, hp.1.1.1, rfl⟩

theorem fetch_waits (hbatch : 0 < cfg.batchSize) (h : Alone cfg i w) (hi : w.relays i = none) (hwaits : Waits w) :
    ∃ x, (fetch cfg w i []).relays i = some x ∧ x.phase = .publishing 0 := by
  obtain ⟨hlocks, hlapsed⟩ := h.idle hi
  have hne := fetchUnpublished_ne_nil hbatch hlapsed hwaits
  unfold fetch
  simp only [hlocks, List.map_nil, List.append_nil, List.isEmpty_iff, hne, if_false]
  exact ⟨_, if_pos rfl, rfl⟩

theorem rows_fetch (w : World π) (i : ℕ) (skipped : List ℕ) : (fetch cfg w i skipped).rows = w.rows := by
  unfold fetch
  simp only
  split <;> rfl

theorem alone_fetch (h : Alone cfg i w) (hi : w.relays i = none) : Alone cfg i (fetch cfg w i []) := by
  obtain ⟨hlocks, hlapsed⟩ := h.idle hi
  unfold fetch
  simp only [hlocks, List.map_nil, List.append_nil]
  split
  · exact h
  · rename_i hne
    refine ⟨h.ids, fun l hl => ?_, fun hidle => ?_, fun x hx => ?_⟩
    · simp only [World.setRelay, List.nil_append, List.mem_map] at hl
      obtain ⟨m, -, rfl⟩ := hl
      rfl
    · simp [World.setRelay] at hidle
    · obtain rfl := Option.some.inj ((if_pos rfl).symm.trans hx)
      refine ⟨fun hnil => hne (by rw [List.isEmpty_iff]; exact hnil), fetchUnpublished_ids h.ids .., fun m hm =>
        fetchUnpublished_row hm, fun r hr hp _ => hlapsed r hr hp, ⟨_, .inr rfl, .inl ⟨by simp, rfl⟩⟩, fun f hf => ?_⟩
      cases hf
      decide

/-! ### The attempts -/

/-- The session goes on with the table as it was, nearer to its outcome. -/
theorem alone_attempt (h : Alone cfg i w) {y : Session π} (hframe : w'.now = w.now ∧ w'.rows = w.rows ∧ w'.relays = w.relays ∧ w'.locks = w.locks)
    (hx : w.relays i = some x) (hmessages : y.messages = x.messages) (hstaged : StagedBy cfg y)
    (hfailures : ∀ f, y.phase = .publishing f → f < publishAttemptsPerCycle) (hsteps : stepsLeft (some y) < stepsLeft (some x)) :
    Alone cfg i (w'.setRelay i (some y)) ∧ potential cfg i (w'.setRelay i (some y)) + 1 ≤ potential cfg i w := by
  obtain ⟨hnow, hrows, -, hlocks⟩ := hframe
  have hb := h.busy x hx
  have hsame : (w'.setRelay i (some y)).relays i = some y := if_pos rfl
  refine ⟨⟨?_, fun l hl => ?_, fun hidle => ?_, fun z hz => ?_⟩, ?_⟩
  · show (w'.rows.map (·.id)).Nodup
    rw [hrows]
    exact h.ids
  · exact h.locks l (hlocks ▸ hl)
  · simp [World.setRelay] at hidle
  · obtain rfl := Option.some.inj ((if_pos rfl).symm.trans hz)
    refine ⟨hmessages ▸ hb.messages, hmessages ▸ hb.ids, ?_, ?_, hstaged, hfailures⟩
    · intro m hm
      obtain ⟨r, hr, hsame⟩ := hb.rows m (hmessages ▸ hm)
      exact ⟨r, hrows.symm ▸ hr, hsame⟩
    · intro r hr hp hm
      rw [hmessages] at hm
      exact hnow.symm ▸ hb.others r (hrows ▸ hr) hp hm
  · unfold potential
    rw [hsame, hx]
    show 6 * attemptsLeft cfg w'.rows + _ + 1 ≤ _
    rw [hrows]
    omega

/-- Before its outcome a session has staged its claims at most. -/
theorem StagedBy.claims (h : StagedBy cfg x) (hp : x.phase ≠ .recorded) :
    x.staged = [] ∨ x.staged = x.messages.map fun m => (m.id, Change.claim) := by
  obtain ⟨claims, hclaims, ⟨-, hstaged⟩ | ⟨m, rest, c, -, hrecorded, -⟩⟩ := h
  · rw [hstaged]
    exact hclaims
  · exact absurd hrecorded hp

theorem stagedBy_record {now : Instant} {c : Change} (h : StagedBy cfg x) (hp : x.phase ≠ .recorded) (hm : x.messages = m :: rest)
    (hc : Settles cfg m c) : StagedBy cfg (x.record now m.id c) :=
  ⟨x.staged, h.claims hp, .inr ⟨m, rest, c, hm, rfl, hc, rfl⟩⟩

theorem stagedBy_phase {p : Phase} (h : StagedBy cfg x) (hp : x.phase ≠ .recorded) (hp' : p ≠ .recorded) :
    StagedBy cfg { x with phase := p } :=
  ⟨x.staged, h.claims hp, .inl ⟨hp', rfl⟩⟩

/-- An attempt leads nearer to the outcome. -/
theorem alone_publish (h : Alone cfg i w) (hx : w.relays i = some x) (hm : x.messages = m :: rest) {failures : ℕ}
    (hp : x.phase = .publishing failures) (answer : Answer) : Alone cfg i (publish cfg w i x m failures answer) ∧
      potential cfg i (publish cfg w i x m failures answer) + 1 ≤ potential cfg i w := by
  have hb := h.busy x hx
  have hne : x.phase ≠ .recorded := by simp [hp]
  have hfailures : failures < 3 := hb.failures failures hp
  have hsteps : stepsLeft (some x) = 4 - failures := by simp [stepsLeft, hp]
  cases answer with
  | ok =>
    refine alone_attempt h (accept_frame w true m) hx rfl (stagedBy_record hb.staged hne hm (.inl rfl)) (fun f hf => (by cases hf)) ?_
    rw [hsteps]
    simp only [stepsLeft, Session.record]
    omega
  | error taken text =>
    simp only [publish]
    split
    · rename_i hagain
      refine alone_attempt h (accept_frame w taken m) hx rfl (stagedBy_phase hb.staged hne (by simp)) (fun f hf => ?_) ?_
      · cases hf
        exact hagain
      · rw [hsteps]
        simp only [stepsLeft]
        omega
    · split
      · rename_i hleft
        refine alone_attempt h (accept_frame w taken m) hx rfl
          (stagedBy_record hb.staged hne hm (.inr (.inr ⟨text, rfl, hleft⟩))) (fun f hf => (by cases hf)) ?_
        rw [hsteps]
        simp only [stepsLeft, Session.record]
        omega
      · refine alone_attempt h (accept_frame w taken m) hx rfl (stagedBy_phase hb.staged hne (by simp)) (fun f hf => (by cases hf)) ?_
        rw [hsteps]
        simp only [stepsLeft]
        omega

theorem alone_publishDeadLetter (h : Alone cfg i w) (hx : w.relays i = some x) (hm : x.messages = m :: rest) {error : String}
    (hp : x.phase = .deadLettering error) : Alone cfg i (publishDeadLetter w i x m error .ok) ∧
      potential cfg i (publishDeadLetter w i x m error .ok) + 1 ≤ potential cfg i w := by
  have hne : x.phase ≠ .recorded := by simp [hp]
  obtain ⟨hnow, hrows, hrelays, hlocks, -⟩ := acceptDeadLetter_frame w true m
  refine alone_attempt h ⟨hnow, hrows, hrelays, hlocks⟩ hx rfl
    (stagedBy_record (h.busy x hx).staged hne hm (.inr (.inl ⟨error, rfl⟩))) (fun f hf => (by cases hf)) ?_
  simp [stepsLeft, hp, Session.record]

/-! ### The commit -/

/-- The rows of a batch are claimed, and nothing else of any row changes. -/
theorem settle_batch (now : Instant) {claims : List (ℕ × Change)} {ms : List (Row π)}
    (h : claims = [] ∨ claims = ms.map fun m => (m.id, Change.claim)) (r : Row π) :
    ∃ claimedAt, settle now claims r = { r with claimedAt := claimedAt } ∧ (r.id ∉ ms.map (·.id) → claimedAt = r.claimedAt) := by
  rcases h with rfl | rfl
  · exact ⟨r.claimedAt, rfl, fun _ => rfl⟩
  · rw [settle_claims]
    split
    · rename_i hmem
      exact ⟨some now, rfl, fun hnot => absurd hmem hnot⟩
    · exact ⟨r.claimedAt, rfl, fun _ => rfl⟩

/-- What a commit leaves of a row: the first message's has its outcome and no lease, another row of the
batch its claim, the rest are as they were. -/
theorem settle_recorded (h : StagedBy cfg x) (hm : x.messages = m :: rest) (hp : x.phase = .recorded) (now : Instant) (r : Row π) :
    (r.id = m.id ∧ (settle now x.staged r).claimedAt = none ∧ ∃ c, Settles cfg m c ∧
      (settle now x.staged r).stillPending = (c.apply now r).stillPending ∧ (settle now x.staged r).attempts = (c.apply now r).attempts) ∨
    r.id ≠ m.id ∧ ∃ claimedAt, settle now x.staged r = { r with claimedAt := claimedAt } ∧
      (r.id ∉ x.messages.map (·.id) → claimedAt = r.claimedAt) := by
  obtain ⟨claims, hclaims, ⟨hne, -⟩ | ⟨m', rest', c, hm', -, hc, hstaged⟩⟩ := h
  · exact absurd hp hne
  · cases hm.symm.trans hm'
    obtain ⟨claimedAt, hbatch, hsame⟩ := settle_batch now hclaims r
    rw [hstaged, settle_append, hbatch]
    by_cases hid : r.id = m.id
    · left
      have hfirst : settle now [(m.id, c), (m.id, .releaseClaim)] { r with claimedAt := claimedAt } =
          Change.releaseClaim.apply now (c.apply now { r with claimedAt := claimedAt }) := by
        rw [← hid]
        exact settle_outcome now c { r with claimedAt := claimedAt }
      rw [hfirst]
      refine ⟨hid, rfl, c, hc, ?_⟩
      rcases hc with rfl | ⟨e, rfl⟩ | ⟨e, rfl, -⟩ <;> exact ⟨rfl, rfl⟩
    · right
      refine ⟨hid, claimedAt, settle_of_not_mem ?_, hsame⟩
      intro u hu
      simp only [List.mem_cons, List.not_mem_nil, or_false] at hu
      rcases hu with rfl | rfl <;> exact fun heq => hid heq.symm

/-- An outcome takes an attempt, or all of them. -/
theorem attemptsLeft_settles {c : Change} {now : Instant} {r r' : Row π} (hc : Settles cfg m c) (hp : r.stillPending = true)
    (ha : r.attempts = m.attempts) (hpending : r'.stillPending = (c.apply now r).stillPending)
    (hattempts : r'.attempts = (c.apply now r).attempts) : r'.attemptsLeft cfg < r.attemptsLeft cfg := by
  have hpos : 0 < r.attemptsLeft cfg := attemptsLeft_pos.2 hp
  rcases hc with rfl | ⟨e, rfl⟩ | ⟨e, rfl, hleft⟩
  · have hnot : r'.stillPending = false := hpending
    simpa [Row.attemptsLeft, hnot] using hpos
  · have hnot : r'.stillPending = false := by
      rw [hpending]
      simp [Row.stillPending, Change.apply]
    simpa [Row.attemptsLeft, hnot] using hpos
  · have hstill : r'.stillPending = true := hpending.trans hp
    have hcount : r'.attempts = r.attempts + 1 := hattempts
    simp only [Row.attemptsLeft, hstill, hp, if_true]
    omega

theorem attemptsLeft_commit (h : Alone cfg i w) (hx : w.relays i = some x) (hm : x.messages = m :: rest) (hp : x.phase = .recorded) :
    attemptsLeft cfg (commit w i x rest).rows < attemptsLeft cfg w.rows := by
  have hb := h.busy x hx
  have hrows : (commit w i x rest).rows = w.rows.map (settle (x.began.getD w.now) x.staged) := foldl_update ..
  unfold attemptsLeft
  rw [hrows, List.map_map]
  refine List.sum_lt_sum _ _ (fun r hr => ?_) ?_
  · rcases settle_recorded hb.staged hm hp (x.began.getD w.now) r with ⟨hid, -, c, hc, hpending, hattempts⟩ | ⟨-, claimedAt, hsame, -⟩
    · obtain ⟨q, hq, hqid, hqp, hqa⟩ := hb.rows m (hm ▸ List.mem_cons_self ..)
      obtain rfl := List.inj_on_of_nodup_map h.ids hr hq (hid.trans hqid.symm)
      exact Nat.le_of_lt (attemptsLeft_settles hc hqp hqa hpending hattempts)
    · simp only [Function.comp_apply, hsame]
      exact Nat.le_refl _
  · obtain ⟨q, hq, hqid, hqp, hqa⟩ := hb.rows m (hm ▸ List.mem_cons_self ..)
    refine ⟨q, hq, ?_⟩
    rcases settle_recorded hb.staged hm hp (x.began.getD w.now) q with ⟨-, -, c, hc, hpending, hattempts⟩ | ⟨hne, -⟩
    · exact attemptsLeft_settles hc hqp hqa hpending hattempts
    · exact absurd hqid hne

/-- After a commit only the rest of the batch is leased. -/
theorem lapsed_commit (h : Alone cfg i w) (hx : w.relays i = some x) (hm : x.messages = m :: rest) (hp : x.phase = .recorded) {r : Row π}
    (hr : r ∈ w.rows) (hpending : (settle (x.began.getD w.now) x.staged r).stillPending = true) (hrest : r.id ∉ rest.map (·.id)) :
    (settle (x.began.getD w.now) x.staged r).leaseExpired cfg.leaseSeconds w.now = true := by
  have hb := h.busy x hx
  rcases settle_recorded hb.staged hm hp (x.began.getD w.now) r with ⟨-, hfree, -⟩ | ⟨hne, claimedAt, hsame, hkept⟩
  · simp [Row.leaseExpired, hfree]
  · have hbatch : r.id ∉ x.messages.map (·.id) := by
      rw [hm, List.map_cons, List.mem_cons]
      exact not_or.2 ⟨hne, hrest⟩
    rw [hkept hbatch] at hsame
    rw [hsame] at hpending ⊢
    exact hb.others r hr hpending hbatch

theorem alone_commit (h : Alone cfg i w) (hx : w.relays i = some x) (hm : x.messages = m :: rest) (hp : x.phase = .recorded) :
    Alone cfg i (commit w i x rest) ∧ potential cfg i (commit w i x rest) + 1 ≤ potential cfg i w := by
  have hb := h.busy x hx
  have hrows : (commit w i x rest).rows = w.rows.map (settle (x.began.getD w.now) x.staged) := foldl_update ..
  have hlocks : (commit w i x rest).locks = [] := by
    show w.locks.filter (fun l => l.1 ≠ i) = []
    rw [List.filter_eq_nil_iff]
    exact fun l hl => by simp [h.locks l hl]
  have hrelay : (commit w i x rest).relays i = if rest.isEmpty then none else some ⟨rest, .publishing 0, none, []⟩ := if_pos rfl
  refine ⟨⟨?_, ?_, fun hidle => ⟨hlocks, fun r' hr' hpending => ?_⟩, fun y hy => ?_⟩, ?_⟩
  · rw [hrows, List.map_map]
    have hids : (fun r : Row π => r.id) ∘ settle (x.began.getD w.now) x.staged = (·.id) := funext fun r => settle_id ..
    rw [hids]
    exact h.ids
  · rw [hlocks]
    simp
  · rw [hrelay] at hidle
    obtain rfl : rest = [] := by
      by_contra hne
      simp [hne] at hidle
    rw [hrows] at hr'
    obtain ⟨r, hr, rfl⟩ := List.mem_map.1 hr'
    exact lapsed_commit h hx hm hp hr hpending (by simp)
  · rw [hrelay] at hy
    split at hy
    · cases hy
    · rename_i hne
      cases hy
      have hids := hb.ids
      rw [hm, List.map_cons, List.nodup_cons] at hids
      refine ⟨fun hnil => hne (by rw [List.isEmpty_iff]; exact hnil), hids.2, fun m' hm' => ?_, fun r' hr' hpending hbatch => ?_,
        ⟨[], .inl rfl, .inl ⟨by simp, rfl⟩⟩, fun f hf => ?_⟩
      · -- another message's row is still the one that was claimed
        obtain ⟨r, hr, hid, hrp, hra⟩ := hb.rows m' (hm ▸ List.mem_cons_of_mem _ hm')
        refine ⟨settle (x.began.getD w.now) x.staged r, hrows ▸ List.mem_map_of_mem hr, (settle_id ..).trans hid, ?_⟩
        rcases settle_recorded hb.staged hm hp (x.began.getD w.now) r with ⟨hfirst, -⟩ | ⟨-, claimedAt, hsame, -⟩
        · exact absurd (List.mem_map.2 ⟨m', hm', hid.symm.trans hfirst⟩) hids.1
        · rw [hsame]
          exact ⟨hrp, hra⟩
      · rw [hrows] at hr'
        obtain ⟨r, hr, rfl⟩ := List.mem_map.1 hr'
        rw [settle_id] at hbatch
        exact lapsed_commit h hx hm hp hr hpending hbatch
      · cases hf
        decide
  · have hless := attemptsLeft_commit h hx hm hp
    have hbefore : stepsLeft (w.relays i) = 0 := by simp [hx, stepsLeft, hp]
    have hafter : stepsLeft ((commit w i x rest).relays i) ≤ 5 := by
      rw [hrelay]
      split <;> simp [stepsLeft]
    unfold potential
    omega

/-! ### The run -/

theorem alone_step (hbatch : 0 < cfg.batchSize) {a : Action π} (h : Alone cfg i w) (ha : OfRelay i a) (hs : step cfg w a = some w') :
    Alone cfg i w' ∧ (Waits w → potential cfg i w' + (if isStep a then 1 else 0) ≤ potential cfg i w) := by
  cases step_move hs with
  | advance d => exact ⟨alone_advance h d, fun _ => Nat.le_refl _⟩
  | write => cases ha
  | @fetch j skipped hx =>
    obtain ⟨rfl, rfl⟩ := ha
    refine ⟨alone_fetch h hx, fun hwaits => ?_⟩
    obtain ⟨x, hfetched, hphase⟩ := fetch_waits hbatch h hx hwaits
    unfold potential
    rw [rows_fetch, hfetched, hx]
    simp [stepsLeft, hphase, isStep]
  | publish answer hx hm hp =>
    cases ha
    obtain ⟨halone, hpays⟩ := alone_publish h hx hm hp answer
    exact ⟨halone, fun _ => hpays⟩
  | publishDeadLetter answer hx hm hp =>
    obtain ⟨rfl, rfl⟩ := ha
    obtain ⟨halone, hpays⟩ := alone_publishDeadLetter h hx hm hp
    exact ⟨halone, fun _ => hpays⟩
  | commit hx hm hp hl =>
    cases ha.1
    obtain ⟨halone, hpays⟩ := alone_commit h hx hm hp
    exact ⟨halone, fun _ => hpays⟩
  | fail => cases ha.2
  | crash => cases ha

/-- No row that stopped waiting waits again. -/
theorem waits_step {a : Action π} (ha : OfRelay i a) (hs : step cfg w a = some w') (hwaits : Waits w') : Waits w := by
  unfold Waits at hwaits ⊢
  cases step_move hs with
  | advance => exact hwaits
  | write => cases ha
  | fetch skipped hx =>
    rw [rows_fetch] at hwaits
    exact hwaits
  | publish answer hx hm hp =>
    obtain ⟨y, -, heq⟩ := publish_eq cfg w _ _ _ _ answer
    rw [heq] at hwaits
    exact (accept_frame w answer.taken _).2.1 ▸ hwaits
  | publishDeadLetter answer hx hm hp =>
    obtain ⟨y, -, heq⟩ := publishDeadLetter_eq w _ _ _ _ answer
    rw [heq] at hwaits
    exact (acceptDeadLetter_frame w answer.taken _).2.1 ▸ hwaits
  | @commit j x m rest hx hm hp hl =>
    obtain ⟨r', hr', hpending⟩ := hwaits
    have hrows : (commit w j x rest).rows = w.rows.map (settle (x.began.getD w.now) x.staged) := foldl_update ..
    rw [hrows] at hr'
    obtain ⟨r, hr, rfl⟩ := List.mem_map.1 hr'
    refine ⟨r, hr, ?_⟩
    by_contra hsettled
    rw [settle_settled (Bool.not_eq_true _ ▸ hsettled)] at hpending
    cases hpending
  | fail => cases ha.2
  | crash => cases ha

theorem pays (hbatch : 0 < cfg.batchSize) : Potential.Pays (step (π := π) cfg) (OfRelay i) isStep (Alone cfg i) Waits (potential cfg i) where
  keeps h ha hs := (alone_step hbatch h ha hs).1
  stays _ ha hs hwaits := waits_step ha hs hwaits
  pays h ha hs hwaits := (alone_step hbatch h ha hs).2 hwaits

/-- The relay is never stuck. -/
theorem alone_moves (h : Alone cfg i w) : ∃ a, OfRelay i a ∧ isStep a = true ∧ (step cfg w a).isSome = true := by
  cases hx : w.relays i with
  | none => exact ⟨.fetch i [], ⟨rfl, rfl⟩, rfl, by simp [step, hx]⟩
  | some x =>
    have hb := h.busy x hx
    obtain ⟨m, rest, hm⟩ := List.exists_cons_of_ne_nil hb.messages
    cases hp : x.phase with
    | publishing failures => exact ⟨.publish i .ok, rfl, rfl, by simp [step, hx, hm, hp]⟩
    | deadLettering error => exact ⟨.publishDeadLetter i .ok, ⟨rfl, rfl⟩, rfl, by simp [step, hx, hm, hp]⟩
    | recorded =>
      have hfree : (w.locks.any fun l => l.1 ≠ i && x.staged.any (·.1 == l.2)) = false := by
        rw [List.any_eq_false]
        exact fun l hl => by simp [h.locks l hl]
      refine ⟨.commit i true, ⟨rfl, rfl⟩, rfl, ?_⟩
      simp only [step, hx, hm, hp, hfree]
      rfl

/-- Row locks are those of open sessions. -/
def Locked (w : World π) : Prop := ∀ l ∈ w.locks, w.relays l.1 ≠ none

theorem locked_setRelay {x : Session π} (h : Locked w) (hlocks : w'.locks = w.locks) (hrelays : w'.relays = w.relays) :
    Locked (w'.setRelay i (some x)) := by
  intro l hl
  simp only [World.setRelay, hlocks, hrelays] at hl ⊢
  split
  · simp
  · exact h l hl

theorem locked_unlock {w' : World π} (h : Locked w) (hlocks : w'.locks = (w.unlock i).locks) (hrelays : ∀ j, j ≠ i → w'.relays j = w.relays j) :
    Locked w' := by
  intro l hl
  rw [hlocks] at hl
  obtain ⟨hmem, hne⟩ := List.mem_filter.1 hl
  rw [hrelays l.1 (by simpa using hne)]
  exact h l hmem

theorem locked_step {a : Action π} (h : Locked w) (hs : step cfg w a = some w') : Locked w' := by
  cases step_move hs with
  | advance => exact h
  | write => exact h
  | @fetch j skipped hx =>
    unfold fetch
    simp only
    split
    · exact h
    · intro l hl
      simp only [World.setRelay, List.mem_append, List.mem_map] at hl ⊢
      rcases hl with hl | ⟨m, -, rfl⟩
      · split
        · simp
        · exact h l hl
      · simp
  | publish answer hx hm hp =>
    obtain ⟨y, -, heq⟩ := publish_eq cfg w _ _ _ _ answer
    obtain ⟨-, -, hrelays, hlocks⟩ := accept_frame w answer.taken _
    rw [heq]
    exact locked_setRelay h hlocks hrelays
  | publishDeadLetter answer hx hm hp =>
    obtain ⟨y, -, heq⟩ := publishDeadLetter_eq w _ _ _ _ answer
    obtain ⟨-, -, hrelays, hlocks, -⟩ := acceptDeadLetter_frame w answer.taken _
    rw [heq]
    exact locked_setRelay h hlocks hrelays
  | commit hx hm hp hl => exact locked_unlock h rfl fun j hj => if_neg hj
  | fail hx hm hp => exact locked_unlock h rfl fun j hj => if_neg hj
  | crash i => exact locked_unlock h rfl fun j hj => if_neg hj

end

/-- Whatever any number of relays, writers and crashes have made of the table: once no relay has a session
and every lease on a waiting row has lapsed, one relay alone leaves no row waiting after so many steps of its
polls, however the broker answers on the rows' topics, if it takes the dead-letter copies. It can always take
the next step. -/
theorem outbox_drains {cfg : Settings} (hbatch : 0 < cfg.batchSize) {before after : List (Action π)} {w w' : World π} {i : ℕ}
    (hbefore : run (step cfg) World.empty before = some w) (hidle : ∀ j, w.relays j = none)
    (hlapsed : ∀ r ∈ w.rows, r.stillPending = true → r.leaseExpired cfg.leaseSeconds w.now = true)
    (hafter : run (step cfg) w after = some w') (halone : ∀ a ∈ after, OfRelay i a) :
    (6 * attemptsLeft cfg w.rows + 5 < after.countP isStep → ∀ r ∈ w'.rows, r.stillPending = false) ∧
      ∃ a, OfRelay i a ∧ isStep a = true ∧ (step cfg w' a).isSome = true := by
  have hinv : Inv w := Run.inv (fun w a w' => inv_step) inv_empty hbefore
  have hlocked : Locked w := Run.inv (fun _ _ _ h hs => locked_step h hs) (fun l hl => (by cases hl)) hbefore
  have hlocks : w.locks = [] := List.eq_nil_iff_forall_not_mem.2 fun l hl => hlocked l hl (hidle l.1)
  have hstart : Alone cfg i w :=
    ⟨hinv.rows.ids, by simp [hlocks], fun _ => ⟨hlocks, hlapsed⟩, fun x hx => by rw [hidle i] at hx; cases hx⟩
  have hend := (Potential.paid (pays hbatch) hstart halone hafter).1
  refine ⟨fun hlong => ?_, alone_moves hend⟩
  have hpotential : potential cfg i w = 6 * attemptsLeft cfg w.rows + 5 := by simp [potential, hidle i, stepsLeft]
  have hdone := Potential.done (pays hbatch) hstart halone hafter (by rw [hpotential]; exact hlong)
  intro r hr
  by_contra hpending
  exact hdone ⟨r, hr, by simpa using hpending⟩

/-- Two rows with one attempt each: a relay has crashed on the first, and another copies both to the
dead-letter topic. -/
def abandoned : List (Action Unit) :=
  [.write 1 "care.events" "alocasia" (), .write 2 "care.events" "alocasia" (), .fetch 0 [], .crash 0]

def refusedThrice : List (Action Unit) :=
  [.fetch 4 [], .publish 4 (.error false "y"), .publish 4 (.error true "y"), .publish 4 (.error false "y"),
    .publishDeadLetter 4 .ok, .commit 4 true]

/-- The settings of one attempt. -/
def oneAttempt : Settings := ⟨100, 60, 1⟩

theorem run_abandoned : (run (step oneAttempt) World.empty abandoned).isSome := by decide

def abandonedWorld : World Unit := (run (step oneAttempt) World.empty abandoned).get run_abandoned

theorem run_refusedThrice : (run (step oneAttempt) abandonedWorld (refusedThrice ++ refusedThrice ++ List.replicate 6 (.fetch 4 []))).isSome := by
  decide

theorem outbox_drains_refused : ∃ w', run (step oneAttempt) abandonedWorld
      (refusedThrice ++ refusedThrice ++ List.replicate 6 (.fetch 4 [])) = some w' ∧ w'.deadLetters.length = 2 ∧
    ∀ r ∈ w'.rows, r.stillPending = false := by
  obtain ⟨w', hrun⟩ := Option.isSome_iff_exists.1 run_refusedThrice
  refine ⟨w', hrun, ?_, ?_⟩
  · have hdead : (run (step oneAttempt) abandonedWorld (refusedThrice ++ refusedThrice ++ List.replicate 6 (.fetch 4 []))).map
        (·.deadLetters.length) = some 2 := by decide
    rw [hrun] at hdead
    exact Option.some.inj hdead
  · have hidle : ∀ j, abandonedWorld.relays j = none := by
      intro j
      cases j <;> rfl
    have halone : ∀ a ∈ refusedThrice ++ refusedThrice ++ List.replicate 6 (.fetch 4 []), OfRelay 4 a := by
      simp [refusedThrice, OfRelay]
    exact (outbox_drains (by decide) (Option.some_get run_abandoned).symm hidle (by decide) hrun halone).1 (by decide)

end Plantkeeper.Outbox
