/-
One publisher per row under a live lease. The ledger keeps every claim a relay made and has not
recorded an outcome for; a claim is live until the lease after its instant has passed. The row carries
an instant and no owner, so a claim stays alone only while nobody else's late outcome clears that
instant and while the transaction that made it is not rolled back. Over every run whose steps keep to
that, a poll returns no row under a live claim.
-/
import Plantkeeper.Outbox.NoLoss

namespace Plantkeeper.Outbox

open Plantkeeper.Run

variable {π : Type}

/-! ## The ledger of claims -/

/-- A relay's poll returned the row, at this instant of the database clock. -/
structure Claim where
  relay : ℕ
  row : ℕ
  since : Instant
  deriving DecidableEq, Repr

/-- A world with the claims that have no outcome yet. -/
structure Ledger (π : Type) where
  world : World π
  claims : List Claim

def Ledger.empty : Ledger π := ⟨World.empty, []⟩

/-- The relay recorded an outcome for its claim of the message. -/
def closeClaim (i : ℕ) (m : Row π) (claims : List Claim) : List Claim :=
  claims.filter fun c => !(c.relay == i && c.row == m.id && m.claimedAt == some c.since)

/-- A poll opens a claim for each message of its batch; the commit of an outcome closes the relay's own. -/
def recordClaims (w w' : World π) (claims : List Claim) : Action π → List Claim
  | .fetch i _ =>
    match w'.relays i with
    | some x => claims ++ x.messages.map fun m => ⟨i, m.id, w.now⟩
    | none => claims
  | .commit i true =>
    match w.relays i with
    | some x =>
      match x.messages with
      | m :: _ => closeClaim i m claims
      | [] => claims
    | none => claims
  | _ => claims

theorem mem_closeClaim {i : ℕ} {m : Row π} {claims : List Claim} {c : Claim} : c ∈ closeClaim i m claims ↔
    c ∈ claims ∧ ¬ (c.relay = i ∧ c.row = m.id ∧ m.claimedAt = some c.since) := by
  unfold closeClaim
  rw [List.mem_filter]
  grind

def Ledger.step (cfg : Settings) (s : Ledger π) (a : Action π) : Option (Ledger π) :=
  (Outbox.step cfg s.world a).map fun w' => ⟨w', recordClaims s.world w' s.claims a⟩

/-- The claim is over: its lease has run out. -/
def Expired (cfg : Settings) (now : Instant) (c : Claim) : Prop := c.since + seconds cfg.leaseSeconds ≤ now

instance (cfg : Settings) (now : Instant) (c : Claim) : Decidable (Expired cfg now c) :=
  inferInstanceAs (Decidable (c.since + seconds cfg.leaseSeconds ≤ now))

/-- Whatever a poll would claim now is under no live claim. -/
def Exclusive (cfg : Settings) (s : Ledger π) : Prop :=
  ∀ skipped : List ℕ, ∀ m ∈ fetchUnpublished s.world.rows (s.world.locks.map (·.2) ++ skipped) s.world.now
    cfg.batchSize cfg.leaseSeconds, ∀ c ∈ s.claims, c.row = m.id → Expired cfg s.world.now c

/-! ## The steps a lease covers -/

/-- The transaction of a poll's claims may be rolled back only after their lease. -/
def RollsBack (cfg : Settings) (w : World π) (x : Session π) : Prop :=
  (∃ u ∈ x.staged, u.2 = .claim) → ∀ t ∈ x.began, t + seconds cfg.leaseSeconds ≤ w.now

instance (cfg : Settings) (w : World π) (x : Session π) : Decidable (RollsBack cfg w x) :=
  inferInstanceAs (Decidable ((∃ u ∈ x.staged, u.2 = .claim) → _))

/-- A recorded failure leaves the row waiting and unclaimed. -/
def Session.recordsFailure (x : Session π) (id : ℕ) : Bool :=
  x.staged.any fun u => u.1 == id && match u.2 with
    | .recordFailure _ => true
    | _ => false

/-- A failure is recorded only where the lease on the waiting row is the relay's own or has run out. -/
def Releases (cfg : Settings) (w : World π) (x : Session π) (m : Row π) : Prop :=
  x.recordsFailure m.id = true → ∀ r ∈ w.rows, r.id = m.id → r.stillPending = true →
    ∀ t ∈ r.claimedAt, m.claimedAt = some t ∨ t + seconds cfg.leaseSeconds ≤ w.now

instance (cfg : Settings) (w : World π) (x : Session π) (m : Row π) : Decidable (Releases cfg w x m) :=
  inferInstanceAs (Decidable (x.recordsFailure m.id = true → ∀ r ∈ w.rows, _ → _ → _))

/-- The steps that leave other claims alone and no claim of their own behind. -/
def OwnLease (cfg : Settings) (s : Ledger π) : Action π → Prop
  | .commit i true => ∀ x ∈ s.world.relays i, ∀ m ∈ x.messages.head?, Releases cfg s.world x m
  | .commit i false => ∀ x ∈ s.world.relays i, RollsBack cfg s.world x
  | .crash i => ∀ x ∈ s.world.relays i, RollsBack cfg s.world x
  | _ => True

instance (cfg : Settings) (s : Ledger π) : ∀ a, Decidable (OwnLease cfg s a)
  | .commit i true =>
    inferInstanceAs (Decidable (∀ x ∈ s.world.relays i, ∀ m ∈ x.messages.head?, Releases cfg s.world x m))
  | .commit i false => inferInstanceAs (Decidable (∀ x ∈ s.world.relays i, RollsBack cfg s.world x))
  | .crash i => inferInstanceAs (Decidable (∀ x ∈ s.world.relays i, RollsBack cfg s.world x))
  | .advance _ => inferInstanceAs (Decidable True)
  | .write .. => inferInstanceAs (Decidable True)
  | .fetch .. => inferInstanceAs (Decidable True)
  | .publish .. => inferInstanceAs (Decidable True)
  | .publishDeadLetter .. => inferInstanceAs (Decidable True)

/-! ## What a commit leaves of a row -/

/-- The row after the staged updates that are its own. -/
def settle (now : Instant) (us : List (ℕ × Change)) (r : Row π) : Row π :=
  us.foldl (fun r u => if r.id == u.1 then u.2.apply now r else r) r

theorem foldl_update (now : Instant) : ∀ (us : List (ℕ × Change)) (rows : List (Row π)),
    us.foldl (update now) rows = rows.map (settle now us)
  | [], rows => by
    rw [List.foldl_nil]
    exact (List.map_id rows).symm
  | u :: us, rows => by
    rw [List.foldl_cons, foldl_update now us, update, Table.update, List.map_map]
    rfl

theorem settle_append (now : Instant) (us vs : List (ℕ × Change)) (r : Row π) :
    settle now (us ++ vs) r = settle now vs (settle now us r) := List.foldl_append

theorem settle_id (now : Instant) : ∀ (us : List (ℕ × Change)) (r : Row π), (settle now us r).id = r.id
  | [], _ => rfl
  | u :: us, r => by
    unfold settle
    rw [List.foldl_cons]
    refine (settle_id now us _).trans ?_
    split
    · exact apply_id now u.2 r
    · rfl

/-- Updates of other rows leave a row alone. -/
theorem settle_of_not_mem {now : Instant} : ∀ {us : List (ℕ × Change)} {r : Row π}, (∀ u ∈ us, u.1 ≠ r.id) →
    settle now us r = r
  | [], _, _ => rfl
  | u :: us, r, h => by
    have hu : (r.id == u.1) = false := beq_eq_false_iff_ne.2 (h u (List.mem_cons_self ..)).symm
    unfold settle
    rw [List.foldl_cons, hu]
    exact settle_of_not_mem fun v hv => h v (List.mem_cons_of_mem _ hv)

theorem settle_settled {now : Instant} : ∀ {us : List (ℕ × Change)} {r : Row π}, r.stillPending = false →
    (settle now us r).stillPending = false
  | [], _, h => h
  | u :: us, r, h => by
    unfold settle
    rw [List.foldl_cons]
    apply settle_settled
    split
    · exact (later_apply now u.2 r).settled h
    · exact h

/-- The claims of a batch put its instant on every row of it and change nothing else. -/
theorem settle_claims (now : Instant) : ∀ (ms : List (Row π)) (r : Row π),
    settle now (ms.map fun m => (m.id, Change.claim)) r =
      if r.id ∈ ms.map (·.id) then { r with claimedAt := some now } else r
  | [], _ => rfl
  | m :: ms, r => by
    unfold settle
    rw [List.map_cons, List.foldl_cons]
    refine (settle_claims now ms _).trans ?_
    by_cases hm : r.id = m.id
    · simp [hm, Change.apply]
    · have hb : (r.id == m.id) = false := beq_eq_false_iff_ne.2 hm
      simp [hb, hm]

/-! ## The invariant -/

/-- What a session staged before its first outcome: the claims of its batch, whose rows it locks, or
nothing in a later transaction. -/
def Opening (w : World π) (i : ℕ) (x : Session π) (us : List (ℕ × Change)) : Prop :=
  us = [] ∨ (us = x.messages.map (fun m => (m.id, Change.claim)) ∧
    ∀ m ∈ x.messages, m.claimedAt = x.began ∧ (i, m.id) ∈ w.locks)

/-- The outcome of the first message with the release of its claim, once it is recorded. -/
def Outcome (x : Session π) (us : List (ℕ × Change)) : Prop :=
  (us = [] ∧ x.phase ≠ .recorded) ∨
    ∃ m rest c, x.messages = m :: rest ∧ c.isOutcome = true ∧ x.phase = .recorded ∧
      us = [(m.id, c), (m.id, .releaseClaim)]

/-- A session's batch has distinct rows, each under a claim of its relay. -/
structure Shape (s : Ledger π) (i : ℕ) (x : Session π) : Prop where
  ids : (x.messages.map (·.id)).Nodup
  claimed : ∀ m ∈ x.messages, ∃ t, m.claimedAt = some t ∧ ⟨i, m.id, t⟩ ∈ s.claims
  staged : ∃ opening outcome, x.staged = opening ++ outcome ∧ Opening s.world i x opening ∧ Outcome x outcome

/-- A live claim keeps the row from every poll: it is still in its relay's transaction, its instant is
on the row, or the row does not wait any more. -/
def Covered (w : World π) (c : Claim) : Prop :=
  (∃ x, w.relays c.relay = some x ∧ x.began = some c.since ∧ (c.row, Change.claim) ∈ x.staged) ∨
    ∃ r ∈ w.rows, r.id = c.row ∧ (r.claimedAt = some c.since ∨ r.stillPending = false)

structure Leased (cfg : Settings) (s : Ledger π) : Prop where
  base : Inv s.world
  shape : ∀ i x, s.world.relays i = some x → Shape s i x
  past : ∀ c ∈ s.claims, c.since ≤ s.world.now
  apart : ∀ c ∈ s.claims, ∀ d ∈ s.claims, c.row = d.row → c ≠ d →
    Expired cfg d.since c ∨ Expired cfg c.since d
  /-- While a row is in a poll's transaction every other claim on it is over. -/
  alone : ∀ i x, s.world.relays i = some x → ∀ row, (row, Change.claim) ∈ x.staged →
    ∀ c ∈ s.claims, c.row = row → (c.relay = i ∧ x.began = some c.since) ∨ Expired cfg s.world.now c
  covered : ∀ c ∈ s.claims, Expired cfg s.world.now c ∨ Covered s.world c

theorem Expired.mono {cfg : Settings} {now now' : Instant} {c : Claim} (h : Expired cfg now c) (hle : now ≤ now') :
    Expired cfg now' c := le_trans h hle

theorem leased_empty (cfg : Settings) : Leased cfg (Ledger.empty : Ledger π) := by
  refine ⟨inv_empty, ?_, ?_, ?_, ?_, ?_⟩
  · intro i x hx; cases hx
  · intro c hc; cases hc
  · intro c hc; cases hc
  · intro i x hx; cases hx
  · intro c hc; cases hc

/-- A session in order stays so while its relay keeps its claims and its locks. -/
theorem Shape.mono {s s' : Ledger π} {i : ℕ} {x : Session π} (h : Shape s i x)
    (hc : ∀ m ∈ x.messages, ∀ t, ⟨i, m.id, t⟩ ∈ s.claims → ⟨i, m.id, t⟩ ∈ s'.claims)
    (hl : ∀ row, (i, row) ∈ s.world.locks → (i, row) ∈ s'.world.locks) : Shape s' i x := by
  obtain ⟨hids, hcl, opening, outcome, hst, ho, hout⟩ := h
  refine ⟨hids, ?_, opening, outcome, hst, ?_, hout⟩
  · intro m hm
    obtain ⟨t, ht, hmem⟩ := hcl m hm
    exact ⟨t, ht, hc m hm t hmem⟩
  · rcases ho with ho | ⟨he, ho⟩
    · exact .inl ho
    · exact .inr ⟨he, fun m hm => ⟨(ho m hm).1, hl _ (ho m hm).2⟩⟩

/-- The rows of an open claim are locked. -/
theorem Shape.locked {s : Ledger π} {i : ℕ} {x : Session π} (h : Shape s i x) {row : ℕ}
    (hr : (row, Change.claim) ∈ x.staged) : ∃ m ∈ x.messages, m.id = row ∧ m.claimedAt = x.began ∧ (i, row) ∈ s.world.locks := by
  obtain ⟨opening, outcome, hs, ho, hc⟩ := h.staged
  rw [hs, List.mem_append] at hr
  rcases hr with hr | hr
  · rcases ho with rfl | ⟨rfl, hl⟩
    · cases hr
    · obtain ⟨m, hm, he⟩ := List.mem_map.1 hr
      cases he
      exact ⟨m, hm, rfl, hl m hm⟩
  · rcases hc with ⟨rfl, -⟩ | ⟨m, rest, c, -, ho, -, rfl⟩
    · cases hr
    · -- neither an outcome nor a release is a claim
      simp only [List.mem_cons, Prod.mk.injEq, List.not_mem_nil, or_false, reduceCtorEq, and_false] at hr
      rw [← hr.2] at ho; cases ho

/-- The law at one state: a row under a live claim is locked, leased or settled. -/
theorem Leased.exclusive {cfg : Settings} {s : Ledger π} (h : Leased cfg s) : Exclusive cfg s := by
  intro skipped m hm c hc hrow
  obtain ⟨r, hr, hs, hp, -, he, hl⟩ := mem_fetchUnpublished hm
  rcases h.covered c hc with hx | ⟨x, hx, -, hst⟩ | ⟨r', hr', hid, hcl⟩
  · exact hx
  · obtain ⟨-, -, -, -, hlock⟩ := (h.shape c.relay x hx).locked hst
    refine absurd (List.mem_append_left _ (List.mem_map.2 ⟨_, hlock, ?_⟩)) hl
    exact hrow.trans hs.1.symm
  · have hrr : r' = r := List.inj_on_of_nodup_map h.base.rows.ids hr' hr (hid.trans (hrow.trans hs.1.symm))
    subst hrr
    rcases hcl with hcl | hcl
    · unfold Row.leaseExpired at he
      rw [hcl] at he
      simp only [decide_eq_true_eq] at he
      exact Int.add_le_of_le_sub_left (le_of_lt he)
    · rw [hp] at hcl; cases hcl

/-! ## Each step -/

theorem Covered.mono {w w' : World π} {c : Claim} (h : Covered w c) (hrel : w'.relays = w.relays)
    (hrows : w.rows ⊆ w'.rows) : Covered w' c := by
  rcases h with ⟨x, hx, hb, hst⟩ | ⟨r, hr, hid, hcl⟩
  · exact .inl ⟨x, by rw [hrel]; exact hx, hb, hst⟩
  · exact .inr ⟨r, hrows hr, hid, hcl⟩

/-- The clock moves on, or a row is written. -/
theorem leased_quiet {cfg : Settings} {s : Ledger π} {w' : World π} (h : Leased cfg s) (hinv : Inv w')
    (hnow : s.world.now ≤ w'.now) (hrel : w'.relays = s.world.relays) (hlocks : w'.locks = s.world.locks)
    (hrows : s.world.rows ⊆ w'.rows) : Leased cfg ⟨w', s.claims⟩ := by
  refine ⟨hinv, ?_, ?_, h.apart, ?_, ?_⟩
  · intro i x hx
    refine (h.shape i x (by rw [← hrel]; exact hx)).mono (fun m hm t ht => ht) ?_
    intro row hr
    show (i, row) ∈ w'.locks
    rw [hlocks]; exact hr
  · intro c hc
    exact le_trans (h.past c hc) hnow
  · intro i x hx row hrow c hc hcr
    exact (h.alone i x (by rw [← hrel]; exact hx) row hrow c hc hcr).imp id fun he => he.mono hnow
  · intro c hc
    exact (h.covered c hc).imp (fun he => he.mono hnow) fun hcv => hcv.mono hrel hrows

/-- The world after a poll that found rows. -/
def claimBatch (w : World π) (i : ℕ) (batch : List (Row π)) : World π :=
  { w with locks := w.locks ++ batch.map fun m : Row π => (i, m.id) }.setRelay i (some
    { messages := batch, phase := .publishing 0, began := some w.now
      staged := batch.map fun m : Row π => (m.id, .claim) })

theorem exists_of_mem_claims {i : ℕ} {now : Instant} {batch : List (Row π)} {c : Claim}
    (hc : c ∈ batch.map fun m => (⟨i, m.id, now⟩ : Claim)) : ∃ m ∈ batch, c = ⟨i, m.id, now⟩ := by
  obtain ⟨m, hm, rfl⟩ := List.mem_map.1 hc
  exact ⟨m, hm, rfl⟩

/-- The claims of a poll on rows under no live claim are apart from the others. -/
theorem apart_claimBatch {cfg : Settings} {s : Ledger π} {i : ℕ} {batch : List (Row π)} (h : Leased cfg s)
    (hex : ∀ m ∈ batch, ∀ c ∈ s.claims, c.row = m.id → Expired cfg s.world.now c) {c d : Claim}
    (hc : c ∈ s.claims ++ batch.map fun m => ⟨i, m.id, s.world.now⟩)
    (hd : d ∈ s.claims ++ batch.map fun m => ⟨i, m.id, s.world.now⟩) (hrow : c.row = d.row) (hne : c ≠ d) :
    Expired cfg d.since c ∨ Expired cfg c.since d := by
  rcases List.mem_append.1 hc with hc | hc <;> rcases List.mem_append.1 hd with hd | hd
  · exact h.apart c hc d hd hrow hne
  · obtain ⟨m, hm, rfl⟩ := exists_of_mem_claims hd
    exact .inl (hex m hm c hc hrow)
  · obtain ⟨m, hm, rfl⟩ := exists_of_mem_claims hc
    exact .inr (hex m hm d hd hrow.symm)
  · -- one poll claims a row once
    obtain ⟨m, hm, rfl⟩ := exists_of_mem_claims hc
    obtain ⟨m', hm', rfl⟩ := exists_of_mem_claims hd
    simp only at hrow
    rw [hrow] at hne
    exact absurd rfl hne

/-- Rows under no live claim and no lock are claimed, and locked. -/
theorem leased_claimBatch {cfg : Settings} {s : Ledger π} {i : ℕ} {batch : List (Row π)} (h : Leased cfg s)
    (hi : s.world.relays i = none) (hinv : Inv (claimBatch s.world i batch)) (hids : (batch.map (·.id)).Nodup)
    (hnow : ∀ m ∈ batch, m.claimedAt = some s.world.now) (hfree : ∀ m ∈ batch, ∀ j, (j, m.id) ∉ s.world.locks)
    (hex : ∀ m ∈ batch, ∀ c ∈ s.claims, c.row = m.id → Expired cfg s.world.now c) :
    Leased cfg ⟨claimBatch s.world i batch, s.claims ++ batch.map fun m => ⟨i, m.id, s.world.now⟩⟩ := by
  have hold : ∀ j x, (claimBatch s.world i batch).relays j = some x → j ≠ i → s.world.relays j = some x := by
    intro j x hx hj
    simpa [claimBatch, World.setRelay, hj] using hx
  have hown : ∀ x, (claimBatch s.world i batch).relays i = some x → x =
      { messages := batch, phase := .publishing 0, began := some s.world.now
        staged := batch.map fun m : Row π => (m.id, .claim) } := by
    intro x hx
    simpa [claimBatch, World.setRelay, eq_comm] using hx
  refine ⟨hinv, ?_, ?_, ?_, ?_, ?_⟩
  · intro j x hx
    by_cases hj : j = i
    · subst hj
      rw [hown x hx]
      refine ⟨hids, ?_, _, [], (List.append_nil _).symm, .inr ⟨rfl, ?_⟩, .inl ⟨rfl, by simp⟩⟩
      · intro m hm
        exact ⟨_, hnow m hm, List.mem_append_right _ (List.mem_map.2 ⟨m, hm, rfl⟩)⟩
      · intro m hm
        exact ⟨hnow m hm, List.mem_append_right _ (List.mem_map.2 ⟨m, hm, rfl⟩)⟩
    · exact (h.shape j x (hold j x hx hj)).mono (fun m hm t ht => List.mem_append_left _ ht)
        fun row hr => List.mem_append_left _ hr
  · intro c hc
    rcases List.mem_append.1 hc with hc | hc
    · exact h.past c hc
    · obtain ⟨m, -, rfl⟩ := exists_of_mem_claims hc
      exact le_refl s.world.now
  · exact fun c hc d hd => apart_claimBatch h hex hc hd
  · intro j x hx row hrow c hc hcr
    by_cases hj : j = i
    · subst hj
      rw [hown x hx] at hrow ⊢
      obtain ⟨m, hm, he⟩ := List.mem_map.1 hrow
      cases he
      rcases List.mem_append.1 hc with hc | hc
      · exact .inr (hex m hm c hc hcr)
      · obtain ⟨m', -, rfl⟩ := exists_of_mem_claims hc
        exact .inl ⟨rfl, rfl⟩
    · rcases List.mem_append.1 hc with hc | hc
      · exact h.alone j x (hold j x hx hj) row hrow c hc hcr
      · -- the poll skips the rows another transaction holds
        obtain ⟨m, hm, rfl⟩ := exists_of_mem_claims hc
        obtain ⟨-, -, -, -, hlock⟩ := (h.shape j x (hold j x hx hj)).locked hrow
        rw [← hcr] at hlock
        exact absurd hlock (hfree m hm j)
  · intro c hc
    rcases List.mem_append.1 hc with hc | hc
    · rcases h.covered c hc with he | ⟨x, hx, hb, hst⟩ | hr
      · exact .inl he
      · have hj : c.relay ≠ i := by
          intro hj; rw [hj, hi] at hx; cases hx
        exact .inr (.inl ⟨x, by simpa [claimBatch, World.setRelay, hj] using hx, hb, hst⟩)
      · exact .inr (.inr hr)
    · obtain ⟨m, hm, rfl⟩ := exists_of_mem_claims hc
      exact .inr (.inl ⟨_, if_pos rfl, rfl, List.mem_map.2 ⟨m, hm, rfl⟩⟩)

theorem leased_fetch {cfg : Settings} {s : Ledger π} {i : ℕ} (h : Leased cfg s) (hi : s.world.relays i = none)
    (skipped : List ℕ) : Leased cfg
      ⟨fetch cfg s.world i skipped, recordClaims s.world (fetch cfg s.world i skipped) s.claims (.fetch i skipped)⟩ := by
  have hinv : Inv (fetch cfg s.world i skipped) := inv_fetch h.base i skipped
  have hex := h.exclusive skipped
  have hids := fetchUnpublished_ids h.base.rows.ids (s.world.locks.map (·.2) ++ skipped) s.world.now
    cfg.batchSize cfg.leaseSeconds
  unfold fetch at hinv ⊢
  by_cases hb : (fetchUnpublished s.world.rows (s.world.locks.map (·.2) ++ skipped) s.world.now
      cfg.batchSize cfg.leaseSeconds).isEmpty = true
  · simp only [hb, if_true, recordClaims, hi]
    exact h
  · simp only [hb] at hinv ⊢
    have hrec : recordClaims s.world (claimBatch s.world i (fetchUnpublished s.world.rows
        (s.world.locks.map (·.2) ++ skipped) s.world.now cfg.batchSize cfg.leaseSeconds)) s.claims (.fetch i skipped) =
        s.claims ++ (fetchUnpublished s.world.rows (s.world.locks.map (·.2) ++ skipped) s.world.now
          cfg.batchSize cfg.leaseSeconds).map fun m => ⟨i, m.id, s.world.now⟩ := by
      simp [recordClaims, claimBatch, World.setRelay]
    show Leased cfg ⟨claimBatch s.world i _, recordClaims s.world (claimBatch s.world i _) s.claims (.fetch i skipped)⟩
    rw [hrec]
    refine leased_claimBatch h hi hinv hids ?_ ?_ hex
    · intro m hm
      obtain ⟨r, -, rfl⟩ := List.mem_map.1 hm
      rfl
    · intro m hm j hj
      obtain ⟨r, -, hs, -, -, -, hl⟩ := mem_fetchUnpublished hm
      exact hl (List.mem_append_left _ (List.mem_map.2 ⟨_, hj, hs.1.symm⟩))

theorem setRelay_relays {w : World π} {i j : ℕ} {x : Option (Session π)} {y : Session π}
    (h : (w.setRelay i x).relays j = some y) : (j = i ∧ x = some y) ∨ (j ≠ i ∧ w.relays j = some y) := by
  simp only [World.setRelay] at h
  split at h
  · rename_i hj
    exact .inl ⟨hj, h⟩
  · rename_i hj
    exact .inr ⟨hj, h⟩

/-- An attempt keeps what a session staged, and the instant of its claims. -/
theorem Attempted.staged {now : Instant} {m : Row π} {x y : Session π} (h : Attempted now m x y) :
    x.staged ⊆ y.staged ∧ (∀ t, x.began = some t → y.began = some t) ∧
      ∀ row, (row, Change.claim) ∈ y.staged → (row, Change.claim) ∈ x.staged := by
  rcases h with ⟨p, -, rfl⟩ | ⟨c, hc, rfl⟩
  · exact ⟨List.Subset.refl _, fun t ht => ht, fun row hr => hr⟩
  · refine ⟨List.subset_append_left _ _, ?_, ?_⟩
    · intro t ht
      simp [Session.record, ht]
    · intro row hr
      simp only [Session.record, List.mem_append, List.mem_cons, Prod.mk.injEq, List.not_mem_nil, or_false,
        reduceCtorEq, and_false] at hr
      rcases hr with hr | ⟨-, hr⟩
      · exact hr
      · rw [← hr] at hc; cases hc

theorem Shape.attempted {s s' : Ledger π} {i : ℕ} {x y : Session π} {m : Row π} {rest : List (Row π)}
    {now : Instant} (h : Shape s i x) (hy : Attempted now m x y) (hm : x.messages = m :: rest)
    (hp : x.phase ≠ .recorded) (hc : s'.claims = s.claims) (hl : s'.world.locks = s.world.locks) : Shape s' i y := by
  obtain ⟨hids, hcl, opening, outcome, hst, ho, hout⟩ := h
  obtain ⟨-, hbegan, -⟩ := hy.staged
  refine ⟨by rw [hy.messages]; exact hids, by rw [hy.messages, hc]; exact hcl, opening, ?_⟩
  have hopen : Opening s'.world i y opening := by
    rcases ho with ho | ⟨he, ho⟩
    · exact .inl ho
    · refine .inr ⟨by rw [hy.messages]; exact he, ?_⟩
      intro q hq
      rw [hy.messages] at hq
      obtain ⟨t, ht, -⟩ := hcl q hq
      have hxb : x.began = some t := (ho q hq).1.symm.trans ht
      rw [hbegan t hxb, hl]
      exact ⟨ht, (ho q hq).2⟩
  -- nothing was recorded yet, so the session holds its opening alone
  have hnone : outcome = [] := by
    rcases hout with ⟨h0, -⟩ | ⟨_, _, _, _, _, hph, _⟩
    · exact h0
    · exact absurd hph hp
  subst hnone
  rw [List.append_nil] at hst
  rcases hy with ⟨p, hne, rfl⟩ | ⟨c, hco, rfl⟩
  · exact ⟨[], by rw [List.append_nil]; exact hst, hopen, .inl ⟨rfl, hne⟩⟩
  · refine ⟨[(m.id, c), (m.id, .releaseClaim)], ?_, hopen, .inr ⟨m, rest, c, hm, hco, rfl, rfl⟩⟩
    simp only [Session.record, hst]

theorem leased_attempt {cfg : Settings} {s : Ledger π} {w' : World π} {i : ℕ} {x y : Session π} {m : Row π}
    {rest : List (Row π)} (h : Leased cfg s) (hinv : Inv (w'.setRelay i (some y))) (hx : s.world.relays i = some x)
    (hm : x.messages = m :: rest) (hp : x.phase ≠ .recorded) (hy : Attempted s.world.now m x y)
    (hnow : w'.now = s.world.now) (hrows : w'.rows = s.world.rows) (hrel : w'.relays = s.world.relays)
    (hlocks : w'.locks = s.world.locks) : Leased cfg ⟨w'.setRelay i (some y), s.claims⟩ := by
  obtain ⟨hsub, hbegan, hback⟩ := hy.staged
  refine ⟨hinv, ?_, ?_, h.apart, ?_, ?_⟩
  · intro j z hz
    rcases setRelay_relays hz with ⟨rfl, hz'⟩ | ⟨-, hz'⟩
    · cases hz'
      exact (h.shape j x hx).attempted hy hm hp rfl hlocks
    · rw [hrel] at hz'
      refine (h.shape j z hz').mono (fun m hm t ht => ht) ?_
      intro row hr
      show (j, row) ∈ w'.locks
      rw [hlocks]; exact hr
  · intro c hc
    show c.since ≤ w'.now
    rw [hnow]; exact h.past c hc
  · intro j z hz row hrow c hc hcr
    show _ ∨ Expired cfg w'.now c
    rw [hnow]
    rcases setRelay_relays hz with ⟨rfl, hz'⟩ | ⟨-, hz'⟩
    · cases hz'
      exact (h.alone j x hx row (hback row hrow) c hc hcr).imp (fun ho => ⟨ho.1, hbegan _ ho.2⟩) id
    · rw [hrel] at hz'
      exact h.alone j z hz' row hrow c hc hcr
  · intro c hc
    show Expired cfg w'.now c ∨ _
    rw [hnow]
    rcases h.covered c hc with he | ⟨z, hz, hb, hst⟩ | hr
    · exact .inl he
    · right; left
      by_cases hj : c.relay = i
      · rw [hj, hx] at hz
        cases hz
        exact ⟨y, if_pos hj, hbegan _ hb, hsub hst⟩
      · exact ⟨z, by simpa [World.setRelay, hj, hrel] using hz, hb, hst⟩
    · right; right
      show ∃ r ∈ w'.rows, _
      rw [hrows]; exact hr

/-- A session ends without a commit, after the lease of claims it had not committed. -/
theorem leased_rollback {cfg : Settings} {s : Ledger π} {i : ℕ} (h : Leased cfg s)
    (hrb : ∀ x ∈ s.world.relays i, RollsBack cfg s.world x) :
    Leased cfg ⟨(s.world.unlock i).setRelay i none, s.claims⟩ := by
  refine ⟨inv_stop h.base i, ?_, h.past, h.apart, ?_, ?_⟩
  · intro j z hz
    rcases setRelay_relays hz with ⟨-, hz'⟩ | ⟨hj, hz'⟩
    · cases hz'
    · refine (h.shape j z hz').mono (fun m hm t ht => ht) ?_
      intro row hr
      exact List.mem_filter.2 ⟨hr, by simpa using hj⟩
  · intro j z hz row hrow c hc hcr
    rcases setRelay_relays hz with ⟨-, hz'⟩ | ⟨hj, hz'⟩
    · cases hz'
    · exact h.alone j z hz' row hrow c hc hcr
  · intro c hc
    rcases h.covered c hc with he | ⟨x, hx, hb, hst⟩ | hr
    · exact .inl he
    · by_cases hj : c.relay = i
      · rw [hj] at hx
        exact .inl (hrb x hx ⟨_, hst, rfl⟩ c.since hb)
      · exact .inr (.inl ⟨x, by simpa [World.setRelay, World.unlock, hj] using hx, hb, hst⟩)
    · exact .inr (.inr hr)

/-- What a commit leaves of a row that is not the first message's: the instant of the poll where its
claim is committed too, and otherwise the row itself. -/
theorem settle_other {s : Ledger π} {i : ℕ} {x : Session π} {m : Row π} {rest : List (Row π)} (hsh : Shape s i x)
    (hm : x.messages = m :: rest) {now : Instant} {r : Row π} (hr : r.id ≠ m.id) :
    ((r.id, Change.claim) ∈ x.staged ∧ (settle now x.staged r).claimedAt = some now) ∨
      ((r.id, Change.claim) ∉ x.staged ∧ settle now x.staged r = r) := by
  obtain ⟨-, -, opening, outcome, hst, ho, hout⟩ := hsh
  have hother : ∀ u ∈ outcome, u.1 ≠ r.id := by
    intro u hu hid
    rcases hout with ⟨rfl, -⟩ | ⟨m', rest', c, hm', -, -, rfl⟩
    · cases hu
    · rw [hm] at hm'
      cases hm'
      simp only [List.mem_cons, List.not_mem_nil, or_false] at hu
      rcases hu with rfl | rfl <;> exact hr hid.symm
  by_cases hin : (r.id, Change.claim) ∈ x.staged
  · left
    refine ⟨hin, ?_⟩
    rw [hst, List.mem_append] at hin
    have hopen := hin.resolve_right fun h0 => hother _ h0 rfl
    rw [hst, settle_append, settle_of_not_mem (r := settle now opening r) (by rw [settle_id]; exact hother)]
    rcases ho with rfl | ⟨rfl, -⟩
    · cases hopen
    · obtain ⟨q, hq, he⟩ := List.mem_map.1 hopen
      rw [settle_claims, if_pos (List.mem_map.2 ⟨q, hq, congrArg Prod.fst he⟩)]
  · right
    refine ⟨hin, settle_of_not_mem ?_⟩
    intro u hu hid
    rw [hst] at hu hin
    rcases List.mem_append.1 hu with hu | hu
    · rcases ho with rfl | ⟨rfl, -⟩
      · cases hu
      · obtain ⟨q, hq, rfl⟩ := List.mem_map.1 hu
        exact hin (List.mem_append_left _ (List.mem_map.2 ⟨q, hq, by rw [← hid]⟩))
    · exact hother u hu hid

theorem settle_outcome (now : Instant) (c : Change) (r : Row π) :
    settle now [(r.id, c), (r.id, .releaseClaim)] r = Change.releaseClaim.apply now (c.apply now r) := by
  simp [settle, apply_id]

/-- What a commit leaves of the first message's row: it stops waiting, unless a failure was recorded. -/
theorem settle_first {s : Ledger π} {i : ℕ} {x : Session π} {m : Row π} {rest : List (Row π)} (hsh : Shape s i x)
    (hm : x.messages = m :: rest) (hp : x.phase = .recorded) {now : Instant} {r : Row π} (hr : r.id = m.id) :
    (settle now x.staged r).stillPending = false ∨ x.recordsFailure m.id = true := by
  obtain ⟨-, -, opening, outcome, hst, ho, hout⟩ := hsh
  rcases hout with ⟨-, hne⟩ | ⟨m', rest', c, hm', hc, -, rfl⟩
  · exact absurd hp hne
  · rw [hm] at hm'
    cases hm'
    have hid : m.id = (settle now opening r).id := by
      rw [settle_id]; exact hr.symm
    cases c with
    | recordFailure error =>
      right
      unfold Session.recordsFailure
      rw [hst, List.any_append]
      simp
    | markPublished =>
      left
      rw [hst, settle_append, hid, settle_outcome]
      rfl
    | deadLetter error =>
      left
      rw [hst, settle_append, hid, settle_outcome]
      simp [Change.apply, Row.stillPending]
    | claim => cases hc
    | releaseClaim => cases hc

/-- A row of the table is settled by the commit. -/
theorem mem_commit_rows {w : World π} {i : ℕ} {x : Session π} {rest : List (Row π)} {r : Row π} (hr : r ∈ w.rows) :
    settle (x.began.getD w.now) x.staged r ∈ (commit w i x rest).rows := by
  show _ ∈ x.staged.foldl _ _
  rw [foldl_update]
  exact List.mem_map.2 ⟨r, hr, rfl⟩

/-- The relay's own claim on another row goes into the table with the commit. -/
theorem covered_own {cfg : Settings} {s : Ledger π} {i : ℕ} {x : Session π} {m : Row π} {rest : List (Row π)} {c : Claim}
    (h : Leased cfg s) (hx : s.world.relays i = some x) (hm : x.messages = m :: rest) (hj : c.relay = i)
    (hb : x.began = some c.since) (hst : (c.row, Change.claim) ∈ x.staged) (hc : c ∈ closeClaim i m s.claims) :
    Covered (commit s.world i x rest) c := by
  have hsh := h.shape i x hx
  obtain ⟨q, hq, hqid, hqb, -⟩ := hsh.locked hst
  obtain ⟨r, hr, hs⟩ := (h.base.sessions i x hx).messages q hq
  have hne : r.id ≠ m.id := by
    intro h0
    have hqm : q = m := List.inj_on_of_nodup_map hsh.ids hq (hm ▸ List.mem_cons_self ..) (hs.1.symm.trans h0)
    subst hqm
    exact (mem_closeClaim.1 hc).2 ⟨hj, hqid.symm, hqb.trans hb⟩
  have hrc : r.id = c.row := hs.1.trans hqid
  refine .inr ⟨_, mem_commit_rows hr, (settle_id _ _ r).trans hrc, .inl ?_⟩
  rcases settle_other hsh hm hne with ⟨-, h1⟩ | ⟨h1, -⟩
  · rw [h1, hb]; rfl
  · rw [hrc] at h1; exact absurd hst h1

/-- A claim in the table stays there, is settled, or its lease has run out. -/
theorem covered_row {cfg : Settings} {s : Ledger π} {i : ℕ} {x : Session π} {m : Row π} {rest : List (Row π)} {c : Claim}
    {r : Row π} (h : Leased cfg s) (hx : s.world.relays i = some x) (hm : x.messages = m :: rest) (hp : x.phase = .recorded)
    (hok : Releases cfg s.world x m) (hc : c ∈ closeClaim i m s.claims) (hr : r ∈ s.world.rows) (hid : r.id = c.row)
    (hcl : r.claimedAt = some c.since) :
    Expired cfg s.world.now c ∨ Covered (commit s.world i x rest) c := by
  have hsh := h.shape i x hx
  have hin : settle (x.began.getD s.world.now) x.staged r ∈ (commit s.world i x rest).rows := mem_commit_rows hr
  have hid' := (settle_id (x.began.getD s.world.now) x.staged r).trans hid
  obtain ⟨hcm, hnot⟩ := mem_closeClaim.1 hc
  by_cases hrm : r.id = m.id
  · rcases settle_first hsh hm hp hrm with h1 | hf
    · exact .inr (.inr ⟨_, hin, hid', .inr h1⟩)
    · -- a failure leaves the row waiting: its lease was the relay's own, or over
      cases hpend : r.stillPending with
      | false => exact .inr (.inr ⟨_, hin, hid', .inr (settle_settled hpend)⟩)
      | true =>
        left
        rcases hok hf r hr hrm hpend c.since hcl with hown | he
        · obtain ⟨t, ht, hd⟩ := hsh.claimed m (hm ▸ List.mem_cons_self ..)
          rw [hown] at ht
          cases ht
          have hne : c ≠ ⟨i, m.id, c.since⟩ := by
            intro h0
            exact hnot ⟨congrArg Claim.relay h0, congrArg Claim.row h0, hown⟩
          rcases h.apart c hcm _ hd (hid.symm.trans hrm) hne with h1 | h1
          · exact Expired.mono h1 (h.past c hcm)
          · exact Expired.mono (c := c) h1 (h.past c hcm)
        · exact he
  · rcases settle_other hsh hm hrm with ⟨hst, h1⟩ | ⟨-, h1⟩
    · rcases h.alone i x hx _ hst c hcm hid.symm with ⟨-, hb⟩ | he
      · exact .inr (.inr ⟨_, hin, hid', .inl (by rw [h1, hb]; rfl)⟩)
      · exact .inl he
    · exact .inr (.inr ⟨_, hin, hid', .inl (by rw [h1]; exact hcl)⟩)

/-- The outcome of the first message is committed, and with it the claims of its poll. -/
theorem leased_commit {cfg : Settings} {s : Ledger π} {i : ℕ} {x : Session π} {m : Row π} {rest : List (Row π)}
    (h : Leased cfg s) (hx : s.world.relays i = some x) (hm : x.messages = m :: rest) (hp : x.phase = .recorded)
    (hok : Releases cfg s.world x m) :
    Leased cfg ⟨commit s.world i x rest, closeClaim i m s.claims⟩ := by
  have hsh := h.shape i x hx
  have hsub : ∀ c ∈ closeClaim i m s.claims, c ∈ s.claims := fun c hc => (mem_closeClaim.1 hc).1
  refine ⟨inv_commit h.base hx hm, ?_, ?_, ?_, ?_, ?_⟩
  · intro j z hz
    rcases setRelay_relays hz with ⟨rfl, hz'⟩ | ⟨hj, hz'⟩
    · split at hz'
      · cases hz'
      · cases hz'
        have hnd := hsh.ids
        rw [hm, List.map_cons, List.nodup_cons] at hnd
        refine ⟨hnd.2, ?_, [], [], rfl, .inl rfl, .inl ⟨rfl, by simp⟩⟩
        intro q hq
        obtain ⟨t, ht, hc⟩ := hsh.claimed q (hm ▸ List.mem_cons_of_mem _ hq)
        refine ⟨t, ht, mem_closeClaim.2 ⟨hc, ?_⟩⟩
        rintro ⟨-, hid, -⟩
        exact hnd.1 (List.mem_map.2 ⟨q, hq, hid⟩)
    · refine (h.shape j z hz').mono (fun q hq t ht => mem_closeClaim.2 ⟨ht, fun h0 => hj h0.1⟩) ?_
      intro row hr
      exact List.mem_filter.2 ⟨hr, by simpa using hj⟩
  · exact fun c hc => h.past c (hsub c hc)
  · exact fun c hc d hd => h.apart c (hsub c hc) d (hsub d hd)
  · intro j z hz row hrow c hc hcr
    rcases setRelay_relays hz with ⟨rfl, hz'⟩ | ⟨hj, hz'⟩
    · split at hz'
      · cases hz'
      · cases hz'; cases hrow
    · exact h.alone j z hz' row hrow c (hsub c hc) hcr
  · intro c hc
    rcases h.covered c (hsub c hc) with he | ⟨z, hz, hb, hst⟩ | ⟨r, hr, hid, hcl⟩
    · exact .inl he
    · by_cases hj : c.relay = i
      · rw [hj, hx] at hz
        cases hz
        exact .inr (covered_own h hx hm hj hb hst hc)
      · exact .inr (.inl ⟨z, by simpa [commit, World.setRelay, World.unlock, hj] using hz, hb, hst⟩)
    · rcases hcl with hcl | hcl
      · exact covered_row h hx hm hp hok hc hr hid hcl
      · exact .inr (.inr ⟨_, mem_commit_rows hr, (settle_id _ _ r).trans hid, .inr (settle_settled hcl)⟩)

theorem leased_step {cfg : Settings} {s s' : Ledger π} {a : Action π} (h : Leased cfg s) (hok : OwnLease cfg s a)
    (ht : Ledger.step cfg s a = some s') : Leased cfg s' := by
  obtain ⟨w', hw, rfl⟩ := Option.map_eq_some_iff.1 ht
  have hinv := inv_step h.base hw
  cases step_move hw with
  | advance d =>
    exact leased_quiet h hinv (Int.le_add_of_nonneg_right (Int.natCast_nonneg d)) rfl rfl (List.Subset.refl _)
  | write topic key body hid => exact leased_quiet h hinv (le_refl _) rfl rfl (List.subset_append_left _ _)
  | fetch skipped hx => exact leased_fetch h hx skipped
  | @publish i x m rest failures answer hx hm hp =>
    obtain ⟨y, hy, he⟩ := publish_eq cfg s.world i x m failures answer
    obtain ⟨h1, h2, h3, h4⟩ := accept_frame s.world answer.taken m
    rw [he] at hinv ⊢
    exact leased_attempt h hinv hx hm (by rw [hp]; simp) hy h1 h2 h3 h4
  | @publishDeadLetter i x m rest error answer hx hm hp =>
    obtain ⟨y, hy, he⟩ := publishDeadLetter_eq s.world i x m error answer
    obtain ⟨h1, h2, h3, h4, -⟩ := acceptDeadLetter_frame s.world answer.taken m
    rw [he] at hinv ⊢
    exact leased_attempt h hinv hx hm (by rw [hp]; simp) hy h1 h2 h3 h4
  | @commit i x m rest hx hm hp hl =>
    have hrec : recordClaims s.world (commit s.world i x rest) s.claims (.commit i true) = closeClaim i m s.claims := by
      simp only [recordClaims, hx, hm]
    rw [hrec]
    exact leased_commit h hx hm hp (hok x hx m (by rw [hm]; rfl))
  | fail hx hm hp => exact leased_rollback h hok
  | crash i => exact leased_rollback h hok

/-! ## One publisher per row -/

/-- In every state reached by steps that keep to their own lease, whatever the relays, the broker and
the clock do: a row that a relay claimed and recorded no outcome for is returned by no poll before the
lease has passed since that claim. -/
theorem one_publisher_per_lease (cfg : Settings) {acts : List (Action π)} {s : Ledger π}
    (hm : Meets (Ledger.step cfg) (OwnLease cfg) Ledger.empty acts)
    (h : run (Ledger.step cfg) Ledger.empty acts = some s) : Exclusive cfg s :=
  (inv_of_meets (fun _ _ _ => leased_step) (leased_empty cfg) hm h).exclusive

/-- A relay claims two rows and delivers the first. -/
def claimedTwo : List (Action Unit) :=
  [.write 1 "care.events" "fern" (), .write 2 "care.events" "ivy" (),
    .fetch 0 [], .publish 0 .ok, .commit 0 true, .advance 1000000]

/-- The second row stays the relay's alone. -/
theorem one_publisher_per_lease_two :
    ∃ s, run (Ledger.step settings) Ledger.empty claimedTwo = some s ∧ ⟨0, 2, 0⟩ ∈ s.claims ∧ Exclusive settings s := by
  have hrun : run (Ledger.step settings) Ledger.empty claimedTwo =
      some ((run (Ledger.step settings) Ledger.empty claimedTwo).get (by decide)) := (Option.some_get _).symm
  exact ⟨_, hrun, by decide, one_publisher_per_lease settings (by decide) hrun⟩

def refused : Answer := .error false "broker unavailable"

/-- Relay 0 claims two rows and stalls on the second past its lease; relay 1 takes both over and
delivers the first; then relay 0 comes back and records that its publish of the second failed. -/
def takenOver : List (Action Unit) :=
  [.write 1 "care.events" "fern" (), .write 2 "care.events" "ivy" (),
    .fetch 0 [], .publish 0 refused, .publish 0 refused, .publish 0 refused, .commit 0 true,
    .advance 61000000, .fetch 1 [], .publish 1 .ok, .commit 1 true,
    .publish 0 refused, .publish 0 refused, .publish 0 refused, .commit 0 true]

/-- At that instant a third relay's poll returns the row relay 1 has just claimed. -/
theorem late_failure_clears_lease :
    ∃ s, run (Ledger.step settings) Ledger.empty takenOver = some s ∧ (s.world.relays 2).isNone = true ∧
      ⟨1, 2, 61000000⟩ ∈ s.claims ∧ s.world.now = 61000000 ∧ ¬ Exclusive settings s := by
  have hrun : run (Ledger.step settings) Ledger.empty takenOver =
      some ((run (Ledger.step settings) Ledger.empty takenOver).get (by decide)) := (Option.some_get _).symm
  refine ⟨_, hrun, by decide, by decide, by decide, ?_⟩
  intro h
  exact absurd (h []) (by decide)

end Plantkeeper.Outbox
