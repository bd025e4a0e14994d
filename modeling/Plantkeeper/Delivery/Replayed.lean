/-
Operators replay dead letters while deliveries go on. A replay deletes the claim that the copy's group
holds on the event and sends the message again, which every group of its topic is offered. No group but
the copy's own handles it another time; that group handles it once more at most for each claim of its
that was deleted, and never twice as long as what is deleted is the claim of a delivery that was not
handled. A step only appends to the committed writes and never reads them, so a run with replays is a run
without them over the writes that still have their claim.
-/
import Plantkeeper.Delivery.HandledOnce

namespace Plantkeeper.Delivery

open Plantkeeper.Run

variable {τ ω : Type}

/-- The world, and the claims operators have deleted, in turn. -/
structure Operated (τ ω : Type) where
  world : World τ ω
  cleared : List Key

def Operated.empty : Operated τ ω := ⟨.empty, []⟩

/-- `clear_claim`: the group has its claim in one of the two ledgers. -/
def World.clearClaim (w : World τ ω) (k : Key) : World τ ω := { w with ledger := w.ledger.filter fun c => c ≠ k }

/-- A subscriber, the broker or a process acts; or an operator replays a dead letter. What the replay sends
is offered like any message; it may also fail between the two. -/
inductive OperatedAction (τ ω : Type)
  | deliver (a : Action τ ω)
  | replay (letter : ℕ)

def operatedStep [DecidableEq τ] (policy : FailurePolicy) (p : Operated τ ω) : OperatedAction τ ω → Option (Operated τ ω)
  | .deliver a => (step policy p.world a).map fun w => { p with world := w }
  | .replay i => p.world.deadLetters[i]?.map fun letter =>
    { world := p.world.clearClaim letter.1
      -- a copy without a claim clears nothing
      cleared := if p.world.ledger.contains letter.1 then p.cleared ++ [letter.1] else p.cleared }

/-- A replay finds that the delivery whose claim it deletes was not handled. -/
def Unhandled (p : Operated τ ω) : OperatedAction τ ω → Prop
  | .deliver _ => True
  | .replay i => ∀ letter, p.world.deadLetters[i]? = some letter → letter.1 ∉ p.world.effects.map Prod.fst

/-! ## Steps append to the writes -/

/-- The same world with other committed writes. -/
def World.withEffects (w : World τ ω) (effects : List (Key × ω)) : World τ ω := { w with effects := effects }

/-- What is done to a world appends to its writes, and whatever these are it does the same. -/
def AppendsBy (new : List (Key × ω)) (f : World τ ω → World τ ω) : Prop :=
  ∀ w, (f w).effects = w.effects ++ new ∧ ∀ effects, f (w.withEffects effects) = (f w).withEffects (effects ++ new)

/-- A step, where it can be taken. -/
def Appends (w : World τ ω) (f : World τ ω → Option (World τ ω)) : Prop :=
  ∀ w', f w = some w' → ∃ new, w'.effects = w.effects ++ new ∧
    ∀ effects, f (w.withEffects effects) = some (w'.withEffects (effects ++ new))

variable {w : World τ ω} {i : ℕ} {d : Subscriber τ ω} {policy : FailurePolicy}

theorem appendsBy_nil {f : World τ ω → World τ ω} (hsame : ∀ w, (f w).effects = w.effects)
    (hframe : ∀ w effects, f (w.withEffects effects) = (f w).withEffects effects) : AppendsBy [] f := by
  intro w
  simp [hsame, hframe]

theorem AppendsBy.appends {f : World τ ω → World τ ω} {new : List (Key × ω)} (h : AppendsBy new f) :
    Appends w fun w => some (f w) := by
  rintro w' ⟨⟩
  exact ⟨new, (h w).1, fun effects => congrArg some ((h w).2 effects)⟩

theorem appends_none : Appends w fun _ => none := by
  rintro w' ⟨⟩

theorem claim_withEffects (w : World τ ω) (i : ℕ) (k : Key) (effects : List (Key × ω)) :
    claim (w.withEffects effects) i k = (claim w i k).map fun c => (c.1.withEffects effects, c.2) := by
  unfold claim
  show (if k ∈ w.ledger then _ else if w.staged.any _ then _ else _) = _
  split
  · rfl
  · split <;> rfl

theorem claim_effects {w' : World τ ω} {k : Key} {b : Bool} (h : claim w i k = some (w', b)) : w'.effects = w.effects := by
  rcases claim_cases h with ⟨-, rfl, -⟩ | ⟨-, -, rfl, -⟩ <;> rfl

/-- A claim, and what is done when the row is there and when it is new. -/
theorem appends_claim {k : Key} {there isNew : World τ ω → World τ ω} {newThere newNew : List (Key × ω)}
    (hthere : AppendsBy newThere there) (hnew : AppendsBy newNew isNew) :
    Appends w fun w =>
      match claim w i k with
      | none => none
      | some (w', false) => some (there w')
      | some (w', true) => some (isNew w') := by
  intro w' h
  cases hclaim : claim w i k with
  | none =>
    simp only [hclaim] at h
    cases h
  | some c =>
    obtain ⟨w₁, b⟩ := c
    have heffects := claim_effects hclaim
    cases b <;> simp only [hclaim, Option.some.injEq] at h <;> subst h
    · refine ⟨newThere, by rw [(hthere w₁).1, heffects], fun effects => ?_⟩
      simp only [claim_withEffects, hclaim, Option.map_some, (hthere w₁).2]
    · refine ⟨newNew, by rw [(hnew w₁).1, heffects], fun effects => ?_⟩
      simp only [claim_withEffects, hclaim, Option.map_some, (hnew w₁).2]

/-! ### The calls -/

theorem appendsBy_put (d : Subscriber τ ω) : AppendsBy [] fun w => w.put i d := appendsBy_nil (fun _ => rfl) fun _ _ => rfl

theorem appendsBy_raise : AppendsBy [] fun w : World τ ω => w.raise i := appendsBy_nil (fun _ => rfl) fun _ _ => rfl

theorem appendsBy_ack : AppendsBy [] fun w => w.ack i d := appendsBy_nil (fun _ => rfl) fun _ _ => rfl

theorem appendsBy_failed (d : Subscriber τ ω) : AppendsBy [] fun w => (w.rollback i).put i d :=
  appendsBy_nil (fun _ => rfl) fun _ _ => rfl

/-- A commit appends what is tracked. -/
theorem appendsBy_commit {f : World τ ω → World τ ω} (hf : AppendsBy [] f) :
    AppendsBy (d.tracked.map fun writes => (d.key, writes)) fun w => f (w.commit i d) := by
  intro w
  obtain ⟨hsame, hframe⟩ := hf (w.commit i d)
  refine ⟨?_, fun effects => ?_⟩
  · rw [List.append_nil] at hsame
    exact hsame
  · have hcommit : (w.withEffects effects).commit i d =
        (w.commit i d).withEffects (effects ++ d.tracked.map fun writes => (d.key, writes)) := rfl
    show f ((w.withEffects effects).commit i d) = (f (w.commit i d)).withEffects _
    rw [hcommit, hframe, List.append_nil]

theorem appends_claimAttempt (n : ℕ) (outcome : Outcome) : Appends w fun w => claimAttempt policy w i d n outcome := by
  cases outcome with
  | failed e => exact (appendsBy_failed _).appends
  | lost e => exact (appendsBy_failed _).appends
  | done => exact appends_claim appendsBy_ack (appendsBy_put _)

theorem appends_commitAttempt (n : ℕ) (outcome : Outcome) :
    Appends w fun w => some (commitAttempt policy w i d n outcome) := by
  cases outcome with
  | done => exact (appendsBy_commit appendsBy_ack).appends
  | failed e => exact (appendsBy_failed _).appends
  | lost e => exact (appendsBy_commit (appendsBy_put _)).appends

theorem appends_claimAside (error : Failure) (outcome : Outcome) : Appends w fun w => claimAside w i d error outcome := by
  cases outcome with
  | failed e => exact appendsBy_raise.appends
  | lost e => exact appendsBy_raise.appends
  | done => exact appends_claim appendsBy_ack (appendsBy_put _)

theorem appends_publishAside (error : Failure) (outcome : Outcome) :
    Appends w fun w => some (publishAside w i d error outcome) := by
  cases outcome with
  | done => exact (appendsBy_nil (fun _ => rfl) fun _ _ => rfl).appends
  | failed e => exact appendsBy_raise.appends
  | lost e => exact (appendsBy_nil (fun _ => rfl) fun _ _ => rfl).appends

theorem appends_commitAside (outcome : Outcome) : Appends w fun w => some (commitAside w i d outcome) := by
  cases outcome with
  | done => exact (appendsBy_commit appendsBy_ack).appends
  | failed e => exact appendsBy_raise.appends
  | lost e => exact (appendsBy_commit appendsBy_raise).appends

theorem appends_recordMoveAside (outcome : Outcome) : Appends w fun w => recordMoveAside w i d outcome := by
  cases outcome with
  | failed e => exact appendsBy_raise.appends
  | done => exact appends_claim appendsBy_ack (appendsBy_commit appendsBy_ack)
  | lost e => exact appends_claim appendsBy_raise (appendsBy_commit appendsBy_raise)

theorem appends_call (outcome : Outcome) : Appends w fun w => call policy w i d outcome := by
  unfold call
  split
  · exact appends_claimAttempt _ outcome
  · exact appends_none
  · exact appends_commitAttempt _ outcome
  · exact appends_claimAside _ outcome
  · exact appends_publishAside _ outcome
  · exact appends_publishAside _ outcome
  · exact appends_commitAside outcome
  · exact appends_recordMoveAside outcome

theorem appends_handle (result : Except Failure ω) : Appends w fun w => handle policy w i d result := by
  unfold handle
  split
  · exact (appendsBy_failed _).appends
  · exact (appendsBy_put _).appends
  · exact appends_none

variable [DecidableEq τ]

theorem appends_receive (consumer : Consumer τ) (message : Option (Event τ)) :
    Appends w fun w => some (receive w i consumer message) := by
  unfold receive
  split
  · exact (appendsBy_nil (fun _ => rfl) fun _ _ => rfl).appends
  · split
    · exact (appendsBy_put _).appends
    · exact (appendsBy_nil (fun _ => rfl) fun _ _ => rfl).appends

/-- A step appends to the committed writes and does not depend on them. -/
theorem appends_step (a : Action τ ω) : Appends w fun w => step policy w a := by
  cases a with
  | deliver i consumer message =>
    intro w' h
    simp only [step] at h
    cases hsub : w.subscribers i with
    | none =>
      rw [hsub] at h
      obtain ⟨new, hnew, hframe⟩ := appends_receive (w := w) (i := i) consumer message w' h
      refine ⟨new, hnew, fun effects => ?_⟩
      rw [← hframe effects]
      simp only [step, World.withEffects, hsub]
    | some d =>
      rw [hsub] at h
      cases h
  | call i outcome =>
    intro w' h
    obtain ⟨d, hd, h⟩ := Option.bind_eq_some_iff.1 h
    obtain ⟨new, hnew, hframe⟩ := appends_call outcome w' h
    refine ⟨new, hnew, fun effects => ?_⟩
    rw [← hframe effects]
    simp only [step, World.withEffects, hd, Option.bind_some]
  | handle i result =>
    intro w' h
    obtain ⟨d, hd, h⟩ := Option.bind_eq_some_iff.1 h
    obtain ⟨new, hnew, hframe⟩ := appends_handle result w' h
    refine ⟨new, hnew, fun effects => ?_⟩
    rw [← hframe effects]
    simp only [step, World.withEffects, hd, Option.bind_some]
  | crash i => exact appendsBy_raise.appends

/-! ## Runs -/

section

omit [DecidableEq τ]

/-- The committed writes that still have their claim are those of a world without replays; every other one
has a deleted claim to it. -/
structure Sim (p : Operated τ ω) (w : World τ ω) : Prop where
  same : p.world = w.withEffects p.world.effects
  inv : Inv w
  kept : w.effects ⊆ p.world.effects
  counted : ∀ k, (p.world.effects.map Prod.fst).count k ≤ p.cleared.count k + (w.effects.map Prod.fst).count k

theorem sim_empty : Sim (Operated.empty : Operated τ ω) World.empty :=
  ⟨rfl, inv_empty, fun _ => id, fun _ => Nat.zero_le _⟩

/-- The writes that are left when those of one key have lost their claim. -/
def World.unclaimed (w : World τ ω) (k : Key) : List (Key × ω) := w.effects.filter fun e => e.1 ≠ k

theorem keys_unclaimed (w : World τ ω) (k : Key) :
    (w.unclaimed k).map Prod.fst = (w.effects.map Prod.fst).filter fun c => c ≠ k := by
  rw [List.filter_map]
  rfl

/-- A deleted claim frees the group to handle the event again, and its old writes are no longer claimed. -/
theorem inv_clearClaim {k : Key} (h : Inv w) (hk : Copied w k) : Inv ((w.clearClaim k).withEffects (w.unclaimed k)) := by
  have hcleared : ∀ {c}, c ∈ w.ledger → c ≠ k → c ∈ (w.clearClaim k).ledger := by
    intro c hc hne
    exact List.mem_filter.2 ⟨hc, by simpa using hne⟩
  refine ⟨⟨h.tables.exclusive, fun c j hc hmem => ?_, ?_, fun c hc => ?_, fun c hc => ?_, fun a ha e he ht => ?_⟩,
    fun j d hd => (h.phases j d hd).mono (fun _ => id) fun _ => id⟩
  · exact h.tables.unclaimed c j hc (List.mem_of_mem_filter hmem)
  · show ((w.unclaimed k).map Prod.fst).Nodup
    rw [keys_unclaimed]
    exact h.tables.once.filter _
  · change c ∈ (w.unclaimed k).map Prod.fst at hc
    rw [keys_unclaimed, List.mem_filter] at hc
    exact hcleared (h.tables.claimed c hc.1) (by simpa using hc.2)
  · -- what keeps its claim keeps its writes, or its copy
    obtain ⟨hmem, hne⟩ := List.mem_filter.1 hc
    rcases h.tables.backed c hmem with heffects | hcopied
    · left
      show c ∈ (w.unclaimed k).map Prod.fst
      rw [keys_unclaimed]
      exact List.mem_filter.2 ⟨heffects, hne⟩
    · exact .inr hcopied
  · rcases h.tables.acked a ha e he ht with hledger | hcopied
    · by_cases hsame : (a.1.group, e.eventId) = k
      · exact .inr (hsame ▸ hk)
      · exact .inl (hcleared hledger hsame)
    · exact .inr hcopied

theorem clearClaim_same {v : World τ ω} (k : Key) (h : v = w.withEffects v.effects) :
    v.clearClaim k = ((w.clearClaim k).withEffects (w.unclaimed k)).withEffects v.effects := by
  rw [h]
  rfl

/-- The writes of a key are the claimed ones of it, or lost their claim with it. -/
theorem count_unclaimed (h : Inv w) (k c : Key) :
    (w.effects.map Prod.fst).count c ≤ (if k ∈ w.ledger ∧ c = k then 1 else 0) + ((w.unclaimed k).map Prod.fst).count c := by
  rw [keys_unclaimed]
  by_cases hc : c = k
  · subst hc
    by_cases hmem : c ∈ w.ledger
    · have := List.nodup_iff_count_le_one.1 h.tables.once c
      simp only [hmem, and_self, if_true]
      omega
    · have : (w.effects.map Prod.fst).count c = 0 := List.count_eq_zero.2 fun hin => hmem (h.tables.claimed c hin)
      omega
  · rw [List.count_filter (by simpa using hc)]
    omega

end

theorem sim_step {p p' : Operated τ ω} {a : OperatedAction τ ω} (h : Sim p w) (hs : operatedStep policy p a = some p') :
    ∃ w', Sim p' w' := by
  cases a with
  | deliver a =>
    obtain ⟨w₁, hw₁, rfl⟩ := Option.map_eq_some_iff.1 hs
    obtain ⟨new, hnew, hframe⟩ := appends_step a w₁ hw₁
    have hw := hframe w.effects
    have hback : p.world.withEffects w.effects = w := by
      rw [h.same]
      rfl
    rw [hback] at hw
    refine ⟨w₁.withEffects (w.effects ++ new), rfl, inv_step h.inv hw, ?_, fun k => ?_⟩
    · show w.effects ++ new ⊆ w₁.effects
      rw [hnew]
      exact List.append_subset.2 ⟨fun e he => List.mem_append_left _ (h.kept he), List.subset_append_right _ _⟩
    · have := h.counted k
      simp only [hnew, World.withEffects, List.map_append, List.count_append]
      omega
  | replay i =>
    obtain ⟨letter, hletter, rfl⟩ := Option.map_eq_some_iff.1 hs
    have hcopied : Copied w letter.1 := by
      rw [h.same] at hletter
      exact List.mem_map_of_mem (List.mem_of_getElem? hletter)
    have hledger : letter.1 ∈ p.world.ledger ↔ letter.1 ∈ w.ledger := by
      rw [h.same]
      rfl
    refine ⟨_, clearClaim_same letter.1 h.same, inv_clearClaim h.inv hcopied, fun e he => ?_, fun k => ?_⟩
    · exact h.kept (List.mem_of_mem_filter he)
    · have hbefore := h.counted k
      have hlost := count_unclaimed h.inv letter.1 k
      show (p.world.effects.map Prod.fst).count k ≤ _ + ((w.unclaimed letter.1).map Prod.fst).count k
      by_cases hmem : letter.1 ∈ w.ledger
      · simp only [List.contains_iff_mem, hledger, hmem, if_true, true_and, List.count_append, List.count_singleton, beq_iff_eq] at hlost ⊢
        simp only [eq_comm (a := k)] at hlost
        omega
      · simp only [List.contains_iff_mem, hledger, hmem, if_false, false_and] at hlost ⊢
        omega

/-- A delivery that nobody holds and that its handler accepts is handled. -/
theorem run_handled {i : ℕ} {consumer : Consumer τ} {event : Event τ} (hfree : w.subscribers i = none)
    (htype : event.type ∈ consumer.handledTypes) (hledger : (consumer.group, event.eventId) ∉ w.ledger)
    (hstaged : ∀ j, ((consumer.group, event.eventId), j) ∉ w.staged) (writes : ω) :
    ∃ w', run (step policy) w [.deliver i consumer (some event), .call i .done, .handle i (.ok writes), .call i .done] = some w' ∧
      w'.effects = w.effects ++ [((consumer.group, event.eventId), writes)] ∧ (consumer.group, event.eventId) ∈ w'.ledger := by
  let d : Phase → List ω → Subscriber τ ω := fun phase tracked => ⟨consumer, event, phase, tracked⟩
  let claimed := ((w.put i (d (.attempt 1) [])).stage i (consumer.group, event.eventId)).put i (d (.claimed 1) [])
  let handled := claimed.put i (d (.handled 1) [writes])
  have hdeliver : step policy w (.deliver i consumer (some event)) = some (w.put i (d (.attempt 1) [])) := by
    simp only [step, hfree, receive, htype, if_true, d]
  have hclaim : step policy (w.put i (d (.attempt 1) [])) (.call i .done) = some claimed := by
    have hnone : (w.staged.any fun s => s.1 == (consumer.group, event.eventId) && s.2 != i) = false := by
      rw [List.any_eq_false]
      rintro ⟨k, j⟩ hmem
      by_cases hk : k = (consumer.group, event.eventId)
      · exact absurd (hk ▸ hmem) (hstaged j)
      · simp [hk]
    simp only [step, World.put, Function.update_self, Option.bind_some, call, d, claimAttempt, claim, Subscriber.key, hledger,
      if_false, hnone, Bool.false_eq_true]
    rfl
  have hhandle : step policy claimed (.handle i (.ok writes)) = some handled := by
    simp only [step, claimed, World.put, Function.update_self, Option.bind_some, handle, d]
    rfl
  have hcommit : step policy handled (.call i .done) = some ((handled.commit i (d (.handled 1) [writes])).ack i (d (.handled 1) [writes])) := by
    simp only [step, handled, World.put, Function.update_self, Option.bind_some, call, d, commitAttempt]
  refine ⟨_, run_cons.2 ⟨_, hdeliver, run_cons.2 ⟨_, hclaim, run_cons.2 ⟨_, hhandle, run_cons.2 ⟨_, hcommit, rfl⟩⟩⟩⟩, rfl, ?_⟩
  exact mem_commit handled i (d (.handled 1) [writes])

/-- A replay that finds its delivery unhandled keeps the invariant of the world without replays. -/
theorem inv_operatedStep {p p' : Operated τ ω} {a : OperatedAction τ ω} (h : Inv p.world) (ha : Unhandled p a)
    (hs : operatedStep policy p a = some p') : Inv p'.world := by
  cases a with
  | deliver a =>
    obtain ⟨w, hw, rfl⟩ := Option.map_eq_some_iff.1 hs
    exact inv_step h hw
  | replay i =>
    obtain ⟨letter, hletter, rfl⟩ := Option.map_eq_some_iff.1 hs
    have hsame : p.world.unclaimed letter.1 = p.world.effects := by
      refine List.filter_eq_self.2 fun e he => ?_
      have hne : e.1 ≠ letter.1 := fun heq => ha letter hletter (heq ▸ List.mem_map_of_mem he)
      simpa using hne
    have := inv_clearClaim h (List.mem_map_of_mem (f := Prod.fst) (List.mem_of_getElem? hletter))
    rwa [hsame] at this

/-- In every run with replays: a group's writes for an event are committed once at most, and once more for
each time its claim was deleted; every acknowledged delivery has its writes or a copy; what has no claim is
handled by the next delivery of it that its handler accepts. If every replay finds its delivery unhandled,
the writes for an event are committed once at most altogether. -/
theorem handled_once_a_claim {acts : List (OperatedAction τ ω)} {p : Operated τ ω}
    (hrun : run (operatedStep policy) Operated.empty acts = some p) :
    (∀ k, (p.world.effects.map Prod.fst).count k ≤ p.cleared.count k + if k ∈ p.world.ledger then 1 else 0) ∧
    (∀ a ∈ p.world.acked, ∀ e, a.2 = some e → e.type ∈ a.1.handledTypes →
      (a.1.group, e.eventId) ∈ p.world.effects.map Prod.fst ∨ (a.1.group, e.eventId) ∈ p.world.deadLetters.map Prod.fst) ∧
    (∀ (i : ℕ) (consumer : Consumer τ) (event : Event τ) (writes : ω), p.world.subscribers i = none →
      event.type ∈ consumer.handledTypes → (consumer.group, event.eventId) ∉ p.world.ledger →
      (∀ j, ((consumer.group, event.eventId), j) ∉ p.world.staged) →
      ∃ w, run (step policy) p.world
        [.deliver i consumer (some event), .call i .done, .handle i (.ok writes), .call i .done] = some w ∧
        w.effects = p.world.effects ++ [((consumer.group, event.eventId), writes)]) ∧
    (Meets (operatedStep policy) Unhandled Operated.empty acts → (p.world.effects.map Prod.fst).Nodup) := by
  obtain ⟨w, hsim⟩ : ∃ w, Sim p w :=
    inv (P := fun p => ∃ w, Sim p w) (fun _ _ _ ⟨_, h⟩ hs => sim_step h hs) ⟨_, sim_empty⟩ hrun
  have hledger : p.world.ledger = w.ledger := by
    rw [hsim.same]
    rfl
  refine ⟨fun k => ?_, fun a ha e he ht => ?_, fun i consumer event writes hfree htype hnot hstaged => ?_, fun hmeets => ?_⟩
  · refine Nat.le_trans (hsim.counted k) (Nat.add_le_add_left ?_ _)
    rw [hledger]
    split
    · exact List.nodup_iff_count_le_one.1 hsim.inv.tables.once k
    · rename_i hk
      exact Nat.le_of_eq (List.count_eq_zero.2 fun hin => hk (hsim.inv.tables.claimed k hin))
  · rw [hsim.same] at ha ⊢
    rcases hsim.inv.tables.acked a ha e he ht with hk | hk
    · rcases hsim.inv.tables.backed _ hk with heffects | hcopied
      · obtain ⟨x, hx, hkey⟩ := List.mem_map.1 heffects
        exact .inl (List.mem_map.2 ⟨x, hsim.kept hx, hkey⟩)
      · exact .inr hcopied
    · exact .inr hk
  · obtain ⟨w', hw', heffects, -⟩ := run_handled hfree htype hnot hstaged writes
    exact ⟨w', hw', heffects⟩
  · exact (inv_of_meets (P := fun p => Inv p.world) (fun _ _ _ h ha hs => inv_operatedStep h ha hs) inv_empty hmeets hrun).tables.once

/-- The delivery of an event and its handling. -/
def deliverAgain : List (OperatedAction Bool ℕ) :=
  [.deliver (.deliver 0 journal (some ⟨31, true⟩)), .deliver (.call 0 .done), .deliver (.handle 0 (.ok 4)), .deliver (.call 0 .done)]

/-- A delivery is moved aside and its copy is replayed twice: the second replay takes a claim that has its
writes, so the group handles the event again. -/
def replayedTwice : List (OperatedAction Bool ℕ) :=
  [.deliver (.deliver 0 journal (some ⟨31, true⟩)), .deliver (.call 0 .done), .deliver (.handle 0 (.error .domainError)),
    .deliver (.call 0 .done), .deliver (.call 0 .done), .deliver (.call 0 .done), .replay 0] ++ deliverAgain ++ [.replay 0] ++
  deliverAgain

theorem handled_once_a_claim_twice : ∃ p, run (operatedStep ⟨4, by decide⟩) Operated.empty replayedTwice = some p ∧
    p.cleared.length = 2 ∧ (p.world.effects.map Prod.fst).count (journal.group, 31) = 2 ∧
    ∀ k, (p.world.effects.map Prod.fst).count k ≤ p.cleared.count k + if k ∈ p.world.ledger then 1 else 0 :=
  ⟨(run (operatedStep ⟨4, by decide⟩) Operated.empty replayedTwice).get (by decide), (Option.some_get _).symm, by decide,
    by decide, (handled_once_a_claim (Option.some_get _).symm).1⟩

end Plantkeeper.Delivery
