/-
What deliveries write. A call commits what its subscriber has tracked, under the subscriber's own key, and
changes of the subscriber its phase and what it tracks; so what holds of everything the handlers return, for
the delivery they run for, holds of every committed write.
-/
import Plantkeeper.Delivery.Replayed

namespace Plantkeeper.Delivery

open Plantkeeper.Run

variable {τ ω : Type} {w w₁ w' : World τ ω} {i : ℕ} {d : Subscriber τ ω} {policy : FailurePolicy}

/-! ## What a call writes -/

/-- The subscriber later on: at the same delivery, and with no more tracked. -/
def Later (d d' : Subscriber τ ω) : Prop := d'.consumer = d.consumer ∧ d'.event = d.event ∧ d'.tracked ⊆ d.tracked

/-- At most what the subscriber has tracked is committed, and the subscribers are as they were. -/
def Commits (w w₁ : World τ ω) (d : Subscriber τ ω) : Prop :=
  w₁.subscribers = w.subscribers ∧ ∀ e ∈ w₁.effects, e ∈ w.effects ∨ ∃ writes ∈ d.tracked, e = (d.key, writes)

/-- What a call of a subscriber leaves. -/
structure Called (w w' : World τ ω) (d : Subscriber τ ω) : Prop where
  effects : ∀ e ∈ w'.effects, e ∈ w.effects ∨ ∃ writes ∈ d.tracked, e = (d.key, writes)
  subscribers : ∀ j d', w'.subscribers j = some d' → w.subscribers j = some d' ∨ Later d d'

theorem commits_of_eq (hs : w₁.subscribers = w.subscribers) (he : w₁.effects = w.effects) : Commits w w₁ d :=
  ⟨hs, fun _ h => .inl (he ▸ h)⟩

theorem commits_refl (w : World τ ω) : Commits w w d := commits_of_eq rfl rfl

theorem commits_rollback (w : World τ ω) (i : ℕ) : Commits w (w.rollback i) d := commits_of_eq rfl rfl

theorem commits_copy (w : World τ ω) (error : Failure) : Commits w (w.copy d error) d := commits_of_eq rfl rfl

theorem claim_same {k : Key} {b : Bool} (h : claim w i k = some (w', b)) :
    w'.subscribers = w.subscribers ∧ w'.effects = w.effects := by
  rcases claim_cases h with ⟨-, rfl, -⟩ | ⟨-, -, rfl, -⟩ <;> exact ⟨rfl, rfl⟩

theorem commits_claim {k : Key} {b : Bool} (h : claim w i k = some (w', b)) : Commits w w' d :=
  commits_of_eq (claim_same h).1 (claim_same h).2

theorem Commits.commit (h : w₁.subscribers = w.subscribers ∧ w₁.effects = w.effects) (i : ℕ) : Commits w (w₁.commit i d) d := by
  refine ⟨h.1, fun e he => ?_⟩
  rcases List.mem_append.1 he with he | he
  · exact .inl (h.2 ▸ he)
  · obtain ⟨writes, hwrites, rfl⟩ := List.mem_map.1 he
    exact .inr ⟨writes, hwrites, rfl⟩

theorem Commits.put (h : Commits w w₁ d) {d' : Subscriber τ ω} (hd : Later d d') : Called w (w₁.put i d') d := by
  refine ⟨h.2, fun j x hx => ?_⟩
  rcases update_eq_some.1 hx with ⟨-, hset⟩ | ⟨-, hold⟩
  · cases hset
    exact .inr hd
  · exact .inl (h.1 ▸ hold)

theorem Commits.raise (h : Commits w w₁ d) : Called w (w₁.raise i) d := by
  refine ⟨h.2, fun j x hx => ?_⟩
  obtain ⟨-, hold⟩ := eq_some_of_remove hx
  exact .inl (h.1 ▸ hold)

theorem Commits.ack (h : Commits w w₁ d) : Called w (w₁.ack i d) d := by
  obtain ⟨heffects, hsubscribers⟩ := h.raise (i := i)
  exact ⟨heffects, hsubscribers⟩

theorem Later.phase (phase : Phase) : Later d { d with phase := phase } := ⟨rfl, rfl, fun _ => id⟩

theorem Later.forget (phase : Phase) : Later d { d with phase := phase, tracked := [] } := ⟨rfl, rfl, List.nil_subset _⟩

theorem called_claimAttempt {n : ℕ} {outcome : Outcome} (h : claimAttempt policy w i d n outcome = some w') : Called w w' d := by
  cases outcome with
  | failed e =>
    cases h
    exact (commits_rollback w i).put (.phase _)
  | lost e =>
    cases h
    exact (commits_rollback w i).put (.phase _)
  | done =>
    simp only [claimAttempt] at h
    split at h
    · cases h
    · rename_i hclaim
      cases h
      exact (commits_claim hclaim).ack
    · rename_i hclaim
      cases h
      exact (commits_claim hclaim).put (.phase _)

theorem called_commitAttempt (n : ℕ) (outcome : Outcome) : Called w (commitAttempt policy w i d n outcome) d := by
  cases outcome with
  | done => exact (Commits.commit ⟨rfl, rfl⟩ i).ack
  | failed e => exact (commits_rollback w i).put (.forget _)
  | lost e => exact (Commits.commit ⟨rfl, rfl⟩ i).put (.forget _)

theorem called_claimAside {error : Failure} {outcome : Outcome} (h : claimAside w i d error outcome = some w') : Called w w' d := by
  cases outcome with
  | failed e =>
    cases h
    exact (commits_refl w).raise
  | lost e =>
    cases h
    exact (commits_refl w).raise
  | done =>
    simp only [claimAside] at h
    split at h
    · cases h
    · rename_i hclaim
      cases h
      exact (commits_claim hclaim).ack
    · rename_i hclaim
      cases h
      exact (commits_claim hclaim).put (.phase _)

theorem called_publishAside (error : Failure) (outcome : Outcome) : Called w (publishAside w i d error outcome) d := by
  cases outcome with
  | done => exact (commits_copy w error).put (.phase _)
  | failed e => exact (commits_refl w).raise
  | lost e => exact (commits_copy w error).raise

theorem called_commitAside (outcome : Outcome) : Called w (commitAside w i d outcome) d := by
  cases outcome with
  | done => exact (Commits.commit ⟨rfl, rfl⟩ i).ack
  | failed e => exact (commits_refl w).raise
  | lost e => exact (Commits.commit ⟨rfl, rfl⟩ i).raise

theorem called_recordMoveAside {outcome : Outcome} (h : recordMoveAside w i d outcome = some w') : Called w w' d := by
  cases outcome with
  | failed e =>
    cases h
    exact (commits_refl w).raise
  | done =>
    simp only [recordMoveAside] at h
    split at h
    · cases h
    · rename_i hclaim
      cases h
      exact (commits_claim hclaim).ack
    · rename_i hclaim
      cases h
      exact (Commits.commit (claim_same hclaim) i).ack
  | lost e =>
    simp only [recordMoveAside] at h
    split at h
    · cases h
    · rename_i hclaim
      cases h
      exact (commits_claim hclaim).raise
    · rename_i hclaim
      cases h
      exact (Commits.commit (claim_same hclaim) i).raise

theorem called_call {outcome : Outcome} (h : call policy w i d outcome = some w') : Called w w' d := by
  unfold call at h
  split at h
  · exact called_claimAttempt h
  · cases h
  · cases h
    exact called_commitAttempt _ outcome
  · exact called_claimAside h
  · cases h
    exact called_publishAside _ outcome
  · cases h
    exact called_publishAside _ outcome
  · cases h
    exact called_commitAside outcome
  · exact called_recordMoveAside h

/-! ## What is committed -/

variable {offered : Consumer τ → Event τ → Prop} {ok ok' : Consumer τ → Event τ → ω → Prop}

/-- Every write that is committed, and every one that is tracked, is right for an offered delivery. -/
structure Right (offered : Consumer τ → Event τ → Prop) (ok : Consumer τ → Event τ → ω → Prop) (w : World τ ω) : Prop where
  effects : ∀ e ∈ w.effects, ∃ consumer event, offered consumer event ∧ e.1 = (consumer.group, event.eventId) ∧
    ok consumer event e.2
  subscribers : ∀ i d, w.subscribers i = some d → offered d.consumer d.event ∧ ∀ writes ∈ d.tracked, ok d.consumer d.event writes

/-- What is offered is, and a handler returns what is right for the delivery it runs for. -/
def RightAction (offered : Consumer τ → Event τ → Prop) (ok : Consumer τ → Event τ → ω → Prop) (w : World τ ω) : Action τ ω → Prop
  | .deliver _ consumer (some event) => offered consumer event
  | .handle i (.ok writes) => ∀ d, w.subscribers i = some d → ok d.consumer d.event writes
  | _ => True

theorem right_empty : Right offered ok (World.empty : World τ ω) :=
  ⟨fun _ h => (nomatch h), fun _ _ h => (nomatch h)⟩

theorem Right.mono (hok : ∀ consumer event writes, ok consumer event writes → ok' consumer event writes) (h : Right offered ok w) :
    Right offered ok' w := by
  refine ⟨fun e he => ?_, fun i d hd => ?_⟩
  · obtain ⟨consumer, event, hoffered, hkey, hright⟩ := h.effects e he
    exact ⟨consumer, event, hoffered, hkey, hok _ _ _ hright⟩
  · obtain ⟨hoffered, htracked⟩ := h.subscribers i d hd
    exact ⟨hoffered, fun writes hwrites => hok _ _ _ (htracked writes hwrites)⟩

theorem Right.called (h : Right offered ok w) (hd : offered d.consumer d.event ∧ ∀ writes ∈ d.tracked, ok d.consumer d.event writes)
    (hc : Called w w' d) : Right offered ok w' := by
  refine ⟨fun e he => ?_, fun j d' hd' => ?_⟩
  · rcases hc.effects e he with hold | ⟨writes, hwrites, rfl⟩
    · exact h.effects e hold
    · exact ⟨d.consumer, d.event, hd.1, rfl, hd.2 writes hwrites⟩
  · rcases hc.subscribers j d' hd' with hold | ⟨hconsumer, hevent, htracked⟩
    · exact h.subscribers j d' hold
    · rw [hconsumer, hevent]
      exact ⟨hd.1, fun writes hwrites => hd.2 writes (htracked hwrites)⟩

theorem Right.put (h : Right offered ok w)
    (hd : offered d.consumer d.event ∧ ∀ writes ∈ d.tracked, ok d.consumer d.event writes) : Right offered ok (w.put i d) :=
  h.called hd ((commits_refl w).put ⟨rfl, rfl, fun _ => id⟩)

theorem right_handle {result : Except Failure ω} (h : Right offered ok w) (hsub : w.subscribers i = some d)
    (ha : RightAction offered ok w (.handle i result)) (hs : handle policy w i d result = some w') : Right offered ok w' := by
  obtain ⟨hoffered, htracked⟩ := h.subscribers i d hsub
  unfold handle at hs
  split at hs
  · cases hs
    exact h.called ⟨hoffered, htracked⟩ ((commits_rollback w i).put (.phase _))
  · rename_i writes _
    cases hs
    refine h.put ⟨hoffered, fun x hx => ?_⟩
    rcases List.mem_append.1 hx with hx | hx
    · exact htracked x hx
    · rw [List.mem_singleton.1 hx]
      exact ha d hsub
  · cases hs

theorem right_step [DecidableEq τ] {a : Action τ ω} (h : Right offered ok w) (ha : RightAction offered ok w a)
    (hs : step policy w a = some w') : Right offered ok w' := by
  cases a with
  | deliver i consumer message =>
    simp only [step] at hs
    split at hs
    · cases hs
      unfold receive
      split
      · exact ⟨h.effects, h.subscribers⟩
      · split
        · exact h.put ⟨ha, fun _ hx => absurd hx List.not_mem_nil⟩
        · exact ⟨h.effects, h.subscribers⟩
    · cases hs
  | call i outcome =>
    obtain ⟨d, hd, hs⟩ := Option.bind_eq_some_iff.1 hs
    exact h.called (h.subscribers i d hd) (called_call hs)
  | handle i result =>
    obtain ⟨d, hd, hs⟩ := Option.bind_eq_some_iff.1 hs
    exact right_handle h hd ha hs
  | crash i =>
    cases hs
    refine ⟨h.effects, fun j d hd => ?_⟩
    obtain ⟨-, hold⟩ := eq_some_of_remove hd
    exact h.subscribers j d hold

/-- A deleted claim leaves what was written. -/
theorem right_operatedStep [DecidableEq τ] {p p' : Operated τ ω} {a : OperatedAction τ ω} (h : Right offered ok p.world)
    (ha : ∀ b, a = .deliver b → RightAction offered ok p.world b) (hs : operatedStep policy p a = some p') :
    Right offered ok p'.world := by
  cases a with
  | deliver b =>
    obtain ⟨w, hw, rfl⟩ := Option.map_eq_some_iff.1 hs
    exact right_step h (ha b rfl) hw
  | replay i =>
    obtain ⟨letter, -, rfl⟩ := Option.map_eq_some_iff.1 hs
    exact ⟨h.effects, h.subscribers⟩

end Plantkeeper.Delivery
