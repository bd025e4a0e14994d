/-
A delivery is handled at most once and never dropped silently, on both sides. A claim that is not
committed belongs to one open transaction and to no row of the ledger, so the writes of a handler are
committed with the one claim of their key. A claim without writes is committed only after the broker
has accepted a copy.
-/
import Plantkeeper.Delivery.Consumers

namespace Plantkeeper.Delivery

open Plantkeeper.Run

variable {τ ω : Type}

/-! ## The invariant -/

/-- The broker has accepted a copy of the delivery. -/
def Copied (w : World τ ω) (k : Key) : Prop := k ∈ w.deadLetters.map Prod.fst

/-- What a subscriber holds and has tracked at each phase. -/
def PhaseOK (w : World τ ω) (i : ℕ) (d : Subscriber τ ω) : Phase → Prop
  | .attempt _ | .moveAside _ => d.tracked = []
  | .claimed _ | .asideClaimed _ => d.tracked = [] ∧ (d.key, i) ∈ w.staged
  | .handled _ => (∃ writes, d.tracked = [writes]) ∧ (d.key, i) ∈ w.staged
  | .asidePublished _ =>
    d.tracked = [] ∧ Copied w d.key ∧ (d.consumer.group.side = .write → (d.key, i) ∈ w.staged)

/-- The tables: an uncommitted claim is one transaction's and not in the ledger yet, the writes of a
key are committed once and with its claim, and a claim without writes has a copy. -/
structure Tables (w : World τ ω) : Prop where
  exclusive : ∀ k i j, (k, i) ∈ w.staged → (k, j) ∈ w.staged → i = j
  unclaimed : ∀ k i, (k, i) ∈ w.staged → k ∉ w.ledger
  once : (w.effects.map Prod.fst).Nodup
  claimed : ∀ k ∈ w.effects.map Prod.fst, k ∈ w.ledger
  backed : ∀ k ∈ w.ledger, k ∈ w.effects.map Prod.fst ∨ Copied w k
  acked : ∀ a ∈ w.acked, ∀ e, a.2 = some e → e.type ∈ a.1.handledTypes →
    (a.1.group, e.eventId) ∈ w.ledger ∨ Copied w (a.1.group, e.eventId)

structure Inv (w : World τ ω) : Prop where
  tables : Tables w
  phases : ∀ i d, w.subscribers i = some d → PhaseOK w i d d.phase

theorem inv_empty : Inv (World.empty : World τ ω) :=
  ⟨⟨fun _ _ _ h => (nomatch h), fun _ _ h => (nomatch h), List.nodup_nil, fun _ h => (nomatch h),
    fun _ h => (nomatch h), fun _ h => (nomatch h)⟩, fun _ _ h => (nomatch h)⟩

variable {w w' : World τ ω} {i : ℕ} {d : Subscriber τ ω}

theorem PhaseOK.mono {phase : Phase} (hs : ∀ k, (k, i) ∈ w.staged → (k, i) ∈ w'.staged)
    (hc : ∀ k, Copied w k → Copied w' k) (h : PhaseOK w i d phase) : PhaseOK w' i d phase := by
  cases phase with
  | attempt n => exact h
  | moveAside e => exact h
  | claimed n => exact ⟨h.1, hs _ h.2⟩
  | asideClaimed e => exact ⟨h.1, hs _ h.2⟩
  | handled n => exact ⟨h.1, hs _ h.2⟩
  | asidePublished e => exact ⟨h.1, hc _ h.2.1, fun hside => hs _ (h.2.2 hside)⟩

/-- The other subscribers, while one of them moves. -/
def Others (w : World τ ω) (i : ℕ) : Prop :=
  ∀ j d, j ≠ i → w.subscribers j = some d → PhaseOK w j d d.phase

theorem Others.mono (h : Others w i) (hw : ∀ j, j ≠ i → w'.subscribers j = w.subscribers j)
    (hs : ∀ k j, j ≠ i → (k, j) ∈ w.staged → (k, j) ∈ w'.staged) (hc : ∀ k, Copied w k → Copied w' k) :
    Others w' i := by
  intro j d hj hd
  rw [hw j hj] at hd
  exact (h j d hj hd).mono (fun k => hs k j hj) hc

theorem Inv.others (h : Inv w) (i : ℕ) : Others w i := fun j d _ hd => h.phases j d hd

/-! ## What the operations keep -/

theorem mem_rollback {k : Key} {j : ℕ} : (k, j) ∈ (w.rollback i).staged ↔ (k, j) ∈ w.staged ∧ j ≠ i := by
  unfold World.rollback
  rw [List.mem_filter, bne_iff_ne]

theorem tables_rollback (h : Tables w) : Tables (w.rollback i) :=
  ⟨fun k j l hj hl => h.exclusive k j l (mem_rollback.1 hj).1 (mem_rollback.1 hl).1,
    fun k j hj => h.unclaimed k j (mem_rollback.1 hj).1, h.once, h.claimed, h.backed, h.acked⟩

theorem others_rollback (h : Others w i) : Others (w.rollback i) i :=
  h.mono (fun _ _ => rfl) (fun _ _ hj hmem => mem_rollback.2 ⟨hmem, hj⟩) fun _ => id

/-- A commit by the subscriber that holds the claim; without writes of the handler there is a copy. -/
theorem tables_commit (h : Tables w) (hk : (d.key, i) ∈ w.staged)
    (htracked : (∃ writes, d.tracked = [writes]) ∨ (d.tracked = [] ∧ Copied w d.key)) : Tables (w.commit i d) := by
  have hfree : d.key ∉ w.ledger := h.unclaimed _ _ hk
  have hledger : ∀ {k}, k ∈ w.ledger → k ∈ (w.commit i d).ledger := fun hmem => List.mem_append_left _ hmem
  have heffects : (w.commit i d).effects.map Prod.fst = w.effects.map Prod.fst ++ d.tracked.map fun _ => d.key := by
    unfold World.commit
    rw [List.map_append, List.map_map]
    rfl
  refine ⟨fun k j l hj hl => ?_, fun k j hj hmem => ?_, ?_, fun k hmem => ?_, fun k hmem => ?_, fun a ha e he ht => ?_⟩
  · exact h.exclusive k j l (mem_rollback.1 hj).1 (mem_rollback.1 hl).1
  · obtain ⟨hj, hne⟩ := mem_rollback.1 hj
    rcases List.mem_append.1 hmem with hmem | hmem
    · exact h.unclaimed k j hj hmem
    · -- another open claim of this key would have had to wait
      rw [List.mem_singleton] at hmem
      subst hmem
      exact hne (h.exclusive _ j i hj hk)
  · -- the key was not in the ledger, so none of its writes are committed yet
    rw [heffects]
    rcases htracked with ⟨writes, ht⟩ | ⟨ht, -⟩
    · rw [ht, List.map_singleton, List.nodup_append']
      refine ⟨h.once, List.nodup_singleton _, fun k hmem hkey => ?_⟩
      rw [List.mem_singleton] at hkey
      subst hkey
      exact hfree (h.claimed _ hmem)
    · rw [ht, List.map_nil, List.append_nil]
      exact h.once
  · rw [heffects] at hmem
    rcases List.mem_append.1 hmem with hmem | hmem
    · exact hledger (h.claimed k hmem)
    · obtain ⟨_, -, rfl⟩ := List.mem_map.1 hmem
      exact List.mem_append_right _ (List.mem_singleton.2 rfl)
  · rw [heffects]
    rcases List.mem_append.1 hmem with hmem | hmem
    · exact (h.backed k hmem).imp (List.mem_append_left _) id
    · rw [List.mem_singleton] at hmem
      subst hmem
      rcases htracked with ⟨writes, ht⟩ | ⟨-, hc⟩
      · left
        rw [ht]
        exact List.mem_append_right _ (List.mem_singleton.2 rfl)
      · exact .inr hc
  · exact (h.acked a ha e he ht).imp hledger id

theorem others_commit (h : Others w i) : Others (w.commit i d) i :=
  h.mono (fun _ _ => rfl) (fun _ _ hj hmem => mem_rollback.2 ⟨hmem, hj⟩) fun _ => id

theorem mem_commit (w : World τ ω) (i : ℕ) (d : Subscriber τ ω) : d.key ∈ (w.commit i d).ledger :=
  List.mem_append_right _ (List.mem_singleton.2 rfl)

theorem copied_copy (w : World τ ω) (d : Subscriber τ ω) (error : Failure) : Copied (w.copy d error) d.key := by
  unfold Copied World.copy
  rw [List.map_append]
  exact List.mem_append_right _ (List.mem_singleton.2 rfl)

theorem copied_of_copy {k : Key} {error : Failure} (h : Copied w k) : Copied (w.copy d error) k := by
  unfold Copied World.copy
  rw [List.map_append]
  exact List.mem_append_left _ h

theorem tables_copy (h : Tables w) (error : Failure) : Tables (w.copy d error) :=
  ⟨h.exclusive, h.unclaimed, h.once, h.claimed, fun k hk => (h.backed k hk).imp id copied_of_copy,
    fun a ha e he ht => (h.acked a ha e he ht).imp id copied_of_copy⟩

theorem others_copy (h : Others w i) (error : Failure) : Others (w.copy d error) i :=
  h.mono (fun _ _ => rfl) (fun _ _ _ => id) fun _ => copied_of_copy

theorem inv_put (ht : Tables w) (ho : Others w i) (hd : PhaseOK w i d d.phase) : Inv (w.put i d) := by
  refine ⟨⟨ht.exclusive, ht.unclaimed, ht.once, ht.claimed, ht.backed, ht.acked⟩, fun j e he => ?_⟩
  rcases update_eq_some.1 he with ⟨rfl, hsame⟩ | ⟨hj, he⟩
  · cases hsame
    exact hd.mono (fun _ => id) fun _ => id
  · exact (ho j e hj he).mono (fun _ => id) fun _ => id

theorem inv_raise (ht : Tables w) (ho : Others w i) : Inv (w.raise i) := by
  have ht' : Tables (w.rollback i) := tables_rollback ht
  refine ⟨⟨ht'.exclusive, ht'.unclaimed, ht'.once, ht'.claimed, ht'.backed, ht'.acked⟩, fun j e he => ?_⟩
  obtain ⟨hj, he⟩ := eq_some_of_remove he
  exact (others_rollback ho j e hj he).mono (fun _ => id) fun _ => id

/-- An acknowledgement: the claim is in the ledger, or a copy is out. -/
theorem inv_ack (ht : Tables w) (ho : Others w i) (hk : d.key ∈ w.ledger ∨ Copied w d.key) : Inv (w.ack i d) := by
  obtain ⟨ht', hp⟩ := inv_raise ht ho
  refine ⟨⟨ht'.exclusive, ht'.unclaimed, ht'.once, ht'.claimed, ht'.backed, fun a ha e he htype => ?_⟩, fun j e he => ?_⟩
  · rcases List.mem_append.1 ha with ha | ha
    · exact ht.acked a ha e he htype
    · rw [List.mem_singleton] at ha
      subst ha
      cases he
      exact hk
  · exact (hp j e he).mono (fun _ => id) fun _ => id

/-! ## Claims -/

theorem claim_cases {k : Key} {b : Bool} (h : claim w i k = some (w', b)) :
    (k ∈ w.ledger ∧ w' = w ∧ b = false) ∨
    (k ∉ w.ledger ∧ (∀ j, (k, j) ∈ w.staged → j = i) ∧ w' = w.stage i k ∧ b = true) := by
  unfold claim at h
  split at h
  · rename_i hk
    cases h; exact .inl ⟨hk, rfl, rfl⟩
  · rename_i hk
    split at h
    · cases h
    · rename_i hfree
      cases h
      refine .inr ⟨hk, fun j hj => ?_, rfl, rfl⟩
      by_contra hne
      exact hfree (List.any_eq_true.2 ⟨(k, j), hj, by simp [hne]⟩)

theorem mem_stage {k k' : Key} {j : ℕ} : (k', j) ∈ (w.stage i k).staged ↔ (k', j) ∈ w.staged ∨ k' = k ∧ j = i := by
  unfold World.stage
  rw [List.mem_append, List.mem_singleton, Prod.mk.injEq]

theorem tables_stage {k : Key} (h : Tables w) (hk : k ∉ w.ledger) (hfree : ∀ j, (k, j) ∈ w.staged → j = i) :
    Tables (w.stage i k) := by
  refine ⟨fun k' j l hj hl => ?_, fun k' j hj => ?_, h.once, h.claimed, h.backed, h.acked⟩
  · rcases mem_stage.1 hj with hj' | ⟨hkj, hji⟩ <;> rcases mem_stage.1 hl with hl' | ⟨hkl, hli⟩
    · exact h.exclusive k' j l hj' hl'
    · exact (hfree j (hkl ▸ hj')).trans hli.symm
    · exact hji.trans (hfree l (hkj ▸ hl')).symm
    · exact hji.trans hli.symm
  · rcases mem_stage.1 hj with hj | ⟨rfl, -⟩
    · exact h.unclaimed k' j hj
    · exact hk

theorem others_stage {k : Key} (h : Others w i) : Others (w.stage i k) i :=
  h.mono (fun _ _ => rfl) (fun _ _ _ hmem => mem_stage.2 (.inl hmem)) fun _ => id

theorem staged_stage (w : World τ ω) (i : ℕ) (k : Key) : (k, i) ∈ (w.stage i k).staged := mem_stage.2 (.inr ⟨rfl, rfl⟩)

/-- A claim that was already there changes nothing. -/
theorem claim_there {k : Key} (hc : claim w i k = some (w', false)) : w' = w ∧ k ∈ w.ledger := by
  rcases claim_cases hc with ⟨hk, hw, -⟩ | ⟨-, -, -, hb⟩
  · exact ⟨hw, hk⟩
  · cases hb

/-- A new claim is this subscriber's alone. -/
theorem claim_new {k : Key} (h : Inv w) (hc : claim w i k = some (w', true)) :
    Tables w' ∧ Others w' i ∧ (k, i) ∈ w'.staged ∧ ∀ k', Copied w k' → Copied w' k' := by
  rcases claim_cases hc with ⟨-, -, hb⟩ | ⟨hk, hfree, rfl, -⟩
  · cases hb
  · exact ⟨tables_stage h.tables hk hfree, others_stage (h.others i), staged_stage w i k, fun _ => id⟩

/-! ## One call -/

/-- After a failure the subscriber starts over or moves the delivery aside, and holds nothing. -/
theorem phaseOK_afterFailure (policy : FailurePolicy) (n : ℕ) (e : Failure) {d : Subscriber τ ω} (ht : d.tracked = []) :
    PhaseOK w i d (afterFailure policy n e) := by
  unfold afterFailure
  split
  · exact ht
  · split
    · exact ht
    · exact ht

theorem inv_failed (policy : FailurePolicy) (n : ℕ) (e : Failure) (ht : Tables w) (ho : Others w i)
    (htracked : d.tracked = []) : Inv (w.put i { d with phase := afterFailure policy n e }) :=
  inv_put ht ho (phaseOK_afterFailure policy n e htracked)

theorem inv_claimAttempt {policy : FailurePolicy} {n : ℕ} {outcome : Outcome} (h : Inv w) (htracked : d.tracked = [])
    (hs : claimAttempt policy w i d n outcome = some w') : Inv w' := by
  have failed : ∀ e, Inv ((w.rollback i).put i { d with phase := afterFailure policy n e }) := fun e =>
    inv_failed policy n e (tables_rollback h.tables) (others_rollback (h.others i)) htracked
  cases outcome with
  | failed e => cases hs; exact failed e
  | lost e => cases hs; exact failed e
  | done =>
    simp only [claimAttempt] at hs
    split at hs
    · cases hs
    · rename_i w₁ hc
      obtain ⟨rfl, hk⟩ := claim_there hc
      cases hs; exact inv_ack h.tables (h.others i) (.inl hk)
    · rename_i w₁ hc
      obtain ⟨ht, ho, hk, -⟩ := claim_new h hc
      cases hs; exact inv_put ht ho ⟨htracked, hk⟩

theorem inv_commitAttempt {policy : FailurePolicy} {n : ℕ} {outcome : Outcome} (h : Inv w)
    (htracked : ∃ writes, d.tracked = [writes]) (hk : (d.key, i) ∈ w.staged) :
    Inv (commitAttempt policy w i d n outcome) := by
  have ht := tables_commit h.tables hk (.inl htracked)
  have ho : Others (w.commit i d) i := others_commit (h.others i)
  cases outcome with
  | done => exact inv_ack ht ho (.inl (mem_commit w i d))
  | failed e =>
    exact inv_put (tables_rollback h.tables) (others_rollback (h.others i)) (phaseOK_afterFailure policy n e rfl)
  | lost e => exact inv_put ht ho (phaseOK_afterFailure policy n e rfl)

theorem inv_claimAside {error : Failure} {outcome : Outcome} (h : Inv w) (htracked : d.tracked = [])
    (hs : claimAside w i d error outcome = some w') : Inv w' := by
  cases outcome with
  | failed e => cases hs; exact inv_raise h.tables (h.others i)
  | lost e => cases hs; exact inv_raise h.tables (h.others i)
  | done =>
    simp only [claimAside] at hs
    split at hs
    · cases hs
    · rename_i w₁ hc
      obtain ⟨rfl, hk⟩ := claim_there hc
      cases hs; exact inv_ack h.tables (h.others i) (.inl hk)
    · rename_i w₁ hc
      obtain ⟨ht, ho, hk, -⟩ := claim_new h hc
      cases hs; exact inv_put ht ho ⟨htracked, hk⟩

theorem inv_publishAside {error : Failure} {outcome : Outcome} (h : Inv w) (htracked : d.tracked = [])
    (hk : d.consumer.group.side = .write → (d.key, i) ∈ w.staged) : Inv (publishAside w i d error outcome) := by
  have ht : Tables (w.copy d error) := tables_copy h.tables error
  have ho : Others (w.copy d error) i := others_copy (h.others i) error
  cases outcome with
  | done => exact inv_put ht ho ⟨htracked, copied_copy w d error, hk⟩
  | failed e => exact inv_raise h.tables (h.others i)
  | lost e => exact inv_raise ht ho

theorem inv_commitAside {outcome : Outcome} (h : Inv w) (htracked : d.tracked = []) (hc : Copied w d.key)
    (hk : (d.key, i) ∈ w.staged) : Inv (commitAside w i d outcome) := by
  have ht := tables_commit h.tables hk (.inr ⟨htracked, hc⟩)
  have ho : Others (w.commit i d) i := others_commit (h.others i)
  cases outcome with
  | done => exact inv_ack ht ho (.inl (mem_commit w i d))
  | failed e => exact inv_raise h.tables (h.others i)
  | lost e => exact inv_raise ht ho

theorem inv_recordMoveAside {outcome : Outcome} (h : Inv w) (htracked : d.tracked = []) (hc : Copied w d.key)
    (hs : recordMoveAside w i d outcome = some w') : Inv w' := by
  have recorded : ∀ {w₁}, claim w i d.key = some (w₁, true) → Tables (w₁.commit i d) ∧ Others (w₁.commit i d) i := by
    intro w₁ hcl
    obtain ⟨ht, ho, hk, hcopy⟩ := claim_new h hcl
    exact ⟨tables_commit ht hk (.inr ⟨htracked, hcopy _ hc⟩), others_commit ho⟩
  cases outcome with
  | failed e => cases hs; exact inv_raise h.tables (h.others i)
  | done =>
    simp only [recordMoveAside] at hs
    split at hs
    · cases hs
    · rename_i w₁ hcl
      cases hs
      rw [(claim_there hcl).1]
      exact inv_ack h.tables (h.others i) (.inr hc)
    · rename_i w₁ hcl
      cases hs
      obtain ⟨ht, ho⟩ := recorded hcl
      exact inv_ack ht ho (.inl (mem_commit w₁ i d))
  | lost e =>
    simp only [recordMoveAside] at hs
    split at hs
    · cases hs
    · rename_i w₁ hcl
      cases hs
      rw [(claim_there hcl).1]
      exact inv_raise h.tables (h.others i)
    · rename_i w₁ hcl
      cases hs
      obtain ⟨ht, ho⟩ := recorded hcl
      exact inv_raise ht ho

theorem inv_call {policy : FailurePolicy} {outcome : Outcome} (h : Inv w) (hd : PhaseOK w i d d.phase)
    (hs : call policy w i d outcome = some w') : Inv w' := by
  unfold call at hs
  split at hs
  · rename_i n hp
    rw [hp] at hd
    exact inv_claimAttempt h hd hs
  · cases hs
  · rename_i n hp
    rw [hp] at hd
    cases hs; exact inv_commitAttempt h hd.1 hd.2
  · rename_i e hp hside
    rw [hp] at hd
    exact inv_claimAside h hd hs
  · rename_i e hp hside
    rw [hp] at hd
    cases hs
    refine inv_publishAside h hd fun hwrite => ?_
    rw [hside] at hwrite; cases hwrite
  · rename_i e hp
    rw [hp] at hd
    cases hs; exact inv_publishAside h hd.1 fun _ => hd.2
  · rename_i e hp hside
    rw [hp] at hd
    cases hs; exact inv_commitAside h hd.1 hd.2.1 (hd.2.2 hside)
  · rename_i e hp hside
    rw [hp] at hd
    exact inv_recordMoveAside h hd.1 hd.2.1 hs

theorem inv_handle {policy : FailurePolicy} {result : Except Failure ω} (h : Inv w) (hd : PhaseOK w i d d.phase)
    (hs : handle policy w i d result = some w') : Inv w' := by
  unfold handle at hs
  split at hs
  · rename_i n e hp
    rw [hp] at hd
    cases hs
    exact inv_failed policy n e (tables_rollback h.tables) (others_rollback (h.others i)) hd.1
  · rename_i n writes hp
    rw [hp] at hd
    obtain ⟨htracked, hk⟩ := hd
    cases hs
    exact inv_put h.tables (h.others i) ⟨⟨writes, by rw [htracked]; rfl⟩, hk⟩
  · cases hs

section

variable [DecidableEq τ]

/-- A message of another class owes nothing. -/
theorem inv_receive {consumer : Consumer τ} {message : Option (Event τ)} (h : Inv w) :
    Inv (receive w i consumer message) := by
  have ignored : ∀ m, (∀ e, m = some e → e.type ∉ consumer.handledTypes) →
      Inv { w with acked := w.acked ++ [(consumer, m)] } := by
    intro m hm
    refine ⟨⟨h.tables.exclusive, h.tables.unclaimed, h.tables.once, h.tables.claimed, h.tables.backed,
      fun a ha e he ht => ?_⟩, fun j e he => (h.phases j e he).mono (fun _ => id) fun _ => id⟩
    rcases List.mem_append.1 ha with ha | ha
    · exact h.tables.acked a ha e he ht
    · rw [List.mem_singleton] at ha
      subst ha
      exact absurd ht (hm e he)
  unfold receive
  split
  · exact ignored none fun e he => nomatch he
  · split
    · exact inv_put h.tables (h.others i) rfl
    · rename_i event htype
      refine ignored (some event) fun e he => ?_
      cases he
      exact htype

theorem inv_step {policy : FailurePolicy} {a : Action τ ω} (h : Inv w) (hs : step policy w a = some w') : Inv w' := by
  cases a with
  | deliver i consumer message =>
    simp only [step] at hs
    split at hs
    · cases hs; exact inv_receive h
    · cases hs
  | call i outcome =>
    obtain ⟨d, hd, hs⟩ := Option.bind_eq_some_iff.1 hs
    exact inv_call h (h.phases i d hd) hs
  | handle i result =>
    obtain ⟨d, hd, hs⟩ := Option.bind_eq_some_iff.1 hs
    exact inv_handle h (h.phases i d hd) hs
  | crash i =>
    cases hs; exact inv_raise h.tables (h.others i)

/-! ## Runs -/

/-- In every run: the writes of the handler for one key are committed at most once, and every
acknowledged delivery of a handled class has its writes committed with its claim, or a copy of it was
accepted by the broker. A claim that was already there is one or the other. -/
theorem handled_once_or_moved_aside (policy : FailurePolicy) (acts : List (Action τ ω)) (w : World τ ω)
    (h : run (step policy) World.empty acts = some w) :
    (w.effects.map Prod.fst).Nodup ∧
    ∀ a ∈ w.acked, ∀ e, a.2 = some e → e.type ∈ a.1.handledTypes →
      ((a.1.group, e.eventId) ∈ w.ledger ∧ (a.1.group, e.eventId) ∈ w.effects.map Prod.fst) ∨
        (a.1.group, e.eventId) ∈ w.deadLetters.map Prod.fst := by
  have key : Inv w := Run.inv (fun _ _ _ => inv_step) inv_empty h
  refine ⟨key.tables.once, fun a ha e he ht => ?_⟩
  rcases key.tables.acked a ha e he ht with hk | hc
  · rcases key.tables.backed _ hk with heff | hc
    · exact .inl ⟨hk, heff⟩
    · exact .inr hc
  · exact .inr hc

end

def journal : Consumer Bool := { group := ⟨.write, "worker-journal-entries"⟩, handledTypes := [true] }
def careProjection : Consumer Bool := { group := ⟨.read, "admin-care"⟩, handledTypes := [true] }

/-- Subscriber 0 commits and loses the answer, so its second attempt finds the claim; subscriber 1 on
the other side breaks a domain rule and moves the delivery aside, after a crash between the copy and
the claim. -/
def consumed : List (Action Bool ℕ) :=
  [.deliver 0 journal (some ⟨7, true⟩), .deliver 1 careProjection (some ⟨7, true⟩), .call 0 .done, .call 1 .done,
    .handle 0 (.ok 40), .handle 1 (.error .domainError), .call 0 (.lost .otherError), .call 0 .done, .call 1 .done,
    .crash 1, .deliver 1 careProjection (some ⟨7, true⟩), .call 1 .done, .handle 1 (.error .domainError), .call 1 .done,
    .call 1 .done]

theorem handled_once_or_moved_aside_consumed : ∃ w : World Bool ℕ,
    run (step ⟨3, by decide⟩) World.empty consumed = some w ∧ w.acked.length = 2 ∧ w.effects.length = 1 ∧
    (w.effects.map Prod.fst).Nodup ∧
    ∀ a ∈ w.acked, ∀ e, a.2 = some e → e.type ∈ a.1.handledTypes →
      ((a.1.group, e.eventId) ∈ w.ledger ∧ (a.1.group, e.eventId) ∈ w.effects.map Prod.fst) ∨
        (a.1.group, e.eventId) ∈ w.deadLetters.map Prod.fst :=
  ⟨(run (step ⟨3, by decide⟩) World.empty consumed).get (by decide), (Option.some_get _).symm, by decide, by decide,
    handled_once_or_moved_aside ⟨3, by decide⟩ consumed _ (Option.some_get _).symm⟩

end Plantkeeper.Delivery
