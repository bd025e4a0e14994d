/-
Openings hold and there is one trial, as far as outcomes are those the breaker waits for.
`_record_success` closes whatever the phase, so the success of a call that was admitted before the
breaker opened ends the timeout at once (`straggler_closes`); `_record_failure` takes any failure of the
half-open phase for the trial's, so a late one lets a second trial in beside the first. Where no such
outcome is recorded, nothing starts before an opening's timeout is over, one trial runs at a time, and
only a trial started after every opening closes the breaker.
-/
import Plantkeeper.External.Calls

namespace Plantkeeper.External.Calls

open Plantkeeper.Run

variable {settings : BreakerSettings} {w w' : World} {i : ℕ} {now : Instant}

/-! ## The property and its condition -/

/-- What the three states promise of a step. -/
structure Safe (settings : BreakerSettings) (w : World) (a : Action) (w' : World) : Prop where
  waits : ∀ i now, a = .start i now → w'.calls i ≠ none → ∀ t ∈ w.openings, t + settings.resetTimeout ≤ now
  one : ∀ i j c d, w'.calls i = some c → c.trial = true → w'.calls j = some d → d.trial = true → i = j
  closes : w.breaker.state ≠ .closed → w'.breaker.state = .closed → ∃ i c, a = .success i ∧ w.calls i = some c ∧
    c.trial = true ∧ ∀ t ∈ w.openings, t + settings.resetTimeout ≤ c.startedAt

/-- Every step of the run that can be taken is safe. -/
def AllSafe (settings : BreakerSettings) : World → List Action → Prop :=
  Meets (step settings) fun w a => ∀ w', step settings w a = some w' → Safe settings w a w'

def IsTrial (w : World) (i : ℕ) : Prop := ∃ c, w.calls i = some c ∧ c.trial = true

/-- A success is recorded while the breaker is closed or is a trial's, and a failure in the half-open
phase is the trial's, unless no trial is in flight. -/
def Awaited (w : World) : Action → Prop
  | .success i => w.breaker.state = .closed ∨ IsTrial w i
  | .failure i _ => w.breaker.state = .halfOpen → IsTrial w i ∨ ∀ j, ¬ IsTrial w j
  | _ => True

def oneFailure : BreakerSettings := ⟨1, 1, Nat.le_refl 1, Int.one_pos⟩

/-- Two calls start, the first fails and opens the breaker, and the second comes back. -/
def straggler : List Action := [.start 0 0, .start 1 0, .failure 0 0, .success 1]

/-- The success of a call from before the opening closes the breaker within the timeout. -/
theorem straggler_closes : ¬ ∀ (settings : BreakerSettings) (now : Instant) (acts : List Action),
    AllSafe settings (World.new now) acts := by
  intro h
  obtain ⟨_, _, _, hsafe, _⟩ := h oneFailure 0 straggler
  obtain ⟨i, c, hi, hc, htrial, _⟩ := (hsafe _ rfl).closes (by decide) (by decide)
  cases hi
  cases hc
  cases htrial

/-! ## The invariant -/

/-- A trial is alone, in the half-open phase, and started after every opening; outside the open phase
every opening is over. -/
structure Guarded (settings : BreakerSettings) (w : World) : Prop where
  phased : Phased w
  alone : ∀ i j, IsTrial w i → IsTrial w j → i = j
  halfOpen : ∀ i, IsTrial w i → w.breaker.state = .halfOpen
  after : ∀ i c, w.calls i = some c → c.trial = true → ∀ t ∈ w.openings, t + settings.resetTimeout ≤ c.startedAt
  past : w.breaker.state ≠ .opened → ∀ t ∈ w.openings, t + settings.resetTimeout ≤ w.now

theorem Guarded.new (now : Instant) : Guarded settings (World.new now) where
  phased := Phased.new now
  alone i _ h := by obtain ⟨_, h, _⟩ := h; cases h
  halfOpen i h := by obtain ⟨_, h, _⟩ := h; cases h
  after _ _ h := by cases h
  past _ t ht := by cases ht

theorem isTrial_of_remove {j : ℕ} (hcalls : w'.calls = Function.update w.calls i none) (h : IsTrial w' j) :
    j ≠ i ∧ IsTrial w j := by
  obtain ⟨c, hc, htrial⟩ := h
  rw [hcalls] at hc
  obtain ⟨hne, hold⟩ := eq_some_of_remove hc
  exact ⟨hne, c, hold, htrial⟩

/-- When the timeout of the last opening is over, that of every opening is. -/
theorem Guarded.over_of_halfOpen (hw : Guarded settings w) (hnow : w.now ≤ now)
    (h : w.breaker.effectiveState settings now = .halfOpen) : ∀ t ∈ w.openings, t + settings.resetTimeout ≤ now := by
  intro t ht
  rcases effectiveState_halfOpen.1 h with hhalf | ⟨hopened, u, hu, hle⟩
  · exact Int.le_trans (hw.past (by rw [hhalf]; decide) t ht) hnow
  · have hlast := hw.phased.elapsed (by rw [hopened]; decide) hu t ht
    exact Int.le_trans (Int.add_le_add_right hlast _) hle

/-- No trial runs while the flag is down. -/
theorem Guarded.no_trial (hw : Guarded settings w) (h : w.breaker.trialInFlight = false) (j : ℕ) : ¬ IsTrial w j := by
  intro hj
  have hflag := hw.phased.flag.2 (hw.halfOpen j hj)
  rw [h] at hflag
  cases hflag

theorem Guarded.start (hw : Guarded settings w) (h : step settings w (.start i now) = some w') : Guarded settings w' := by
  have hphased := hw.phased.step _ h
  obtain ⟨hnow, hfree, ⟨hs, rfl⟩ | ⟨he, hf, rfl⟩ | ⟨he, hf, rfl⟩ | ⟨hs, _, rfl⟩⟩ := step_start h
  · -- a call admitted while the breaker is closed is no trial
    have hold : ∀ j c, Function.update w.calls i (some ⟨false, now⟩) j = some c → c.trial = true → w.calls j = some c := by
      intro j c hc htrial
      rcases update_eq_some.1 hc with ⟨_, heq⟩ | ⟨_, hc⟩
      · cases heq; cases htrial
      · exact hc
    refine ⟨hphased, ?_, ?_, fun j c hc htrial => hw.after j c (hold j c hc htrial) htrial,
      fun hne t ht => Int.le_trans (hw.past hne t ht) hnow⟩
    · rintro j k ⟨c, hc, hcT⟩ ⟨d, hd, hdT⟩
      exact hw.alone j k ⟨c, hold j c hc hcT, hcT⟩ ⟨d, hold k d hd hdT, hdT⟩
    · rintro j ⟨c, hc, hcT⟩
      exact hw.halfOpen j ⟨c, hold j c hc hcT, hcT⟩
  · -- the trial: the flag was down, so there is no other
    have honly : ∀ j c, Function.update w.calls i (some ⟨true, now⟩) j = some c → c.trial = true →
        j = i ∧ c = ⟨true, now⟩ := by
      intro j c hc htrial
      rcases update_eq_some.1 hc with ⟨hj, heq⟩ | ⟨_, hc⟩
      · cases heq; exact ⟨hj, rfl⟩
      · exact absurd ⟨c, hc, htrial⟩ (hw.no_trial hf j)
    have hover := hw.over_of_halfOpen hnow he
    refine ⟨hphased, ?_, fun _ _ => rfl, ?_, fun _ => hover⟩
    · rintro j k ⟨c, hc, hcT⟩ ⟨d, hd, hdT⟩
      rw [(honly j c hc hcT).1, (honly k d hd hdT).1]
    · intro j c hc htrial
      rw [(honly j c hc htrial).2]
      exact hover
  · exact ⟨hphased, hw.alone, fun _ _ => rfl, hw.after, fun _ => hw.over_of_halfOpen hnow he⟩
  · exact ⟨hphased, hw.alone, hw.halfOpen, hw.after, fun hne => absurd hs hne⟩

/-- An awaited success leaves no trial behind: it was the trial's, or there was none. -/
theorem Guarded.no_trial_of_success (hw : Guarded settings w) (hok : Awaited w (.success i)) {j : ℕ} (hj : j ≠ i) :
    ¬ IsTrial w j := by
  intro h
  rcases hok with hclosed | htrial
  · have := hw.halfOpen j h
    rw [hclosed] at this
    cases this
  · exact hj (hw.alone j i h htrial)

theorem Guarded.no_trial_of_failure (hw : Guarded settings w) (hok : Awaited w (.failure i now)) {j : ℕ} (hj : j ≠ i) :
    ¬ IsTrial w j := by
  intro h
  rcases hok (hw.halfOpen j h) with htrial | hnone
  · exact hj (hw.alone j i h htrial)
  · exact hnone j h

theorem Guarded.step (hw : Guarded settings w) (a : Action) (hok : Awaited w a) (h : step settings w a = some w') :
    Guarded settings w' := by
  have hphased := hw.phased.step a h
  cases a with
  | start i now => exact hw.start h
  | success i =>
    obtain ⟨c, hc, rfl⟩ := step_success h
    have hnone : ∀ j, ¬ IsTrial (w.finish i CircuitBreaker.recordSuccess) j := fun j hj =>
      hw.no_trial_of_success hok (isTrial_of_remove rfl hj).1 (isTrial_of_remove rfl hj).2
    refine ⟨hphased, fun j _ hj => absurd hj (hnone j), fun j hj => absurd hj (hnone j),
      fun j c hc htrial => absurd ⟨c, hc, htrial⟩ (hnone j), fun _ => ?_⟩
    rcases hok with hclosed | htrial
    · exact hw.past (by rw [hclosed]; decide)
    · exact hw.past (by rw [hw.halfOpen i htrial]; decide)
  | failure i now =>
    obtain ⟨hnow, c, hc, hcase⟩ := step_failure h
    have hnone : ∀ j, ¬ IsTrial w' j := by
      intro j hj
      have hj' : j ≠ i ∧ IsTrial w j := by
        rcases hcase with rfl | ⟨_, rfl⟩ <;> exact isTrial_of_remove rfl hj
      exact hw.no_trial_of_failure hok hj'.1 hj'.2
    refine ⟨hphased, fun j _ hj => absurd hj (hnone j), fun j hj => absurd hj (hnone j),
      fun j c hc htrial => absurd ⟨c, hc, htrial⟩ (hnone j), ?_⟩
    rcases hcase with rfl | ⟨_, rfl⟩
    · exact fun hs => absurd rfl hs
    · exact fun hs t ht => Int.le_trans (hw.past hs t ht) hnow
  | cancel i =>
    obtain ⟨c, hc, rfl⟩ := step_cancel h
    refine ⟨hphased, fun j k hj hk => hw.alone j k (isTrial_of_remove rfl hj).2 (isTrial_of_remove rfl hk).2,
      fun j hj => hw.halfOpen j (isTrial_of_remove rfl hj).2, fun j c hc => ?_, hw.past⟩
    exact hw.after j c (eq_some_of_remove hc).2

/-! ## Every awaited step is safe -/

theorem Guarded.safe (hw : Guarded settings w) {a : Action} (hok : Awaited w a) (h : Calls.step settings w a = some w') :
    Safe settings w a w' := by
  have hafter := hw.step a hok h
  refine ⟨?_, fun i j c d hc hcT hd hdT => hafter.alone i j ⟨c, hc, hcT⟩ ⟨d, hd, hdT⟩, ?_⟩
  · rintro i now rfl hadmitted
    obtain ⟨hnow, hfree, ⟨hs, rfl⟩ | ⟨he, _, rfl⟩ | ⟨_, _, rfl⟩ | ⟨_, _, rfl⟩⟩ := step_start h
    · exact fun t ht => Int.le_trans (hw.past (by rw [hs]; decide) t ht) hnow
    · exact hw.over_of_halfOpen hnow he
    · exact absurd hfree hadmitted
    · exact absurd hfree hadmitted
  · intro hne hclosed
    cases a with
    | start i now =>
      obtain ⟨_, _, ⟨hs, rfl⟩ | ⟨_, _, rfl⟩ | ⟨_, _, rfl⟩ | ⟨_, _, rfl⟩⟩ := step_start h
      · exact absurd hs hne
      · cases hclosed
      · cases hclosed
      · exact absurd hclosed hne
    | success i =>
      obtain ⟨c, hc, htrial⟩ := hok.resolve_left hne
      exact ⟨i, c, rfl, hc, htrial, hw.after i c hc htrial⟩
    | failure i now =>
      obtain ⟨_, c, _, rfl | ⟨_, rfl⟩⟩ := step_failure h
      · cases hclosed
      · exact absurd hclosed hne
    | cancel i =>
      obtain ⟨c, _, rfl⟩ := step_cancel h
      exact absurd hclosed hne

theorem Guarded.allSafe : ∀ {acts : List Action} {w : World}, Guarded settings w → Meets (Calls.step settings) Awaited w acts →
    AllSafe settings w acts
  | [], _, _, _ => trivial
  | a :: acts, w, hw, hm => by
    refine ⟨fun w' h => hw.safe hm.1 h, ?_⟩
    cases h : Calls.step settings w a with
    | none => trivial
    | some w' => exact (hw.step a hm.1 h).allSafe (meets_cons hm h).2

/-- Where every recorded outcome is one the breaker waits for, an opening is kept for its timeout, one
trial runs at a time, and only a trial started after every opening closes the breaker. -/
theorem breaker_safe (settings : BreakerSettings) (now : Instant) (acts : List Action)
    (hok : Meets (Calls.step settings) Awaited (World.new now) acts) : AllSafe settings (World.new now) acts :=
  (Guarded.new now).allSafe hok

/-- A call is still running when the breaker opens; its trial closes it, then the call fails. -/
def reopened : List Action :=
  [.start 0 0, .start 1 0, .failure 0 0, .start 2 0, .start 2 1, .success 2, .failure 1 3, .start 3 4]

theorem reopened_awaited : Meets (Calls.step oneFailure) Awaited (World.new 0) reopened := by
  refine meets_of_cons trivial rfl (meets_of_cons trivial rfl (meets_of_cons ?_ rfl (meets_of_cons trivial rfl
    (meets_of_cons trivial rfl (meets_of_cons ?_ rfl (meets_of_cons ?_ rfl (meets_of_cons trivial rfl trivial)))))))
  · exact fun h => by cases h
  · exact .inr ⟨⟨true, 1⟩, rfl, rfl⟩
  · exact fun h => by cases h

theorem breaker_safe_reopened : AllSafe oneFailure (World.new 0) reopened :=
  breaker_safe oneFailure 0 reopened reopened_awaited

/-- The condition leaves out nothing else: a step that does not meet it is unsafe, or is with the next
call that comes once the new timeout is over. -/
theorem unsafe_of_unawaited {a : Action} (hbad : ¬ Awaited w a) (h : Calls.step settings w a = some w') :
    ∃ acts, ¬ AllSafe settings w (a :: acts) := by
  cases a with
  | start i now => exact absurd trivial hbad
  | cancel i => exact absurd trivial hbad
  | success i =>
    refine ⟨[], fun hall => hbad (or_iff_not_imp_left.2 fun hne => ?_)⟩
    obtain ⟨c, _, rfl⟩ := step_success h
    obtain ⟨k, d, hk, hd, htrial, _⟩ := (hall.1 _ h).closes hne rfl
    cases hk
    exact ⟨d, hd, htrial⟩
  | failure i now =>
    obtain ⟨hs, hno⟩ := Classical.not_imp.1 hbad
    obtain ⟨hi, hex⟩ := not_or.1 hno
    obtain ⟨j, hj⟩ := not_forall.1 hex
    obtain ⟨d, hd, hdT⟩ := not_not.1 hj
    have hne : j ≠ i := fun heq => hi (heq ▸ ⟨d, hd, hdT⟩)
    obtain ⟨_, c, hc, rfl | ⟨hne', _⟩⟩ := step_failure h
    swap
    · exact absurd hs hne'
    refine ⟨[.start i (now + settings.resetTimeout)], fun hall => ?_⟩
    have hnext := (meets_cons hall h).2.1
    have he : CircuitBreaker.effectiveState settings ⟨.opened, settings.failureThreshold, some now, false⟩
        (now + settings.resetTimeout) = .halfOpen := effectiveState_halfOpen.2 (.inr ⟨rfl, now, rfl, Int.le_refl _⟩)
    have hstart : Calls.step settings { w.finish i ⟨.opened, settings.failureThreshold, some now, false⟩ with
        now := now, openings := now :: w.openings } (.start i (now + settings.resetTimeout)) =
        some ⟨⟨.halfOpen, settings.failureThreshold, some now, true⟩, now + settings.resetTimeout,
          Function.update (Function.update w.calls i none) i (some ⟨true, now + settings.resetTimeout⟩),
          now :: w.openings⟩ := by
      have hle : now ≤ now + settings.resetTimeout := by have := settings.timeout_pos; exact Int.le_add_of_nonneg_right (Int.le_of_lt this)
      simp [Calls.step, World.finish, hle, CircuitBreaker.beforeCall, he]
    exact hne ((hnext _ hstart).one j i d ⟨true, now + settings.resetTimeout⟩ (by simpa [hne] using hd) hdT (by simp) rfl)

end Plantkeeper.External.Calls
