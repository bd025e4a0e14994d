/-
The breaker admits again, unless its trial was cancelled. The flag goes up when a trial is admitted and
comes down with any outcome, but a cancelled operation records none, and the half-open phase has no
timeout of its own: once the last call is cancelled with the flag up, every later call is rejected
(`cancelled_wedges`). A run stays responsive in every state exactly when that does not happen.
-/
import Plantkeeper.External.Calls

namespace Plantkeeper.External.Calls

open Plantkeeper.Run

variable {settings : BreakerSettings} {w w' : World} {now : Instant}

/-! ## The property and its condition -/

/-- With nothing in flight and the timeout of the last opening over, the next call is admitted. -/
def Responsive (settings : BreakerSettings) (w : World) : Prop :=
  (∀ i, w.calls i = none) → ∀ now, w.now ≤ now → (∀ t ∈ w.openings.head?, t + settings.resetTimeout ≤ now) →
    (w.breaker.beforeCall settings now).2 = true

/-- Every state the run comes through is responsive. -/
def StaysResponsive (settings : BreakerSettings) (w : World) (acts : List Action) : Prop :=
  ∀ before later u, acts = before ++ later → run (step settings) w before = some u → Responsive settings u

/-- The last call in flight is not cancelled while the flag is up. -/
def NotLast (w : World) : Action → Prop
  | .cancel i => w.breaker.trialInFlight = true → ∃ j, j ≠ i ∧ w.calls j ≠ none
  | _ => True

/-- The breaker opens, and its trial is cancelled. -/
def cancelled : List Action := [.start 0 0, .failure 0 0, .start 0 1, .cancel 0]

def stuck : World := ⟨⟨.halfOpen, 1, some 0, true⟩, 1, Function.update (fun _ => none) 0 none, [0]⟩

/-- Nothing is in flight, the timeout is over, and the next call is rejected. -/
theorem cancelled_wedges : ¬ ∀ (settings : BreakerSettings) (now : Instant) (acts : List Action) (w : World),
    run (step settings) (World.new now) acts = some w → Responsive settings w := by
  intro h
  have hrun : run (step ⟨1, 1, Nat.le_refl 1, Int.one_pos⟩) (World.new 0) cancelled = some stuck := by
    simp [run, cancelled, step, World.new, World.finish, stuck, CircuitBreaker.new, CircuitBreaker.beforeCall,
      CircuitBreaker.effectiveState, CircuitBreaker.recordFailure, CircuitBreaker.doOpen, CircuitBreaker.opens]
  have hadmitted := h _ 0 cancelled stuck hrun (fun i => by simp [stuck]) 1 (Int.le_refl 1) (by decide)
  cases hadmitted

/-! ## The flag and the calls in flight -/

/-- The flag is up only while something is in flight. -/
def Answering (w : World) : Prop := w.breaker.trialInFlight = true → ∃ i, w.calls i ≠ none

/-- In a state whose fields go together the breaker is responsive exactly when the flag answers for a call. -/
theorem Phased.responsive_iff (hw : Phased w) : Responsive settings w ↔ Answering w := by
  constructor
  · intro h hflag
    by_contra hidle
    have hnone : ∀ i, w.calls i = none := fun i => not_not.1 (not_exists.1 hidle i)
    have hhalf := hw.flag.1 hflag
    obtain ⟨t, rest, _, heq⟩ := hw.remembered (by rw [hhalf]; decide)
    have hlate : w.now ≤ max w.now (t + settings.resetTimeout) ∧
        t + settings.resetTimeout ≤ max w.now (t + settings.resetTimeout) := ⟨Int.le_max_left .., Int.le_max_right ..⟩
    have hadmitted := h hnone _ hlate.1 (by rw [heq]; rintro _ ⟨⟩; exact hlate.2)
    have he : w.breaker.effectiveState settings (max w.now (t + settings.resetTimeout)) = .halfOpen :=
      effectiveState_halfOpen.2 (.inl hhalf)
    unfold CircuitBreaker.beforeCall at hadmitted
    rw [he] at hadmitted
    simp [hflag] at hadmitted
  · intro h hidle now hnow hover
    have hdown : w.breaker.trialInFlight = false := by
      by_contra hne
      obtain ⟨i, hi⟩ := h (eq_true_of_ne_false hne)
      exact hi (hidle i)
    unfold CircuitBreaker.beforeCall
    cases hs : w.breaker.state with
    | closed => rw [effectiveState_closed.2 hs]
    | halfOpen =>
      rw [hw.flag.2 hs] at hdown
      cases hdown
    | opened =>
      obtain ⟨t, rest, ht, heq⟩ := hw.remembered (by rw [hs]; decide)
      have hle := hover t (by rw [heq]; rfl)
      rw [effectiveState_halfOpen.2 (.inr ⟨hs, t, ht, hle⟩)]
      simp [hdown]

/-- A step keeps the flag answered for exactly when it does not cancel the last call. -/
theorem answering_step (h : Answering w) (a : Action) (hs : step settings w a = some w') :
    Answering w' ↔ NotLast w a := by
  cases a with
  | start i now =>
    refine ⟨fun _ => trivial, fun _ hflag => ?_⟩
    obtain ⟨_, _, ⟨hclosed, rfl⟩ | ⟨_, _, rfl⟩ | ⟨_, hf, rfl⟩ | ⟨_, _, rfl⟩⟩ := step_start hs
    · exact ⟨i, by simp⟩
    · exact ⟨i, by simp⟩
    · exact h hf
    · exact h hflag
  | success i =>
    obtain ⟨c, _, rfl⟩ := step_success hs
    exact ⟨fun _ => trivial, fun _ hflag => by cases hflag⟩
  | failure i now =>
    obtain ⟨_, c, _, rfl | ⟨_, rfl⟩⟩ := step_failure hs
    · exact ⟨fun _ => trivial, fun _ hflag => by cases hflag⟩
    · exact ⟨fun _ => trivial, fun _ hflag => by cases hflag⟩
  | cancel i =>
    obtain ⟨c, _, rfl⟩ := step_cancel hs
    constructor
    · intro hafter hflag
      obtain ⟨j, hj⟩ := hafter hflag
      obtain ⟨d, hd⟩ := Option.ne_none_iff_exists'.1 hj
      obtain ⟨hne, hold⟩ := eq_some_of_remove hd
      exact ⟨j, hne, by rw [hold]; simp⟩
    · intro hlast hflag
      obtain ⟨j, hne, hj⟩ := hlast hflag
      exact ⟨j, by simpa [World.finish, hne] using hj⟩

/-! ## Runs -/

theorem staysResponsive_cons {a : Action} {acts : List Action} (h : step settings w a = some w') :
    StaysResponsive settings w (a :: acts) ↔ Responsive settings w ∧ StaysResponsive settings w' acts := by
  constructor
  · refine fun hall => ⟨hall [] (a :: acts) w rfl rfl, fun before later u heq hrun => ?_⟩
    exact hall (a :: before) later u (by rw [heq]; rfl) (run_cons.2 ⟨w', h, hrun⟩)
  · rintro ⟨hnow, hlater⟩ before later u heq hrun
    cases before with
    | nil => cases hrun; exact hnow
    | cons b before =>
      cases heq
      obtain ⟨v, hv, hrun⟩ := run_cons.1 hrun
      rw [h] at hv
      cases hv
      exact hlater before later u rfl hrun

/-- By induction on the run: what the first step does to the flag decides the next state. -/
theorem staysResponsive_iff_meets : ∀ {acts : List Action} {w u : World}, Phased w → Answering w →
    run (step settings) w acts = some u → (StaysResponsive settings w acts ↔ Meets (step settings) NotLast w acts)
  | [], w, u, hw, ha, _ => by
    refine ⟨fun _ => trivial, fun _ before later v heq hrun => ?_⟩
    obtain ⟨rfl, rfl⟩ := List.append_eq_nil_iff.1 heq.symm
    cases hrun
    exact hw.responsive_iff.2 ha
  | a :: acts, w, u, hw, ha, hrun => by
    obtain ⟨w', h, hrun⟩ := run_cons.1 hrun
    have hw' := hw.step a h
    have hstep := answering_step ha a h
    rw [staysResponsive_cons h]
    constructor
    · rintro ⟨_, hlater⟩
      have ha' := hw'.responsive_iff.1 (hlater [] acts w' rfl rfl)
      exact meets_of_cons (hstep.1 ha') h ((staysResponsive_iff_meets hw' ha' hrun).1 hlater)
    · intro hm
      obtain ⟨hok, hm⟩ := meets_cons hm h
      exact ⟨hw.responsive_iff.2 ha, (staysResponsive_iff_meets hw' (hstep.2 hok) hrun).2 hm⟩

/-- The breaker never wedges in a run exactly when its last call is never cancelled with the flag up. -/
theorem breaker_responsive_iff (settings : BreakerSettings) (now : Instant) (acts : List Action) (w : World)
    (hrun : run (step settings) (World.new now) acts = some w) :
    StaysResponsive settings (World.new now) acts ↔ Meets (step settings) NotLast (World.new now) acts :=
  staysResponsive_iff_meets (Phased.new now) (fun h => by cases h) hrun

/-- A call is cancelled before the breaker opens, and the trial comes back. -/
theorem breaker_responsive_iff_cancelled :
    StaysResponsive ⟨1, 1, Nat.le_refl 1, Int.one_pos⟩ (World.new 0)
      [.start 0 0, .start 1 0, .cancel 1, .failure 0 0, .start 0 1, .success 0] ↔
    Meets (step ⟨1, 1, Nat.le_refl 1, Int.one_pos⟩) NotLast (World.new 0)
      [.start 0 0, .start 1 0, .cancel 1, .failure 0 0, .start 0 1, .success 0] :=
  breaker_responsive_iff _ 0 _ _ (Option.some_get (by rfl : Option.isSome _ = true)).symm

end Plantkeeper.External.Calls
