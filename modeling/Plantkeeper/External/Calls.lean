/-
Concurrent calls through one breaker. A call holds the breaker's lock while it is admitted and again
while its outcome is recorded, and is suspended only in its operation, so an interleaving is a list of
these moments. An outcome is recorded without a word on how its call was admitted, and a cancelled
operation records nothing. `openings` and what is said of a call are the model's own record: the code
keeps neither.
-/
import Plantkeeper.External.CircuitBreaker
import Plantkeeper.Lib.Run

namespace Plantkeeper.External

open Plantkeeper.Run

/-- `_record_failure` comes to `_open`. -/
def CircuitBreaker.opens (settings : BreakerSettings) (b : CircuitBreaker) : Bool :=
  b.state = .halfOpen ∨ settings.failureThreshold ≤ b.failures + 1

namespace Calls

/-- A call whose operation runs. -/
structure Call where
  trial : Bool
  startedAt : Instant
  deriving DecidableEq, Repr

structure World where
  breaker : CircuitBreaker
  now : Instant
  calls : ℕ → Option Call
  openings : List Instant

/-- A new breaker that nobody has called. -/
def World.new (now : Instant) : World := ⟨CircuitBreaker.new, now, fun _ => none, []⟩

/-- What happens next: a call comes, or the operation of one returns, raises or is cancelled. -/
inductive Action
  | start (i : ℕ) (now : Instant)
  | success (i : ℕ)
  | failure (i : ℕ) (now : Instant)
  | cancel (i : ℕ)
  deriving DecidableEq, Repr

def World.finish (w : World) (i : ℕ) (b : CircuitBreaker) : World :=
  { w with breaker := b, calls := Function.update w.calls i none }

/-- One moment of one call; the clock does not go back. -/
def step (settings : BreakerSettings) (w : World) : Action → Option World
  | .start i now =>
    if w.now ≤ now ∧ w.calls i = none then
      match w.breaker.beforeCall settings now with
      | (b, false) => some { w with breaker := b, now := now }
      | (b, true) =>
        let trial := w.breaker.effectiveState settings now == .halfOpen
        some { w with breaker := b, now := now, calls := Function.update w.calls i (some ⟨trial, now⟩) }
    else none
  | .success i => (w.calls i).map fun _ => w.finish i CircuitBreaker.recordSuccess
  | .failure i now =>
    if w.now ≤ now then
      (w.calls i).map fun _ =>
        { w.finish i (w.breaker.recordFailure settings now) with
          now := now
          openings := if w.breaker.opens settings then now :: w.openings else w.openings }
    else none
  | .cancel i => (w.calls i).map fun _ => w.finish i w.breaker

variable {settings : BreakerSettings} {w w' : World} {b : CircuitBreaker} {i : ℕ} {now : Instant}

/-! ## What a step does -/

theorem effectiveState_halfOpen : b.effectiveState settings now = .halfOpen ↔
    b.state = .halfOpen ∨ b.state = .opened ∧ ∃ t, b.openedAt = some t ∧ t + settings.resetTimeout ≤ now := by
  unfold CircuitBreaker.effectiveState
  cases ht : b.openedAt with
  | none => simp
  | some t =>
    have hle : settings.resetTimeout ≤ now - t ↔ t + settings.resetTimeout ≤ now :=
      ⟨Int.add_le_of_le_sub_left, Int.le_sub_left_of_add_le⟩
    simp only [Option.any_some, decide_eq_true_eq, hle, Option.some.injEq, exists_eq_left']
    split
    · rename_i h
      simp [h]
    · rename_i h
      exact ⟨.inl, fun hs => hs.resolve_right h⟩

theorem effectiveState_closed : b.effectiveState settings now = .closed ↔ b.state = .closed := by
  unfold CircuitBreaker.effectiveState
  split
  · rename_i h
    simp [h.1]
  · rfl

/-- A call is admitted to a closed breaker, is admitted as its trial, or is rejected. -/
theorem step_start (h : step settings w (.start i now) = some w') : w.now ≤ now ∧ w.calls i = none ∧
    ((w.breaker.state = .closed ∧
        w' = { w with now := now, calls := Function.update w.calls i (some ⟨false, now⟩) }) ∨
      (w.breaker.effectiveState settings now = .halfOpen ∧ w.breaker.trialInFlight = false ∧
        w' = { w with
          breaker := { w.breaker with state := .halfOpen, trialInFlight := true }, now := now,
          calls := Function.update w.calls i (some ⟨true, now⟩) }) ∨
      (w.breaker.effectiveState settings now = .halfOpen ∧ w.breaker.trialInFlight = true ∧
        w' = { w with breaker := { w.breaker with state := .halfOpen }, now := now }) ∨
      (w.breaker.state = .opened ∧ w.breaker.effectiveState settings now = .opened ∧ w' = { w with now := now })) := by
  simp only [step] at h
  split at h
  · rename_i hstart
    refine ⟨hstart.1, hstart.2, ?_⟩
    unfold CircuitBreaker.beforeCall at h
    cases he : w.breaker.effectiveState settings now with
    | closed =>
      have hs := effectiveState_closed.1 he
      have hb : { w.breaker with state := .closed } = w.breaker := by rw [← hs]
      simp only [he, hb] at h
      cases h
      exact .inl ⟨hs, rfl⟩
    | opened =>
      simp only [he] at h
      cases h
      refine .inr (.inr (.inr ⟨?_, rfl, rfl⟩))
      unfold CircuitBreaker.effectiveState at he
      split at he
      · cases he
      · exact he
    | halfOpen =>
      cases hf : w.breaker.trialInFlight with
      | false =>
        simp only [he, hf] at h
        cases h
        exact .inr (.inl ⟨rfl, rfl, rfl⟩)
      | true =>
        simp only [he, hf] at h
        cases h
        refine .inr (.inr (.inl ⟨rfl, rfl, ?_⟩))
        simp [hf]
  · cases h

theorem step_success (h : step settings w (.success i) = some w') :
    ∃ c, w.calls i = some c ∧ w' = w.finish i CircuitBreaker.recordSuccess := by
  obtain ⟨c, hc, rfl⟩ := Option.map_eq_some_iff.1 h
  exact ⟨c, hc, rfl⟩

theorem step_cancel (h : step settings w (.cancel i) = some w') :
    ∃ c, w.calls i = some c ∧ w' = w.finish i w.breaker := by
  obtain ⟨c, hc, rfl⟩ := Option.map_eq_some_iff.1 h
  exact ⟨c, hc, rfl⟩

/-- A failure opens the breaker, from whatever state, or is counted. -/
theorem step_failure (h : step settings w (.failure i now) = some w') : w.now ≤ now ∧ ∃ c, w.calls i = some c ∧
    ((w' = { w.finish i ⟨.opened, settings.failureThreshold, some now, false⟩ with
        now := now, openings := now :: w.openings }) ∨
      (w.breaker.state ≠ .halfOpen ∧
        w' = { w.finish i { w.breaker with failures := w.breaker.failures + 1, trialInFlight := false } with
          now := now })) := by
  simp only [step] at h
  split at h
  · rename_i hnow
    obtain ⟨c, hc, rfl⟩ := Option.map_eq_some_iff.1 h
    refine ⟨hnow, c, hc, ?_⟩
    unfold CircuitBreaker.recordFailure CircuitBreaker.opens
    by_cases hhalf : w.breaker.state = .halfOpen
    · left
      simp [hhalf, CircuitBreaker.doOpen, World.finish]
    · by_cases hfull : settings.failureThreshold ≤ w.breaker.failures + 1
      · left
        simp [hhalf, hfull, CircuitBreaker.doOpen, World.finish]
      · right
        simp [hhalf, hfull, World.finish]
  · cases h

/-! ## The phases of the breaker -/

/-- How the breaker's fields go together, whatever the calls do: the flag is up in the half-open phase
and only there, and outside the closed phase the breaker remembers its last opening. -/
structure Phased (w : World) : Prop where
  flag : w.breaker.trialInFlight = true ↔ w.breaker.state = .halfOpen
  remembered : w.breaker.state ≠ .closed → ∃ t rest, w.breaker.openedAt = some t ∧ w.openings = t :: rest
  decreasing : w.openings.Pairwise (· ≥ ·)
  past : ∀ t ∈ w.openings, t ≤ w.now

theorem Phased.new (now : Instant) : Phased (World.new now) where
  flag := by simp [World.new, CircuitBreaker.new]
  remembered h := absurd rfl h
  decreasing := List.Pairwise.nil
  past := by simp [World.new]

/-- Once the last opening's timeout has elapsed, every opening's has. -/
theorem Phased.elapsed (hw : Phased w) {t : Instant} (hopened : w.breaker.state ≠ .closed)
    (ht : w.breaker.openedAt = some t) : ∀ u ∈ w.openings, u ≤ t := by
  obtain ⟨v, rest, hv, heq⟩ := hw.remembered hopened
  rw [ht] at hv
  cases hv
  have hdec := hw.decreasing
  rw [heq, List.pairwise_cons] at hdec
  intro u hu
  rw [heq] at hu
  rcases List.mem_cons.1 hu with rfl | hmem
  · exact Int.le_refl _
  · exact hdec.1 u hmem

theorem Phased.step (hw : Phased w) (a : Action) (h : step settings w a = some w') : Phased w' := by
  cases a with
  | start i now =>
    obtain ⟨hnow, _, ⟨hs, rfl⟩ | ⟨he, _, rfl⟩ | ⟨he, hf, rfl⟩ | ⟨_, _, rfl⟩⟩ := step_start h
    · exact ⟨hw.flag, hw.remembered, hw.decreasing, fun t ht => Int.le_trans (hw.past t ht) hnow⟩
    · have hs : w.breaker.state ≠ .closed := by
        rcases effectiveState_halfOpen.1 he with hs | ⟨hs, _⟩ <;> simp [hs]
      exact ⟨by simp, fun _ => hw.remembered hs, hw.decreasing, fun t ht => Int.le_trans (hw.past t ht) hnow⟩
    · have hs : w.breaker.state ≠ .closed := by
        rw [hw.flag.1 hf]; decide
      exact ⟨by simp [hf], fun _ => hw.remembered hs, hw.decreasing, fun t ht => Int.le_trans (hw.past t ht) hnow⟩
    · exact ⟨hw.flag, hw.remembered, hw.decreasing, fun t ht => Int.le_trans (hw.past t ht) hnow⟩
  | success i =>
    obtain ⟨c, _, rfl⟩ := step_success h
    exact ⟨by simp [World.finish, CircuitBreaker.recordSuccess], fun hs => absurd rfl hs, hw.decreasing, hw.past⟩
  | failure i now =>
    obtain ⟨hnow, c, _, rfl | ⟨hs, rfl⟩⟩ := step_failure h
    · refine ⟨by simp [World.finish], fun _ => ⟨now, w.openings, rfl, rfl⟩, ?_, ?_⟩
      · exact List.pairwise_cons.2 ⟨fun t ht => Int.le_trans (hw.past t ht) hnow, hw.decreasing⟩
      · rintro t (_ | ⟨_, ht⟩)
        · exact Int.le_refl _
        · exact Int.le_trans (hw.past t ht) hnow
    · exact ⟨by simp [World.finish, hs], hw.remembered, hw.decreasing, fun t ht => Int.le_trans (hw.past t ht) hnow⟩
  | cancel i =>
    obtain ⟨c, _, rfl⟩ := step_cancel h
    exact ⟨hw.flag, hw.remembered, hw.decreasing, hw.past⟩

end Calls

end Plantkeeper.External
