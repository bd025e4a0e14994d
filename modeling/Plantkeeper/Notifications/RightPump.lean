/-
Whether the fan-out of a household has the right pump. The code means the first stream in to open the
subscription and the last one out to close it; but a stream that attaches while the last one out awaits the
task it cancelled finds that task and opens none, a stream that is cancelled while it attaches leaves its
signal behind, and a pump cancelled by another leaves its streams behind. In runs without these the
registered fan-out has a live pump exactly while it has signals.
-/
import Plantkeeper.Notifications.InAndOut

namespace Plantkeeper.Notifications.Fanout

open Plantkeeper.Run

/-! ## Runs without a disturbance -/

/-- No stream attaches while the household's last release awaits its cancelled task, none is cancelled while it
attaches, unless its fan-out failed, and the pump is cancelled by its last stream only. -/
def Undisturbed (w : World) : Action → Prop
  | .attach _ => ∀ fan, w.households.bind w.fanouts = some fan → ∀ t, fan.task = some t →
      ∃ pump, w.pumps t = some pump ∧ pump.state ≠ .cancelled
  | .cancelAttach i => ∀ x, w.signalAt i = some x → x.2.failed = true
  | .cancelPump p => ∀ pump, w.pumps p = some pump → pump.state = .cancelled
  | _ => True

instance decidableUndisturbed (w : World) : ∀ a, Decidable (Undisturbed w a)
  | .attach _ => inferInstanceAs (Decidable (∀ fan, w.households.bind w.fanouts = some fan → ∀ t, fan.task = some t →
      ∃ pump, w.pumps t = some pump ∧ pump.state ≠ .cancelled))
  | .cancelAttach i => inferInstanceAs (Decidable (∀ x, w.signalAt i = some x → x.2.failed = true))
  | .cancelPump p => inferInstanceAs (Decidable (∀ pump, w.pumps p = some pump → pump.state = .cancelled))
  | .ready _ | .wait _ | .release _ | .detached _ | .subscribe _ | .nudge _ | .fail _ | .lost _ | .unwound _ =>
    inferInstanceAs (Decidable True)

/-! ## What is promised -/

/-- No attach and no release is in progress. -/
def Quiescent (w : World) : Prop := ∀ i s, w.signals i = some s → s.phase = .held

/-- There is a live pump if and only if a stream holds a signal that was not told it is lost. -/
def RightPump (w : World) : Prop :=
  (∃ p pump, w.pumps p = some pump) ↔ ∃ i s, w.signals i = some s ∧ s.phase = .held ∧ s.lost = false

def OnePump (w : World) : Prop := ∀ p q x y, w.pumps p = some x → w.pumps q = some y → p = q

section

variable {w w' : World} {i p : ℕ} {s : Signal} {fan : HouseholdFanout} {x : Pump}

/-! ## Runs -/

theorem signalAt_eq_some : w.signalAt i = some (s, fan) ↔ w.signals i = some s ∧ w.fanouts s.fanout = some fan := by
  unfold World.signalAt
  constructor
  · intro h
    obtain ⟨s', hs, h⟩ := Option.bind_eq_some_iff.1 h
    obtain ⟨fan', hfan, heq⟩ := Option.map_eq_some_iff.1 h
    cases heq
    exact ⟨hs, hfan⟩
  · rintro ⟨hs, hfan⟩
    rw [hs, Option.bind_some, hfan]
    rfl

theorem pumpAt_eq_some : w.pumpAt p = some (x, fan) ↔ w.pumps p = some x ∧ w.fanouts x.fanout = some fan := by
  unfold World.pumpAt
  constructor
  · intro h
    obtain ⟨x', hx, h⟩ := Option.bind_eq_some_iff.1 h
    obtain ⟨fan', hfan, heq⟩ := Option.map_eq_some_iff.1 h
    cases heq
    exact ⟨hx, hfan⟩
  · rintro ⟨hx, hfan⟩
    rw [hx, Option.bind_some, hfan]
    rfl

theorem setPump_self (hp : w.pumps p = some x) : w.setPump p (some x) = w := by
  unfold World.setPump
  rw [← hp, Function.update_eq_self]

theorem inv_step {a : Action} (hi : Inv w) (ha : Undisturbed w a) (h : step w a = some w') : Inv w' := by
  cases a with
  | attach i =>
    simp only [step] at h
    split at h
    · rename_i hfree
      cases h
      exact hi.attach hfree ha
    · cases h
  | ready i =>
    simp only [step] at h
    split at h
    · rename_i g wakeup lost fan hs
      obtain ⟨hs, hfan⟩ := signalAt_eq_some.1 hs
      split at h
      · cases h
      · split at h
        · cases h
          exact hi.detach hs hfan (by simp)
        · cases h
          exact hi.setSignal hs ⟨rfl, rfl, .inr ⟨rfl, rfl⟩⟩
    · cases h
  | cancelAttach i =>
    simp only [step] at h
    split at h
    · rename_i g wakeup lost hs
      cases h
      obtain ⟨fan, hfan, _⟩ := hi.signals i _ hs
      exact hi.cancelAttach hs hfan (by simp) (ha _ (signalAt_eq_some.2 ⟨hs, hfan⟩))
    · cases h
  | wait i =>
    simp only [step] at h
    split at h
    · rename_i g wakeup lost hs
      cases h
      exact hi.setSignal hs ⟨rfl, rfl, .inl rfl⟩
    · cases h
  | release i =>
    simp only [step] at h
    split at h
    · rename_i g wakeup lost fan hs
      cases h
      obtain ⟨hs, hfan⟩ := signalAt_eq_some.1 hs
      exact hi.detach hs hfan (by simp)
    · cases h
  | detached i =>
    simp only [step] at h
    split at h
    · rename_i g wakeup lost t fan hs
      obtain ⟨hs, hfan⟩ := signalAt_eq_some.1 hs
      split at h
      · rename_i hdone
        cases h
        exact hi.detached hs rfl hfan hdone
      · cases h
    · cases h
  | subscribe p =>
    simp only [step] at h
    split at h
    · rename_i g fan hp
      cases h
      obtain ⟨hp, hfan⟩ := pumpAt_eq_some.1 hp
      exact (hi.setPump hp (by simp) (by simp)).setReady hfan true
    · cases h
  | nudge p =>
    simp only [step] at h
    split at h
    · rename_i g fan hp
      cases h
      exact hi.nudge fan
    · cases h
  | fail p =>
    simp only [step] at h
    split at h
    · rename_i g hp
      cases h
      exact hi.setPump hp (by simp) (by simp)
    · rename_i g hp
      cases h
      exact hi.setPump hp (by simp) (by simp)
    · cases h
  | lost p =>
    simp only [step] at h
    split at h
    · rename_i g fan hp
      cases h
      obtain ⟨hp, hfan⟩ := pumpAt_eq_some.1 hp
      exact hi.lost hp (by simp) hfan
    · cases h
  | cancelPump p =>
    obtain ⟨x, hp, rfl⟩ := Option.map_eq_some_iff.1 h
    rw [show ({ x with state := .cancelled } : Pump) = x by rw [← ha x hp], setPump_self hp]
    exact hi
  | unwound p =>
    simp only [step] at h
    split at h
    · rename_i g hp
      cases h
      exact hi.unwound hp rfl
    · cases h

theorem Inv.onePump (hi : Inv w) : OnePump w := by
  intro p q x y hp hq
  obtain ⟨hg, _, fan, hfan, htask⟩ := hi.pump p x hp
  have hq := (hi.pump_task hq hfan hg).2
  exact Option.some.inj (htask.symm.trans hq)

theorem Inv.rightPump (hi : Inv w) (hquiet : Quiescent w) : RightPump w := by
  constructor
  · rintro ⟨p, x, hp⟩
    obtain ⟨hg, _, fan, hfan, htask⟩ := hi.pump p x hp
    have hsome : fan.signals ≠ [] := by
      intro hnil
      rcases (hi.served _ fan hg hfan).empty hnil with hnone | ⟨i, s, t, hs, hphase⟩
      · rw [htask] at hnone
        cases hnone
      · rw [hquiet i s hs] at hphase
        cases hphase
    obtain ⟨i, hmem⟩ := List.exists_mem_of_ne_nil _ hsome
    obtain ⟨s, hs, hsg, hphase⟩ := hi.members _ fan i hg hfan hmem
    have hlost := (hi.attached hs (hsg ▸ hfan) hphase).2
    exact ⟨i, s, hs, hquiet i s hs, hlost.trans ((hi.failed _ fan hfan).2 hg)⟩
  · rintro ⟨i, s, hs, hheld, hlost⟩
    obtain ⟨fan, hfan, _⟩ := hi.signals i s hs
    obtain ⟨hmem, hfailed⟩ := hi.attached hs hfan (by simp [hheld])
    have hg := (hi.failed _ fan hfan).1 (hfailed.symm.trans hlost)
    obtain ⟨p, _, x, hp, _⟩ := (hi.served _ fan hg hfan).attached (List.ne_nil_of_mem hmem)
    exact ⟨p, x, hp⟩

end

/-- While no stream attaches to a cancelled task, none is cancelled as it attaches and no other cancels the
pump: there is never more than one pump, and where no attach and no release is in progress there is one
exactly while a stream holds a signal that is not lost. -/
theorem rightPump_of_undisturbed {as : List Action} {w : World} (hm : Meets step Undisturbed World.empty as)
    (h : run step World.empty as = some w) : (Quiescent w → RightPump w) ∧ OnePump w := by
  have hi : Inv w := inv_of_meets (P := Inv) (fun _ _ _ hi ha hstep => inv_step hi ha hstep) inv_empty hm h
  exact ⟨hi.rightPump, hi.onePump⟩

/-- The last stream out, and the next one in once its task is done. -/
def reopened : List Action :=
  [.attach 0, .subscribe 0, .ready 0, .nudge 0, .wait 0, .release 0, .unwound 0, .detached 0, .attach 1, .subscribe 1]

theorem rightPump_reopened : ∃ w, run step World.empty reopened = some w ∧ (Quiescent w → RightPump w) ∧ OnePump w :=
  ⟨(run step World.empty reopened).get (by decide), (Option.some_get _).symm,
    rightPump_of_undisturbed (by decide) (Option.some_get _).symm⟩

/-- The next one in while the last one out awaits the task it cancelled. -/
def overlapped : List Action :=
  [.attach 0, .subscribe 0, .ready 0, .release 0, .attach 1, .unwound 0, .detached 0]

/-- It holds a signal that is not lost, and there is no pump to wake it. -/
theorem overlapped_noPump : ∃ w, run step World.empty overlapped = some w ∧ Quiescent w ∧ ¬ RightPump w := by
  refine ⟨(run step World.empty overlapped).get (by decide), (Option.some_get _).symm, ?_, ?_⟩
  · rintro (_ | _ | i) s hs
    · cases hs
    · cases hs
      rfl
    · cases hs
  · intro hright
    obtain ⟨p, x, hp⟩ := hright.2 ⟨1, ⟨0, false, false, .held⟩, rfl, rfl, rfl⟩
    rcases p with _ | p
    · cases hp
    · cases hp

end Plantkeeper.Notifications.Fanout
