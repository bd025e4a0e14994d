/-
What holds of a fan-out while the first stream in opens its subscription and the last one out closes it: the
registered fan-out has a live pump while it has signals, and without signals it has no task, or one stream awaits
the task it cancelled. Wake-ups and the pump's own steps keep it.
-/
import Plantkeeper.Notifications.Fanout

namespace Plantkeeper.Notifications.Fanout

open Plantkeeper.Run

/-- A pump that is not done nor cancelled. -/
def Alive (pumps : ℕ → Option Pump) (p : ℕ) : Prop := ∃ x, pumps p = some x ∧ x.state ≠ .cancelled

/-- The registered fan-out is the one that has not failed. -/
structure Registry (households : Option ℕ) (fanouts : ℕ → Option HouseholdFanout) (nextFanout : ℕ) : Prop where
  registered : ∀ g, households = some g → ∃ fan, fanouts g = some fan
  failed : ∀ g fan, fanouts g = some fan → (fan.failed = false ↔ households = some g)
  old : ∀ g fan, fanouts g = some fan → g < nextFanout
  nodup : ∀ g fan, fanouts g = some fan → fan.signals.Nodup

/-- While a signal is attached there is a pump; without one there is none, or the last stream out awaits it. -/
structure Served (w : World) (fan : HouseholdFanout) : Prop where
  attached : fan.signals ≠ [] → ∃ p, fan.task = some p ∧ Alive w.pumps p
  empty : fan.signals = [] → fan.task = none ∨ ∃ i s p, w.signals i = some s ∧ s.phase = .releasing p

def SignalOk (pumps : ℕ → Option Pump) (i : ℕ) (s : Signal) (fan : HouseholdFanout) : Prop :=
  match s.phase with
  | .waiting | .held => i ∈ fan.signals ∧ s.lost = fan.failed
  | .releasing t => fan.task = some t ∧ fan.signals = [] ∧ fan.failed = false ∧ ¬ Alive pumps t

structure Inv (w : World) : Prop extends Registry w.households w.fanouts w.nextFanout where
  pump : ∀ p x, w.pumps p = some x → w.households = some x.fanout ∧ p < w.nextPump ∧
    ∃ fan, w.fanouts x.fanout = some fan ∧ fan.task = some p
  task : ∀ g fan p, w.fanouts g = some fan → fan.task = some p → p < w.nextPump ∧ ∀ x, w.pumps p = some x → x.fanout = g
  served : ∀ g fan, w.households = some g → w.fanouts g = some fan → Served w fan
  members : ∀ g fan i, w.households = some g → w.fanouts g = some fan → i ∈ fan.signals →
    ∃ s, w.signals i = some s ∧ s.fanout = g ∧ ∀ t, s.phase ≠ .releasing t
  signals : ∀ i s, w.signals i = some s → ∃ fan, w.fanouts s.fanout = some fan ∧ SignalOk w.pumps i s fan
  single : ∀ i j s s' t t', w.signals i = some s → w.signals j = some s' → s.phase = .releasing t →
    s'.phase = .releasing t' → i = j

theorem inv_empty : Inv World.empty where
  registered := by intro g h; cases h
  failed := by intro g fan h; cases h
  old := by intro g fan h; cases h
  nodup := by intro g fan h; cases h
  pump := by intro p x h; cases h
  task := by intro g fan p h; cases h
  served := by intro g fan h; cases h
  members := by intro g fan i h; cases h
  signals := by intro i s h; cases h
  single := by intro i j s s' t t' h; cases h

section

variable {w : World} {g i p : ℕ} {s : Signal} {fan : HouseholdFanout} {x : Pump}

/-- A fan-out that changes is registered, or has failed, as before. -/
theorem Inv.setFanout {fan' : HouseholdFanout} (hi : Inv w) (hfan : w.fanouts g = some fan)
    (hfailed : fan'.failed = fan.failed) (hnodup : fan'.signals.Nodup) :
    Registry w.households (Function.update w.fanouts g (some fan')) w.nextFanout where
  registered := by
    intro g' hg
    by_cases hgg : g' = g
    · rw [hgg]
      exact ⟨fan', Function.update_self ..⟩
    · obtain ⟨old, hold⟩ := hi.registered g' hg
      exact ⟨old, (Function.update_of_ne hgg ..).trans hold⟩
  failed := by
    intro g' old h
    rcases update_eq_some.1 h with ⟨rfl, hset⟩ | ⟨_, hold⟩
    · cases hset
      rw [hfailed]
      exact hi.failed g' fan hfan
    · exact hi.failed g' old hold
  old := by
    intro g' old h
    rcases update_eq_some.1 h with ⟨rfl, _⟩ | ⟨_, hold⟩
    · exact hi.old g' fan hfan
    · exact hi.old g' old hold
  nodup := by
    intro g' old h
    rcases update_eq_some.1 h with ⟨rfl, hset⟩ | ⟨_, hold⟩
    · cases hset
      exact hnodup
    · exact hi.nodup g' old hold

/-- A stream that awaits its cancelled task left the registered fan-out. -/
theorem Inv.releasing (hi : Inv w) {t : ℕ} (hs : w.signals i = some s) (hphase : s.phase = .releasing t) :
    ∃ fan, w.households = some s.fanout ∧ w.fanouts s.fanout = some fan ∧ fan.task = some t ∧ fan.signals = [] ∧
      ¬ Alive w.pumps t := by
  obtain ⟨fan, hfan, hok⟩ := hi.signals i s hs
  unfold SignalOk at hok
  rw [hphase] at hok
  exact ⟨fan, (hi.failed _ _ hfan).1 hok.2.2.1, hfan, hok.1, hok.2.1, hok.2.2.2⟩

theorem Inv.nil_of_releasing (hi : Inv w) {t : ℕ} (hs : w.signals i = some s) (hphase : s.phase = .releasing t)
    (hfan : w.fanouts s.fanout = some fan) : fan.signals = [] := by
  obtain ⟨fan', _, hfan', _, hnil, _⟩ := hi.releasing hs hphase
  rw [hfan] at hfan'
  cases hfan'
  exact hnil

/-- Where the registered fan-out has no task, or one that is not cancelled, no stream awaits one. -/
theorem Inv.none_releasing (hi : Inv w) (hg : w.households = some g) (hfan : w.fanouts g = some fan)
    (htask : ∀ t, fan.task = some t → Alive w.pumps t) : ∀ i s t, w.signals i = some s → s.phase ≠ .releasing t := by
  intro i s t hs hphase
  obtain ⟨fan', hg', hfan', ht, _, hdead⟩ := hi.releasing hs hphase
  rw [hg] at hg'
  cases hg'
  rw [hfan] at hfan'
  cases hfan'
  exact hdead (htask t ht)

/-- Every live pump is the task of the registered fan-out. -/
theorem Inv.pump_task (hi : Inv w) (hp : w.pumps p = some x) (hfan : w.fanouts g = some fan) (hg : w.households = some g) :
    x.fanout = g ∧ fan.task = some p := by
  obtain ⟨hx, _, fan', hfan', htask⟩ := hi.pump p x hp
  rw [hg] at hx
  cases hx
  rw [hfan] at hfan'
  cases hfan'
  exact ⟨rfl, htask⟩

/-- A signal that is not being released is attached to its fan-out. -/
theorem Inv.attached (hi : Inv w) (hs : w.signals i = some s) (hfan : w.fanouts s.fanout = some fan)
    (hphase : ∀ t, s.phase ≠ .releasing t) : i ∈ fan.signals ∧ s.lost = fan.failed := by
  obtain ⟨fan', hfan', hok⟩ := hi.signals i s hs
  rw [hfan] at hfan'
  cases hfan'
  unfold SignalOk at hok
  cases h : s.phase with
  | waiting => rw [h] at hok; exact hok
  | held => rw [h] at hok; exact hok
  | releasing t => exact absurd h (hphase t)

theorem signalOk_attached {pumps : ℕ → Option Pump} (hphase : ∀ t, s.phase ≠ .releasing t) (hmem : i ∈ fan.signals)
    (hlost : s.lost = fan.failed) : SignalOk pumps i s fan := by
  unfold SignalOk
  cases h : s.phase with
  | waiting => exact ⟨hmem, hlost⟩
  | held => exact ⟨hmem, hlost⟩
  | releasing t => exact absurd h (hphase t)

theorem SignalOk.mono {pumps pumps' : ℕ → Option Pump} (hok : SignalOk pumps i s fan)
    (halive : ∀ q, Alive pumps' q → Alive pumps q) : SignalOk pumps' i s fan := by
  unfold SignalOk at hok ⊢
  split
  · rename_i hphase
    rw [hphase] at hok
    exact hok
  · rename_i hphase
    rw [hphase] at hok
    exact hok
  · rename_i t hphase
    rw [hphase] at hok
    exact ⟨hok.1, hok.2.1, hok.2.2.1, fun hlive => hok.2.2.2 (halive t hlive)⟩

/-! ## Signals -/

/-- The signal as before, but for its wake-up and that its stream may hold it by now. -/
def Same (s s' : Signal) : Prop :=
  s'.fanout = s.fanout ∧ s'.lost = s.lost ∧ (s'.phase = s.phase ∨ s.phase = .waiting ∧ s'.phase = .held)

theorem Same.refl (s : Signal) : Same s s := ⟨rfl, rfl, .inl rfl⟩

theorem Same.releasing {s' : Signal} (h : Same s s') (t : ℕ) : s'.phase = .releasing t ↔ s.phase = .releasing t := by
  rcases h.2.2 with hp | ⟨hw, hh⟩
  · rw [hp]
  · rw [hw, hh]
    exact iff_of_false (by simp) (by simp)

/-- What wakes streams or lets them go on leaves the fan-outs and the pumps. -/
theorem Inv.same (hi : Inv w) {signals : ℕ → Option Signal}
    (hs : ∀ i s', signals i = some s' → ∃ s, w.signals i = some s ∧ Same s s')
    (hs' : ∀ i s, w.signals i = some s → ∃ s', signals i = some s' ∧ Same s s') : Inv { w with signals := signals } where
  toRegistry := hi.toRegistry
  pump := hi.pump
  task := hi.task
  served := by
    intro g fan hg hfan
    refine ⟨(hi.served g fan hg hfan).attached, fun hnil => ?_⟩
    rcases (hi.served g fan hg hfan).empty hnil with htask | ⟨i, s, p, hsi, hphase⟩
    · exact .inl htask
    · obtain ⟨s', hs'i, hsame⟩ := hs' i s hsi
      exact .inr ⟨i, s', p, hs'i, (hsame.releasing p).2 hphase⟩
  members := by
    intro g fan i hg hfan hmem
    obtain ⟨s, hsi, hsg, hphase⟩ := hi.members g fan i hg hfan hmem
    obtain ⟨s', hs'i, hsame⟩ := hs' i s hsi
    exact ⟨s', hs'i, hsame.1.trans hsg, fun t ht => hphase t ((hsame.releasing t).1 ht)⟩
  signals := by
    intro i s' hs'i
    obtain ⟨s, hsi, hsame⟩ := hs i s' hs'i
    obtain ⟨fan, hfan, hok⟩ := hi.signals i s hsi
    refine ⟨fan, by rw [hsame.1]; exact hfan, ?_⟩
    cases hphase : s.phase with
    | releasing t =>
      unfold SignalOk at hok ⊢
      rw [(hsame.releasing t).2 hphase]
      rw [hphase] at hok
      exact hok
    | waiting | held =>
      all_goals
        have hnot : ∀ t, s.phase ≠ .releasing t := by simp [hphase]
        obtain ⟨hmem, hlost⟩ := hi.attached hsi hfan hnot
        exact signalOk_attached (fun t ht => hnot t ((hsame.releasing t).1 ht)) hmem (hsame.2.1.trans hlost)
  single := by
    intro i j s s' t t' hsi hsj hphase hphase'
    obtain ⟨s₁, hs₁, hsame₁⟩ := hs i s hsi
    obtain ⟨s₂, hs₂, hsame₂⟩ := hs j s' hsj
    exact hi.single i j s₁ s₂ t t' hs₁ hs₂ ((hsame₁.releasing t).1 hphase) ((hsame₂.releasing t').1 hphase')

theorem Inv.setSignal {s' : Signal} (hi : Inv w) (hs : w.signals i = some s) (hsame : Same s s') :
    Inv (w.setSignal i (some s')) :=
  hi.same (fun _ _ h => exists_of_update Same.refl hs hsame h) fun _ _ h => exists_update Same.refl hs hsame h

theorem Inv.nudge (hi : Inv w) (fan : HouseholdFanout) : Inv (w.each fan fun s => { s with wakeup := true }) := by
  refine hi.same ?_ ?_
  · intro j r hr
    change (if j ∈ fan.signals then _ else _) = _ at hr
    split at hr
    · obtain ⟨s, hs, rfl⟩ := Option.map_eq_some_iff.1 hr
      exact ⟨s, hs, rfl, rfl, .inl rfl⟩
    · exact ⟨r, hr, Same.refl r⟩
  · intro j r hr
    by_cases hmem : j ∈ fan.signals
    · exact ⟨{ r with wakeup := true }, by rw [if_pos hmem, hr]; rfl, rfl, rfl, .inl rfl⟩
    · exact ⟨r, by rw [if_neg hmem]; exact hr, Same.refl r⟩

/-! ## Pumps -/

/-- Pumps go on or are done, and the same are live. -/
theorem Inv.setPumps {pumps : ℕ → Option Pump} (hi : Inv w)
    (hpumps : ∀ q y, pumps q = some y → ∃ y', w.pumps q = some y' ∧ y'.fanout = y.fanout)
    (halive : ∀ q, Alive pumps q ↔ Alive w.pumps q) : Inv { w with pumps := pumps } where
  toRegistry := hi.toRegistry
  pump := by
    intro q y h
    obtain ⟨y', hy', hyg⟩ := hpumps q y h
    rw [← hyg]
    exact hi.pump q y' hy'
  task := by
    intro g fan q hfan htask
    refine ⟨(hi.task g fan q hfan htask).1, fun y hy => ?_⟩
    obtain ⟨y', hy', hyg⟩ := hpumps q y hy
    exact hyg.symm.trans ((hi.task g fan q hfan htask).2 y' hy')
  served := by
    intro g fan hg hfan
    refine ⟨fun hne => ?_, (hi.served g fan hg hfan).empty⟩
    obtain ⟨q, hq, hlive⟩ := (hi.served g fan hg hfan).attached hne
    exact ⟨q, hq, (halive q).2 hlive⟩
  members := hi.members
  signals := by
    intro j s h
    obtain ⟨fan, hfan, hok⟩ := hi.signals j s h
    exact ⟨fan, hfan, hok.mono fun q => (halive q).1⟩
  single := hi.single

/-- A pump that is not cancelled goes on. -/
theorem Inv.setPump {state : PumpState} (hi : Inv w) (hp : w.pumps p = some x) (hx : x.state ≠ .cancelled)
    (hstate : state ≠ .cancelled) : Inv (w.setPump p (some ⟨x.fanout, state⟩)) := by
  refine hi.setPumps (fun _ _ h => exists_of_update (R := (·.fanout = ·.fanout)) (fun _ => rfl) hp rfl h) fun q => ?_
  unfold Alive
  by_cases hq : q = p
  · subst hq
    rw [Function.update_self, hp]
    simp [hx, hstate]
  · rw [Function.update_of_ne hq]

/-- A cancelled pump is done: its last stream awaits that. -/
theorem Inv.unwound (hi : Inv w) (hp : w.pumps p = some x) (hx : x.state = .cancelled) : Inv (w.setPump p none) := by
  refine hi.setPumps (fun q y h => ⟨y, (eq_some_of_remove h).2, rfl⟩) fun q => ?_
  unfold Alive
  by_cases hq : q = p
  · subst hq
    rw [Function.update_self, hp]
    simp [hx]
  · rw [Function.update_of_ne hq]

/-- The same signals, task and failure: a fan-out but for whether it is ready. -/
def Alike (fan fan' : HouseholdFanout) : Prop :=
  fan'.signals = fan.signals ∧ fan'.task = fan.task ∧ fan'.failed = fan.failed

theorem Inv.setReady (hi : Inv w) (hfan : w.fanouts g = some fan) (ready : Bool) :
    Inv (w.setFanout g { fan with ready := ready }) := by
  have hrefl : ∀ fan, Alike fan fan := fun _ => ⟨rfl, rfl, rfl⟩
  have halike : Alike fan { fan with ready := ready } := ⟨rfl, rfl, rfl⟩
  refine ⟨hi.setFanout hfan rfl (hi.nodup g fan hfan), ?_, ?_, ?_, ?_, ?_, hi.single⟩
  · intro q y h
    obtain ⟨hg, hq, old, hold, htask⟩ := hi.pump q y h
    obtain ⟨fan', hfan', _, ht, _⟩ := exists_update hrefl hfan halike hold
    exact ⟨hg, hq, fan', hfan', ht.trans htask⟩
  · intro g' fan' q h htask
    obtain ⟨old, hold, _, ht, _⟩ := exists_of_update hrefl hfan halike h
    exact hi.task g' old q hold (ht.symm.trans htask)
  · intro g' fan' hg h
    obtain ⟨old, hold, hsig, ht, _⟩ := exists_of_update hrefl hfan halike h
    have hserved := hi.served g' old hg hold
    refine ⟨fun hne => ?_, fun hnil => ?_⟩
    · rw [ht]
      exact hserved.attached (by rw [← hsig]; exact hne)
    · rw [ht]
      exact hserved.empty (by rw [← hsig]; exact hnil)
  · intro g' fan' j hg h hmem
    obtain ⟨old, hold, hsig, _⟩ := exists_of_update hrefl hfan halike h
    exact hi.members g' old j hg hold (by rw [← hsig]; exact hmem)
  · intro j s h
    obtain ⟨old, hold, hok⟩ := hi.signals j s h
    obtain ⟨fan', hfan', hsig, ht, hf⟩ := exists_update hrefl hfan halike hold
    refine ⟨fan', hfan', ?_⟩
    unfold SignalOk at hok ⊢
    rw [hsig, ht, hf]
    exact hok

end

end Plantkeeper.Notifications.Fanout
