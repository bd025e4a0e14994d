/-
Waterings of one plant that run at the same time. Each has read the clock before it waits for the lock of
the plant's schedule, and reads the plant once it has it. The lock is held to the end of the transaction,
so the plant is as the last committed watering left it whenever another one is weighed against it.
-/
import Mathlib.Tactic.Linarith
import Plantkeeper.Garden.Commands

namespace Plantkeeper.Garden.Watering

open Plantkeeper.Run

/-- The `completed_at` of the `WateringCompleted` events, in commit order. -/
def completions (outbox : List OutboxEvent) : List Instant :=
  outbox.filterMap fun e => match e with
    | .care (.wateringCompleted _ completedAt _ _) => some completedAt
    | _ => none

/-- The watering at `b` is late enough after the one at `a`. -/
def Spaced (a b : Instant) : Prop := a + MIN_WATERING_INTERVAL ≤ b

theorem Spaced.trans {a b c : Instant} (hab : Spaced a b) (hbc : Spaced b c) : Spaced a c := by
  have hpos : 0 < MIN_WATERING_INTERVAL := by decide
  unfold Spaced at *
  linarith

/-! ## One watering -/

/-- What an accepted watering made of the plant. -/
structure Waters (p : Plant) (now : Instant) (work : Work) : Prop where
  plant : work.plant = { p with lastWateredAt := some now }
  events : completions work.events = [now]
  spaced : ∀ last ∈ p.lastWateredAt, Spaced last now

theorem water_ok {p p' : Plant} {now : Instant} {events : List Event} (h : p.water now = .ok (p', events)) :
    p' = { p with lastWateredAt := some now } ∧ events = [] ∧ ∀ last ∈ p.lastWateredAt, Spaced last now := by
  unfold Plant.water at h
  split at h
  · cases h
  · split at h
    · cases h
    · rename_i htime
      cases h
      refine ⟨rfl, rfl, fun last hlast => ?_⟩
      rw [Option.mem_def] at hlast
      rw [hlast] at htime
      simp only [Option.any_some, decide_eq_true_eq] at htime
      unfold Spaced
      linarith

theorem operate_waters {plant : Plant} {schedule : Option CareSchedule} {v : Option ℕ} {now : Instant} {work : Work}
    (h : operate (.waterPlant v now) plant schedule = some work) : Waters plant now work := by
  cases schedule with
  | none => cases h
  | some s =>
    simp only [operate] at h
    split at h
    · rename_i p events s' event hp hs
      cases h
      obtain ⟨rfl, rfl, hspaced⟩ := water_ok hp
      obtain ⟨-, -, rfl⟩ := CareSchedule.change_ok hs
      exact ⟨rfl, rfl, hspaced⟩
    · cases h

/-! ## The invariant -/

/-- A watering past the lock holds it, and what it made is of the plant as it is. -/
def TxOk (w : World) (i : ℕ) : Tx → Prop
  | ⟨.waterPlant _ _, .getForUpdate⟩ => True
  | ⟨.waterPlant _ _, .get _⟩ => w.lock = some i
  | ⟨.waterPlant _ now, .save work⟩ => w.lock = some i ∧ Waters w.plant now work
  | ⟨.waterPlant _ now, .commit work seen⟩ => w.lock = some i ∧ Waters w.plant now work ∧ seen = w.plant
  | _ => False

/-- The waterings so far, the last one before the run first. -/
def waterings (before : Option Instant) (w : World) : List Instant := before.toList ++ completions w.outbox

structure Inv (before : Option Instant) (w : World) : Prop where
  txs : ∀ i tx, w.txs i = some tx → TxOk w i tx
  spaced : (waterings before w).Pairwise Spaced
  last : w.plant.lastWateredAt = (waterings before w).getLast?

theorem inv_atRest (plant : Plant) (schedule : Option CareSchedule) :
    Inv plant.lastWateredAt (World.atRest plant schedule) where
  txs := by intro i tx h; cases h
  spaced := by cases h : plant.lastWateredAt <;> simp [waterings, completions, World.atRest]
  last := by cases h : plant.lastWateredAt <;> simp [waterings, completions, World.atRest, h]

/-- A watering that comes late enough after the last one does after all. -/
theorem pairwise_snoc {l : List Instant} {now : Instant} (hl : l.Pairwise Spaced) (hlast : ∀ last ∈ l.getLast?, Spaced last now) :
    (l ++ [now]).Pairwise Spaced := by
  rw [List.pairwise_append]
  refine ⟨hl, List.pairwise_singleton .., fun a ha b hb => ?_⟩
  rw [List.mem_singleton] at hb
  subst hb
  obtain ⟨l', last, rfl⟩ := (List.eq_nil_or_concat l).resolve_left (List.ne_nil_of_mem ha)
  have hnow : Spaced last b := hlast last (by simp)
  rw [List.concat_eq_append, List.mem_append, List.mem_singleton] at ha
  rcases ha with ha | rfl
  · rw [List.concat_eq_append, List.pairwise_append] at hl
    exact (hl.2.2 a ha last (List.mem_singleton_self _)).trans hnow
  · exact hnow

section

variable {before : Option Instant} {w w' : World} {i : ℕ}

/-- Whoever is past the lock holds it, so there is one. -/
theorem TxOk.frame {tx : Tx} (h : TxOk w i tx) (hlock : w'.lock = w.lock) (hplant : w'.plant = w.plant) : TxOk w' i tx := by
  unfold TxOk at *
  rw [hlock, hplant]
  exact h

/-- The others wait for the lock. -/
theorem TxOk.waiting {tx : Tx} (h : TxOk w i tx) (hfree : w.lock ≠ some i) : TxOk w' i tx := by
  obtain ⟨command, pc⟩ := tx
  cases command with
  | removePlant | movePlant => cases pc <;> cases h
  | waterPlant v now =>
    cases pc with
    | getForUpdate => trivial
    | get => exact absurd h hfree
    | save | commit => exact absurd h.1 hfree

/-- The tables stay and a watering goes on. -/
theorem Inv.goto {command : Command} {pc : Pc} (hi : Inv before w) (hok : TxOk w i ⟨command, pc⟩) :
    Inv before (w.goto i command pc) where
  txs := by
    intro j tx h
    rcases update_eq_some.1 h with ⟨rfl, hsame⟩ | ⟨-, h⟩
    · cases hsame
      exact hok.frame rfl rfl
    · exact (hi.txs j tx h).frame rfl rfl
  spaced := hi.spaced
  last := hi.last

theorem Inv.lock {command : Command} {pc : Pc} (hi : Inv before w) (hfree : w.lock = none)
    (hok : TxOk { w with lock := some i } i ⟨command, pc⟩) : Inv before { w.goto i command pc with lock := some i } where
  txs := by
    intro j tx h
    rcases update_eq_some.1 h with ⟨rfl, hsame⟩ | ⟨-, h⟩
    · cases hsame
      exact hok.frame rfl rfl
    · exact (hi.txs j tx h).waiting (by rw [hfree]; exact nofun)
  spaced := hi.spaced
  last := hi.last

/-- A watering that is over holds no lock; if it held it, the others waited. -/
theorem TxOk.close {j : ℕ} {tx : Tx} {p : Plant} (h : TxOk w j tx) (hj : j ≠ i) (hp : w.lock ≠ some i → p = w.plant) :
    TxOk { w.close i with plant := p } j tx := by
  by_cases hlock : w.lock = some i
  · exact h.waiting (by rw [hlock]; simpa using hj.symm)
  · refine h.frame ?_ (hp hlock)
    exact if_neg hlock

theorem txs_close {j : ℕ} {tx : Tx} (h : (w.close i).txs j = some tx) : j ≠ i ∧ w.txs j = some tx :=
  eq_some_of_remove h

theorem Inv.close (hi : Inv before w) : Inv before (w.close i) where
  txs := by
    intro j tx h
    obtain ⟨hj, h⟩ := txs_close h
    exact (hi.txs j tx h).close hj fun _ => rfl
  spaced := hi.spaced
  last := hi.last

/-- The commit of a watering: it comes after all before it. -/
theorem Inv.commit {v : Option ℕ} {now : Instant} {work : Work} {seen : Plant} (hi : Inv before w)
    (htx : w.txs i = some ⟨.waterPlant v now, .commit work seen⟩) : Inv before (w.commit i work seen) := by
  obtain ⟨hlock, hwaters, rfl⟩ := hi.txs i _ htx
  have hplant : (w.commit i work w.plant).plant = { w.plant with lastWateredAt := some now } := by
    rw [← hwaters.plant]
    exact Columns.merge_self (C := plants) ..
  have hwaterings : waterings before (w.commit i work w.plant) = waterings before w ++ [now] := by
    show before.toList ++ completions (w.outbox ++ work.events) = before.toList ++ completions w.outbox ++ [now]
    rw [← hwaters.events, List.append_assoc]
    exact congrArg _ List.filterMap_append
  constructor
  · intro j tx h
    obtain ⟨hj, h⟩ := txs_close h
    exact (hi.txs j tx h).waiting (by rw [hlock]; simpa using hj.symm)
  · rw [hwaterings]
    refine pairwise_snoc hi.spaced fun last hlast => hwaters.spaced last ?_
    rw [hi.last]
    exact hlast
  · rw [hwaterings, hplant, List.getLast?_concat]

/-! ## One step -/

/-- The action starts no other command than a watering. -/
def IsWatering : Action → Prop
  | .start _ command => ∃ v now, command = .waterPlant v now
  | _ => True

theorem Inv.step {a : Action} (hi : Inv before w) (hwatering : IsWatering a) (h : step w a = some w') : Inv before w' := by
  cases a with
  | start j command =>
    obtain ⟨v, now, rfl⟩ := hwatering
    simp only [Garden.step] at h
    split at h
    · cases h
      exact hi.goto trivial
    · cases h
  | giveUp j =>
    cases h
    exact hi.close
  | execute j =>
    simp only [Garden.step] at h
    split at h
    · cases h
    · rename_i tx htx
      have hok := hi.txs j tx htx
      obtain ⟨_ | _ | ⟨v, now⟩, pc⟩ := tx
      · cases pc <;> cases hok
      · cases pc <;> cases hok
      · unfold execute at h
        cases pc with
        | getForUpdate =>
          simp only at h
          split at h
          · cases h
            exact hi.close
          · rename_i s _ hfree
            cases h
            exact hi.lock hfree rfl
          · cases h
        | get schedule =>
          simp only at h
          split at h
          · cases h
            exact hi.close
          · rename_i work hwork
            cases h
            exact hi.goto ⟨hok, operate_waters hwork⟩
        | save work =>
          cases h
          exact hi.goto ⟨hok.1, hok.2, rfl⟩
        | commit work seen =>
          cases h
          exact hi.commit htx

/-- The action is the last of a command that succeeds. -/
def Commits (w : World) (a : Action) : Prop :=
  ∃ i command work seen, a = .execute i ∧ w.txs i = some ⟨command, .commit work seen⟩

/-- Only the commit of a command writes. -/
theorem unchanged_step {a : Action} (h : Garden.step w a = some w') (hc : ¬ Commits w a) :
    w'.plant = w.plant ∧ w'.schedule = w.schedule ∧ w'.outbox = w.outbox := by
  cases a with
  | start j command =>
    simp only [Garden.step] at h
    split at h <;> cases h
    exact ⟨rfl, rfl, rfl⟩
  | giveUp j =>
    cases h
    exact ⟨rfl, rfl, rfl⟩
  | execute j =>
    simp only [Garden.step] at h
    split at h
    · cases h
    · rename_i tx htx
      obtain ⟨command, pc⟩ := tx
      unfold execute at h
      cases pc with
      | getForUpdate =>
        simp only at h
        split at h <;> cases h <;> exact ⟨rfl, rfl, rfl⟩
      | get schedule =>
        simp only at h
        split at h <;> cases h <;> exact ⟨rfl, rfl, rfl⟩
      | save work =>
        cases h
        exact ⟨rfl, rfl, rfl⟩
      | commit work seen => exact absurd ⟨j, command, work, seen, rfl, htx⟩ hc

end

/-! ## Runs -/

/-- **Waterings are spaced**, whatever the order of clock readings and locks: the committed ones lie at
least an hour apart, each after those committed before it and after the last one before the run, the
plant remembers the last of them, and a command that does not commit changes nothing. -/
theorem waterings_spaced {plant : Plant} {schedule : Option CareSchedule} {as : List Action} {w : World}
    (hwaterings : ∀ a ∈ as, IsWatering a) (hrun : run step (World.atRest plant schedule) as = some w) :
    (plant.lastWateredAt.toList ++ completions w.outbox).Pairwise (fun a b => a + MIN_WATERING_INTERVAL ≤ b) ∧
      w.plant.lastWateredAt = (plant.lastWateredAt.toList ++ completions w.outbox).getLast? ∧
      ∀ a w', step w a = some w' → ¬ Commits w a →
        w'.plant = w.plant ∧ w'.schedule = w.schedule ∧ w'.outbox = w.outbox := by
  have hi : Inv plant.lastWateredAt w :=
    inv_of_meets (fun _ _ _ hi hw h => hi.step hw h) (inv_atRest plant schedule) (meets_of_forall hwaterings _) hrun
  exact ⟨hi.spaced, hi.last, fun _ _ h hc => unchanged_step h hc⟩

/-- A plant on the balcony, with a weekly schedule. -/
def balcony : World :=
  .atRest ⟨1, 2, 3, ⟨['b'], by decide, by decide⟩, ⟨['h'], by decide, by decide, by decide⟩, 0, none, none, false⟩
    (some ⟨1, .weekly, 0, 1⟩)

/-- Three waterings read the clock, the second of them the earliest reading; then each has the lock in turn. -/
def outOfOrder : List Action :=
  [.start 0 (.waterPlant none (hours 3)), .start 1 (.waterPlant none (hours 2)), .start 2 (.waterPlant none (hours 4)),
    .execute 0, .execute 0, .execute 0, .execute 0, .execute 1, .execute 1, .execute 2, .execute 2, .execute 2, .execute 2]

/-- The first and the third are committed, the second is refused. -/
theorem waterings_spaced_outOfOrder :
    ∃ w, run step balcony outOfOrder = some w ∧ completions w.outbox = [hours 3, hours 4] ∧
      (completions w.outbox).Pairwise fun a b => a + MIN_WATERING_INTERVAL ≤ b := by
  have hwaterings : ∀ a ∈ outOfOrder, IsWatering a := by
    simp [outOfOrder, IsWatering]
  have hrun : run step balcony outOfOrder = some ((run step balcony outOfOrder).get (by decide)) :=
    (Option.some_get _).symm
  obtain ⟨hspaced, -, -⟩ := waterings_spaced hwaterings hrun
  exact ⟨_, hrun, by decide, hspaced⟩

end Plantkeeper.Garden.Watering
