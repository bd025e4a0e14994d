/-
A removed plant stays removed, as far as the handlers keep it. They read the plant without a lock and
write back every column that differs from the row at the save, so a removal committed between a
handler's read and its save is undone with the other stale columns, and two removals that read the
plant before either commits are both announced. Where no save finds a column it does not set changed
since it was read, and no removal commits on a removed plant, nothing is lost.
-/
import Plantkeeper.Garden.Commands

namespace Plantkeeper.Garden

open Plantkeeper.Run

/-! ## What the handlers rely on -/

/-- The commit of a command that set the column. -/
def Sets (w : World) (a : Action) (c : Column) : Prop :=
  ∃ i command work seen, a = .execute i ∧ w.txs i = some ⟨command, .commit work seen⟩ ∧
    work.plant.column c ≠ work.read.column c

/-- A save finds every column that its command does not set as the command read it, and a removal
commits on a plant that is not removed. -/
def TxUntouched (p : Plant) : Option Tx → Prop
  | some ⟨_, .save work⟩ => ∀ c, work.plant.column c = work.read.column c → p.column c = work.read.column c
  | some ⟨.removePlant _, .commit _ _⟩ => p.removed = false
  | _ => True

def Untouched (w : World) : Action → Prop
  | .execute i => TxUntouched w.plant (w.txs i)
  | _ => True

instance (p : Plant) : ∀ tx, Decidable (TxUntouched p tx)
  | some ⟨_, .save work⟩ =>
    inferInstanceAs (Decidable (∀ c, work.plant.column c = work.read.column c → p.column c = work.read.column c))
  | some ⟨.removePlant _, .commit _ _⟩ => inferInstanceAs (Decidable (p.removed = false))
  | none | some ⟨_, .getForUpdate⟩ | some ⟨_, .get _⟩ => inferInstanceAs (Decidable True)
  | some ⟨.movePlant .., .commit _ _⟩ | some ⟨.waterPlant .., .commit _ _⟩ => inferInstanceAs (Decidable True)

instance (w : World) : ∀ a, Decidable (Untouched w a)
  | .execute i => inferInstanceAs (Decidable (TxUntouched w.plant (w.txs i)))
  | .start .. | .giveUp _ => inferInstanceAs (Decidable True)

/-! ## The invariant -/

/-- What a command made: only a removal removes the plant and records `PlantRemoved`, once. -/
def Made : Command → Work → Prop
  | .removePlant _, k => k.read.removed = false ∧ k.plant.removed = true ∧ k.events.countP OutboxEvent.isPlantRemoved = 1
  | .movePlant .., k | .waterPlant .., k =>
    k.plant.removed = k.read.removed ∧ k.events.countP OutboxEvent.isPlantRemoved = 0

/-- An open transaction: its work was made by its command, and the row its save saw agrees with it in
what the command did not set. -/
def TxOk (w : World) (tx : Tx) : Prop :=
  match tx.pc with
  | .getForUpdate | .get _ => True
  | .save work => Made tx.command work
  | .commit work seen => Made tx.command work ∧
      (∀ c, work.plant.column c = work.read.column c → seen.column c = work.read.column c) ∧
      (seen.removed = true → w.plant.removed = true)

structure Inv (w : World) : Prop where
  txs : ∀ i tx, w.txs i = some tx → TxOk w tx
  removed : w.outbox.countP OutboxEvent.isPlantRemoved ≠ 0 → w.plant.removed = true
  once : w.outbox.countP OutboxEvent.isPlantRemoved ≤ 1

theorem inv_atRest (plant : Plant) (schedule : Option CareSchedule) : Inv (World.atRest plant schedule) where
  txs := by intro i tx h; cases h
  removed := fun h => absurd rfl h
  once := Nat.zero_le 1

section

variable {w w' : World} {i : ℕ} {tx : Tx} {command : Command} {work : Work} {seen : Plant}

theorem made_operate {plant : Plant} {schedule : Option CareSchedule} (h : operate command plant schedule = some work) :
    Made command work := by
  unfold operate at h
  split at h
  · rename_i now
    split at h
    · cases h
    · rename_i p events hr
      cases h
      unfold Plant.remove at hr
      split at hr
      · cases hr
      · rename_i hn
        cases hr
        exact ⟨by simpa using hn, rfl, rfl⟩
  · split at h
    · cases h
    · rename_i p events hr
      cases h
      unfold Plant.move at hr
      split at hr
      · cases hr
      · split at hr
        · cases hr; exact ⟨rfl, rfl⟩
        · cases hr; exact ⟨rfl, rfl⟩
  · split at h
    · rename_i p events s' event hr _
      cases h
      unfold Plant.water at hr
      split at hr
      · cases hr
      · split at hr
        · cases hr
        · cases hr; exact ⟨rfl, rfl⟩
    · cases h
  · cases h

theorem TxOk.mono (h : TxOk w tx) (hr : w.plant.removed = true → w'.plant.removed = true) : TxOk w' tx := by
  unfold TxOk at h ⊢
  split
  · trivial
  · trivial
  · rename_i hpc
    rw [hpc] at h
    exact h
  · rename_i hpc
    rw [hpc] at h
    exact ⟨h.1, h.2.1, fun hs => hr (h.2.2 hs)⟩

/-- A transaction moves on, and everything else about the invariant is as before. -/
theorem inv_goto {lock : Option ℕ} {pc : Pc} (hi : Inv w) (hok : TxOk w ⟨command, pc⟩) :
    Inv { w.goto i command pc with lock := lock } where
  txs := by
    intro j tx h
    rcases update_eq_some.1 h with ⟨rfl, hsame⟩ | ⟨-, h⟩
    · cases hsame
      exact hok.mono id
    · exact (hi.txs j tx h).mono id
  removed := hi.removed
  once := hi.once

theorem txs_close {j : ℕ} (h : (w.close i).txs j = some tx) : w.txs j = some tx :=
  (eq_some_of_remove h).2

theorem inv_close (hi : Inv w) : Inv (w.close i) where
  txs := fun j tx h => (hi.txs j tx (txs_close h)).mono id
  removed := hi.removed
  once := hi.once

/-! ## The commit -/

/-- A column the command did not set is the stored one. -/
theorem merge_unset {c : Column} (hs : ∀ c, work.plant.column c = work.read.column c → seen.column c = work.read.column c)
    (hc : work.plant.column c = work.read.column c) :
    (plants.merge seen work.plant w.plant).column c = w.plant.column c :=
  Columns.get_merge_of_eq (C := plants) (c := c) (hc.trans (hs c hc).symm)

theorem merge_removed : (plants.merge seen work.plant w.plant).removed =
    if work.plant.removed = seen.removed then w.plant.removed else work.plant.removed :=
  rfl

/-- Under the conditions no commit takes a removal back, and a removal's own commit removes. -/
theorem removed_commit (hok : TxOk w ⟨command, .commit work seen⟩) :
    (w.plant.removed = true → (plants.merge seen work.plant w.plant).removed = true) ∧
      (work.events.countP OutboxEvent.isPlantRemoved ≠ 0 → (plants.merge seen work.plant w.plant).removed = true) := by
  obtain ⟨hm, hs, hseen⟩ := hok
  cases command with
  | removePlant now =>
    obtain ⟨-, hp, -⟩ := hm
    have hremoved : (plants.merge seen work.plant w.plant).removed = true := by
      rw [merge_removed, hp]
      split
      · rename_i h
        exact hseen h.symm
      · rfl
    exact ⟨fun _ => hremoved, fun _ => hremoved⟩
  | movePlant location now =>
    refine ⟨fun h => ?_, fun h => absurd hm.2 h⟩
    exact (merge_unset (c := .removed) hs hm.1).trans h
  | waterPlant expectedVersion now =>
    refine ⟨fun h => ?_, fun h => absurd hm.2 h⟩
    exact (merge_unset (c := .removed) hs hm.1).trans h

theorem inv_commit (hi : Inv w) (htx : w.txs i = some ⟨command, .commit work seen⟩) (hu : Untouched w (.execute i)) :
    Inv (w.commit i work seen) := by
  have hok : TxOk w ⟨command, .commit work seen⟩ := hi.txs i _ htx
  obtain ⟨hkeep, hset⟩ := removed_commit hok
  have hcount : (w.commit i work seen).outbox.countP OutboxEvent.isPlantRemoved =
      w.outbox.countP OutboxEvent.isPlantRemoved + work.events.countP OutboxEvent.isPlantRemoved :=
    List.countP_append
  refine ⟨fun j tx h => (hi.txs j tx (txs_close h)).mono hkeep, ?_, ?_⟩
  · intro h
    rw [hcount] at h
    by_cases ho : w.outbox.countP OutboxEvent.isPlantRemoved = 0
    · exact hset (by omega)
    · exact hkeep (hi.removed ho)
  · rw [hcount]
    cases command with
    | removePlant now =>
      -- nothing was announced yet: the plant is not removed
      simp only [Untouched, TxUntouched, htx] at hu
      have hnone : w.outbox.countP OutboxEvent.isPlantRemoved = 0 := by
        by_contra hne
        rw [hi.removed hne] at hu; cases hu
      rw [hnone, hok.1.2.2]
    | movePlant location now =>
      rw [hok.1.2]; exact hi.once
    | waterPlant expectedVersion now =>
      rw [hok.1.2]; exact hi.once

/-! ## One step -/

/-- One step: the invariant is kept, and a column only changes by the commit of a command that set it. -/
theorem inv_step {a : Action} (hi : Inv w) (hu : Untouched w a) (h : step w a = some w') :
    Inv w' ∧ ∀ c, ¬ Sets w a c → w'.plant.column c = w.plant.column c := by
  cases a with
  | start i command =>
    simp only [step] at h
    split at h
    · cases h
      refine ⟨inv_goto hi ?_, fun c _ => rfl⟩
      cases command <;> trivial
    · cases h
  | giveUp i =>
    cases h
    exact ⟨inv_close hi, fun c _ => rfl⟩
  | execute i =>
    simp only [step] at h
    split at h
    · cases h
    · rename_i tx htx
      obtain ⟨command, pc⟩ := tx
      unfold execute at h
      cases pc with
      | getForUpdate =>
        simp only at h
        split at h
        · cases h; exact ⟨inv_close hi, fun c _ => rfl⟩
        · cases h; exact ⟨inv_goto hi trivial, fun c _ => rfl⟩
        · cases h
      | get schedule =>
        simp only at h
        split at h
        · cases h; exact ⟨inv_close hi, fun c _ => rfl⟩
        · rename_i work hw
          cases h; exact ⟨inv_goto hi (made_operate hw), fun c _ => rfl⟩
      | save work =>
        cases h
        simp only [Untouched, TxUntouched, htx] at hu
        exact ⟨inv_goto hi ⟨hi.txs i _ htx, hu, id⟩, fun c _ => rfl⟩
      | commit work seen =>
        cases h
        refine ⟨inv_commit hi htx hu, fun c hc => ?_⟩
        have hok : TxOk w ⟨command, .commit work seen⟩ := hi.txs i _ htx
        apply merge_unset hok.2.1
        by_contra hne
        exact hc ⟨i, command, work, seen, rfl, htx, hne⟩

end

/-! ## Runs -/

/-- **A removed plant stays removed and nothing is lost**, in every interleaving of the three commands
whose saves find what they do not set as it was read and whose removals find the plant there: at every
step at most one `PlantRemoved` is committed, the plant is removed from then on, and a column changes
only by the commit of a command that set it. -/
theorem removed_for_good {plant : Plant} {schedule : Option CareSchedule} {acts : List Action} {a : Action} {w w' : World}
    (hm : Meets step Untouched (World.atRest plant schedule) (acts ++ [a]))
    (h : run step (World.atRest plant schedule) acts = some w) (hs : step w a = some w') :
    w'.outbox.countP OutboxEvent.isPlantRemoved ≤ 1 ∧
      ((∃ e ∈ w'.outbox, e.isPlantRemoved = true) → w'.plant.removed = true) ∧
      ∀ c, ¬ Sets w a c → w'.plant.column c = w.plant.column c := by
  obtain ⟨hm, ha⟩ := meets_append hm h
  have hi : Inv w := inv_of_meets (fun _ _ _ hi hu h => (inv_step hi hu h).1) (inv_atRest plant schedule) hm h
  obtain ⟨hi', hcols⟩ := inv_step hi ha.1 hs
  refine ⟨hi'.once, fun he => hi'.removed ?_, hcols⟩
  have hpos : 0 < w'.outbox.countP OutboxEvent.isPlantRemoved := List.countP_pos_iff.2 he
  omega

/-- A fern on the shelf, with a weekly schedule. -/
def fern : World :=
  .atRest ⟨1, 2, 3, ⟨['f'], by decide, by decide⟩, ⟨['s'], by decide, by decide, by decide⟩, 0, none, none, false⟩
    (some ⟨1, .weekly, 0, 1⟩)

/-- Where it is moved to. -/
def desk : Location := ⟨['d'], by decide, by decide, by decide⟩

/-- A move and a removal read and save before either commits; the move commits. -/
def bothSaved : List Action :=
  [.start 0 (.movePlant desk 10), .execute 0, .execute 0, .start 1 (.removePlant 11), .execute 1, .execute 1, .execute 0]

/-- The removal commits as well, and the plant is removed and stands on the desk. -/
theorem removed_for_good_moved :
    ∃ w w', run step fern bothSaved = some w ∧ step w (.execute 1) = some w' ∧
      w'.plant.location = desk ∧ w'.plant.removed = true ∧ w'.outbox.countP OutboxEvent.isPlantRemoved ≤ 1 := by
  have hrun : run step fern bothSaved = some ((run step fern bothSaved).get (by decide)) := (Option.some_get _).symm
  have hstep : step ((run step fern bothSaved).get (by decide)) (.execute 1) =
      some ((step ((run step fern bothSaved).get (by decide)) (.execute 1)).get (by decide)) := (Option.some_get _).symm
  obtain ⟨hone, -, -⟩ := removed_for_good (by decide) hrun hstep
  exact ⟨_, _, hrun, hstep, by decide, by decide, hone⟩

/-- A move reads the plant; a removal reads, saves and commits; the move saves and commits. -/
def restored : List Action :=
  [.start 0 (.movePlant desk 10), .execute 0, .start 1 (.removePlant 11), .execute 1, .execute 1, .execute 1,
    .execute 0, .execute 0]

/-- Two removals read the plant before either commits. -/
def removedTwice : List Action :=
  [.start 0 (.removePlant 10), .execute 0, .start 1 (.removePlant 11), .execute 1,
    .execute 0, .execute 0, .execute 1, .execute 1]

/-- The plant is back although its removal was committed, by a command that did not set the column; and
a plant removed twice is announced twice. -/
theorem removal_lost :
    (∃ w, run step fern restored = some w ∧ w.outbox.countP OutboxEvent.isPlantRemoved = 1 ∧ w.plant.removed = false) ∧
      ∃ w, run step fern removedTwice = some w ∧ w.outbox.countP OutboxEvent.isPlantRemoved = 2 := by
  constructor
  · exact ⟨(run step fern restored).get (by decide), (Option.some_get _).symm, by decide, by decide⟩
  · exact ⟨(run step fern removedTwice).get (by decide), (Option.some_get _).symm, by decide⟩

end Plantkeeper.Garden
