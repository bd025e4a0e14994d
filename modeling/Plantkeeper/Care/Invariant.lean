/-
What every run of the missed-care choreography keeps. Time and schedules only move on: a schedule's
next watering never falls behind, except to a moment that is still ahead of the clock. So a due
moment that was reached stays reached (`Reached`), and one the schedule has left behind stays behind
(`Passed`). Every window and every `WateringDue` is about a moment that was reached.
-/
import Plantkeeper.Care.MissedCare

namespace Plantkeeper.Care

open Plantkeeper.Run Plantkeeper.Table

/-! ## Reading back what was saved -/

section

variable (w : World) (s : CareSchedule) (x : MissedCareWindow) (p : PlantId)

theorem schedule_saveSchedule : (w.saveSchedule s).schedule p = if s.plantId = p then some s else w.schedule p :=
  get_put s p w.schedules

theorem window_saveWindow : (w.saveWindow x).window p = if x.plantId = p then some x else w.window p :=
  get_put x p w.windows

end

theorem schedule_congr {w w' : World} (h : w'.schedules = w.schedules) (p : PlantId) : w'.schedule p = w.schedule p := by
  unfold World.schedule
  rw [h]

theorem window_congr {w w' : World} (h : w'.windows = w.windows) (p : PlantId) : w'.window p = w.window p := by
  unfold World.window
  rw [h]

theorem schedule_plantId {w : World} {p : PlantId} {s : CareSchedule} (h : w.schedule p = some s) : s.plantId = p :=
  (mem_of_get h).2

theorem window_plantId {w : World} {p : PlantId} {x : MissedCareWindow} (h : w.window p = some x) : x.plantId = p :=
  (mem_of_get h).2

theorem plant_id {w : World} {p : PlantId} {plant : Plant} (h : w.plant p = some plant) : plant.id = p :=
  (mem_of_get h).2

/-- Saving a schedule as it is stored changes nothing. -/
theorem saveSchedule_self {w : World} {s : CareSchedule} (h : w.schedule s.plantId = some s) : w.saveSchedule s = w := by
  unfold World.saveSchedule
  rw [put_self h]

/-! ## Time moves on -/

/-- The clock does not go back, and a schedule's next watering falls back only to a moment ahead. -/
structure Later (w w' : World) : Prop where
  now : w.now ≤ w'.now
  schedules : ∀ p s, w.schedule p = some s → ∃ s', w'.schedule p = some s' ∧
    (s.nextWateringAt ≤ s'.nextWateringAt ∨ w.now < s'.nextWateringAt)

theorem Later.refl (w : World) : Later w w := ⟨le_refl _, fun _ s h => ⟨s, h, .inl (le_refl _)⟩⟩

theorem Later.of_eq {w w' : World} (hn : w'.now = w.now) (hs : w'.schedules = w.schedules) : Later w w' := by
  refine ⟨hn ▸ le_refl _, fun p s h => ⟨s, ?_, .inl (le_refl _)⟩⟩
  rw [schedule_congr hs]
  exact h

theorem Later.trans {w w' w'' : World} (h : Later w w') (h' : Later w' w'') : Later w w'' := by
  refine ⟨le_trans h.now h'.now, fun p s hs => ?_⟩
  obtain ⟨s', hs', hle⟩ := h.schedules p s hs
  obtain ⟨s'', hs'', hle'⟩ := h'.schedules p s' hs'
  have hnow := h.now
  refine ⟨s'', hs'', ?_⟩
  -- each of the two moves went on, or to a moment ahead of the clock it saw
  rcases hle with hle | hle <;> rcases hle' with hle' | hle'
  · exact .inl (le_trans hle hle')
  · exact .inr (lt_of_le_of_lt hnow hle')
  · exact .inr (lt_of_lt_of_le hle hle')
  · exact .inr (lt_of_le_of_lt hnow hle')

/-- The plant came due at the moment: the clock and its schedule have got there. -/
def Reached (w : World) (p : PlantId) (d : Instant) : Prop :=
  d ≤ w.now ∧ ∃ s, w.schedule p = some s ∧ d ≤ s.nextWateringAt

/-- The schedule has left the moment behind. -/
def Passed (w : World) (p : PlantId) (d : Instant) : Prop :=
  d ≤ w.now ∧ ∃ s, w.schedule p = some s ∧ d < s.nextWateringAt

theorem Reached.mono {w w' : World} (g : Later w w') {p : PlantId} {d : Instant} (h : Reached w p d) :
    Reached w' p d := by
  obtain ⟨hd, s, hs, hle⟩ := h
  obtain ⟨s', hs', hmove⟩ := g.schedules p s hs
  have hnow := g.now
  refine ⟨le_trans hd hnow, s', hs', ?_⟩
  rcases hmove with hmove | hmove
  · exact le_trans hle hmove
  · exact le_of_lt (lt_of_le_of_lt hd hmove)

theorem Passed.mono {w w' : World} (g : Later w w') {p : PlantId} {d : Instant} (h : Passed w p d) :
    Passed w' p d := by
  obtain ⟨hd, s, hs, hlt⟩ := h
  obtain ⟨s', hs', hmove⟩ := g.schedules p s hs
  have hnow := g.now
  refine ⟨le_trans hd hnow, s', hs', ?_⟩
  rcases hmove with hmove | hmove
  · exact lt_of_lt_of_le hlt hmove
  · exact lt_of_le_of_lt hd hmove

/-- A change of one schedule to a later moment, or to one ahead of the clock. -/
theorem later_saveSchedule {w w' : World} {s s' : CareSchedule} (hs : w.schedule s'.plantId = some s)
    (hmove : s.nextWateringAt ≤ s'.nextWateringAt ∨ w.now < s'.nextWateringAt) (hn : w'.now = w.now)
    (hw : w'.schedules = (w.saveSchedule s').schedules) : Later w w' := by
  refine ⟨hn ▸ le_refl _, fun p r hr => ?_⟩
  have hget : w'.schedule p = if s'.plantId = p then some s' else w.schedule p := by
    rw [← schedule_saveSchedule]
    exact schedule_congr hw p
  by_cases hp : s'.plantId = p
  · subst hp
    rw [hs] at hr
    cases hr
    exact ⟨s', by rw [hget, if_pos rfl], hmove⟩
  · exact ⟨r, by rw [hget, if_neg hp]; exact hr, .inl (le_refl _)⟩

/-! ## The invariant -/

/-- The primary keys of the schedules and the windows. -/
structure Keyed (w : World) : Prop where
  schedules : (w.schedules.map (·.plantId)).Nodup
  windows : (w.windows.map (·.plantId)).Nodup

/-- A window is about a moment that was reached, with the grace period after it. -/
structure WindowOK (w : World) (x : MissedCareWindow) : Prop where
  reached : Reached w x.plantId x.dueAt
  deadline : x.graceDeadline = x.dueAt + GRACE_PERIOD

structure Inv (w : World) : Prop where
  schedules : (w.schedules.map (·.plantId)).Nodup
  keys : (w.windows.map (·.plantId)).Nodup
  windows : ∀ p x, w.window p = some x → WindowOK w x
  due : ∀ p d t, .wateringDue p d t ∈ w.outbox → Reached w p d

theorem Inv.keyed {w : World} (h : Inv w) : Keyed w := ⟨h.schedules, h.keys⟩

theorem inv_empty : Inv World.empty :=
  ⟨List.nodup_nil, List.nodup_nil, fun _ _ h => (nomatch h), fun _ _ _ h => (nomatch h)⟩

theorem WindowOK.mono {w w' : World} (g : Later w w') {x : MissedCareWindow} (h : WindowOK w x) : WindowOK w' x :=
  ⟨h.reached.mono g, h.deadline⟩

/-- A step that moves time and schedules on, writes only windows that are in order, and publishes
only moments that were reached. -/
theorem inv_later {w w' : World} (h : Inv w) (g : Later w w') (hs : (w'.schedules.map (·.plantId)).Nodup)
    (hk : (w'.windows.map (·.plantId)).Nodup)
    (hw : ∀ p x, w'.window p = some x → w.window p = some x ∨ WindowOK w' x)
    (he : ∀ p d t, .wateringDue p d t ∈ w'.outbox → .wateringDue p d t ∈ w.outbox ∨ Reached w' p d) : Inv w' := by
  refine ⟨hs, hk, fun p x hx => ?_, fun p d t ht => ?_⟩
  · rcases hw p x hx with hold | hnew
    · exact (h.windows p x hold).mono g
    · exact hnew
  · rcases he p d t ht with hold | hnew
    · exact (h.due p d t hold).mono g
    · exact hnew

/-- A saved window is the new one or an old one. -/
theorem window_of_saveWindow {w : World} {x y : MissedCareWindow} {p : PlantId} (h : (w.saveWindow x).window p = some y) :
    y = x ∨ w.window p = some y := by
  rw [window_saveWindow] at h
  split at h
  · cases h; exact .inl rfl
  · exact .inr h

theorem inv_saveWindow {w : World} (h : Inv w) {x : MissedCareWindow} (hx : WindowOK w x) : Inv (w.saveWindow x) := by
  have g : Later w (w.saveWindow x) := .of_eq rfl rfl
  refine inv_later h g h.schedules (nodup_put h.keys) (fun p y hy => ?_) fun p d t ht => .inl ht
  rcases window_of_saveWindow hy with rfl | hold
  · exact .inr (hx.mono g)
  · exact .inl hold

/-! ## Loops -/

/-- What one round keeps, with the rows still to come in view, the loop keeps. -/
theorem forEach_inv {ρ : Type} {body : World → ρ → Except CareError World} {P : List ρ → World → Prop}
    (hbody : ∀ w r rest w', P (r :: rest) w → body w r = .ok w' → P rest w') :
    ∀ {l : List ρ} {w w' : World}, P l w → forEach body l w = .ok w' → P [] w'
  | [], w, w', hp, h => by
    cases h; exact hp
  | r :: rest, w, w', hp, h => by
    unfold forEach at h
    split at h
    · cases h
    · rename_i w₁ h₁
      exact forEach_inv hbody (hbody w r rest w₁ hp h₁) h

/-! ## The first loop: windows for due schedules -/

theorem mem_listDue {plants : List Plant} {schedules : List CareSchedule} {windows : List MissedCareWindow}
    {until_ : Instant} {limit : ℕ} {s : CareSchedule}
    (h : s ∈ listDueWithoutPendingWindow plants schedules windows until_ limit) :
    s ∈ schedules ∧ inGarden plants s.plantId = true ∧ s.nextWateringAt ≤ until_ ∧
      pendingWindow windows s.plantId = false := by
  have h := (List.mem_insertionSort _).1 (List.mem_of_mem_take h)
  obtain ⟨hs, hp⟩ := List.mem_filter.1 h
  simp only [Bool.and_eq_true, decide_eq_true_eq, Bool.not_eq_true'] at hp
  exact ⟨hs, hp.1.1, hp.1.2, hp.2⟩

/-- The plant is in the garden and its schedule has come due at the moment. -/
def NewlyDue (w : World) (p : PlantId) (d : Instant) : Prop :=
  inGarden w.plants p = true ∧ d ≤ w.now ∧ ∃ s, w.schedule p = some s ∧ s.nextWateringAt = d

/-- What opening windows does: it adds pending windows and `WateringDue` events of newly due plants. -/
structure Opened (w w' : World) : Prop where
  now : w'.now = w.now
  plants : w'.plants = w.plants
  schedules : w'.schedules = w.schedules
  processed : w'.processed = w.processed
  escalations : w'.escalations = w.escalations
  skipped : w'.skipped = w.skipped
  keys : (w'.windows.map (·.plantId)).Nodup
  windows : ∀ p x, w'.window p = some x → w.window p = some x ∨
    (NewlyDue w p x.dueAt ∧ x.state = .pending ∧ x.graceDeadline = x.dueAt + GRACE_PERIOD ∧
      .wateringDue p x.dueAt w.now ∈ w'.outbox)
  outbox : ∃ es, w'.outbox = w.outbox ++ es ∧ ∀ e ∈ es, ∃ p d, e = .wateringDue p d w.now ∧ NewlyDue w p d

theorem Opened.schedule {w w' : World} (h : Opened w w') (p : PlantId) : w'.schedule p = w.schedule p :=
  schedule_congr h.schedules p

theorem opened_refl {w : World} (h : (w.windows.map (·.plantId)).Nodup) : Opened w w :=
  ⟨rfl, rfl, rfl, rfl, rfl, rfl, h, fun _ _ hx => .inl hx, [], (List.append_nil _).symm, fun _ he => (nomatch he)⟩

/-- One more plant that came due. -/
theorem opened_openWindow {w w₁ w₂ : World} {s : CareSchedule} (h : Opened w w₁) (hs : w.schedule s.plantId = some s)
    (hg : inGarden w.plants s.plantId = true) (h₂ : openWindow w₁ s = .ok w₂) : Opened w w₂ := by
  unfold openWindow at h₂
  split at h₂
  · cases h₂; exact h
  · rename_i plant hp
    split at h₂
    · cases h₂
    · rename_i event hev
      unfold CareSchedule.markDue at hev
      split at hev
      · cases hev
      · rename_i hdue
        cases hev
        rw [h.now, not_lt] at hdue
        have hnew : NewlyDue w s.plantId s.nextWateringAt := ⟨hg, hdue, s, hs, rfl⟩
        -- the tick saves the schedule as it listed it, and no round changes one
        have hself : w₁.saveSchedule s = w₁ := saveSchedule_self (by rw [h.schedule]; exact hs)
        cases h₂
        rw [hself, h.now]
        obtain ⟨es, hes, hall⟩ := h.outbox
        refine ⟨h.now, h.plants, h.schedules, h.processed, h.escalations, h.skipped, nodup_put h.keys,
          fun p x hx => ?_, es ++ [.wateringDue s.plantId s.nextWateringAt w.now], ?_, ?_⟩
        · rcases window_of_saveWindow hx with rfl | hold
          · have hpid : p = s.plantId := by
              rw [← window_plantId hx]
              exact plant_id hp
            subst hpid
            exact .inr ⟨hnew, rfl, rfl, List.mem_append_right _ (List.mem_singleton.2 rfl)⟩
          · rcases h.windows p x hold with hold | ⟨h1, h2, h3, h4⟩
            · exact .inl hold
            · exact .inr ⟨h1, h2, h3, List.mem_append_left _ h4⟩
        · rw [← List.append_assoc, ← hes]; rfl
        · intro e he
          rcases List.mem_append.1 he with he | he
          · exact hall e he
          · rw [List.mem_singleton] at he
            exact ⟨_, _, he, hnew⟩

theorem opened_forEach {w w₁ : World} (h : Keyed w)
    (h₁ : forEach openWindow (listDueWithoutPendingWindow w.plants w.schedules w.windows w.now TICK_BATCH_SIZE) w =
      .ok w₁) : Opened w w₁ := by
  have key := forEach_inv (P := fun rest w' => Opened w w' ∧ ∀ s ∈ rest, w.schedule s.plantId = some s ∧
    inGarden w.plants s.plantId = true) ?_ ⟨opened_refl h.windows, fun s hs => ?_⟩ h₁
  · exact key.1
  · intro w' s rest w'' ⟨ho, hrest⟩ hb
    obtain ⟨hs, hg⟩ := hrest s (List.mem_cons_self ..)
    exact ⟨opened_openWindow ho hs hg hb, fun s' hs' => hrest s' (List.mem_cons_of_mem _ hs')⟩
  · obtain ⟨hmem, hg, -, -⟩ := mem_listDue hs
    exact ⟨get_of_mem h.schedules hmem, hg⟩

theorem inv_opened {w w₁ : World} (h : Inv w) (ho : Opened w w₁) : Inv w₁ := by
  have g : Later w w₁ := .of_eq ho.now ho.schedules
  have hreached : ∀ {p d}, NewlyDue w p d → Reached w₁ p d := by
    rintro p d ⟨-, hd, s, hs, rfl⟩
    exact ⟨by rw [ho.now]; exact hd, s, by rw [ho.schedule]; exact hs, le_refl _⟩
  refine inv_later h g (by rw [ho.schedules]; exact h.schedules) ho.keys (fun p x hx => ?_) fun p d t ht => ?_
  · rcases ho.windows p x hx with hold | ⟨hnew, -, hdl, -⟩
    · exact .inl hold
    · exact .inr ⟨window_plantId hx ▸ hreached hnew, hdl⟩
  · obtain ⟨es, hes, hall⟩ := ho.outbox
    rw [hes] at ht
    rcases List.mem_append.1 ht with ht | ht
    · exact .inl ht
    · obtain ⟨p', d', heq, hnew⟩ := hall _ ht
      cases heq
      exact .inr (hreached hnew)

/-! ## The second loop: expired windows -/

/-- The schedule one interval on, as `mark_missed` leaves it. -/
def shifted (s : CareSchedule) : CareSchedule :=
  { s with nextWateringAt := s.nextWateringAt + s.wateringInterval.value, version := s.version + 1 }

def MissedCareWindow.missedAt (x : MissedCareWindow) (now : Instant) : MissedCareWindow :=
  { x with state := .missed, updatedAt := now }

theorem markMissed_ok (s : CareSchedule) (now : Instant) :
    s.markMissed now s.version = .ok (shifted s, .careMissed s.plantId (shifted s).nextWateringAt now) := by
  simp [CareSchedule.markMissed, CareSchedule.change, shifted]

/-- The world after one escalation. -/
def World.miss (w : World) (x : MissedCareWindow) (s : CareSchedule) : World :=
  { ((w.reschedule (shifted s)).saveWindow (x.missedAt w.now)).publish
      (.careMissed s.plantId (shifted s).nextWateringAt w.now) with
    escalations := w.escalations ++ [(x.plantId, x.dueAt)] }

theorem escalate_none {w : World} {x : MissedCareWindow} (h : w.schedule x.plantId = none) : escalate w x = .ok w := by
  unfold escalate
  rw [h]

theorem escalate_some {w : World} {x : MissedCareWindow} {s : CareSchedule} (h : w.schedule x.plantId = some s) :
    escalate w x = .ok (w.miss x s) := by
  unfold escalate
  rw [h]
  simp only [markMissed_ok]
  rfl

theorem window_miss (w : World) (x : MissedCareWindow) (s : CareSchedule) (p : PlantId) :
    (w.miss x s).window p = if x.plantId = p then some (x.missedAt w.now) else w.window p :=
  window_saveWindow (w.reschedule (shifted s)) (x.missedAt w.now) p

theorem schedule_miss (w : World) (x : MissedCareWindow) (s : CareSchedule) (p : PlantId) :
    (w.miss x s).schedule p = if s.plantId = p then some (shifted s) else w.schedule p :=
  schedule_saveSchedule w (shifted s) p

/-- The schedules of other plants stay. -/
theorem schedule_miss_of_ne {w : World} {x : MissedCareWindow} {s : CareSchedule} {p : PlantId}
    (hs : w.schedule x.plantId = some s) (hp : x.plantId ≠ p) : (w.miss x s).schedule p = w.schedule p := by
  rw [schedule_miss, schedule_plantId hs, if_neg hp]

/-- What escalating a list of windows does, plant by plant. -/
structure Escalated (l : List MissedCareWindow) (w w' : World) : Prop where
  now : w'.now = w.now
  plants : w'.plants = w.plants
  processed : w'.processed = w.processed
  skipped : ∀ e ∈ w'.skipped, e ∈ w.skipped ∧ ∀ x ∈ l, x.plantId = e.1 → ∀ s, w.schedule e.1 = some s →
    (shifted s).nextWateringAt ≠ e.2
  scheduleKeys : (w.schedules.map (·.plantId)).Nodup → (w'.schedules.map (·.plantId)).Nodup
  windowKeys : (w.windows.map (·.plantId)).Nodup → (w'.windows.map (·.plantId)).Nodup
  outbox : ∃ es, w'.outbox = w.outbox ++ es ∧ ∀ e ∈ es, ∃ p n t, e = .careMissed p n t
  escalations : w'.escalations =
    w.escalations ++ (l.filter fun x => (w.schedule x.plantId).isSome).map fun x => (x.plantId, x.dueAt)
  missed : ∀ x ∈ l, ∀ s, w.schedule x.plantId = some s →
    w'.window x.plantId = some (x.missedAt w.now) ∧ w'.schedule x.plantId = some (shifted s)
  untouched : ∀ p, (∀ x ∈ l, x.plantId = p → w.schedule p = none) →
    w'.window p = w.window p ∧ w'.schedule p = w.schedule p

theorem escalated_nil (w : World) : Escalated [] w w :=
  ⟨rfl, rfl, rfl, fun _ he => ⟨he, fun _ hx => (nomatch hx)⟩, id, id,
    ⟨[], (List.append_nil _).symm, fun _ he => (nomatch he)⟩, (List.append_nil _).symm, fun _ hx => (nomatch hx),
    fun _ _ => ⟨rfl, rfl⟩⟩

/-- A window without a schedule is passed over. -/
theorem escalated_cons_none {l : List MissedCareWindow} {w w' : World} {x : MissedCareWindow}
    (hs : w.schedule x.plantId = none) (ih : Escalated l w w') : Escalated (x :: l) w w' := by
  refine ⟨ih.now, ih.plants, ih.processed, fun e he => ?_, ih.scheduleKeys, ih.windowKeys, ih.outbox, ?_,
    fun y hy s hys => ?_, fun p hp => ih.untouched p fun y hy => hp y (List.mem_cons_of_mem _ hy)⟩
  · obtain ⟨hold, hne⟩ := ih.skipped e he
    refine ⟨hold, fun y hy hye s hys => ?_⟩
    rcases List.mem_cons.1 hy with rfl | hy
    · rw [← hye, hs] at hys; cases hys
    · exact hne y hy hye s hys
  · rw [ih.escalations, List.filter_cons_of_neg (by simp [hs])]
  · rcases List.mem_cons.1 hy with rfl | hy
    · rw [hs] at hys; cases hys
    · exact ih.missed y hy s hys

theorem escalated_cons_some {l : List MissedCareWindow} {w w' : World} {x : MissedCareWindow} {s : CareSchedule}
    (hs : w.schedule x.plantId = some s) (hother : ∀ y ∈ l, y.plantId ≠ x.plantId)
    (ih : Escalated l (w.miss x s) w') : Escalated (x :: l) w w' := by
  have hpid : s.plantId = x.plantId := schedule_plantId hs
  have hsch : ∀ p, x.plantId ≠ p → (w.miss x s).schedule p = w.schedule p := fun p => schedule_miss_of_ne hs
  have hwin : ∀ p, x.plantId ≠ p → (w.miss x s).window p = w.window p := by
    intro p hp
    rw [window_miss, if_neg hp]
  obtain ⟨es, hes, hall⟩ := ih.outbox
  refine ⟨ih.now, ih.plants, ih.processed, fun e he => ?_, fun hk => ih.scheduleKeys (nodup_put hk),
    fun hk => ih.windowKeys (nodup_put hk), ⟨.careMissed s.plantId (shifted s).nextWateringAt w.now :: es, ?_, ?_⟩,
    ?_, fun y hy r hyr => ?_, fun p hp => ?_⟩
  · obtain ⟨hold, hne⟩ := ih.skipped e he
    obtain ⟨hold, hset⟩ := List.mem_filter.1 hold
    refine ⟨hold, fun y hy hye r hyr => ?_⟩
    rcases List.mem_cons.1 hy with rfl | hy
    · rw [← hye, hs] at hyr
      cases hyr
      intro heq
      have : e = ((shifted s).plantId, (shifted s).nextWateringAt) := Prod.ext (hye.symm.trans hpid.symm) heq.symm
      simp [this] at hset
    · exact hne y hy hye r (by rw [hsch e.1 (hye ▸ Ne.symm (hother y hy))]; exact hyr)
  · rw [hes]
    exact List.append_assoc w.outbox [_] es
  · intro e he
    rcases List.mem_cons.1 he with rfl | he
    · exact ⟨_, _, _, rfl⟩
    · exact hall e he
  · -- the first escalation does not create or delete a schedule
    have hcongr : l.filter (fun y => ((w.miss x s).schedule y.plantId).isSome) =
        l.filter fun y => (w.schedule y.plantId).isSome := by
      apply List.filter_congr
      intro y hy
      rw [hsch y.plantId (Ne.symm (hother y hy))]
    rw [ih.escalations, hcongr, List.filter_cons_of_pos (by simp [hs]), List.map_cons]
    exact List.append_assoc w.escalations [(x.plantId, x.dueAt)] _
  · rcases List.mem_cons.1 hy with rfl | hy
    · -- the rest of the list is about other plants
      obtain ⟨hw, hs'⟩ := ih.untouched y.plantId fun z hz heq => absurd heq (hother z hz)
      rw [hs] at hyr
      cases hyr
      rw [hw, hs', window_miss, schedule_miss, if_pos rfl, if_pos hpid]
      exact ⟨rfl, rfl⟩
    · exact ih.missed y hy r (by rw [hsch y.plantId (Ne.symm (hother y hy))]; exact hyr)
  · have hne : x.plantId ≠ p := by
      intro heq
      have := hp x (List.mem_cons_self ..) heq
      rw [← heq, hs] at this; cases this
    obtain ⟨hw, hs'⟩ := ih.untouched p fun y hy heq => by
      rw [hsch p hne]; exact hp y (List.mem_cons_of_mem _ hy) heq
    rw [hw, hs', hwin p hne, hsch p hne]
    exact ⟨rfl, rfl⟩

theorem escalated_forEach : ∀ {l : List MissedCareWindow} {w w' : World}, (l.map (·.plantId)).Nodup →
    forEach escalate l w = .ok w' → Escalated l w w'
  | [], w, w', _, h => by
    cases h; exact escalated_nil w
  | x :: l, w, w', hd, h => by
    rw [List.map_cons, List.nodup_cons] at hd
    obtain ⟨hfresh, hd⟩ := hd
    have hother : ∀ y ∈ l, y.plantId ≠ x.plantId := by
      intro y hy heq
      exact hfresh (heq ▸ List.mem_map_of_mem hy)
    unfold forEach at h
    cases hs : w.schedule x.plantId with
    | none =>
      rw [escalate_none hs] at h
      exact escalated_cons_none hs (escalated_forEach hd h)
    | some s =>
      rw [escalate_some hs] at h
      exact escalated_cons_some hs hother (escalated_forEach hd h)

theorem mem_listOverdue {windows : List MissedCareWindow} {until_ : Instant} {limit : ℕ} {x : MissedCareWindow}
    (h : x ∈ listOverdue windows until_ limit) : x ∈ windows ∧ x.state = .pending ∧ x.graceDeadline ≤ until_ := by
  have h := (List.mem_insertionSort _).1 (List.mem_of_mem_take h)
  obtain ⟨hx, hp⟩ := List.mem_filter.1 h
  simp only [Bool.and_eq_true, decide_eq_true_eq, beq_iff_eq] at hp
  exact ⟨hx, hp.1, hp.2⟩

theorem listOverdue_nodup {windows : List MissedCareWindow} (h : (windows.map (·.plantId)).Nodup) (until_ : Instant)
    (limit : ℕ) : ((listOverdue windows until_ limit).map (·.plantId)).Nodup := by
  refine List.Nodup.sublist ((List.take_sublist _ _).map _) ?_
  refine ((List.perm_insertionSort _ _).map _).nodup_iff.2 ?_
  exact h.sublist (List.filter_sublist.map _)

/-- Plant by plant: escalated on account of a listed window, or left alone. -/
theorem Escalated.cases {l : List MissedCareWindow} {w w' : World} (he : Escalated l w w') (p : PlantId) :
    (∃ x ∈ l, ∃ s, x.plantId = p ∧ w.schedule p = some s ∧ w'.window p = some (x.missedAt w.now) ∧
      w'.schedule p = some (shifted s)) ∨ (w'.window p = w.window p ∧ w'.schedule p = w.schedule p) := by
  by_cases hx : ∀ x ∈ l, x.plantId = p → w.schedule p = none
  · exact .inr (he.untouched p hx)
  · simp only [not_forall] at hx
    obtain ⟨x, hx, rfl, hs⟩ := hx
    obtain ⟨s, hs⟩ := Option.ne_none_iff_exists'.1 hs
    exact .inl ⟨x, hx, s, rfl, hs, he.missed x hx s hs⟩

theorem Escalated.later {l : List MissedCareWindow} {w w' : World} (he : Escalated l w w') : Later w w' := by
  refine ⟨he.now ▸ le_refl _, fun p s hs => ?_⟩
  rcases he.cases p with ⟨x, -, r, -, hr, -, hr'⟩ | ⟨-, hsame⟩
  · rw [hs] at hr
    cases hr
    have hpos := s.wateringInterval.pos
    exact ⟨shifted s, hr', .inl (Int.le_add_of_nonneg_right (le_of_lt hpos))⟩
  · exact ⟨s, by rw [hsame]; exact hs, .inl (le_refl _)⟩

theorem inv_escalated {l : List MissedCareWindow} {w w' : World} (h : Inv w) (he : Escalated l w w')
    (hl : ∀ x ∈ l, w.window x.plantId = some x) : Inv w' := by
  have g := he.later
  refine inv_later h g (he.scheduleKeys h.schedules) (he.windowKeys h.keys) (fun p y hy => ?_) fun p d t ht => ?_
  · rcases he.cases p with ⟨x, hx, -, rfl, -, hm, -⟩ | ⟨hsame, -⟩
    · rw [hm] at hy
      cases hy
      obtain ⟨hr, hd⟩ := h.windows _ x (hl x hx)
      exact .inr ⟨hr.mono g, hd⟩
    · rw [hsame] at hy
      exact .inl hy
  · obtain ⟨es, hes, hall⟩ := he.outbox
    rw [hes] at ht
    rcases List.mem_append.1 ht with ht | ht
    · exact .inl ht
    · obtain ⟨_, _, _, heq⟩ := hall _ ht
      cases heq

/-! ## The tick -/

/-- A tick opens windows for the due schedules, then escalates the windows that expired. -/
structure Ticked (w w₁ w' : World) (l : List MissedCareWindow) : Prop where
  opened : Opened w w₁
  escalated : Escalated l w₁ w'
  distinct : (l.map (·.plantId)).Nodup
  listed : ∀ x ∈ l, w₁.window x.plantId = some x ∧ x.state = .pending ∧ x.graceDeadline ≤ w.now

theorem escalateOverdue_cases {w w' : World} {n : ℕ} (h : Keyed w) (ht : escalateOverdue w = .ok (w', n)) :
    ∃ w₁ l, Ticked w w₁ w' l := by
  unfold escalateOverdue at ht
  split at ht
  · cases ht
  · rename_i w₁ h₁
    split at ht
    · cases ht
    · rename_i w₂ h₂
      cases ht
      have ho := opened_forEach h h₁
      have hd := listOverdue_nodup ho.keys w.now TICK_BATCH_SIZE
      refine ⟨w₁, _, ho, escalated_forEach hd h₂, hd, fun x hx => ?_⟩
      obtain ⟨hmem, hp, hle⟩ := mem_listOverdue hx
      exact ⟨get_of_mem ho.keys hmem, hp, hle⟩

theorem tick_cases {w w' : World} (h : Inv w) (hs : step w .tick = some w') : ∃ w₁ l, Ticked w w₁ w' l := by
  simp only [step] at hs
  split at hs
  · cases hs
  · rename_i w'' n ht
    cases hs
    exact escalateOverdue_cases h.keyed ht

theorem Ticked.later {w w₁ w' : World} {l : List MissedCareWindow} (h : Ticked w w₁ w' l) : Later w w' :=
  Later.trans (.of_eq h.opened.now h.opened.schedules) h.escalated.later

/-! ## Commands and deliveries -/

/-- What a command does to the schedule of its plant: the next watering moves on, or ahead of the
clock, and one event that is not a `WateringDue` is published. -/
structure Rescheduled (w w' : World) (p : PlantId) (s s' : CareSchedule) (e : CareEvent) : Prop where
  now : w'.now = w.now
  windows : w'.windows = w.windows
  processed : w'.processed = w.processed
  escalations : w'.escalations = w.escalations
  before : w.schedule p = some s
  plantId : s'.plantId = p
  moved : s.nextWateringAt < s'.nextWateringAt ∨ w.now < s'.nextWateringAt
  schedules : w'.schedules = (w.saveSchedule s').schedules
  outbox : w'.outbox = w.outbox ++ [e]
  event : ∀ q d t, e ≠ .wateringDue q d t

theorem water_cases {w w' : World} {p : PlantId} {v : Option ℕ} (h : water w p v = some w') :
    ∃ s s' plant plant', Rescheduled w w' p s s' (.wateringCompleted p w.now s'.nextWateringAt w.now) ∧
      w.plant p = some plant ∧ plant.water w.now = .ok plant' ∧ w'.plants = put Plant.id plant' w.plants ∧
      w.now < s'.nextWateringAt ∧ w'.skipped = (w.reschedule s').skipped := by
  unfold water at h
  split at h
  · rename_i s plant hs hp
    split at h
    · cases h
    · rename_i plant' hwater
      split at h
      · cases h
      · rename_i s' event hc
        obtain ⟨-, rfl, rfl⟩ := CareSchedule.change_ok hc
        have hid := schedule_plantId hs
        have hlt : w.now < w.now + s.wateringInterval.value := Int.lt_add_of_pos_right _ s.wateringInterval.pos
        cases h
        refine ⟨s, { s with nextWateringAt := w.now + s.wateringInterval.value, version := s.version + 1 }, plant, plant',
          ⟨rfl, rfl, rfl, rfl, hs, hid, .inr hlt, rfl, ?_, ?_⟩, hp, hwater, rfl, hlt, rfl⟩
        · rw [← hid]; rfl
        · intro q d t he
          cases he
  · cases h

theorem skip_cases {w w' : World} {p : PlantId} {v : Option ℕ} (h : skip w p v = some w') :
    ∃ s s', Rescheduled w w' p s s' (.careSkipped p w.now s'.nextWateringAt w.now) ∧
      s.nextWateringAt < s'.nextWateringAt ∧ w'.plants = w.plants ∧
      w'.skipped = (w.reschedule s').skipped ++ [(p, s.nextWateringAt)] := by
  unfold skip at h
  split at h
  · cases h
  · rename_i s hs
    split at h
    · cases h
    · rename_i s' event hc
      obtain ⟨-, rfl, rfl⟩ := CareSchedule.change_ok hc
      have hid := schedule_plantId hs
      have hlt : s.nextWateringAt < s.nextWateringAt + s.wateringInterval.value :=
        Int.lt_add_of_pos_right _ s.wateringInterval.pos
      cases h
      refine ⟨s, shifted s, ⟨rfl, rfl, rfl, rfl, hs, hid, .inl hlt, rfl, ?_, ?_⟩, hlt, rfl, rfl⟩
      · rw [← hid]; rfl
      · intro q d t he
        cases he

theorem Rescheduled.schedule {w w' : World} {p : PlantId} {s s' : CareSchedule} {e : CareEvent}
    (h : Rescheduled w w' p s s' e) (q : PlantId) : w'.schedule q = if p = q then some s' else w.schedule q := by
  rw [← h.plantId, ← schedule_saveSchedule]
  exact schedule_congr h.schedules q

theorem Rescheduled.later {w w' : World} {p : PlantId} {s s' : CareSchedule} {e : CareEvent}
    (h : Rescheduled w w' p s s' e) : Later w w' :=
  later_saveSchedule (h.plantId ▸ h.before) (h.moved.imp le_of_lt id) h.now h.schedules

theorem inv_rescheduled {w w' : World} {p : PlantId} {s s' : CareSchedule} {e : CareEvent} (h : Inv w)
    (hr : Rescheduled w w' p s s' e) : Inv w' := by
  refine inv_later h hr.later ?_ (hr.windows ▸ h.keys) (fun q x hx => .inl ?_) fun q d t ht => .inl ?_
  · rw [hr.schedules]; exact nodup_put h.schedules
  · rw [← window_congr hr.windows]
    exact hx
  · rw [hr.outbox, List.mem_append, List.mem_singleton] at ht
    exact ht.resolve_right fun he => hr.event q d t he.symm

theorem createSchedule_cases {w w' : World} {p : PlantId} {i : WateringInterval} (h : createSchedule w p i = some w') :
    ∃ s, s.plantId = p ∧ p ∉ w.schedules.map (·.plantId) ∧
      w' = { w with schedules := w.schedules ++ [s] }.publish (.careScheduleCreated p i s.nextWateringAt w.now) := by
  unfold createSchedule at h
  split at h
  · cases h
  · rename_i hfresh
    split at h
    · cases h
    · rename_i s event hc
      unfold CareSchedule.create at hc
      split at hc
      · cases hc
      · cases hc; cases h
        exact ⟨_, rfl, hfresh, rfl⟩

theorem schedule_createSchedule {w w' : World} {p q : PlantId} {i : WateringInterval} {r : CareSchedule} (h : Inv w)
    (hc : createSchedule w p i = some w') (hr : w.schedule q = some r) : w'.schedule q = some r := by
  obtain ⟨s, rfl, hfresh, rfl⟩ := createSchedule_cases hc
  obtain ⟨hmem, rfl⟩ := mem_of_get hr
  exact get_of_mem (nodup_insert h.schedules hfresh) (List.mem_append_left _ hmem)

theorem inv_createSchedule {w w' : World} {p : PlantId} {i : WateringInterval} (h : Inv w)
    (hc : createSchedule w p i = some w') : Later w w' ∧ Inv w' := by
  have hkeep : ∀ q r, w.schedule q = some r → w'.schedule q = some r := fun q r => schedule_createSchedule h hc
  obtain ⟨s, rfl, hfresh, rfl⟩ := createSchedule_cases hc
  have g : Later w ({ w with schedules := w.schedules ++ [s] }.publish
      (.careScheduleCreated s.plantId i s.nextWateringAt w.now)) :=
    ⟨le_refl _, fun q r hr => ⟨r, hkeep q r hr, .inl (le_refl _)⟩⟩
  refine ⟨g, inv_later h g (nodup_insert h.schedules hfresh) h.keys (fun q x hx => .inl hx) fun q d t ht => .inl ?_⟩
  rcases List.mem_append.1 ht with ht | ht
  · exact ht
  · rw [List.mem_singleton] at ht; cases ht

/-- The reaction to an event opens a window for its due moment, satisfies the plant's window, or
leaves everything as it is. -/
theorem handle_cases (w : World) (e : CareEvent) :
    handle w e = w ∨
    (∃ p d t plant, e = .wateringDue p d t ∧ w.plant p = some plant ∧ handle w e = w.saveWindow (.opened plant d w.now)) ∨
    (∃ p c n t x, e = .wateringCompleted p c n t ∧ w.window p = some x ∧ x.state = .pending ∧ c ≤ x.graceDeadline ∧
      handle w e = w.saveWindow { x with state := .satisfied, updatedAt := w.now }) := by
  cases e with
  | wateringDue p d t =>
    simp only [handle, onWateringDue]
    split
    · exact .inl rfl
    · rename_i plant hp
      split
      · exact .inl rfl
      · exact .inr (.inl ⟨p, d, t, plant, rfl, hp, rfl⟩)
  | wateringCompleted p c n t =>
    simp only [handle, onWateringCompleted]
    split
    · exact .inl rfl
    · rename_i x hx
      split
      · exact .inl rfl
      · rename_i hstate
        split
        · exact .inl rfl
        · rename_i hle
          exact .inr (.inr ⟨p, c, n, t, x, rfl, hx, by simpa using hstate, not_lt.1 hle, rfl⟩)
  | _ => exact .inl rfl

theorem deliver_cases {w w' : World} {i : ℕ} (h : deliver w i = some w') :
    w' = w ∨ ∃ e p, w.outbox[i]? = some e ∧ handledPlant e = some p ∧ i ∉ w.processed ∧ inOrder w p i = true ∧
      w' = handle { w with processed := w.processed ++ [i] } e := by
  unfold deliver at h
  split at h
  · cases h
  · rename_i e he
    split at h
    · cases h; exact .inl rfl
    · rename_i p hp
      split at h
      · cases h; exact .inl rfl
      · rename_i hproc
        split at h
        · rename_i hord
          cases h
          exact .inr ⟨e, p, he, hp, hproc, hord, rfl⟩
        · cases h

theorem removePlant_cases {w w' : World} {p : PlantId} (h : removePlant w p = some w') :
    ∃ plant, w.plant p = some plant ∧ w' = { w with plants := put Plant.id { plant with removed := true } w.plants } := by
  unfold removePlant at h
  split at h
  · cases h
  · rename_i plant hp
    split at h
    · cases h
    · rename_i plant' hr
      unfold Plant.remove at hr
      split at hr
      · cases hr
      · cases hr; cases h
        exact ⟨plant, hp, rfl⟩

/-- A reaction writes windows only. -/
theorem later_handle (w : World) (e : CareEvent) : Later w (handle w e) := by
  rcases handle_cases w e with h | ⟨_, _, _, _, -, -, h⟩ | ⟨_, _, _, _, _, -, -, -, -, h⟩
  · rw [h]; exact .refl w
  · rw [h]; exact .of_eq rfl rfl
  · rw [h]; exact .of_eq rfl rfl

theorem inv_handle {w : World} {e : CareEvent} (h : Inv w) (he : e ∈ w.outbox) : Inv (handle w e) := by
  rcases handle_cases w e with hh | ⟨p, d, t, plant, rfl, hp, hh⟩ | ⟨p, c, n, t, x, -, hx, -, -, hh⟩
  · rw [hh]; exact h
  · rw [hh]
    apply inv_saveWindow h
    have hr := h.due p d t he
    exact ⟨by rw [← plant_id hp] at hr; exact hr, rfl⟩
  · rw [hh]
    obtain ⟨hr, hd⟩ := h.windows p x hx
    exact inv_saveWindow h ⟨hr, hd⟩

/-! ## One step -/

/-- Every step moves time and schedules on and keeps the invariant. -/
theorem inv_step {w w' : World} {a : Action} (h : Inv w) (hs : step w a = some w') : Later w w' ∧ Inv w' := by
  -- steps that leave schedules, windows and the outbox alone
  have same : ∀ {w'' : World}, Later w w'' → w''.schedules = w.schedules → w''.windows = w.windows →
      w''.outbox = w.outbox → Later w w'' ∧ Inv w'' := by
    intro w'' g h1 h2 h3
    refine ⟨g, inv_later h g (h1 ▸ h.schedules) (h2 ▸ h.keys) (fun p x hx => .inl ?_) fun p d t ht => .inl (h3 ▸ ht)⟩
    rw [← window_congr h2]
    exact hx
  cases a with
  | advance d =>
    cases hs
    exact same ⟨Int.le_add_of_nonneg_right (Int.natCast_nonneg d), fun p s hp => ⟨s, hp, .inl (le_refl _)⟩⟩ rfl rfl rfl
  | addPlant p h' =>
    simp only [step] at hs
    split at hs
    · cases hs
    · cases hs; exact same (.of_eq rfl rfl) rfl rfl rfl
  | createSchedule p i => exact inv_createSchedule h hs
  | tick =>
    obtain ⟨w₁, l, hti⟩ := tick_cases h hs
    exact ⟨hti.later, inv_escalated (inv_opened h hti.opened) hti.escalated fun x hx => (hti.listed x hx).1⟩
  | deliver i =>
    rcases deliver_cases hs with rfl | ⟨e, p, he, -, -, -, rfl⟩
    · exact ⟨.refl _, h⟩
    · obtain ⟨g, hi⟩ := @same { w with processed := w.processed ++ [i] } (.of_eq rfl rfl) rfl rfl rfl
      exact ⟨g.trans (later_handle _ e), inv_handle hi (List.mem_of_getElem? he)⟩
  | water p v =>
    obtain ⟨_, _, _, _, hr, -⟩ := water_cases hs
    exact ⟨hr.later, inv_rescheduled h hr⟩
  | skip p v =>
    obtain ⟨_, _, hr, -⟩ := skip_cases hs
    exact ⟨hr.later, inv_rescheduled h hr⟩
  | removePlant p =>
    obtain ⟨_, -, rfl⟩ := removePlant_cases hs
    exact same (.of_eq rfl rfl) rfl rfl rfl

end Plantkeeper.Care
