/-
A due moment is missed at most once, as long as the consumer never handles a `WateringDue` whose
moment was escalated already. A tick that opens a window and escalates it at once publishes exactly
such an event: its delivery opens the window again, and the next tick escalates it again.
-/
import Plantkeeper.Care.Invariant

namespace Plantkeeper.Care

open Plantkeeper.Run Plantkeeper.Table

/-- The plant and the due moment of the `WateringDue` a delivery is about to handle. -/
def dueOf (w : World) : Action → Option (PlantId × Instant)
  | .deliver index =>
    if index ∈ w.processed then none
    else
      match w.outbox[index]? with
      | some (.wateringDue plantId dueAt _) => some (plantId, dueAt)
      | _ => none
  | _ => none

theorem dueOf_deliver {w : World} {i : ℕ} {p : PlantId} {d t : Instant} (hp : i ∉ w.processed)
    (he : w.outbox[i]? = some (.wateringDue p d t)) : dueOf w (.deliver i) = some (p, d) := by
  simp [dueOf, hp, he]

/-- An escalated moment lies behind its schedule, and the plant's pending window is about another. -/
structure Once (w : World) : Prop where
  nodup : w.escalations.Nodup
  passed : ∀ e ∈ w.escalations, Passed w e.1 e.2
  closed : ∀ e ∈ w.escalations, ∀ x, w.window e.1 = some x → x.state = .pending → x.dueAt ≠ e.2

theorem once_empty : Once World.empty :=
  ⟨List.nodup_nil, fun _ h => (nomatch h), fun _ h => (nomatch h)⟩

/-- A step that escalates nothing and opens no window of an escalated moment. -/
theorem once_later {w w' : World} (h : Once w) (g : Later w w') (he : w'.escalations = w.escalations)
    (hw : ∀ p x, w'.window p = some x → x.state = .pending → w.window p = some x ∨ (p, x.dueAt) ∉ w.escalations) :
    Once w' := by
  refine ⟨he ▸ h.nodup, fun e hmem => ?_, fun e hmem x hx hpend heq => ?_⟩
  · rw [he] at hmem
    exact (h.passed e hmem).mono g
  · rw [he] at hmem
    rcases hw e.1 x hx hpend with hold | hnew
    · exact h.closed e hmem x hold hpend heq
    · rw [heq] at hnew
      exact hnew hmem

theorem once_opened {w w₁ : World} (h : Once w) (ho : Opened w w₁) : Once w₁ := by
  refine once_later h (.of_eq ho.now ho.schedules) ho.escalations fun p x hx _ => ?_
  rcases ho.windows p x hx with hold | ⟨⟨-, -, s, hs, hdue⟩, -⟩
  · exact .inl hold
  · -- the schedule stands at the moment of the new window, an escalated one is behind it
    right
    intro hmem
    obtain ⟨-, r, hr, hlt⟩ := h.passed _ hmem
    rw [hs] at hr
    cases hr
    rw [hdue] at hlt
    exact absurd hlt (lt_irrefl _)

/-- The windows a tick escalates are of different plants, so are the moments it records. -/
theorem escalated_moments_nodup {l : List MissedCareWindow} (h : (l.map (·.plantId)).Nodup) (f : MissedCareWindow → Bool) :
    ((l.filter f).map fun x => (x.plantId, x.dueAt)).Nodup := by
  have hk : ((l.filter f).map (·.plantId)).Nodup := h.sublist (List.filter_sublist.map _)
  apply List.Nodup.of_map Prod.fst
  rw [List.map_map]
  exact hk

theorem once_escalated {l : List MissedCareWindow} {w w' : World} (hi : Inv w) (h : Once w) (he : Escalated l w w')
    (hl : ∀ x ∈ l, w.window x.plantId = some x ∧ x.state = .pending) (hd : (l.map (·.plantId)).Nodup) : Once w' := by
  have g := he.later
  have hnew : ∀ e ∈ (l.filter fun x => (w.schedule x.plantId).isSome).map (fun x => (x.plantId, x.dueAt)),
      ∃ x ∈ l, ∃ s, w.schedule x.plantId = some s ∧ e = (x.plantId, x.dueAt) := by
    intro e hmem
    obtain ⟨x, hx, rfl⟩ := List.mem_map.1 hmem
    obtain ⟨hx, hs⟩ := List.mem_filter.1 hx
    obtain ⟨s, hs⟩ := Option.isSome_iff_exists.1 hs
    exact ⟨x, hx, s, hs, rfl⟩
  refine ⟨?_, fun e hmem => ?_, fun e hmem y hy hpend heq => ?_⟩
  · rw [he.escalations, List.nodup_append']
    -- an escalated moment has no pending window, and the list holds only those
    refine ⟨h.nodup, escalated_moments_nodup hd _, fun e hold hmem => ?_⟩
    obtain ⟨x, hx, s, -, rfl⟩ := hnew e hmem
    obtain ⟨hwin, hpend⟩ := hl x hx
    exact h.closed _ hold x hwin hpend rfl
  · rw [he.escalations] at hmem
    rcases List.mem_append.1 hmem with hold | hmem
    · exact (h.passed e hold).mono g
    · obtain ⟨x, hx, s, hs, rfl⟩ := hnew e hmem
      -- the schedule stood at the window's moment or after it, and is shifted past it
      obtain ⟨hdue, r, hr, hle⟩ := (hi.windows _ x (hl x hx).1).reached
      rw [hs] at hr
      cases hr
      have hlt : s.nextWateringAt < (shifted s).nextWateringAt := Int.lt_add_of_pos_right _ s.wateringInterval.pos
      exact ⟨by rw [he.now]; exact hdue, shifted s, (he.missed x hx s hs).2, lt_of_le_of_lt hle hlt⟩
  · rcases he.cases e.1 with ⟨x, -, -, -, -, hm, -⟩ | ⟨hsame, hsched⟩
    · rw [hm] at hy
      cases hy
      cases hpend
    · rw [hsame] at hy
      rw [he.escalations] at hmem
      rcases List.mem_append.1 hmem with hold | hmem
      · exact h.closed e hold y hy hpend heq
      · obtain ⟨x, hx, s, hs, rfl⟩ := hnew e hmem
        have hm := (he.missed x hx s hs).1
        rw [hsame, hy] at hm
        cases hm
        cases hpend

theorem once_ticked {w w₁ w' : World} {l : List MissedCareWindow} (hi : Inv w) (h : Once w) (ht : Ticked w w₁ w' l) :
    Once w' :=
  once_escalated (inv_opened hi ht.opened) (once_opened h ht.opened) ht.escalated
    (fun x hx => ⟨(ht.listed x hx).1, (ht.listed x hx).2.1⟩) ht.distinct

/-- A reaction opens the window of the `WateringDue` it handles, or closes one. -/
theorem once_handle {w : World} {e : CareEvent} (h : Once w)
    (hdue : ∀ p d t, e = .wateringDue p d t → (p, d) ∉ w.escalations) : Once (handle w e) := by
  have g := later_handle w e
  rcases handle_cases w e with hh | ⟨p, d, t, plant, rfl, hp, hh⟩ | ⟨p, c, n, t, x, rfl, hx, -, -, hh⟩
  · rw [hh]; exact h
  · rw [hh] at g ⊢
    refine once_later h g rfl fun q y hy _ => ?_
    rcases window_of_saveWindow hy with rfl | hold
    · have hq : q = p := by
        rw [← window_plantId hy]
        exact plant_id hp
      rw [hq]
      exact .inr (hdue p d t rfl)
    · exact .inl hold
  · rw [hh] at g ⊢
    refine once_later h g rfl fun q y hy hpend => ?_
    rcases window_of_saveWindow hy with rfl | hold
    · cases hpend
    · exact .inl hold

theorem once_step {w w' : World} {a : Action} (hi : Inv w) (h : Once w) (ha : ∀ e ∈ dueOf w a, e ∉ w.escalations)
    (hs : step w a = some w') : Once w' := by
  have g := (inv_step hi hs).1
  have same : w'.escalations = w.escalations → w'.windows = w.windows → Once w' := by
    intro he hw
    refine once_later h g he fun p x hx _ => .inl ?_
    rw [← window_congr hw]
    exact hx
  cases a with
  | tick =>
    obtain ⟨w₁, l, ht⟩ := tick_cases hi hs
    exact once_ticked hi h ht
  | deliver i =>
    rcases deliver_cases hs with rfl | ⟨e, p, he, -, hproc, -, rfl⟩
    · exact h
    · apply once_handle
      · exact once_later h (.of_eq rfl rfl) rfl fun _ _ hx _ => .inl hx
      · rintro q d t rfl
        exact ha (q, d) (dueOf_deliver hproc he)
  | advance d =>
    cases hs
    exact same rfl rfl
  | addPlant p h' =>
    simp only [step] at hs
    split at hs
    · cases hs
    · cases hs; exact same rfl rfl
  | createSchedule p i =>
    obtain ⟨s, -, -, rfl⟩ := createSchedule_cases hs
    exact same rfl rfl
  | water p v =>
    obtain ⟨_, _, _, _, hr, -⟩ := water_cases hs
    exact same hr.escalations hr.windows
  | skip p v =>
    obtain ⟨_, _, hr, -⟩ := skip_cases hs
    exact same hr.escalations hr.windows
  | removePlant p =>
    obtain ⟨_, -, rfl⟩ := removePlant_cases hs
    exact same rfl rfl

/-- In every run whose deliveries handle no `WateringDue` of an escalated moment, no two escalations
are on account of the same plant and due moment. -/
theorem due_moment_missed_once (acts : List Action) (w : World)
    (hm : Meets step (fun w a => ∀ e ∈ dueOf w a, e ∉ w.escalations) World.empty acts)
    (h : run step World.empty acts = some w) : w.escalations.Nodup := by
  have key : Inv w ∧ Once w := by
    refine inv_of_meets (P := fun w => Inv w ∧ Once w) ?_ ⟨inv_empty, once_empty⟩ hm h
    rintro w a w' ⟨hi, ho⟩ ha hs
    exact ⟨(inv_step hi hs).2, once_step hi ho ha hs⟩
  exact key.2.nodup

/-- Two misses in a row, with the `WateringDue` events handled in between. -/
def missedTwice : List Action :=
  keptPlant ++ [.advance 172800000000, .tick, .deliver 1, .advance 86400000000, .tick, .advance 86400000000, .tick,
    .deliver 3, .advance 86400000000, .tick]

theorem due_moment_missed_once_twice : ∃ w, run step World.empty missedTwice = some w ∧ w.escalations.length = 2 ∧
    w.escalations.Nodup :=
  ⟨(run step World.empty missedTwice).get (by decide), (Option.some_get _).symm, by decide,
    due_moment_missed_once missedTwice _ (by decide) (Option.some_get _).symm⟩

/-- A tick finds the plant due for longer than the grace period: it opens the window and escalates it
at once. The delivery of its `WateringDue` opens the window again, and the next tick escalates it. -/
def missedAgain : List Action :=
  keptPlant ++ [.advance 259200000000, .tick, .deliver 1, .tick]

theorem due_moment_missed_again :
    ¬ ∀ (acts : List Action) (w : World), run step World.empty acts = some w → w.escalations.Nodup := by
  intro h
  have := h missedAgain ((run step World.empty missedAgain).get (by decide)) (Option.some_get _).symm
  revert this
  decide

end Plantkeeper.Care
