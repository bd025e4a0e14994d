/-
Whether the tick makes progress. It lists the oldest expired windows, a batch at most, and settles each one
that still has a schedule. A window whose schedule was deleted is passed over: it stays pending, every later
tick lists it again, and the number the tick returns counts it.
-/
import Mathlib.Algebra.Order.Floor.Div
import Plantkeeper.Care.Invariant
import Plantkeeper.Lib.Batch

namespace Plantkeeper.Care

open Plantkeeper.Batch Plantkeeper.Run Plantkeeper.Table

/-! ## Deleting a schedule -/

/-- `DeleteCareScheduleHandler.handle`: the schedule is deleted, its plant's window is not. -/
def deleteSchedule (w : World) (plantId : PlantId) : World × Option CareSchedule :=
  match w.schedule plantId with
  | none => (w, none)
  | some s => ({ w with schedules := w.schedules.filter fun r => r.plantId ≠ plantId }, some s)

theorem windows_deleteSchedule (w : World) (p : PlantId) : (deleteSchedule w p).1.windows = w.windows := by
  unfold deleteSchedule
  split <;> rfl

theorem schedule_deleteSchedule (w : World) (p : PlantId) : (deleteSchedule w p).1.schedule p = none := by
  unfold deleteSchedule
  split
  · assumption
  · unfold World.schedule
    rw [get_filter_ne, if_pos rfl]

theorem keyed_deleteSchedule {w : World} (h : Keyed w) (p : PlantId) : Keyed (deleteSchedule w p).1 := by
  unfold deleteSchedule
  split
  · exact h
  · exact ⟨h.schedules.sublist (List.filter_sublist.map _), h.windows⟩

/-! ## What a tick lists -/

/-- The window a tick opens for a due schedule. -/
def opening (plants : List Plant) (now : Instant) (s : CareSchedule) : Option MissedCareWindow :=
  (get Plant.id plants s.plantId).map fun plant => .opened plant s.nextWateringAt now

/-- The windows a tick opens. -/
def openings (w : World) : List MissedCareWindow :=
  (listDueWithoutPendingWindow w.plants w.schedules w.windows w.now TICK_BATCH_SIZE).filterMap (opening w.plants w.now)

/-- The windows a tick escalates: the oldest expired ones, with those it opened. -/
def overdue (w : World) : List MissedCareWindow :=
  listOverdue (overlay MissedCareWindow.plantId (openings w) w.windows) w.now TICK_BATCH_SIZE

/-- The event of an escalation: of a window that has a schedule. -/
def missOf (w : World) (x : MissedCareWindow) : Option CareEvent :=
  (w.schedule x.plantId).map fun s => .careMissed s.plantId (shifted s).nextWateringAt w.now

theorem openWindow_ok {w : World} {s : CareSchedule} (h : s.nextWateringAt ≤ w.now) :
    ∃ w', openWindow w s = .ok w' ∧ w'.now = w.now ∧ w'.plants = w.plants ∧
      w'.windows = overlay MissedCareWindow.plantId (opening w.plants w.now s).toList w.windows := by
  unfold openWindow opening
  cases hp : w.plant s.plantId with
  | none =>
    refine ⟨w, rfl, rfl, rfl, ?_⟩
    rw [show get Plant.id w.plants s.plantId = none from hp]
    rfl
  | some plant =>
    -- the query lists due schedules only, so `mark_due` does not raise
    simp only [CareSchedule.markDue, if_neg (not_lt.2 h)]
    refine ⟨_, rfl, rfl, rfl, ?_⟩
    rw [show get Plant.id w.plants s.plantId = some plant from hp]
    rfl

/-- The first loop commits, and merges the windows it opens. -/
theorem forEach_openWindow : ∀ {l : List CareSchedule} {w : World}, (∀ s ∈ l, s.nextWateringAt ≤ w.now) →
    ∃ w', forEach openWindow l w = .ok w' ∧
      w'.windows = overlay MissedCareWindow.plantId (l.filterMap (opening w.plants w.now)) w.windows
  | [], w, _ => ⟨w, rfl, rfl⟩
  | s :: l, w, h => by
    obtain ⟨hs, hl⟩ := List.forall_mem_cons.1 h
    obtain ⟨w₁, hopen, hnow, hplants, hwindows⟩ := openWindow_ok hs
    obtain ⟨w₂, hloop, hrest⟩ := forEach_openWindow (l := l) (w := w₁) (by rw [hnow]; exact hl)
    refine ⟨w₂, ?_, ?_⟩
    · unfold forEach
      rw [hopen]
      exact hloop
    · rw [hrest, hwindows, hnow, hplants, List.filterMap_cons]
      cases opening w.plants w.now s <;> rfl

/-- The second loop commits, and records one event for each window that has a schedule. -/
theorem forEach_escalate : ∀ {l : List MissedCareWindow} (w : World), (l.map (·.plantId)).Nodup →
    ∃ w', forEach escalate l w = .ok w' ∧ w'.outbox = w.outbox ++ l.filterMap (missOf w)
  | [], w, _ => ⟨w, rfl, (List.append_nil _).symm⟩
  | x :: l, w, hd => by
    rw [List.map_cons, List.nodup_cons] at hd
    obtain ⟨hfresh, hd⟩ := hd
    unfold forEach
    cases hs : w.schedule x.plantId with
    | none =>
      obtain ⟨w', hloop, hout⟩ := forEach_escalate w hd
      have hmiss : missOf w x = none := by simp [missOf, hs]
      rw [escalate_none hs, List.filterMap_cons_none hmiss]
      exact ⟨w', hloop, hout⟩
    | some s =>
      obtain ⟨w', hloop, hout⟩ := forEach_escalate (w.miss x s) hd
      have hmiss : missOf w x = some (.careMissed s.plantId (shifted s).nextWateringAt w.now) := by simp [missOf, hs]
      -- the other windows are of other plants
      have hrest : l.filterMap (missOf (w.miss x s)) = l.filterMap (missOf w) := by
        apply List.filterMap_congr
        intro y hy
        have hne : x.plantId ≠ y.plantId := fun heq => hfresh (heq ▸ List.mem_map_of_mem hy)
        unfold missOf
        rw [schedule_miss_of_ne hs hne]
        rfl
      rw [escalate_some hs, List.filterMap_cons_some hmiss]
      refine ⟨w', hloop, ?_⟩
      rw [hout, hrest]
      exact List.append_assoc w.outbox [_] _

/-! ## One tick -/

/-- What a tick does: it opens windows, and escalates what it then lists. -/
structure Escalates (w w₁ w' : World) : Prop where
  loop : forEach openWindow (listDueWithoutPendingWindow w.plants w.schedules w.windows w.now TICK_BATCH_SIZE) w =
    .ok w₁
  committed : escalateOverdue w = .ok (w', (overdue w).length)
  opened : Opened w w₁
  windows : w₁.windows = overlay MissedCareWindow.plantId (openings w) w.windows
  escalated : Escalated (overdue w) w₁ w'
  outbox : w'.outbox = w₁.outbox ++ (overdue w).filterMap (missOf w)

/-- Every tick commits. -/
theorem escalates {w : World} (h : Keyed w) : ∃ w₁ w', Escalates w w₁ w' := by
  obtain ⟨w₁, hloop, hwindows⟩ := forEach_openWindow (w := w)
    (l := listDueWithoutPendingWindow w.plants w.schedules w.windows w.now TICK_BATCH_SIZE)
    fun s hs => (mem_listDue hs).2.2.1
  have ho := opened_forEach h hloop
  have hlisted : listOverdue w₁.windows w.now TICK_BATCH_SIZE = overdue w := by rw [hwindows]; rfl
  have hd : ((overdue w).map (·.plantId)).Nodup := hlisted ▸ listOverdue_nodup ho.keys w.now TICK_BATCH_SIZE
  obtain ⟨w', hescalate, hout⟩ := forEach_escalate w₁ hd
  -- opening windows leaves the schedules and the clock as they are
  have hmiss : missOf w₁ = missOf w := by
    funext x
    unfold missOf
    rw [ho.schedule, ho.now]
  rw [hmiss] at hout
  refine ⟨w₁, w', hloop, ?_, ho, hwindows, escalated_forEach hd hescalate, hout⟩
  unfold escalateOverdue
  simp only [hloop, hlisted, hescalate]

theorem Escalates.listed {w w₁ w' : World} (h : Escalates w w₁ w') :
    listOverdue w₁.windows w.now TICK_BATCH_SIZE = overdue w := by
  rw [h.windows]; rfl

theorem Escalates.keyed {w w₁ w' : World} (h : Escalates w w₁ w') (hk : Keyed w) : Keyed w' :=
  ⟨h.escalated.scheduleKeys (by rw [h.opened.schedules]; exact hk.schedules), h.escalated.windowKeys h.opened.keys⟩

/-- A listed window is stored, and pending. -/
theorem Escalates.window {w w₁ w' : World} (h : Escalates w w₁ w') {x : MissedCareWindow} (hx : x ∈ overdue w) :
    w₁.window x.plantId = some x ∧ x.state = .pending := by
  rw [← h.listed] at hx
  obtain ⟨hmem, hpending, -⟩ := mem_listOverdue hx
  exact ⟨get_of_mem h.opened.keys hmem, hpending⟩

theorem pendingWindow_of_mem {windows : List MissedCareWindow} {x : MissedCareWindow} (hx : x ∈ windows)
    (hpending : x.state = .pending) : pendingWindow windows x.plantId = true :=
  List.any_eq_true.2 ⟨x, hx, by simp [hpending]⟩

/-- The plant's window is pending, by its row. -/
theorem pendingWindow_iff {windows : List MissedCareWindow} (hk : (windows.map (·.plantId)).Nodup) {p : PlantId} :
    pendingWindow windows p = true ↔ ∃ x, get MissedCareWindow.plantId windows p = some x ∧ x.state = .pending := by
  constructor
  · intro h
    obtain ⟨x, hx, hp⟩ := List.any_eq_true.1 h
    simp only [Bool.and_eq_true, beq_iff_eq] at hp
    obtain ⟨rfl, hpending⟩ := hp
    exact ⟨x, get_of_mem hk hx, hpending⟩
  · rintro ⟨x, hx, hpending⟩
    obtain ⟨hmem, rfl⟩ := mem_of_get hx
    exact pendingWindow_of_mem hmem hpending

/-- A listed window is settled exactly when it has a schedule. -/
theorem Escalates.settled_iff {w w₁ w' : World} (h : Escalates w w₁ w') (hk : Keyed w) {x : MissedCareWindow}
    (hx : x ∈ overdue w) : pendingWindow w'.windows x.plantId = false ↔ (w.schedule x.plantId).isSome := by
  obtain ⟨hstored, hpending⟩ := h.window hx
  rw [← Bool.not_eq_true, pendingWindow_iff (h.keyed hk).windows]
  cases hs : w.schedule x.plantId with
  | none =>
    -- the loop passes the window over
    have hsame := (h.escalated.untouched x.plantId fun _ _ _ => by rw [h.opened.schedule, hs]).1
    simp only [Option.isSome_none, Bool.false_eq_true, iff_false, not_not]
    exact ⟨x, hsame.trans hstored, hpending⟩
  | some s =>
    have hmissed := (h.escalated.missed x hx s (by rw [h.opened.schedule, hs])).1
    simp only [Option.isSome_some, iff_true]
    rintro ⟨y, hy, hypending⟩
    rw [show get MissedCareWindow.plantId w'.windows x.plantId = some _ from hmissed] at hy
    cases hy
    cases hypending

/-! ## Progress -/

def isCareMissed : CareEvent → Bool
  | .careMissed .. => true
  | _ => false

/-- The tick commits, no window that `list_overdue` returned to it is pending any more, and what it returns
is the number of `CareMissed` events it recorded. -/
def MakesProgress (w : World) : Prop :=
  ∃ w₁ w' n es,
    forEach openWindow (listDueWithoutPendingWindow w.plants w.schedules w.windows w.now TICK_BATCH_SIZE) w = .ok w₁ ∧
    escalateOverdue w = .ok (w', n) ∧
    (∀ x ∈ listOverdue w₁.windows w.now TICK_BATCH_SIZE, pendingWindow w'.windows x.plantId = false) ∧
    w'.outbox = w.outbox ++ es ∧ n = es.countP isCareMissed

/-- What the tick records, in order. -/
theorem Escalates.recorded {w w₁ w' : World} (h : Escalates w w₁ w') :
    ∃ es, w'.outbox = w.outbox ++ es ∧ es.countP isCareMissed = ((overdue w).filterMap (missOf w)).length := by
  obtain ⟨due, hdue, hall⟩ := h.opened.outbox
  refine ⟨due ++ (overdue w).filterMap (missOf w), ?_, ?_⟩
  · rw [h.outbox, hdue, List.append_assoc]
  · have hnone : due.countP isCareMissed = 0 := by
      rw [List.countP_eq_zero]
      intro e he
      obtain ⟨p, d, rfl, -⟩ := hall e he
      simp [isCareMissed]
    have hmissed : ((overdue w).filterMap (missOf w)).countP isCareMissed = ((overdue w).filterMap (missOf w)).length := by
      rw [List.countP_eq_length]
      intro e he
      obtain ⟨x, -, hx⟩ := List.mem_filterMap.1 he
      obtain ⟨s, -, rfl⟩ := Option.map_eq_some_iff.1 hx
      rfl
    rw [List.countP_append, hnone, hmissed, Nat.zero_add]

theorem makesProgress_iff {w : World} (hk : Keyed w) :
    MakesProgress w ↔ ∀ x ∈ overdue w, (w.schedule x.plantId).isSome := by
  obtain ⟨w₁, w', h⟩ := escalates hk
  constructor
  · rintro ⟨w₁', w'', n, es, hloop, hcommitted, hsettled, -⟩ x hx
    rw [h.loop] at hloop
    cases hloop
    rw [h.committed] at hcommitted
    cases hcommitted
    exact (h.settled_iff hk hx).1 (hsettled x (h.listed ▸ hx))
  · intro hall
    obtain ⟨es, hes, hcount⟩ := h.recorded
    refine ⟨w₁, w', _, es, h.loop, h.committed, ?_, hes, ?_⟩
    · intro x hx
      rw [h.listed] at hx
      exact (h.settled_iff hk hx).2 (hall x hx)
    · have hevery : ∀ x ∈ overdue w, (missOf w x).isSome := by
        intro x hx
        simpa [missOf] using hall x hx
      rw [hcount, List.length_filterMap_eq_countP, List.countP_eq_length.2 hevery]

/-! ## Successive ticks -/

/-- Ticks at the instants, one after the other, none of which opens a window. -/
inductive Ticks : World → List Instant → World → Prop
  | nil (w : World) : Ticks w [] w
  | cons {w w₁ w' : World} {t : Instant} {ts : List Instant} {n : ℕ} (quiet : openings { w with now := t } = [])
      (committed : escalateOverdue { w with now := t } = .ok (w₁, n)) (rest : Ticks w₁ ts w') : Ticks w (t :: ts) w'

theorem Keyed.clock {w : World} (h : Keyed w) (t : Instant) : Keyed { w with now := t } := ⟨h.schedules, h.windows⟩

/-- The pending windows that have expired at the instant. -/
def unsettled (windows : List MissedCareWindow) (until_ : Instant) : List MissedCareWindow :=
  windows.filter fun x => x.state == .pending && decide (x.graceDeadline ≤ until_)

theorem mem_unsettled {windows : List MissedCareWindow} {until_ : Instant} {x : MissedCareWindow} :
    x ∈ unsettled windows until_ ↔ x ∈ windows ∧ x.state = .pending ∧ x.graceDeadline ≤ until_ := by
  simp [unsettled]

/-- `list_overdue` is a batch of them. -/
theorem listOverdue_eq_batch (windows : List MissedCareWindow) (until_ : Instant) (limit : ℕ) :
    listOverdue windows until_ limit = batch ExpiresFirst limit (unsettled windows until_) := rfl

instance : Std.Total ExpiresFirst where
  total a b := by unfold ExpiresFirst; grind

instance : IsTrans MissedCareWindow ExpiresFirst where
  trans a b c := by unfold ExpiresFirst; grind

/-- What a tick that opens no window does to the tables: no window becomes pending, a listed one that has a
schedule is not any more, and a window without a schedule stays as it is. -/
structure QuietTick (w w' : World) : Prop where
  keyed : Keyed w'
  schedules : ∀ p, w'.schedule p = none ↔ w.schedule p = none
  pending : ∀ p x, w'.window p = some x → x.state = .pending → w.window p = some x
  settled : ∀ x ∈ listOverdue w.windows w.now TICK_BATCH_SIZE, (w.schedule x.plantId).isSome →
    pendingWindow w'.windows x.plantId = false
  orphan : ∀ p, w.schedule p = none → w'.window p = w.window p

theorem quiet_tick {w w' : World} {n : ℕ} (hk : Keyed w) (hquiet : openings w = [])
    (ht : escalateOverdue w = .ok (w', n)) : QuietTick w w' := by
  obtain ⟨w₁, w'', h⟩ := escalates hk
  rw [h.committed] at ht
  cases ht
  have hwindows : w₁.windows = w.windows := by rw [h.windows, hquiet]; rfl
  have hlisted : overdue w = listOverdue w.windows w.now TICK_BATCH_SIZE := by rw [← h.listed, hwindows]
  refine ⟨h.keyed hk, fun p => ?_, fun p x hx hpending => ?_, fun x hx hs => ?_, fun p hp => ?_⟩
  · rcases h.escalated.cases p with ⟨_, _, s, _, hs, _, hs'⟩ | ⟨_, hs⟩
    · rw [h.opened.schedule] at hs
      simp [hs, hs']
    · rw [hs, h.opened.schedule]
  · rcases h.escalated.cases p with ⟨_, _, _, _, _, hmissed, _⟩ | ⟨hsame, _⟩
    · rw [hmissed] at hx
      cases hx
      cases hpending
    · rw [← window_congr hwindows, ← hsame]
      exact hx
  · rw [← hlisted] at hx
    exact (h.settled_iff hk hx).2 hs
  · rw [(h.escalated.untouched p fun _ _ _ => by rw [h.opened.schedule, hp]).1, window_congr hwindows]

/-- A tick at the instant or later leaves a batch fewer of the windows expired by then. -/
theorem QuietTick.length_unsettled {w w' : World} {t₀ t : Instant} (h : QuietTick { w with now := t } w')
    (ht : t₀ ≤ t) (hs : ∀ x ∈ unsettled w.windows t₀, (w.schedule x.plantId).isSome) :
    (∀ x ∈ unsettled w'.windows t₀, x ∈ unsettled w.windows t₀) ∧
      (unsettled w'.windows t₀).length ≤ (unsettled w.windows t₀).length - TICK_BATCH_SIZE := by
  have hstay : ∀ x ∈ unsettled w'.windows t₀, x ∈ unsettled w.windows t₀ := by
    intro x hx
    obtain ⟨hmem, hpending, hexpired⟩ := mem_unsettled.1 hx
    have hwas := h.pending x.plantId x (get_of_mem h.keyed.windows hmem) hpending
    exact mem_unsettled.2 ⟨(mem_of_get hwas).1, hpending, hexpired⟩
  refine ⟨hstay, ?_⟩
  have hfront : (unsettled w.windows t).filter (fun x => decide (x.graceDeadline ≤ t₀)) = unsettled w.windows t₀ := by
    unfold unsettled
    rw [List.filter_filter]
    apply List.filter_congr
    intro x _
    have hle : x.graceDeadline ≤ t₀ → x.graceDeadline ≤ t := fun hx => le_trans hx ht
    grind
  rw [← hfront]
  refine length_left_le (r := ExpiresFirst) ?_ ?_ fun x hx => ?_
  · -- what expires before an expired window is expired
    intro a b hab hb
    unfold ExpiresFirst at hab
    grind
  · exact (List.Nodup.of_map _ h.keyed.windows).filter _
  · have hold := hstay x hx
    obtain ⟨hmem, hpending, hexpired⟩ := mem_unsettled.1 hold
    refine ⟨mem_unsettled.2 ⟨hmem, hpending, le_trans hexpired ht⟩, by simpa using hexpired, fun hlisted => ?_⟩
    -- a listed window has a schedule, so the tick settled it
    rw [← listOverdue_eq_batch] at hlisted
    have hsettled := h.settled x hlisted (hs x hold)
    rw [pendingWindow_of_mem (mem_unsettled.1 hx).1 hpending] at hsettled
    cases hsettled

/-- Over the ticks no window becomes pending, and one without a schedule stays as it is. -/
theorem Ticks.kept {w w' : World} {ts : List Instant} (h : Ticks w ts w') : Keyed w →
    Keyed w' ∧ (∀ p x, w'.window p = some x → x.state = .pending → w.window p = some x) ∧
      ∀ p, w.schedule p = none → w'.window p = w.window p := by
  induction h with
  | nil w => exact fun hk => ⟨hk, fun _ _ hx _ => hx, fun _ _ => rfl⟩
  | cons quiet committed _ ih =>
    intro hk
    have hq := quiet_tick (hk.clock _) quiet committed
    obtain ⟨hk', hpending, horphan⟩ := ih hq.keyed
    refine ⟨hk', fun p x hx hp => hq.pending p x (hpending p x hx hp) hp, fun p hp => ?_⟩
    exact (horphan p ((hq.schedules p).2 hp)).trans (hq.orphan p hp)

/-- Each tick leaves a batch fewer. -/
theorem Ticks.length_unsettled {w w' : World} {ts : List Instant} {t₀ : Instant} (h : Ticks w ts w') : Keyed w →
    (∀ t ∈ ts, t₀ ≤ t) → (∀ x ∈ unsettled w.windows t₀, (w.schedule x.plantId).isSome) →
    (unsettled w'.windows t₀).length ≤ (unsettled w.windows t₀).length - TICK_BATCH_SIZE * ts.length := by
  induction h with
  | nil w => exact fun _ _ _ => Nat.le_refl _
  | @cons w w₁ w' t ts n quiet committed _ ih =>
    intro hk hts hs
    obtain ⟨ht, hts⟩ := List.forall_mem_cons.1 hts
    have hq := quiet_tick (hk.clock _) quiet committed
    obtain ⟨hstay, hfewer⟩ := hq.length_unsettled ht hs
    have hrest := ih hq.keyed hts fun x hx => by
      rw [Option.isSome_iff_ne_none, ne_eq, hq.schedules]
      exact Option.isSome_iff_ne_none.1 (hs x (hstay x hx))
    have hone : TICK_BATCH_SIZE * (t :: ts).length = TICK_BATCH_SIZE + TICK_BATCH_SIZE * ts.length := by
      rw [List.length_cons, Nat.mul_succ, Nat.add_comm]
    omega

/-- A deleted schedule leaves its plant's pending window pending for good. -/
theorem deleted_staysPending {w w' : World} {p : PlantId} {ts : List Instant} (hk : Keyed w)
    (hp : pendingWindow w.windows p = true) (h : Ticks (deleteSchedule w p).1 ts w') :
    pendingWindow w'.windows p = true := by
  obtain ⟨hk', -, horphan⟩ := h.kept (keyed_deleteSchedule hk p)
  have hsame := horphan p (schedule_deleteSchedule w p)
  rw [window_congr (windows_deleteSchedule w p)] at hsame
  obtain ⟨x, hx, hpending⟩ := (pendingWindow_iff hk.windows).1 hp
  exact (pendingWindow_iff hk'.windows).2 ⟨x, hsame.trans hx, hpending⟩

/-- As many ticks as hold the expired windows settle all of them exactly when each has a schedule. -/
theorem settled_iff {w w' : World} {ts : List Instant} {t₀ : Instant} (hk : Keyed w) (h : Ticks w ts w')
    (hts : ∀ t ∈ ts, t₀ ≤ t) (hlen : (unsettled w.windows t₀).length ⌈/⌉ TICK_BATCH_SIZE ≤ ts.length) :
    (∀ x ∈ unsettled w.windows t₀, pendingWindow w'.windows x.plantId = false) ↔
      ∀ x ∈ unsettled w.windows t₀, (w.schedule x.plantId).isSome := by
  obtain ⟨hk', hpending, horphan⟩ := h.kept hk
  constructor
  · intro hsettled x hx
    by_contra hnone
    have hsame := horphan x.plantId (by simpa using hnone)
    obtain ⟨hmem, hp, -⟩ := mem_unsettled.1 hx
    have hstill := hsame.trans (get_of_mem hk.windows hmem)
    have hsettled := hsettled x hx
    rw [pendingWindow_of_mem (mem_of_get hstill).1 hp] at hsettled
    cases hsettled
  · intro hs x hx
    rw [ceilDiv_le_iff_le_mul (by decide)] at hlen
    have hfewer := h.length_unsettled hk hts hs
    rw [Nat.sub_eq_zero_of_le hlen, Nat.le_zero, List.length_eq_zero_iff] at hfewer
    rw [← Bool.not_eq_true, pendingWindow_iff hk'.windows]
    rintro ⟨y, hy, hp⟩
    -- it was pending before, so it is the expired window, and none of those is left
    have hwas : y = x := by
      have hxy := (hpending _ y hy hp).symm.trans (get_of_mem hk.windows (mem_unsettled.1 hx).1)
      cases hxy
      rfl
    subst hwas
    have hleft : y ∈ unsettled w'.windows t₀ := mem_unsettled.2 ⟨(mem_of_get hy).1, hp, (mem_unsettled.1 hx).2.2⟩
    rw [hfewer] at hleft
    cases hleft

/-- Every tick commits; it makes progress exactly when every window it lists has a schedule; and as many ticks
as hold the expired windows settle all of them, if none opens a window, exactly when each has one. -/
theorem escalation_progress {w : World} (hk : Keyed w) :
    (∃ w' n, escalateOverdue w = .ok (w', n)) ∧
    (MakesProgress w ↔ ∀ x ∈ overdue w, (w.schedule x.plantId).isSome) ∧
    ∀ (t₀ : Instant) (ts : List Instant) (w' : World), Ticks w ts w' → (∀ t ∈ ts, t₀ ≤ t) →
      (unsettled w.windows t₀).length ⌈/⌉ TICK_BATCH_SIZE ≤ ts.length →
      ((∀ x ∈ unsettled w.windows t₀, pendingWindow w'.windows x.plantId = false) ↔
        ∀ x ∈ unsettled w.windows t₀, (w.schedule x.plantId).isSome) := by
  refine ⟨?_, makesProgress_iff hk, fun t₀ ts w' h hts hlen => settled_iff hk h hts hlen⟩
  obtain ⟨w₁, w', h⟩ := escalates hk
  exact ⟨w', _, h.committed⟩

/-- A plant that came due, and was not watered within the grace period. -/
def neglected : World :=
  match run step World.empty (keptPlant ++ [.advance 172800000000, .tick, .deliver 1]) with
  | none => World.empty
  | some w => { w with now := w.now + GRACE_PERIOD }

theorem escalation_progress_neglected :
    MakesProgress neglected ∧ ∃ w', Ticks neglected [neglected.now] w' ∧ pendingWindow w'.windows 1 = false := by
  have hk : Keyed neglected := ⟨by decide +kernel, by decide +kernel⟩
  obtain ⟨⟨w', n, hcommitted⟩, hprogress, hsettled⟩ := escalation_progress hk
  have hticks : Ticks neglected [neglected.now] w' := .cons (by decide +kernel) hcommitted (.nil w')
  refine ⟨hprogress.2 (by decide +kernel), w', hticks, ?_⟩
  obtain ⟨x, hx, hid⟩ : ∃ x ∈ unsettled neglected.windows neglected.now, x.plantId = 1 := by decide +kernel
  have hall := (hsettled neglected.now _ _ hticks (by simp) (by decide +kernel)).2 (by decide +kernel)
  rw [← hid]
  exact hall x hx

/-- The same plant once its schedule was deleted. -/
def orphaned : World := (deleteSchedule neglected 1).1

/-- The tick returns one miss and records none, and the window is pending after any number of ticks. -/
theorem orphaned_noProgress :
    escalateOverdue orphaned = .ok (orphaned, 1) ∧ pendingWindow orphaned.windows 1 = true ∧ ¬ MakesProgress orphaned ∧
      ∀ k, Ticks orphaned (List.replicate k orphaned.now) orphaned := by
  have hcommitted : escalateOverdue orphaned = .ok (orphaned, 1) := by decide +kernel
  refine ⟨hcommitted, by decide +kernel, ?_, fun k => ?_⟩
  · rintro ⟨_, w', n, es, _, hcommitted', _, hes, hn⟩
    rw [hcommitted] at hcommitted'
    cases hcommitted'
    rw [List.self_eq_append_right] at hes
    subst hes
    cases hn
  · induction k with
    | zero => exact .nil orphaned
    | succ k ih => exact .cons (by decide +kernel) hcommitted ih

end Plantkeeper.Care
