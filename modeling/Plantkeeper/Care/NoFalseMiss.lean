/-
No false miss, as long as the window row is up to date where it matters. The escalation trusts the
row, and the row hears of a watering only when the consumer handles `WateringCompleted`, and of a
skip or a removal never. `Settled` says what each step must find; the misses of a run that keeps to
it are true ones (`TrueMiss`).
-/
import Plantkeeper.Care.Invariant

namespace Plantkeeper.Care

open Plantkeeper.Run Plantkeeper.Table

/-! ## What a step must find -/

/-- The published events the consumer has not claimed. -/
def unclaimed (w : World) : List CareEvent :=
  ((List.range w.outbox.length).filter (· ∉ w.processed)).filterMap (w.outbox[·]?)

/-- A watering of the window's plant inside the grace period. -/
def onTime (x : MissedCareWindow) : CareEvent → Bool
  | .wateringCompleted plantId completedAt _ _ =>
    plantId == x.plantId && decide (x.dueAt ≤ completedAt) && decide (completedAt ≤ x.graceDeadline)
  | _ => false

/-- The plant comes due at the moment. -/
def dueFor (plantId : PlantId) (dueAt : Instant) : CareEvent → Bool
  | .wateringDue p d _ => p == plantId && d == dueAt
  | _ => false

/-- The plant comes due. -/
def announces (plantId : PlantId) : CareEvent → Bool
  | .wateringDue p _ _ => p == plantId
  | _ => false

/-- A tick finds no expired window whose plant was watered in time by an event still unclaimed. A
skip finds the watering it skips neither inside a window nor announced to the consumer, and a removal
finds no window of the plant and nothing announced. -/
def Settled (w : World) : Action → Prop
  | .tick => ∀ x ∈ w.windows, x.state = .pending → x.graceDeadline ≤ w.now → ∀ e ∈ unclaimed w, onTime x e = false
  | .skip plantId _ => ∀ s ∈ w.schedule plantId,
    (∀ x ∈ w.window plantId, x.state = .pending → x.dueAt ≠ s.nextWateringAt) ∧
      ∀ e ∈ unclaimed w, dueFor plantId s.nextWateringAt e = false
  | .removePlant plantId =>
    (∀ x ∈ w.window plantId, x.state ≠ .pending) ∧ ∀ e ∈ unclaimed w, announces plantId e = false
  | _ => True

instance (w : World) : (a : Action) → Decidable (Settled w a)
  | .tick => inferInstanceAs (Decidable (∀ x ∈ w.windows, x.state = .pending → x.graceDeadline ≤ w.now → _))
  | .skip plantId _ => inferInstanceAs (Decidable (∀ s ∈ w.schedule plantId, _ ∧ _))
  | .removePlant plantId => inferInstanceAs (Decidable ((∀ x ∈ w.window plantId, x.state ≠ .pending) ∧ _))
  | .advance _ | .addPlant _ _ | .createSchedule _ _ | .deliver _ | .water _ _ => inferInstanceAs (Decidable True)

/-- The plant was not watered in time, the watering was not skipped, and the plant is there. -/
structure TrueMiss (w w' : World) (plantId : PlantId) (dueAt : Instant) : Prop where
  watered : ∀ c n t, .wateringCompleted plantId c n t ∈ w.outbox → dueAt ≤ c → dueAt + GRACE_PERIOD < c
  skipped : (plantId, dueAt) ∉ w.skipped
  kept : ∀ plant, w'.plant plantId = some plant → plant.removed = false

/-- Every miss the tick recorded is a true one. -/
def MissesTrue (w w' : World) : Prop :=
  ∃ new, w'.escalations = w.escalations ++ new ∧ ∀ e ∈ new, TrueMiss w w' e.1 e.2

/-! ## The consumer's backlog -/

theorem mem_unclaimed {w : World} {e : CareEvent} : e ∈ unclaimed w ↔ ∃ i, i ∉ w.processed ∧ w.outbox[i]? = some e := by
  simp only [unclaimed, List.mem_filterMap, List.mem_filter, List.mem_range, decide_eq_true_eq]
  constructor
  · rintro ⟨i, ⟨-, hp⟩, he⟩
    exact ⟨i, hp, he⟩
  · rintro ⟨i, hp, he⟩
    exact ⟨i, ⟨(List.getElem?_eq_some_iff.1 he).1, hp⟩, he⟩

/-- A step that publishes and claims nothing. -/
theorem unclaimed_publish {w w' : World} {es : List CareEvent} (ho : w'.outbox = w.outbox ++ es)
    (hp : w'.processed = w.processed) {e : CareEvent} (h : e ∈ unclaimed w') : e ∈ unclaimed w ∨ e ∈ es := by
  obtain ⟨i, hi, he⟩ := mem_unclaimed.1 h
  rw [ho] at he
  rw [hp] at hi
  by_cases hlt : i < w.outbox.length
  · rw [List.getElem?_append_left hlt] at he
    exact .inl (mem_unclaimed.2 ⟨i, hi, he⟩)
  · rw [List.getElem?_append_right (not_lt.1 hlt)] at he
    exact .inr (List.mem_of_getElem? he)

/-- The consumer has claimed the event. -/
def Claimed (w : World) (e : CareEvent) : Prop := ∃ i ∈ w.processed, w.outbox[i]? = some e

theorem mem_outbox {w : World} {e : CareEvent} (h : e ∈ w.outbox) : Claimed w e ∨ e ∈ unclaimed w := by
  obtain ⟨i, he⟩ := List.mem_iff_getElem?.1 h
  by_cases hi : i ∈ w.processed
  · exact .inl ⟨i, hi, he⟩
  · exact .inr (mem_unclaimed.2 ⟨i, hi, he⟩)

/-! ## What a step publishes and opens -/

/-- A watering's `WateringDue`s come before it; those published later are about later moments. -/
def Precedes (a b : CareEvent) : Prop :=
  ∀ p c n t d t', a = .wateringCompleted p c n t → b = .wateringDue p d t' → c < d

/-- A step other than a delivery: it opens windows and announces due moments only where `new` says so. -/
structure Publishes (new : PlantId → Instant → Prop) (es : List CareEvent) (w w' : World) : Prop where
  outbox : w'.outbox = w.outbox ++ es
  processed : w'.processed = w.processed
  due : ∀ p d t, .wateringDue p d t ∈ es → new p d
  completed : ∀ p c n t, .wateringCompleted p c n t ∈ es → Passed w' p c
  ordered : es.Pairwise Precedes
  windows : ∀ p x, w'.window p = some x → x.state = .pending → w.window p = some x ∨ new p x.dueAt

/-- A step that publishes nothing the consumer handles and leaves the windows alone. -/
theorem publishes_other {w w' : World} {es : List CareEvent} (ho : w'.outbox = w.outbox ++ es)
    (hp : w'.processed = w.processed) (hw : w'.windows = w.windows) (he : ∀ e ∈ es, handledPlant e = none)
    (hd : es.length ≤ 1) : Publishes (fun _ _ => False) es w w' := by
  refine ⟨ho, hp, fun p d t h => ?_, fun p c n t h => ?_, ?_, fun p x hx _ => .inl ?_⟩
  · cases he _ h
  · cases he _ h
  · match es, hd with
    | [], _ => exact .nil
    | [e], _ => exact List.pairwise_singleton _ _
  · rw [← window_congr hw]
    exact hx

theorem publishes_nothing {w w' : World} (ho : w'.outbox = w.outbox) (hp : w'.processed = w.processed)
    (hw : w'.windows = w.windows) : Publishes (fun _ _ => False) [] w w' :=
  publishes_other (by rw [ho, List.append_nil]) hp hw (fun _ he => (nomatch he)) (Nat.zero_le _)

theorem publishes_skip {w w' : World} {p : PlantId} {v : Option ℕ} (h : skip w p v = some w') :
    ∃ es, Publishes (fun _ _ => False) es w w' := by
  obtain ⟨s, s', hr, -⟩ := skip_cases h
  refine ⟨_, publishes_other hr.outbox hr.processed hr.windows (fun e he => ?_) (le_refl _)⟩
  rw [List.mem_singleton.1 he]
  rfl

theorem publishes_water {w w' : World} {p : PlantId} {v : Option ℕ} (h : water w p v = some w') :
    ∃ es, Publishes (fun _ _ => False) es w w' := by
  obtain ⟨s, s', _, _, hr, -, -, -, hlt, -⟩ := water_cases h
  refine ⟨_, hr.outbox, hr.processed, fun q d t he => ?_, fun q c n t he => ?_, List.pairwise_singleton _ _,
    fun q x hx _ => .inl ?_⟩
  · rw [List.mem_singleton] at he; cases he
  · rw [List.mem_singleton] at he
    cases he
    exact ⟨hr.now ▸ le_refl _, s', (hr.schedule _).trans (if_pos rfl), hlt⟩
  · rw [← window_congr hr.windows]
    exact hx

theorem publishes_ticked {w w₁ w' : World} {l : List MissedCareWindow} (ht : Ticked w w₁ w' l) :
    ∃ es, Publishes (NewlyDue w) es w w' := by
  obtain ⟨es, hes, hdue⟩ := ht.opened.outbox
  obtain ⟨es', hes', hmiss⟩ := ht.escalated.outbox
  have hnone : ∀ p c n t, .wateringCompleted p c n t ∉ es ++ es' := by
    intro p c n t he
    rcases List.mem_append.1 he with he | he
    · obtain ⟨_, _, heq, -⟩ := hdue _ he
      cases heq
    · obtain ⟨_, _, _, heq⟩ := hmiss _ he
      cases heq
  refine ⟨es ++ es', ?_, ?_, fun p d t he => ?_, fun p c n t he => absurd he (hnone p c n t), ?_, fun p x hx hpend => ?_⟩
  · rw [hes', hes, List.append_assoc]
  · rw [ht.escalated.processed, ht.opened.processed]
  · rcases List.mem_append.1 he with he | he
    · obtain ⟨_, _, heq, hnew⟩ := hdue _ he
      cases heq; exact hnew
    · obtain ⟨_, _, _, heq⟩ := hmiss _ he
      cases heq
  · refine List.pairwise_of_forall_mem_list fun a ha b _ => ?_
    rintro p c n t d t' rfl -
    exact absurd ha (hnone p c n t)
  · rcases ht.escalated.cases p with ⟨y, -, -, -, -, hm, -⟩ | ⟨hsame, -⟩
    · rw [hm] at hx
      cases hx; cases hpend
    · rw [hsame] at hx
      rcases ht.opened.windows p x hx with hold | ⟨hnew, -⟩
      · exact .inl hold
      · exact .inr hnew

/-- A reaction touches the windows alone. -/
theorem handle_frame (w : World) (e : CareEvent) : (handle w e).outbox = w.outbox ∧ (handle w e).processed = w.processed ∧
    (handle w e).plants = w.plants ∧ (handle w e).schedules = w.schedules ∧ (handle w e).skipped = w.skipped ∧
    (handle w e).escalations = w.escalations := by
  rcases handle_cases w e with h | ⟨_, _, _, _, -, -, h⟩ | ⟨_, _, _, _, _, -, -, -, -, h⟩
  all_goals rw [h]; exact ⟨rfl, rfl, rfl, rfl, rfl, rfl⟩

theorem window_handle {w : World} {e : CareEvent} {q : PlantId} {x : MissedCareWindow}
    (hx : (handle w e).window q = some x) (hpend : x.state = .pending) :
    w.window q = some x ∨ ∃ t, e = .wateringDue q x.dueAt t := by
  rcases handle_cases w e with h | ⟨p, d, t, plant, rfl, hp, h⟩ | ⟨p, c, n, t, y, rfl, hy, -, -, h⟩
  · rw [h] at hx; exact .inl hx
  · rw [h] at hx
    rcases window_of_saveWindow hx with rfl | hold
    · have hq : p = q := by
        rw [← plant_id hp]
        exact window_plantId hx
      subst hq; exact .inr ⟨t, rfl⟩
    · exact .inl hold
  · rw [h] at hx
    rcases window_of_saveWindow hx with rfl | hold
    · cases hpend
    · exact .inl hold

/-- A window that is still pending after a watering was handled had expired by then. -/
theorem handle_late {w : World} {q : PlantId} {c n t : Instant} {x : MissedCareWindow}
    (hx : (handle w (.wateringCompleted q c n t)).window q = some x) (hpend : x.state = .pending) :
    x.graceDeadline < c := by
  simp only [handle, onWateringCompleted] at hx
  split at hx
  · rename_i hnone
    rw [hnone] at hx; cases hx
  · rename_i y hy
    split at hx
    · rename_i hstate
      rw [hy] at hx
      cases hx
      exact absurd hpend hstate
    · split at hx
      · rename_i hlate
        rw [hy] at hx
        cases hx
        exact hlate
      · rw [window_saveWindow, if_pos (window_plantId hy)] at hx
        cases hx; cases hpend

/-! ## What the window has heard -/

/-- Every watering the consumer has claimed is reflected in the plant's window, now and after whatever
is still unclaimed. -/
structure Heard (w : World) : Prop where
  inRange : ∀ i ∈ w.processed, i < w.outbox.length
  passed : ∀ p c n t, .wateringCompleted p c n t ∈ w.outbox → Passed w p c
  ordered : w.outbox.Pairwise Precedes
  backlog : ∀ p c n t d t', Claimed w (.wateringCompleted p c n t) → .wateringDue p d t' ∈ unclaimed w → c < d
  satisfied : ∀ p c n t x, Claimed w (.wateringCompleted p c n t) → w.window p = some x → x.state = .pending →
    x.dueAt ≤ c → x.graceDeadline < c

theorem heard_empty : Heard World.empty :=
  ⟨fun _ h => (nomatch h), fun _ _ _ _ h => (nomatch h), .nil, fun _ _ _ _ _ _ _ h => (nomatch h),
    fun _ _ _ _ _ _ h => (nomatch h)⟩

theorem NewlyDue.after {w : World} {p : PlantId} {c d : Instant} (h : NewlyDue w p d) (hc : Passed w p c) : c < d := by
  obtain ⟨-, -, s, hs, rfl⟩ := h
  obtain ⟨-, r, hr, hlt⟩ := hc
  rw [hs] at hr
  cases hr
  exact hlt

theorem Claimed.mem {w : World} {e : CareEvent} (h : Claimed w e) : e ∈ w.outbox := by
  obtain ⟨i, -, he⟩ := h
  exact List.mem_of_getElem? he

theorem claimed_publish {w w' : World} {es : List CareEvent} (hr : ∀ i ∈ w.processed, i < w.outbox.length)
    (ho : w'.outbox = w.outbox ++ es) (hp : w'.processed = w.processed) {e : CareEvent} (h : Claimed w' e) :
    Claimed w e := by
  obtain ⟨i, hi, he⟩ := h
  rw [hp] at hi
  rw [ho, List.getElem?_append_left (hr i hi)] at he
  exact ⟨i, hi, he⟩

theorem heard_publishes {w w' : World} {new : PlantId → Instant → Prop} {es : List CareEvent} (h : Heard w)
    (g : Later w w') (hp : Publishes new es w w') (hnew : ∀ p d, new p d → NewlyDue w p d) : Heard w' := by
  have hclaimed : ∀ {e}, Claimed w' e → Claimed w e := claimed_publish h.inRange hp.outbox hp.processed
  refine ⟨fun i hi => ?_, fun p c n t he => ?_, ?_, fun p c n t d t' hc hu => ?_, fun p c n t x hc hx hpend hle => ?_⟩
  · rw [hp.processed] at hi
    rw [hp.outbox, List.length_append]
    exact Nat.lt_add_right _ (h.inRange i hi)
  · rw [hp.outbox] at he
    rcases List.mem_append.1 he with he | he
    · exact (h.passed p c n t he).mono g
    · exact hp.completed p c n t he
  · rw [hp.outbox, List.pairwise_append]
    refine ⟨h.ordered, hp.ordered, fun a ha b hb => ?_⟩
    rintro p c n t d t' rfl rfl
    exact (hnew p d (hp.due p d t' hb)).after (h.passed p c n t ha)
  · rcases unclaimed_publish hp.outbox hp.processed hu with hu | hu
    · exact h.backlog p c n t d t' (hclaimed hc) hu
    · exact (hnew p d (hp.due p d t' hu)).after (h.passed p c n t (hclaimed hc).mem)
  · rcases hp.windows p x hx hpend with hold | hfresh
    · exact h.satisfied p c n t x (hclaimed hc) hold hpend hle
    · have := (hnew p _ hfresh).after (h.passed p c n t (hclaimed hc).mem)
      exact absurd hle (not_le.2 this)

/-- Of a plant's events, those before the one that is delivered are claimed. -/
theorem claimed_of_inOrder {w : World} {p : PlantId} {i j : ℕ} {e : CareEvent} (h : inOrder w p i = true) (hlt : j < i)
    (he : w.outbox[j]? = some e) (hp : handledPlant e = some p) : j ∈ w.processed := by
  have hall := List.all_eq_true.1 h j (List.mem_range.2 hlt)
  simpa [he, hp] using hall

/-- The event at the index is claimed. -/
def World.claim (w : World) (i : ℕ) : World := { w with processed := w.processed ++ [i] }

theorem outbox_deliver (w : World) (i : ℕ) (e : CareEvent) : (handle (w.claim i) e).outbox = w.outbox :=
  (handle_frame (w.claim i) e).1

theorem processed_deliver (w : World) (i : ℕ) (e : CareEvent) :
    (handle (w.claim i) e).processed = w.processed ++ [i] :=
  (handle_frame (w.claim i) e).2.1

theorem claimed_claim {w w' : World} {i : ℕ} {e e' : CareEvent} (he : w.outbox[i]? = some e)
    (ho : w'.outbox = w.outbox) (hp : w'.processed = w.processed ++ [i]) (h : Claimed w' e') : Claimed w e' ∨ e' = e := by
  obtain ⟨j, hj, he'⟩ := h
  rw [hp] at hj
  rw [ho] at he'
  rcases List.mem_append.1 hj with hj | hj
  · exact .inl ⟨j, hj, he'⟩
  · rw [List.mem_singleton] at hj
    subst hj
    rw [he] at he'
    cases he'; exact .inr rfl

theorem unclaimed_claim {w w' : World} {i : ℕ} {e' : CareEvent} (ho : w'.outbox = w.outbox)
    (hp : w'.processed = w.processed ++ [i]) (h : e' ∈ unclaimed w') :
    ∃ j, j ∉ w.processed ∧ j ≠ i ∧ w.outbox[j]? = some e' := by
  obtain ⟨j, hj, he'⟩ := mem_unclaimed.1 h
  rw [hp] at hj
  rw [ho] at he'
  refine ⟨j, fun hmem => hj (List.mem_append_left _ hmem), fun heq => hj ?_, he'⟩
  exact List.mem_append_right _ (List.mem_singleton.2 heq)

theorem heard_deliver {w : World} {i : ℕ} {e : CareEvent} {p : PlantId} (h : Heard w) (he : w.outbox[i]? = some e)
    (hpl : handledPlant e = some p) (hproc : i ∉ w.processed) (hord : inOrder w p i = true) :
    Heard (handle (w.claim i) e) := by
  have ho := outbox_deliver w i e
  have hp := processed_deliver w i e
  have hc : Later w (w.claim i) := .of_eq rfl rfl
  have g := hc.trans (later_handle (w.claim i) e)
  refine ⟨fun j hj => ?_, fun q c n t hm => ?_, ho ▸ h.ordered, fun q c n t d t' hc hu => ?_,
    fun q c n t x hc hx hpend hle => ?_⟩
  · rw [hp] at hj
    rw [ho]
    rcases List.mem_append.1 hj with hj | hj
    · exact h.inRange j hj
    · rw [List.mem_singleton.1 hj]
      exact (List.getElem?_eq_some_iff.1 he).1
  · rw [ho] at hm
    exact (h.passed q c n t hm).mono g
  · obtain ⟨j, hj, hne, hdue⟩ := unclaimed_claim ho hp hu
    rcases claimed_claim he ho hp hc with hold | rfl
    · exact h.backlog q c n t d t' hold (mem_unclaimed.2 ⟨j, hj, hdue⟩)
    · -- an announcement still unclaimed was published after the watering
      have hqp : q = p := Option.some.inj hpl
      have hij : i < j := by
        rcases Nat.lt_trichotomy i j with hlt | heq | hgt
        · exact hlt
        · exact absurd heq.symm hne
        · exact absurd (claimed_of_inOrder hord hgt hdue (congrArg some hqp)) hj
      obtain ⟨hil, hie⟩ := List.getElem?_eq_some_iff.1 he
      obtain ⟨hjl, hje⟩ := List.getElem?_eq_some_iff.1 hdue
      exact List.pairwise_iff_getElem.1 h.ordered i j hil hjl hij q c n t d t' hie hje
  · rcases claimed_claim he ho hp hc with hold | rfl
    · rcases window_handle hx hpend with hwin | ⟨t', rfl⟩
      · exact h.satisfied q c n t x hold hwin hpend hle
      · -- a window opened now is about a moment after every watering claimed before
        have := h.backlog q c n t x.dueAt t' hold (mem_unclaimed.2 ⟨i, hproc, he⟩)
        exact absurd hle (not_le.2 this)
    · exact handle_late hx hpend

/-! ## Moments that stay closed -/

/-- The plant has no pending window of the moment, and none is on its way. -/
def Quiet (w : World) (p : PlantId) (d : Instant) : Prop :=
  (∀ x, w.window p = some x → x.state = .pending → x.dueAt ≠ d) ∧ ∀ t, .wateringDue p d t ∉ unclaimed w

theorem quiet_publishes {w w' : World} {new : PlantId → Instant → Prop} {es : List CareEvent} {p : PlantId} {d : Instant}
    (h : Quiet w p d) (hp : Publishes new es w w') (hnew : ¬ new p d) : Quiet w' p d := by
  refine ⟨fun x hx hpend heq => ?_, fun t hu => ?_⟩
  · rcases hp.windows p x hx hpend with hold | hfresh
    · exact h.1 x hold hpend heq
    · exact hnew (heq ▸ hfresh)
  · rcases unclaimed_publish hp.outbox hp.processed hu with hu | hu
    · exact h.2 t hu
    · exact hnew (hp.due p d t hu)

theorem quiet_deliver {w : World} {i : ℕ} {e : CareEvent} {p : PlantId} {d : Instant} (h : Quiet w p d)
    (he : w.outbox[i]? = some e) (hproc : i ∉ w.processed) : Quiet (handle (w.claim i) e) p d := by
  refine ⟨fun x hx hpend heq => ?_, fun t hu => ?_⟩
  · rcases window_handle hx hpend with hold | ⟨t, rfl⟩
    · exact h.1 x hold hpend heq
    · exact h.2 t (mem_unclaimed.2 ⟨i, hproc, heq ▸ he⟩)
  · obtain ⟨j, hj, -, hdue⟩ := unclaimed_claim (outbox_deliver w i e) (processed_deliver w i e) hu
    exact h.2 t (mem_unclaimed.2 ⟨j, hj, hdue⟩)

/-- Removed plants and skipped moments are quiet, and a skipped moment is not the plant's next one. -/
structure Closed (w : World) : Prop where
  plants : (w.plants.map (·.id)).Nodup
  removed : ∀ plant ∈ w.plants, plant.removed = true → ∀ d, Quiet w plant.id d
  skipped : ∀ e ∈ w.skipped, Quiet w e.1 e.2 ∧ ∃ s, w.schedule e.1 = some s ∧ s.nextWateringAt ≠ e.2

theorem closed_empty : Closed World.empty :=
  ⟨List.nodup_nil, fun _ h => (nomatch h), fun _ h => (nomatch h)⟩

/-- A command keeps quiet what was quiet before it. -/
theorem closed_command {w w' : World} {es : List CareEvent} (hp : Publishes (fun _ _ => False) es w w')
    (hk : (w'.plants.map (·.id)).Nodup)
    (hr : ∀ plant ∈ w'.plants, plant.removed = true → ∀ d, Quiet w plant.id d)
    (hs : ∀ e ∈ w'.skipped, Quiet w e.1 e.2 ∧ ∃ s, w'.schedule e.1 = some s ∧ s.nextWateringAt ≠ e.2) : Closed w' := by
  refine ⟨hk, fun plant hmem hrem d => ?_, fun e he => ?_⟩
  · exact quiet_publishes (hr plant hmem hrem d) hp id
  · obtain ⟨hq, hne⟩ := hs e he
    exact ⟨quiet_publishes hq hp id, hne⟩

theorem not_newlyDue_of_removed {w : World} (hk : (w.plants.map (·.id)).Nodup) {plant : Plant} (hmem : plant ∈ w.plants)
    (hrem : plant.removed = true) (d : Instant) : ¬ NewlyDue w plant.id d := by
  rintro ⟨hg, -⟩
  obtain ⟨q, hq, hqp⟩ := List.any_eq_true.1 hg
  simp only [Bool.and_eq_true, beq_iff_eq, Bool.not_eq_true'] at hqp
  have heq : q = plant := List.inj_on_of_nodup_map hk hq hmem hqp.1
  rw [heq, hrem] at hqp
  cases hqp.2

theorem closed_ticked {w w₁ w' : World} {l : List MissedCareWindow} (h : Closed w) (ht : Ticked w w₁ w' l) : Closed w' := by
  obtain ⟨es, hp⟩ := publishes_ticked ht
  have hplants : w'.plants = w.plants := ht.escalated.plants.trans ht.opened.plants
  refine ⟨hplants ▸ h.plants, fun plant hmem hrem d => ?_, fun e he => ?_⟩
  · rw [hplants] at hmem
    exact quiet_publishes (h.removed plant hmem hrem d) hp (not_newlyDue_of_removed h.plants hmem hrem d)
  · obtain ⟨he, hset⟩ := ht.escalated.skipped e he
    rw [ht.opened.skipped] at he
    obtain ⟨hq, s, hs, hne⟩ := h.skipped e he
    refine ⟨quiet_publishes hq hp ?_, ?_⟩
    · -- the tick announces the schedule's next moment, and a skipped one is not that
      rintro ⟨-, -, r, hr, heq⟩
      rw [hs] at hr
      cases hr
      exact hne heq
    · have hs₁ : w₁.schedule e.1 = some s := by rw [ht.opened.schedule]; exact hs
      rcases ht.escalated.cases e.1 with ⟨x, hx, r, hxe, hr, -, hr'⟩ | ⟨-, hsame⟩
      · exact ⟨shifted r, hr', hset x hx hxe r hr⟩
      · exact ⟨s, hsame.trans hs₁, hne⟩

theorem closed_deliver {w : World} {i : ℕ} {e : CareEvent} (h : Closed w) (he : w.outbox[i]? = some e)
    (hproc : i ∉ w.processed) : Closed (handle (w.claim i) e) := by
  obtain ⟨-, -, hplants, hsched, hskip, -⟩ := handle_frame (w.claim i) e
  refine ⟨hplants ▸ h.plants, fun plant hmem hrem d => ?_, fun f hf => ?_⟩
  · rw [hplants] at hmem
    exact quiet_deliver (h.removed plant hmem hrem d) he hproc
  · rw [hskip] at hf
    obtain ⟨hq, s, hs, hne⟩ := h.skipped f hf
    refine ⟨quiet_deliver hq he hproc, s, ?_, hne⟩
    rw [schedule_congr hsched]
    exact hs

/-- A change sets another moment than the skipped ones it leaves on record. -/
theorem skipped_reschedule {w w' : World} {p : PlantId} {s s' : CareSchedule} {f : CareEvent} {e : PlantId × Instant}
    (h : Closed w) (hr : Rescheduled w w' p s s' f) (he : e ∈ (w.reschedule s').skipped) :
    Quiet w e.1 e.2 ∧ ∃ r, w'.schedule e.1 = some r ∧ r.nextWateringAt ≠ e.2 := by
  obtain ⟨he, hset⟩ := List.mem_filter.1 he
  obtain ⟨hq, r, hr', hne⟩ := h.skipped e he
  refine ⟨hq, ?_⟩
  rw [hr.schedule]
  by_cases hpe : p = e.1
  · refine ⟨s', if_pos hpe, fun heq => ?_⟩
    have : e = (s'.plantId, s'.nextWateringAt) := Prod.ext (hpe.symm.trans hr.plantId.symm) heq.symm
    simp [this] at hset
  · exact ⟨r, by rw [if_neg hpe]; exact hr', hne⟩

theorem closed_water {w w' : World} {p : PlantId} {v : Option ℕ} (h : Closed w) (hs : water w p v = some w') :
    Closed w' := by
  obtain ⟨es, hp⟩ := publishes_water hs
  obtain ⟨s, s', plant, plant', hr, hplant, hwater, hplants, -, hskip⟩ := water_cases hs
  have hkept : plant'.removed = false := by
    unfold Plant.water at hwater
    split at hwater
    · cases hwater
    · rename_i hrem
      split at hwater
      · cases hwater
      · cases hwater
        simpa using hrem
  refine closed_command hp (hplants ▸ nodup_put h.plants) (fun q hq hrem => ?_) fun e he => ?_
  · rw [hplants] at hq
    rcases mem_put hq with rfl | hq
    · rw [hkept] at hrem; cases hrem
    · exact h.removed q hq hrem
  · rw [hskip] at he
    exact skipped_reschedule h hr he

theorem closed_skip {w w' : World} {p : PlantId} {v : Option ℕ} (h : Closed w) (ha : Settled w (.skip p v))
    (hs : skip w p v = some w') : Closed w' := by
  obtain ⟨es, hp⟩ := publishes_skip hs
  obtain ⟨s, s', hr, hlt, hplants, hskip⟩ := skip_cases hs
  refine closed_command hp (hplants ▸ h.plants) (fun q hq hrem => ?_) fun e he => ?_
  · rw [hplants] at hq
    exact h.removed q hq hrem
  · rw [hskip] at he
    rcases List.mem_append.1 he with he | he
    · exact skipped_reschedule h hr he
    · rw [List.mem_singleton] at he
      subst he
      obtain ⟨hwin, hdue⟩ := ha s hr.before
      refine ⟨⟨hwin, fun t hu => ?_⟩, s', (hr.schedule p).trans (if_pos rfl), ne_of_gt hlt⟩
      have := hdue _ hu
      simp [dueFor] at this

theorem closed_removePlant {w w' : World} {p : PlantId} (h : Closed w) (ha : Settled w (.removePlant p))
    (hs : removePlant w p = some w') : Closed w' := by
  obtain ⟨plant, hplant, rfl⟩ := removePlant_cases hs
  refine closed_command (publishes_nothing rfl rfl rfl) (nodup_put h.plants) (fun q hq hrem => ?_) fun e he => h.skipped e he
  rcases mem_put hq with rfl | hq
  · intro d
    have hid : plant.id = p := plant_id hplant
    refine ⟨fun x hx hpend => ?_, fun t hu => ?_⟩
    · exact absurd hpend (ha.1 x (by rw [← hid]; exact hx))
    · have := ha.2 _ hu
      simp [announces, hid] at this
  · exact h.removed q hq hrem

/-! ## Runs -/

structure Honest (w : World) : Prop where
  inv : Inv w
  heard : Heard w
  closed : Closed w

/-- Adding a plant, a schedule or time to the world. -/
theorem honest_command {w w' : World} {es : List CareEvent} (h : Honest w) (g : Later w w' ∧ Inv w')
    (hp : Publishes (fun _ _ => False) es w w') (hc : Closed w') : Honest w' :=
  ⟨g.2, heard_publishes h.heard g.1 hp fun _ _ => False.elim, hc⟩

theorem honest_step {w w' : World} {a : Action} (h : Honest w) (ha : Settled w a) (hs : step w a = some w') :
    Honest w' := by
  have g := inv_step h.inv hs
  cases a with
  | advance d =>
    cases hs
    have hp : Publishes (fun _ _ => False) [] w { w with now := w.now + d } := publishes_nothing rfl rfl rfl
    exact honest_command h g hp (closed_command hp h.closed.plants h.closed.removed h.closed.skipped)
  | addPlant p hh =>
    simp only [step] at hs
    split at hs
    · cases hs
    · rename_i hfresh
      cases hs
      have hp : Publishes (fun _ _ => False) [] w { w with plants := w.plants ++ [.add p hh] } :=
        publishes_nothing rfl rfl rfl
      refine honest_command h g hp (closed_command hp (nodup_insert h.closed.plants hfresh) ?_ h.closed.skipped)
      intro q hq hrem
      rcases List.mem_append.1 hq with hq | hq
      · exact h.closed.removed q hq hrem
      · rw [List.mem_singleton] at hq
        subst hq; cases hrem
  | createSchedule p i =>
    have hkeep : ∀ q r, w.schedule q = some r → w'.schedule q = some r := fun q r => schedule_createSchedule h.inv hs
    obtain ⟨s, rfl, -, rfl⟩ := createSchedule_cases hs
    have hp : Publishes (fun _ _ => False) [.careScheduleCreated s.plantId i s.nextWateringAt w.now] w
        ({ w with schedules := w.schedules ++ [s] }.publish
          (.careScheduleCreated s.plantId i s.nextWateringAt w.now)) :=
      publishes_other rfl rfl rfl (fun e he => by rw [List.mem_singleton.1 he]; rfl) (le_refl _)
    refine honest_command h g hp (closed_command hp h.closed.plants h.closed.removed fun e he => ?_)
    obtain ⟨hq, r, hr, hne⟩ := h.closed.skipped e he
    exact ⟨hq, r, hkeep e.1 r hr, hne⟩
  | tick =>
    obtain ⟨w₁, l, ht⟩ := tick_cases h.inv hs
    obtain ⟨es, hp⟩ := publishes_ticked ht
    exact ⟨g.2, heard_publishes h.heard g.1 hp fun _ _ => id, closed_ticked h.closed ht⟩
  | deliver i =>
    rcases deliver_cases hs with rfl | ⟨e, p, he, hpl, hproc, hord, rfl⟩
    · exact h
    · exact ⟨g.2, heard_deliver h.heard he hpl hproc hord, closed_deliver h.closed he hproc⟩
  | water p v =>
    obtain ⟨es, hp⟩ := publishes_water hs
    exact honest_command h g hp (closed_water h.closed hs)
  | skip p v =>
    obtain ⟨es, hp⟩ := publishes_skip hs
    exact honest_command h g hp (closed_skip h.closed ha hs)
  | removePlant p =>
    have hc := closed_removePlant h.closed ha hs
    obtain ⟨plant, -, rfl⟩ := removePlant_cases hs
    exact honest_command h g (publishes_nothing rfl rfl rfl) hc

/-- A window the tick escalates: it was pending before, or its plant has just come due. -/
theorem trueMiss_of_listed {w w₁ w' : World} {l : List MissedCareWindow} {x : MissedCareWindow} (h : Honest w)
    (ha : Settled w .tick) (ht : Ticked w w₁ w' l) (hx : x ∈ l) : TrueMiss w w' x.plantId x.dueAt := by
  obtain ⟨hwin, hpend, hover⟩ := ht.listed x hx
  have hplants : w'.plants = w.plants := ht.escalated.plants.trans ht.opened.plants
  have hdl := ((inv_opened h.inv ht.opened).windows _ x hwin).deadline
  have hfrom := ht.opened.windows x.plantId x hwin
  refine ⟨fun c n t hc hle => ?_, fun hskip => ?_, fun plant hplant => ?_⟩
  · rcases hfrom with hold | ⟨hnew, -⟩
    · rw [← hdl]
      -- a claimed watering has closed the window, an unclaimed one is excluded by the condition
      rcases mem_outbox hc with hclaimed | hun
      · exact h.heard.satisfied x.plantId c n t x hclaimed hold hpend hle
      · have := ha x (mem_of_get hold).1 hpend hover _ hun
        simpa [onTime, hle] using this
    · exact absurd (hnew.after (h.heard.passed _ c n t hc)) (not_lt.2 hle)
  · obtain ⟨hq, s, hs, hne⟩ := h.closed.skipped _ hskip
    rcases hfrom with hold | ⟨⟨-, -, r, hr, heq⟩, -⟩
    · exact hq.1 x hold hpend rfl
    · rw [hs] at hr
      cases hr
      exact hne heq
  · have hmem : plant ∈ w.plants ∧ plant.id = x.plantId := by
      have := mem_of_get hplant
      rwa [hplants] at this
    by_contra hrem
    rw [Bool.not_eq_false] at hrem
    rcases hfrom with hold | ⟨hnew, -⟩
    · have hq := h.closed.removed plant hmem.1 hrem x.dueAt
      rw [hmem.2] at hq
      exact hq.1 x hold hpend rfl
    · have := not_newlyDue_of_removed h.closed.plants hmem.1 hrem x.dueAt
      rw [hmem.2] at this
      exact this hnew

/-- In every run that keeps to `Settled`, every `CareMissed` a tick records is on account of a window
whose plant was not watered in time, whose watering was not skipped, and whose plant is there. -/
theorem no_false_miss (acts : List Action) (w w' : World) (hm : Meets step Settled World.empty (acts ++ [.tick]))
    (h : run step World.empty acts = some w) (ht : step w .tick = some w') : MissesTrue w w' := by
  obtain ⟨hm, ha, -⟩ := meets_append hm h
  have key : Honest w :=
    inv_of_meets (fun _ _ _ => honest_step) ⟨inv_empty, heard_empty, closed_empty⟩ hm h
  obtain ⟨w₁, l, hti⟩ := tick_cases key.inv ht
  refine ⟨_, by rw [hti.escalated.escalations, hti.opened.escalations], fun e he => ?_⟩
  obtain ⟨x, hx, rfl⟩ := List.mem_map.1 he
  exact trueMiss_of_listed key ha hti (List.mem_filter.1 hx).1

/-- The plant's first watering is skipped before it is due, the second one is done in time and the
consumer hears of it, the third one is missed. -/
def missedAfterAll : List Action :=
  keptPlant ++ [.advance 86400000000, .skip 1 none, .advance 259200000000, .tick, .deliver 2, .advance 3600000000,
    .water 1 none, .deliver 3, .advance 172800000000, .tick, .deliver 4, .advance 86400000000]

theorem no_false_miss_after_all : ∃ w w', run step World.empty missedAfterAll = some w ∧ step w .tick = some w' ∧
    w'.escalations.length = 1 ∧ MissesTrue w w' := by
  refine ⟨(run step World.empty missedAfterAll).get (by decide),
    (step ((run step World.empty missedAfterAll).get (by decide)) .tick).get (by decide), (Option.some_get _).symm,
    (Option.some_get _).symm, by decide, ?_⟩
  exact no_false_miss missedAfterAll _ _ (by decide) (Option.some_get _).symm (Option.some_get _).symm

/-- The window is open when the watering is skipped, when the plant is removed, and when the plant is
watered and the consumer has not heard of it yet. -/
def skippedInWindow : List Action :=
  keptPlant ++ [.advance 172800000000, .tick, .deliver 1, .skip 1 none, .advance 86400000000]

def removedInWindow : List Action :=
  keptPlant ++ [.advance 172800000000, .tick, .deliver 1, .removePlant 1, .advance 86400000000]

def wateredUnheard : List Action :=
  keptPlant ++ [.advance 172800000000, .tick, .deliver 1, .water 1 none, .advance 86400000000]

theorem not_missesTrue {w w' : World} {e : PlantId × Instant} (h : w'.escalations = w.escalations ++ [e])
    (hf : ¬ TrueMiss w w' e.1 e.2) : ¬ MissesTrue w w' := by
  rintro ⟨new, hnew, hall⟩
  rw [h, List.append_cancel_left_eq] at hnew
  exact hf (hall e (hnew ▸ List.mem_singleton.2 rfl))

/-- The tick then misses a skipped watering, a removed plant, and a plant that was watered. -/
theorem false_misses :
    (∃ w w', run step World.empty skippedInWindow = some w ∧ step w .tick = some w' ∧ ¬ MissesTrue w w') ∧
    (∃ w w', run step World.empty removedInWindow = some w ∧ step w .tick = some w' ∧ ¬ MissesTrue w w') ∧
    ∃ w w', run step World.empty wateredUnheard = some w ∧ step w .tick = some w' ∧ ¬ MissesTrue w w' := by
  refine ⟨⟨(run step World.empty skippedInWindow).get (by decide),
      (step ((run step World.empty skippedInWindow).get (by decide)) .tick).get (by decide), (Option.some_get _).symm,
      (Option.some_get _).symm, not_missesTrue (e := (1, days 2)) (by decide) fun h => ?_⟩,
    ⟨(run step World.empty removedInWindow).get (by decide),
      (step ((run step World.empty removedInWindow).get (by decide)) .tick).get (by decide), (Option.some_get _).symm,
      (Option.some_get _).symm, not_missesTrue (e := (1, days 2)) (by decide) fun h => ?_⟩,
    ⟨(run step World.empty wateredUnheard).get (by decide),
      (step ((run step World.empty wateredUnheard).get (by decide)) .tick).get (by decide), (Option.some_get _).symm,
      (Option.some_get _).symm, not_missesTrue (e := (1, days 2)) (by decide) fun h => ?_⟩⟩
  · exact absurd h.skipped (by decide)
  · exact absurd (h.kept ⟨1, 9, none, true⟩ (by decide)) (by decide)
  · exact absurd (h.watered (days 2) (days 4) (days 2) (by decide) (by decide)) (by decide)

end Plantkeeper.Care
