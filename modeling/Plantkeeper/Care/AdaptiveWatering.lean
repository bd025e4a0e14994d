/-
The adaptive-watering reaction keeps no state of its own. A reading pulls a watering forward only while
it is more than two days away, and what it sets is the current instant: no later reading finds it two
days away again, so between two changes of the schedule by others at most one reading moves it.
-/
import Plantkeeper.Concurrency.Transactions
import Plantkeeper.Domain.Telemetry

namespace Plantkeeper.Care

open Plantkeeper.Concurrency (WATERING_HORIZON)
open Plantkeeper.Telemetry (Moisture MOISTURE_LOW_THRESHOLD)

/-! ## The reaction -/

def RESCHEDULE_REASON : String := "telemetry: soil moisture below threshold"

/-- `_on_telemetry_received`, from the plant's schedule as it is locked to the schedule as it is saved,
with the events it recorded. -/
def onTelemetryReceived (schedule : Option CareSchedule) (moisture : Moisture) (now : Instant) :
    Except CareError (Option CareSchedule × List CareEvent) :=
  match schedule with
  | none => .ok (none, [])
  | some s =>
    if moisture.value ≥ MOISTURE_LOW_THRESHOLD then .ok (some s, [])
    else if s.nextWateringAt - now ≤ WATERING_HORIZON then .ok (some s, [])
    else (s.reschedule now now s.version (some RESCHEDULE_REASON)).map fun (s', event) => (some s', [event])

/-! ## A plant's schedule and its writers -/

/-- What is done to the schedule of one plant. `createCareSchedule` and `deleteCareSchedule` are the
onboarding's command and its compensation. -/
inductive Writer
  | telemetryReceived (moisture : Moisture) (now : Instant)
  | createCareSchedule (wateringInterval : WateringInterval) (now : Instant)
  | deleteCareSchedule
  | markDue (now : Instant)
  | completeWatering (now : Instant) (expectedVersion : ℕ)
  | skip (now : Instant) (expectedVersion : ℕ)
  | markMissed (now : Instant) (expectedVersion : ℕ)
  deriving DecidableEq

/-- A change of an existing schedule; a plant without one has nothing to change. -/
def changed (f : CareSchedule → Except CareError (CareSchedule × CareEvent)) (schedule : Option CareSchedule) :
    Except CareError (Option CareSchedule × List CareEvent) :=
  match schedule with
  | none => .ok (none, [])
  | some s => (f s).map fun (s', event) => (some s', [event])

def Writer.on (plantId : PlantId) (schedule : Option CareSchedule) :
    Writer → Except CareError (Option CareSchedule × List CareEvent)
  | .telemetryReceived moisture now => onTelemetryReceived schedule moisture now
  | .createCareSchedule wateringInterval now =>
    match schedule with
    | some s => .ok (some s, []) -- the primary key refuses a second row
    | none => (CareSchedule.create plantId wateringInterval (now + wateringInterval.value) now).map
        fun (s, event) => (some s, [event])
  | .deleteCareSchedule => .ok (none, [])
  | .markDue now => changed (fun s => (s.markDue now).map fun event => (s, event)) schedule
  | .completeWatering now expectedVersion => changed (·.completeWatering now expectedVersion) schedule
  | .skip now expectedVersion => changed (·.skip now expectedVersion) schedule
  | .markMissed now expectedVersion => changed (·.markMissed now expectedVersion) schedule

/-- The plant's row and the events recorded so far. -/
structure Cared where
  schedule : Option CareSchedule
  recorded : List CareEvent
  deriving DecidableEq

/-- The end of a transaction; one that raised is rolled back. -/
def Cared.commit (c : Cared) : Except CareError (Option CareSchedule × List CareEvent) → Cared
  | .ok (schedule, events) => ⟨schedule, c.recorded ++ events⟩
  | .error _ => c

def Cared.step (plantId : PlantId) (c : Cared) (w : Writer) : Cared := c.commit (w.on plantId c.schedule)

/-- The instants at which the readings are handled. -/
def handledAt (writers : List Writer) : List Instant :=
  writers.filterMap fun
    | .telemetryReceived _ now => some now
    | _ => none

def isReschedule : CareEvent → Bool
  | .wateringRescheduled .. => true
  | _ => false

/-- The schedule was created or changed by another than the reaction. -/
def isOtherChange : CareEvent → Bool
  | .careScheduleCreated .. | .wateringCompleted .. | .careMissed .. | .careSkipped .. => true
  | .wateringDue .. | .wateringRescheduled .. => false

/-! ## One step -/

/-- The schedule after a reading that moved it. -/
def pulledForward (s : CareSchedule) (now : Instant) : CareSchedule :=
  { s with nextWateringAt := now, version := s.version + 1 }

/-- What that reading recorded. -/
def rescheduled (s : CareSchedule) (now : Instant) : CareEvent :=
  .wateringRescheduled s.plantId s.nextWateringAt now (some RESCHEDULE_REASON) now

theorem reschedule_now (s : CareSchedule) (now : Instant) :
    s.reschedule now now s.version (some RESCHEDULE_REASON) = .ok (pulledForward s now, rescheduled s now) := by
  unfold CareSchedule.reschedule CareSchedule.change
  rw [if_neg (fun h => h rfl), if_neg (Int.lt_irrefl now), if_neg (fun h => h rfl)]
  rfl

/-- A reading leaves the schedule alone, or the soil is dry, the next watering is more than two days
away, and it is pulled forward to now. -/
theorem onTelemetryReceived_cases (schedule : Option CareSchedule) (moisture : Moisture) (now : Instant) :
    onTelemetryReceived schedule moisture now = .ok (schedule, []) ∨
      ∃ s, schedule = some s ∧ moisture.value < MOISTURE_LOW_THRESHOLD ∧ WATERING_HORIZON < s.nextWateringAt - now ∧
        onTelemetryReceived schedule moisture now = .ok (some (pulledForward s now), [rescheduled s now]) := by
  cases schedule with
  | none => exact .inl rfl
  | some s =>
    unfold onTelemetryReceived
    by_cases hm : moisture.value ≥ MOISTURE_LOW_THRESHOLD
    · left
      simp only [if_pos hm]
    · by_cases hn : s.nextWateringAt - now ≤ WATERING_HORIZON
      · left
        simp only [if_neg hm, if_pos hn]
      · right
        refine ⟨s, rfl, not_le.1 hm, Int.not_le.1 hn, ?_⟩
        simp only [if_neg hm, if_neg hn, reschedule_now]
        rfl

/-- The interleaved transactions run this reaction on the row they have locked. -/
theorem withSchedule_telemetryReceived (s : CareSchedule) (moisture : Moisture) (now : Instant) :
    Concurrency.withSchedule (.telemetryReceived s.plantId moisture.value now) s =
      match onTelemetryReceived (some s) moisture now with
      | .ok (some s', [_]) => some (.save s')
      | .ok _ => some .commit
      | .error _ => none := by
  unfold Concurrency.withSchedule onTelemetryReceived
  by_cases hm : moisture.value ≥ MOISTURE_LOW_THRESHOLD
  · have hm' : moisture.value ≥ Concurrency.MOISTURE_LOW_THRESHOLD := hm
    simp only [if_pos hm, if_pos hm']
  · have hm' : ¬ moisture.value ≥ Concurrency.MOISTURE_LOW_THRESHOLD := hm
    by_cases hn : s.nextWateringAt - now ≤ WATERING_HORIZON
    · simp only [if_neg hm, if_neg hm', if_pos hn]
    · have hr := reschedule_now s now
      unfold RESCHEDULE_REASON at hr ⊢
      simp only [if_neg hm, if_neg hm', if_neg hn, hr]
      rfl

/-- What a step does to the schedule and what it records. -/
inductive Stepped (c : Cared) (w : Writer) : Cared → Prop
  | idle : Stepped c w c
  | deleted : Stepped c w ⟨none, c.recorded⟩
  | due {e : CareEvent} (h : isReschedule e = false) : Stepped c w ⟨c.schedule, c.recorded ++ [e]⟩
  | other {s : Option CareSchedule} {e : CareEvent} (h : isOtherChange e = true) : Stepped c w ⟨s, c.recorded ++ [e]⟩
  | pulled {s : CareSchedule} {moisture : Moisture} {now : Instant} (hw : w = .telemetryReceived moisture now)
      (hs : c.schedule = some s) (hn : WATERING_HORIZON < s.nextWateringAt - now) :
      Stepped c w ⟨some (pulledForward s now), c.recorded ++ [rescheduled s now]⟩

theorem stepped_nothing {c : Cared} {w : Writer} {schedule : Option CareSchedule} (h : c.schedule = schedule) :
    Stepped c w (c.commit (.ok (schedule, []))) := by
  subst h
  show Stepped c w ⟨c.schedule, c.recorded ++ []⟩
  rw [List.append_nil]
  exact .idle

theorem stepped_changed {c : Cared} {w : Writer} {f : CareSchedule → Except CareError (CareSchedule × CareEvent)}
    (hf : ∀ s s' e, c.schedule = some s → f s = .ok (s', e) → Stepped c w ⟨some s', c.recorded ++ [e]⟩) :
    Stepped c w (c.commit (changed f c.schedule)) := by
  cases hs : c.schedule with
  | none => exact stepped_nothing hs
  | some s =>
    unfold changed
    cases h : f s with
    | error e =>
      simp only [h]
      exact .idle
    | ok r =>
      obtain ⟨s', e⟩ := r
      simp only [h]
      exact hf s s' e hs h

/-- An accepted change records the event it was called with. -/
theorem stepped_change {c : Cared} {w : Writer} {s s' : CareSchedule} {v : ℕ} {next : Instant} {e e' : CareEvent}
    (he : isOtherChange e = true) (h : s.change v next e = .ok (s', e')) : Stepped c w ⟨some s', c.recorded ++ [e']⟩ := by
  obtain ⟨_, _, rfl⟩ := CareSchedule.change_ok h
  exact .other he

theorem step_stepped (plantId : PlantId) (c : Cared) (w : Writer) : Stepped c w (c.step plantId w) := by
  unfold Cared.step Writer.on
  cases w with
  | telemetryReceived moisture now =>
    rcases onTelemetryReceived_cases c.schedule moisture now with h | ⟨s, hs, _, hn, h⟩
    · simp only [h]
      exact stepped_nothing rfl
    · simp only [h]
      exact .pulled rfl hs hn
  | createCareSchedule wateringInterval now =>
    cases hs : c.schedule with
    | some s => exact stepped_nothing hs
    | none =>
      cases h : CareSchedule.create plantId wateringInterval (now + wateringInterval.value) now with
      | error e =>
        simp only [h]
        exact .idle
      | ok r =>
        obtain ⟨s, e⟩ := r
        simp only [h]
        unfold CareSchedule.create at h
        split at h
        · cases h
        · cases h
          exact .other rfl
  | deleteCareSchedule =>
    show Stepped c _ ⟨none, c.recorded ++ []⟩
    rw [List.append_nil]
    exact .deleted
  | markDue now =>
    refine stepped_changed fun s s' e hs h => ?_
    unfold CareSchedule.markDue at h
    split at h
    · cases h
    · cases h
      exact hs ▸ .due rfl
  | completeWatering now expectedVersion => exact stepped_changed fun s s' e _ h => stepped_change rfl h
  | skip now expectedVersion => exact stepped_changed fun s s' e _ h => stepped_change rfl h
  | markMissed now expectedVersion => exact stepped_changed fun s s' e _ h => stepped_change rfl h

/-! ## Runs -/

/-- Events with no change by others among them. -/
def Undisturbed (events : List CareEvent) : Prop := ∀ e ∈ events, isOtherChange e = false

/-- Nothing stormed so far, and once the reaction has moved the schedule it stays due until another
change; `clock` is no later than any reading still to come. -/
structure Calm (clock : Instant) (c : Cared) : Prop where
  once : ∀ spell, spell <:+: c.recorded → Undisturbed spell → spell.countP isReschedule ≤ 1
  due : ∀ spell, spell <:+ c.recorded → Undisturbed spell → 0 < spell.countP isReschedule →
    ∀ s, c.schedule = some s → s.nextWateringAt ≤ clock

theorem calm_start (clock : Instant) (schedule : Option CareSchedule) : Calm clock ⟨schedule, []⟩ := by
  constructor
  · rintro spell h -
    rw [List.infix_nil.1 h]
    exact Nat.zero_le 1
  · rintro spell h - hpos
    rw [List.suffix_nil.1 h] at hpos
    exact absurd hpos (Nat.lt_irrefl 0)

variable {clock now : Instant} {c c' : Cared}

theorem Calm.mono (h : Calm clock c) (hle : clock ≤ now) : Calm now c :=
  ⟨h.once, fun spell hs hu hpos s hsome => Int.le_trans (h.due spell hs hu hpos s hsome) hle⟩

/-- An event is recorded: what is to be shown is about the spells that end with it. -/
theorem calm_record (h : Calm clock c) {schedule : Option CareSchedule} {e : CareEvent}
    (hlast : ∀ spell, spell <:+ c.recorded → Undisturbed spell → isOtherChange e = false →
      spell.countP isReschedule + [e].countP isReschedule ≤ 1 ∧
      (0 < spell.countP isReschedule + [e].countP isReschedule → ∀ s, schedule = some s → s.nextWateringAt ≤ clock)) :
    Calm clock ⟨schedule, c.recorded ++ [e]⟩ := by
  have hend : ∀ spell, spell <:+ c.recorded ++ [e] → Undisturbed spell → spell.countP isReschedule ≤ 1 ∧
      (0 < spell.countP isReschedule → ∀ s, schedule = some s → s.nextWateringAt ≤ clock) := by
    intro spell hs hu
    rcases List.suffix_concat_iff.1 hs with rfl | ⟨init, rfl, hinit⟩
    · exact ⟨Nat.zero_le 1, fun hpos => absurd hpos (Nat.lt_irrefl 0)⟩
    · rw [List.countP_append]
      exact hlast init hinit (fun x hx => hu x (List.mem_append_left _ hx)) (hu e (by simp))
  constructor
  · intro spell hs hu
    rcases List.infix_concat_iff.1 hs with hs | hs
    · exact (hend spell hs hu).1
    · exact h.once spell hs hu
  · intro spell hs hu
    exact (hend spell hs hu).2

/-- A step keeps the calm, when a reading is not handled before the clock. -/
theorem calm_stepped {w : Writer} (h : Calm clock c) (hnow : ∀ t ∈ handledAt [w], t = clock) (hs : Stepped c w c') :
    Calm clock c' := by
  cases hs with
  | idle => exact h
  | deleted => exact ⟨h.once, by rintro _ _ _ _ s ⟨⟩⟩
  | due he =>
    refine calm_record h fun spell hs hu _ => ?_
    rw [List.countP_singleton, he]
    exact ⟨h.once spell hs.isInfix hu, h.due spell hs hu⟩
  | other he =>
    refine calm_record h fun spell _ _ hno => ?_
    rw [he] at hno
    cases hno
  | @pulled s moisture t hw hsome hn =>
    obtain rfl : t = clock := hnow t (by rw [hw]; simp [handledAt])
    refine calm_record h fun spell hs hu _ => ?_
    -- the schedule was more than two days away, so nothing in the spell had moved it
    have hzero : spell.countP isReschedule = 0 := by
      by_contra hne
      have hdue : s.nextWateringAt ≤ t := h.due spell hs hu (Nat.pos_of_ne_zero hne) s hsome
      have hfar : ∀ a b d : ℤ, 0 ≤ d → d < a - b → ¬ a ≤ b := by omega
      exact hfar _ _ _ (by decide) hn hdue
    rw [hzero, show [rescheduled s t].countP isReschedule = 1 from rfl]
    refine ⟨Nat.le_refl 1, ?_⟩
    rintro _ s' ⟨⟩
    exact Int.le_refl t

theorem handledAt_cons (w : Writer) (writers : List Writer) : handledAt (w :: writers) = handledAt [w] ++ handledAt writers := by
  show handledAt ([w] ++ writers) = _
  unfold handledAt
  rw [List.filterMap_append]

theorem handledAt_singleton (w : Writer) : handledAt [w] = [] ∨ ∃ now, handledAt [w] = [now] := by
  cases w with
  | telemetryReceived moisture now => exact .inr ⟨now, rfl⟩
  | _ => exact .inl rfl

theorem calm_run (plantId : PlantId) : ∀ {writers : List Writer} {clock : Instant} {c : Cared}, Calm clock c →
    (clock :: handledAt writers).Pairwise (· ≤ ·) → ∃ last, Calm last (writers.foldl (Cared.step plantId) c)
  | [], clock, c, h, _ => ⟨clock, h⟩
  | w :: writers, clock, c, h, hle => by
    rw [handledAt_cons] at hle
    rw [List.foldl_cons]
    rcases handledAt_singleton w with hw | ⟨now, hw⟩
    · rw [hw, List.nil_append] at hle
      exact calm_run plantId (calm_stepped h (by rw [hw]; rintro t ⟨⟩) (step_stepped plantId c w)) hle
    · rw [hw, List.singleton_append] at hle
      obtain ⟨hclock, hle⟩ := List.pairwise_cons.1 hle
      have hnow := h.mono (hclock now (List.mem_cons_self ..))
      refine calm_run plantId (calm_stepped hnow ?_ (step_stepped plantId c w)) hle
      rw [hw]
      exact fun t ht => List.mem_singleton.1 ht

/-! ## The result -/

/-- A reading never fails; at or above the threshold it changes nothing; what it does change, it pulls
forward from more than two days away to the current instant; and in every run with nondecreasing
instants of the readings, at most one reschedule is recorded between two changes by others. -/
theorem adaptiveWatering_cannotStorm :
    (∀ (schedule : Option CareSchedule) (moisture : Moisture) (now : Instant), ∃ schedule' events,
      onTelemetryReceived schedule moisture now = .ok (schedule', events) ∧
      (MOISTURE_LOW_THRESHOLD ≤ moisture.value → schedule' = schedule ∧ events = []) ∧
      (schedule' = schedule ∧ events = [] ∨
        ∃ s, schedule = some s ∧ days 2 < s.nextWateringAt - now ∧ now < s.nextWateringAt ∧
          schedule' = some { s with nextWateringAt := now, version := s.version + 1 } ∧
          events = [.wateringRescheduled s.plantId s.nextWateringAt now (some RESCHEDULE_REASON) now])) ∧
    ∀ (plantId : PlantId) (schedule : Option CareSchedule) (writers : List Writer),
      (handledAt writers).Pairwise (· ≤ ·) →
      ∀ spell, spell <:+: (writers.foldl (Cared.step plantId) ⟨schedule, []⟩).recorded →
        (∀ e ∈ spell, isOtherChange e = false) → spell.countP isReschedule ≤ 1 := by
  constructor
  · intro schedule moisture now
    rcases onTelemetryReceived_cases schedule moisture now with h | ⟨s, hs, hm, hn, h⟩
    · exact ⟨_, _, h, fun _ => ⟨rfl, rfl⟩, .inl ⟨rfl, rfl⟩⟩
    · have hforward : ∀ a b d : ℤ, 0 ≤ d → d < a - b → b < a := by omega
      exact ⟨_, _, h, fun hge => absurd hm (not_lt.2 hge),
        .inr ⟨s, hs, hn, hforward _ _ _ (by decide) hn, rfl, rfl⟩⟩
  · intro plantId schedule writers hle
    obtain ⟨clock, hclock⟩ : ∃ clock, (clock :: handledAt writers).Pairwise (· ≤ ·) := by
      cases h : handledAt writers with
      | nil => exact ⟨0, List.pairwise_singleton ..⟩
      | cons t rest =>
        rw [h] at hle
        refine ⟨t, List.pairwise_cons.2 ⟨fun x hx => ?_, hle⟩⟩
        rcases List.mem_cons.1 hx with rfl | hx
        · exact Int.le_refl x
        · exact (List.pairwise_cons.1 hle).1 x hx
    obtain ⟨last, hcalm⟩ := calm_run plantId (calm_start clock schedule) hclock
    exact hcalm.once

/-- Three dry readings of one plant, a skip between the last two. -/
theorem adaptiveWatering_cannotStorm_skipped :
    ∀ spell, spell <:+: ([Writer.telemetryReceived ⟨12, by decide, by decide⟩ 0,
        .telemetryReceived ⟨12, by decide, by decide⟩ 10, .skip 11 2,
        .telemetryReceived ⟨12, by decide, by decide⟩ 12].foldl (Cared.step 1)
          ⟨some ⟨1, .weekly, days 6, 1⟩, []⟩).recorded →
      (∀ e ∈ spell, isOtherChange e = false) → spell.countP isReschedule ≤ 1 :=
  adaptiveWatering_cannotStorm.2 1 (some ⟨1, .weekly, days 6, 1⟩) _ (by decide)

end Plantkeeper.Care
