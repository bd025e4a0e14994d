/-
The rollups are exact: whatever the order of the readings, a window has a row exactly if it has a
reading, and the row is the summary of its readings. Windows are the hours of UTC.
-/
import Mathlib.Data.List.Induction
import Plantkeeper.Lib.Samples
import Plantkeeper.ReadModel.Telemetry

namespace Plantkeeper.ReadModel

open Plantkeeper.Samples Plantkeeper.Telemetry

/-! ## Hours of UTC -/

/-- The instant lies in this hour of UTC, counted from the epoch. -/
def InHour (h : ℤ) (t : Instant) : Prop := hours h ≤ t ∧ t < hours (h + 1)

instance decidableInHour (h : ℤ) (t : Instant) : Decidable (InHour h t) :=
  inferInstanceAs (Decidable (hours h ≤ t ∧ t < hours (h + 1)))

theorem hours_eq (h : ℤ) : hours h = h * 3600000000 := by
  have hmul : ∀ h : ℤ, 3600 * h * 1000000 = h * 3600000000 := by
    intro h
    omega
  exact hmul h

theorem hours_injective {h k : ℤ} (heq : hours h = hours k) : h = k := by
  rw [hours_eq, hours_eq] at heq
  exact Int.eq_of_mul_eq_mul_right (by decide) heq

/-- The number of an instant's hour. -/
theorem inHour_iff (h : ℤ) (t : Instant) : InHour h t ↔ t / hours 1 = h := by
  have hdiv : ∀ t h : ℤ, h * 3600000000 ≤ t ∧ t < (h + 1) * 3600000000 ↔ t / (1 * 3600000000) = h := by
    intro t h
    omega
  unfold InHour
  rw [hours_eq, hours_eq, hours_eq]
  exact hdiv t h

theorem windowStart_instant (d : AwareDatetime) : (windowStart d).instant = hours (d.instant / hours 1) := by
  have hfloor : ∀ t : ℤ, t - t % (1 * 3600000000) - 0 = t / (1 * 3600000000) * 3600000000 := by
    intro t
    omega
  rw [hours_eq, hours_eq]
  simp only [windowStart, AwareDatetime.astimezoneUtc, AwareDatetime.utc, AwareDatetime.onTheHour, AwareDatetime.instant]
  rw [hours_eq]
  exact hfloor _

/-- The offset an instant is written with is gone. -/
theorem windowStart_eq (d : AwareDatetime) : windowStart d = .utc (hours (d.instant / hours 1)) := by
  rw [← windowStart_instant]
  simp [windowStart, AwareDatetime.astimezoneUtc, AwareDatetime.utc, AwareDatetime.onTheHour, AwareDatetime.instant]

theorem windowStart_eq_iff (a b : AwareDatetime) : windowStart a = windowStart b ↔
    ∃ h, InHour h a.instant ∧ InHour h b.instant := by
  rw [windowStart_eq, windowStart_eq]
  simp only [inHour_iff, AwareDatetime.utc, AwareDatetime.mk.injEq, and_true]
  constructor
  · intro heq
    exact ⟨a.instant / hours 1, rfl, (hours_injective heq).symm⟩
  · rintro ⟨h, ha, hb⟩
    rw [ha, hb]

/-- An event falls in the window that starts with its hour. -/
theorem window_eq_iff (e : TelemetryReceived) (s : SensorId) (h : ℤ) :
    e.window = (s, hours h) ↔ e.sensorId = s ∧ InHour h e.recordedAt.instant := by
  unfold TelemetryReceived.window
  rw [Prod.mk.injEq, windowStart_instant, inHour_iff]
  have hinj : hours (e.recordedAt.instant / hours 1) = hours h ↔ e.recordedAt.instant / hours 1 = h :=
    ⟨hours_injective, fun heq => by rw [heq]⟩
  rw [hinj]

/-! ## The row of a window -/

/-- The row is the summary of the readings. -/
structure Summarises (row : TelemetryRollup) (es : List TelemetryReceived) : Prop where
  sampleCount : row.sampleCount = es.length
  moisture : Summary row.moistureMin row.moistureMax row.moistureAvg (es.map (·.moisture.value))
  temperature : Summary row.temperatureMin row.temperatureMax row.temperatureAvg (es.map (·.temperature.value))

theorem Summarises.fold {row : TelemetryRollup} {es : List TelemetryReceived} (h : Summarises row es)
    (e : TelemetryReceived) : Summarises (row.fold e.sample) (es ++ [e]) := by
  have hm := h.moisture.append e.moisture.value
  have ht := h.temperature.append e.temperature.value
  rw [List.length_map, ← h.sampleCount] at hm ht
  refine ⟨?_, ?_, ?_⟩
  · simp [TelemetryRollup.fold, h.sampleCount]
  · rw [List.map_append]
    exact hm
  · rw [List.map_append]
    exact ht

/-- Readings folded one after the other into a window that has no row. -/
theorem foldRollup_summarises {es : List TelemetryReceived} (hne : es ≠ []) :
    ∃ row, es.foldl (fun row e => some (foldRollup row e)) none = some row ∧ Summarises row es := by
  induction es using List.reverseRecOn with
  | nil => exact absurd rfl hne
  | append_singleton es e ih =>
    rw [List.foldl_append]
    by_cases hes : es = []
    · subst hes
      exact ⟨e.sample, rfl, rfl, summary_singleton _, summary_singleton _⟩
    · obtain ⟨row, hrow, hsum⟩ := ih hes
      rw [hrow]
      exact ⟨row.fold e.sample, rfl, hsum.fold e⟩

theorem rollups_foldl (es : List TelemetryReceived) (t : ReadTelemetry) :
    (es.foldl onTelemetryReceived t).rollups =
      es.foldl (fun rows e => Keyed.upsert e.window (fun row => foldRollup row e) rows) t.rollups := by
  induction es generalizing t with
  | nil => rfl
  | cons e es ih => exact ih (onTelemetryReceived t e)

/-- The row of a window comes of the readings in it alone. -/
theorem rollup_at (es : List TelemetryReceived) (k : SensorId × Instant) :
    (es.foldl onTelemetryReceived .empty).rollups k =
      (es.filter fun e => e.window = k).foldl (fun row e => some (foldRollup row e)) none := by
  have hstep : ∀ (rows : SensorId × Instant → Option TelemetryRollup) (e : TelemetryReceived) (k : SensorId × Instant),
      Keyed.upsert e.window (fun row => foldRollup row e) rows k =
        if e.window = k then some (foldRollup (rows k) e) else rows k := by
    intro rows e k
    rw [Keyed.upsert_apply]
    simp only [eq_comm]
  rw [rollups_foldl]
  rw [Keyed.foldl_at (fun k row e => if e.window = k then some (foldRollup row e) else row) hstep, List.foldl_filter]
  simp [ReadTelemetry.empty]

/-- The readings of a sensor in an hour of UTC. -/
def readingsOf (es : List TelemetryReceived) (s : SensorId) (h : ℤ) : List TelemetryReceived :=
  es.filter fun e => e.sensorId = s ∧ InHour h e.recordedAt.instant

theorem filter_window (es : List TelemetryReceived) (s : SensorId) (h : ℤ) :
    (es.filter fun e => e.window = (s, hours h)) = readingsOf es s h := by
  unfold readingsOf
  congr 1
  funext e
  simp only [window_eq_iff]

/-- A row has a reading. -/
theorem exists_reading {es : List TelemetryReceived} {k : SensorId × Instant} {row : TelemetryRollup}
    (h : (es.foldl onTelemetryReceived .empty).rollups k = some row) : ∃ e ∈ es, e.window = k := by
  rw [rollup_at] at h
  cases hfs : es.filter fun e => e.window = k with
  | nil =>
    rw [hfs] at h
    cases h
  | cons e fs =>
    have he : e ∈ es.filter fun e => e.window = k := by
      rw [hfs]
      exact List.mem_cons_self ..
    exact ⟨e, (List.mem_filter.1 he).1, of_decide_eq_true (List.mem_filter.1 he).2⟩

/-- In every order of application: one row for each sensor and hour of UTC with a reading and no other
row, each the exact summary of the readings of its hour; and the window of an instant is its hour of UTC,
whatever offset it is written with. -/
theorem rollups_exact (es : List TelemetryReceived) :
    (∀ s h, match (es.foldl onTelemetryReceived .empty).rollups (s, hours h) with
      | none => readingsOf es s h = []
      | some row => readingsOf es s h ≠ [] ∧ Summarises row (readingsOf es s h)) ∧
    (∀ s t row, (es.foldl onTelemetryReceived .empty).rollups (s, t) = some row → ∃ h, t = hours h) ∧
    ∀ a b : AwareDatetime, windowStart a = windowStart b ↔ ∃ h, InHour h a.instant ∧ InHour h b.instant := by
  refine ⟨?_, ?_, windowStart_eq_iff⟩
  · intro s h
    rw [rollup_at, filter_window]
    by_cases hne : readingsOf es s h = []
    · rw [hne]
      rfl
    · obtain ⟨row, hrow, hsum⟩ := foldRollup_summarises hne
      rw [hrow]
      exact ⟨hne, hsum⟩
  · intro s t row hrow
    obtain ⟨e, -, hwindow⟩ := exists_reading hrow
    refine ⟨e.recordedAt.instant / hours 1, ?_⟩
    rw [← windowStart_instant]
    exact (congrArg Prod.snd hwindow).symm

end Plantkeeper.ReadModel
