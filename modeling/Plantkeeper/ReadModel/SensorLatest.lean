/-
`sensor_latest` follows the `Sensor` aggregate. The row of a sensor is there exactly if it has reported;
then it shows the newest reading, the announcement of the current silence and the last of the newest
alerts. Readings have distinct instants, so the aggregate's `>=` and the projection's `>` agree; alerts
of one reading share its instant, and the projection's `<=` keeps the one raised last.
-/
import Mathlib.Data.List.Nodup
import Plantkeeper.Lib.Run
import Plantkeeper.ReadModel.Telemetry

namespace Plantkeeper.ReadModel

open Plantkeeper.Telemetry

/-! ## Runs of the aggregate -/

inductive SensorOperation
  | record (reading : SensorReading)
  | markOffline (now : Instant)
  deriving DecidableEq

/-- A sensor with what it has recorded. -/
structure Recorded where
  sensor : Sensor
  readings : List SensorReading
  events : List Event

/-- A successful operation. -/
def Recorded.step (w : Recorded) : SensorOperation → Option Recorded
  | .record r =>
    match w.sensor.record r with
    | .ok (s, es) => some ⟨s, w.readings ++ [r], w.events ++ es⟩
    | .error _ => none
  | .markOffline now =>
    match w.sensor.markOffline now with
    | .ok (s, es) => some ⟨s, w.readings, w.events ++ es⟩
    | .error _ => none

def Recorded.registered (id : SensorId) (plantId : PlantId) (addedAt : Instant) : Recorded :=
  ⟨.register id plantId addedAt, [], []⟩

/-- The instant of an alert and what it names itself. -/
def alertOf : Event → Option (Instant × AlertType)
  | .soilMoistureLow _ _ _ _ occurredAt => some (occurredAt, .soilMoistureLow)
  | .soilMoistureHigh _ _ _ _ occurredAt => some (occurredAt, .soilMoistureHigh)
  | .temperatureAnomaly _ _ _ _ _ occurredAt => some (occurredAt, .temperatureAnomaly)
  | .telemetryReceived .. | .sensorOffline .. => none

/-- The alert with the greatest instant, and the last raised among those with it. -/
def IsLastAlert (alerts : List (Instant × AlertType)) (a : Instant × AlertType) : Prop :=
  ∃ before after, alerts = before ++ a :: after ∧ (∀ b ∈ before, b.1 ≤ a.1) ∧ ∀ b ∈ after, b.1 < a.1

/-- What the alert columns of a row say of the alerts raised. -/
def ShowsAlerts (row : SensorLatest) (alerts : List (Instant × AlertType)) : Prop :=
  (alerts = [] ∧ row.lastAlertAt = none ∧ row.lastAlertType = none) ∨
    ∃ a, IsLastAlert alerts a ∧ row.lastAlertAt = some a.1 ∧ row.lastAlertType = some a.2

theorem ShowsAlerts.append {row : SensorLatest} {alerts : List (Instant × AlertType)} (h : ShowsAlerts row alerts)
    (a : Instant × AlertType) : ShowsAlerts (recordAlert a.1 a.2 row) (alerts ++ [a]) := by
  rcases h with ⟨rfl, hat, htype⟩ | ⟨b, ⟨before, after, rfl, hbefore, hafter⟩, hat, htype⟩
  · refine .inr ⟨a, ⟨[], [], rfl, by simp, by simp⟩, ?_⟩
    simp [recordAlert, hat]
  · right
    by_cases hle : b.1 ≤ a.1
    · refine ⟨a, ⟨before ++ b :: after, [], rfl, ?_, by simp⟩, ?_⟩
      · intro c hc
        rcases List.mem_append.1 hc with hc | hc
        · exact Int.le_trans (hbefore c hc) hle
        · rcases List.mem_cons.1 hc with rfl | hc
          · exact hle
          · exact Int.le_trans (Int.le_of_lt (hafter c hc)) hle
      · simp [recordAlert, hat, hle]
    · refine ⟨b, ⟨before, after ++ [a], by simp, hbefore, ?_⟩, ?_⟩
      · intro c hc
        rcases List.mem_append.1 hc with hc | hc
        · exact hafter c hc
        · rw [List.mem_singleton.1 hc]
          exact Int.lt_of_not_ge hle
      · simp [recordAlert, hat, htype, hle]

/-! ## The row of the sensor -/

/-- What an event does to the row of a sensor. -/
def actLatest (id : SensorId) (row : Option SensorLatest) : Event → Option SensorLatest
  | .telemetryReceived sensorId plantId recordedAt moisture temperature light _ =>
    if id = sensorId then some (moveLatest row ⟨sensorId, plantId, .utc recordedAt, moisture, temperature, light⟩) else row
  | .soilMoistureLow sensorId _ _ _ occurredAt =>
    if id = sensorId then row.map (recordAlert occurredAt .soilMoistureLow) else row
  | .soilMoistureHigh sensorId _ _ _ occurredAt =>
    if id = sensorId then row.map (recordAlert occurredAt .soilMoistureHigh) else row
  | .temperatureAnomaly sensorId _ _ _ _ occurredAt =>
    if id = sensorId then row.map (recordAlert occurredAt .temperatureAnomaly) else row
  | .sensorOffline sensorId _ _ _ occurredAt => if id = sensorId then row.map (announceOffline occurredAt) else row

theorem latest_projectTelemetry (t : ReadTelemetry) (e : Event) (id : SensorId) :
    (projectTelemetry t e).latest id = actLatest id (t.latest id) e := by
  cases e with
  | telemetryReceived sensorId plantId recordedAt moisture temperature light =>
    exact Keyed.upsert_apply sensorId
      (fun row => moveLatest row ⟨sensorId, plantId, .utc recordedAt, moisture, temperature, light⟩) t.latest id
  | soilMoistureLow sensorId => exact Keyed.modify_apply sensorId _ t.latest id
  | soilMoistureHigh sensorId => exact Keyed.modify_apply sensorId _ t.latest id
  | temperatureAnomaly sensorId => exact Keyed.modify_apply sensorId _ t.latest id
  | sensorOffline sensorId => exact Keyed.modify_apply sensorId _ t.latest id

theorem latest_foldl (es : List Event) (t : ReadTelemetry) (id : SensorId) :
    (es.foldl projectTelemetry t).latest id = es.foldl (actLatest id) (t.latest id) := by
  induction es generalizing t with
  | nil => rfl
  | cons e es ih => rw [List.foldl_cons, List.foldl_cons, ih, latest_projectTelemetry]

/-- An event that raises an alert of the sensor. -/
def AlertsOn (id : SensorId) (e : Event) : Prop :=
  ∃ a, alertOf e = some a ∧ ∀ row, actLatest id (some row) e = some (recordAlert a.1 a.2 row)

/-- Alerts change the alert columns of the row, and nothing else. -/
theorem actLatest_alerts {id : SensorId} {es : List Event} (hes : ∀ e ∈ es, AlertsOn id e) {row : SensorLatest}
    {alerts : List (Instant × AlertType)} (h : ShowsAlerts row alerts) :
    ∃ lastAlertAt lastAlertType,
      es.foldl (actLatest id) (some row) = some { row with lastAlertAt := lastAlertAt, lastAlertType := lastAlertType } ∧
      ShowsAlerts { row with lastAlertAt := lastAlertAt, lastAlertType := lastAlertType } (alerts ++ es.filterMap alertOf) := by
  induction es generalizing row alerts with
  | nil => exact ⟨row.lastAlertAt, row.lastAlertType, rfl, by simpa using h⟩
  | cons e es ih =>
    obtain ⟨a, ha, hact⟩ := hes e (List.mem_cons_self ..)
    have hcolumns : ∃ l ty, recordAlert a.1 a.2 row = { row with lastAlertAt := l, lastAlertType := ty } := by
      unfold recordAlert
      split
      · exact ⟨_, _, rfl⟩
      · exact ⟨row.lastAlertAt, row.lastAlertType, rfl⟩
    obtain ⟨l, ty, hrow⟩ := hcolumns
    obtain ⟨l', ty', hfold, hshows⟩ := ih (fun e he => hes e (List.mem_cons_of_mem _ he)) (h.append a)
    refine ⟨l', ty', ?_, ?_⟩
    · rw [List.foldl_cons, hact, hfold, hrow]
    · rw [hrow] at hshows
      rw [List.filterMap_cons, ha]
      simpa using hshows

theorem alertsOn_of_mem_ite {p : Prop} [Decidable p] {id : SensorId} {alert e : Event}
    (halert : AlertsOn id alert) (he : e ∈ if p then [alert] else []) : AlertsOn id e := by
  split at he
  · rw [List.mem_singleton.1 he]
    exact halert
  · cases he

/-- The events of a reading: that it was received, then its alerts. -/
theorem events_eq (s : Sensor) (r : SensorReading) : ∃ alerts, (∀ e ∈ alerts, AlertsOn s.id e) ∧
    s.events r = .telemetryReceived s.id s.plantId r.recordedAt r.moisture r.temperature r.light r.recordedAt :: alerts := by
  unfold Sensor.events
  refine ⟨_, ?_, by rw [List.append_assoc, List.append_assoc, List.singleton_append]⟩
  intro e he
  simp only [List.mem_append] at he
  rcases he with he | he | he
  all_goals
    refine alertsOn_of_mem_ite ?_ he
    exact ⟨_, rfl, fun row => if_pos rfl⟩

/-! ## The simulation -/

/-- The row shows the newest reading, the announced silence and the last of the newest alerts. -/
structure Shows (row : SensorLatest) (w : Recorded) : Prop where
  plant : row.plantId = w.sensor.plantId
  newest : ∃ r ∈ w.readings, (∀ r' ∈ w.readings, r'.recordedAt ≤ r.recordedAt) ∧ row.recordedAt = r.recordedAt ∧
    row.moisture = r.moisture.value ∧ row.temperature = r.temperature.value ∧ row.light = r.light.value
  seen : w.sensor.lastSeenAt = some row.recordedAt
  offline : row.offlineAt = w.sensor.offlineAnnouncedAt
  alerts : ShowsAlerts row (w.events.filterMap alertOf)

/-- The row of the sensor against the sensor. One that has not reported has no row. -/
def Follows (row : Option SensorLatest) (w : Recorded) : Prop :=
  match row with
  | none => w.readings = [] ∧ w.events = [] ∧ w.sensor.lastSeenAt = none
  | some row => Shows row w

section

variable {id : SensorId} {w w' : Recorded} {row : Option SensorLatest}

/-- The newest of the readings, when one more comes. -/
theorem newest_append {readings : List SensorReading} {r r₀ : SensorReading}
    (h : ∀ r' ∈ readings, r'.recordedAt ≤ r₀.recordedAt) (hr : r.recordedAt ≤ r₀.recordedAt) :
    ∀ r' ∈ readings ++ [r], r'.recordedAt ≤ r₀.recordedAt := by
  intro r' hr'
  rcases List.mem_append.1 hr' with hr' | hr'
  · exact h r' hr'
  · rw [List.mem_singleton.1 hr']
    exact hr

/-- A newer reading moves the row and the sensor's silence state. -/
theorem Shows.newer {row : SensorLatest} (h : Shows row w) {r : SensorReading} (hlt : row.recordedAt < r.recordedAt)
    {events : List Event} (hevents : events.filterMap alertOf = w.events.filterMap alertOf) :
    Shows ⟨w.sensor.plantId, r.recordedAt, r.moisture.value, r.temperature.value, r.light.value, none, row.lastAlertAt,
      row.lastAlertType⟩ ⟨w.sensor.seen r.recordedAt, w.readings ++ [r], events⟩ := by
  obtain ⟨r₀, -, hgreatest, hat, -⟩ := h.newest
  have hsensor : w.sensor.seen r.recordedAt = { w.sensor with lastSeenAt := some r.recordedAt, offlineAnnouncedAt := none } := by
    simp [Sensor.seen, h.seen, Int.le_of_lt hlt]
  rw [hsensor]
  refine ⟨rfl, ⟨r, by simp, newest_append (fun r' hr' => ?_) (Int.le_refl _), rfl, rfl, rfl, rfl⟩, rfl, rfl, ?_⟩
  · exact Int.le_trans (hgreatest r' hr') (hat ▸ Int.le_of_lt hlt)
  · rw [hevents]
    exact h.alerts

/-- An older one moves neither. -/
theorem Shows.older {row : SensorLatest} (h : Shows row w) {r : SensorReading} (hgt : r.recordedAt < row.recordedAt)
    {events : List Event} (hevents : events.filterMap alertOf = w.events.filterMap alertOf) :
    Shows row ⟨w.sensor.seen r.recordedAt, w.readings ++ [r], events⟩ := by
  obtain ⟨r₀, hr₀, hgreatest, hat, hvalues⟩ := h.newest
  have hsensor : w.sensor.seen r.recordedAt = w.sensor := by
    simp [Sensor.seen, h.seen, Int.not_le.2 hgt]
  rw [hsensor]
  refine ⟨h.plant, ⟨r₀, List.mem_append_left _ hr₀, newest_append hgreatest ?_, hat, hvalues⟩, h.seen, h.offline, ?_⟩
  · exact hat ▸ Int.le_of_lt hgt
  · rw [hevents]
    exact h.alerts

/-- The reading itself. The row moves exactly if the sensor's silence state does. -/
theorem shows_received {r : SensorReading} {e : TelemetryReceived} (he : e = ⟨w.sensor.id, w.sensor.plantId, .utc r.recordedAt,
      r.moisture, r.temperature, r.light⟩) (h : Follows row w) (hfresh : r.recordedAt ∉ w.readings.map (·.recordedAt))
    {events : List Event} (hevents : events.filterMap alertOf = w.events.filterMap alertOf) :
    Shows (moveLatest row e) ⟨w.sensor.seen r.recordedAt, w.readings ++ [r], events⟩ := by
  have hinstant : (AwareDatetime.utc r.recordedAt).instant = r.recordedAt := Int.sub_zero _
  subst he
  cases row with
  | none =>
    -- the first reading makes the row
    obtain ⟨hreadings, hnone, hseen⟩ := h
    refine ⟨?_, ⟨r, by simp, by simp [hreadings], hinstant, rfl, rfl, rfl⟩, ?_, ?_, .inl ⟨?_, rfl, rfl⟩⟩
    · simp [moveLatest, Sensor.seen, hseen]
    · simp [moveLatest, Sensor.seen, hseen, hinstant]
    · simp [moveLatest, Sensor.seen, hseen]
    · rw [hevents, hnone]
      rfl
  | some row =>
    have hne : r.recordedAt ≠ row.recordedAt := by
      obtain ⟨r₀, hr₀, -, hat, -⟩ := h.newest
      intro heq
      exact hfresh (List.mem_map.2 ⟨r₀, hr₀, (heq.trans hat).symm⟩)
    simp only [moveLatest, hinstant]
    split
    · rename_i hlt
      exact h.newer hlt hevents
    · rename_i hlt
      exact h.older (lt_of_le_of_ne (Int.not_lt.1 hlt) hne) hevents

theorem follows_record {r : SensorReading} (hid : w.sensor.id = id) (h : Follows row w)
    (hfresh : r.recordedAt ∉ w.readings.map (·.recordedAt)) :
    Follows ((w.sensor.events r).foldl (actLatest id) row)
      ⟨w.sensor.seen r.recordedAt, w.readings ++ [r], w.events ++ w.sensor.events r⟩ := by
  obtain ⟨alerts, halerts, hevents⟩ := events_eq w.sensor r
  subst hid
  have hreceived := shows_received rfl h hfresh rfl
  obtain ⟨l, ty, hfold, hshows⟩ := actLatest_alerts halerts hreceived.alerts
  rw [hevents, List.foldl_cons]
  simp only [actLatest, ↓reduceIte]
  rw [hfold]
  refine ⟨hreceived.plant, hreceived.newest, hreceived.seen, hreceived.offline, ?_⟩
  rw [List.filterMap_append, List.filterMap_cons]
  exact hshows

/-- The announcement of a silence finds the row: the sensor has been seen. -/
theorem follows_markOffline {now : Instant} {s : Sensor} {es : List Event} (hid : w.sensor.id = id) (h : Follows row w)
    (hop : w.sensor.markOffline now = .ok (s, es)) : Follows (es.foldl (actLatest id) row) ⟨s, w.readings, w.events ++ es⟩ := by
  subst hid
  obtain ⟨last, hlast, rfl, rfl⟩ := Sensor.markOffline_ok hop
  cases row with
  | none =>
    rw [h.2.2] at hlast
    cases hlast
  | some row =>
    simp only [List.foldl_cons, List.foldl_nil, actLatest, ↓reduceIte, Option.map_some]
    refine ⟨h.plant, h.newest, h.seen, rfl, ?_⟩
    rw [List.filterMap_append, List.filterMap_cons_none rfl, List.filterMap_nil, List.append_nil]
    exact h.alerts

/-- One successful operation. -/
theorem follows_step {op : SensorOperation} (hid : w.sensor.id = id) (h : Follows row w)
    (hfresh : ∀ r, op = .record r → r.recordedAt ∉ w.readings.map (·.recordedAt)) (hstep : w.step op = some w') :
    w'.sensor.id = id ∧ ∃ es, w'.events = w.events ++ es ∧ Follows (es.foldl (actLatest id) row) w' := by
  cases op with
  | record r =>
    simp only [Recorded.step, Sensor.record] at hstep
    by_cases hsensor : r.sensorId ≠ w.sensor.id
    · rw [if_pos hsensor] at hstep
      cases hstep
    · rw [if_neg hsensor] at hstep
      cases hstep
      exact ⟨(Sensor.seen_id ..).trans hid, _, rfl, follows_record hid h (hfresh r rfl)⟩
  | markOffline now =>
    simp only [Recorded.step] at hstep
    cases hop : w.sensor.markOffline now with
    | error e =>
      rw [hop] at hstep
      cases hstep
    | ok result =>
      obtain ⟨s, es⟩ := result
      rw [hop] at hstep
      cases hstep
      refine ⟨?_, es, rfl, follows_markOffline hid h hop⟩
      obtain ⟨last, -, rfl, -⟩ := Sensor.markOffline_ok hop
      exact hid

/-- The readings of a list of operations. -/
def readingsIn (ops : List SensorOperation) : List SensorReading :=
  ops.filterMap fun
    | .record r => some r
    | .markOffline _ => none

theorem follows_run {t : ReadTelemetry} {ops : List SensorOperation} (hid : w.sensor.id = id)
    (h : Follows ((w.events.foldl projectTelemetry t).latest id) w)
    (hfresh : ((w.readings ++ readingsIn ops).map (·.recordedAt)).Nodup) (hrun : Run.run Recorded.step w ops = some w') :
    Follows ((w'.events.foldl projectTelemetry t).latest id) w' ∧ w'.readings = w.readings ++ readingsIn ops := by
  induction ops generalizing w with
  | nil =>
    cases hrun
    exact ⟨h, by simp [readingsIn]⟩
  | cons op ops ih =>
    obtain ⟨v, hv, hrun⟩ := Run.run_cons.1 hrun
    have hop : ∀ r, op = .record r → r.recordedAt ∉ w.readings.map (·.recordedAt) := by
      rintro r rfl hmem
      rw [List.map_append, List.nodup_append'] at hfresh
      exact hfresh.2.2 hmem (by simp [readingsIn])
    obtain ⟨hid', es, hes, hfollows⟩ := follows_step hid h hop hv
    have hreadings : v.readings ++ readingsIn ops = w.readings ++ readingsIn (op :: ops) := by
      cases op with
      | record r =>
        simp only [Recorded.step] at hv
        split at hv
        · cases hv
          simp [readingsIn]
        · cases hv
      | markOffline now =>
        simp only [Recorded.step] at hv
        split at hv
        · cases hv
          simp [readingsIn]
        · cases hv
    rw [← hreadings] at hfresh ⊢
    refine ih hid' ?_ hfresh hrun
    rw [hes, List.foldl_append, latest_foldl]
    exact hfollows

end

/-- Along every run of successful operations on one sensor, with readings of distinct instants in any
order, the row that the projection of its events leaves for the sensor shows the newest reading, the
announced silence and the last of the newest alerts; there is none as long as there is no reading. -/
theorem sensor_latest_refines {id : SensorId} {plantId : PlantId} {addedAt : Instant} {ops : List SensorOperation}
    {w : Recorded} {t : ReadTelemetry} (hrun : Run.run Recorded.step (.registered id plantId addedAt) ops = some w)
    (hdistinct : ((readingsIn ops).map (·.recordedAt)).Nodup) (hnew : t.latest id = none) :
    w.readings = readingsIn ops ∧ match (w.events.foldl projectTelemetry t).latest id with
      | none => readingsIn ops = []
      | some row => Shows row w := by
  have hstart : Follows (((Recorded.registered id plantId addedAt).events.foldl projectTelemetry t).latest id)
      (.registered id plantId addedAt) := by
    show Follows (t.latest id) _
    rw [hnew]
    exact ⟨rfl, rfl, rfl⟩
  have hid : (Recorded.registered id plantId addedAt).sensor.id = id := rfl
  obtain ⟨hfollows, hreadings⟩ := follows_run hid hstart hdistinct hrun
  refine ⟨hreadings, ?_⟩
  cases hrow : (w.events.foldl projectTelemetry t).latest id with
  | none =>
    rw [hrow] at hfollows
    exact hreadings.symm.trans hfollows.1
  | some row =>
    rw [hrow] at hfollows
    exact hfollows

/-- A dry reading, a silence, then a late reading that is older and a newer one that is cold. -/
def dryThenCold : List SensorOperation :=
  [.record ⟨5, seconds 100, ⟨12, by decide, by decide⟩, ⟨21, by decide, by decide⟩, ⟨310, by decide⟩⟩, .markOffline (seconds 900),
    .record ⟨5, seconds 50, ⟨88, by decide, by decide⟩, ⟨21, by decide, by decide⟩, ⟨310, by decide⟩⟩,
    .record ⟨5, seconds 800, ⟨52, by decide, by decide⟩, ⟨6, by decide, by decide⟩, ⟨310, by decide⟩⟩]

theorem run_dryThenCold : (Run.run Recorded.step (.registered 5 7 0) dryThenCold).isSome := by decide

theorem sensor_latest_refines_late : ∃ w, Run.run Recorded.step (.registered 5 7 0) dryThenCold = some w ∧
    ∃ row, (w.events.foldl projectTelemetry .empty).latest 5 = some row ∧ row.recordedAt = seconds 800 ∧ Shows row w := by
  have hrun := (Option.some_get run_dryThenCold).symm
  have hshows := (sensor_latest_refines (t := .empty) hrun (by decide) rfl).2
  exact ⟨_, hrun, _, rfl, rfl, hshows⟩

end Plantkeeper.ReadModel
