/-
Telemetry ingest is idempotent. Over every sequence of deliveries, retries and crashes the readings table
has one row for each key that was ingested, with the measurement that was ingested first, and the outbox
is the announcements of the rows and nothing else of a reading. An attempt that inserted holds its key
until it commits or is given up, so no two attempts commit one key.
-/
import Plantkeeper.Lib.Table
import Plantkeeper.Telemetry.Ingress

namespace Plantkeeper.Telemetry.Ingress

open Plantkeeper.Run

variable {Payload V : Type} {json : Json Payload V}

/-! ## What is announced of a row -/

/-- Whether the event tells of a reading: all but the announcement of a silence do. -/
def ofReading : Event → Bool
  | .sensorOffline .. => false
  | _ => true

/-- The thresholds the stored measurement crosses. -/
def alerts (r : TelemetryReading) : List Event :=
  (if r.moisture.value < MOISTURE_LOW_THRESHOLD then
    [.soilMoistureLow r.sensorId r.plantId r.moisture MOISTURE_LOW_THRESHOLD r.recordedAt] else []) ++
  (if MOISTURE_HIGH_THRESHOLD < r.moisture.value then
    [.soilMoistureHigh r.sensorId r.plantId r.moisture MOISTURE_HIGH_THRESHOLD r.recordedAt] else []) ++
  (if r.temperature.value < TEMPERATURE_LOW_THRESHOLD ∨ TEMPERATURE_HIGH_THRESHOLD < r.temperature.value then
    [.temperatureAnomaly r.sensorId r.plantId r.temperature TEMPERATURE_LOW_THRESHOLD TEMPERATURE_HIGH_THRESHOLD r.recordedAt]
    else [])

def announcements (r : TelemetryReading) : List Event :=
  .telemetryReceived r.sensorId r.plantId r.recordedAt r.moisture r.temperature r.light r.recordedAt :: alerts r

/-- What the aggregate says of a reading is what is announced of its row. -/
theorem events_eq {sensor : Sensor} {m : SensorReading} (h : sensor.id = m.sensorId) :
    sensor.events m = announcements (stored m sensor) := by
  unfold Sensor.events announcements alerts
  rw [h, List.append_assoc, List.append_assoc, List.singleton_append, ← List.append_assoc]
  rfl

theorem ofReading_announcements (r : TelemetryReading) : ∀ e ∈ announcements r, ofReading e = true := by
  intro e he
  unfold announcements alerts at he
  simp only [List.mem_cons, List.mem_append] at he
  rcases he with rfl | (he | he) | he
  · rfl
  all_goals
    split at he
    · rw [List.mem_singleton] at he
      subst he; rfl
    · cases he

@[simp] theorem key_stored (m : SensorReading) (sensor : Sensor) : (stored m sensor).key = m.key := rfl

theorem conflicts_iff {r : TelemetryReading} {readings : List TelemetryReading} :
    conflicts r readings = true ↔ r.key ∈ readings.map TelemetryReading.key := by
  simp [conflicts, TelemetryReading.key]

/-! ## The invariant -/

def Delivered (json : Json Payload V) (w : World Payload) (m : SensorReading) : Prop :=
  ∃ payload ∈ w.delivered, parseRawReading json payload = some m

/-- The registry names the plant for the sensor. -/
def Registered (w : World Payload) (id : SensorId) (plantId : PlantId) : Prop :=
  ∃ row, w.sensors id = some row ∧ row.plantId = plantId

/-- A copy of the aggregate a transaction has: its identity is never changed. -/
def Copy (w : World Payload) (m : SensorReading) (sensor : Sensor) : Prop :=
  sensor.id = m.sensorId ∧ Registered w sensor.id sensor.plantId

/-- An attempt that has inserted: what it is about to commit, and that it holds the key. -/
structure Inserted (w : World Payload) (i : ℕ) (m : SensorReading) (sensor copy : Sensor) (events : List Event) : Prop where
  read : Copy w m sensor
  saved : Copy w m copy
  events : events = announcements (stored m sensor)
  holds : (i, m.key) ∈ w.inserted

def AttemptOk (w : World Payload) (i : ℕ) : Attempt → Prop
  | .get _ => True
  | .addMany m sensor => Copy w m sensor
  | .save m sensor copy events => Inserted w i m sensor copy events
  | .commit m sensor copy events seen => Inserted w i m sensor copy events ∧ Copy w m seen

def Attempt.reading : Attempt → SensorReading
  | .get m | .addMany m _ | .save m .. | .commit m .. => m

/-- A stored row is the reading of its key that was ingested first, with the plant of the registry. -/
def First (w : World Payload) (r : TelemetryReading) : Prop :=
  ∃ m sensor, w.ingested.find? (fun m => m.key = r.key) = some m ∧ Copy w m sensor ∧ r = stored m sensor

structure Inv (json : Json Payload V) (w : World Payload) : Prop where
  nodup : (w.readings.map TelemetryReading.key).Nodup
  first : ∀ r ∈ w.readings, First w r
  ingested : ∀ m ∈ w.ingested, m.key ∈ w.readings.map TelemetryReading.key ∧ Delivered json w m
  announced : w.outbox.filter ofReading = w.readings.flatMap announcements
  sensors : ∀ id row, w.sensors id = some row → row.id = id
  attempts : ∀ i pc, w.attempts i = some pc → AttemptOk w i pc ∧ Delivered json w pc.reading
  held : (w.inserted.map (·.2)).Nodup
  fresh : ∀ e ∈ w.inserted, e.2 ∉ w.readings.map TelemetryReading.key

theorem inv_empty : Inv json World.empty where
  nodup := List.nodup_nil
  first := by intro r hr; cases hr
  ingested := by intro m hm; cases hm
  announced := rfl
  sensors := by intro id row h; cases h
  attempts := by intro i pc h; cases h
  held := List.nodup_nil
  fresh := by intro e he; cases he

section

variable {w w' : World Payload} {i j : ℕ} {m : SensorReading} {sensor copy seen row : Sensor} {events : List Event}

/-! ## What the registry keeps -/

/-- The registry still names every plant it named. -/
def Keeps (w w' : World Payload) : Prop :=
  ∀ id plantId, Registered w id plantId → Registered w' id plantId

theorem keeps_of_eq (h : w'.sensors = w.sensors) : Keeps w w' := by
  rintro id plantId ⟨row, hrow, hp⟩
  exact ⟨row, h ▸ hrow, hp⟩

/-- A row is replaced by one that names the same plant. -/
theorem keeps_update {row' : Sensor} (hrow : w.sensors row.id = some row)
    (h : w'.sensors = Function.update w.sensors row.id (some row')) (hp : row'.plantId = row.plantId) : Keeps w w' := by
  rintro id plantId ⟨known, hknown, rfl⟩
  by_cases hid : id = row.id
  · subst hid
    rw [hrow] at hknown
    cases hknown
    exact ⟨row', by rw [h, Function.update_self], hp⟩
  · exact ⟨known, by rw [h, Function.update_of_ne hid]; exact hknown, rfl⟩

theorem Copy.mono (hk : Keeps w w') (h : Copy w m sensor) : Copy w' m sensor := ⟨h.1, hk _ _ h.2⟩

/-- Copies of one sensor agree on its plant. -/
theorem Copy.plantId_eq (h : Copy w m sensor) (h' : Copy w m copy) : sensor.plantId = copy.plantId := by
  obtain ⟨hid, row, hrow, hp⟩ := h
  obtain ⟨hid', row', hrow', hp'⟩ := h'
  rw [hid] at hrow
  rw [hid', hrow] at hrow'
  cases hrow'
  exact hp.symm.trans hp'

/-- The row a copy was made of is such a copy itself. -/
theorem copy_row (hi : Inv json w) (hc : copy.id = m.sensorId) (hrow : w.sensors copy.id = some row) : Copy w m row := by
  have hid := hi.sensors _ _ hrow
  exact ⟨hid.trans hc, row, by rw [hid]; exact hrow, rfl⟩

theorem AttemptOk.mono {pc : Attempt} (hk : Keeps w w') (hheld : ∀ key, (i, key) ∈ w.inserted → (i, key) ∈ w'.inserted)
    (h : AttemptOk w i pc) : AttemptOk w' i pc := by
  cases pc with
  | get _ => trivial
  | addMany m sensor => exact Copy.mono hk h
  | save m sensor copy events => exact ⟨h.read.mono hk, h.saved.mono hk, h.events, hheld _ h.holds⟩
  | commit m sensor copy events seen =>
    obtain ⟨h, hseen⟩ := h
    exact ⟨⟨h.read.mono hk, h.saved.mono hk, h.events, hheld _ h.holds⟩, hseen.mono hk⟩

theorem First.mono {r : TelemetryReading} {more : List SensorReading} (hk : Keeps w w')
    (hg : w'.ingested = w.ingested ++ more) (h : First w r) : First w' r := by
  obtain ⟨m, sensor, hm, hc, rfl⟩ := h
  exact ⟨m, sensor, by rw [hg, List.find?_append, hm, Option.some_or], hc.mono hk, rfl⟩

/-! ## The statements -/

theorem Inv.goto {pc : Attempt} (hi : Inv json w) (hok : AttemptOk w i pc) (hd : Delivered json w pc.reading) :
    Inv json (w.goto i pc) := by
  have hk : Keeps w (w.goto i pc) := keeps_of_eq rfl
  refine ⟨hi.nodup, fun r hr => (hi.first r hr).mono hk (List.append_nil _).symm, hi.ingested, hi.announced,
    hi.sensors, ?_, hi.held, hi.fresh⟩
  intro j pc' h
  change Function.update w.attempts i (some pc) j = some pc' at h
  rcases update_eq_some.1 h with ⟨rfl, hpc⟩ | ⟨_, hpc⟩
  · cases hpc
    exact ⟨hok.mono hk fun _ h => h, hd⟩
  · obtain ⟨hok', hd'⟩ := hi.attempts j pc' hpc
    exact ⟨hok'.mono hk fun _ h => h, hd'⟩

theorem Inv.close (hi : Inv json w) (i : ℕ) : Inv json (w.close i) := by
  have hk : Keeps w (w.close i) := keeps_of_eq rfl
  refine ⟨hi.nodup, fun r hr => (hi.first r hr).mono hk (List.append_nil _).symm, hi.ingested, hi.announced,
    hi.sensors, ?_, hi.held.sublist (List.filter_sublist.map _), fun e he => hi.fresh e (List.mem_filter.1 he).1⟩
  intro j pc h
  obtain ⟨hj, h⟩ := eq_some_of_remove h
  obtain ⟨hok, hd⟩ := hi.attempts j pc h
  exact ⟨hok.mono hk fun _ h => List.mem_filter.2 ⟨h, by simpa using hj⟩, hd⟩

/-- A delivery, a registration and the silence timer leave the readings and what was announced of them. -/
theorem Inv.env (hi : Inv json w) (hk : Keeps w w') (hs : ∀ id row, w'.sensors id = some row → row.id = id)
    (hr : w'.readings = w.readings) (ho : w'.outbox.filter ofReading = w.outbox.filter ofReading)
    (ha : w'.attempts = w.attempts) (hh : w'.inserted = w.inserted) (hd : ∀ p ∈ w.delivered, p ∈ w'.delivered)
    (hg : w'.ingested = w.ingested) : Inv json w' where
  nodup := by rw [hr]; exact hi.nodup
  first := by
    intro r h
    rw [hr] at h
    exact (hi.first r h).mono hk (by rw [hg, List.append_nil])
  ingested := by
    intro m hm
    rw [hg] at hm
    obtain ⟨hstored, payload, hp, hparse⟩ := hi.ingested m hm
    exact ⟨by rw [hr]; exact hstored, payload, hd _ hp, hparse⟩
  announced := by rw [ho, hr]; exact hi.announced
  sensors := hs
  attempts := by
    intro j pc h
    rw [ha] at h
    obtain ⟨hok, payload, hp, hparse⟩ := hi.attempts j pc h
    exact ⟨hok.mono hk fun _ h => by rw [hh]; exact h, payload, hd _ hp, hparse⟩
  held := by rw [hh]; exact hi.held
  fresh := by rw [hh, hr]; exact hi.fresh

/-- The insert of a key that no row and no open transaction has. -/
theorem Inv.insert (hi : Inv json w) (hrow : m.key ∉ w.readings.map TelemetryReading.key)
    (hopen : m.key ∉ w.inserted.map (·.2)) : Inv json (w.insert i m.key) := by
  have hk : Keeps w (w.insert i m.key) := keeps_of_eq rfl
  refine ⟨hi.nodup, fun r hr => (hi.first r hr).mono hk (List.append_nil _).symm, hi.ingested, hi.announced,
    hi.sensors, ?_, Table.nodup_insert hi.held hopen, ?_⟩
  · intro j pc h
    obtain ⟨hok, hd⟩ := hi.attempts j pc h
    exact ⟨hok.mono hk fun _ h => List.mem_append_left _ h, hd⟩
  · intro e he
    rcases List.mem_append.1 he with he | he
    · exact hi.fresh e he
    · rw [List.mem_singleton.1 he]
      exact hrow

/-- A reading that is found stored was ingested once more. -/
theorem Inv.ingest (hi : Inv json w) (hrow : m.key ∈ w.readings.map TelemetryReading.key) (hd : Delivered json w m) :
    Inv json (w.ingest m) := by
  have hk : Keeps w (w.ingest m) := keeps_of_eq rfl
  refine ⟨hi.nodup, fun r hr => (hi.first r hr).mono hk rfl, ?_, hi.announced, hi.sensors,
    fun j pc h => (hi.attempts j pc h).imp (AttemptOk.mono hk fun _ h => h) id, hi.held, hi.fresh⟩
  intro q hq
  rcases List.mem_append.1 hq with hq | hq
  · exact hi.ingested q hq
  · rw [List.mem_singleton.1 hq]
    exact ⟨hrow, hd⟩

theorem merge_id (h : copy.id = seen.id) : (Telemetry.sensors.merge seen copy row).id = row.id :=
  Columns.get_merge_of_eq (C := Telemetry.sensors) (c := Column.id) h

theorem merge_plantId (h : copy.plantId = seen.plantId) : (Telemetry.sensors.merge seen copy row).plantId = row.plantId :=
  Columns.get_merge_of_eq (C := Telemetry.sensors) (c := Column.plantId) h

/-- The commit of an attempt that holds its key: the row is the first of the key, and its announcements go
with it. -/
theorem Inv.commit (hi : Inv json w) (hins : Inserted w i m sensor copy events) (hseen : Copy w m seen)
    (hd : Delivered json w m) (hrow : w.sensors copy.id = some row) :
    Inv json (((w.close i).commit (stored m sensor) events copy seen row).ingest m) := by
  have hc : Copy w m row := copy_row hi hins.saved.1 hrow
  have hid : copy.id = row.id := (hi.sensors _ _ hrow).symm
  have hrow' : w.sensors row.id = some row := by rw [← hid]; exact hrow
  have hmid : (Telemetry.sensors.merge seen copy row).id = row.id := merge_id (hins.saved.1.trans hseen.1.symm)
  have hmplant : (Telemetry.sensors.merge seen copy row).plantId = row.plantId := merge_plantId (hins.saved.plantId_eq hseen)
  have hk : Keeps w (((w.close i).commit (stored m sensor) events copy seen row).ingest m) :=
    keeps_update hrow' rfl hmplant
  have hfresh : m.key ∉ w.readings.map TelemetryReading.key := hi.fresh _ hins.holds
  have hkeys : ((w.readings ++ [stored m sensor]).map TelemetryReading.key) =
      w.readings.map TelemetryReading.key ++ [m.key] := by
    rw [List.map_append]; rfl
  refine ⟨Table.nodup_insert hi.nodup hfresh, ?_, ?_, ?_, ?_, ?_, ?_, ?_⟩
  · intro r hr
    rcases List.mem_append.1 hr with hr | hr
    · exact (hi.first r hr).mono hk rfl
    · rw [List.mem_singleton] at hr
      subst hr
      refine ⟨m, sensor, ?_, hins.read.mono hk, rfl⟩
      -- no reading of the key was ingested before, as none is stored
      have hnone : w.ingested.find? (fun q => q.key = (stored m sensor).key) = none := by
        rw [List.find?_eq_none]
        intro q hq hkey
        rw [decide_eq_true_eq, key_stored] at hkey
        exact hfresh (hkey ▸ (hi.ingested q hq).1)
      show (w.ingested ++ [m]).find? _ = some m
      rw [List.find?_append, hnone, Option.none_or]
      simp
  · intro q hq
    show q.key ∈ (w.readings ++ [stored m sensor]).map TelemetryReading.key ∧ _
    rw [hkeys]
    rcases List.mem_append.1 hq with hq | hq
    · exact ⟨List.mem_append_left _ (hi.ingested q hq).1, (hi.ingested q hq).2⟩
    · rw [List.mem_singleton.1 hq]
      exact ⟨List.mem_append_right _ (List.mem_singleton_self _), hd⟩
  · have hall : events.filter ofReading = events := by
      rw [hins.events]
      exact List.filter_eq_self.2 (ofReading_announcements _)
    show (w.outbox ++ events).filter ofReading = (w.readings ++ [stored m sensor]).flatMap announcements
    rw [List.filter_append, hi.announced, hall, List.flatMap_append, List.flatMap_singleton, hins.events]
  · intro id row' h
    rcases update_eq_some.1 h with ⟨rfl, hset⟩ | ⟨_, hold⟩
    · cases hset
      exact hmid
    · exact hi.sensors id row' hold
  · intro j pc h
    obtain ⟨hok, hdel⟩ := (hi.close i).attempts j pc h
    have hk' : Keeps (w.close i) (((w.close i).commit (stored m sensor) events copy seen row).ingest m) := hk
    exact ⟨hok.mono hk' fun _ h => h, hdel⟩
  · exact (hi.close i).held
  · -- another open transaction holds another key
    intro e he
    obtain ⟨he, hne⟩ := List.mem_filter.1 he
    show e.2 ∉ (w.readings ++ [stored m sensor]).map TelemetryReading.key
    rw [hkeys, List.mem_append, List.mem_singleton, not_or]
    refine ⟨hi.fresh e he, fun hkey => ?_⟩
    have : e = (i, m.key) := List.inj_on_of_nodup_map hi.held he hins.holds hkey
    simp [this] at hne

/-! ## The steps -/

theorem inv_execute {pc : Attempt} (hi : Inv json w) (hpc : w.attempts i = some pc) (h : w.execute i pc = some w') :
    Inv json w' := by
  obtain ⟨hok, hd⟩ := hi.attempts i pc hpc
  cases pc with
  | get m =>
    simp only [World.execute] at h
    split at h
    · cases h
      exact hi.close i
    · rename_i sensor hsensor
      cases h
      have hid : sensor.id = m.sensorId := hi.sensors _ _ hsensor
      exact hi.goto ⟨hid, sensor, by rw [hid]; exact hsensor, rfl⟩ hd
  | addMany m sensor =>
    simp only [World.execute] at h
    split at h
    · rename_i hstored
      cases h
      exact (hi.close i).ingest (conflicts_iff.1 hstored) hd
    · rename_i hstored
      split at h
      · cases h
      · rename_i hopen
        split at h
        · cases h
          exact hi.close i
        · rename_i copy events hrecord
          cases h
          obtain ⟨rfl, rfl⟩ := Sensor.record_ok hrecord
          have hrow : m.key ∉ w.readings.map TelemetryReading.key := fun hm => hstored (conflicts_iff.2 hm)
          have hfree : m.key ∉ w.inserted.map (·.2) := by simpa using hopen
          have hread : Copy (w.insert i m.key) m sensor := Copy.mono (keeps_of_eq rfl) hok
          have hsaved : Copy (w.insert i m.key) m (sensor.seen m.recordedAt) := by
            refine ⟨(sensor.seen_id _).trans hread.1, ?_⟩
            rw [Sensor.seen_id, Sensor.seen_plantId]
            exact hread.2
          exact (hi.insert hrow hfree).goto
            ⟨hread, hsaved, events_eq hread.1, List.mem_append_right _ (List.mem_singleton_self _)⟩ hd
  | save m sensor copy events =>
    obtain ⟨seen, hseen, rfl⟩ := Option.map_eq_some_iff.1 h
    exact hi.goto ⟨hok, copy_row hi hok.saved.1 hseen⟩ hd
  | commit m sensor copy events seen =>
    obtain ⟨row, hrow, rfl⟩ := Option.map_eq_some_iff.1 h
    exact hi.commit hok.1 hok.2 hd hrow

theorem inv_step {a : Action Payload} (hi : Inv json w) (h : step json w a = some w') : Inv json w' := by
  cases a with
  | deliver i payload =>
    have hdelivered : Inv json { w with delivered := w.delivered ++ [payload] } :=
      hi.env (keeps_of_eq rfl) hi.sensors rfl rfl rfl rfl (fun p hp => List.mem_append_left _ hp) rfl
    simp only [step] at h
    split at h
    · cases h
    · cases h
      exact hdelivered
    · rename_i m _ hparse
      cases h
      exact hdelivered.goto trivial ⟨payload, List.mem_append_right _ (List.mem_singleton_self _), hparse⟩
  | execute i =>
    obtain ⟨pc, hpc, h⟩ := Option.bind_eq_some_iff.1 h
    exact inv_execute hi hpc h
  | giveUp i =>
    cases h
    exact hi.close i
  | register id plantId addedAt =>
    simp only [step] at h
    split at h
    · rename_i hnone
      cases h
      refine hi.env ?_ ?_ rfl rfl rfl rfl (fun _ hp => hp) rfl
      · rintro id' plantId' ⟨row, hrow, hp⟩
        have hne : id' ≠ id := by
          rintro rfl
          rw [hnone] at hrow
          cases hrow
        exact ⟨row, (Function.update_of_ne hne _ _).trans hrow, hp⟩
      · intro id' row hrow
        rcases update_eq_some.1 hrow with ⟨rfl, hset⟩ | ⟨_, hold⟩
        · cases hset; rfl
        · exact hi.sensors id' row hold
    · cases h
  | silence id lastSeenAt offlineAnnouncedAt last now =>
    obtain ⟨row, hrow, rfl⟩ := Option.map_eq_some_iff.1 h
    have hid : row.id = id := hi.sensors _ _ hrow
    refine hi.env (keeps_update (by rw [hid]; exact hrow) rfl rfl) ?_ rfl ?_ rfl rfl (fun _ hp => hp) rfl
    · intro id' row' hrow'
      rcases update_eq_some.1 hrow' with ⟨rfl, hset⟩ | ⟨_, hold⟩
      · cases hset; rfl
      · exact hi.sensors id' row' hold
    · show (w.outbox ++ [_]).filter ofReading = _
      rw [List.filter_append]
      exact List.append_nil _

end

theorem inv_run {as : List (Action Payload)} {w : World Payload} (h : run (step json) World.empty as = some w) :
    Inv json w :=
  Run.inv (fun _ _ _ hi hstep => inv_step hi hstep) inv_empty h

/-! ## Idempotence -/

/-- A key is stored if and only if a valid reading of it was ingested, once, as it was ingested first; what the
outbox has of readings is the announcements of the rows. -/
structure Idempotent (json : Json Payload V) (w : World Payload) : Prop where
  nodup : (w.readings.map TelemetryReading.key).Nodup
  ingested : ∀ key, key ∈ w.readings.map TelemetryReading.key ↔ key ∈ w.ingested.map SensorReading.key
  valid : ∀ m ∈ w.ingested, ∃ payload ∈ w.delivered, parseRawReading json payload = some m
  first : ∀ r ∈ w.readings, First w r
  announced : w.outbox.filter ofReading = w.readings.flatMap announcements

/-- Over every sequence of deliveries, redeliveries, failures, retries and crashes ingest is idempotent. -/
theorem ingest_idempotent {as : List (Action Payload)} {w : World Payload}
    (h : run (step json) World.empty as = some w) : Idempotent json w := by
  have hi := inv_run h
  refine ⟨hi.nodup, fun key => ⟨fun hk => ?_, fun hk => ?_⟩, fun m hm => (hi.ingested m hm).2, hi.first, hi.announced⟩
  · obtain ⟨r, hr, rfl⟩ := List.mem_map.1 hk
    obtain ⟨m, _, hm, _⟩ := hi.first r hr
    exact List.mem_map.2 ⟨m, List.mem_of_find?_eq_some hm, by simpa using List.find?_some hm⟩
  · obtain ⟨m, hm, rfl⟩ := List.mem_map.1 hk
    exact (hi.ingested m hm).1

/-- A document as `json.loads` gives it. -/
inductive Raw
  | text (s : String)
  | number (value : ℚ)
  | object (items : List (String × Raw))

/-- Messages as the documents they encode, of one sensor and at two instants. -/
def raws : Json Raw Raw where
  loads := some
  dict
    | .object items => some items
    | _ => none
  uuid
    | .text s => if s = "00000000-0000-0000-0000-0000000000f1" then some 0xf1 else none
    | _ => none
  awareDatetime
    | .text s =>
      if s = "1970-01-01T00:00:00Z" then some 0 else if s = "1970-01-01T00:01:00Z" then some (seconds 60) else none
    | _ => none
  float
    | .number value => some value
    | _ => none

def measured (recordedAt : String) (moisture : ℚ) : Raw :=
  .object [("sensor_id", .text "00000000-0000-0000-0000-0000000000f1"), ("recorded_at", .text recordedAt),
    ("moisture", .number moisture), ("temperature", .number 21), ("light", .object [("value", .number 1200)])]

/-- A message before its sensor is registered, one out of range, one whose attempt dies before its commit while
its redelivery is under way, and one that comes again with another measurement. -/
def deliveries : List (Action Raw) :=
  [.deliver 0 (measured "1970-01-01T00:01:00Z" 50), .execute 0, .register 0xf1 7 0,
    .deliver 0 (measured "1970-01-01T00:00:00Z" 101),
    .deliver 0 (measured "1970-01-01T00:00:00Z" 29), .execute 0, .execute 0,
    .deliver 1 (measured "1970-01-01T00:00:00Z" 29), .execute 1, .giveUp 0, .execute 1, .execute 1, .execute 1,
    .deliver 2 (measured "1970-01-01T00:00:00Z" 81), .execute 2, .execute 2]

theorem ingest_idempotent_redelivered : ∃ w, run (step raws) World.empty deliveries = some w ∧ w.readings.length = 1 ∧
    w.ingested.length = 2 ∧ w.outbox.length = 2 ∧ Idempotent raws w :=
  have hrun : run (step raws) World.empty deliveries =
      some ((run (step raws) World.empty deliveries).get (by decide +kernel)) := (Option.some_get _).symm
  ⟨_, hrun, by decide +kernel, by decide +kernel, by decide +kernel, ingest_idempotent hrun⟩

end Plantkeeper.Telemetry.Ingress
