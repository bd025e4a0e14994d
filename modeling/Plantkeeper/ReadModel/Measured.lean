/-
From raw messages to rollups. The ingress and the telemetry projection run side by side: an event the ingress
appends is offered to the projection any number of times and in any order, projected, refused, moved aside and
replayed. At every moment the rows of the read side are those of the stored readings whose event has been
projected, each once. An event is projected under its identifier once at most, and what is written for it is
the event of the outbox.
-/
import Mathlib.Data.List.Perm.Subperm
import Plantkeeper.Delivery.Written
import Plantkeeper.ReadModel.Rollups
import Plantkeeper.ReadModel.SensorLatest
import Plantkeeper.Telemetry.IngestOnce

namespace Plantkeeper.ReadModel.Measured

open Plantkeeper.Delivery Plantkeeper.Run Plantkeeper.Samples Plantkeeper.Telemetry

variable {Payload V : Type}

/-! ## The two sides -/

inductive EventType
  | telemetryReceived
  | sensorOffline
  | soilMoistureLow
  | soilMoistureHigh
  | temperatureAnomaly
  deriving DecidableEq, Repr

def typeOf : Telemetry.Event → EventType
  | .telemetryReceived .. => .telemetryReceived
  | .soilMoistureLow .. => .soilMoistureLow
  | .soilMoistureHigh .. => .soilMoistureHigh
  | .temperatureAnomaly .. => .temperatureAnomaly
  | .sensorOffline .. => .sensorOffline

/-- `TelemetryRollupProjection`, which handles every event of its topic. -/
def telemetryRollup : Consumer EventType :=
  ⟨⟨.read, "admin-telemetry-rollup"⟩, [.telemetryReceived, .sensorOffline, .soilMoistureLow, .soilMoistureHigh, .temperatureAnomaly]⟩

/-- The write side, the identifiers of the events of its outbox, in their order, and the projection's
deliveries, where an operator may be at work. -/
structure World (Payload : Type) where
  ingress : Ingress.World Payload
  eventIds : List Uuid
  projection : Operated EventType Telemetry.Event

def World.empty : World Payload := ⟨.empty, [], .empty⟩

/-- The events of the outbox under their identifiers. -/
def World.log (w : World Payload) : List (Uuid × Telemetry.Event) := w.eventIds.zip w.ingress.outbox

/-- The ingress acts, and what it appends gets identifiers; an event is offered to the projection, whose
subscriber goes on with its calls and runs the handler, which may raise; a process dies; a dead letter is
replayed. -/
inductive Action (Payload : Type)
  | ingress (a : Ingress.Action Payload) (eventIds : List Uuid)
  | deliver (i : ℕ) (eventId : Uuid)
  | call (i : ℕ) (outcome : Outcome)
  | project (i : ℕ) (error : Option Failure)
  | crash (i : ℕ)
  | replay (letter : ℕ)

/-- What the action is to the subscribers of the projection. -/
def World.delivery (w : World Payload) : Action Payload → Option (OperatedAction EventType Telemetry.Event)
  | .ingress .. => none
  | .deliver i eventId => (w.log.lookup eventId).map fun e => .deliver (.deliver i telemetryRollup (some ⟨eventId, typeOf e⟩))
  | .call i outcome => some (.deliver (.call i outcome))
  | .project i (some error) => some (.deliver (.handle i (.error error)))
  | .project i none => (w.projection.world.subscribers i).bind fun d =>
    (w.log.lookup d.event.eventId).map fun e => .deliver (.handle i (.ok e))
  | .crash i => some (.deliver (.crash i))
  | .replay letter => some (.replay letter)

def World.offer (policy : FailurePolicy) (w : World Payload) (a : Action Payload) : Option (World Payload) :=
  (w.delivery a).bind fun b => (operatedStep policy w.projection b).map fun p => { w with projection := p }

/-- No identifier is drawn twice. -/
def step (json : Ingress.Json Payload V) (policy : FailurePolicy) (w : World Payload) : Action Payload → Option (World Payload)
  | .ingress a eventIds => (Ingress.step json w.ingress a).bind fun v =>
    if (w.eventIds ++ eventIds).Nodup ∧ (w.eventIds ++ eventIds).length = v.outbox.length then
      some { w with ingress := v, eventIds := w.eventIds ++ eventIds }
    else none
  | a => w.offer policy a

/-- A replay finds that the delivery whose claim it deletes was not projected. -/
def Unprojected (w : World Payload) (a : Action Payload) : Prop := ∀ b, w.delivery a = some b → Unhandled w.projection b

instance decidableUnprojected (w : World Payload) (a : Action Payload) : Decidable (Unprojected w a) :=
  match h : w.delivery a with
  | none => isTrue fun _ hb => nomatch h.symm.trans hb
  | some (.deliver _) => isTrue fun _ hb => Option.some.inj (h.symm.trans hb) ▸ trivial
  | some (.replay i) =>
    match hi : w.projection.world.deadLetters[i]? with
    | none => isTrue fun _ hb => Option.some.inj (h.symm.trans hb) ▸ fun _ hl => nomatch hi.symm.trans hl
    | some letter => decidable_of_iff ((w.projection.world.effects.map Prod.fst).contains letter.1 = false)
      ⟨fun hnot _ hb => Option.some.inj (h.symm.trans hb) ▸ fun _ hl => Option.some.inj (hi.symm.trans hl) ▸ by
          rwa [← List.contains_iff_mem, Bool.not_eq_true],
        fun hall => by
          have hnot := hall _ h letter hi
          rwa [← List.contains_iff_mem, Bool.not_eq_true] at hnot⟩

/-- What has been projected, in turn. -/
def World.projected (w : World Payload) : List Telemetry.Event := w.projection.world.effects.map Prod.snd

/-- The tables of the read side. -/
def World.tables (w : World Payload) : ReadTelemetry := w.projected.foldl projectTelemetry .empty

/-! ## What is counted -/

/-- The event that tells of a stored reading. -/
def received (r : TelemetryReading) : TelemetryReceived :=
  ⟨r.sensorId, r.plantId, .utc r.recordedAt, r.moisture, r.temperature, r.light⟩

def receivedOf : Telemetry.Event → Option TelemetryReceived
  | .telemetryReceived sensorId plantId recordedAt moisture temperature light _ =>
    some ⟨sensorId, plantId, .utc recordedAt, moisture, temperature, light⟩
  | _ => none

/-- The stored readings whose event has been projected. -/
def World.counted (w : World Payload) : List TelemetryReading :=
  w.ingress.readings.filter fun r => received r ∈ w.projected.filterMap receivedOf

/-- Every event of the outbox has been projected. -/
def CaughtUp (w : World Payload) : Prop :=
  ∀ eventId ∈ w.eventIds, (telemetryRollup.group, eventId) ∈ w.projection.world.effects.map Prod.fst

/-- The row shows the newest of the sensor's readings. -/
def ShowsNewest (row : SensorLatest) (id : SensorId) (rs : List TelemetryReading) : Prop :=
  ∃ r ∈ rs, r.sensorId = id ∧ (∀ r' ∈ rs, r'.sensorId = id → r'.recordedAt ≤ r.recordedAt) ∧ row.plantId = r.plantId ∧
    row.recordedAt = r.recordedAt ∧ row.moisture = r.moisture.value ∧ row.temperature = r.temperature.value ∧
    row.light = r.light.value

/-! ## The outbox and its identifiers -/

section

variable {json : Ingress.Json Payload V} {policy : FailurePolicy} {w w' : World Payload}

/-- The ingress only appends to the outbox. -/
theorem outbox_execute {v v' : Ingress.World Payload} {i : ℕ} {pc : Ingress.Attempt} (h : v.execute i pc = some v') :
    v.outbox <+: v'.outbox := by
  cases pc with
  | get m =>
    simp only [Ingress.World.execute] at h
    split at h <;> cases h <;> exact List.prefix_rfl
  | addMany m sensor =>
    simp only [Ingress.World.execute] at h
    split at h
    · cases h
      exact List.prefix_rfl
    · split at h
      · cases h
      · split at h <;> cases h <;> exact List.prefix_rfl
  | save m sensor copy events =>
    obtain ⟨seen, -, rfl⟩ := Option.map_eq_some_iff.1 h
    exact List.prefix_rfl
  | commit m sensor copy events seen =>
    obtain ⟨row, -, rfl⟩ := Option.map_eq_some_iff.1 h
    exact List.prefix_append _ _

theorem outbox_step {v v' : Ingress.World Payload} {a : Ingress.Action Payload} (h : Ingress.step json v a = some v') :
    v.outbox <+: v'.outbox := by
  cases a with
  | deliver i payload =>
    simp only [Ingress.step] at h
    split at h <;> cases h <;> exact List.prefix_rfl
  | execute i =>
    obtain ⟨pc, -, h⟩ := Option.bind_eq_some_iff.1 h
    exact outbox_execute h
  | giveUp i =>
    cases h
    exact List.prefix_rfl
  | register id plantId addedAt =>
    simp only [Ingress.step] at h
    split at h <;> cases h
    exact List.prefix_rfl
  | silence id lastSeenAt offlineAnnouncedAt last now =>
    obtain ⟨row, -, rfl⟩ := Option.map_eq_some_iff.1 h
    exact List.prefix_append _ _

/-- What the projection is offered, and what its handler writes for it. -/
def Offered (consumer : Consumer EventType) (_ : Delivery.Event EventType) : Prop := consumer = telemetryRollup

def Writes (log : List (Uuid × Telemetry.Event)) (_ : Consumer EventType) (event : Delivery.Event EventType)
    (e : Telemetry.Event) : Prop := (event.eventId, e) ∈ log

structure Inv (json : Ingress.Json Payload V) (w : World Payload) : Prop where
  ingress : Ingress.Inv json w.ingress
  eventIds : w.eventIds.Nodup
  length : w.eventIds.length = w.ingress.outbox.length
  projection : Delivery.Inv w.projection.world
  right : Right Offered (Writes w.log) w.projection.world

theorem inv_empty : Inv json World.empty := ⟨Ingress.inv_empty, List.nodup_nil, rfl, Delivery.inv_empty, right_empty⟩

theorem mem_of_lookup {k : Uuid} {e : Telemetry.Event} : ∀ {l : List (Uuid × Telemetry.Event)}, l.lookup k = some e → (k, e) ∈ l
  | (k', e') :: l, h => by
    rw [List.lookup_cons] at h
    split at h
    · rename_i hk
      cases h
      rw [beq_iff_eq.1 hk]
      exact List.mem_cons_self ..
    · exact List.mem_cons_of_mem _ (mem_of_lookup h)

/-- The event of the outbox is what the handler writes. -/
theorem rightAction_delivery {a : Action Payload} {b : Delivery.Action EventType Telemetry.Event}
    (h : w.delivery a = some (.deliver b)) : RightAction Offered (Writes w.log) w.projection.world b := by
  cases a with
  | ingress a eventIds => cases h
  | deliver i eventId =>
    obtain ⟨e, -, he⟩ := Option.map_eq_some_iff.1 h
    cases he
    rfl
  | call i outcome =>
    cases h
    trivial
  | project i error =>
    cases error with
    | some error =>
      cases h
      trivial
    | none =>
      obtain ⟨d, hd, h⟩ := Option.bind_eq_some_iff.1 h
      obtain ⟨e, he, heq⟩ := Option.map_eq_some_iff.1 h
      cases heq
      intro d' hd'
      cases hd.symm.trans hd'
      exact mem_of_lookup he
  | crash i =>
    cases h
    trivial
  | replay letter => cases h

theorem inv_ingress {v : Ingress.World Payload} {a : Ingress.Action Payload} {eventIds : List Uuid} (h : Inv json w)
    (hstep : Ingress.step json w.ingress a = some v) (hnodup : (w.eventIds ++ eventIds).Nodup)
    (hlength : (w.eventIds ++ eventIds).length = v.outbox.length) :
    Inv json { w with ingress := v, eventIds := w.eventIds ++ eventIds } := by
  obtain ⟨new, hnew⟩ := outbox_step hstep
  have hlog : w.log ⊆ (w.eventIds ++ eventIds).zip v.outbox := by
    rw [← hnew, List.zip_append h.length]
    exact List.subset_append_left _ _
  exact ⟨Ingress.inv_step h.ingress hstep, hnodup, hlength, h.projection, h.right.mono fun _ _ _ hmem => hlog hmem⟩

theorem inv_offer {a : Action Payload} (h : Inv json w) (ha : Unprojected w a) (hs : w.offer policy a = some w') : Inv json w' := by
  obtain ⟨b, hb, hs⟩ := Option.bind_eq_some_iff.1 hs
  obtain ⟨p, hp, rfl⟩ := Option.map_eq_some_iff.1 hs
  refine ⟨h.ingress, h.eventIds, h.length, inv_operatedStep h.projection (ha b hb) hp, right_operatedStep h.right ?_ hp⟩
  rintro c rfl
  exact rightAction_delivery hb

theorem inv_step {a : Action Payload} (h : Inv json w) (ha : Unprojected w a) (hs : step json policy w a = some w') :
    Inv json w' := by
  cases a with
  | ingress a eventIds =>
    obtain ⟨v, hv, hs⟩ := Option.bind_eq_some_iff.1 hs
    split at hs
    · rename_i hids
      cases hs
      exact inv_ingress h hv hids.1 hids.2
    · cases hs
  | deliver i eventId => exact inv_offer h ha hs
  | call i outcome => exact inv_offer h ha hs
  | project i error => exact inv_offer h ha hs
  | crash i => exact inv_offer h ha hs
  | replay letter => exact inv_offer h ha hs

/-! ## What is projected is in the outbox -/

/-- What the projection has written, under the identifiers of the events. -/
def World.written (w : World Payload) : List (Uuid × Telemetry.Event) := w.projection.world.effects.map fun e => (e.1.2, e.2)

theorem projected_eq (w : World Payload) : w.projected = w.written.map Prod.snd := by
  simp [World.projected, World.written]

theorem log_nodup (h : Inv json w) : w.log.Nodup := by
  have hids : w.log.map Prod.fst = w.eventIds := List.map_fst_zip h.length.le
  exact .of_map Prod.fst (hids ▸ h.eventIds)

theorem log_outbox (h : Inv json w) : w.log.map Prod.snd = w.ingress.outbox := List.map_snd_zip h.length.ge

theorem group_eq (h : Inv json w) {e : Key × Telemetry.Event} (he : e ∈ w.projection.world.effects) :
    e.1 = (telemetryRollup.group, e.1.2) ∧ (e.1.2, e.2) ∈ w.log := by
  obtain ⟨consumer, event, hoffered, hkey, hwrites⟩ := h.right.effects e he
  have hconsumer : consumer = telemetryRollup := hoffered
  rw [hkey, hconsumer]
  exact ⟨rfl, hwrites⟩

theorem written_nodup (h : Inv json w) : w.written.Nodup := by
  have hids : (w.projection.world.effects.map Prod.fst).map Prod.snd = w.written.map Prod.fst := by
    simp [World.written]
  refine .of_map Prod.fst (hids ▸ h.projection.tables.once.map_on ?_)
  intro k hk k' hk' heq
  obtain ⟨e, he, rfl⟩ := List.mem_map.1 hk
  obtain ⟨e', he', rfl⟩ := List.mem_map.1 hk'
  rw [(group_eq h he).1, (group_eq h he').1, heq]

theorem written_subset (h : Inv json w) : w.written ⊆ w.log := by
  intro x hx
  obtain ⟨e, he, rfl⟩ := List.mem_map.1 hx
  exact (group_eq h he).2

/-- Each event of the outbox is projected once at most. -/
theorem projected_subperm (h : Inv json w) : w.projected.Subperm w.ingress.outbox := by
  obtain ⟨l, hperm, hsub⟩ := List.subperm_of_subset (written_nodup h) (written_subset h)
  rw [projected_eq, ← log_outbox h]
  exact ⟨l.map Prod.snd, hperm.map Prod.snd, hsub.map Prod.snd⟩

theorem log_subset (h : Inv json w) (hall : CaughtUp w) : w.log ⊆ w.written := by
  rintro ⟨eventId, e⟩ hmem
  have hid : eventId ∈ w.eventIds := (List.of_mem_zip hmem).1
  obtain ⟨x, hx, hkey⟩ := List.mem_map.1 (hall eventId hid)
  have hlog : (eventId, x.2) ∈ w.log := by
    have := (group_eq h hx).2
    rwa [hkey] at this
  have hids : w.log.map Prod.fst = w.eventIds := List.map_fst_zip h.length.le
  have heq : (eventId, e) = (eventId, x.2) := List.inj_on_of_nodup_map (hids ▸ h.eventIds) hmem hlog rfl
  rw [heq]
  exact List.mem_map.2 ⟨x, hx, by rw [hkey]⟩

theorem projected_perm (h : Inv json w) (hall : CaughtUp w) : w.projected.Perm w.ingress.outbox := by
  have hperm : w.written.Perm w.log := (List.perm_ext_iff_of_nodup (written_nodup h) (log_nodup h)).2 fun x =>
    ⟨fun hx => written_subset h hx, fun hx => log_subset h hall hx⟩
  rw [projected_eq, ← log_outbox h]
  exact hperm.map Prod.snd

/-! ## What tells of readings -/

theorem receivedOf_announcements (r : TelemetryReading) : (Ingress.announcements r).filterMap receivedOf = [received r] := by
  have hnone : ∀ (p : Prop) [Decidable p] (e : Telemetry.Event), receivedOf e = none →
      (if p then [e] else []).filterMap receivedOf = [] := by
    intro p _ e he
    split
    · rw [List.filterMap_cons_none he, List.filterMap_nil]
    · rfl
  have halerts : (Ingress.alerts r).filterMap receivedOf = [] := by
    unfold Ingress.alerts
    rw [List.filterMap_append, List.filterMap_append, hnone _ _ rfl, hnone _ _ rfl, hnone _ _ rfl]
    rfl
  unfold Ingress.announcements
  rw [List.filterMap_cons, halerts]
  rfl

/-- The outbox tells of every stored reading, once. -/
theorem receivedOf_outbox (h : Inv json w) : w.ingress.outbox.filterMap receivedOf = w.ingress.readings.map received := by
  have hfilter : w.ingress.outbox.filterMap receivedOf = (w.ingress.outbox.filter Ingress.ofReading).filterMap receivedOf := by
    rw [List.filterMap_filter]
    congr 1
    funext e
    cases e <;> rfl
  rw [hfilter, h.ingress.announced, List.filterMap_flatMap]
  simp only [receivedOf_announcements]
  rw [List.map_eq_flatMap]

/-- A reading is known by its event. -/
theorem received_nodup (h : Inv json w) : (w.ingress.readings.map received).Nodup := by
  have hkeys : (w.ingress.readings.map received).map (fun e => (e.sensorId, e.recordedAt.instant)) =
      w.ingress.readings.map TelemetryReading.key := by
    rw [List.map_map]
    congr 1
    funext r
    exact Prod.ext rfl (Int.sub_zero _)
  exact .of_map _ (hkeys ▸ h.ingress.nodup)

theorem projected_received (h : Inv json w) : (w.projected.filterMap receivedOf).Subperm (w.ingress.readings.map received) := by
  obtain ⟨l, hperm, hsub⟩ := projected_subperm h
  rw [← receivedOf_outbox h]
  exact ⟨l.filterMap receivedOf, hperm.filterMap receivedOf, hsub.filterMap receivedOf⟩

/-- What was projected of readings is what tells of the counted ones. -/
theorem counted_perm (h : Inv json w) : (w.projected.filterMap receivedOf).Perm (w.counted.map received) := by
  have hsub := projected_received h
  have hnodup : (w.projected.filterMap receivedOf).Nodup := by
    obtain ⟨l, hperm, hl⟩ := hsub
    exact hperm.nodup_iff.1 ((received_nodup h).sublist hl)
  have hcounted : (w.counted.map received).Nodup := (received_nodup h).sublist (List.filter_sublist.map _)
  refine (List.perm_ext_iff_of_nodup hnodup hcounted).2 fun e => ⟨fun he => ?_, fun he => ?_⟩
  · obtain ⟨r, hr, rfl⟩ := List.mem_map.1 (hsub.subset he)
    exact List.mem_map_of_mem (List.mem_filter.2 ⟨hr, by simpa using he⟩)
  · obtain ⟨r, hr, rfl⟩ := List.mem_map.1 he
    simpa using (List.mem_filter.1 hr).2

theorem counted_caughtUp (h : Inv json w) (hall : CaughtUp w) : w.counted = w.ingress.readings := by
  refine List.filter_eq_self.2 fun r hr => ?_
  rw [decide_eq_true_eq, ((projected_perm h hall).filterMap receivedOf).mem_iff, receivedOf_outbox h]
  exact List.mem_map_of_mem hr

end

/-! ## The tables -/

theorem summarises_perm {row : TelemetryRollup} {es es' : List TelemetryReceived} (h : Summarises row es) (hp : es.Perm es') :
    Summarises row es' :=
  ⟨h.sampleCount.trans hp.length_eq, h.moisture.perm (hp.map _), h.temperature.perm (hp.map _)⟩

theorem rollups_projectTelemetry (events : List Telemetry.Event) (t : ReadTelemetry) :
    (events.foldl projectTelemetry t).rollups = ((events.filterMap receivedOf).foldl onTelemetryReceived t).rollups := by
  rw [rollups_foldl]
  induction events generalizing t with
  | nil => rfl
  | cons e events ih =>
    rw [List.foldl_cons, ih]
    cases e <;> rfl

/-- The row of an hour. -/
theorem rollup_of_readings (es : List TelemetryReceived) (s : SensorId) (h : ℤ) :
    match (es.foldl onTelemetryReceived .empty).rollups (s, hours h) with
    | none => readingsOf es s h = []
    | some row => readingsOf es s h ≠ [] ∧ Summarises row (readingsOf es s h) := by
  rw [rollup_at, filter_window]
  by_cases hne : readingsOf es s h = []
  · rw [hne]
    rfl
  · obtain ⟨row, hrow, hsum⟩ := foldRollup_summarises hne
    rw [hrow]
    exact ⟨hne, hsum⟩

/-- The columns of a row that a reading fills. -/
def measurement (row : SensorLatest) : PlantId × Instant × ℚ × ℚ × ℚ :=
  (row.plantId, row.recordedAt, row.moisture, row.temperature, row.light)

def measurementOf (e : TelemetryReceived) : PlantId × Instant × ℚ × ℚ × ℚ :=
  (e.plantId, e.recordedAt.instant, e.moisture.value, e.temperature.value, e.light.value)

/-- The row of a sensor against what was received of it. -/
def LatestOf (row : Option SensorLatest) (id : SensorId) (es : List TelemetryReceived) : Prop :=
  match row with
  | none => ∀ e ∈ es, e.sensorId ≠ id
  | some row => ∃ e ∈ es, e.sensorId = id ∧ (∀ e' ∈ es, e'.sensorId = id → e'.recordedAt.instant ≤ e.recordedAt.instant) ∧
    measurement row = measurementOf e

theorem measurement_recordAlert (alertAt : Instant) (alertType : AlertType) (row : SensorLatest) :
    measurement (recordAlert alertAt alertType row) = measurement row := by
  unfold recordAlert
  split <;> rfl

/-- What fills no column of a reading. -/
theorem LatestOf.map {row : Option SensorLatest} {id : SensorId} {es : List TelemetryReceived} (h : LatestOf row id es)
    {f : SensorLatest → SensorLatest} (hf : ∀ row, measurement (f row) = measurement row) : LatestOf (row.map f) id es := by
  cases row with
  | none => exact h
  | some row =>
    obtain ⟨e, he, hid, hnewest, heq⟩ := h
    exact ⟨e, he, hid, hnewest, (hf row).trans heq⟩

theorem LatestOf.other {row : Option SensorLatest} {id : SensorId} {es : List TelemetryReceived} {e : TelemetryReceived}
    (h : LatestOf row id es) (he : e.sensorId ≠ id) : LatestOf row id (es ++ [e]) := by
  cases row with
  | none =>
    intro e' he'
    rcases List.mem_append.1 he' with he' | he'
    · exact h e' he'
    · rw [List.mem_singleton.1 he']
      exact he
  | some row =>
    obtain ⟨e₀, he₀, hid, hnewest, heq⟩ := h
    refine ⟨e₀, List.mem_append_left _ he₀, hid, fun e' he' hid' => ?_, heq⟩
    rcases List.mem_append.1 he' with he' | he'
    · exact hnewest e' he' hid'
    · rw [List.mem_singleton.1 he'] at hid'
      exact absurd hid' he

/-- The row moves exactly for a newer reading. -/
theorem LatestOf.received {row : Option SensorLatest} {id : SensorId} {es : List TelemetryReceived} {e : TelemetryReceived}
    (h : LatestOf row id es) (he : e.sensorId = id) : LatestOf (some (moveLatest row e)) id (es ++ [e]) := by
  cases row with
  | none =>
    refine ⟨e, by simp, he, fun e' he' hid' => ?_, rfl⟩
    rcases List.mem_append.1 he' with he' | he'
    · exact absurd hid' (h e' he')
    · rw [List.mem_singleton.1 he']
  | some row =>
    obtain ⟨e₀, he₀, hid, hnewest, heq⟩ := h
    have hat : row.recordedAt = e₀.recordedAt.instant := congrArg (·.2.1) heq
    by_cases hlt : row.recordedAt < e.recordedAt.instant
    · simp only [moveLatest, if_pos hlt]
      refine ⟨e, by simp, he, fun e' he' hid' => ?_, rfl⟩
      rcases List.mem_append.1 he' with he' | he'
      · exact le_trans (hnewest e' he' hid') (hat ▸ le_of_lt hlt)
      · rw [List.mem_singleton.1 he']
    · simp only [moveLatest, if_neg hlt]
      refine ⟨e₀, List.mem_append_left _ he₀, hid, fun e' he' hid' => ?_, heq⟩
      rcases List.mem_append.1 he' with he' | he'
      · exact hnewest e' he' hid'
      · rw [List.mem_singleton.1 he', ← hat]
        exact not_lt.1 hlt

theorem latestOf_act {row : Option SensorLatest} {id : SensorId} {es : List TelemetryReceived} (h : LatestOf row id es)
    (e : Telemetry.Event) : LatestOf (actLatest id row e) id (es ++ (receivedOf e).toList) := by
  have kept : ∀ {sensorId : SensorId} {f : SensorLatest → SensorLatest}, (∀ row, measurement (f row) = measurement row) →
      LatestOf (if id = sensorId then row.map f else row) id (es ++ []) := by
    intro sensorId f hf
    rw [List.append_nil]
    split
    · exact h.map hf
    · exact h
  cases e with
  | telemetryReceived sensorId plantId recordedAt moisture temperature light occurredAt =>
    by_cases hid : id = sensorId
    · subst hid
      simp only [actLatest, if_true]
      exact h.received rfl
    · simp only [actLatest, if_neg hid]
      exact h.other (Ne.symm hid)
  | soilMoistureLow => exact kept (measurement_recordAlert _ _)
  | soilMoistureHigh => exact kept (measurement_recordAlert _ _)
  | temperatureAnomaly => exact kept (measurement_recordAlert _ _)
  | sensorOffline => exact kept fun _ => rfl

/-- Whatever the order of the events, the row of a sensor shows the newest reading that was received of it. -/
theorem latestOf_projected (events : List Telemetry.Event) (id : SensorId) :
    LatestOf ((events.foldl projectTelemetry .empty).latest id) id (events.filterMap receivedOf) := by
  rw [latest_foldl]
  induction events using List.reverseRecOn with
  | nil => exact fun _ he => (nomatch he)
  | append_singleton events e ih =>
    rw [List.foldl_append, List.filterMap_append]
    have := latestOf_act ih e
    cases hr : receivedOf e <;> simpa [hr] using this

/-! ## Every reading counts once -/

def retries : FailurePolicy := ⟨5, Nat.le_add_left 1 4⟩

/-- Two readings, the first of which crosses a threshold and is delivered again. -/
def ingested : List (Action Ingress.Raw) :=
  [.ingress (.register 0xf1 7 0) [], .ingress (.deliver 0 (Ingress.measured "1970-01-01T00:00:00Z" 29)) [],
    .ingress (.execute 0) [], .ingress (.execute 0) [], .ingress (.execute 0) [], .ingress (.execute 0) [61, 62],
    .ingress (.deliver 1 (Ingress.measured "1970-01-01T00:01:00Z" 50)) [], .ingress (.execute 1) [], .ingress (.execute 1) [],
    .ingress (.deliver 2 (Ingress.measured "1970-01-01T00:00:00Z" 29)) [], .ingress (.execute 2) [], .ingress (.execute 2) [],
    .ingress (.execute 1) [], .ingress (.execute 1) [63]]

/-- The second reading is projected first, and once more as the answer of the commit is lost; the first is moved
aside and replayed. -/
def projected : List (Action Ingress.Raw) :=
  [.deliver 0 63, .call 0 .done, .project 0 none, .call 0 (.lost .otherError), .call 0 .done, .deliver 1 61, .call 1 .done,
    .project 1 (some .domainError), .call 1 .done, .call 1 .done, .replay 0, .deliver 1 61, .call 1 .done, .project 1 none,
    .call 1 .done, .deliver 0 62, .call 0 .done, .project 0 none, .call 0 .done]

end Plantkeeper.ReadModel.Measured
