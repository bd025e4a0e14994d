/-
The silence state against the stored readings. Where a tick commits on the last-seen instant it
listed, and no newer reading commits over an announcement its save did not see, the row says when the
sensor last reported and is announced offline only while nothing newer is stored. Neither is promised
by the code: sensors are read without a lock, so a tick that listed the sensor before a reading was
committed takes the reading's instant back or announces a silence that is over.
-/
import Plantkeeper.Telemetry.Transactions

namespace Plantkeeper.Telemetry

open Plantkeeper.Run

/-! ## What the readings and the announcements say -/

/-- When the newest stored reading was recorded. -/
def newest (readings : List TelemetryReading) : Option Instant := (readings.map (·.recordedAt)).max?

/-- The last-seen instant of the last `SensorOffline` raised at `t`. -/
def announced (t : Instant) (outbox : List Event) : Option Instant := (outbox.filterMap (Event.announces t)).getLast?

theorem newest_append (readings : List TelemetryReading) (r : TelemetryReading) :
    newest (readings ++ [r]) = some ((newest readings).elim r.recordedAt (max · r.recordedAt)) := by
  unfold newest
  cases readings with
  | nil => rfl
  | cons q qs =>
    simp only [List.map_append, List.map_cons, List.map_nil, List.cons_append, List.max?_cons', List.foldl_append]
    rfl

theorem le_newest {readings : List TelemetryReading} {l : Instant} (h : newest readings = some l) :
    ∀ r ∈ readings, r.recordedAt ≤ l := by
  intro r hr
  exact (List.max?_le_iff h).1 (Int.le_refl l) _ (List.mem_map_of_mem hr)

theorem announced_append_nil {t : Instant} {outbox events : List Event}
    (h : events.filterMap (Event.announces t) = []) : announced t (outbox ++ events) = announced t outbox := by
  unfold announced
  rw [List.filterMap_append, h, List.append_nil]

/-- An announcement is the last of its instant, and leaves those of other instants. -/
theorem announced_append_offline {t now last : Instant} {id : SensorId} {plantId : PlantId} {d : Duration}
    {outbox : List Event} : announced t (outbox ++ [.sensorOffline id plantId last d now]) =
      if now = t then some last else announced t outbox := by
  unfold announced
  rw [List.filterMap_append]
  by_cases h : now = t
  · simp [Event.announces, h]
  · simp [Event.announces, h]

/-! ## What the transactions rely on -/

/-- The commit of a reading newer than the last seen does not find an announcement its save did not see. -/
def IngestUndisturbed (sensor : Sensor) : Option Ingest → Prop
  | some (.commit message read _ _ seen) => read.lastSeenAt.all (· < message.recordedAt) →
      seen.offlineAnnouncedAt = none → sensor.offlineAnnouncedAt = none
  | _ => True

/-- The commit of a tick finds the sensor last seen when it was listed. -/
def TickUndisturbed (sensor : Sensor) : Option Tick → Prop
  | some (.commit read _ _ _) => sensor.lastSeenAt = read.lastSeenAt
  | _ => True

def Undisturbed (w : World) : Action → Prop
  | .ingest => IngestUndisturbed w.sensor w.ingest
  | .executeTick i => TickUndisturbed w.sensor (w.ticks i)
  | _ => True

instance (sensor : Sensor) : ∀ tx, Decidable (IngestUndisturbed sensor tx)
  | some (.commit message read _ _ seen) => inferInstanceAs (Decidable (read.lastSeenAt.all (· < message.recordedAt) →
      seen.offlineAnnouncedAt = none → sensor.offlineAnnouncedAt = none))
  | none | some (.get _) | some (.addMany ..) | some (.save ..) => inferInstanceAs (Decidable True)

instance (sensor : Sensor) : ∀ tx, Decidable (TickUndisturbed sensor tx)
  | some (.commit read _ _ _) => inferInstanceAs (Decidable (sensor.lastSeenAt = read.lastSeenAt))
  | none | some (.listSilent _) | some (.save ..) => inferInstanceAs (Decidable True)

instance (w : World) : ∀ a, Decidable (Undisturbed w a)
  | .ingest => inferInstanceAs (Decidable (IngestUndisturbed w.sensor w.ingest))
  | .executeTick i => inferInstanceAs (Decidable (TickUndisturbed w.sensor (w.ticks i)))
  | .receive _ | .giveUpIngest | .tick .. | .giveUpTick _ => inferInstanceAs (Decidable True)

/-! ## The invariant -/

/-- The last `SensorOffline` raised at `t` announces the instant the sensor was last seen. -/
def Announces (w : World) (t : Instant) : Prop :=
  ∃ last, w.sensor.lastSeenAt = some last ∧ announced t w.outbox = some last

/-- A copy the ingress read: the sensor was not seen since, and was announced as the copy says. -/
def Current (w : World) (read : Sensor) : Prop :=
  read.lastSeenAt = w.sensor.lastSeenAt ∧ ∀ t, read.offlineAnnouncedAt = some t → Announces w t

def IngestOk (w : World) : Ingest → Prop
  | .get _ => True
  | .addMany _ read | .save _ read => Current w read
  | .commit message read copy events seen =>
    Current w read ∧ read.record message = .ok (copy, events) ∧ seen.lastSeenAt = read.lastSeenAt

/-- What `mark_offline` made of the sensor the tick listed. -/
def Marked (read copy : Sensor) (events : List Event) : Prop :=
  ∃ now last, read.lastSeenAt = some last ∧ copy = { read with offlineAnnouncedAt := some now } ∧
    events = [.sensorOffline read.id read.plantId last (now - last) now]

def TickOk : Tick → Prop
  | .listSilent _ => True
  | .save read copy events | .commit read copy events _ => Marked read copy events

structure Inv (w : World) : Prop where
  lastSeen : w.sensor.lastSeenAt = newest w.readings
  announced : ∀ t, w.sensor.offlineAnnouncedAt = some t → Announces w t
  ingest : ∀ pc, w.ingest = some pc → IngestOk w pc
  ticks : ∀ i pc, w.ticks i = some pc → TickOk pc

theorem inv_registered (id : SensorId) (plantId : PlantId) (addedAt : Instant) :
    Inv (World.registered id plantId addedAt) where
  lastSeen := rfl
  announced := by intro t h; cases h
  ingest := by intro pc h; cases h
  ticks := by intro i pc h; cases h

section

variable {w w' : World} {i : ℕ} {message : SensorReading} {read copy seen : Sensor} {events : List Event}

theorem marked_markOffline {now : Instant} (h : read.markOffline now = .ok (copy, events)) : Marked read copy events := by
  obtain ⟨last, hlast, rfl, rfl⟩ := Sensor.markOffline_ok h
  exact ⟨now, last, hlast, rfl, rfl⟩

/-- What the invariant says of the row, the readings and the outbox does not depend on who is where. -/
theorem Inv.gotoIngest {pc : Ingest} (hi : Inv w) (hok : IngestOk w pc) : Inv (w.gotoIngest pc) where
  lastSeen := hi.lastSeen
  announced := hi.announced
  ingest := by
    intro pc' h
    cases h
    cases pc <;> exact hok
  ticks := hi.ticks

theorem Inv.closeIngest (hi : Inv w) : Inv w.closeIngest where
  lastSeen := hi.lastSeen
  announced := hi.announced
  ingest := by intro pc h; cases h
  ticks := hi.ticks

theorem tickOk_update {tick : Option Tick} (hi : Inv w) (hok : ∀ pc, tick = some pc → TickOk pc) :
    ∀ j pc, Function.update w.ticks i tick j = some pc → TickOk pc := by
  intro j pc h
  rcases update_eq_some.1 h with ⟨-, h⟩ | ⟨-, h⟩
  · exact hok pc h
  · exact hi.ticks j pc h

theorem Inv.gotoTick {pc : Tick} (hi : Inv w) (hok : TickOk pc) : Inv (w.gotoTick i pc) where
  lastSeen := hi.lastSeen
  announced := hi.announced
  ingest := by
    intro pc' h
    have hok' := hi.ingest pc' h
    cases pc' <;> exact hok'
  ticks := tickOk_update hi (by rintro _ ⟨⟩; exact hok)

theorem Inv.closeTick (hi : Inv w) : Inv (w.closeTick i) where
  lastSeen := hi.lastSeen
  announced := hi.announced
  ingest := by
    intro pc' h
    have hok' := hi.ingest pc' h
    cases pc' <;> exact hok'
  ticks := tickOk_update hi (by rintro _ ⟨⟩)

/-! ## The commits -/

theorem merge_lastSeenAt (seen copy current : Sensor) :
    (sensors.merge seen copy current).lastSeenAt = current.lastSeenAt ∨
      (sensors.merge seen copy current).lastSeenAt = copy.lastSeenAt :=
  Columns.get_merge_or (C := sensors) Column.lastSeenAt

theorem merge_offlineAnnouncedAt (seen copy current : Sensor) :
    (sensors.merge seen copy current).offlineAnnouncedAt = current.offlineAnnouncedAt ∨
      (sensors.merge seen copy current).offlineAnnouncedAt = copy.offlineAnnouncedAt :=
  Columns.get_merge_or (C := sensors) Column.offlineAnnouncedAt

/-- A tick that finds the sensor last seen when it was listed leaves that instant. -/
theorem lastSeenAt_tick (hm : Marked read copy events) (hu : w.sensor.lastSeenAt = read.lastSeenAt) (seen : Sensor) :
    (sensors.merge seen copy w.sensor).lastSeenAt = w.sensor.lastSeenAt := by
  obtain ⟨now, last, -, rfl, -⟩ := hm
  rcases merge_lastSeenAt seen { read with offlineAnnouncedAt := some now } w.sensor with h | h
  · exact h
  · exact h.trans hu.symm

/-- What was announced of the last-seen instant still is, and the tick's own instant is announced. -/
theorem announces_tick (hm : Marked read copy events) (hu : w.sensor.lastSeenAt = read.lastSeenAt) {t : Instant}
    (h : Announces w t ∨ copy.offlineAnnouncedAt = some t) : Announces ((w.closeTick i).commit [] copy events seen) t := by
  have hlast := lastSeenAt_tick hm hu seen
  obtain ⟨now, last, hread, rfl, rfl⟩ := hm
  refine ⟨last, hlast.trans (hu.trans hread), ?_⟩
  refine announced_append_offline.trans ?_
  by_cases ht : now = t
  · rw [if_pos ht]
  · rw [if_neg ht]
    rcases h with ⟨last', hlast', h⟩ | h
    · rw [hu, hread] at hlast'
      cases hlast'; exact h
    · exact absurd (Option.some.inj h) ht

theorem inv_commit_tick (hi : Inv w) (htick : w.ticks i = some (.commit read copy events seen))
    (hu : w.sensor.lastSeenAt = read.lastSeenAt) : Inv ((w.closeTick i).commit [] copy events seen) := by
  have hm : Marked read copy events := hi.ticks i _ htick
  have hlast := lastSeenAt_tick hm hu seen
  have hann : ∀ t, Announces w t → Announces ((w.closeTick i).commit [] copy events seen) t :=
    fun t h => announces_tick hm hu (.inl h)
  have hcurrent : ∀ {r}, Current w r → Current ((w.closeTick i).commit [] copy events seen) r :=
    fun h => ⟨h.1.trans hlast.symm, fun t ht => hann t (h.2 t ht)⟩
  constructor
  · refine hlast.trans (hi.lastSeen.trans ?_)
    exact congrArg newest (List.append_nil _).symm
  · intro t h
    rcases merge_offlineAnnouncedAt seen copy w.sensor with hc | hc
    · exact hann t (hi.announced t (hc.symm.trans h))
    · exact announces_tick hm hu (.inr (hc.symm.trans h))
  · intro pc h
    have hok := hi.ingest pc h
    cases pc with
    | get message => trivial
    | addMany message r => exact hcurrent hok
    | save message r => exact hcurrent hok
    | commit message r copy events seen => exact ⟨hcurrent hok.1, hok.2⟩
  · exact tickOk_update hi (by rintro _ ⟨⟩)

/-- The reading's instant is stored where it is the newest. -/
theorem lastSeenAt_ingest (hok : IngestOk w (.commit message read copy events seen)) :
    (sensors.merge seen copy w.sensor).lastSeenAt =
      some (w.sensor.lastSeenAt.elim message.recordedAt (max · message.recordedAt)) := by
  obtain ⟨⟨hread, -⟩, hrecord, hseen⟩ := hok
  have hcopy : (sensors.merge seen copy w.sensor).lastSeenAt = copy.lastSeenAt := by
    by_cases hc : copy.lastSeenAt = seen.lastSeenAt
    · refine (Columns.get_merge_of_eq (C := sensors) (c := .lastSeenAt) hc).trans ?_
      exact hread.symm.trans (hseen.symm.trans hc.symm)
    · exact Columns.get_merge_of_ne (C := sensors) (c := .lastSeenAt) hc
  rw [hcopy, (Sensor.record_ok hrecord).1, Sensor.seen_lastSeenAt, hread]

/-- What is announced after the reading was announced before it, and the reading is not newer. -/
theorem announces_ingest (hi : Inv w) (hok : IngestOk w (.commit message read copy events seen))
    (hu : IngestUndisturbed w.sensor (some (.commit message read copy events seen))) {t : Instant}
    (h : (sensors.merge seen copy w.sensor).offlineAnnouncedAt = some t) :
    Announces w t ∧ (sensors.merge seen copy w.sensor).lastSeenAt = w.sensor.lastSeenAt := by
  have hlast := lastSeenAt_ingest hok
  obtain ⟨⟨hread, hann⟩, hrecord, -⟩ := hok
  obtain ⟨rfl, -⟩ := Sensor.record_ok hrecord
  by_cases hnew : read.lastSeenAt.all (· < message.recordedAt)
  · -- the silence is over: the reading clears the announcement, or there was none
    have hnone := Sensor.seen_offlineAnnouncedAt_of_newer hnew
    by_cases hs : seen.offlineAnnouncedAt = none
    · rcases merge_offlineAnnouncedAt seen (read.seen message.recordedAt) w.sensor with hc | hc
      · rw [hc, hu hnew hs] at h; cases h
      · rw [hc, hnone] at h; cases h
    · have hc : (sensors.merge seen (read.seen message.recordedAt) w.sensor).offlineAnnouncedAt =
          (read.seen message.recordedAt).offlineAnnouncedAt :=
        Columns.get_merge_of_ne (C := sensors) (c := .offlineAnnouncedAt) fun heq => hs (heq.symm.trans hnone)
      cases (hc.symm.trans h).symm.trans hnone
  · obtain ⟨last, hl, hle⟩ : ∃ last, read.lastSeenAt = some last ∧ message.recordedAt ≤ last := by
      cases hl : read.lastSeenAt with
      | none => rw [hl] at hnew; exact absurd rfl hnew
      | some last => exact ⟨last, rfl, by rw [hl] at hnew; simpa using hnew⟩
    constructor
    · rcases merge_offlineAnnouncedAt seen (read.seen message.recordedAt) w.sensor with hc | hc
      · exact hi.announced t (hc.symm.trans h)
      · rcases Sensor.seen_offlineAnnouncedAt read message.recordedAt with hr | hr
        · cases (hc.symm.trans h).symm.trans hr
        · exact hann t (hr.symm.trans (hc.symm.trans h))
    · rw [hlast, ← hread, hl]
      exact congrArg some (Int.max_eq_left hle)

theorem inv_commit_ingest (hi : Inv w) (hin : w.ingest = some (.commit message read copy events seen))
    (hu : IngestUndisturbed w.sensor w.ingest) :
    Inv (w.closeIngest.commit [stored message read] copy events seen) := by
  have hok := hi.ingest _ hin
  rw [hin] at hu
  constructor
  · refine (lastSeenAt_ingest hok).trans ?_
    rw [hi.lastSeen]
    exact (newest_append w.readings (stored message read)).symm
  · intro t h
    obtain ⟨⟨last, hl, ha⟩, hlast⟩ := announces_ingest hi hok hu h
    refine ⟨last, hlast.trans hl, ?_⟩
    obtain ⟨-, rfl⟩ := Sensor.record_ok hok.2.1
    exact (announced_append_nil (announces_events read message t)).trans ha
  · intro pc h; cases h
  · exact hi.ticks

/-! ## One step -/

theorem inv_step {a : Action} (hi : Inv w) (hu : Undisturbed w a) (h : step w a = some w') : Inv w' := by
  cases a with
  | receive message =>
    simp only [step] at h
    split at h
    · cases h; exact hi.gotoIngest trivial
    · cases h
  | giveUpIngest => cases h; exact hi.closeIngest
  | giveUpTick i => cases h; exact hi.closeTick
  | tick i now =>
    simp only [step] at h
    split at h
    · cases h; exact hi.gotoTick trivial
    · cases h
  | ingest =>
    obtain ⟨pc, hpc, rfl⟩ := Option.map_eq_some_iff.1 h
    have hok := hi.ingest pc hpc
    cases pc with
    | get message =>
      simp only [executeIngest]
      split
      · exact hi.gotoIngest ⟨rfl, hi.announced⟩
      · exact hi.closeIngest
    | addMany message read =>
      simp only [executeIngest]
      split
      · exact hi.closeIngest
      · exact hi.gotoIngest hok
    | save message read =>
      simp only [executeIngest]
      split
      · exact hi.closeIngest
      · rename_i copy events hr
        exact hi.gotoIngest ⟨hok, hr, hok.1.symm⟩
    | commit message read copy events seen => exact inv_commit_ingest hi hpc hu
  | executeTick i =>
    obtain ⟨pc, hpc, rfl⟩ := Option.map_eq_some_iff.1 h
    have hok := hi.ticks i pc hpc
    cases pc with
    | listSilent now =>
      simp only [executeTick]
      split
      · split
        · exact hi.closeTick
        · rename_i copy events hm
          exact hi.gotoTick (marked_markOffline hm)
      · exact hi.closeTick
    | save read copy events => exact hi.gotoTick hok
    | commit read copy events seen =>
      simp only [Undisturbed, TickUndisturbed, hpc] at hu
      exact inv_commit_tick hi hpc hu

end

/-! ## Runs -/

/-- **The silence state agrees with the stored readings**, in every interleaving of ingests and ticks in
which a tick commits on the last-seen instant it listed and no newer reading commits over an
announcement its save did not see: the sensor was last seen when its newest reading was recorded, and
while it is announced offline no reading is newer than the announcement says. -/
theorem silence_agrees {id : SensorId} {plantId : PlantId} {addedAt : Instant} {acts : List Action} {w : World}
    (hm : Meets step Undisturbed (World.registered id plantId addedAt) acts)
    (h : run step (World.registered id plantId addedAt) acts = some w) :
    w.sensor.lastSeenAt = newest w.readings ∧
      ∀ t, w.sensor.offlineAnnouncedAt = some t →
        ∃ last, announced t w.outbox = some last ∧ ∀ r ∈ w.readings, r.recordedAt ≤ last := by
  have hi : Inv w := inv_of_meets (fun _ _ _ => inv_step) (inv_registered id plantId addedAt) hm h
  refine ⟨hi.lastSeen, fun t ht => ?_⟩
  obtain ⟨last, hlast, ha⟩ := hi.announced t ht
  exact ⟨last, ha, le_newest (hi.lastSeen.symm.trans hlast)⟩

/-- A sensor on a fern. -/
def probe : World := .registered 7 1 0

/-- Its reading at the instant. -/
def reading (recordedAt : Instant) : SensorReading :=
  ⟨7, recordedAt, ⟨50, by decide, by decide⟩, ⟨20, by decide, by decide⟩, ⟨100, by decide⟩⟩

/-- A message is ingested with nothing in between. -/
def ingested (recordedAt : Instant) : List Action :=
  [.receive (reading recordedAt), .ingest, .ingest, .ingest, .ingest]

/-- A tick runs with nothing in between. -/
def ticked (i : ℕ) (now : Instant) : List Action := [.tick i now, .executeTick i, .executeTick i, .executeTick i]

/-- A late reading is stored while a tick announces the silence, and keeps it. -/
def lateReading : List Action :=
  ingested (seconds 1000) ++ [.tick 0 (seconds 2000), .executeTick 0, .executeTick 0, .receive (reading (seconds 900)), .ingest, .ingest, .ingest,
    .executeTick 0, .ingest]

theorem silence_agrees_late :
    ∃ w, run step probe lateReading = some w ∧ w.sensor.offlineAnnouncedAt = some (seconds 2000) ∧
      w.sensor.lastSeenAt = newest w.readings := by
  have hrun : run step probe lateReading = some ((run step probe lateReading).get (by decide)) :=
    (Option.some_get _).symm
  exact ⟨_, hrun, by decide, (silence_agrees (by decide) hrun).1⟩

/-- A tick lists the silent sensor; a reading is ingested; the tick saves and commits. -/
def takenBack : List Action :=
  ingested (seconds 1000) ++ [.tick 0 (seconds 2000), .executeTick 0] ++ ingested (seconds 2000) ++ [.executeTick 0, .executeTick 0]

/-- A reading is received and saved; a tick announces the silence; the reading commits. -/
def stillAnnounced : List Action :=
  ingested (seconds 1000) ++ [.receive (reading (seconds 2000)), .ingest, .ingest, .ingest] ++ ticked 0 (seconds 2000) ++ [.ingest]

/-- The newest reading is stored and the row says the sensor was last seen before it; and the sensor is
announced offline over the reading that ended its silence. -/
theorem silence_disagrees :
    (∃ w, run step probe takenBack = some w ∧ w.sensor.lastSeenAt = some (seconds 1000) ∧ newest w.readings = some (seconds 2000)) ∧
      ∃ w, run step probe stillAnnounced = some w ∧ w.sensor.offlineAnnouncedAt = some (seconds 2000) ∧
        announced (seconds 2000) w.outbox = some (seconds 1000) ∧ ∃ r ∈ w.readings, seconds 1000 < r.recordedAt := by
  constructor
  · exact ⟨(run step probe takenBack).get (by decide), (Option.some_get _).symm, by decide, by decide⟩
  · exact ⟨(run step probe stillAnnounced).get (by decide), (Option.some_get _).symm, by decide, by decide, by decide⟩

end Plantkeeper.Telemetry
