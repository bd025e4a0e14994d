/-
Silence is announced once and the tick never fails. The three conditions of `list_silent` are the three
refusals of `mark_offline`, so a tick marks what it selected and marks it once. A later tick announces a
sensor only if its ten minutes ended in between (`crossed_announced`), and a sensor is announced again
only after a reading that is not older than the one its silence began with.
-/
import Mathlib.Data.List.Sort
import Plantkeeper.Lib.Fold
import Plantkeeper.Telemetry.Transactions

namespace Plantkeeper.Telemetry

open Fold

/-! ## The job -/

/-- The order of `(last_seen_at, id)`. -/
def SeenBefore (a b : Sensor) : Prop :=
  match a.lastSeenAt, b.lastSeenAt with
  | some x, some y => x < y ∨ x = y ∧ a.id ≤ b.id
  | _, _ => True

instance : DecidableRel SeenBefore := fun a b => by
  unfold SeenBefore
  split <;> infer_instance

/-- `list_silent`. -/
def listSilent (sensors : List Sensor) (threshold : Instant) : List Sensor :=
  (sensors.filter (silent · threshold)).insertionSort SeenBefore

/-- The table of the sensors, by their key, and the outbox. -/
structure Fleet where
  sensors : List Sensor
  outbox : List Event
  distinct : (sensors.map (·.id)).Nodup

/-- `save`: the sensor's row is updated. -/
def Fleet.save (f : Fleet) (s : Sensor) : Fleet where
  sensors := f.sensors.map fun x => if x.id = s.id then s else x
  outbox := f.outbox
  distinct := by
    have hids : ∀ x : Sensor, (if x.id = s.id then s else x).id = x.id := by
      intro x
      split
      · rename_i h
        exact h.symm
      · rfl
    rw [List.map_map]
    simpa only [Function.comp_def, hids] using f.distinct

/-- One turn of the loop of `run_once`. -/
def announce (now : Instant) (f : Fleet) (s : Sensor) : Except Error Fleet :=
  (s.markOffline now).map fun (marked, events) => { f.save marked with outbox := f.outbox ++ events }

/-- `SensorSilenceJob.run_once`: the number of sensors it announced. -/
def runOnce (now : Instant) (f : Fleet) : Except Error (Fleet × ℕ) := do
  let sensors := listSilent f.sensors (now - OFFLINE_AFTER)
  let f ← sensors.foldlM (announce now) f
  return (f, sensors.length)

/-! ## Histories of one sensor -/

inductive Call
  | record (r : SensorReading)
  | markOffline (now : Instant)
  deriving DecidableEq

def Call.on (s : Sensor) : Call → Except Error (Sensor × List Event)
  | .record r => s.record r
  | .markOffline now => s.markOffline now

/-- A call on a sensor and what it has recorded so far; a call that raises changes nothing. -/
def handle (s : Sensor × List Event) (c : Call) : Sensor × List Event :=
  match c.on s.1 with
  | .ok (sensor, events) => (sensor, s.2 ++ events)
  | .error _ => s

/-- A sensor after its calls, and all the events they recorded. -/
def history (s : Sensor) (calls : List Call) : Sensor × List Event := calls.foldl handle (s, [])

/-- The event is of a reading at or after the instant. -/
def Event.ReceivedFrom (last : Instant) : Event → Prop
  | .telemetryReceived _ _ recordedAt .. => last ≤ recordedAt
  | _ => False

/-! ## What a tick selects -/

variable {s : Sensor} {now now' threshold : Instant} {f : Fleet}

theorem silent_eq_true : silent s threshold = true ↔ ∃ last, s.lastSeenAt = some last ∧ last ≤ threshold ∧ s.offlineAnnouncedAt = none := by
  unfold silent
  cases s.lastSeenAt with
  | none => simp
  | some last => simp

/-- What a successful `mark_offline` makes of the sensor. -/
def Sensor.announcedAt (s : Sensor) (now : Instant) : Sensor := { s with offlineAnnouncedAt := some now }

/-- What a successful `mark_offline` records. -/
def announcement (now : Instant) (s : Sensor) : Event :=
  .sensorOffline s.id s.plantId (s.lastSeenAt.getD now) (now - s.lastSeenAt.getD now) now

theorem silence_ends (last now : Instant) : last ≤ now - OFFLINE_AFTER ↔ ¬ now - last < OFFLINE_AFTER := by
  have hiff : ∀ a b c : ℤ, a ≤ b - c ↔ ¬ b - a < c := by omega
  exact hiff last now OFFLINE_AFTER

theorem markOffline_of_silent (h : silent s (now - OFFLINE_AFTER) = true) :
    s.markOffline now = .ok (s.announcedAt now, [announcement now s]) := by
  obtain ⟨last, hlast, hle, hnone⟩ := silent_eq_true.1 h
  unfold Sensor.markOffline announcement Sensor.announcedAt
  simp [hlast, hnone, (silence_ends last now).1 hle]

/-- The query selects a sensor exactly when the aggregate can be marked. -/
theorem silent_iff_markOffline : silent s (now - OFFLINE_AFTER) = true ↔ ∃ r, s.markOffline now = .ok r := by
  constructor
  · exact fun h => ⟨_, markOffline_of_silent h⟩
  · rintro ⟨r, h⟩
    unfold Sensor.markOffline at h
    split at h
    · cases h
    · rename_i last hlast
      split at h
      · cases h
      · rename_i hlong
        split at h
        · cases h
        · rename_i hnone
          exact silent_eq_true.2 ⟨last, hlast, (silence_ends last now).2 hlong, by simpa using hnone⟩

theorem mem_listSilent {sensors : List Sensor} : s ∈ listSilent sensors threshold ↔ s ∈ sensors ∧ silent s threshold = true := by
  unfold listSilent
  rw [List.mem_insertionSort, List.mem_filter]

theorem listSilent_distinct (f : Fleet) (threshold : Instant) : ((listSilent f.sensors threshold).map (·.id)).Nodup := by
  have hperm := ((List.perm_insertionSort SeenBefore (f.sensors.filter (silent · threshold))).map (·.id)).nodup_iff
  exact hperm.2 (f.distinct.sublist (List.filter_sublist.map _))

/-! ## What a tick does -/

/-- The sensors of the list are announced, the others left alone. -/
def announceAll (l : List Sensor) (now : Instant) (x : Sensor) : Sensor := if x ∈ l then x.announcedAt now else x

/-- A sensor that is announced is no longer one of the rest. -/
theorem announceAll_cons {s : Sensor} {l : List Sensor} (hother : ∀ y ∈ l, y.id ≠ s.id) (x : Sensor) :
    announceAll l now (announceAll [s] now x) = announceAll (s :: l) now x := by
  unfold announceAll
  by_cases hxs : x = s
  · rw [if_pos (List.mem_singleton.2 hxs), if_pos (List.mem_cons.2 (.inl hxs)), if_neg]
    intro hin
    exact hother _ hin (by rw [hxs]; rfl)
  · simp [hxs]

/-- The loop marks each sensor of the list once. -/
theorem announce_loop : ∀ {l : List Sensor} {f : Fleet}, (l.map (·.id)).Nodup →
    (∀ s ∈ l, silent s (now - OFFLINE_AFTER) = true) → (∀ x ∈ f.sensors, ∀ s ∈ l, x.id = s.id → x = s) →
    ∃ f', l.foldlM (announce now) f = .ok f' ∧ f'.sensors = f.sensors.map (announceAll l now) ∧
      f'.outbox = f.outbox ++ l.map (announcement now)
  | [], f, _, _, _ => by
    have hid : announceAll [] now = id := funext fun x => if_neg List.not_mem_nil
    exact ⟨f, rfl, by rw [hid, List.map_id], (List.append_nil _).symm⟩
  | s :: l, f, hnodup, hsilent, hsame => by
    rw [List.map_cons, List.nodup_cons] at hnodup
    have hother : ∀ y ∈ l, y.id ≠ s.id := fun y hy heq => hnodup.1 (List.mem_map.2 ⟨y, hy, heq⟩)
    have hsaved : ∀ x ∈ f.sensors, (if x.id = s.id then s.announcedAt now else x) = announceAll [s] now x := by
      intro x hx
      unfold announceAll
      by_cases hid : x.id = s.id
      · have heq := hsame x hx s (List.mem_cons_self ..) hid
        rw [if_pos hid, if_pos (List.mem_singleton.2 heq), heq]
      · rw [if_neg hid, if_neg fun hin => hid (congrArg Sensor.id (List.mem_singleton.1 hin))]
    have hstep : announce now f s = .ok { f.save (s.announcedAt now) with outbox := f.outbox ++ [announcement now s] } := by
      unfold announce
      rw [markOffline_of_silent (hsilent s (List.mem_cons_self ..))]
      rfl
    have hsensors : (f.save (s.announcedAt now)).sensors = f.sensors.map (announceAll [s] now) := List.map_congr_left hsaved
    obtain ⟨f', hloop, hf', hout⟩ := announce_loop
      (l := l) (f := { f.save (s.announcedAt now) with outbox := f.outbox ++ [announcement now s] }) hnodup.2
      (fun y hy => hsilent y (List.mem_cons_of_mem _ hy)) (by
        intro x hx y hy hid
        have hx : x ∈ f.sensors.map (announceAll [s] now) := hsensors ▸ hx
        obtain ⟨z, hz, rfl⟩ := List.mem_map.1 hx
        unfold announceAll at hid ⊢
        split at hid
        · rename_i hzs
          rw [List.mem_singleton.1 hzs] at hid
          exact absurd hid.symm (hother y hy)
        · rename_i hzs
          rw [if_neg hzs]
          exact hsame z hz y (List.mem_cons_of_mem _ hy) hid)
    refine ⟨f', by rw [List.foldlM_cons, hstep]; exact hloop, ?_, ?_⟩
    · rw [hf']
      show List.map _ (f.save (s.announcedAt now)).sensors = _
      rw [hsensors, List.map_map]
      exact List.map_congr_left fun x _ => announceAll_cons hother x
    · rw [hout]
      simp

/-- A tick never raises: it announces the silent sensors. -/
theorem runOnce_eq (now : Instant) (f : Fleet) : ∃ f', runOnce now f = .ok (f', (listSilent f.sensors (now - OFFLINE_AFTER)).length) ∧
    f'.sensors = f.sensors.map (announceAll (listSilent f.sensors (now - OFFLINE_AFTER)) now) ∧
    f'.outbox = f.outbox ++ (listSilent f.sensors (now - OFFLINE_AFTER)).map (announcement now) := by
  have hsilent : ∀ s ∈ listSilent f.sensors (now - OFFLINE_AFTER), silent s (now - OFFLINE_AFTER) = true :=
    fun s hs => (mem_listSilent.1 hs).2
  obtain ⟨f', hloop, hsensors, hout⟩ := announce_loop (listSilent_distinct f (now - OFFLINE_AFTER)) hsilent
    (fun x hx s hs hid => List.inj_on_of_nodup_map f.distinct hx (mem_listSilent.1 hs).1 hid)
  exact ⟨f', bind_eq_ok.2 ⟨f', hloop, rfl⟩, hsensors, hout⟩

/-- What a second tick with no reading in between selects: the sensors that were not silent yet. -/
theorem mem_listSilent_again {sensors : List Sensor} {threshold' : Instant} :
    s ∈ listSilent (sensors.map (announceAll (listSilent sensors threshold) now)) threshold' ↔
      s ∈ sensors ∧ ∃ last, s.lastSeenAt = some last ∧ s.offlineAnnouncedAt = none ∧ threshold < last ∧ last ≤ threshold' := by
  rw [mem_listSilent, silent_eq_true]
  constructor
  · rintro ⟨hin, last, hlast, hle, hnone⟩
    obtain ⟨x, hx, rfl⟩ := List.mem_map.1 hin
    unfold announceAll at hlast hnone ⊢
    split at hnone
    · cases hnone
    · rename_i hnot
      rw [if_neg hnot] at hlast ⊢
      refine ⟨hx, last, hlast, hnone, ?_, hle⟩
      by_contra hle'
      exact hnot (mem_listSilent.2 ⟨hx, silent_eq_true.2 ⟨last, hlast, Int.not_lt.1 hle', hnone⟩⟩)
  · rintro ⟨hin, last, hlast, hnone, hlt, hle⟩
    have hnot : s ∉ listSilent sensors threshold := by
      intro hs
      obtain ⟨last', hlast', hle', _⟩ := silent_eq_true.1 (mem_listSilent.1 hs).2
      rw [hlast] at hlast'
      cases hlast'
      exact absurd (Int.lt_of_lt_of_le hlt hle') (Int.lt_irrefl _)
    exact ⟨List.mem_map.2 ⟨s, hin, if_neg hnot⟩, last, hlast, hle, hnone⟩

/-! ## Histories -/

/-- Every announced silence is either followed by a reading at or after its last-seen instant, or is the
sensor's current one. -/
def Answered (s : Sensor × List Event) : Prop :=
  ∀ before id plantId last d t after, s.2 = before ++ Event.sensorOffline id plantId last d t :: after →
    (∃ e ∈ after, e.ReceivedFrom last) ∨ s.1.offlineAnnouncedAt.isSome ∧ s.1.lastSeenAt = some last

/-- Between two announcements there is a reading at or after the last-seen instant of the first. -/
def Separated (events : List Event) : Prop :=
  ∀ before id plantId last d t between id' plantId' last' d' t' after,
    events = before ++ Event.sensorOffline id plantId last d t :: between ++ Event.sensorOffline id' plantId' last' d' t' :: after →
      ∃ e ∈ between, e.ReceivedFrom last

theorem received_events (s : Sensor) (r : SensorReading) {last : Instant} (h : last ≤ r.recordedAt) :
    ∃ e ∈ s.events r, e.ReceivedFrom last := by
  refine ⟨.telemetryReceived s.id s.plantId r.recordedAt r.moisture r.temperature r.light r.recordedAt, ?_, h⟩
  unfold Sensor.events
  simp

theorem offline_notMem_events (s : Sensor) (r : SensorReading) {id : SensorId} {plantId : PlantId} {last : Instant} {d : Duration}
    {t : Instant} : Event.sensorOffline id plantId last d t ∉ s.events r := by
  intro h
  have hnil := announces_events s r t
  have hmem : last ∈ (s.events r).filterMap (Event.announces t) := List.mem_filterMap.2 ⟨_, h, by simp [Event.announces]⟩
  rw [hnil] at hmem
  cases hmem

/-- An element of two lists in a row is in the first, before the rest of it and the second, or in the second. -/
theorem append_split {α : Type} {l l' before after : List α} {x : α} (h : l ++ l' = before ++ x :: after) :
    (∃ rest, l = before ++ x :: rest ∧ after = rest ++ l') ∨ (∃ rest, l' = rest ++ x :: after ∧ before = l ++ rest) := by
  rcases List.append_eq_append_iff.1 h with ⟨rest, hbefore, hl'⟩ | ⟨rest, hl, hafter⟩
  · exact .inr ⟨rest, hl', hbefore⟩
  · cases rest with
    | nil =>
      rw [List.append_nil] at hl
      exact .inr ⟨[], hafter.symm, by rw [hl, List.append_nil]⟩
    | cons y rest =>
      cases hafter
      exact .inl ⟨rest, hl, rfl⟩

theorem answered_record {σ : Sensor × List Event} (h : Answered σ) (r : SensorReading) :
    Answered (σ.1.seen r.recordedAt, σ.2 ++ σ.1.events r) := by
  intro before id plantId last d t after hsplit
  rcases append_split hsplit with ⟨rest, hold, rfl⟩ | ⟨rest, hnew, _⟩
  · rcases h before id plantId last d t rest hold with ⟨e, he, hfrom⟩ | ⟨hsome, hlast⟩
    · exact .inl ⟨e, List.mem_append_left _ he, hfrom⟩
    · -- the current silence: a reading from it on ends it, an older one leaves it
      by_cases hle : last ≤ r.recordedAt
      · obtain ⟨e, he, hfrom⟩ := received_events σ.1 r hle
        exact .inl ⟨e, List.mem_append_right _ he, hfrom⟩
      · have hsame : σ.1.seen r.recordedAt = σ.1 := by
          unfold Sensor.seen
          rw [hlast, Option.all_some, if_neg (by simpa using hle)]
        exact .inr ⟨by rw [hsame]; exact hsome, by rw [hsame]; exact hlast⟩
  · exact absurd (hnew ▸ List.mem_append_right rest (List.mem_cons_self ..)) (offline_notMem_events σ.1 r)

/-- A silence is announced only when every one before it has been answered. -/
theorem separated_record {σ : Sensor × List Event} (h : Separated σ.2) (r : SensorReading) : Separated (σ.2 ++ σ.1.events r) := by
  intro before id plantId last d t between id' plantId' last' d' t' after hsplit
  rw [List.append_assoc, List.cons_append] at hsplit
  rcases append_split hsplit with ⟨rest, hold, hrest⟩ | ⟨rest, hnew, _⟩
  · rcases append_split hrest.symm with ⟨rest', hin, _⟩ | ⟨rest', hin, _⟩
    · rw [hin] at hold
      exact h before id plantId last d t between id' plantId' last' d' t' rest' (by rw [hold]; simp)
    · exact absurd (hin ▸ List.mem_append_right rest' (List.mem_cons_self ..)) (offline_notMem_events σ.1 r)
  · exact absurd (hnew ▸ List.mem_append_right rest (List.mem_cons_self ..)) (offline_notMem_events σ.1 r)

theorem answered_markOffline {σ : Sensor × List Event} (h : Answered σ) {last : Instant} (hlast : σ.1.lastSeenAt = some last)
    (hnone : σ.1.offlineAnnouncedAt = none) (now : Instant) :
    Answered ({ σ.1 with offlineAnnouncedAt := some now }, σ.2 ++ [.sensorOffline σ.1.id σ.1.plantId last (now - last) now]) := by
  intro before id plantId last' d t after hsplit
  rcases append_split hsplit with ⟨rest, hold, rfl⟩ | ⟨rest, hnew, _⟩
  · rcases h before id plantId last' d t rest hold with ⟨e, he, hfrom⟩ | ⟨hsome, _⟩
    · exact .inl ⟨e, List.mem_append_left _ he, hfrom⟩
    · rw [hnone] at hsome
      cases hsome
  · cases rest with
    | nil =>
      cases hnew
      exact .inr ⟨rfl, hlast⟩
    | cons y rest => simp at hnew

theorem separated_markOffline {σ : Sensor × List Event} (ha : Answered σ) (h : Separated σ.2)
    (hnone : σ.1.offlineAnnouncedAt = none) (offline : Event) : Separated (σ.2 ++ [offline]) := by
  intro before id plantId last d t between id' plantId' last' d' t' after hsplit
  rw [List.append_assoc, List.cons_append] at hsplit
  rcases append_split hsplit with ⟨rest, hold, hrest⟩ | ⟨rest, hnew, _⟩
  · rcases append_split hrest.symm with ⟨rest', hin, _⟩ | ⟨rest', hin, hbetween⟩
    · rw [hin] at hold
      exact h before id plantId last d t between id' plantId' last' d' t' rest' (by rw [hold]; simp)
    · -- the new announcement: every earlier silence has been answered
      have hempty : rest' = [] := by
        cases rest' with
        | nil => rfl
        | cons y rest' => simp at hin
      rw [hempty, List.append_nil] at hbetween
      rw [hbetween]
      exact (ha before id plantId last d t rest hold).resolve_right fun hsome => by
        rw [hnone] at hsome
        cases hsome.1
  · cases rest with
    | nil => simp at hnew
    | cons y rest => simp at hnew

theorem handle_separated {σ : Sensor × List Event} (ha : Answered σ) (h : Separated σ.2) (c : Call) :
    Answered (handle σ c) ∧ Separated (handle σ c).2 := by
  unfold handle
  cases hc : c.on σ.1 with
  | error e => exact ⟨ha, h⟩
  | ok r =>
    obtain ⟨sensor, events⟩ := r
    cases c with
    | record reading =>
      obtain ⟨rfl, rfl⟩ := Sensor.record_ok hc
      exact ⟨answered_record ha reading, separated_record h reading⟩
    | markOffline now =>
      have hnone : σ.1.offlineAnnouncedAt = none := (silent_eq_true.1 (silent_iff_markOffline.2 ⟨_, hc⟩)).choose_spec.2.2
      obtain ⟨last, hlast, rfl, rfl⟩ := Sensor.markOffline_ok hc
      exact ⟨answered_markOffline ha hlast hnone now, separated_markOffline ha h hnone _⟩

theorem history_separated (calls : List Call) {σ : Sensor × List Event} (ha : Answered σ) (h : Separated σ.2) :
    Separated (calls.foldl handle σ).2 := by
  induction calls generalizing σ with
  | nil => exact h
  | cons c calls ih =>
    obtain ⟨ha', h'⟩ := handle_separated ha h c
    exact ih ha' h'

/-! ## The result -/

/-- A sensor is not yet silent at the first tick and is at the second. -/
theorem crossed_announced : ¬ ∀ (f f' f'' : Fleet) (now now' : Instant) (n n' : ℕ), now ≤ now' →
    runOnce now f = .ok (f', n) → runOnce now' f' = .ok (f'', n') → n' = 0 := by
  intro h
  have hfirst := runOnce_eq 0 ⟨[⟨1, 2, 0, some 0, none⟩], [], List.nodup_singleton _⟩
  obtain ⟨f', hrun, hsensors, _⟩ := hfirst
  obtain ⟨f'', hrun', _⟩ := runOnce_eq OFFLINE_AFTER f'
  have hzero := h _ f' f'' 0 OFFLINE_AFTER _ _ (by decide) hrun hrun'
  have hin : (⟨1, 2, 0, some 0, none⟩ : Sensor) ∈ listSilent f'.sensors (OFFLINE_AFTER - OFFLINE_AFTER) := by
    rw [hsensors]
    exact mem_listSilent_again.2 ⟨List.mem_singleton_self _, 0, rfl, rfl, by decide, by decide⟩
  exact List.ne_nil_of_mem hin (List.eq_nil_of_length_eq_zero hzero)

/-- What `list_silent` selects is what can be marked, a tick never raises, a second tick with no reading
in between announces exactly the sensors whose silence became long enough in between, and between two
announcements of a sensor there is a reading at or after the last-seen instant of the first. -/
theorem silence_announced_once :
    (∀ (f : Fleet) (now : Instant),
      (∀ s, s ∈ listSilent f.sensors (now - OFFLINE_AFTER) ↔ s ∈ f.sensors ∧ ∃ r, s.markOffline now = .ok r) ∧
      ∃ f' n, runOnce now f = .ok (f', n) ∧ ∀ now', ∃ f'' late, runOnce now' f' = .ok (f'', late.length) ∧
        f''.outbox = f'.outbox ++ late.map (announcement now') ∧ (now' ≤ now → late = []) ∧
        ∀ s, s ∈ late ↔ s ∈ f.sensors ∧ ∃ last, s.lastSeenAt = some last ∧ s.offlineAnnouncedAt = none ∧
          now - OFFLINE_AFTER < last ∧ last ≤ now' - OFFLINE_AFTER) ∧
    ∀ (id : SensorId) (plantId : PlantId) (addedAt : Instant) (calls : List Call),
      Separated (history (Sensor.register id plantId addedAt) calls).2 := by
  refine ⟨fun f now => ⟨fun s => ?_, ?_⟩, fun id plantId addedAt calls => ?_⟩
  · rw [mem_listSilent, silent_iff_markOffline]
  · obtain ⟨f', hrun, hsensors, _⟩ := runOnce_eq now f
    refine ⟨f', _, hrun, fun now' => ?_⟩
    obtain ⟨f'', hrun', _, hout⟩ := runOnce_eq now' f'
    have hlate : ∀ s, s ∈ listSilent f'.sensors (now' - OFFLINE_AFTER) ↔ s ∈ f.sensors ∧ ∃ last, s.lastSeenAt = some last ∧
        s.offlineAnnouncedAt = none ∧ now - OFFLINE_AFTER < last ∧ last ≤ now' - OFFLINE_AFTER := by
      intro s
      rw [hsensors]
      exact mem_listSilent_again
    refine ⟨f'', _, hrun', hout, fun hle => List.eq_nil_iff_forall_not_mem.2 fun s hs => ?_, hlate⟩
    obtain ⟨_, last, _, _, hlt, hle'⟩ := (hlate s).1 hs
    have hthreshold : now' - OFFLINE_AFTER ≤ now - OFFLINE_AFTER := Int.sub_le_sub_right hle _
    exact absurd (Int.lt_of_lt_of_le hlt (Int.le_trans hle' hthreshold)) (Int.lt_irrefl _)
  · refine history_separated calls (fun before _ _ _ _ _ after h => ?_) (fun before _ _ _ _ _ between _ _ _ _ _ after h => ?_)
    · simp at h
    · simp at h

end Plantkeeper.Telemetry
