/-
A window kept ahead of the clock never collides with the default partition. A row reaches the default
partition when its month has no partition, and while rows come from before the first window or before the
end of the last one, such a month is over: it is before the first window, skipped by a gap or retired. The
months a later tick creates are not over, so none of them is refused.
-/
import Plantkeeper.Telemetry.Retention

namespace Plantkeeper.Telemetry.Partitions

open Fold Run

variable {zone : SessionTimeZone} {db : Database} {m : Date} {r : Reading} {today later d : Date}
  {monthsAhead retentionMonths : ℤ} {w w' : World} {first : Option Date}

/-! ## The runs and what is said of them -/

/-- The date of the first tick of a run. -/
def firstTick : List Action → Option Date
  | [] => none
  | .insert _ :: acts => firstTick acts
  | .tick today _ _ _ :: _ => some today

/-- A row is inserted for an instant before the month of the first tick, or before the end of the most
recent window. -/
def InTime (zone : SessionTimeZone) (first : Option Date) (w : World) : Action → Prop
  | .insert r => (∀ d ∈ first, r.recordedAt < zone.midnight (monthOf d)) ∨
      ∃ window ∈ w.windows.head?, r.recordedAt < zone.midnight window.upper
  | .tick .. => True

instance (first : Option Date) (w : World) : (a : Action) → Decidable (InTime zone first w a)
  | .insert _ => inferInstanceAs (Decidable (_ ∨ _))
  | .tick .. => inferInstanceAs (Decidable True)

/-- The month was in the window of a tick. -/
def World.Created (w : World) (m : Date) : Prop :=
  ∃ window ∈ w.windows, window.first.index ≤ m.index ∧ m.index < window.upper.index

/-- A tick dropped the month. -/
def World.Retired (w : World) (m : Date) : Prop := partitionName m ∈ w.retired

/-! ## One step of a window -/

theorem SessionTimeZone.midnight_le (zone : SessionTimeZone) {a b : Date} (h : a.index ≤ b.index) :
    zone.midnight (monthOf a) ≤ zone.midnight (monthOf b) :=
  zone.le ((monthOf_isFirst a).le_iff.2 h)

/-- The window of a tick that commits. -/
theorem Ticked.windowOf {t : Tick} {months : List Date} {cutoff : Date} {mid : Database}
    (ht : Ticked zone db today later monthsAhead retentionMonths t months cutoff mid) :
    ∃ upper, windowOf today monthsAhead = [⟨monthOf today, upper⟩] ∧ upper.IsFirst ∧
      ∀ m : Date, m ∈ months ↔ m.IsFirst ∧ today.index ≤ m.index ∧ m.index < upper.index := by
  obtain ⟨hahead, hlen, hcons⟩ := monthsToCreate_eq_ok.1 ht.window
  have hlast : ∃ last ∈ months, last.index = today.index + (months.length - 1) := by
    have hi : months.length - 1 < months.length := by omega
    have hget := (List.forall₂_iff_get.1 hcons).2 (months.length - 1) (by rw [List.length_range]; exact hi) hi
    simp only [List.get_eq_getElem, List.getElem_range] at hget
    exact ⟨_, List.getElem_mem hi, hget.2⟩
  obtain ⟨last, hin, hindex⟩ := hlast
  obtain ⟨upper, hupper⟩ := ht.ends last hin
  obtain ⟨hfirst, hnext⟩ := nextMonth_eq_ok.1 hupper
  have hadd : addMonths (monthOf today) (monthsAhead + 1) = .ok upper :=
    addMonths_eq_ok.2 ⟨hfirst, by rw [monthOf_index]; omega⟩
  refine ⟨upper, by unfold Partitions.windowOf; rw [hadd], hfirst, fun m => ?_⟩
  rw [hcons.mem_iff]
  have : upper.index = today.index + months.length := by omega
  rw [this]

/-- The cutoff of a tick is not after the month of its second date. -/
theorem Ticked.cutoff_le {t : Tick} {months : List Date} {cutoff : Date} {mid : Database}
    (ht : Ticked zone db today later monthsAhead retentionMonths t months cutoff mid) : cutoff.index ≤ later.index := by
  obtain ⟨hpos, _, hindex⟩ := retentionCutoff_eq_ok.1 ht.farEnd
  omega

theorem Ticked.defaultRow_iff {t : Tick} {months : List Date} {cutoff : Date} {mid : Database}
    (ht : Ticked zone db today later monthsAhead retentionMonths t months cutoff mid) : t.db.DefaultRow r ↔ db.DefaultRow r := by
  rw [← ht.ensured.defaultRow_iff]
  constructor
  · rintro ⟨p, hp, hd, hr⟩
    exact ⟨p, ((ht.kept.mem p).1 hp).1, hd, hr⟩
  · rintro ⟨p, hp, hd, hr⟩
    exact ⟨p, (ht.kept.mem p).2 ⟨hp, fun m hmonth => absurd hd hmonth.not_default⟩, hd, hr⟩

theorem Ticked.hasMonth_iff {t : Tick} {months : List Date} {cutoff : Date} {mid : Database}
    (ht : Ticked zone db today later monthsAhead retentionMonths t months cutoff mid) :
    (mid.HasMonth m ↔ db.HasMonth m ∨ m ∈ months) ∧ (t.db.HasMonth m ↔ mid.HasMonth m ∧ cutoff.index ≤ m.index) := by
  obtain ⟨_, _, hcons⟩ := monthsToCreate_eq_ok.1 ht.window
  refine ⟨ht.ensured.hasMonth_iff fun m hm => ⟨(hcons.mem_iff.1 hm).1, ht.ends m hm⟩, ?_, ?_⟩
  · rintro ⟨p, hp, hmonth⟩
    obtain ⟨hmid, hfrom⟩ := (ht.kept.mem p).1 hp
    exact ⟨⟨p, hmid, hmonth⟩, hfrom m hmonth⟩
  · rintro ⟨⟨p, hp, hmonth⟩, hle⟩
    exact ⟨p, (ht.kept.mem p).2 ⟨hp, fun m' hmonth' => hmonth.unique hmonth' ▸ hle⟩, hmonth⟩

/-- Of the dropped names a month's is there exactly when the month is dropped. -/
theorem Ticked.dropped_iff {t : Tick} {months : List Date} {cutoff : Date} {mid : Database} (hm : m.IsFirst)
    (ht : Ticked zone db today later monthsAhead retentionMonths t months cutoff mid) :
    partitionName m ∈ t.dropped ↔ mid.HasMonth m ∧ m.index < cutoff.index := by
  rw [ht.dropped]
  constructor
  · rintro ⟨m', hhas, hlt, hname⟩
    have hfirst : m'.IsFirst := hhas.elim fun _ hp => hp.2.1
    rw [partitionName_inj hm hfirst (congrArg unqualified hname)]
    exact ⟨hhas, hlt⟩
  · rintro ⟨hhas, hlt⟩
    exact ⟨m, hhas, hlt, rfl⟩

/-! ## Where an inserted row goes -/

theorem Partition.isDefault_insert {p : Partition} : (p.insert r).IsDefault ↔ p.IsDefault := by
  simp [Partition.IsDefault]

theorem Partition.ofMonth_insert {p : Partition} : (p.insert r).OfMonth m ↔ p.OfMonth m := by
  simp [Partition.OfMonth]

/-- The partitions after an insert are those before it, one of them with the row. -/
theorem Database.mem_insert {q : Partition} : q ∈ (db.insert zone r).partitions ↔
    ∃ p ∈ db.partitions, (db.Routes zone r.recordedAt p ∧ q = p.insert r) ∨ (¬ db.Routes zone r.recordedAt p ∧ q = p) := by
  unfold Database.insert
  rw [List.mem_map]
  refine exists_congr fun p => and_congr_right fun _ => ?_
  split
  · rename_i hroute
    simp [hroute, eq_comm]
  · rename_i hroute
    simp [hroute, eq_comm]

theorem Database.hasMonth_insert : (db.insert zone r).HasMonth m ↔ db.HasMonth m := by
  constructor
  · rintro ⟨q, hq, hmonth⟩
    obtain ⟨p, hp, ⟨_, rfl⟩ | ⟨_, rfl⟩⟩ := Database.mem_insert.1 hq
    · exact ⟨p, hp, Partition.ofMonth_insert.1 hmonth⟩
    · exact ⟨q, hp, hmonth⟩
  · rintro ⟨p, hp, hmonth⟩
    by_cases hroute : db.Routes zone r.recordedAt p
    · exact ⟨p.insert r, Database.mem_insert.2 ⟨p, hp, .inl ⟨hroute, rfl⟩⟩, Partition.ofMonth_insert.2 hmonth⟩
    · exact ⟨p, Database.mem_insert.2 ⟨p, hp, .inr ⟨hroute, rfl⟩⟩, hmonth⟩

/-- A row in a month that has its partition goes there. -/
theorem Database.HasMonth.insert (hhas : db.HasMonth m) (hin : InMonth zone m r.recordedAt) :
    (db.insert zone r).MonthRow m r := by
  obtain ⟨p, hp, hmonth⟩ := hhas
  have hroute : db.Routes zone r.recordedAt p := .inl (hmonth.holds_iff.2 hin)
  exact ⟨p.insert r, Database.mem_insert.2 ⟨p, hp, .inl ⟨hroute, rfl⟩⟩, Partition.ofMonth_insert.2 hmonth,
    Partition.mem_insert.2 (.inr rfl)⟩

theorem Database.MonthRow.insert {x : Reading} (h : db.MonthRow m x) : (db.insert zone r).MonthRow m x := by
  obtain ⟨p, hp, hmonth, hx⟩ := h
  by_cases hroute : db.Routes zone r.recordedAt p
  · exact ⟨p.insert r, Database.mem_insert.2 ⟨p, hp, .inl ⟨hroute, rfl⟩⟩, Partition.ofMonth_insert.2 hmonth,
      Partition.mem_insert.2 (.inl hx)⟩
  · exact ⟨p, Database.mem_insert.2 ⟨p, hp, .inr ⟨hroute, rfl⟩⟩, hmonth, hx⟩

/-- A row reaches the default partition exactly when its instant is in no month that has a partition. -/
theorem Database.Sound.defaultRow_insert (h : db.Sound zone) {x : Reading} : (db.insert zone r).DefaultRow x ↔
    db.DefaultRow x ∨ x = r ∧ ∀ m, db.HasMonth m → ¬ InMonth zone m r.recordedAt := by
  have hroutes : ∀ p, p.IsDefault →
      (db.Routes zone r.recordedAt p ↔ ∀ m, db.HasMonth m → ¬ InMonth zone m r.recordedAt) := by
    intro p hd
    constructor
    · rintro (hholds | ⟨_, hnone⟩) m ⟨q, hq, hmonth⟩ hin
      · exact hd.not_holds hholds
      · exact hnone q hq (hmonth.holds_iff.2 hin)
    · refine fun hnot => .inr ⟨hd.2, fun q hq hholds => ?_⟩
      rcases h.kinds q hq with hd' | ⟨m, hmonth⟩
      · exact hd'.not_holds hholds
      · exact hnot m ⟨q, hq, hmonth⟩ (hmonth.holds_iff.1 hholds)
  constructor
  · rintro ⟨q, hq, hd, hx⟩
    obtain ⟨p, hp, ⟨hroute, rfl⟩ | ⟨_, rfl⟩⟩ := Database.mem_insert.1 hq
    · have hdefault := Partition.isDefault_insert.1 hd
      rcases Partition.mem_insert.1 hx with hold | rfl
      · exact .inl ⟨p, hp, hdefault, hold⟩
      · exact .inr ⟨rfl, (hroutes p hdefault).1 hroute⟩
    · exact .inl ⟨q, hp, hd, hx⟩
  · rintro (⟨p, hp, hd, hx⟩ | ⟨rfl, hnot⟩)
    · by_cases hroute : db.Routes zone r.recordedAt p
      · exact ⟨p.insert r, Database.mem_insert.2 ⟨p, hp, .inl ⟨hroute, rfl⟩⟩, Partition.isDefault_insert.2 hd,
          Partition.mem_insert.2 (.inl hx)⟩
      · exact ⟨p, Database.mem_insert.2 ⟨p, hp, .inr ⟨hroute, rfl⟩⟩, hd, hx⟩
    · obtain ⟨p, hp, hd⟩ := h.exists_default
      exact ⟨p.insert x, Database.mem_insert.2 ⟨p, hp, .inl ⟨(hroutes p hd).2 hnot, rfl⟩⟩, Partition.isDefault_insert.2 hd,
        Partition.mem_insert.2 (.inr rfl)⟩

/-! ## The invariant -/

/-- The date the months are over at: the job's last one, before the first tick that of the first tick. -/
def World.clock (first : Option Date) (w : World) : Option Date := w.today.or first

theorem World.mem_clock : d ∈ w.clock first ↔ d ∈ w.today ∨ w.today = none ∧ d ∈ first := by
  unfold World.clock
  cases w.today <;> simp

/-- Rows of the default partition are of months that are over, the months with a partition are those that
were created and not retired, the retired ones are over, and the rest of the last window is there. -/
structure Ahead (zone : SessionTimeZone) (first : Option Date) (w : World) : Prop where
  sound : w.db.Sound zone
  past : ∀ d ∈ w.clock first, ∀ r, w.db.DefaultRow r → r.recordedAt < zone.midnight (monthOf d)
  present : ∀ m : Date, m.IsFirst → (w.db.HasMonth m ↔ w.Created m ∧ ¬ w.Retired m)
  retired : ∀ m : Date, m.IsFirst → w.Retired m → ∃ d ∈ w.today, m.index < d.index
  covered : ∀ window ∈ w.windows.head?, window.upper.IsFirst ∧ ∃ d ∈ w.today, ∀ m : Date, m.IsFirst → d.index ≤ m.index →
    m.index < window.upper.index → w.db.HasMonth m
  opened : ∀ d ∈ w.today, ∃ f ∈ first, f.index ≤ d.index

theorem Ahead.migrated (first : Option Date) : Ahead zone first World.migrated where
  sound := Database.Sound.migrated
  past d _ r := by
    rintro ⟨p, hp, _, hr⟩
    rw [List.mem_singleton.1 hp] at hr
    cases hr
  present m _ := by
    constructor
    · rintro ⟨p, hp, hmonth⟩
      rw [List.mem_singleton.1 hp] at hmonth
      obtain ⟨_, _, _, _, hb⟩ := hmonth
      cases hb
    · rintro ⟨⟨_, hin, _⟩, _⟩
      cases hin
  retired m _ h := by cases h
  covered _ h := by cases h
  opened d h := by cases h

/-- A row that comes in time and reaches the default partition is of a month that is over. -/
theorem Ahead.insert_over (hw : Ahead zone first w) (hok : InTime zone first w (.insert r))
    (hnot : ∀ m, w.db.HasMonth m → ¬ InMonth zone m r.recordedAt) :
    ∀ d ∈ w.clock first, r.recordedAt < zone.midnight (monthOf d) := by
  intro d hd
  rcases hok with hearly | ⟨window, hwindow, hlt⟩
  · rcases World.mem_clock.1 hd with htoday | ⟨_, hfirst⟩
    · obtain ⟨f, hf, hle⟩ := hw.opened d htoday
      exact Int.lt_of_lt_of_le (hearly f hf) (zone.midnight_le hle)
    · exact hearly d hfirst
  · obtain ⟨hupper, d', htoday, hall⟩ := hw.covered window hwindow
    have hsame : d = d' := Option.mem_unique hd (World.mem_clock.2 (.inl htoday))
    subst hsame
    by_contra hle
    -- the instant is in the rest of the last window, and every month of it has its partition
    have hindex := (hupper.lt_iff).1 (zone.lt_of_le_of_lt (Int.not_lt.1 hle) hlt)
    rw [monthOf_index] at hindex
    obtain ⟨m, hm, hlo, hhi, hin⟩ := exists_inMonth (n := window.upper.index - d.index) (monthOf_isFirst d) hupper
      (by rw [monthOf_index]; omega) (Int.not_lt.1 hle) hlt
    exact hnot m (hall m hm hlo hhi) hin

theorem Ahead.insert (hw : Ahead zone first w) (hok : InTime zone first w (.insert r)) :
    Ahead zone first { w with db := w.db.insert zone r } where
  sound := hw.sound.insert r
  past d hd x hx := by
    rcases hw.sound.defaultRow_insert.1 hx with hold | ⟨rfl, hnot⟩
    · exact hw.past d hd x hold
    · exact hw.insert_over hok hnot d hd
  present m hm := Database.hasMonth_insert.trans (hw.present m hm)
  retired := hw.retired
  covered window hwindow := by
    obtain ⟨hupper, d, hd, hall⟩ := hw.covered window hwindow
    exact ⟨hupper, d, hd, fun m hm hlo hhi => Database.hasMonth_insert.2 (hall m hm hlo hhi)⟩
  opened := hw.opened

/-- A tick is the first one at the date the run's first tick has, or a later one. -/
def Opens (first : Option Date) (w : World) : Action → Prop
  | .insert _ => True
  | .tick today .. => w.today = none → first = some today

/-- Before a tick every date its rows are over at is in its month or before. -/
theorem World.clock_le (hopens : w.today = none → first = some today) (hclock : ∀ d ∈ w.today, d ≤ today) : ∃ d ∈ w.clock first, d.index ≤ today.index := by
  cases htoday : w.today with
  | none => exact ⟨today, World.mem_clock.2 (.inr ⟨htoday, hopens htoday⟩), Nat.le_refl _⟩
  | some d => exact ⟨d, World.mem_clock.2 (.inl htoday), Date.index_mono (hclock d htoday)⟩

theorem World.eq_of_mem_clock (htoday : w.today = some later) (hd : d ∈ w.clock first) : d = later := by
  unfold World.clock at hd
  rw [htoday] at hd
  exact (Option.some.inj hd).symm

section

variable (hw : Ahead zone first w) (hopens : w.today = none → first = some today) (hclock : ∀ d ∈ w.today, d ≤ today)

include hw hclock

/-- A month retired before a tick is before its window. -/
theorem Ahead.retired_lt {m : Date} (hm : m.IsFirst) (hret : w.Retired m) : m.index < today.index := by
  obtain ⟨d, hd, hlt⟩ := hw.retired m hm hret
  exact Nat.lt_of_lt_of_le hlt (Date.index_mono (hclock d hd))

include hopens

theorem Ahead.opened_le : ∃ f ∈ first, f.index ≤ today.index := by
  cases htoday : w.today with
  | none => exact ⟨today, hopens htoday, Nat.le_refl _⟩
  | some d =>
    obtain ⟨f, hf, hle⟩ := hw.opened d htoday
    exact ⟨f, hf, Nat.le_trans hle (Date.index_mono (hclock d htoday))⟩

/-- And the default rows are before its month. -/
theorem Ahead.defaultRow_lt {r : Reading} (hr : w.db.DefaultRow r) : r.recordedAt < zone.midnight (monthOf today) := by
  obtain ⟨d, hd, hle⟩ := World.clock_le hopens hclock
  exact Int.lt_of_lt_of_le (hw.past d hd r hr) (zone.midnight_le hle)

/-- A tick is not refused: the default rows are of months before its window. -/
theorem Ahead.not_refused (name : Relname) :
    runOnce zone w.db today later monthsAhead retentionMonths ≠ .error (.refused name) := by
  intro hrun
  obtain ⟨months, hmonths, m, hm, r, hr, hin, _⟩ := runOnce_refused hw.sound hrun
  obtain ⟨hfirst, hlo, _⟩ := (monthsToCreate_eq_ok.1 hmonths).2.2.mem_iff.1 hm
  obtain ⟨next, _, hwithin, _⟩ := hin
  have hpast := hw.defaultRow_lt hopens hclock hr
  have hstart : zone.midnight (monthOf today) ≤ zone.midnight m :=
    zone.le ((monthOf_isFirst today).le_iff.2 (by rw [monthOf_index]; omega))
  exact absurd (Int.lt_of_lt_of_le hpast (Int.le_trans hstart hwithin)) (Int.lt_irrefl _)

end

theorem Ahead.tick_ok (hw : Ahead zone first w) (hopens : w.today = none → first = some today)
    (hclock : ∀ d ∈ w.today, d ≤ today) (hlater : today ≤ later) {t : Tick}
    (hrun : runOnce zone w.db today later monthsAhead retentionMonths = .ok t) :
    Ahead zone first ⟨t.db, some later, windowOf today monthsAhead ++ w.windows, t.dropped ++ w.retired⟩ := by
  obtain ⟨months, cutoff, mid, ht⟩ := runOnce_ok hw.sound hrun
  obtain ⟨upper, hwindow, hupper, hmonths⟩ := ht.windowOf
  have hcutoff := ht.cutoff_le
  have hle := Date.index_mono hlater
  have hcreated : ∀ {w' : World}, w'.windows = windowOf today monthsAhead ++ w.windows → ∀ m : Date, m.IsFirst →
      (w'.Created m ↔ m ∈ months ∨ w.Created m) := by
    intro w' hw' m hm
    rw [World.Created, hw', hwindow, List.singleton_append]
    simp only [List.mem_cons, exists_eq_or_imp, hmonths, monthOf_index, hm, true_and]
    rfl
  have hretired : ∀ {w' : World}, w'.retired = t.dropped ++ w.retired → ∀ m : Date, m.IsFirst →
      (w'.Retired m ↔ (mid.HasMonth m ∧ m.index < cutoff.index) ∨ w.Retired m) := by
    intro w' hw' m hm
    rw [World.Retired, hw', List.mem_append, ht.dropped_iff hm]
    rfl
  refine ⟨ht.kept.sound, ?_, ?_, ?_, ?_, ?_⟩
  · intro d hd r hr
    rw [World.eq_of_mem_clock rfl hd]
    exact Int.lt_of_lt_of_le (hw.defaultRow_lt hopens hclock (ht.defaultRow_iff.1 hr)) (zone.midnight_le hle)
  · intro m hm
    rw [hcreated rfl m hm, hretired rfl m hm, ht.hasMonth_iff.2, ht.hasMonth_iff.1, hw.present m hm]
    constructor
    · rintro ⟨⟨hc, hnot⟩ | hin, hge⟩
      · exact ⟨.inr hc, fun h => h.elim (fun h => absurd h.2 (by omega)) hnot⟩
      · refine ⟨.inl hin, fun h => h.elim (fun h => absurd h.2 (by omega)) fun h => ?_⟩
        have h1 := hw.retired_lt hclock hm h
        have h2 := ((hmonths m).1 hin).2.1
        omega
    · rintro ⟨hin | hc, hnot⟩
      · exact ⟨.inr hin, Nat.le_of_not_lt fun hlt => hnot (.inl ⟨.inr hin, hlt⟩)⟩
      · have hnotRetired : ¬ w.Retired m := fun h => hnot (.inr h)
        exact ⟨.inl ⟨hc, hnotRetired⟩, Nat.le_of_not_lt fun hlt => hnot (.inl ⟨.inl ⟨hc, hnotRetired⟩, hlt⟩)⟩
  · intro m hm hret
    refine ⟨later, rfl, ?_⟩
    rcases (hretired rfl m hm).1 hret with ⟨_, hlt⟩ | hold
    · omega
    · have := hw.retired_lt hclock hm hold
      omega
  · intro window hin
    rw [hwindow] at hin
    cases hin
    refine ⟨hupper, later, rfl, fun m hm hlo hhi => ?_⟩
    exact ht.hasMonth_iff.2.2 ⟨ht.hasMonth_iff.1.2 (.inr ((hmonths m).2 ⟨hm, by omega, hhi⟩)), by omega⟩
  · rintro d ⟨⟩
    obtain ⟨f, hf, hfle⟩ := hw.opened_le hopens hclock
    exact ⟨f, hf, Nat.le_trans hfle hle⟩

/-- A tick that raises moves only the date. -/
theorem Ahead.tick_error (hw : Ahead zone first w) (hopens : w.today = none → first = some today)
    (hclock : ∀ d ∈ w.today, d ≤ today) (hlater : today ≤ later) : Ahead zone first { w with today := some later } := by
  have hle := Date.index_mono hlater
  refine ⟨hw.sound, ?_, hw.present, ?_, ?_, ?_⟩
  · intro d hd r hr
    rw [World.eq_of_mem_clock rfl hd]
    exact Int.lt_of_lt_of_le (hw.defaultRow_lt hopens hclock hr) (zone.midnight_le hle)
  · intro m hm hret
    have := hw.retired_lt hclock hm hret
    exact ⟨later, rfl, by omega⟩
  · intro window hin
    obtain ⟨hupper, d, hd, hall⟩ := hw.covered window hin
    have := Date.index_mono (hclock d hd)
    exact ⟨hupper, later, rfl, fun m hm hlo hhi => hall m hm (by omega) hhi⟩
  · rintro d ⟨⟩
    obtain ⟨f, hf, hfle⟩ := hw.opened_le hopens hclock
    exact ⟨f, hf, Nat.le_trans hfle hle⟩

theorem Ahead.step (hw : Ahead zone first w) (a : Action) (hok : InTime zone first w a ∧ Opens first w a)
    (hs : step zone w a = some w') : Ahead zone first w' := by
  cases a with
  | insert r =>
    cases hs
    exact hw.insert hok.1
  | tick today later monthsAhead retentionMonths =>
    obtain ⟨hclock, hlater, ⟨t, hrun, rfl⟩ | ⟨_, rfl⟩⟩ := step_tick hs
    · exact hw.tick_ok hok.2 hclock hlater hrun
    · exact hw.tick_error hok.2 hclock hlater

/-! ## Runs -/

theorem today_step (a : Action) (h : w.today ≠ none) (hs : step zone w a = some w') : w'.today ≠ none := by
  cases a with
  | insert r =>
    cases hs
    exact h
  | tick today later monthsAhead retentionMonths =>
    obtain ⟨_, _, ⟨t, _, rfl⟩ | ⟨_, rfl⟩⟩ := step_tick hs <;> simp

theorem opens_of_today : ∀ {acts : List Action} {w : World}, w.today ≠ none → Meets (step zone) (Opens first) w acts
  | [], _, _ => trivial
  | a :: acts, w, h => by
    refine ⟨?_, ?_⟩
    · cases a with
      | insert r => trivial
      | tick today later monthsAhead retentionMonths => exact fun hnone => absurd hnone h
    · cases hs : step zone w a with
      | none => trivial
      | some w' => exact opens_of_today (today_step a h hs)

/-- The first tick of a run is at the date of its first tick. -/
theorem opens_firstTick : ∀ (acts : List Action) {w : World}, w.today = none →
    Meets (step zone) (Opens (firstTick acts)) w acts
  | [], _, _ => trivial
  | .insert r :: acts, w, h => by
    have hrest : Meets (step zone) (Opens (firstTick acts)) { w with db := w.db.insert zone r } acts := opens_firstTick acts h
    exact meets_of_cons trivial rfl hrest
  | .tick today later monthsAhead retentionMonths :: acts, w, h => by
    refine ⟨fun _ => rfl, ?_⟩
    cases hs : step zone w (.tick today later monthsAhead retentionMonths) with
    | none => trivial
    | some w' =>
      obtain ⟨_, _, ⟨t, _, rfl⟩ | ⟨_, rfl⟩⟩ := step_tick hs <;> exact opens_of_today (by simp)

/-- A row stays in its month's partition until a tick drops the month. -/
theorem monthRow_step (a : Action) (hsound : w.db.Sound zone) (hm : m.IsFirst) (h : w.db.MonthRow m r ∨ w.Retired m)
    (hs : step zone w a = some w') : w'.db.MonthRow m r ∨ w'.Retired m := by
  cases a with
  | insert x =>
    cases hs
    exact h.imp_left Database.MonthRow.insert
  | tick today later monthsAhead retentionMonths =>
    obtain ⟨_, _, ⟨t, hrun, rfl⟩ | ⟨_, rfl⟩⟩ := step_tick hs
    · obtain ⟨months, cutoff, mid, ht⟩ := runOnce_ok hsound hrun
      rcases h with ⟨p, hp, hmonth, hr⟩ | hret
      · have hmid : p ∈ mid.partitions := (ht.ensured.mem p).2 (.inl hp)
        by_cases hlt : m.index < cutoff.index
        · exact .inr (List.mem_append_left _ ((ht.dropped_iff hm).2 ⟨⟨p, hmid, hmonth⟩, hlt⟩))
        · exact .inl ⟨p, (ht.kept.mem p).2 ⟨hmid, fun m' hmonth' => hmonth.unique hmonth' ▸ Nat.le_of_not_lt hlt⟩, hmonth, hr⟩
      · exact .inr (List.mem_append_right _ hret)
    · exact h

/-- A row of the default partition stays there. -/
theorem defaultRow_step (a : Action) (hsound : w.db.Sound zone) (h : w.db.DefaultRow r) (hs : step zone w a = some w') :
    w'.db.DefaultRow r := by
  cases a with
  | insert x =>
    cases hs
    exact hsound.defaultRow_insert.2 (.inl h)
  | tick today later monthsAhead retentionMonths =>
    obtain ⟨_, _, ⟨t, hrun, rfl⟩ | ⟨_, rfl⟩⟩ := step_tick hs
    · obtain ⟨months, cutoff, mid, ht⟩ := runOnce_ok hsound hrun
      exact ht.defaultRow_iff.2 h
    · exact h

/-- The invariant holds before every action of a run. -/
theorem Ahead.of_split {acts before after : List Action} {a : Action}
    (hok : Meets (Partitions.step zone) (fun w a => InTime zone first w a ∧ Opens first w a) World.migrated acts)
    (hsplit : acts = before ++ a :: after) (hrun : run (Partitions.step zone) World.migrated before = some w) :
    Ahead zone first w ∧ InTime zone first w a ∧ Opens first w a := by
  subst hsplit
  obtain ⟨hbefore, hrest⟩ := meets_append hok hrun
  exact ⟨inv_of_meets (fun s a t hs ha => hs.step a ha) (Ahead.migrated _) hbefore hrun, hrest.1⟩

/-- While rows come from before the first window or before the end of the last one, no tick is refused, a
row whose month is there is in it until the month is dropped, and every other row is in the default
partition. -/
theorem window_never_collides (zone : SessionTimeZone) (acts : List Action) (w : World)
    (hrun : run (step zone) World.migrated acts = some w)
    (hok : Meets (step zone) (InTime zone (firstTick acts)) World.migrated acts) :
    (∀ before today later monthsAhead retentionMonths after u,
      acts = before ++ .tick today later monthsAhead retentionMonths :: after → run (step zone) World.migrated before = some u →
      ∀ name, runOnce zone u.db today later monthsAhead retentionMonths ≠ .error (.refused name)) ∧
    ∀ before r after u, acts = before ++ .insert r :: after → run (step zone) World.migrated before = some u →
      (∀ m : Date, m.IsFirst → InMonth zone m r.recordedAt → u.Created m → ¬ u.Retired m → w.db.MonthRow m r ∨ w.Retired m) ∧
      ((∀ m : Date, m.IsFirst → InMonth zone m r.recordedAt → u.Created m → u.Retired m) → w.db.DefaultRow r) := by
  have hboth := meets_and hok (opens_firstTick acts rfl)
  refine ⟨?_, ?_⟩
  · intro before today later monthsAhead retentionMonths after u hsplit hu name
    obtain ⟨hw, _, hopens⟩ := Ahead.of_split hboth hsplit hu
    rw [hsplit] at hrun
    obtain ⟨v, hv, hrun⟩ := run_append.1 hrun
    cases hu.symm.trans hv
    obtain ⟨v, hstep, _⟩ := run_cons.1 hrun
    obtain ⟨hclock, _, _⟩ := step_tick hstep
    exact hw.not_refused hopens hclock name
  · intro before r after u hsplit hu
    obtain ⟨hw, _⟩ := Ahead.of_split hboth hsplit hu
    rw [hsplit] at hrun
    obtain ⟨v, hv, hrun⟩ := run_append.1 hrun
    cases hu.symm.trans hv
    obtain ⟨v, hstep, hrun⟩ := run_cons.1 hrun
    cases hstep
    have hsound := hw.sound.insert r
    refine ⟨fun m hm hin hcreated hnot => ?_, fun hall => ?_⟩
    · have hstored : (u.db.insert zone r).MonthRow m r := ((hw.present m hm).2 ⟨hcreated, hnot⟩).insert hin
      exact (Run.inv (P := fun s => s.db.Sound zone ∧ (s.db.MonthRow m r ∨ s.Retired m))
        (fun s a t hs h => ⟨sound_step a hs.1 h, monthRow_step a hs.1 hm hs.2 h⟩) ⟨hsound, .inl hstored⟩ hrun).2
    · have hstored : (u.db.insert zone r).DefaultRow r := by
        refine hw.sound.defaultRow_insert.2 (.inr ⟨rfl, fun m hhas hin => ?_⟩)
        have hm : m.IsFirst := hhas.elim fun _ hp => hp.2.1
        obtain ⟨hcreated, hnot⟩ := (hw.present m hm).1 hhas
        exact hnot (hall m hm hin hcreated)
      exact (Run.inv (P := fun s => s.db.Sound zone ∧ s.db.DefaultRow r)
        (fun s a t hs h => ⟨sound_step a hs.1 h, defaultRow_step a hs.1 hs.2 h⟩) ⟨hsound, hstored⟩ hrun).2

def march : Date := ⟨2028, 3, 10, by decide, by decide, by decide⟩

def august : Date := ⟨2028, 8, 2, by decide, by decide, by decide⟩

/-- A row from before the window, one of March, a tick after a gap that retires March and April, and a late
row of March. -/
def gap : List Action :=
  [.insert ⟨1, march.midnight - days 40⟩, .tick march march 1 0, .insert ⟨1, march.midnight⟩, .tick august august 2 1,
    .insert ⟨2, march.midnight⟩]

/-- Before the gap the row of March is in March; the others are in the default partition for good. -/
theorem window_never_collides_gap : ∃ w, run (step utc) World.migrated gap = some w ∧ w.db.DefaultRow ⟨1, march.midnight - days 40⟩ ∧
    (w.db.MonthRow (monthOf march) ⟨1, march.midnight⟩ ∨ w.Retired (monthOf march)) := by
  have hrun : run (step utc) World.migrated gap = some ((run (step utc) World.migrated gap).get (by decide +kernel)) :=
    (Option.some_get _).symm
  obtain ⟨_, hrows⟩ := window_never_collides utc gap _ hrun (by decide +kernel)
  refine ⟨_, hrun, ?_, ?_⟩
  · refine (hrows [] ⟨1, march.midnight - days 40⟩ _ World.migrated rfl rfl).2 fun m _ _ hcreated => ?_
    obtain ⟨_, hnone, _⟩ := hcreated
    cases hnone
  · have hu : run (step utc) World.migrated (gap.take 2) =
        some ((run (step utc) World.migrated (gap.take 2)).get (by decide +kernel)) := (Option.some_get _).symm
    refine (hrows (gap.take 2) ⟨1, march.midnight⟩ (gap.drop 3) _ rfl hu).1 (monthOf march) rfl ?_ ?_ ?_
    · exact ⟨⟨2028, 4, 1, by decide, by decide, by decide⟩, by decide +kernel, by decide +kernel⟩
    · unfold World.Created
      decide +kernel
    · unfold World.Retired
      decide +kernel

end Plantkeeper.Telemetry.Partitions
