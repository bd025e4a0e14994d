/-
Runs of inserts and ticks. A tick creates the months of its window that have no partition, then drops the
months before its cutoff; it fails as a whole if a month is refused or the arithmetic leaves the calendar.
`windows` and `retired` are the model's own record of what the committed ticks created and dropped.
-/
import Plantkeeper.Lib.Run
import Plantkeeper.Telemetry.PartitionTables

namespace Plantkeeper.Telemetry.Partitions

open Fold Run

variable {zone : SessionTimeZone} {db db' : Database} {m : Date} {r : Reading} {today later : Date}
  {monthsAhead retentionMonths : ℤ} {t : Tick}

/-! ## One tick -/

theorem ensureTelemetryPartitions_eq (h : db.Sound zone) {statements : List (Relname × Statement)}
    {monthly : List (Relname × Statement)} (hstatements : statementsFor today monthsAhead = .ok statements)
    (hmonthly : statements = (defaultPartitionName, defaultPartitionStatement) :: monthly) :
    ensureTelemetryPartitions zone db today monthsAhead = monthly.foldlM (ensureStep zone db.existingPartitions) (db, []) := by
  have hdefault : ensureStep zone db.existingPartitions (db, []) (defaultPartitionName, defaultPartitionStatement) = .ok (db, []) :=
    if_pos h.hasDefault
  unfold ensureTelemetryPartitions
  rw [if_pos h.parent, hstatements, hmonthly]
  show (_ :: monthly).foldlM (ensureStep zone db.existingPartitions) (db, []) = _
  rw [List.foldlM_cons, hdefault]
  rfl

theorem ensureTelemetryPartitions_error (h : db.Sound zone) {e : ValueError} (hstatements : statementsFor today monthsAhead = .error e) :
    ensureTelemetryPartitions zone db today monthsAhead = .error (.value e) := by
  unfold ensureTelemetryPartitions
  rw [if_pos h.parent, hstatements]
  rfl

/-- What the first half of a tick does. -/
theorem ensureTelemetryPartitions_ok (h : db.Sound zone) {created : List Relname}
    (hens : ensureTelemetryPartitions zone db today monthsAhead = .ok (db', created)) :
    ∃ months, monthsToCreate today monthsAhead = .ok months ∧ (∀ m ∈ months, ∃ next, nextMonth m = .ok next) ∧
      Ensured zone months db db' := by
  cases hst : statementsFor today monthsAhead with
  | error e =>
    rw [ensureTelemetryPartitions_error h hst] at hens
    cases hens
  | ok statements =>
    obtain ⟨months, monthly, hmonths, hcreates, heq⟩ := statementsFor_eq_ok.1 hst
    have hfirst : ∀ m ∈ months, m.IsFirst := fun m hm => ((monthsToCreate_eq_ok.1 hmonths).2.2.mem_iff.1 hm).1
    rw [ensureTelemetryPartitions_eq h hst heq] at hens
    rcases ensure_loop hcreates hfirst [] h (fun _ hn => hn) with ⟨db1, created1, hok, hensured⟩ | ⟨_, _, _, _, _, _, herr⟩
    · rw [hok] at hens
      cases hens
      exact ⟨months, hmonths, creates_all hcreates, hensured⟩
    · rw [herr] at hens
      cases hens

/-- It is refused only for a default row in a month of the window that has no partition. -/
theorem ensureTelemetryPartitions_refused (h : db.Sound zone) {name : Relname}
    (herr : ensureTelemetryPartitions zone db today monthsAhead = .error (.refused name)) :
    ∃ months, monthsToCreate today monthsAhead = .ok months ∧
      ∃ m ∈ months, ∃ r, db.DefaultRow r ∧ InMonth zone m r.recordedAt ∧ ¬ db.HasMonth m := by
  cases hst : statementsFor today monthsAhead with
  | error e =>
    rw [ensureTelemetryPartitions_error h hst] at herr
    cases herr
  | ok statements =>
    obtain ⟨months, monthly, hmonths, hcreates, heq⟩ := statementsFor_eq_ok.1 hst
    have hfirst : ∀ m ∈ months, m.IsFirst := fun m hm => ((monthsToCreate_eq_ok.1 hmonths).2.2.mem_iff.1 hm).1
    rw [ensureTelemetryPartitions_eq h hst heq] at herr
    rcases ensure_loop hcreates hfirst [] h (fun _ hn => hn) with ⟨db1, created1, hok, _⟩ | ⟨m, hm, r, hr, hin, hnot, _⟩
    · rw [hok] at herr
      cases herr
    · exact ⟨months, hmonths, m, hm, r, hr, hin, hnot⟩

/-- `db'` is `db` without the partitions of the months before the cutoff. -/
structure Dropped (zone : SessionTimeZone) (cutoff : Date) (db db' : Database) : Prop where
  sound : db'.Sound zone
  mem : ∀ p, p ∈ db'.partitions ↔ p ∈ db.partitions ∧ ∀ m, p.OfMonth m → cutoff.index ≤ m.index

/-- Any partitions but the default one may be dropped. -/
theorem Database.Sound.without (h : db.Sound zone) {expired : List (Date × Relname)}
    (hdefault : ∀ p ∈ db.partitions, p.IsDefault → ∀ x ∈ expired, p.relname ≠ unqualified x.2) :
    (db.without expired).Sound zone := by
  refine ⟨h.parent, h.distinct.sublist (List.filter_sublist.map _), ?_, ?_, ?_⟩
  · obtain ⟨p, hp, hd⟩ := h.exists_default
    exact List.mem_map.2 ⟨p, List.mem_filter.2 ⟨hp, decide_eq_true (hdefault p hp hd)⟩, hd.1⟩
  · exact fun p hp => h.kinds p (List.mem_filter.1 hp).1
  · exact fun p hp => h.ranged p (List.mem_filter.1 hp).1

/-- What the second half of a tick does; it is never refused. -/
theorem dropExpiredPartitions_sound (h : db.Sound zone) {cutoff : Date} (hcutoff : retentionCutoff later retentionMonths = .ok cutoff) :
    ∃ db' dropped, dropExpiredPartitions zone db later retentionMonths = .ok (db', dropped) ∧ Dropped zone cutoff db db' ∧
      ∀ n, n ∈ dropped ↔ ∃ m, db.HasMonth m ∧ m.index < cutoff.index ∧ n = partitionName m := by
  obtain ⟨expired, hexpired, hmem⟩ := expiredPartitions_owned h.owned hcutoff
  have hkept : ∀ p ∈ db.partitions, (∀ x ∈ expired, p.relname ≠ unqualified x.2) ↔ ∀ m, p.OfMonth m → cutoff.index ≤ m.index := by
    intro p hp
    constructor
    · intro hall m hmonth
      by_contra hlt
      have hin : (m, partitionName m) ∈ expired :=
        (hmem _).2 ⟨hmonth.1, (h.hasMonth_iff hmonth.1).1 ⟨p, hp, hmonth⟩, rfl, Nat.lt_of_not_le hlt⟩
      exact hall _ hin hmonth.2.1
    · intro hall x hx hname
      obtain ⟨hfirst, hin, hxname, hlt⟩ := (hmem x).1 hx
      rcases h.kinds p hp with hd | ⟨m, hmonth⟩
      · exact partitionName_ne_default x.1 (by rw [← hxname, ← hname, hd.1])
      · have hsame : m = x.1 := partitionName_inj hmonth.1 hfirst (by rw [← hxname, ← hname, hmonth.2.1])
        have := hall m hmonth
        rw [hsame] at this
        omega
  have hsound : (db.without expired).Sound zone := h.without fun p hp hd =>
    (hkept p hp).2 fun m hmonth => absurd hd hmonth.not_default
  refine ⟨db.without expired, [] ++ expired.map (·.2), ?_, ⟨hsound, fun p => ?_⟩, fun n => ?_⟩
  · unfold dropExpiredPartitions
    rw [if_pos h.parent, hexpired]
    exact drop_loop fun x hx => ((hmem x).1 hx).2.2.1
  · unfold Database.without
    rw [List.mem_filter, decide_eq_true_eq]
    exact and_congr_right fun hp => hkept p hp
  · rw [List.nil_append, List.mem_map]
    constructor
    · rintro ⟨x, hx, rfl⟩
      obtain ⟨hfirst, hin, hname, hlt⟩ := (hmem x).1 hx
      exact ⟨x.1, (h.hasMonth_iff hfirst).2 hin, hlt, hname⟩
    · rintro ⟨m, hhas, hlt, rfl⟩
      have hfirst : m.IsFirst := hhas.elim fun _ hp => hp.2.1
      exact ⟨(m, partitionName m), (hmem _).2 ⟨hfirst, (h.hasMonth_iff hfirst).1 hhas, rfl, hlt⟩, rfl⟩

/-- A committed tick: the months of its window are created, then those before its cutoff dropped. -/
structure Ticked (zone : SessionTimeZone) (db : Database) (today later : Date) (monthsAhead retentionMonths : ℤ) (t : Tick)
    (months : List Date) (cutoff : Date) (mid : Database) : Prop where
  window : monthsToCreate today monthsAhead = .ok months
  ends : ∀ m ∈ months, ∃ next, nextMonth m = .ok next
  farEnd : retentionCutoff later retentionMonths = .ok cutoff
  ensured : Ensured zone months db mid
  kept : Dropped zone cutoff mid t.db
  dropped : ∀ n, n ∈ t.dropped ↔ ∃ m, mid.HasMonth m ∧ m.index < cutoff.index ∧ n = partitionName m

theorem runOnce_ok (h : db.Sound zone) (hrun : runOnce zone db today later monthsAhead retentionMonths = .ok t) :
    ∃ months cutoff mid, Ticked zone db today later monthsAhead retentionMonths t months cutoff mid := by
  unfold runOnce at hrun
  obtain ⟨⟨mid, created⟩, hens, hrun⟩ := bind_eq_ok.1 hrun
  obtain ⟨⟨db', dropped⟩, hdrop, hrun⟩ := bind_eq_ok.1 hrun
  cases hrun
  obtain ⟨months, hmonths, hends, hensured⟩ := ensureTelemetryPartitions_ok h hens
  cases hcutoff : retentionCutoff later retentionMonths with
  | error e =>
    unfold dropExpiredPartitions expiredPartitions at hdrop
    rw [if_pos hensured.sound.parent, hcutoff] at hdrop
    cases hdrop
  | ok cutoff =>
    obtain ⟨db'', dropped', hok, hkept, hmem⟩ := dropExpiredPartitions_sound hensured.sound hcutoff
    rw [hok] at hdrop
    cases hdrop
    exact ⟨months, cutoff, mid, hmonths, hends, hcutoff, hensured, hkept, hmem⟩

/-- A tick is refused only for a default row in a month of its window that has no partition. -/
theorem runOnce_refused (h : db.Sound zone) {name : Relname}
    (hrun : runOnce zone db today later monthsAhead retentionMonths = .error (.refused name)) :
    ∃ months, monthsToCreate today monthsAhead = .ok months ∧
      ∃ m ∈ months, ∃ r, db.DefaultRow r ∧ InMonth zone m r.recordedAt ∧ ¬ db.HasMonth m := by
  unfold runOnce at hrun
  cases hens : ensureTelemetryPartitions zone db today monthsAhead with
  | error e =>
    rw [hens] at hrun
    cases hrun
    exact ensureTelemetryPartitions_refused h hens
  | ok s =>
    obtain ⟨mid, created⟩ := s
    obtain ⟨months, hmonths, hends, hensured⟩ := ensureTelemetryPartitions_ok h hens
    rw [hens] at hrun
    cases hcutoff : retentionCutoff later retentionMonths with
    | error e =>
      simp only [bind, Except.bind, dropExpiredPartitions, expiredPartitions, if_pos hensured.sound.parent, hcutoff] at hrun
      cases hrun
    | ok cutoff =>
      obtain ⟨db'', dropped', hok, _⟩ := dropExpiredPartitions_sound hensured.sound hcutoff
      simp only [bind, Except.bind, hok] at hrun
      cases hrun

/-! ## Runs -/

/-- The window a committed tick created: its first month and the month after its last. -/
structure Window where
  first : Date
  upper : Date
  deriving DecidableEq

/-- The table, the date the job read last, and what the committed ticks did, the most recent window first. -/
structure World where
  db : Database
  today : Option Date
  windows : List Window
  retired : List Relname
  deriving DecidableEq

def World.migrated : World := ⟨.migrated, none, [], []⟩

inductive Action
  | insert (r : Reading)
  | tick (today later : Date) (monthsAhead retentionMonths : ℤ)
  deriving DecidableEq

/-- The window of a tick, which a tick that commits has. -/
def windowOf (today : Date) (monthsAhead : ℤ) : List Window :=
  match addMonths (monthOf today) (monthsAhead + 1) with
  | .ok upper => [⟨monthOf today, upper⟩]
  | .error _ => []

/-- An insert, or a tick at dates that are not before the last one; a tick that raises is rolled back. -/
def step (zone : SessionTimeZone) (w : World) : Action → Option World
  | .insert r => some { w with db := w.db.insert zone r }
  | .tick today later monthsAhead retentionMonths =>
    if (∀ d ∈ w.today, d ≤ today) ∧ today ≤ later then
      match runOnce zone w.db today later monthsAhead retentionMonths with
      | .ok t => some ⟨t.db, some later, windowOf today monthsAhead ++ w.windows, t.dropped ++ w.retired⟩
      | .error _ => some { w with today := some later }
    else none

variable {w w' : World}

/-- A tick commits, with what it created and dropped, or leaves everything but the date as it was. -/
theorem step_tick (h : step zone w (.tick today later monthsAhead retentionMonths) = some w') :
    (∀ d ∈ w.today, d ≤ today) ∧ today ≤ later ∧
      ((∃ t, runOnce zone w.db today later monthsAhead retentionMonths = .ok t ∧
          w' = ⟨t.db, some later, windowOf today monthsAhead ++ w.windows, t.dropped ++ w.retired⟩) ∨
        ((∃ e, runOnce zone w.db today later monthsAhead retentionMonths = .error e) ∧ w' = { w with today := some later })) := by
  unfold step at h
  simp only at h
  split at h
  · rename_i hclock
    refine ⟨hclock.1, hclock.2, ?_⟩
    cases hrun : runOnce zone w.db today later monthsAhead retentionMonths with
    | ok t =>
      rw [hrun] at h
      cases h
      exact .inl ⟨t, rfl, rfl⟩
    | error e =>
      rw [hrun] at h
      cases h
      exact .inr ⟨⟨e, rfl⟩, rfl⟩
  · cases h

/-- Every run leaves a sound table. -/
theorem sound_step (a : Action) (h : w.db.Sound zone) (hs : step zone w a = some w') : w'.db.Sound zone := by
  cases a with
  | insert r =>
    cases hs
    exact h.insert r
  | tick today later monthsAhead retentionMonths =>
    obtain ⟨_, _, ⟨t, hrun, rfl⟩ | ⟨_, rfl⟩⟩ := step_tick hs
    · obtain ⟨months, cutoff, mid, hticked⟩ := runOnce_ok h hrun
      exact hticked.kept.sound
    · exact h

theorem sound_run {acts : List Action} (h : run (step zone) World.migrated acts = some w) : w.db.Sound zone :=
  Run.inv (fun _ a _ hs => sound_step a hs) Database.Sound.migrated h

end Plantkeeper.Telemetry.Partitions
