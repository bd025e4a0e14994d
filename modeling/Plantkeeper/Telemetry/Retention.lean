/-
Retention drops exactly what is expired. The window's ranges follow one another month by month, the
expired partitions are those whose whole range ends by the cutoff, and the cutoff is not after the
current month, so the two ends of the window never meet: what a tick created it does not drop, and the
same tick again does nothing.
-/
import Plantkeeper.Telemetry.PartitionRuns

namespace Plantkeeper.Telemetry.Partitions

open Fold Run

variable {zone : SessionTimeZone} {db : Database} {today cutoff : Date} {monthsAhead retentionMonths : ℤ}
  {statements : List (Relname × Statement)} {expired : List (Date × Relname)} {t : Tick}

/-! ## The property -/

/-- The ranges of the statements. -/
def ranges (statements : List (Relname × Statement)) : List (Date × Date) :=
  statements.filterMap fun x =>
    match x.2 with
    | .createMonth _ _ lower upper => some (lower, upper)
    | _ => none

/-- The ranges follow one another, do not meet, and hold the dates from the current month through
`monthsAhead` months on. -/
structure Covers (today : Date) (monthsAhead : ℤ) (statements : List (Relname × Statement)) : Prop where
  contiguous : (ranges statements).IsChain fun a b => a.2 = b.1
  disjoint : (ranges statements).Pairwise fun a b => a.2 ≤ b.1
  covered : ∀ d : Date, (∃ b ∈ ranges statements, b.1 ≤ d ∧ d < b.2) ↔
    today.index ≤ d.index ∧ (d.index : ℤ) ≤ today.index + monthsAhead

/-- Expired are the monthly partitions whose range ends by the cutoff: not the default one, and none of
the window. -/
structure Expires (db : Database) (cutoff : Date) (statements : List (Relname × Statement)) (expired : List (Date × Relname)) :
    Prop where
  exact : ∀ m name, (m, name) ∈ expired ↔ name = partitionName m ∧
    ∃ p ∈ db.partitions, p.relname = unqualified name ∧ ∃ next, p.bounds = some (m, next) ∧ next ≤ cutoff
  default : ∀ x ∈ expired, ∀ p ∈ db.partitions, p.bounds = none → p.relname ≠ unqualified x.2
  window : ∀ x ∈ expired, ∀ y ∈ statements, x.2 ≠ y.1

/-- Every row from the cutoff on is still there. -/
def KeepsFrom (zone : SessionTimeZone) (cutoff : Date) (db db' : Database) : Prop :=
  ∀ p ∈ db.partitions, ∀ r ∈ p.rows, zone.midnight cutoff ≤ r.recordedAt → ∃ q ∈ db'.partitions, r ∈ q.rows

/-! ## The near end -/

/-- The window exists as long as the month after it does. -/
theorem exists_window (hahead : 0 ≤ monthsAhead) {upper : Date} (hupper : addMonths today (monthsAhead + 1) = .ok upper) :
    ∃ months monthly, monthsToCreate today monthsAhead = .ok months ∧ List.Forall₂ Creates months monthly := by
  obtain ⟨_, hindex⟩ := addMonths_eq_ok.1 hupper
  have hlo := today.index_bounds
  have hhi := upper.index_bounds
  obtain ⟨months, hmonths⟩ := exists_forall₂ (l := List.range (monthsAhead + 1).toNat)
    (R := fun offset (m : Date) => m.IsFirst ∧ m.index = today.index + offset) fun offset hoffset =>
      Date.exists_first (by omega) (by have := List.mem_range.1 hoffset; omega)
  have hlen := hmonths.length_eq
  rw [List.length_range] at hlen
  have hcons : Consecutive today months := by
    unfold Consecutive
    rw [← hlen]
    exact hmonths
  obtain ⟨monthly, hmonthly⟩ := exists_forall₂ (l := months) (R := Creates) fun m hm => by
    have hm := hcons.mem_iff.1 hm
    obtain ⟨next, hfirst, hnext⟩ := Date.exists_first (k := m.index + 1) (by omega) (by omega)
    exact ⟨_, next, nextMonth_eq_ok.2 ⟨hfirst, hnext⟩, rfl⟩
  exact ⟨months, monthly, monthsToCreate_eq_ok.2 ⟨hahead, by omega, hcons⟩, hmonthly⟩

/-- The ranges of a window's statements are its months up to the next ones. -/
theorem ranges_window : ∀ {months : List Date} {monthly : List (Relname × Statement)}, List.Forall₂ Creates months monthly →
    List.Forall₂ (fun m b => b.1 = m ∧ nextMonth m = .ok b.2) months (ranges monthly)
  | [], [], _ => .nil
  | m :: months, x :: monthly, h => by
    obtain ⟨⟨next, hnext, rfl⟩, hrest⟩ := List.forall₂_cons.1 h
    exact .cons ⟨rfl, hnext⟩ (ranges_window hrest)

/-- The ranges are those of the months from the current one on. -/
theorem ranges_getElem {months : List Date} {monthly : List (Relname × Statement)}
    (hmonths : monthsToCreate today monthsAhead = .ok months) (hmonthly : List.Forall₂ Creates months monthly) (i : ℕ)
    (hi : i < (ranges monthly).length) : (ranges monthly)[i].1.IsFirst ∧ (ranges monthly)[i].1.index = today.index + i ∧
      (ranges monthly)[i].2.IsFirst ∧ (ranges monthly)[i].2.index = today.index + i + 1 := by
  obtain ⟨_, hlen, hcons⟩ := monthsToCreate_eq_ok.1 hmonths
  have hranges := ranges_window hmonthly
  have hlength := hranges.length_eq
  have hmonth := (List.forall₂_iff_get.1 hcons).2 i (by rw [List.length_range]; omega) (by omega)
  obtain ⟨heq, hnext⟩ := (List.forall₂_iff_get.1 hranges).2 i (by omega) hi
  obtain ⟨hfirst, hindex⟩ := nextMonth_eq_ok.1 hnext
  simp only [List.get_eq_getElem, List.getElem_range] at hmonth heq hfirst hindex
  rw [heq]
  exact ⟨hmonth.1, hmonth.2, hfirst, by omega⟩

theorem covers_window {months : List Date} {monthly : List (Relname × Statement)}
    (hmonths : monthsToCreate today monthsAhead = .ok months) (hmonthly : List.Forall₂ Creates months monthly) :
    Covers today monthsAhead ((defaultPartitionName, defaultPartitionStatement) :: monthly) := by
  obtain ⟨_, hlen, _⟩ := monthsToCreate_eq_ok.1 hmonths
  have hlength := (ranges_window hmonthly).length_eq
  have hget := ranges_getElem hmonths hmonthly
  show Covers today monthsAhead (_ :: monthly)
  refine ⟨?_, ?_, fun d => ?_⟩ <;> rw [show ranges ((defaultPartitionName, defaultPartitionStatement) :: monthly) = ranges monthly from rfl]
  · rw [List.isChain_iff_getElem]
    intro i hi
    obtain ⟨_, _, hupper, hindex⟩ := hget i (by omega)
    obtain ⟨hlower, hindex', _, _⟩ := hget (i + 1) hi
    exact hupper.eq hlower (by omega)
  · rw [List.pairwise_iff_getElem]
    intro i j hi hj hij
    obtain ⟨_, _, hupper, hindex⟩ := hget i hi
    obtain ⟨_, hindex', _, _⟩ := hget j hj
    rw [hupper.le_iff]
    omega
  · constructor
    · rintro ⟨b, hb, hlower, hupper⟩
      obtain ⟨i, hi, rfl⟩ := List.getElem_of_mem hb
      obtain ⟨hfirst, hindex, hfirst', hindex'⟩ := hget i hi
      rw [hfirst.le_iff] at hlower
      rw [hfirst'.lt_iff] at hupper
      omega
    · rintro ⟨hlo, hhi⟩
      have hi : d.index - today.index < (ranges monthly).length := by omega
      obtain ⟨hfirst, hindex, hfirst', hindex'⟩ := hget _ hi
      refine ⟨_, List.getElem_mem hi, ?_, ?_⟩
      · rw [hfirst.le_iff]; omega
      · rw [hfirst'.lt_iff]; omega

/-! ## The far end -/

theorem retentionCutoff_eq_ok : retentionCutoff today retentionMonths = .ok cutoff ↔
    0 ≤ retentionMonths ∧ cutoff.IsFirst ∧ (cutoff.index : ℤ) = today.index - retentionMonths := by
  unfold retentionCutoff
  split
  · rename_i hneg
    constructor
    · intro h
      cases h
    · rintro ⟨hpos, _⟩
      omega
  · rename_i hpos
    rw [addMonths_eq_ok, monthOf_index]
    constructor
    · rintro ⟨hfirst, hindex⟩
      exact ⟨by omega, hfirst, by omega⟩
    · rintro ⟨_, hfirst, hindex⟩
      exact ⟨hfirst, by omega⟩

theorem expires_window (h : db.Sound zone) (hcutoff : retentionCutoff today retentionMonths = .ok cutoff)
    {months : List Date} {monthly : List (Relname × Statement)} (hmonths : monthsToCreate today monthsAhead = .ok months)
    (hmonthly : List.Forall₂ Creates months monthly) :
    ∃ expired, expiredPartitions db.existingPartitions today retentionMonths = .ok expired ∧
      Expires db cutoff ((defaultPartitionName, defaultPartitionStatement) :: monthly) expired := by
  obtain ⟨hpos, hfirstCutoff, hcindex⟩ := retentionCutoff_eq_ok.1 hcutoff
  obtain ⟨_, _, hcons⟩ := monthsToCreate_eq_ok.1 hmonths
  obtain ⟨expired, hok, hmem⟩ := expiredPartitions_owned h.owned hcutoff
  refine ⟨expired, hok, fun m name => ?_, fun x hx p hp hnone hname => ?_, fun x hx y hy hname => ?_⟩
  · rw [hmem]
    dsimp only
    constructor
    · rintro ⟨hfirst, hin, rfl, hlt⟩
      obtain ⟨p, hp, hmonth⟩ := (h.hasMonth_iff hfirst).2 hin
      obtain ⟨_, hname, next, hnext, hb⟩ := hmonth
      obtain ⟨hnextFirst, hindex⟩ := nextMonth_eq_ok.1 hnext
      exact ⟨rfl, p, hp, hname, next, hb, hnextFirst.le_iff.2 (by omega)⟩
    · rintro ⟨rfl, p, hp, hname, next, hb, hle⟩
      rcases h.kinds p hp with hd | ⟨m', hmonth⟩
      · rw [hd.2] at hb
        cases hb
      · have ⟨hfirst, _, next', hnext, hb'⟩ := hmonth
        rw [hb] at hb'
        cases hb'
        obtain ⟨hnextFirst, hindex⟩ := nextMonth_eq_ok.1 hnext
        have hlt := hnextFirst.le_iff.1 hle
        exact ⟨hfirst, (h.hasMonth_iff hfirst).1 ⟨p, hp, hmonth⟩, rfl, by omega⟩
  · obtain ⟨hfirst, _, hxname, _⟩ := (hmem x).1 hx
    rcases h.kinds p hp with hd | ⟨m', _, _, next', _, hb'⟩
    · exact partitionName_ne_default x.1 (by rw [← hxname, ← hname, hd.1])
    · rw [hnone] at hb'
      cases hb'
  · obtain ⟨hfirst, _, hxname, hlt⟩ := (hmem x).1 hx
    rw [hxname] at hname
    rcases List.mem_cons.1 hy with rfl | hin
    · exact partitionName_ne_default x.1 (congrArg unqualified hname)
    · obtain ⟨m, hm, next, hnext, rfl⟩ := forall₂_right hmonthly y hin
      have hm := hcons.mem_iff.1 hm
      have hsame := partitionName_inj hfirst hm.1 (congrArg unqualified hname)
      rw [hsame] at hlt
      omega

/-! ## A tick and the same tick again -/

theorem Ticked.keepsFrom {later : Date} {months : List Date} {mid : Database}
    (ht : Ticked zone db today later monthsAhead retentionMonths t months cutoff mid) : KeepsFrom zone cutoff db t.db := by
  intro p hp r hr hfrom
  have hmid : p ∈ mid.partitions := (ht.ensured.mem p).2 (.inl hp)
  refine ⟨p, (ht.kept.mem p).2 ⟨hmid, fun m hmonth => ?_⟩, hr⟩
  obtain ⟨_, _, next, hnext, hb⟩ := hmonth
  obtain ⟨hfirst, hindex⟩ := nextMonth_eq_ok.1 hnext
  have hw := ht.ensured.sound.ranged p hmid (m, next) hb r hr
  have hlt := (hfirst.lt_iff).1 (zone.lt_of_le_of_lt hfrom hw.2)
  omega

theorem ensure_loop_nothing {present : List Relname} : ∀ {monthly : List (Relname × Statement)} {s : Database × List Relname},
    (∀ x ∈ monthly, unqualified x.1 ∈ present) → monthly.foldlM (ensureStep zone present) s = .ok s
  | [], _, _ => rfl
  | x :: monthly, s, h => by
    have hx : ensureStep zone present s x = .ok s := if_pos (h x (List.mem_cons_self ..))
    rw [List.foldlM_cons, hx]
    exact ensure_loop_nothing fun y hy => h y (List.mem_cons_of_mem _ hy)

/-- A tick at the same date finds the window created and nothing expired. -/
theorem Ticked.again {months : List Date} {mid : Database} {monthly : List (Relname × Statement)}
    (ht : Ticked zone db today today monthsAhead retentionMonths t months cutoff mid) (hmonthly : List.Forall₂ Creates months monthly) :
    runOnce zone t.db today today monthsAhead retentionMonths = .ok ⟨t.db, [], []⟩ := by
  have hsound := ht.kept.sound
  obtain ⟨hpos, hfirstCutoff, hcindex⟩ := retentionCutoff_eq_ok.1 ht.farEnd
  obtain ⟨_, _, hcons⟩ := monthsToCreate_eq_ok.1 ht.window
  have hall : ∀ m ∈ months, m.IsFirst ∧ ∃ next, nextMonth m = .ok next :=
    fun m hm => ⟨(hcons.mem_iff.1 hm).1, ht.ends m hm⟩
  have hhas : ∀ m ∈ months, t.db.HasMonth m := by
    intro m hm
    obtain ⟨p, hp, hmonth⟩ := (ht.ensured.hasMonth_iff hall).2 (.inr hm)
    refine ⟨p, (ht.kept.mem p).2 ⟨hp, fun m' hmonth' => ?_⟩, hmonth⟩
    rw [← hmonth.unique hmonth']
    have hm := hcons.mem_iff.1 hm
    omega
  have hensure : ensureTelemetryPartitions zone t.db today monthsAhead = .ok (t.db, []) := by
    rw [ensureTelemetryPartitions_eq hsound (statementsFor_eq_ok.2 ⟨months, monthly, ht.window, hmonthly, rfl⟩) rfl]
    refine ensure_loop_nothing fun x hx => ?_
    obtain ⟨m, hm, next, hnext, rfl⟩ := forall₂_right hmonthly x hx
    exact (hsound.hasMonth_iff (hall m hm).1).1 (hhas m hm)
  obtain ⟨expired, hexpired, hmem⟩ := expiredPartitions_owned hsound.owned ht.farEnd
  have hnone : expired = [] := by
    refine List.eq_nil_iff_forall_not_mem.2 fun x hx => ?_
    obtain ⟨hfirst, hin, _, hlt⟩ := (hmem x).1 hx
    obtain ⟨p, hp, hmonth⟩ := (hsound.hasMonth_iff hfirst).2 hin
    have := ((ht.kept.mem p).1 hp).2 x.1 hmonth
    omega
  have hdrop : dropExpiredPartitions zone t.db today retentionMonths = .ok (t.db, []) := by
    unfold dropExpiredPartitions
    rw [if_pos hsound.parent, hexpired, hnone]
    rfl
  exact bind_eq_ok.2 ⟨(t.db, []), hensure, bind_eq_ok.2 ⟨(t.db, []), hdrop, rfl⟩⟩

/-- Over whatever earlier ticks and inserts left, the window covers its months, exactly what lies before
the cutoff is expired, a tick loses no reading from the cutoff on, and the same tick again does nothing. -/
theorem retention_exact (zone : SessionTimeZone) (acts : List Action) (w : World)
    (hrun : run (step zone) World.migrated acts = some w) (today : Date) (monthsAhead retentionMonths : ℤ)
    (hahead : 0 ≤ monthsAhead) (hretention : 0 ≤ retentionMonths)
    (hupper : ∃ upper, addMonths today (monthsAhead + 1) = .ok upper) (hfar : ∃ far, addMonths today (-retentionMonths) = .ok far) :
    ∃ statements cutoff expired, statementsFor today monthsAhead = .ok statements ∧
      retentionCutoff today retentionMonths = .ok cutoff ∧
      expiredPartitions w.db.existingPartitions today retentionMonths = .ok expired ∧
      Covers today monthsAhead statements ∧ Expires w.db cutoff statements expired ∧
      ∀ t, runOnce zone w.db today today monthsAhead retentionMonths = .ok t →
        KeepsFrom zone cutoff w.db t.db ∧ runOnce zone t.db today today monthsAhead retentionMonths = .ok ⟨t.db, [], []⟩ := by
  obtain ⟨upper, hupper⟩ := hupper
  obtain ⟨far, hfar⟩ := hfar
  obtain ⟨hfirst, hindex⟩ := addMonths_eq_ok.1 hfar
  have hsound := sound_run hrun
  have hcutoff : retentionCutoff today retentionMonths = .ok far :=
    retentionCutoff_eq_ok.2 ⟨hretention, hfirst, by omega⟩
  obtain ⟨months, monthly, hmonths, hmonthly⟩ := exists_window hahead hupper
  obtain ⟨expired, hexpired, hexpires⟩ := expires_window hsound hcutoff hmonths hmonthly
  refine ⟨_, far, expired, statementsFor_eq_ok.2 ⟨months, monthly, hmonths, hmonthly, rfl⟩, hcutoff, hexpired,
    covers_window hmonths hmonthly, hexpires, fun t ht => ?_⟩
  obtain ⟨months', cutoff, mid, hticked⟩ := runOnce_ok hsound ht
  cases hmonths.symm.trans hticked.window
  cases hcutoff.symm.trans hticked.farEnd
  exact ⟨hticked.keepsFrom, hticked.again hmonthly⟩

def september : Date := ⟨2026, 9, 20, by decide, by decide, by decide⟩

def january : Date := ⟨2027, 1, 31, by decide, by decide, by decide⟩

/-- A tick in September keeps a month ahead, and a reading of September comes. -/
def kept : List Action := [.tick september september 1 12, .insert ⟨1, september.midnight⟩]

/-- In January, with two months kept, September and October are expired. -/
theorem retention_exact_january : ∃ w statements cutoff expired, run (step utc) World.migrated kept = some w ∧
    statementsFor january 3 = .ok statements ∧ retentionCutoff january 2 = .ok cutoff ∧
    expiredPartitions w.db.existingPartitions january 2 = .ok expired ∧
    Covers january 3 statements ∧ Expires w.db cutoff statements expired ∧
    ∀ t, runOnce utc w.db january january 3 2 = .ok t →
      KeepsFrom utc cutoff w.db t.db ∧ runOnce utc t.db january january 3 2 = .ok ⟨t.db, [], []⟩ := by
  have hrun : run (step utc) World.migrated kept = some ((run (step utc) World.migrated kept).get (by decide +kernel)) :=
    (Option.some_get _).symm
  obtain ⟨statements, cutoff, expired, hexact⟩ := retention_exact utc kept _ hrun january 3 2 (by decide) (by decide)
    ⟨⟨2027, 5, 1, by decide, by decide, by decide⟩, by decide +kernel⟩
    ⟨⟨2026, 11, 1, by decide, by decide, by decide⟩, by decide +kernel⟩
  exact ⟨_, statements, cutoff, expired, hrun, hexact⟩

end Plantkeeper.Telemetry.Partitions
