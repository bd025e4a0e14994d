/-
What the job keeps of the partitioned table. Every partition is the default one or that of one month,
under the month's name and over the month's range, and holds rows of that range only. The ranges of two
months do not meet, so Postgres refuses a month for a row of the default partition and for nothing else.
-/
import Plantkeeper.Telemetry.PartitionJob

namespace Plantkeeper.Telemetry.Partitions

open Fold

variable {zone : SessionTimeZone} {db db' : Database} {p : Partition} {m next : Date} {r : Reading} {t : Instant}

/-! ## Months as ranges -/

/-- The instant falls in the month. -/
def InMonth (zone : SessionTimeZone) (m : Date) (t : Instant) : Prop := ∃ next, nextMonth m = .ok next ∧ Within zone (m, next) t

theorem SessionTimeZone.le (zone : SessionTimeZone) {a b : Date} (h : a ≤ b) : zone.midnight a ≤ zone.midnight b := by
  rcases Date.le_iff_lt_or_eq.1 h with hlt | rfl
  · exact Int.le_of_lt (zone.mono hlt)
  · exact Int.le_refl _

/-- A date whose midnight is not after an instant is before one whose midnight is after it. -/
theorem SessionTimeZone.lt_of_le_of_lt (zone : SessionTimeZone) {a b : Date} (ha : zone.midnight a ≤ t)
    (hb : t < zone.midnight b) : a < b := by
  by_contra hle
  exact absurd (Int.lt_of_le_of_lt (Int.le_trans (zone.le (Date.le_def.2 hle)) ha) hb) (Int.lt_irrefl _)

theorem InMonth.unique {m' : Date} (hm : m.IsFirst) (hm' : m'.IsFirst) (h : InMonth zone m t) (h' : InMonth zone m' t) :
    m = m' := by
  obtain ⟨next, hnext, hlo, hhi⟩ := h
  obtain ⟨next', hnext', hlo', hhi'⟩ := h'
  obtain ⟨hfirst, hindex⟩ := nextMonth_eq_ok.1 hnext
  obtain ⟨hfirst', hindex'⟩ := nextMonth_eq_ok.1 hnext'
  have h1 := (hfirst'.lt_iff).1 (zone.lt_of_le_of_lt hlo hhi')
  have h2 := (hfirst.lt_iff).1 (zone.lt_of_le_of_lt hlo' hhi)
  dsimp only at h1 h2
  exact hm.eq hm' (by omega)

/-- An instant between two months falls in one of those from the first up to the second. -/
theorem exists_inMonth {hi : Date} : ∀ {n : ℕ} {lo : Date}, lo.IsFirst → hi.IsFirst → hi.index = lo.index + n →
    zone.midnight lo ≤ t → t < zone.midnight hi →
    ∃ m, m.IsFirst ∧ lo.index ≤ m.index ∧ m.index < hi.index ∧ InMonth zone m t
  | 0, lo, hlo, hhi, hindex, hle, hlt => by
    rw [hhi.eq hlo hindex] at hlt
    exact absurd (Int.lt_of_le_of_lt hle hlt) (Int.lt_irrefl _)
  | n + 1, lo, hlo, hhi, hindex, hle, hlt => by
    have hbound := hi.index_bounds
    have hlobound := lo.index_bounds
    obtain ⟨next, hfirst, hnext⟩ := Date.exists_first (k := lo.index + 1) (by omega) (by omega)
    have hok : nextMonth lo = .ok next := nextMonth_eq_ok.2 ⟨hfirst, hnext⟩
    by_cases hin : t < zone.midnight next
    · exact ⟨lo, hlo, Nat.le_refl _, by omega, next, hok, hle, hin⟩
    · obtain ⟨m, hm, h1, h2, h3⟩ := exists_inMonth (n := n) hfirst hhi (by omega) (Int.not_lt.1 hin) hlt
      refine ⟨m, hm, ?_, h2, h3⟩
      omega

/-- The ranges of two months meet only if they are one month. -/
theorem Overlap.eq {m' next' : Date} (hm : m.IsFirst) (hm' : m'.IsFirst) (hnext : nextMonth m = .ok next)
    (hnext' : nextMonth m' = .ok next') (h : Overlap zone (m, next) (m', next')) : m = m' := by
  obtain ⟨hfirst, hindex⟩ := nextMonth_eq_ok.1 hnext
  obtain ⟨hfirst', hindex'⟩ := nextMonth_eq_ok.1 hnext'
  have h1 := (hfirst'.lt_iff).1 (zone.lt_of_le_of_lt (Int.le_refl _) h.1)
  have h2 := (hfirst.lt_iff).1 (zone.lt_of_le_of_lt (Int.le_refl _) h.2)
  dsimp only at h1 h2
  exact hm.eq hm' (by omega)

/-! ## The partitions of the job -/

/-- The default partition. -/
def Partition.IsDefault (p : Partition) : Prop := p.relname = unqualified defaultPartitionName ∧ p.bounds = none

/-- The partition of a month. -/
def Partition.OfMonth (p : Partition) (m : Date) : Prop :=
  m.IsFirst ∧ p.relname = unqualified (partitionName m) ∧ ∃ next, nextMonth m = .ok next ∧ p.bounds = some (m, next)

/-- What holds of the table over any run of inserts and ticks. -/
structure Database.Sound (zone : SessionTimeZone) (db : Database) : Prop where
  parent : db.parentExists = true
  distinct : db.existingPartitions.Nodup
  hasDefault : unqualified defaultPartitionName ∈ db.existingPartitions
  kinds : ∀ p ∈ db.partitions, p.IsDefault ∨ ∃ m, p.OfMonth m
  ranged : ∀ p ∈ db.partitions, ∀ b ∈ p.bounds, ∀ r ∈ p.rows, Within zone b r.recordedAt

/-- The row is in the default partition. -/
def Database.DefaultRow (db : Database) (r : Reading) : Prop := ∃ p ∈ db.partitions, p.IsDefault ∧ r ∈ p.rows

/-- The row is in the partition of the month. -/
def Database.MonthRow (db : Database) (m : Date) (r : Reading) : Prop := ∃ p ∈ db.partitions, p.OfMonth m ∧ r ∈ p.rows

/-- The month has its partition. -/
def Database.HasMonth (db : Database) (m : Date) : Prop := ∃ p ∈ db.partitions, p.OfMonth m

theorem Partition.OfMonth.not_default (h : p.OfMonth m) : ¬ p.IsDefault := fun hd => by
  obtain ⟨_, _, next, _, hb⟩ := h
  rw [hd.2] at hb
  cases hb

theorem Partition.OfMonth.unique {m' : Date} (h : p.OfMonth m) (h' : p.OfMonth m') : m = m' := by
  obtain ⟨_, _, next, _, hb⟩ := h
  obtain ⟨_, _, next', _, hb'⟩ := h'
  rw [hb] at hb'
  cases hb'
  rfl

theorem Partition.OfMonth.holds_iff (h : p.OfMonth m) : p.Holds zone t ↔ InMonth zone m t := by
  obtain ⟨_, _, next, hnext, hb⟩ := h
  constructor
  · rintro ⟨b, hmem, hw⟩
    rw [hb] at hmem
    cases hmem
    exact ⟨next, hnext, hw⟩
  · rintro ⟨next', hnext', hw⟩
    rw [hnext] at hnext'
    cases hnext'
    exact ⟨_, hb, hw⟩

theorem Partition.IsDefault.not_holds (h : p.IsDefault) : ¬ p.Holds zone t := by
  rintro ⟨b, hmem, _⟩
  rw [h.2] at hmem
  cases hmem

namespace Database.Sound

theorem migrated : Database.migrated.Sound zone where
  parent := rfl
  distinct := List.nodup_singleton _
  hasDefault := List.mem_singleton_self _
  kinds p hp := by
    rw [List.mem_singleton.1 hp]
    exact .inl ⟨rfl, rfl⟩
  ranged p hp b hb := by
    rw [List.mem_singleton.1 hp] at hb
    cases hb

theorem owned (h : db.Sound zone) : ∀ n ∈ db.existingPartitions, Owned n := by
  intro n hn
  obtain ⟨p, hp, rfl⟩ := List.mem_map.1 hn
  rcases h.kinds p hp with hd | ⟨m, hm, hname, next, hnext, _⟩
  · exact .inl hd.1
  · exact .inr ⟨m, next, hm, hnext, hname⟩

/-- A partition under a month's name is the month's. -/
theorem hasMonth_iff (h : db.Sound zone) (hm : m.IsFirst) : db.HasMonth m ↔ unqualified (partitionName m) ∈ db.existingPartitions := by
  constructor
  · rintro ⟨p, hp, _, hname, _⟩
    exact List.mem_map.2 ⟨p, hp, hname⟩
  · intro hn
    obtain ⟨p, hp, hname⟩ := List.mem_map.1 hn
    rcases h.kinds p hp with hd | ⟨m', hm', hname', hrest⟩
    · exact absurd (hname.symm.trans hd.1) (partitionName_ne_default m)
    · have hsame : m = m' := partitionName_inj hm hm' (hname.symm.trans hname')
      exact ⟨p, hp, hm, hname, by rw [hsame]; exact hrest⟩

theorem exists_default (h : db.Sound zone) : ∃ p ∈ db.partitions, p.IsDefault := by
  obtain ⟨p, hp, hname⟩ := List.mem_map.1 h.hasDefault
  rcases h.kinds p hp with hd | ⟨m, _, hname', _⟩
  · exact ⟨p, hp, hd⟩
  · exact absurd (hname'.symm.trans hname) (partitionName_ne_default m)

/-- A month without a partition is refused for a row of the default partition, and for nothing else. -/
theorem refuses_iff (h : db.Sound zone) (hm : m.IsFirst) (hnext : nextMonth m = .ok next) (hnot : ¬ db.HasMonth m) :
    db.Refuses zone (m, next) ↔ ∃ r, db.DefaultRow r ∧ InMonth zone m r.recordedAt := by
  constructor
  · rintro ⟨p, hp, ⟨b, hb, hover⟩ | ⟨hnone, r, hr, hw⟩⟩
    · rcases h.kinds p hp with hd | ⟨m', hmonth⟩
      · rw [hd.2] at hb
        cases hb
      · have ⟨hm', _, next', hnext', hb'⟩ := hmonth
        rw [hb', Option.toList_some, List.mem_singleton] at hb
        rw [hb] at hover
        have hsame := hover.eq hm' hm hnext' hnext
        exact absurd ⟨p, hp, hsame ▸ hmonth⟩ hnot
    · rcases h.kinds p hp with hd | ⟨m', _, _, next', _, hb'⟩
      · exact ⟨r, ⟨p, hp, hd, hr⟩, next, hnext, hw⟩
      · rw [hnone] at hb'
        cases hb'
  · rintro ⟨r, ⟨p, hp, hd, hr⟩, next', hnext', hw⟩
    rw [hnext] at hnext'
    cases hnext'
    exact ⟨p, hp, .inr ⟨hd.2, r, hr, hw⟩⟩

/-! ## Inserts -/

theorem insert (h : db.Sound zone) (r : Reading) : (db.insert zone r).Sound zone := by
  have hfield : ∀ p : Partition, (if db.Routes zone r.recordedAt p then p.insert r else p).relname = p.relname ∧
      (if db.Routes zone r.recordedAt p then p.insert r else p).bounds = p.bounds := by
    intro p
    split <;> simp
  have hnames : (db.insert zone r).existingPartitions = db.existingPartitions := by
    unfold Database.existingPartitions Database.insert
    rw [List.map_map]
    exact List.map_congr_left fun p _ => (hfield p).1
  refine ⟨h.parent, hnames ▸ h.distinct, hnames ▸ h.hasDefault, ?_, ?_⟩
  · intro q hq
    obtain ⟨p, hp, rfl⟩ := List.mem_map.1 hq
    obtain ⟨hn, hb⟩ := hfield p
    unfold Partition.IsDefault Partition.OfMonth
    rw [hn, hb]
    exact h.kinds p hp
  · intro q hq b hb x hx
    obtain ⟨p, hp, rfl⟩ := List.mem_map.1 hq
    rw [(hfield p).2] at hb
    split at hx
    · rename_i hroute
      rcases Partition.mem_insert.1 hx with hold | rfl
      · exact h.ranged p hp b hb x hold
      · rcases hroute with ⟨b', hb', hw⟩ | ⟨hnone, _⟩
        · cases hb.symm.trans hb'
          exact hw
        · rw [hnone] at hb
          cases hb
    · exact h.ranged p hp b hb x hx

end Database.Sound

/-! ## Creating months -/

/-- `db'` is `db` with an empty partition for each of the months that had none. -/
structure Ensured (zone : SessionTimeZone) (months : List Date) (db db' : Database) : Prop where
  sound : db'.Sound zone
  mem : ∀ p, p ∈ db'.partitions ↔ p ∈ db.partitions ∨ ∃ m ∈ months, ¬ db.HasMonth m ∧ p.OfMonth m ∧ p.rows = []

namespace Ensured

variable {months : List Date} {db'' : Database}

theorem refl (h : db.Sound zone) (hall : ∀ m ∈ months, db.HasMonth m) : Ensured zone months db db where
  sound := h
  mem _ := ⟨.inl, fun hp => hp.elim (fun hp => hp) fun ⟨m, hm, hnot, _⟩ => absurd (hall m hm) hnot⟩

theorem hasMonth_iff (h : Ensured zone months db db') (hall : ∀ m ∈ months, m.IsFirst ∧ ∃ next, nextMonth m = .ok next) :
    db'.HasMonth m ↔ db.HasMonth m ∨ m ∈ months := by
  constructor
  · rintro ⟨p, hp, hmonth⟩
    rcases (h.mem p).1 hp with hold | ⟨m', hm', _, hmonth', _⟩
    · exact .inl ⟨p, hold, hmonth⟩
    · exact .inr (hmonth.unique hmonth' ▸ hm')
  · rintro (⟨p, hp, hmonth⟩ | hm)
    · exact ⟨p, (h.mem p).2 (.inl hp), hmonth⟩
    · by_cases hhas : db.HasMonth m
      · obtain ⟨p, hp, hmonth⟩ := hhas
        exact ⟨p, (h.mem p).2 (.inl hp), hmonth⟩
      · obtain ⟨hfirst, next, hnext⟩ := hall m hm
        have hnew : Partition.OfMonth ⟨unqualified (partitionName m), some (m, next), []⟩ m :=
          ⟨hfirst, rfl, next, hnext, rfl⟩
        exact ⟨_, (h.mem _).2 (.inr ⟨m, hm, hhas, hnew, rfl⟩), hnew⟩

/-- The default partition has the rows it had. -/
theorem defaultRow_iff (h : Ensured zone months db db') : db'.DefaultRow r ↔ db.DefaultRow r := by
  constructor
  · rintro ⟨p, hp, hd, hr⟩
    rcases (h.mem p).1 hp with hold | ⟨m, _, _, hmonth, _⟩
    · exact ⟨p, hold, hd, hr⟩
    · exact absurd hd hmonth.not_default
  · rintro ⟨p, hp, hd, hr⟩
    exact ⟨p, (h.mem p).2 (.inl hp), hd, hr⟩

theorem cons (hm : m.IsFirst ∧ ∃ next, nextMonth m = .ok next) (h : Ensured zone [m] db db') (h' : Ensured zone months db' db'') :
    Ensured zone (m :: months) db db'' := by
  have hhas : ∀ m', db'.HasMonth m' ↔ db.HasMonth m' ∨ m' = m := by
    intro m'
    rw [h.hasMonth_iff (by rintro _ (_ | ⟨_, hx⟩); exacts [hm, absurd hx (List.not_mem_nil)]), List.mem_singleton]
  refine ⟨h'.sound, fun p => ?_⟩
  rw [h'.mem, h.mem]
  constructor
  · rintro ((hold | ⟨x, hx, hnot, hp⟩) | ⟨x, hx, hnot, hp⟩)
    · exact .inl hold
    · exact .inr ⟨x, List.mem_cons.2 (.inl (List.mem_singleton.1 hx)), hnot, hp⟩
    · exact .inr ⟨x, List.mem_cons_of_mem _ hx, fun hh => hnot ((hhas x).2 (.inl hh)), hp⟩
  · rintro (hold | ⟨x, hx, hnot, hp⟩)
    · exact .inl (.inl hold)
    · by_cases heq : x = m
      · exact .inl (.inr ⟨x, List.mem_singleton.2 heq, hnot, hp⟩)
      · refine .inr ⟨x, (List.mem_cons.1 hx).resolve_left heq, fun hh => ?_, hp⟩
        rcases (hhas x).1 hh with hold | hsame
        · exact hnot hold
        · exact heq hsame

end Ensured

/-- The table with a new empty partition for the month. -/
def Database.addMonth (db : Database) (m next : Date) : Database :=
  { db with partitions := db.partitions ++ [⟨unqualified (partitionName m), some (m, next), []⟩] }

theorem Database.Sound.addMonth (h : db.Sound zone) (hm : m.IsFirst) (hnext : nextMonth m = .ok next) (hnot : ¬ db.HasMonth m) :
    Ensured zone [m] db (db.addMonth m next) := by
  have hnew : Partition.OfMonth ⟨unqualified (partitionName m), some (m, next), []⟩ m := ⟨hm, rfl, next, hnext, rfl⟩
  have hnames : (db.addMonth m next).existingPartitions = db.existingPartitions ++ [unqualified (partitionName m)] := by
    simp [Database.existingPartitions, Database.addMonth]
  refine ⟨⟨h.parent, ?_, ?_, ?_, ?_⟩, fun p => ?_⟩
  · rw [hnames, List.nodup_append']
    refine ⟨h.distinct, List.nodup_singleton _, ?_⟩
    rw [List.disjoint_singleton]
    exact fun hin => hnot ((h.hasMonth_iff hm).2 hin)
  · rw [hnames]
    exact List.mem_append_left _ h.hasDefault
  · intro p hp
    rcases List.mem_append.1 hp with hold | hp
    · exact h.kinds p hold
    · rw [List.mem_singleton.1 hp]
      exact .inr ⟨m, hnew⟩
  · intro p hp b hb x hx
    rcases List.mem_append.1 hp with hold | hp
    · exact h.ranged p hold b hb x hx
    · rw [List.mem_singleton.1 hp] at hx
      cases hx
  · rw [show (db.addMonth m next).partitions = db.partitions ++ [_] from rfl, List.mem_append, List.mem_singleton]
    refine or_congr_right ⟨?_, ?_⟩
    · rintro rfl
      exact ⟨m, List.mem_singleton_self m, hnot, hnew, rfl⟩
    · rintro ⟨x, hx, _, ⟨_, hname, next', hnext', hb⟩, hrows⟩
      rw [List.mem_singleton.1 hx] at hname hnext' hb
      rw [hnext] at hnext'
      cases hnext'
      cases p
      simp_all

/-- A month that has no partition is created, unless a row of the default partition lies in it. -/
theorem Database.Sound.execute_month (h : db.Sound zone) (hm : m.IsFirst) (hnext : nextMonth m = .ok next) :
    (∃ db', db.execute zone (.createMonth (partitionName m) telemetryPartitionedTable m next) = some db' ∧
        Ensured zone [m] db db') ∨
      (∃ r, db.DefaultRow r ∧ InMonth zone m r.recordedAt ∧ ¬ db.HasMonth m ∧
        db.execute zone (.createMonth (partitionName m) telemetryPartitionedTable m next) = none) := by
  unfold Database.execute
  by_cases hhas : unqualified (partitionName m) ∈ db.existingPartitions
  · refine .inl ⟨db, if_pos hhas, Ensured.refl h fun x hx => ?_⟩
    rw [List.mem_singleton.1 hx]
    exact (h.hasMonth_iff hm).2 hhas
  · have hnot : ¬ db.HasMonth m := fun hh => hhas ((h.hasMonth_iff hm).1 hh)
    by_cases href : db.Refuses zone (m, next)
    · obtain ⟨r, hr, hin⟩ := (h.refuses_iff hm hnext hnot).1 href
      refine .inr ⟨r, hr, hin, hnot, ?_⟩
      simp only [if_neg hhas, if_pos href]
    · exact .inl ⟨db.addMonth m next, by simp only [if_neg hhas, if_neg href]; rfl, h.addMonth hm hnext hnot⟩

/-! ## The statements of a window -/

/-- The pair of `statements_for` for a month. -/
def Creates (m : Date) (x : Relname × Statement) : Prop :=
  ∃ next, nextMonth m = .ok next ∧ x = (partitionName m, .createMonth (partitionName m) telemetryPartitionedTable m next)

/-- The months of a window, in order. -/
def Consecutive (today : Date) (months : List Date) : Prop :=
  List.Forall₂ (fun offset m => m.IsFirst ∧ m.index = today.index + offset) (List.range months.length) months

theorem monthsToCreate_eq_ok {today : Date} {monthsAhead : ℤ} {months : List Date} :
    monthsToCreate today monthsAhead = .ok months ↔
      0 ≤ monthsAhead ∧ (months.length : ℤ) = monthsAhead + 1 ∧ Consecutive today months := by
  have hiff : ∀ (offset : ℕ) (m : Date), addMonths (monthOf today) offset = .ok m ↔
      m.IsFirst ∧ m.index = today.index + offset := by
    intro offset m
    rw [addMonths_eq_ok, monthOf_index]
    exact and_congr_right fun _ => by omega
  unfold monthsToCreate Consecutive
  split
  · rename_i hneg
    constructor
    · intro h
      cases h
    · rintro ⟨hpos, _⟩
      omega
  · rename_i hpos
    simp only [mapM_eq_ok, hiff]
    constructor
    · intro h
      have hlen := h.length_eq
      rw [List.length_range] at hlen
      exact ⟨by omega, by omega, hlen ▸ h⟩
    · rintro ⟨_, hlen, h⟩
      rw [show (monthsAhead + 1).toNat = months.length by omega]
      exact h

/-- The statements of a window are the default partition's and those of its months. -/
theorem statementsFor_eq_ok {today : Date} {monthsAhead : ℤ} {statements : List (Relname × Statement)} :
    statementsFor today monthsAhead = .ok statements ↔ ∃ months monthly, monthsToCreate today monthsAhead = .ok months ∧
      List.Forall₂ Creates months monthly ∧ statements = (defaultPartitionName, defaultPartitionStatement) :: monthly := by
  have hcreates : ∀ (m : Date) (x : Relname × Statement),
      ((partitionStatement m).map fun statement => (partitionName m, statement)) = .ok x ↔ Creates m x := by
    intro m x
    unfold partitionStatement Creates
    rw [map_eq_ok]
    constructor
    · rintro ⟨statement, hst, rfl⟩
      obtain ⟨next, hnext, rfl⟩ := map_eq_ok.1 hst
      exact ⟨next, hnext, rfl⟩
    · rintro ⟨next, hnext, rfl⟩
      exact ⟨_, map_eq_ok.2 ⟨next, hnext, rfl⟩, rfl⟩
  unfold statementsFor
  rw [bind_eq_ok]
  refine exists_congr fun months => ?_
  rw [bind_eq_ok]
  simp only [mapM_eq_ok, hcreates]
  constructor
  · rintro ⟨hmonths, monthly, hmonthly, heq⟩
    cases heq
    exact ⟨monthly, hmonths, hmonthly, rfl⟩
  · rintro ⟨monthly, hmonths, hmonthly, rfl⟩
    exact ⟨hmonths, monthly, hmonthly, rfl⟩

/-- A month is in the window exactly when its number is. -/
theorem Consecutive.mem_iff {today : Date} {months : List Date} (h : Consecutive today months) :
    m ∈ months ↔ m.IsFirst ∧ today.index ≤ m.index ∧ m.index < today.index + months.length := by
  unfold Consecutive at h
  constructor
  · intro hm
    obtain ⟨i, hi, rfl⟩ := List.getElem_of_mem hm
    have hget := List.forall₂_iff_get.1 h |>.2 i (by rw [List.length_range]; exact hi) hi
    simp only [List.get_eq_getElem, List.getElem_range] at hget
    exact ⟨hget.1, by omega, by omega⟩
  · rintro ⟨hfirst, hlo, hhi⟩
    have hi : m.index - today.index < months.length := by omega
    have hget := List.forall₂_iff_get.1 h |>.2 (m.index - today.index) (by rw [List.length_range]; exact hi) hi
    simp only [List.get_eq_getElem, List.getElem_range] at hget
    have hsame : months[m.index - today.index] = m := hget.1.eq hfirst (by omega)
    rw [← hsame]
    exact List.getElem_mem hi

theorem creates_all {months : List Date} {monthly : List (Relname × Statement)} (h : List.Forall₂ Creates months monthly) :
    ∀ m ∈ months, ∃ next, nextMonth m = .ok next := by
  intro m hm
  obtain ⟨_, _, next, hnext, _⟩ := forall₂_left h m hm
  exact ⟨next, hnext⟩

/-! ## The two loops -/

/-- One turn of the creating loop: the month is there afterwards, or it is refused for a default row. -/
theorem ensureStep_month (h : db.Sound zone) {present created : List Relname} {x : Relname × Statement}
    (hsub : ∀ n ∈ present, n ∈ db.existingPartitions) (hm : m.IsFirst) (hx : Creates m x) :
    (∃ db' created', ensureStep zone present (db, created) x = .ok (db', created') ∧ Ensured zone [m] db db') ∨
      (∃ r, db.DefaultRow r ∧ InMonth zone m r.recordedAt ∧ ¬ db.HasMonth m ∧
        ensureStep zone present (db, created) x = .error (.refused (partitionName m))) := by
  obtain ⟨next, hnext, rfl⟩ := hx
  unfold ensureStep Database.executeNamed
  by_cases hpresent : unqualified (partitionName m) ∈ present
  · refine .inl ⟨db, created, if_pos hpresent, Ensured.refl h fun x hx => ?_⟩
    rw [List.mem_singleton.1 hx]
    exact (h.hasMonth_iff hm).2 (hsub _ hpresent)
  · rcases h.execute_month hm hnext with ⟨db', hexec, hens⟩ | ⟨r, hr, hin, hnot, hexec⟩
    · exact .inl ⟨db', created ++ [partitionName m], by simp only [if_neg hpresent, hexec]; rfl, hens⟩
    · exact .inr ⟨r, hr, hin, hnot, by simp only [if_neg hpresent, hexec]; rfl⟩

/-- The creating loop ends with every month of the window there, or is refused for a default row that
lies in a month of the window that had no partition. -/
theorem ensure_loop {present : List Relname} : ∀ {months : List Date} {monthly : List (Relname × Statement)},
    List.Forall₂ Creates months monthly → (∀ m ∈ months, m.IsFirst) → ∀ {db : Database} (created : List Relname),
    db.Sound zone → (∀ n ∈ present, n ∈ db.existingPartitions) →
    (∃ db' created', monthly.foldlM (ensureStep zone present) (db, created) = .ok (db', created') ∧
        Ensured zone months db db') ∨
      (∃ m ∈ months, ∃ r, db.DefaultRow r ∧ InMonth zone m r.recordedAt ∧ ¬ db.HasMonth m ∧
        monthly.foldlM (ensureStep zone present) (db, created) = .error (.refused (partitionName m)))
  | [], [], _, _, db, created, h, _ => .inl ⟨db, created, rfl, Ensured.refl h fun m hm => absurd hm (List.not_mem_nil)⟩
  | m :: months, x :: monthly, hall, hfirst, db, created, h, hsub => by
    obtain ⟨hx, hrest⟩ := List.forall₂_cons.1 hall
    have hm := hfirst m (List.mem_cons_self ..)
    have hnext : ∃ next, nextMonth m = .ok next := hx.imp fun _ hn => hn.1
    have hsingle : ∀ y ∈ [m], y.IsFirst ∧ ∃ next, nextMonth y = .ok next := by
      intro y hy
      rw [List.mem_singleton.1 hy]
      exact ⟨hm, hnext⟩
    rcases ensureStep_month h hsub hm hx with ⟨db', created', hok, hens⟩ | ⟨r, hr, hin, hnot, herr⟩
    · have hsub' : ∀ n ∈ present, n ∈ db'.existingPartitions := by
        intro n hn
        obtain ⟨p, hp, rfl⟩ := List.mem_map.1 (hsub n hn)
        exact List.mem_map.2 ⟨p, (hens.mem p).2 (.inl hp), rfl⟩
      rcases ensure_loop hrest (fun y hy => hfirst y (List.mem_cons_of_mem _ hy)) created' hens.sound hsub' with
        ⟨db'', created'', hloop, hens'⟩ | ⟨y, hy, r, hr, hin, hnot, herr⟩
      · exact .inl ⟨db'', created'', foldlM_cons_ok.2 ⟨_, hok, hloop⟩, hens.cons ⟨hm, hnext⟩ hens'⟩
      · refine .inr ⟨y, List.mem_cons_of_mem _ hy, r, hens.defaultRow_iff.1 hr, hin, ?_, ?_⟩
        · exact fun hh => hnot ((hens.hasMonth_iff hsingle).2 (.inl hh))
        · rw [List.foldlM_cons, hok]
          exact herr
    · refine .inr ⟨m, List.mem_cons_self .., r, hr, hin, hnot, ?_⟩
      rw [List.foldlM_cons, herr]
      rfl

/-- The table without the expired partitions. -/
def Database.without (db : Database) (expired : List (Date × Relname)) : Database :=
  { db with partitions := db.partitions.filter fun p => ∀ x ∈ expired, p.relname ≠ unqualified x.2 }

/-- What the dropping loop leaves. -/
theorem drop_loop : ∀ {expired : List (Date × Relname)} {db : Database} {dropped : List Relname},
    (∀ x ∈ expired, x.2 = partitionName x.1) →
    expired.foldlM (dropStep zone) (db, dropped) = .ok (db.without expired, dropped ++ expired.map (·.2))
  | [], db, dropped, _ => by simp [Database.without]; rfl
  | x :: expired, db, dropped, hnames => by
    have hx := hnames x (List.mem_cons_self ..)
    have hstep : dropStep zone (db, dropped) x =
        .ok ({ db with partitions := db.partitions.filter fun p => p.relname ≠ unqualified x.2 }, dropped ++ [x.2]) := by
      unfold dropStep Database.executeNamed dropStatement Database.execute
      rw [hx]
      rfl
    rw [List.foldlM_cons, hstep]
    refine (drop_loop fun y hy => hnames y (List.mem_cons_of_mem _ hy)).trans ?_
    have hboth : ∀ p : Partition, (decide (∀ y ∈ expired, p.relname ≠ unqualified y.2) && decide (p.relname ≠ unqualified x.2)) =
        decide (∀ y ∈ x :: expired, p.relname ≠ unqualified y.2) := by
      intro p
      rw [← Bool.decide_and, decide_eq_decide, List.forall_mem_cons, and_comm]
    unfold Database.without
    rw [List.filter_filter]
    simp only [hboth, List.map_cons, List.append_assoc, List.singleton_append]

end Plantkeeper.Telemetry.Partitions
