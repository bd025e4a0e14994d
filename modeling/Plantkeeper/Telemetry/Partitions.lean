/-
The monthly partitions of `sensor_readings`: the month arithmetic, the names and statements, and the
window's two ends. Months are walked one at a time, so the arithmetic is exact as long as every month on
the way is one of the years 1 to 9999, and raises otherwise.
-/
import Mathlib.Data.Char
import Mathlib.Data.List.DropRight
import Mathlib.Data.List.Lex
import Mathlib.Data.List.Sort
import Plantkeeper.Domain.Digits
import Plantkeeper.Lib.Fold

namespace Plantkeeper.Telemetry.Partitions

open Digits Fold

/-- The name of a table, qualified or not. -/
abbrev Relname := List Char

/-- `TELEMETRY_PARTITIONED_TABLE`. -/
def telemetryPartitionedTable : Relname := "write_telemetry.sensor_readings".toList

/-- `DEFAULT_PARTITION_SUFFIX`. -/
def defaultPartitionSuffix : List Char := "default".toList

/-- `PARTITION_SUFFIX_LENGTH`. -/
def partitionSuffixLength : ℕ := 6

/-! ## Month arithmetic -/

/-- `month_of`. -/
def monthOf (d : Date) : Date :=
  { d with day := 1, day_valid := ⟨Nat.le_refl 1, daysInMonth_pos d.year d.month⟩ }

/-- `next_month`. -/
def nextMonth (month : Date) : Except ValueError Date :=
  if month.month = 12 then date (month.year + 1) 1 1 else date month.year (month.month + 1) 1

/-- `previous_month`. -/
def previousMonth (month : Date) : Except ValueError Date :=
  if month.month = 1 then date (month.year - 1) 12 1 else date month.year (month.month - 1) 1

/-- `add_months`. -/
def addMonths (month : Date) (count : ℤ) : Except ValueError Date :=
  (List.range count.natAbs).foldlM
    (fun result _ => if 0 ≤ count then nextMonth result else previousMonth result) (monthOf month)

theorem monthOf_isFirst (d : Date) : (monthOf d).IsFirst := rfl

@[simp] theorem monthOf_index (d : Date) : (monthOf d).index = d.index := rfl

theorem nextMonth_eq_ok {d m : Date} : nextMonth d = .ok m ↔ m.IsFirst ∧ m.index = d.index + 1 := by
  have hd := d.month_valid
  have hm := m.month_valid
  unfold nextMonth Date.IsFirst Date.index
  split
  · rw [date_eq_ok]
    omega
  · rw [date_eq_ok]
    omega

theorem previousMonth_eq_ok {d m : Date} : previousMonth d = .ok m ↔ m.IsFirst ∧ m.index + 1 = d.index := by
  have hd := d.month_valid
  have hm := m.month_valid
  have hdy := d.year_valid
  unfold previousMonth Date.IsFirst Date.index
  split
  · rw [date_eq_ok]
    omega
  · rw [date_eq_ok]
    omega

/-- A step of the walk goes to the month next to it, if there is one. -/
theorem walkStep_eq_ok {mid m : Date} {count : ℤ} :
    (if 0 ≤ count then nextMonth mid else previousMonth mid) = .ok m ↔
      m.IsFirst ∧ (m.index : ℤ) = mid.index + if 0 ≤ count then 1 else -1 := by
  have hm := m.index_bounds
  split
  · rw [nextMonth_eq_ok]
    exact and_congr_right fun _ => by omega
  · rw [previousMonth_eq_ok]
    exact and_congr_right fun _ => by omega

/-- Months are added on their numbers, as long as there is a month of that number. -/
theorem addMonths_eq_ok {d m : Date} {count : ℤ} :
    addMonths d count = .ok m ↔ m.IsFirst ∧ (m.index : ℤ) = d.index + count := by
  unfold addMonths
  suffices hwalk : ∀ n ≤ count.natAbs, ∀ m : Date, (List.range n).foldlM
      (fun result _ => if 0 ≤ count then nextMonth result else previousMonth result) (monthOf d) = .ok m ↔
      m.IsFirst ∧ (m.index : ℤ) = d.index + (if 0 ≤ count then (n : ℤ) else -n) by
    have habs : (if 0 ≤ count then (count.natAbs : ℤ) else -count.natAbs) = count := by split_ifs <;> omega
    rw [hwalk count.natAbs (Nat.le_refl _) m, habs]
  intro n
  induction n with
  | zero =>
    intro _ m
    rw [List.range_zero, List.foldlM_nil]
    constructor
    · intro h
      cases h
      exact ⟨monthOf_isFirst d, by simp⟩
    · rintro ⟨hfirst, hindex⟩
      have hsame : m = monthOf d := hfirst.eq (monthOf_isFirst d) (by rw [monthOf_index]; split at hindex <;> omega)
      rw [hsame]; rfl
  | succ n ih =>
    intro hn m
    have hd := d.index_bounds
    have hm := m.index_bounds
    rw [List.range_succ, foldlM_concat_ok]
    simp only [ih (by omega), walkStep_eq_ok]
    constructor
    · rintro ⟨mid, ⟨-, hmid⟩, hfirst, hindex⟩
      refine ⟨hfirst, ?_⟩
      split_ifs at * <;> omega
    · -- the month on the way lies between two months that exist
      rintro ⟨hfirst, hindex⟩
      obtain ⟨mid, hmid, hk⟩ := Date.exists_first (k := (d.index + if 0 ≤ count then (n : ℤ) else -n).toNat)
        (by split_ifs at * <;> omega) (by split_ifs at * <;> omega)
      refine ⟨mid, ⟨hmid, ?_⟩, hfirst, ?_⟩
      all_goals split_ifs at * <;> omega

/-- `months_to_create`. -/
def monthsToCreate (today : Date) (monthsAhead : ℤ) : Except ValueError (List Date) :=
  if monthsAhead < 0 then .error (.negative "months_ahead")
  else (List.range (monthsAhead + 1).toNat).mapM fun (offset : ℕ) => addMonths (monthOf today) offset

/-! ## Names and statements -/

/-- `rpartition(".")[2]`. -/
def unqualified (name : Relname) : Relname := name.rtakeWhile (· != '.')

/-- `partition_name`. -/
def partitionName (month : Date) : Relname :=
  telemetryPartitionedTable ++ '_' :: (zeroPadded 4 month.year ++ zeroPadded 2 month.month)

/-- `default_partition_name`. -/
def defaultPartitionName : Relname := telemetryPartitionedTable ++ '_' :: defaultPartitionSuffix

/-- The statements of the job. -/
inductive Statement
  | createDefault (name table : Relname)
  | createMonth (name table : Relname) (lower upper : Date)
  | drop (name : Relname)
  deriving DecidableEq

/-- `date.isoformat`. -/
def isoformat (d : Date) : List Char :=
  zeroPadded 4 d.year ++ '-' :: zeroPadded 2 d.month ++ '-' :: zeroPadded 2 d.day

/-- A statement as it is sent. -/
def Statement.text : Statement → List Char
  | .createDefault name table =>
    "CREATE TABLE IF NOT EXISTS ".toList ++ name ++ " PARTITION OF ".toList ++ table ++ " DEFAULT".toList
  | .createMonth name table lower upper =>
    "CREATE TABLE IF NOT EXISTS ".toList ++ name ++ " PARTITION OF ".toList ++ table ++
      " FOR VALUES FROM ('".toList ++ isoformat lower ++ "') TO ('".toList ++ isoformat upper ++ "')".toList
  | .drop name => "DROP TABLE IF EXISTS ".toList ++ name

/-- `partition_statement`. -/
def partitionStatement (month : Date) : Except ValueError Statement :=
  (nextMonth month).map fun upper => .createMonth (partitionName month) telemetryPartitionedTable month upper

/-- `default_partition_statement`. -/
def defaultPartitionStatement : Statement := .createDefault defaultPartitionName telemetryPartitionedTable

/-- `drop_statement`. -/
def dropStatement (month : Date) : Statement := .drop (partitionName month)

/-- `statements_for`. -/
def statementsFor (today : Date) (monthsAhead : ℤ) : Except ValueError (List (Relname × Statement)) := do
  let months ← monthsToCreate today monthsAhead
  let monthly ← months.mapM fun month => (partitionStatement month).map fun statement => (partitionName month, statement)
  return (defaultPartitionName, defaultPartitionStatement) :: monthly

/-- `month_from_partition_name`. -/
def monthFromPartitionName (relname : Relname) : Except ValueError (Option Date) :=
  let stem := unqualified telemetryPartitionedTable ++ ['_']
  if stem.isPrefixOf relname then
    let suffix := relname.drop stem.length
    if suffix.length ≠ partitionSuffixLength ∨ isDigits suffix = false then .ok none
    else do
      let year ← intOfDigits (suffix.take 4)
      let month ← intOfDigits (suffix.drop 4)
      return some (← date year month 1)
  else .ok none

/-! ## The far end of the window -/

/-- `retention_cutoff`. -/
def retentionCutoff (today : Date) (retentionMonths : ℤ) : Except ValueError Date :=
  if retentionMonths < 0 then .error (.negative "retention_months")
  else addMonths (monthOf today) (-retentionMonths)

/-- The loop of `expired_partitions`. -/
def expiredOf (cutoff : Date) : List Relname → Except ValueError (List (Date × Relname))
  | [] => .ok []
  | relname :: rest => do
    match ← monthFromPartitionName relname with
    | none => expiredOf cutoff rest
    | some month =>
      let next ← nextMonth month
      let expired ← expiredOf cutoff rest
      return if cutoff < next then expired else (month, partitionName month) :: expired

/-- `expired_partitions`. -/
def expiredPartitions (present : List Relname) (today : Date) (retentionMonths : ℤ) :
    Except ValueError (List (Date × Relname)) := do
  let cutoff ← retentionCutoff today retentionMonths
  expiredOf cutoff (present.insertionSort (· ≤ ·))

/-! ## What the names say -/

theorem unqualified_append (schema : Relname) {name : Relname} (h : '.' ∉ name) : unqualified (schema ++ '.' :: name) = name := by
  have hall : ∀ c ∈ name.reverse, (c != '.') = true := by
    intro c hc
    rw [bne_iff_ne]
    rintro rfl
    exact h (List.mem_reverse.1 hc)
  unfold unqualified List.rtakeWhile
  rw [List.reverse_append, List.reverse_cons, List.append_assoc, List.takeWhile_append_of_pos hall]
  simp

/-- What a monthly partition's name ends with. -/
def monthDigits (month : Date) : List Char := zeroPadded 4 month.year ++ zeroPadded 2 month.month

theorem isDigit_of_mem_monthDigits {month : Date} {c : Char} (h : c ∈ monthDigits month) : c.isDigit = true := by
  rcases List.mem_append.1 h with hyear | hmonth
  · exact isDigit_of_mem_zeroPadded hyear
  · exact isDigit_of_mem_zeroPadded hmonth

theorem length_year (month : Date) : (zeroPadded 4 month.year).length = 4 :=
  length_zeroPadded (by decide) (Nat.lt_succ_of_le month.year_valid.2)

theorem length_monthDigits (month : Date) : (monthDigits month).length = partitionSuffixLength := by
  have hmonth : (zeroPadded 2 month.month).length = 2 :=
    length_zeroPadded (by decide) (Nat.lt_of_le_of_lt month.month_valid.2 (by decide))
  rw [monthDigits, List.length_append, length_year, hmonth]
  rfl

theorem unqualified_partitionName (month : Date) :
    unqualified (partitionName month) = unqualified telemetryPartitionedTable ++ ['_'] ++ monthDigits month := by
  have htable : telemetryPartitionedTable = "write_telemetry".toList ++ '.' :: "sensor_readings".toList := by decide
  have hstem : unqualified telemetryPartitionedTable = "sensor_readings".toList := by
    rw [htable]
    exact unqualified_append _ (by decide)
  have hdot : '.' ∉ "sensor_readings".toList ++ '_' :: monthDigits month := by
    simp only [List.mem_append, List.mem_cons, not_or]
    refine ⟨by decide, by decide, fun hdigit => ?_⟩
    exact absurd (isDigit_of_mem_monthDigits hdigit) (by decide)
  have hname : partitionName month = "write_telemetry".toList ++ '.' :: ("sensor_readings".toList ++ '_' :: monthDigits month) := by
    rw [partitionName, htable, List.append_assoc, List.cons_append]
    rfl
  rw [hname, unqualified_append _ hdot, hstem, List.append_assoc]
  rfl

/-- The name of a month's partition is read back as the month. -/
theorem monthFromPartitionName_partitionName {month : Date} (h : month.IsFirst) :
    monthFromPartitionName (unqualified (partitionName month)) = .ok (some month) := by
  have hdigits : isDigits (monthDigits month) = true :=
    isDigits_ascii (by
      intro hnil
      have hlen := length_monthDigits month
      rw [hnil] at hlen
      cases hlen) fun _ hc => isDigit_of_mem_monthDigits hc
  have hyear : intOfDigits ((monthDigits month).take 4) = .ok month.year := by
    rw [monthDigits, List.take_left' (length_year month),
      intOfDigits_ascii fun _ hc => isDigit_of_mem_zeroPadded hc, ofDigitChars_zeroPadded]
  have hmonth : intOfDigits ((monthDigits month).drop 4) = .ok month.month := by
    rw [monthDigits, List.drop_left' (length_year month),
      intOfDigits_ascii fun _ hc => isDigit_of_mem_zeroPadded hc, ofDigitChars_zeroPadded]
  have hdate : date month.year month.month 1 = .ok month := date_eq_ok.2 ⟨rfl, rfl, h⟩
  rw [unqualified_partitionName]
  unfold monthFromPartitionName
  rw [if_pos (List.isPrefixOf_iff_prefix.2 (List.prefix_append ..)), List.drop_left,
    if_neg (by rw [length_monthDigits, hdigits]; simp), hyear, hmonth]
  simp only [bind, Except.bind, hdate]
  rfl

theorem monthFromPartitionName_default : monthFromPartitionName (unqualified defaultPartitionName) = .ok none := by decide

theorem partitionName_inj {a b : Date} (ha : a.IsFirst) (hb : b.IsFirst)
    (h : unqualified (partitionName a) = unqualified (partitionName b)) : a = b := by
  have hread := monthFromPartitionName_partitionName ha
  rw [h, monthFromPartitionName_partitionName hb] at hread
  cases hread
  rfl

/-- The partition of a month is not the default one. -/
theorem partitionName_ne_default (month : Date) : unqualified (partitionName month) ≠ unqualified defaultPartitionName := by
  intro h
  have hread := monthFromPartitionName_partitionName (monthOf_isFirst month)
  rw [show unqualified (partitionName (monthOf month)) = unqualified (partitionName month) from rfl, h,
    monthFromPartitionName_default] at hread
  cases hread

/-- A name of this module's: of a month that ends, or the default partition's. -/
def Owned (relname : Relname) : Prop :=
  relname = unqualified defaultPartitionName ∨
    ∃ month next, month.IsFirst ∧ nextMonth month = .ok next ∧ relname = unqualified (partitionName month)

/-- Of the partitions of this module exactly the months before the cutoff are expired. -/
theorem expiredOf_owned {cutoff : Date} (hcutoff : cutoff.IsFirst) : ∀ {names : List Relname}, (∀ r ∈ names, Owned r) →
    ∃ expired, expiredOf cutoff names = .ok expired ∧ ∀ p, p ∈ expired ↔
      p.1.IsFirst ∧ unqualified (partitionName p.1) ∈ names ∧ p.2 = partitionName p.1 ∧ p.1.index < cutoff.index
  | [], _ => ⟨[], rfl, by simp⟩
  | relname :: rest, hall => by
    obtain ⟨expired, hrest, hmem⟩ := expiredOf_owned hcutoff (fun r hr => hall r (List.mem_cons_of_mem _ hr))
    unfold expiredOf
    rcases hall relname (List.mem_cons_self ..) with rfl | ⟨month, next, hfirst, hnext, rfl⟩
    · refine ⟨expired, by rw [monthFromPartitionName_default]; exact hrest, fun p => ?_⟩
      rw [hmem, List.mem_cons, or_iff_right (partitionName_ne_default p.1)]
    · obtain ⟨hnextFirst, hindex⟩ := nextMonth_eq_ok.1 hnext
      have hkeep : cutoff < next ↔ cutoff.index < month.index + 1 := by rw [hnextFirst.lt_iff, hindex]
      refine ⟨if cutoff < next then expired else (month, partitionName month) :: expired, ?_, fun p => ?_⟩
      · rw [monthFromPartitionName_partitionName hfirst]
        simp only [bind, Except.bind, hnext, hrest]
        rfl
      · have hthis : p.1.IsFirst → (unqualified (partitionName p.1) = unqualified (partitionName month) ↔ p.1 = month) :=
          fun hp => ⟨partitionName_inj hp hfirst, fun heq => by rw [heq]⟩
        rw [List.mem_cons]
        split
        · rename_i hlt
          rw [hmem]
          constructor
          · rintro ⟨hp, hin, hname, hbefore⟩
            exact ⟨hp, .inr hin, hname, hbefore⟩
          · rintro ⟨hp, hin | hin, hname, hbefore⟩
            · rw [(hthis hp).1 hin] at hbefore
              have := hkeep.1 hlt
              omega
            · exact ⟨hp, hin, hname, hbefore⟩
        · rename_i hlt
          rw [List.mem_cons, hmem]
          constructor
          · rintro (rfl | ⟨hp, hin, hname, hbefore⟩)
            · have := mt hkeep.2 hlt
              exact ⟨hfirst, .inl rfl, rfl, by dsimp only; omega⟩
            · exact ⟨hp, .inr hin, hname, hbefore⟩
          · rintro ⟨hp, hin | hin, hname, hbefore⟩
            · have heq := (hthis hp).1 hin
              exact .inl (Prod.ext heq (by rw [hname, heq]))
            · exact .inr ⟨hp, hin, hname, hbefore⟩

/-- `expired_partitions` over partitions of this module: the months that end at or before the cutoff. -/
theorem expiredPartitions_owned {present : List Relname} {today cutoff : Date} {retentionMonths : ℤ}
    (howned : ∀ r ∈ present, Owned r) (hcutoff : retentionCutoff today retentionMonths = .ok cutoff) :
    ∃ expired, expiredPartitions present today retentionMonths = .ok expired ∧ ∀ p, p ∈ expired ↔
      p.1.IsFirst ∧ unqualified (partitionName p.1) ∈ present ∧ p.2 = partitionName p.1 ∧ p.1.index < cutoff.index := by
  have hfirst : cutoff.IsFirst := by
    unfold retentionCutoff at hcutoff
    split at hcutoff
    · cases hcutoff
    · exact (addMonths_eq_ok.1 hcutoff).1
  have hsorted : ∀ r ∈ present.insertionSort (· ≤ ·), Owned r := fun r hr => howned r ((List.mem_insertionSort _).1 hr)
  obtain ⟨expired, hok, hmem⟩ := expiredOf_owned hfirst hsorted
  refine ⟨expired, ?_, fun p => ?_⟩
  · unfold expiredPartitions
    rw [hcutoff]
    exact hok
  · rw [hmem, List.mem_insertionSort]

end Plantkeeper.Telemetry.Partitions
