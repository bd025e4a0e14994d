/-
Which names of the catalogue `month_from_partition_name` takes for months. It looks at the prefix, at
the length and at `str.isdigit`; what a month's name ends with is narrower, six ASCII digits of a year
and a month that exist. The two agree on a name unless it lies in between.
-/
import Plantkeeper.Telemetry.Partitions

namespace Plantkeeper.Telemetry.Partitions

open Digits Fold

/-- What the name of a month's partition ends with: ASCII digits, a year from 1 on and a month from 1 to 12. -/
structure MonthLike (suffix : List Char) : Prop where
  ascii : ∀ c ∈ suffix, c.isDigit = true
  year : 1 ≤ Nat.ofDigitChars 10 (suffix.take 4) 0
  month : 1 ≤ Nat.ofDigitChars 10 (suffix.drop 4) 0 ∧ Nat.ofDigitChars 10 (suffix.drop 4) 0 ≤ 12

theorem take_monthDigits (month : Date) : (monthDigits month).take 4 = zeroPadded 4 month.year :=
  List.take_left' (length_year month)

theorem drop_monthDigits (month : Date) : (monthDigits month).drop 4 = zeroPadded 2 month.month :=
  List.drop_left' (length_year month)

theorem monthLike_monthDigits (month : Date) : MonthLike (monthDigits month) := by
  refine ⟨fun c => isDigit_of_mem_monthDigits, ?_, ?_⟩
  · rw [take_monthDigits, ofDigitChars_zeroPadded]
    exact month.year_valid.1
  · rw [drop_monthDigits, ofDigitChars_zeroPadded]
    exact month.month_valid

theorem isDigits_monthDigits (month : Date) : isDigits (monthDigits month) = true := by
  apply isDigits_ascii
  · intro hnil
    have hlen := length_monthDigits month
    rw [hnil] at hlen
    cases hlen
  · exact fun c => isDigit_of_mem_monthDigits

/-- Six characters like a month's are the digits of a month. -/
theorem exists_monthDigits {suffix : List Char} (hlen : suffix.length = partitionSuffixLength) (h : MonthLike suffix) :
    ∃ month : Date, month.IsFirst ∧ suffix = monthDigits month := by
  have hlen : suffix.length = 6 := hlen
  have hyearLength : (suffix.take 4).length = 4 := by simp [hlen]
  have hmonthLength : (suffix.drop 4).length = 2 := by simp [hlen]
  have hyear : ∀ c ∈ suffix.take 4, c.isDigit = true := fun c hc => h.ascii c (List.mem_of_mem_take hc)
  have hmonth : ∀ c ∈ suffix.drop 4, c.isDigit = true := fun c hc => h.ascii c (List.mem_of_mem_drop hc)
  have hlt := ofDigitChars_lt hyear 0
  rw [hyearLength] at hlt
  refine ⟨⟨_, _, 1, ⟨h.year, by omega⟩, h.month, Nat.le_refl 1, daysInMonth_pos _ _⟩, rfl, ?_⟩
  unfold monthDigits
  dsimp only
  -- each part is read back, so the two parts make up the suffix
  have hyearBack := zeroPadded_ofDigitChars (List.ne_nil_of_length_eq_add_one hyearLength) hyear
  have hmonthBack := zeroPadded_ofDigitChars (List.ne_nil_of_length_eq_add_one hmonthLength) hmonth
  rw [hyearLength] at hyearBack
  rw [hmonthLength] at hmonthBack
  rw [hyearBack, hmonthBack, List.take_append_drop]

/-! ## What is read -/

/-- What stands in front of the digits. -/
def stem : Relname := unqualified telemetryPartitionedTable ++ ['_']

/-- The name is taken for a month's: the prefix, and six characters that `str.isdigit` accepts. -/
def TakenForMonth (relname : Relname) (suffix : List Char) : Prop :=
  relname = stem ++ suffix ∧ suffix.length = partitionSuffixLength ∧ isDigits suffix = true

theorem takenForMonth_partitionName (month : Date) :
    TakenForMonth (unqualified (partitionName month)) (monthDigits month) :=
  ⟨unqualified_partitionName month, length_monthDigits month, isDigits_monthDigits month⟩

/-- A name with the prefix, by what comes after it. -/
theorem monthFromPartitionName_stem (suffix : List Char) : monthFromPartitionName (stem ++ suffix) =
    if suffix.length ≠ partitionSuffixLength ∨ isDigits suffix = false then .ok none
    else do
      let year ← intOfDigits (suffix.take 4)
      let month ← intOfDigits (suffix.drop 4)
      return some (← date year month 1) := by
  unfold monthFromPartitionName
  rw [show unqualified telemetryPartitionedTable ++ ['_'] = stem from rfl,
    if_pos (List.isPrefixOf_iff_prefix.2 (List.prefix_append ..)), List.drop_left]

/-- A name that is taken for no month's is `None`. -/
theorem monthFromPartitionName_other {relname : Relname} (h : ∀ suffix, ¬ TakenForMonth relname suffix) :
    monthFromPartitionName relname = .ok none := by
  by_cases hprefix : stem <+: relname
  · obtain ⟨suffix, rfl⟩ := hprefix
    rw [monthFromPartitionName_stem, if_pos]
    by_contra hno
    simp only [not_or, ne_eq, not_not, Bool.not_eq_false] at hno
    exact h suffix ⟨rfl, hno⟩
  · have hno : ¬ stem.isPrefixOf relname = true := fun hp => hprefix (List.isPrefixOf_iff_prefix.1 hp)
    unfold monthFromPartitionName
    exact if_neg hno

/-- A name that is taken for a month's is read as a month, or the reading raises. -/
theorem monthFromPartitionName_taken {relname : Relname} {suffix : List Char} (h : TakenForMonth relname suffix)
    {r : Option Date} (hr : monthFromPartitionName relname = .ok r) : ∃ month, r = some month := by
  obtain ⟨rfl, hlen, hdigits⟩ := h
  rw [monthFromPartitionName_stem, if_neg (by simp [hlen, hdigits])] at hr
  obtain ⟨year, -, hr⟩ := bind_eq_ok.1 hr
  obtain ⟨month, -, hr⟩ := bind_eq_ok.1 hr
  obtain ⟨first, -, hr⟩ := bind_eq_ok.1 hr
  cases hr
  exact ⟨first, rfl⟩

/-! ## Exact decoding -/

/-- Nothing is raised, and the name is read as a month exactly when it is the name of that month's
partition; every other name is `None`. -/
def DecodesExactly (relname : Relname) : Prop :=
  ∃ r, monthFromPartitionName relname = .ok r ∧
    ∀ month : Date, r = some month ↔ month.IsFirst ∧ relname = unqualified (partitionName month)

theorem decodesExactly_partitionName {month : Date} (h : month.IsFirst) :
    DecodesExactly (unqualified (partitionName month)) := by
  refine ⟨some month, monthFromPartitionName_partitionName h, fun m => ⟨?_, ?_⟩⟩
  · rintro ⟨⟩
    exact ⟨h, rfl⟩
  · rintro ⟨hm, hname⟩
    rw [partitionName_inj h hm hname]

theorem decodesExactly_other {relname : Relname} (h : ∀ suffix, ¬ TakenForMonth relname suffix) :
    DecodesExactly relname := by
  refine ⟨none, monthFromPartitionName_other h, fun m => ⟨fun hm => (nomatch hm), ?_⟩⟩
  rintro ⟨-, rfl⟩
  exact absurd (takenForMonth_partitionName m) (h _)

/-- A name decodes exactly unless it is taken for a month's and no month's name ends so. -/
theorem decodesExactly_iff (relname : Relname) :
    DecodesExactly relname ↔ ∀ suffix, TakenForMonth relname suffix → MonthLike suffix := by
  constructor
  · rintro ⟨r, hread, hexact⟩ suffix htaken
    obtain ⟨month, rfl⟩ := monthFromPartitionName_taken htaken hread
    obtain ⟨-, hname⟩ := (hexact month).1 rfl
    rw [htaken.1, unqualified_partitionName] at hname
    rw [List.append_cancel_left hname]
    exact monthLike_monthDigits month
  · intro h
    by_cases htaken : ∃ suffix, TakenForMonth relname suffix
    · obtain ⟨suffix, htaken⟩ := htaken
      obtain ⟨month, hfirst, rfl⟩ := exists_monthDigits htaken.2.1 (h suffix htaken)
      rw [show relname = unqualified (partitionName month) from htaken.1.trans (unqualified_partitionName month).symm]
      exact decodesExactly_partitionName hfirst
    · exact decodesExactly_other (not_exists.1 htaken)

/-- The thirteenth month, a superscript and the digits of another script: the first two raise, and the
third is read as a month whose partition has another name. -/
theorem decodesExactly_fails :
    (monthFromPartitionName "sensor_readings_202613".toList = .error .date ∧
      ¬ DecodesExactly "sensor_readings_202613".toList) ∧
    (monthFromPartitionName "sensor_readings_20270²".toList = .error .literal ∧
      ¬ DecodesExactly "sensor_readings_20270²".toList) ∧
    (monthFromPartitionName "sensor_readings_٢٠٢٧٠٦".toList = (date 2027 6 1).map some ∧
      ¬ DecodesExactly "sensor_readings_٢٠٢٧٠٦".toList) := by
  have hmonth : monthFromPartitionName "sensor_readings_202613".toList = .error .date := by decide
  have hsuperscript : monthFromPartitionName "sensor_readings_20270²".toList = .error .literal := by decide
  have hscript : monthFromPartitionName "sensor_readings_٢٠٢٧٠٦".toList = (date 2027 6 1).map some := by decide
  refine ⟨⟨hmonth, ?_⟩, ⟨hsuperscript, ?_⟩, ⟨hscript, ?_⟩⟩
  · rintro ⟨r, hread, -⟩
    rw [hmonth] at hread
    cases hread
  · rintro ⟨r, hread, -⟩
    rw [hsuperscript] at hread
    cases hread
  · rintro ⟨r, hread, hexact⟩
    rw [hscript] at hread
    cases hread
    exact absurd ((hexact _).1 rfl).2 (by decide)

end Plantkeeper.Telemetry.Partitions
