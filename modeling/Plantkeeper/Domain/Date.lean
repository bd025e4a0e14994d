/-
Calendar dates and months. A `date` carries its own validity, so the constructor of a `date` is the only
place that raises; a month is its first day, and months are numbered so that the month arithmetic of
the partitions is addition on the numbers.
-/
import Mathlib.Algebra.Ring.Nat
import Mathlib.Tactic.Common
import Plantkeeper.Domain.Time

namespace Plantkeeper

/-- A `ValueError`: of `date(…)`, of `int(…)`, or for an argument below zero. -/
inductive ValueError
  | date
  | literal
  | negative (argument : String)
  deriving DecidableEq, Repr

/-! ## Dates -/

/-- `calendar.isleap`. -/
def isLeap (year : ℕ) : Bool := year % 4 == 0 && (year % 100 != 0 || year % 400 == 0)

/-- How many days the month has. -/
def daysInMonth (year month : ℕ) : ℕ :=
  if month = 2 then if isLeap year then 29 else 28
  else if month = 4 ∨ month = 6 ∨ month = 9 ∨ month = 11 then 30
  else 31

theorem daysInMonth_pos (year month : ℕ) : 1 ≤ daysInMonth year month := by
  unfold daysInMonth
  split_ifs <;> omega

/-- A `date`. -/
@[ext] structure Date where
  year : ℕ
  month : ℕ
  day : ℕ
  year_valid : 1 ≤ year ∧ year ≤ 9999
  month_valid : 1 ≤ month ∧ month ≤ 12
  day_valid : 1 ≤ day ∧ day ≤ daysInMonth year month
  deriving DecidableEq

/-- `date(year, month, day)`. -/
def date (year month day : ℕ) : Except ValueError Date :=
  if h : (1 ≤ year ∧ year ≤ 9999) ∧ (1 ≤ month ∧ month ≤ 12) ∧ (1 ≤ day ∧ day ≤ daysInMonth year month) then
    .ok ⟨year, month, day, h.1, h.2.1, h.2.2⟩
  else .error .date

theorem date_eq_ok {year month day : ℕ} {d : Date} :
    date year month day = .ok d ↔ d.year = year ∧ d.month = month ∧ d.day = day := by
  unfold date
  constructor
  · intro h
    split at h
    · cases h; exact ⟨rfl, rfl, rfl⟩
    · cases h
  · rintro ⟨rfl, rfl, rfl⟩
    rw [dif_pos ⟨d.year_valid, d.month_valid, d.day_valid⟩]

namespace Date

/-- Dates compare by year, month and day. -/
instance : LT Date where
  lt a b := a.year < b.year ∨ a.year = b.year ∧ (a.month < b.month ∨ a.month = b.month ∧ a.day < b.day)

instance : LE Date where
  le a b := ¬ b < a

theorem lt_def {a b : Date} : a < b ↔
    a.year < b.year ∨ a.year = b.year ∧ (a.month < b.month ∨ a.month = b.month ∧ a.day < b.day) := Iff.rfl

theorem le_def {a b : Date} : a ≤ b ↔ ¬ b < a := Iff.rfl

instance decidableLt (a b : Date) : Decidable (a < b) :=
  inferInstanceAs (Decidable (_ ∨ _ ∧ (_ ∨ _ ∧ _)))

instance decidableLe (a b : Date) : Decidable (a ≤ b) := inferInstanceAs (Decidable (¬ b < a))

theorem le_refl (a : Date) : a ≤ a := by
  rw [le_def, lt_def]; omega

theorem eq_of_not_lt {a b : Date} (hab : ¬ a < b) (hba : ¬ b < a) : a = b := by
  rw [lt_def] at *
  ext <;> omega

theorem le_iff_lt_or_eq {a b : Date} : a ≤ b ↔ a < b ∨ a = b := by
  constructor
  · intro h
    by_cases hlt : a < b
    · exact .inl hlt
    · exact .inr (eq_of_not_lt hlt (le_def.1 h))
  · rintro (h | rfl)
    · rw [le_def, lt_def] at *; omega
    · exact le_refl a

/-! ## Months -/

/-- The number of the month the date falls in. -/
def index (d : Date) : ℕ := 12 * d.year + (d.month - 1)

/-- The date is the first of its month. -/
def IsFirst (d : Date) : Prop := d.day = 1

instance (d : Date) : Decidable d.IsFirst := inferInstanceAs (Decidable (d.day = 1))

/-- A month is its number. -/
theorem IsFirst.eq {a b : Date} (ha : a.IsFirst) (hb : b.IsFirst) (h : a.index = b.index) : a = b := by
  unfold IsFirst at ha hb
  unfold index at h
  obtain ⟨ha1, ha2⟩ := a.month_valid
  obtain ⟨hb1, hb2⟩ := b.month_valid
  ext <;> omega

/-- Every month number of the years 1 to 9999 is that of a month. -/
theorem exists_first {k : ℕ} (hlo : 12 ≤ k) (hhi : k ≤ 119999) : ∃ d : Date, d.IsFirst ∧ d.index = k := by
  have hpos := daysInMonth_pos (k / 12) (k % 12 + 1)
  refine ⟨⟨k / 12, k % 12 + 1, 1, by omega, by omega, ⟨Nat.le_refl 1, hpos⟩⟩, rfl, ?_⟩
  unfold index
  dsimp only
  omega

theorem index_bounds (d : Date) : 12 ≤ d.index ∧ d.index ≤ 119999 := by
  have hy := d.year_valid
  have hm := d.month_valid
  unfold index
  omega

theorem index_mono {a b : Date} (h : a ≤ b) : a.index ≤ b.index := by
  have ha := a.month_valid
  have hb := b.month_valid
  rw [le_def, lt_def] at h
  unfold index
  omega

/-- A date is before a month exactly when its month is. -/
theorem IsFirst.lt_iff {a b : Date} (hb : b.IsFirst) : a < b ↔ a.index < b.index := by
  have ha := a.day_valid
  have ham := a.month_valid
  have hbm := b.month_valid
  unfold IsFirst at hb
  rw [lt_def]
  unfold index
  omega

theorem IsFirst.le_iff {a b : Date} (ha : a.IsFirst) : a ≤ b ↔ a.index ≤ b.index := by
  rw [le_def, ha.lt_iff]
  omega

/-! ## Ordinals -/

/-- `_days_before_year`. -/
def daysBeforeYear (year : ℕ) : ℕ := (year - 1) * 365 + (year - 1) / 4 - (year - 1) / 100 + (year - 1) / 400

/-- `_days_before_month`. -/
def daysBeforeMonth (year month : ℕ) : ℕ := ((List.range (month - 1)).map fun i => daysInMonth year (i + 1)).sum

/-- `toordinal`: January 1 of year 1 is day 1. -/
def toordinal (d : Date) : ℕ := daysBeforeYear d.year + daysBeforeMonth d.year d.month + d.day

theorem daysBeforeMonth_succ (year : ℕ) {month : ℕ} (h : 1 ≤ month) :
    daysBeforeMonth year (month + 1) = daysBeforeMonth year month + daysInMonth year month := by
  obtain ⟨m, rfl⟩ := Nat.exists_eq_add_of_le' h
  simp [daysBeforeMonth, List.range_succ]

/-- A month ends before a later one begins. -/
theorem daysBeforeMonth_le (year : ℕ) {a b : ℕ} (ha : 1 ≤ a) (h : a < b) :
    daysBeforeMonth year a + daysInMonth year a ≤ daysBeforeMonth year b := by
  induction h with
  | refl => exact Nat.le_of_eq (daysBeforeMonth_succ year ha).symm
  | @step b hb ih =>
    rw [daysBeforeMonth_succ year (Nat.le_trans (by omega) hb)]
    omega

theorem daysBeforeMonth_end (year : ℕ) : daysBeforeMonth year 13 = if isLeap year then 366 else 365 := by
  unfold daysBeforeMonth daysInMonth
  cases isLeap year <;> rfl

theorem daysBeforeYear_succ {year : ℕ} (h : 1 ≤ year) :
    daysBeforeYear (year + 1) = daysBeforeYear year + if isLeap year then 366 else 365 := by
  have hleap : isLeap year = true ↔ year % 4 = 0 ∧ (year % 100 ≠ 0 ∨ year % 400 = 0) := by simp [isLeap]
  obtain ⟨y, rfl⟩ := Nat.exists_eq_add_of_le' h
  have hdiv : ∀ k > 0, (y + 1) / k = y / k + if (y + 1) % k = 0 then 1 else 0 := by
    intro k hk
    rw [Nat.succ_div]
    simp only [Nat.dvd_iff_mod_eq_zero]
  have h100 : (y + 1) % 100 = 0 → (y + 1) % 4 = 0 := by omega
  have h400 : (y + 1) % 400 = 0 → (y + 1) % 100 = 0 := by omega
  have hle : y / 100 ≤ y / 4 := Nat.div_le_div_left (by decide) (by decide)
  simp only [daysBeforeYear, Nat.add_sub_cancel, hdiv 4 (by decide), hdiv 100 (by decide), hdiv 400 (by decide), hleap]
  generalize y / 4 = a at *
  generalize y / 100 = b at *
  generalize y / 400 = c at *
  -- a year after a multiple of 400, of 100 only, of 4 only, or of none
  by_cases hfour : (y + 1) % 4 = 0
  · by_cases hhundred : (y + 1) % 100 = 0
    · by_cases hfourhundred : (y + 1) % 400 = 0
      · simp only [hfour, hhundred, hfourhundred, if_true, ne_eq, not_true_eq_false, or_true, and_self]
        omega
      · simp only [hfour, hhundred, hfourhundred, if_true, if_false, ne_eq, not_true_eq_false, or_self, and_false]
        omega
    · simp only [hfour, hhundred, mt h400 hhundred, if_true, if_false, ne_eq, not_false_eq_true, true_or, and_self]
      omega
  · have hhundred := mt h100 hfour
    simp only [hfour, hhundred, mt h400 hhundred, if_false, false_and]
    omega

/-- A year ends before a later one begins. -/
theorem daysBeforeYear_le {a b : ℕ} (ha : 1 ≤ a) (h : a < b) :
    daysBeforeYear a + (if isLeap a then 366 else 365) ≤ daysBeforeYear b := by
  induction h with
  | refl => exact Nat.le_of_eq (daysBeforeYear_succ ha).symm
  | @step b hb ih =>
    rw [daysBeforeYear_succ (Nat.le_trans (by omega) hb)]
    omega

/-- A later date has the greater ordinal. -/
theorem toordinal_lt {a b : Date} (h : a < b) : a.toordinal < b.toordinal := by
  have hday := a.day_valid
  have hday' := b.day_valid
  have hmonth := a.month_valid
  unfold toordinal
  rcases h with hyear | ⟨hyear, hmonth' | ⟨hmonth', hd⟩⟩
  · have hy := daysBeforeYear_le a.year_valid.1 hyear
    have hm := daysBeforeMonth_le a.year (b := 13) hmonth.1 (by omega)
    rw [daysBeforeMonth_end] at hm
    omega
  · have hm := daysBeforeMonth_le a.year hmonth.1 hmonth'
    rw [← hyear]
    omega
  · rw [hyear, hmonth']
    omega

/-- The ordinal of 1970-01-01. -/
def epochOrdinal : ℕ := 719163

/-- Midnight UTC at the date's beginning. -/
def midnight (d : Date) : Instant := days ((d.toordinal : ℤ) - epochOrdinal)

theorem midnight_lt {a b : Date} (h : a < b) : a.midnight < b.midnight := by
  have hord := toordinal_lt h
  have hsub : (a.toordinal : ℤ) - epochOrdinal < b.toordinal - epochOrdinal := by omega
  unfold midnight days hours seconds
  show (_ : ℤ) < _
  omega

example : (date 1970 1 1).toOption.map midnight = some 0 := by decide

end Date

end Plantkeeper
