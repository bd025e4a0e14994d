/-
The ISO 8601 texts of a `datetime`: `isoformat`, and `fromisoformat` with the formats it takes (basic and
extended dates, week dates, shortened times, any separator, `Z`). What the one writes the other reads back,
offset and fraction included.
-/
import Mathlib.Data.List.TakeWhile
import Plantkeeper.Domain.Date
import Plantkeeper.Lib.Digits

namespace Plantkeeper

open Digits

/-! ## Values -/

/-- The time of a `datetime`. -/
@[ext] structure Time where
  hour : ℕ
  minute : ℕ
  second : ℕ
  microsecond : ℕ
  valid : hour < 24 ∧ minute < 60 ∧ second < 60 ∧ microsecond < 1000000
  deriving DecidableEq

def Time.micros (t : Time) : ℕ := ((t.hour * 60 + t.minute) * 60 + t.second) * 1000000 + t.microsecond

/-- A time of day by its microseconds. -/
def Time.ofMicros (n : ℕ) (h : n < 86400000000) : Time where
  hour := n / 3600000000
  minute := n / 60000000 % 60
  second := n / 1000000 % 60
  microsecond := n % 1000000
  valid := by omega

theorem Time.micros_ofMicros (n : ℕ) (h : n < 86400000000) : (Time.ofMicros n h).micros = n := by
  unfold micros ofMicros
  dsimp only
  omega

/-- The offset of a `timezone`: strictly between minus and plus a day. -/
@[ext] structure UtcOffset where
  micros : ℤ
  valid : micros.natAbs < 86400000000
  deriving DecidableEq

/-- A `datetime`, with the offset of its `tzinfo` if it has one. -/
@[ext] structure DateTime where
  date : Date
  time : Time
  offset : Option UtcOffset
  deriving DecidableEq

namespace DateTime

/-- What its clock shows, as microseconds from 1970. -/
def clock (d : DateTime) : ℤ := d.date.midnight + d.time.micros

/-- The point in time, or the naive value. -/
def datetime (d : DateTime) : Datetime :=
  match d.offset with
  | none => .naive d.clock
  | some o => .aware (d.clock - o.micros)

end DateTime

/-! ## Writing -/

/-- The microseconds, unless there are none. -/
def isoFraction (microsecond : ℕ) : List Char := if microsecond = 0 then [] else '.' :: zeroPadded 6 microsecond

def Date.iso (d : Date) : List Char := zeroPadded 4 d.year ++ '-' :: zeroPadded 2 d.month ++ '-' :: zeroPadded 2 d.day

def Time.iso (t : Time) : List Char :=
  zeroPadded 2 t.hour ++ ':' :: zeroPadded 2 t.minute ++ ':' :: zeroPadded 2 t.second ++ isoFraction t.microsecond

/-- `_format_utcoffset`. -/
def UtcOffset.iso (o : UtcOffset) : List Char :=
  let t := Time.ofMicros o.micros.natAbs o.valid
  (if o.micros < 0 then '-' else '+') :: zeroPadded 2 t.hour ++ ':' :: zeroPadded 2 t.minute ++
    if t.second = 0 ∧ t.microsecond = 0 then [] else ':' :: zeroPadded 2 t.second ++ isoFraction t.microsecond

/-- `isoformat`. -/
def DateTime.isoformat (d : DateTime) : List Char := d.date.iso ++ 'T' :: d.time.iso ++ (d.offset.map UtcOffset.iso).getD []

/-! ## Reading -/

/-- A number of exactly so many digits, and what follows it. -/
def digits (width : ℕ) (cs : List Char) : Option (ℕ × List Char) :=
  if (cs.take width).length = width ∧ (cs.take width).all Char.isDigit then
    some (Nat.ofDigitChars 10 (cs.take width) 0, cs.drop width)
  else none

/-- What follows a separator, if there is one to be. -/
def skip (separated : Bool) (cs : List Char) : List Char := if separated then cs.tail else cs

/-- `_find_isoformat_datetime_separator`. -/
def separatorLocation (cs : List Char) : Option ℕ :=
  if cs.length = 7 then some 7
  else if cs[4]? = some '-' then
    if cs[5]? = some 'W' then
      if cs.length < 8 then none
      else if cs[8]? = some '-' then
        if cs.length = 9 then none
        else if (cs[10]?.map Char.isDigit).getD false then some 8
        else some 10
      else some 8
    else some 10
  else if cs[4]? = some 'W' then
    let index := 7 + ((cs.drop 7).takeWhile Char.isDigit).length
    if index < 9 then some index else if index % 2 = 0 then some 7 else some 8
  else some 8

/-- `_isoweek1monday`. -/
def isoweek1monday (year : ℕ) : ℕ :=
  let firstday := Date.daysBeforeYear year + 1
  let firstweekday := (firstday + 6) % 7
  let week1monday := firstday - firstweekday
  if firstweekday > 3 then week1monday + 7 else week1monday

/-- `_ord2ymd`. -/
def ord2ymd (ordinal : ℕ) : ℕ × ℕ × ℕ :=
  let n := ordinal - 1
  let n400 := n / 146097
  let n := n % 146097
  let n100 := n / 36524
  let n := n % 36524
  let n4 := n / 1461
  let n := n % 1461
  let n1 := n / 365
  let n := n % 365
  let year := n400 * 400 + 1 + n100 * 100 + n4 * 4 + n1
  if n1 = 4 ∨ n100 = 4 then (year - 1, 12, 31)
  else
    let month := (n + 50) / 32
    let month := if Date.daysBeforeMonth year month > n then month - 1 else month
    (year, month, n - Date.daysBeforeMonth year month + 1)

/-- `_isoweek_to_gregorian`. -/
def isoweekToGregorian (year week day : ℕ) : Option (ℕ × ℕ × ℕ) :=
  let firstWeekday := (Date.daysBeforeYear year + 1) % 7
  let long := firstWeekday = 4 ∨ firstWeekday = 3 ∧ isLeap year = true
  if (1 ≤ year ∧ year ≤ 9999) ∧ (0 < week ∧ week < 53 ∨ week = 53 ∧ long) ∧ 0 < day ∧ day < 8 then
    some (ord2ymd (isoweek1monday year + ((week - 1) * 7 + (day - 1))))
  else none

/-- The rest of a week date. -/
def weekDate (year : ℕ) (separated : Bool) (cs : List Char) : Option (ℕ × ℕ × ℕ) :=
  (digits 2 cs).bind fun (week, rest) =>
    if rest = [] then isoweekToGregorian year week 1
    else if (rest.head? == some '-') ≠ separated then none
    else (digits 1 (skip separated rest)).bind fun (day, _) => isoweekToGregorian year week day

/-- The rest of a calendar date. -/
def calendarDate (year : ℕ) (separated : Bool) (cs : List Char) : Option (ℕ × ℕ × ℕ) :=
  (digits 2 cs).bind fun (month, rest) =>
    if (rest.head? == some '-') ≠ separated then none
    else (digits 2 (skip separated rest)).map fun (day, _) => (year, month, day)

/-- `_parse_isoformat_date`. -/
def parseDate (cs : List Char) : Option (ℕ × ℕ × ℕ) :=
  (digits 4 cs).bind fun (year, rest) =>
    let separated := rest.head? == some '-'
    let rest := skip separated rest
    if rest.head? = some 'W' then weekDate year separated rest.tail else calendarDate year separated rest

/-- The microseconds after the seconds; digits beyond the sixth are dropped. -/
def parseFraction (cs : List Char) : Option ℕ :=
  match cs with
  | [] => some 0
  | mark :: fraction =>
    if (mark = '.' ∨ mark = ',') ∧ fraction ≠ [] ∧ fraction.all Char.isDigit then
      some (Nat.ofDigitChars 10 (fraction.take 6) 0 * 10 ^ (6 - (fraction.take 6).length))
    else none

/-- `_parse_hh_mm_ss_ff`. -/
def parseTime (cs : List Char) : Option (ℕ × ℕ × ℕ × ℕ) :=
  (digits 2 cs).bind fun (hour, rest) =>
    let separated := rest.head? == some ':'
    if rest = [] then some (hour, 0, 0, 0)
    else
      (digits 2 (skip separated rest)).bind fun (minute, rest) =>
        if rest = [] then some (hour, minute, 0, 0)
        else if separated && rest.head? != some ':' then none
        else
          (digits 2 (skip separated rest)).bind fun (second, rest) =>
            (parseFraction rest).map fun microsecond => (hour, minute, second, microsecond)

/-- The time, and its zone with the character it begins with. -/
def splitZone (cs : List Char) : List Char × Option (Char × List Char) :=
  let mark := if '-' ∈ cs then '-' else if '+' ∈ cs then '+' else 'Z'
  match cs.dropWhile (· ≠ mark) with
  | [] => (cs, none)
  | mark :: zone => (cs.takeWhile (· ≠ mark), some (mark, zone))

/-- A time that passes the checks of the constructor. -/
def timeOf (c : ℕ × ℕ × ℕ × ℕ) : Option Time :=
  if h : c.1 < 24 ∧ c.2.1 < 60 ∧ c.2.2.1 < 60 ∧ c.2.2.2 < 1000000 then some ⟨c.1, c.2.1, c.2.2.1, c.2.2.2, h⟩ else none

theorem Time.micros_lt (t : Time) : t.micros < 86400000000 := by
  have h := t.valid
  unfold micros
  omega

/-- The offset of a time's magnitude. -/
def offsetOf (negative : Bool) (t : Time) : UtcOffset where
  micros := if negative then -(t.micros : ℤ) else t.micros
  valid := by
    have h := t.micros_lt
    split <;> omega

/-- The zone of a time. -/
def parseZone (mark : Char) (zone : List Char) : Option UtcOffset :=
  if mark = 'Z' then if zone = [] then some ⟨0, by decide⟩ else none
  else if zone.length = 0 ∨ zone.length = 1 ∨ zone.length = 3 then none
  else (parseTime zone).bind fun c => (timeOf c).map fun t => offsetOf (mark == '-') t

/-- Midnight at a day's end is that of the next day. -/
def nextDay (c : ℕ × ℕ × ℕ) : ℕ × ℕ × ℕ :=
  let (year, month, day) := c
  if month ≤ 12 ∧ day < daysInMonth year month then (year, month, day + 1)
  else if month ≤ 12 ∧ day = daysInMonth year month then if month = 12 then (year + 1, 1, 1) else (year, month + 1, 1)
  else c

def dateOf (c : ℕ × ℕ × ℕ) : Option Date := (date c.1 c.2.1 c.2.2).toOption

/-- The time after the separator, with the date before it. -/
def parseRest (c : ℕ × ℕ × ℕ) (cs : List Char) : Option DateTime :=
  if cs.length < 2 then none
  else
    (parseTime (splitZone cs).1).bind fun t =>
      let midnight := t = (24, 0, 0, 0)
      (dateOf (if midnight then nextDay c else c)).bind fun d =>
        (timeOf (if midnight then (0, 0, 0, 0) else t)).bind fun t =>
          match (splitZone cs).2 with
          | none => some ⟨d, t, none⟩
          | some (mark, zone) => (parseZone mark zone).map fun o => ⟨d, t, some o⟩

/-- `datetime.fromisoformat`: `none` is its `ValueError`. -/
def fromisoformat (cs : List Char) : Option DateTime :=
  if cs.length < 7 then none
  else
    (separatorLocation cs).bind fun location =>
      (parseDate (cs.take location)).bind fun c =>
        if cs.drop (location + 1) = [] then (dateOf c).map fun d => ⟨d, ⟨0, 0, 0, 0, by decide⟩, none⟩
        else parseRest c (cs.drop (location + 1))

example : (fromisoformat "2020-W53-5 24:00Z".toList).map DateTime.isoformat = some "2021-01-02T00:00:00+00:00".toList := by
  decide +kernel

/-! ## The round trip -/

theorem digits_zeroPadded {width n : ℕ} (hpos : 0 < width) (h : n < 10 ^ width) (rest : List Char) :
    digits width (zeroPadded width n ++ rest) = some (n, rest) := by
  have hlen := length_zeroPadded hpos h
  have htake : (zeroPadded width n ++ rest).take width = zeroPadded width n := List.take_left' hlen
  have hdrop : (zeroPadded width n ++ rest).drop width = rest := List.drop_left' hlen
  unfold digits
  rw [htake, hdrop, if_pos ⟨hlen, List.all_eq_true.2 fun c hc => isDigit_of_mem_zeroPadded hc⟩, ofDigitChars_zeroPadded]

theorem zeroPadded_eq_cons {width n : ℕ} (hpos : 0 < width) (h : n < 10 ^ width) :
    ∃ c cs, zeroPadded width n = c :: cs ∧ c.isDigit = true := by
  have hlen := length_zeroPadded hpos h
  cases heq : zeroPadded width n with
  | nil =>
    rw [heq] at hlen
    exact absurd hlen (Nat.ne_of_lt hpos)
  | cons c cs => exact ⟨c, cs, rfl, isDigit_of_mem_zeroPadded (heq ▸ List.mem_cons_self ..)⟩

/-- A digit is none of the characters the parsers look for. -/
theorem isDigit_ne {c : Char} (h : c.isDigit = true) : c ≠ '-' ∧ c ≠ '+' ∧ c ≠ ':' ∧ c ≠ 'W' ∧ c ≠ 'Z' := by
  refine ⟨?_, ?_, ?_, ?_, ?_⟩ <;> (rintro rfl; cases h)

theorem parseFraction_iso {microsecond : ℕ} (h : microsecond < 1000000) : parseFraction (isoFraction microsecond) = some microsecond := by
  unfold isoFraction
  split
  · rename_i hzero
    rw [hzero]
    rfl
  · have hlen : (zeroPadded 6 microsecond).length = 6 := length_zeroPadded (by decide) h
    have hne : zeroPadded 6 microsecond ≠ [] := List.ne_nil_of_length_pos (by rw [hlen]; decide)
    have htake : (zeroPadded 6 microsecond).take 6 = zeroPadded 6 microsecond := List.take_of_length_le (Nat.le_of_eq hlen)
    unfold parseFraction
    simp only [true_or, hne, ne_eq, not_false_eq_true, true_and, htake, hlen, ofDigitChars_zeroPadded]
    rw [if_pos (List.all_eq_true.2 fun c hc => isDigit_of_mem_zeroPadded hc)]
    simp

theorem parseTime_short {hour minute : ℕ} (hh : hour < 24) (hm : minute < 60) :
    parseTime (zeroPadded 2 hour ++ ':' :: zeroPadded 2 minute) = some (hour, minute, 0, 0) := by
  have hminute : digits 2 (zeroPadded 2 minute) = some (minute, []) := by
    have := digits_zeroPadded (show 0 < 2 by decide) (show minute < 10 ^ 2 by omega) []
    rwa [List.append_nil] at this
  unfold parseTime
  rw [digits_zeroPadded (by decide) (by omega), Option.bind_some]
  dsimp only
  rw [if_neg (List.cons_ne_nil _ _)]
  show (digits 2 (zeroPadded 2 minute)).bind _ = _
  rw [hminute, Option.bind_some]
  rfl

theorem parseTime_iso {hour minute second microsecond : ℕ} (hh : hour < 24) (hm : minute < 60) (hs : second < 60)
    (hf : microsecond < 1000000) :
    parseTime (zeroPadded 2 hour ++ ':' :: zeroPadded 2 minute ++ ':' :: zeroPadded 2 second ++ isoFraction microsecond) =
      some (hour, minute, second, microsecond) := by
  unfold parseTime
  rw [List.append_assoc, List.append_assoc, List.cons_append, digits_zeroPadded (by decide) (by omega), Option.bind_some]
  dsimp only
  rw [if_neg (List.cons_ne_nil _ _)]
  show (digits 2 (zeroPadded 2 minute ++ _)).bind _ = _
  rw [digits_zeroPadded (by decide) (by omega), Option.bind_some]
  dsimp only
  rw [List.cons_append, if_neg (List.cons_ne_nil _ _)]
  show (digits 2 (zeroPadded 2 second ++ _)).bind _ = _
  rw [digits_zeroPadded (by decide) (by omega), Option.bind_some]
  dsimp only
  rw [parseFraction_iso hf]
  rfl

/-- What a time is written with. -/
def IsTimeChar (c : Char) : Prop := c ≠ '-' ∧ c ≠ '+' ∧ c ≠ 'Z'

theorem isTimeChar_zeroPadded {width n : ℕ} {c : Char} (h : c ∈ zeroPadded width n) : IsTimeChar c := by
  obtain ⟨hminus, hplus, _, _, hz⟩ := isDigit_ne (isDigit_of_mem_zeroPadded h)
  exact ⟨hminus, hplus, hz⟩

theorem isTimeChar_fraction {microsecond : ℕ} {c : Char} (h : c ∈ isoFraction microsecond) : IsTimeChar c := by
  unfold isoFraction at h
  split at h
  · cases h
  · rcases List.mem_cons.1 h with rfl | h
    · unfold IsTimeChar
      decide
    · exact isTimeChar_zeroPadded h

theorem isTimeChar_colon : IsTimeChar ':' := by
  unfold IsTimeChar
  decide

theorem isTimeChar_iso {t : Time} {c : Char} (h : c ∈ t.iso) : IsTimeChar c := by
  unfold Time.iso at h
  simp only [List.mem_append, List.mem_cons] at h
  rcases h with ((h | rfl | h) | rfl | h) | h
  · exact isTimeChar_zeroPadded h
  · exact isTimeChar_colon
  · exact isTimeChar_zeroPadded h
  · exact isTimeChar_colon
  · exact isTimeChar_zeroPadded h
  · exact isTimeChar_fraction h

/-- The magnitude of an offset, as it is written. -/
def magnitude (t : Time) : List Char := zeroPadded 2 t.hour ++ ':' :: zeroPadded 2 t.minute ++
  if t.second = 0 ∧ t.microsecond = 0 then [] else ':' :: zeroPadded 2 t.second ++ isoFraction t.microsecond

theorem isTimeChar_magnitude {t : Time} {c : Char} (h : c ∈ magnitude t) : IsTimeChar c := by
  unfold magnitude at h
  split at h
  · simp only [List.append_nil, List.mem_append, List.mem_cons] at h
    rcases h with h | rfl | h
    · exact isTimeChar_zeroPadded h
    · exact isTimeChar_colon
    · exact isTimeChar_zeroPadded h
  · refine isTimeChar_iso (t := t) ?_
    unfold Time.iso
    simpa only [List.append_assoc, List.cons_append] using h

theorem parseTime_magnitude (t : Time) : parseTime (magnitude t) = some (t.hour, t.minute, t.second, t.microsecond) := by
  obtain ⟨hh, hm, hs, hf⟩ := t.valid
  unfold magnitude
  split
  · rename_i hzero
    rw [List.append_nil, hzero.1, hzero.2]
    exact parseTime_short hh hm
  · rw [← parseTime_iso hh hm hs hf]
    simp only [List.append_assoc, List.cons_append]

theorem length_magnitude (t : Time) : 5 ≤ (magnitude t).length := by
  obtain ⟨hh, hm, _, _⟩ := t.valid
  have hhour : (zeroPadded 2 t.hour).length = 2 := length_zeroPadded (by decide) (by omega)
  have hminute : (zeroPadded 2 t.minute).length = 2 := length_zeroPadded (by decide) (by omega)
  unfold magnitude
  rw [List.length_append, List.length_append, List.length_cons, hhour, hminute]
  omega

theorem timeOf_eq (t : Time) : timeOf (t.hour, t.minute, t.second, t.microsecond) = some t := dif_pos t.valid

theorem offsetOf_ofMicros (o : UtcOffset) : offsetOf (decide (o.micros < 0)) (Time.ofMicros o.micros.natAbs o.valid) = o := by
  ext1
  unfold offsetOf
  simp only [Time.micros_ofMicros, decide_eq_true_eq]
  split <;> omega

/-- The sign, and the magnitude after it. -/
theorem UtcOffset.iso_eq (o : UtcOffset) : o.iso = (if o.micros < 0 then '-' else '+') :: magnitude (Time.ofMicros o.micros.natAbs o.valid) := by
  unfold UtcOffset.iso magnitude
  simp only [List.cons_append]

theorem parseZone_iso (o : UtcOffset) :
    parseZone (if o.micros < 0 then '-' else '+') (magnitude (Time.ofMicros o.micros.natAbs o.valid)) = some o := by
  have hlen := length_magnitude (Time.ofMicros o.micros.natAbs o.valid)
  have hsign : ((if o.micros < 0 then '-' else '+') == '-') = decide (o.micros < 0) := by split <;> simp_all
  have hz : (if o.micros < 0 then '-' else '+') ≠ 'Z' := by split <;> decide
  unfold parseZone
  rw [if_neg hz, if_neg (by omega), parseTime_magnitude, Option.bind_some, timeOf_eq, Option.map_some, hsign, offsetOf_ofMicros]

theorem splitZone_none {t : List Char} (h : ∀ c ∈ t, IsTimeChar c) : splitZone t = (t, none) := by
  have hminus : '-' ∉ t := fun hin => (h _ hin).1 rfl
  have hplus : '+' ∉ t := fun hin => (h _ hin).2.1 rfl
  have hdrop : t.dropWhile (· ≠ 'Z') = [] := List.dropWhile_eq_nil_iff.2 fun c hc => by simpa using (h c hc).2.2
  unfold splitZone
  rw [if_neg hminus, if_neg hplus]
  simp only [hdrop]

/-- The zone begins at the sign. -/
theorem splitZone_some {t zone : List Char} {sign : Char} (hsign : sign = '-' ∨ sign = '+') (ht : ∀ c ∈ t, IsTimeChar c)
    (hzone : ∀ c ∈ zone, IsTimeChar c) : splitZone (t ++ sign :: zone) = (t, some (sign, zone)) := by
  have hmark : (if '-' ∈ t ++ sign :: zone then '-' else if '+' ∈ t ++ sign :: zone then '+' else 'Z') = sign := by
    have hminus : '-' ∉ t := fun hin => (ht _ hin).1 rfl
    have hminus' : '-' ∉ zone := fun hin => (hzone _ hin).1 rfl
    rcases hsign with rfl | rfl <;> simp [hminus, hminus']
  have hne : ∀ c ∈ t, (decide (c ≠ sign)) = true := by
    intro c hc
    rcases hsign with rfl | rfl
    · simpa using (ht c hc).1
    · simpa using (ht c hc).2.1
  have hdrop : (t ++ sign :: zone).dropWhile (· ≠ sign) = sign :: zone := by
    rw [List.dropWhile_append_of_pos hne, List.dropWhile_cons_of_neg (by simp)]
  have htake : (t ++ sign :: zone).takeWhile (· ≠ sign) = t := by
    rw [List.takeWhile_append_of_pos hne, List.takeWhile_cons_of_neg (by simp), List.append_nil]
  unfold splitZone
  simp only [hmark, hdrop, htake]

theorem dateOf_eq (d : Date) : dateOf (d.year, d.month, d.day) = some d := by
  have hok : date d.year d.month d.day = .ok d := date_eq_ok.2 ⟨rfl, rfl, rfl⟩
  unfold dateOf
  rw [hok]
  rfl

theorem daysInMonth_le (year month : ℕ) : daysInMonth year month ≤ 31 := by
  unfold daysInMonth
  split_ifs <;> decide

theorem Date.length_iso (d : Date) : d.iso.length = 10 := by
  have hy := d.year_valid
  have hm := d.month_valid
  have hd := d.day_valid
  have hle := daysInMonth_le d.year d.month
  have hyear : (zeroPadded 4 d.year).length = 4 := length_zeroPadded (by decide) (by omega)
  have hmonth : (zeroPadded 2 d.month).length = 2 := length_zeroPadded (by decide) (by omega)
  have hday : (zeroPadded 2 d.day).length = 2 := length_zeroPadded (by decide) (by omega)
  unfold Date.iso
  simp only [List.length_append, List.length_cons, hyear, hmonth, hday]

theorem parseDate_iso (d : Date) : parseDate d.iso = some (d.year, d.month, d.day) := by
  have hy := d.year_valid
  have hm := d.month_valid
  have hd := d.day_valid
  have hle := daysInMonth_le d.year d.month
  have hday : digits 2 (zeroPadded 2 d.day) = some (d.day, []) := by
    have := digits_zeroPadded (show 0 < 2 by decide) (show d.day < 10 ^ 2 by omega) []
    rwa [List.append_nil] at this
  have hmonth : (zeroPadded 2 d.month ++ '-' :: zeroPadded 2 d.day).head? ≠ some 'W' := by
    obtain ⟨c, cs, heq, hc⟩ := zeroPadded_eq_cons (show 0 < 2 by decide) (show d.month < 10 ^ 2 by omega)
    rw [heq]
    exact fun h => (isDigit_ne hc).2.2.2.1 (Option.some.inj h)
  unfold parseDate Date.iso
  rw [List.append_assoc, digits_zeroPadded (by decide) (by omega), Option.bind_some]
  dsimp only
  show (if (zeroPadded 2 d.month ++ '-' :: zeroPadded 2 d.day).head? = some 'W' then _ else
    calendarDate d.year true (zeroPadded 2 d.month ++ '-' :: zeroPadded 2 d.day)) = _
  rw [if_neg hmonth]
  unfold calendarDate
  rw [digits_zeroPadded (by decide) (by omega), Option.bind_some]
  show (digits 2 (zeroPadded 2 d.day)).map _ = _
  rw [hday]
  rfl

theorem separatorLocation_iso (d : Date) (rest : List Char) : separatorLocation (d.iso ++ rest) = some 10 := by
  have hy := d.year_valid
  have hm := d.month_valid
  have hyear : (zeroPadded 4 d.year).length = 4 := length_zeroPadded (by decide) (by omega)
  have hlen : (d.iso ++ rest).length ≠ 7 := by
    rw [List.length_append, Date.length_iso]
    omega
  have hdash : (d.iso ++ rest)[4]? = some '-' := by
    unfold Date.iso
    rw [List.append_assoc, List.append_assoc, List.getElem?_append_right (by rw [hyear]), hyear]
    rfl
  have hdigit : (d.iso ++ rest)[5]? ≠ some 'W' := by
    obtain ⟨c, cs, heq, hc⟩ := zeroPadded_eq_cons (show 0 < 2 by decide) (show d.month < 10 ^ 2 by omega)
    unfold Date.iso
    rw [List.append_assoc, List.append_assoc, List.getElem?_append_right (by rw [hyear]; decide), hyear, heq]
    exact fun h => (isDigit_ne hc).2.2.2.1 (Option.some.inj h)
  unfold separatorLocation
  rw [if_neg hlen, if_pos hdash, if_neg hdigit]

theorem splitZone_isoformat (d : DateTime) : splitZone (d.time.iso ++ (d.offset.map UtcOffset.iso).getD []) =
    (d.time.iso, d.offset.map fun o => (if o.micros < 0 then '-' else '+', magnitude (Time.ofMicros o.micros.natAbs o.valid))) := by
  cases d.offset with
  | none =>
    show splitZone (d.time.iso ++ []) = _
    rw [List.append_nil]
    exact splitZone_none fun c hc => isTimeChar_iso hc
  | some o =>
    show splitZone (d.time.iso ++ o.iso) = _
    rw [UtcOffset.iso_eq]
    refine splitZone_some ?_ (fun c hc => isTimeChar_iso hc) fun c hc => isTimeChar_magnitude hc
    split
    · exact .inl rfl
    · exact .inr rfl

/-- A written `datetime` is read back as it was. -/
theorem fromisoformat_isoformat (d : DateTime) : fromisoformat d.isoformat = some d := by
  obtain ⟨hh, hm, hs, hf⟩ := d.time.valid
  have hsplit := splitZone_isoformat d
  have htime : parseTime d.time.iso = some (d.time.hour, d.time.minute, d.time.second, d.time.microsecond) := parseTime_iso hh hm hs hf
  have hshape : d.isoformat = d.date.iso ++ 'T' :: (d.time.iso ++ (d.offset.map UtcOffset.iso).getD []) := by
    unfold DateTime.isoformat
    rw [List.append_assoc, List.cons_append]
  have hlen : 2 ≤ d.time.iso.length := by
    have hhour : (zeroPadded 2 d.time.hour).length = 2 := length_zeroPadded (by decide) (by omega)
    unfold Time.iso
    simp only [List.length_append, hhour]
    omega
  generalize htail : d.time.iso ++ (d.offset.map UtcOffset.iso).getD [] = tail at *
  have htaillen : ¬ tail.length < 2 := by
    rw [← htail, List.length_append]
    omega
  have hdate : (d.date.iso ++ 'T' :: tail).take 10 = d.date.iso := List.take_left' d.date.length_iso
  have hrest : (d.date.iso ++ 'T' :: tail).drop 11 = tail := by
    rw [← List.singleton_append, ← List.append_assoc]
    refine List.drop_left' ?_
    rw [List.length_append, Date.length_iso]
    rfl
  have hne : tail ≠ [] := by
    rintro rfl
    exact htaillen (by decide)
  have hnot : ¬ (d.time.hour, d.time.minute, d.time.second, d.time.microsecond) = (24, 0, 0, 0) := by
    intro h
    rw [Prod.ext_iff] at h
    have : d.time.hour = 24 := h.1
    omega
  unfold fromisoformat
  rw [hshape, if_neg (by rw [List.length_append, Date.length_iso]; omega), separatorLocation_iso, Option.bind_some, hdate,
    parseDate_iso, Option.bind_some, hrest, if_neg hne]
  unfold parseRest
  rw [if_neg htaillen, hsplit]
  dsimp only
  rw [htime, Option.bind_some, if_neg hnot, if_neg hnot, dateOf_eq, Option.bind_some, timeOf_eq, Option.bind_some]
  cases ho : d.offset with
  | none => exact congrArg some (DateTime.ext rfl rfl ho.symm)
  | some o =>
    show (parseZone _ _).map _ = _
    rw [parseZone_iso]
    exact congrArg some (DateTime.ext rfl rfl ho.symm)

end Plantkeeper
