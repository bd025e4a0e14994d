/-
Instants and durations. A timezone-aware `datetime` is its number of microseconds from the epoch
and a `timedelta` its number of microseconds, so comparison and arithmetic are exact.
-/
import Mathlib.Data.Int.Notation

namespace Plantkeeper

/-- An aware `datetime`. -/
abbrev Instant := ℤ

/-- A `datetime` that may carry no offset. -/
inductive Datetime
  | aware (t : Instant)
  | naive (t : ℤ)
  deriving DecidableEq, Repr

/-- What `AwareDatetime` makes of it: `none` is its refusal. -/
def Datetime.instant : Datetime → Option Instant
  | .aware t => some t
  | .naive _ => none

/-- A `timedelta`. -/
abbrev Duration := ℤ

/-- `timedelta(seconds=n)`. -/
def seconds (n : ℤ) : Duration := n * 1000000

/-- `timedelta(hours=n)`. -/
def hours (n : ℤ) : Duration := seconds (3600 * n)

/-- `timedelta(days=n)`. -/
def days (n : ℤ) : Duration := hours (24 * n)

end Plantkeeper
