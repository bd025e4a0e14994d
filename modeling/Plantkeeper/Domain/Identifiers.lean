/-
Identifiers. A UUID is its 128-bit number, compared the way Postgres compares the column; the
wrappers of `domain/identifiers.py` only keep the kinds apart.
-/
import Mathlib.Data.Nat.Notation
import Plantkeeper.Domain.Time

namespace Plantkeeper

abbrev Uuid := ℕ

abbrev PlantId := Uuid
abbrev HouseholdId := Uuid
abbrev NotificationId := Uuid
abbrev SagaId := Uuid
abbrev SpeciesId := Uuid

/-- How identifiers are derived: `uuid5` in the URL namespace, and the texts of an identifier and of an
instant that it is given. -/
structure Naming where
  uuid5 : String → Uuid
  str : Uuid → String
  isoformat : Instant → String

end Plantkeeper
