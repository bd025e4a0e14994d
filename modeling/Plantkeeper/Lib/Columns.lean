/-
Rows with columns, and the merge of a changed copy. A session that saves a copy compares it with the
row as it reads it then and updates the columns that differ; the update reaches the row when it is
flushed, over whatever others committed in between. What such a merge does to one column is said once
here.
-/
import Mathlib.Logic.Basic

namespace Plantkeeper

/-- The columns of rows `ρ`: a row is what its columns hold. -/
structure Columns (ρ : Type) where
  Column : Type
  Value : Column → Type
  decEq : ∀ c, DecidableEq (Value c)
  get : ρ → (c : Column) → Value c
  make : ((c : Column) → Value c) → ρ
  get_make : ∀ f c, get (make f) c = f c
  make_get : ∀ r, make (get r) = r

namespace Columns

variable {ρ : Type} (C : Columns ρ)

instance (c : C.Column) : DecidableEq (C.Value c) := C.decEq c

/-- The row `current` after the update that `copy` makes, compared with the row as `seen`. -/
def merge (seen copy current : ρ) : ρ :=
  C.make fun c => if C.get copy c = C.get seen c then C.get current c else C.get copy c

variable {C} {seen copy current : ρ}

theorem get_merge (c : C.Column) : C.get (C.merge seen copy current) c =
    if C.get copy c = C.get seen c then C.get current c else C.get copy c :=
  C.get_make _ c

/-- A column in which the copy and the row seen agree is left alone. -/
theorem get_merge_of_eq {c : C.Column} (h : C.get copy c = C.get seen c) :
    C.get (C.merge seen copy current) c = C.get current c := by
  rw [get_merge, if_pos h]

/-- A column in which they differ is set to the copy's. -/
theorem get_merge_of_ne {c : C.Column} (h : C.get copy c ≠ C.get seen c) :
    C.get (C.merge seen copy current) c = C.get copy c := by
  rw [get_merge, if_neg h]

/-- Every column is the row's or the copy's. -/
theorem get_merge_or (c : C.Column) : C.get (C.merge seen copy current) c = C.get current c ∨
    C.get (C.merge seen copy current) c = C.get copy c := by
  by_cases h : C.get copy c = C.get seen c
  · exact .inl (get_merge_of_eq h)
  · exact .inr (get_merge_of_ne h)

/-- On the row as it was seen, the update leaves the copy. -/
theorem merge_self (row copy : ρ) : C.merge row copy row = copy := by
  have hcolumns : C.get (C.merge row copy row) = C.get copy := by
    funext c
    rw [get_merge]
    split
    · rename_i h
      exact h.symm
    · rfl
  rw [← C.make_get (C.merge row copy row), hcolumns, C.make_get]

end Columns

end Plantkeeper
