/-
Partial maps overridden by lists of keyed rows. Of several lists the last one that has a key decides, and a
list that is applied over what it says already changes nothing.
-/
import Plantkeeper.Lib.Table

namespace Plantkeeper.Overrides

variable {ρ κ β : Type*} [DecidableEq κ] (key : ρ → κ) (value : ρ → Option β)

/-- The map with the values of the rows in the place of its own. -/
def override (f : κ → Option β) (rows : List ρ) (k : κ) : Option β := (Table.get key rows k).elim (f k) value

/-- The map after several lists, one after the other. -/
def overrides (f : κ → Option β) (lists : List (List ρ)) : κ → Option β := lists.foldl (override key value) f

variable {key value} {f : κ → Option β} {rows : List ρ}

theorem override_own (hk : (rows.map key).Nodup) {r : ρ} (hr : r ∈ rows) : override key value f rows (key r) = value r := by
  unfold override
  rw [Table.get_of_mem hk hr]
  rfl

theorem override_other {k : κ} (hr : ∀ r ∈ rows, key r ≠ k) : override key value f rows k = f k := by
  have hnone : Table.get key rows k = none := by
    rw [Table.get, List.find?_eq_none]
    simpa using hr
  unfold override
  rw [hnone]
  rfl

/-- A map is the overridden one if it has the values of the rows, and its own elsewhere. -/
theorem eq_override {g : κ → Option β} (hk : (rows.map key).Nodup) (hown : ∀ r ∈ rows, g (key r) = value r)
    (hother : ∀ k, (∀ r ∈ rows, key r ≠ k) → g k = f k) : g = override key value f rows := by
  funext k
  by_cases hmem : ∃ r ∈ rows, key r = k
  · obtain ⟨r, hr, rfl⟩ := hmem
    rw [hown r hr, override_own hk hr]
  · have hne : ∀ r ∈ rows, key r ≠ k := fun r hr hkey => hmem ⟨r, hr, hkey⟩
    rw [hother k hne, override_other hne]

theorem overrides_concat (lists : List (List ρ)) (rows : List ρ) :
    overrides key value f (lists ++ [rows]) = override key value (overrides key value f lists) rows := by
  unfold overrides
  rw [List.foldl_append]
  rfl

/-- What the last list says is so. -/
theorem overrides_last {lists : List (List ρ)} (hlast : lists.getLast? = some rows) (hk : (rows.map key).Nodup) {r : ρ}
    (hr : r ∈ rows) : overrides key value f lists (key r) = value r := by
  obtain ⟨before, rfl⟩ := List.getLast?_eq_some_iff.1 hlast
  rw [overrides_concat]
  exact override_own hk hr

end Plantkeeper.Overrides
