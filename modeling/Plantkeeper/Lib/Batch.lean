/-
Bounded batches of a backlog, first rows first. A worker takes at most `limit` rows and settles what it
takes. Rows that nothing else comes before are at the front, so each batch leaves `limit` fewer of them,
however many other rows there are behind.
-/
import Mathlib.Data.List.Infix
import Mathlib.Data.List.Perm.Subperm
import Mathlib.Data.List.Sort

namespace Plantkeeper.Batch

variable {ρ : Type*} {r : ρ → ρ → Prop} {q : ρ → Bool}

/-- In a sorted list, the rows that nothing else comes before are a prefix. -/
theorem filter_prefix (hq : ∀ a b, r a b → q b = true → q a = true) :
    ∀ {rows : List ρ}, rows.Pairwise r → rows.filter q <+: rows
  | [], _ => List.prefix_rfl
  | a :: rows, h => by
    rw [List.pairwise_cons] at h
    obtain ⟨hfirst, hrest⟩ := h
    by_cases ha : q a = true
    · rw [List.filter_cons_of_pos ha, List.prefix_cons_inj]
      exact filter_prefix hq hrest
    · -- the first row is not of the kind, so none behind it is
      have hnone : (a :: rows).filter q = [] := by
        rw [List.filter_eq_nil_iff]
        intro b hb hqb
        rcases List.mem_cons.1 hb with rfl | hb
        · exact ha hqb
        · exact ha (hq a b (hfirst b hb) hqb)
      rw [hnone]
      exact List.nil_prefix

/-- The first rows in the order. -/
def batch (r : ρ → ρ → Prop) [DecidableRel r] (limit : ℕ) (rows : List ρ) : List ρ := (rows.insertionSort r).take limit

variable [DecidableRel r] [Std.Total r] [IsTrans ρ r]

/-- Of the rows that nothing else comes before, a batch leaves so many fewer. -/
theorem length_left_le {limit : ℕ} {rows left : List ρ} (hq : ∀ a b, r a b → q b = true → q a = true)
    (hnodup : left.Nodup) (hleft : ∀ x ∈ left, x ∈ rows ∧ q x = true ∧ x ∉ batch r limit rows) :
    left.length ≤ (rows.filter q).length - limit := by
  have hfront := filter_prefix hq (List.pairwise_insertionSort r rows)
  have hlength : ((rows.insertionSort r).filter q).length = (rows.filter q).length :=
    ((List.perm_insertionSort r rows).filter q).length_eq
  have hsub : left ⊆ ((rows.insertionSort r).filter q).drop limit := by
    intro x hx
    obtain ⟨hrow, hqx, hbatch⟩ := hleft x hx
    have hmem : x ∈ (rows.insertionSort r).filter q := List.mem_filter.2 ⟨(List.mem_insertionSort r).2 hrow, hqx⟩
    rw [← List.take_append_drop limit ((rows.insertionSort r).filter q), List.mem_append] at hmem
    rcases hmem with htaken | hdropped
    · exact absurd ((hfront.take limit).subset htaken) hbatch
    · exact hdropped
  have hle := (List.subperm_of_subset hnodup hsub).length_le
  rw [List.length_drop, hlength] at hle
  exact hle

end Plantkeeper.Batch
