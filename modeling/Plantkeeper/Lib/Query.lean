/-
Queries over a table by its primary key. The rows of a table come in any order; a query takes those it
asks for and puts them in the order of a column, and of their keys where the column ties. So its answer
depends on the table alone and not on how the rows came.
-/
import Mathlib.Data.List.Sort
import Mathlib.Order.Defs.LinearOrder

namespace Plantkeeper.Query

variable {κ ρ ι : Type} {t : κ → Option ρ} {rows : List (κ × ρ)}

/-- The rows of a table, each once, in some order. -/
structure Lists (t : κ → Option ρ) (rows : List (κ × ρ)) : Prop where
  keys : (rows.map Prod.fst).Nodup
  mem : ∀ k r, (k, r) ∈ rows ↔ t k = some r

theorem lists_singleton {k : κ} {r : ρ} (h : t k = some r) (hother : ∀ j, j ≠ k → t j = none) : Lists t [(k, r)] where
  keys := List.nodup_singleton _
  mem j r' := by
    rw [List.mem_singleton, Prod.mk.injEq]
    constructor
    · rintro ⟨rfl, rfl⟩
      exact h
    · intro hj
      by_cases hk : j = k
      · subst hk
        exact ⟨rfl, Option.some.inj (hj.symm.trans h)⟩
      · rw [hother j hk] at hj
        cases hj

section

variable [LinearOrder ι] [LinearOrder κ]

/-- `ORDER BY column, key`. -/
def By (column : ρ → ι) (a b : κ × ρ) : Prop := column a.2 < column b.2 ∨ column a.2 = column b.2 ∧ a.1 ≤ b.1

instance decidableBy (column : ρ → ι) : DecidableRel (By (κ := κ) column) := fun a b =>
  inferInstanceAs (Decidable (column a.2 < column b.2 ∨ column a.2 = column b.2 ∧ a.1 ≤ b.1))

instance by_total (column : ρ → ι) : Std.Total (By (κ := κ) column) where
  total a b := by
    rcases lt_trichotomy (column a.2) (column b.2) with h | h | h
    · exact .inl (.inl h)
    · rcases le_total a.1 b.1 with hkey | hkey
      · exact .inl (.inr ⟨h, hkey⟩)
      · exact .inr (.inr ⟨h.symm, hkey⟩)
    · exact .inr (.inl h)

instance by_trans (column : ρ → ι) : IsTrans (κ × ρ) (By column) where
  trans a b c := by
    rintro (hab | ⟨hab, hkey⟩) (hbc | ⟨hbc, hkey'⟩)
    · exact .inl (hab.trans hbc)
    · exact .inl (hbc ▸ hab)
    · exact .inl (hab ▸ hbc)
    · exact .inr ⟨hab.trans hbc, hkey.trans hkey'⟩

/-- Rows before each other have the same key. -/
theorem key_eq_of_by {column : ρ → ι} {a b : κ × ρ} (hab : By column a b) (hba : By column b a) : a.1 = b.1 := by
  rcases hab with hlt | ⟨heq, hkey⟩
  · rcases hba with hlt' | ⟨heq', -⟩
    · exact absurd hlt' (lt_asymm hlt)
    · exact absurd heq' (ne_of_gt hlt)
  · rcases hba with hlt' | ⟨-, hkey'⟩
    · exact absurd heq (ne_of_gt hlt')
    · exact le_antisymm hkey hkey'

/-- `SELECT … WHERE p ORDER BY column, key`. -/
def select (p : κ × ρ → Bool) (column : ρ → ι) (rows : List (κ × ρ)) : List (κ × ρ) := (rows.filter p).insertionSort (By column)

variable {p : κ × ρ → Bool} {column : ρ → ι}

theorem mem_select (h : Lists t rows) {x : κ × ρ} : x ∈ select p column rows ↔ t x.1 = some x.2 ∧ p x = true := by
  unfold select
  rw [List.mem_insertionSort, List.mem_filter, h.mem]

theorem pairwise_select (p : κ × ρ → Bool) (column : ρ → ι) (rows : List (κ × ρ)) : (select p column rows).Pairwise (By column) :=
  List.pairwise_insertionSort _ _

theorem nodup_select (h : Lists t rows) : (select p column rows).Nodup :=
  (List.perm_insertionSort _ _).nodup_iff.2 (h.keys.of_map.filter p)

/-- No two rows of an answer tie. -/
theorem pairwise_lt_select (h : Lists t rows) :
    (select p column rows).Pairwise fun a b => column a.2 < column b.2 ∨ column a.2 = column b.2 ∧ a.1 < b.1 := by
  have hkeys : ((select p column rows).map Prod.fst).Nodup :=
    (((List.perm_insertionSort _ _).map Prod.fst).nodup_iff).2 (h.keys.sublist (List.filter_sublist.map _))
  refine ((pairwise_select p column rows).and (List.pairwise_map.1 hkeys)).imp ?_
  rintro a b ⟨hlt | ⟨heq, hle⟩, hne⟩
  · exact .inl hlt
  · exact .inr ⟨heq, lt_of_le_of_ne hle hne⟩

/-- The answer is the one list of the rows asked for that is in the order. -/
theorem select_eq (h : Lists t rows) {answer : List (κ × ρ)} (hnodup : answer.Nodup)
    (hmem : ∀ x, x ∈ answer ↔ t x.1 = some x.2 ∧ p x = true) (horder : answer.Pairwise (By column)) :
    select p column rows = answer := by
  have hperm : (select p column rows).Perm answer :=
    (List.perm_ext_iff_of_nodup (nodup_select h) hnodup).2 fun x => by rw [mem_select h, hmem]
  refine hperm.eq_of_pairwise ?_ (pairwise_select p column rows) horder
  rintro ⟨k, r⟩ ⟨k', r'⟩ hx hy hxy hyx
  obtain rfl : k = k' := key_eq_of_by hxy hyx
  have hr : t k = some r := ((mem_select h).1 hx).1
  have hr' : t k = some r' := ((hmem _).1 hy).1
  rw [hr, Option.some.injEq] at hr'
  rw [hr']

variable {σ : Type}

/-- What is asked does not depend on how the rows came. -/
theorem select_congr {rows' : List (κ × ρ)} (h : Lists t rows) (h' : Lists t rows') : select p column rows = select p column rows' :=
  select_eq h (nodup_select h') (fun _ => mem_select h') (pairwise_select ..)

/-- Rows may be rewritten before they are asked for, where neither the question nor the column sees it. -/
theorem select_map {f : ρ → σ} {p' : κ × σ → Bool} {column' : σ → ι} (hp : ∀ x, p' (x.1, f x.2) = p x)
    (hcolumn : ∀ r, column' (f r) = column r) :
    select p' column' (rows.map fun x => (x.1, f x.2)) = (select p column rows).map fun x => (x.1, f x.2) := by
  unfold select
  have hfilter : (rows.map fun x => (x.1, f x.2)).filter p' = (rows.filter p).map fun x => (x.1, f x.2) := by
    rw [List.filter_map]
    exact congrArg _ (List.filter_congr fun x _ => hp x)
  rw [hfilter]
  refine (List.map_insertionSort (By column) (By column') _ _ fun a _ b _ => ?_).symm
  simp only [By, hcolumn]

end

/-- The rows a query makes of a table's, each of one row, are those of the table it describes. -/
theorem lists_filterMap {σ : Type} {t' : κ → Option σ} {f : κ × ρ → Option (κ × σ)} (h : Lists t rows)
    (hkey : ∀ x y, f x = some y → y.1 = x.1)
    (ht : ∀ k s, t' k = some s ↔ ∃ r, t k = some r ∧ f (k, r) = some (k, s)) : Lists t' (rows.filterMap f) where
  keys := by
    have hkeys : ((rows.filterMap f).map Prod.fst).Sublist (rows.map Prod.fst) := by
      clear h ht
      induction rows with
      | nil => exact List.Sublist.slnil
      | cons x rows ih =>
        cases hx : f x with
        | none =>
          rw [List.filterMap_cons_none hx]
          exact ih.cons _
        | some y =>
          rw [List.filterMap_cons_some hx, List.map_cons, List.map_cons, hkey x y hx]
          exact ih.cons_cons _
    exact h.keys.sublist hkeys
  mem k s := by
    rw [List.mem_filterMap, ht]
    constructor
    · rintro ⟨⟨k', r⟩, hmem, hf⟩
      obtain rfl : k = k' := hkey _ _ hf
      exact ⟨r, (h.mem k r).1 hmem, hf⟩
    · rintro ⟨r, hr, hf⟩
      exact ⟨(k, r), (h.mem k r).2 hr, hf⟩

end Plantkeeper.Query
