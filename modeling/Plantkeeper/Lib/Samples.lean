/-
The least, the greatest and the mean of a list of numbers, kept up one number at a time: the mean is
derived again from the mean so far and the count.
-/
import Mathlib.Algebra.BigOperators.Group.List.Basic
import Mathlib.Algebra.Order.Field.Basic
import Mathlib.Order.Bounds.Basic
import Mathlib.Tactic.FieldSimp

namespace Plantkeeper.Samples

variable {K : Type*} [Field K] [LinearOrder K]

/-- The least, the greatest and the mean of the numbers. -/
structure Summary (lo hi mean : K) (xs : List K) : Prop where
  least : IsLeast {x | x ∈ xs} lo
  greatest : IsGreatest {x | x ∈ xs} hi
  mean : mean = xs.sum / xs.length

theorem summary_singleton (x : K) : Summary x x x [x] := by
  refine ⟨?_, ?_, ?_⟩
  · simp
  · simp
  · simp

/-- The order of the numbers does not matter. -/
theorem Summary.perm {lo hi mean : K} {xs ys : List K} (h : Summary lo hi mean xs) (hp : xs.Perm ys) :
    Summary lo hi mean ys := by
  have hset : {y | y ∈ ys} = {x | x ∈ xs} := by
    ext y
    exact hp.mem_iff.symm
  exact ⟨hset ▸ h.least, hset ▸ h.greatest, by rw [h.mean, hp.sum_eq, hp.length_eq]⟩

/-- One more number. -/
theorem Summary.append [IsStrictOrderedRing K] {lo hi mean : K} {xs : List K} (h : Summary lo hi mean xs) (x : K) :
    Summary (min lo x) (max hi x) ((mean * xs.length + x) / (xs.length + 1)) (xs ++ [x]) := by
  have hset : {y | y ∈ xs ++ [x]} = insert x {y | y ∈ xs} := by
    ext y
    simp [or_comm]
  have hpos : 0 < xs.length := List.length_pos_of_mem h.least.1
  have hlen : (xs.length : K) ≠ 0 := by
    exact_mod_cast hpos.ne'
  refine ⟨?_, ?_, ?_⟩
  · rw [hset, min_comm]
    exact h.least.insert x
  · rw [hset, max_comm]
    exact h.greatest.insert x
  · rw [h.mean, div_mul_cancel₀ _ hlen]
    simp

end Plantkeeper.Samples
