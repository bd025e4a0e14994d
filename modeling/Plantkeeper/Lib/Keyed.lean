/-
Tables by primary key. A table is a partial function from its keys to its rows; a statement changes
the rows one by one, so what a sequence of statements leaves under a key is the sequence run on that
row alone. A row whose statements only set columns takes, in each column, what was set last: setting
a column again later makes an earlier setting of it void. From that law a sequence of statements that
is run a second time changes nothing.
-/
import Mathlib.Data.List.Basic
import Mathlib.Data.List.Induction
import Mathlib.Logic.Function.Basic

namespace Plantkeeper.Keyed

variable {κ ρ ε : Type*}

/-! ## Statements -/

section

variable [DecidableEq κ]

/-- `INSERT … ON CONFLICT DO UPDATE`: the row is made from the one under the key, if there is one. -/
def upsert (k : κ) (f : Option ρ → ρ) (t : κ → Option ρ) : κ → Option ρ := Function.update t k (some (f (t k)))

/-- `UPDATE … WHERE key = k`. -/
def modify (k : κ) (f : ρ → ρ) (t : κ → Option ρ) : κ → Option ρ := Function.update t k ((t k).map f)

theorem upsert_apply (k : κ) (f : Option ρ → ρ) (t : κ → Option ρ) (j : κ) :
    upsert k f t j = if j = k then some (f (t j)) else t j := by
  unfold upsert
  by_cases hj : j = k
  · subst hj
    simp
  · simp [hj]

theorem modify_apply (k : κ) (f : ρ → ρ) (t : κ → Option ρ) (j : κ) :
    modify k f t j = if j = k then (t j).map f else t j := by
  unfold modify
  by_cases hj : j = k
  · subst hj
    simp
  · simp [hj]

@[simp] theorem upsert_self (k : κ) (f : Option ρ → ρ) (t : κ → Option ρ) : upsert k f t k = some (f (t k)) :=
  Function.update_self ..

@[simp] theorem modify_self (k : κ) (f : ρ → ρ) (t : κ → Option ρ) : modify k f t k = (t k).map f :=
  Function.update_self ..

end

/-- `UPDATE … WHERE p`. -/
def modifyWhere (p : ρ → Bool) (f : ρ → ρ) (t : κ → Option ρ) : κ → Option ρ :=
  fun k => (t k).map fun r => if p r then f r else r

/-! ## Row by row -/

/-- What is left under a key is the statements' work on that row. -/
theorem foldl_at {step : (κ → Option ρ) → ε → κ → Option ρ} (act : κ → Option ρ → ε → Option ρ)
    (hstep : ∀ t e k, step t e k = act k (t k) e) (k : κ) : ∀ (es : List ε) (t : κ → Option ρ),
    es.foldl step t k = es.foldl (act k) (t k)
  | [], _ => rfl
  | e :: es, t => by
    rw [List.foldl_cons, List.foldl_cons, foldl_at act hstep k es, hstep]

/-- Statements that leave the row alone can be passed over. -/
theorem foldl_filter_of_skip {act : ρ → ε → ρ} {p : ε → Bool} (hskip : ∀ r e, p e = false → act r e = r) (r : ρ)
    (es : List ε) : es.foldl act r = (es.filter p).foldl act r := by
  rw [List.foldl_filter]
  congr 1
  funext r e
  cases hp : p e with
  | true => rfl
  | false => exact hskip r e hp

/-! ## Statements run again -/

/-- Every change sets columns: what is set again later makes an earlier setting void. -/
structure LastWrite (patch : ρ → ε → ρ) : Prop where
  idem : ∀ r e, patch (patch r e) e = patch r e
  absorb : ∀ r e e', patch (patch (patch r e) e') e = patch (patch r e') e

/-- What is set again after any other changes. -/
theorem LastWrite.foldl {patch : ρ → ε → ρ} (h : LastWrite patch) (e : ε) : ∀ (es : List ε) (r : ρ),
    patch (es.foldl patch (patch r e)) e = patch (es.foldl patch r) e
  | [], r => h.idem r e
  | a :: es, r => by
    calc patch (es.foldl patch (patch (patch r e) a)) e
        = patch (es.foldl patch (patch (patch (patch r e) a) e)) e := (h.foldl e es _).symm
      _ = patch (es.foldl patch (patch (patch r a) e)) e := by rw [h.absorb]
      _ = patch (es.foldl patch (patch r a)) e := h.foldl e es _

/-- One row under the statements of several writers. The statements of one of them are `mine`: on a row
they are a `patch`, which the others' changes commute with, and the first of them makes the row. -/
structure Owner (act : Option ρ → ε → Option ρ) (mine : ε → Bool) (patch : ρ → ε → ρ) (creates : ε → Prop) : Prop where
  lastWrite : LastWrite patch
  own : ∀ r {e}, mine e = true → act (some r) e = some (patch r e)
  create : ∀ {e}, mine e = true → creates e → ∃ r, act none e = some (patch r e)
  other : ∀ r {e}, mine e = false → ∃ f : ρ → ρ, act (some r) e = some (f r) ∧ ∀ r' e', patch (f r') e' = f (patch r' e')

namespace Owner

variable {act : Option ρ → ε → Option ρ} {mine : ε → Bool} {patch : ρ → ε → ρ} {creates : ε → Prop}

theorem foldl_own (h : Owner act mine patch creates) : ∀ (es : List ε) (r : ρ), (∀ e ∈ es, mine e = true) →
    es.foldl act (some r) = some (es.foldl patch r)
  | [], _, _ => rfl
  | e :: es, r, hes => by
    rw [List.foldl_cons, h.own r (hes e (List.mem_cons_self ..))]
    exact h.foldl_own es _ fun e' he' => hes e' (List.mem_cons_of_mem _ he')

/-- After any statements on an empty row, the writer's own statements run a second time change nothing. -/
theorem again (h : Owner act mine patch creates) (es : List ε) (hfirst : ∀ e ∈ (es.filter mine).head?, creates e) :
    (es.filter mine).foldl act (es.foldl act none) = es.foldl act none ∧
      (es.filter mine ≠ [] → es.foldl act none ≠ none) := by
  -- along the statements, a row stays as it is when its own ones so far are run on it
  induction es using List.reverseRecOn with
  | nil => exact ⟨rfl, fun hne => absurd rfl hne⟩
  | append_singleton es e ih =>
    have hfront : ∀ e' ∈ (es.filter mine).head?, creates e' := by
      intro e' he'
      apply hfirst e'
      rw [List.filter_append, List.head?_append, he']
      rfl
    obtain ⟨hsame, hsome⟩ := ih hfront
    have hown : ∀ e' ∈ es.filter mine, mine e' = true := fun e' he' => (List.mem_filter.1 he').2
    have hlast : (es ++ [e]).foldl act none = act (es.foldl act none) e := List.foldl_append
    rw [hlast, List.filter_append, List.foldl_append]
    cases hrow : es.foldl act none with
    | none =>
      -- no row yet, so none of its own statements has come
      have hnil : es.filter mine = [] := by
        by_contra hne
        exact hsome hne hrow
      rw [hnil]
      cases he : mine e with
      | true =>
        have hcreates : creates e := hfirst e (by simp [hnil, he])
        obtain ⟨r, hr⟩ := h.create he hcreates
        simp [he, hr, h.own, h.lastWrite.idem]
      | false => simp [he]
    | some r =>
      rw [hrow, h.foldl_own _ _ hown, Option.some.injEq] at hsame
      cases he : mine e with
      | true => simp [he, h.own, h.foldl_own _ _ hown, h.lastWrite.foldl, hsame]
      | false =>
        -- another's change is carried past the own statements
        obtain ⟨f, hf, hcomm⟩ := h.other r he
        have hfold : (es.filter mine).foldl patch (f r) = f r := by
          rw [List.foldl_hom f hcomm, hsame]
        simp [he, hf, h.foldl_own _ _ hown, hfold]

end Owner

end Plantkeeper.Keyed
