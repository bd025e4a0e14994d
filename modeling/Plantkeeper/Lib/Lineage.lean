/-
Append-only logs whose entries may name the entry that caused them. An entry names an earlier one, so
going up from cause to cause ends, and it ends at an entry that names none: its origin. What every link
preserves is the same at both ends of the way up.
-/
import Mathlib.Logic.Relation
import Plantkeeper.Lib.Table

namespace Plantkeeper.Lineage

open Relation (ReflTransGen)

variable {α κ : Type} (key : α → κ) (cause : α → Option κ)

/-- Every entry has a key of its own and names an earlier entry, if it names one. -/
structure Linked (l : List α) : Prop where
  keys : (l.map key).Nodup
  earlier : ∀ (i : ℕ) x, l[i]? = some x → ∀ k, cause x = some k → ∃ (j : ℕ) (y : α), j < i ∧ l[j]? = some y ∧ key y = k

variable {key cause} {l : List α}

theorem linked_nil : Linked key cause [] := ⟨List.nodup_nil, by simp⟩

/-- New entries that name entries of the log are appended. -/
theorem Linked.append (h : Linked key cause l) {new : List α} (hkeys : (new.map key).Nodup)
    (hfresh : ∀ x ∈ new, key x ∉ l.map key) (hnew : ∀ x ∈ new, ∀ k, cause x = some k → k ∈ l.map key) :
    Linked key cause (l ++ new) := by
  refine ⟨?_, ?_⟩
  · rw [List.map_append, List.nodup_append']
    refine ⟨h.keys, hkeys, fun k hk hk' => ?_⟩
    obtain ⟨x, hx, rfl⟩ := List.mem_map.1 hk'
    exact hfresh x hx hk
  · intro i x hx k hk
    by_cases hi : i < l.length
    · rw [List.getElem?_append_left hi] at hx
      obtain ⟨j, y, hj, hy, hkey⟩ := h.earlier i x hx k hk
      exact ⟨j, y, hj, by rwa [List.getElem?_append_left (by omega)], hkey⟩
    · -- a new entry: what it names is in the log already
      rw [List.getElem?_append_right (by omega)] at hx
      obtain ⟨y, hy, hkey⟩ := List.mem_map.1 (hnew x (List.mem_of_getElem? hx) k hk)
      obtain ⟨j, hj, hjy⟩ := List.mem_iff_getElem.1 hy
      refine ⟨j, y, by omega, ?_, hkey⟩
      rw [List.getElem?_append_left hj, List.getElem?_eq_getElem hj, hjy]

/-! ## The way up -/

section

variable [DecidableEq κ]

section

variable (key cause)

/-- The entry that an entry names. -/
def up (l : List α) (x : α) : Option α := (cause x).bind fun k => Table.get key l k

/-- Up the causes, as long as there is one and `n` times at most. -/
def climb (l : List α) : ℕ → α → α
  | 0, x => x
  | n + 1, x =>
    match up key cause l x with
    | none => x
    | some y => climb l n y

/-- Where the way up from an entry ends. -/
def origin (l : List α) (x : α) : α := climb key cause l l.length x

/-- `y` is the cause of `x` in the log. -/
def CausedBy (l : List α) (x y : α) : Prop := up key cause l x = some y

end

variable {x y : α}

theorem causedBy_iff (h : Linked key cause l) : CausedBy key cause l x y ↔ y ∈ l ∧ cause x = some (key y) := by
  unfold CausedBy up
  constructor
  · intro hup
    obtain ⟨k, hk, hget⟩ := Option.bind_eq_some_iff.1 hup
    obtain ⟨hy, hkey⟩ := Table.mem_of_get hget
    exact ⟨hy, by rw [hk, hkey]⟩
  · rintro ⟨hy, hk⟩
    rw [hk, Option.bind_some]
    exact Table.get_of_mem h.keys hy

theorem climb_reaches (l : List α) : ∀ (n : ℕ) (x : α), ReflTransGen (CausedBy key cause l) x (climb key cause l n x)
  | 0, _ => .refl
  | n + 1, x => by
    unfold climb
    split
    · exact .refl
    · rename_i y hup
      exact (climb_reaches l n y).head hup

/-- The way up from place `i` has at most `i` steps. -/
theorem climb_ends (h : Linked key cause l) : ∀ (n i : ℕ) (x : α), i ≤ n → l[i]? = some x →
    climb key cause l n x ∈ l ∧ cause (climb key cause l n x) = none := by
  intro n
  induction n with
  | zero =>
    intro i x hi hx
    obtain rfl : i = 0 := by omega
    refine ⟨List.mem_of_getElem? hx, Option.eq_none_iff_forall_ne_some.2 fun k hk => ?_⟩
    obtain ⟨j, -, hj, -⟩ := h.earlier 0 x hx k hk
    omega
  | succ n ih =>
    intro i x hi hx
    unfold climb
    split
    · rename_i hup
      refine ⟨List.mem_of_getElem? hx, Option.eq_none_iff_forall_ne_some.2 fun k hk => ?_⟩
      obtain ⟨j, y, -, hy, rfl⟩ := h.earlier i x hx k hk
      have hcaused := (causedBy_iff h).2 ⟨List.mem_of_getElem? hy, hk⟩
      rw [CausedBy, hup] at hcaused
      cases hcaused
    · rename_i y hup
      obtain ⟨hy, hk⟩ := (causedBy_iff h).1 hup
      obtain ⟨j, y', hj, hy', hkey⟩ := h.earlier i x hx _ hk
      -- keys are distinct, so the entry that is found stands before `x`
      have hsame : y' = y := List.inj_on_of_nodup_map h.keys (List.mem_of_getElem? hy') hy hkey
      subst hsame
      exact ih j y' (by omega) hy'

/-- The origin is an entry that names none. -/
theorem origin_spec (h : Linked key cause l) (hx : x ∈ l) :
    origin key cause l x ∈ l ∧ cause (origin key cause l x) = none ∧
      ReflTransGen (CausedBy key cause l) x (origin key cause l x) := by
  obtain ⟨i, hi, rfl⟩ := List.mem_iff_getElem.1 hx
  obtain ⟨hmem, hnone⟩ := climb_ends h l.length i l[i] (by omega) (List.getElem?_eq_getElem hi)
  exact ⟨hmem, hnone, climb_reaches l _ _⟩

/-- What every link of the log keeps is kept all the way. -/
theorem rel_of_reaches {R : α → α → Prop} (hrefl : ∀ x, R x x) (htrans : ∀ {x y z}, R x y → R y z → R x z)
    (hlink : ∀ x y, x ∈ l → CausedBy key cause l x y → y ∈ l ∧ R x y) (hx : x ∈ l)
    (h : ReflTransGen (CausedBy key cause l) x y) : y ∈ l ∧ R x y := by
  induction h with
  | refl => exact ⟨hx, hrefl x⟩
  | tail _ hlast ih =>
    obtain ⟨hmem, hrel⟩ := ih
    obtain ⟨hmem', hrel'⟩ := hlink _ _ hmem hlast
    exact ⟨hmem', htrans hrel hrel'⟩

end

end Plantkeeper.Lineage
