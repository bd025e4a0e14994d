/-
Insertion-ordered dictionaries. A key has one value; a new key goes to the end, and setting a known one
keeps its place, so that what is added to a dictionary and taken out again leaves it as it was.
-/
import Mathlib.Data.List.Basic
import Plantkeeper.Lib.Table

namespace Plantkeeper

/-- A dictionary by its entries, in the order of their insertion. -/
@[ext] structure Dict (α β : Type) where
  entries : List (α × β)
  nodup : (entries.map Prod.fst).Nodup

namespace Dict

variable {α β γ : Type}

instance [DecidableEq α] [DecidableEq β] : DecidableEq (Dict α β) := fun d e =>
  decidable_of_iff (d.entries = e.entries) Dict.ext_iff.symm

def keys (d : Dict α β) : List α := d.entries.map Prod.fst

def empty : Dict α β := ⟨[], List.nodup_nil⟩

/-- `{name: f(value) for name, value in d.items()}`. -/
def mapValues (f : β → γ) (d : Dict α β) : Dict α γ where
  entries := d.entries.map fun e => (e.1, f e.2)
  nodup := by
    rw [List.map_map]
    exact d.nodup

/-- `{name: value for name, value in d.items() if p(name)}`. -/
def filterKeys (p : α → Bool) (d : Dict α β) : Dict α β where
  entries := d.entries.filter fun e => p e.1
  nodup := d.nodup.sublist (List.filter_sublist.map Prod.fst)

theorem filterKeys_eq_self {p : α → Bool} {d : Dict α β} (h : ∀ k ∈ d.keys, p k = true) : d.filterKeys p = d := by
  ext1
  refine List.filter_eq_self.2 fun e he => ?_
  exact h e.1 (List.mem_map.2 ⟨e, he, rfl⟩)

section

variable [DecidableEq α]

/-- `d.get(key)`. -/
def get? (d : Dict α β) (k : α) : Option β := (Table.get Prod.fst d.entries k).map Prod.snd

/-- `d[key] = value`. -/
def set (d : Dict α β) (k : α) (v : β) : Dict α β where
  entries := Table.put Prod.fst (k, v) d.entries
  nodup := Table.nodup_put d.nodup

/-- `if value is not None: d[key] = value`. -/
def setSome (d : Dict α β) (k : α) : Option β → Dict α β
  | none => d
  | some v => d.set k v

/-- `dict(items)`: a later value of a key replaces an earlier one. -/
def ofList (items : List (α × β)) : Dict α β := items.foldl (fun d e => d.set e.1 e.2) empty

@[simp] theorem get?_empty (k : α) : (empty : Dict α β).get? k = none := rfl

theorem get?_eq_some {d : Dict α β} {k : α} {v : β} : d.get? k = some v ↔ (k, v) ∈ d.entries := by
  unfold get?
  rw [Option.map_eq_some_iff]
  constructor
  · rintro ⟨e, he, rfl⟩
    obtain ⟨hmem, rfl⟩ := Table.mem_of_get he
    exact hmem
  · intro h
    exact ⟨(k, v), Table.get_of_mem d.nodup h, rfl⟩

theorem get?_eq_none {d : Dict α β} {k : α} : d.get? k = none ↔ k ∉ d.keys := by
  constructor
  · intro h hk
    obtain ⟨e, he, rfl⟩ := List.mem_map.1 hk
    rw [get?_eq_some.2 (show (e.1, e.2) ∈ d.entries from he)] at h
    cases h
  · intro h
    cases hv : d.get? k with
    | none => rfl
    | some v => exact absurd (List.mem_map.2 ⟨_, get?_eq_some.1 hv, rfl⟩) h

theorem get?_set (d : Dict α β) (k k' : α) (v : β) : (d.set k v).get? k' = if k = k' then some v else d.get? k' := by
  unfold get? set
  rw [Table.get_put]
  dsimp only
  split <;> rfl

theorem get?_setSome (d : Dict α β) (k k' : α) (v : Option β) :
    (d.setSome k v).get? k' = if k = k' then v.or (d.get? k') else d.get? k' := by
  cases v with
  | none => simp [setSome]
  | some v => simp [setSome, get?_set]

theorem get?_mapValues (f : β → γ) (d : Dict α β) (k : α) : (d.mapValues f).get? k = (d.get? k).map f := by
  cases h : d.get? k with
  | none =>
    rw [get?_eq_none] at h
    rw [Option.map_none, get?_eq_none]
    simpa [keys, mapValues] using h
  | some v =>
    rw [get?_eq_some] at h
    rw [Option.map_some, get?_eq_some]
    exact List.mem_map.2 ⟨(k, v), h, rfl⟩

/-- A new key goes to the end. -/
theorem entries_set {d : Dict α β} {k : α} (h : k ∉ d.keys) (v : β) : (d.set k v).entries = d.entries ++ [(k, v)] := by
  have hput : ∀ l : List (α × β), k ∉ l.map Prod.fst → Table.put Prod.fst (k, v) l = l ++ [(k, v)] := by
    intro l
    induction l with
    | nil => exact fun _ => rfl
    | cons e l ih =>
      intro hl
      rw [List.map_cons, List.mem_cons, not_or] at hl
      rw [Table.put, if_neg (fun heq => hl.1 heq.symm), ih hl.2, List.cons_append]
  exact hput d.entries h

/-- A key that is filtered out might as well not have been set. -/
theorem filterKeys_set {p : α → Bool} {k : α} (hk : p k = false) (d : Dict α β) (v : β) :
    (d.set k v).filterKeys p = d.filterKeys p := by
  have hput : ∀ l : List (α × β), (Table.put Prod.fst (k, v) l).filter (fun e => p e.1) = l.filter fun e => p e.1 := by
    intro l
    induction l with
    | nil => simp [Table.put, hk]
    | cons e l ih =>
      unfold Table.put
      split
      · rename_i heq
        have hkey : p e.1 = false := by
          rw [show e.1 = k from heq]
          exact hk
        simp [hk, hkey]
      · simp only [List.filter_cons, ih]
  ext1
  exact hput d.entries

/-- Items with different keys are a dictionary already. -/
theorem entries_ofList {items : List (α × β)} (h : (items.map Prod.fst).Nodup) : (ofList items).entries = items := by
  suffices hfold : ∀ (items : List (α × β)) (d : Dict α β), ((d.entries ++ items).map Prod.fst).Nodup →
      (items.foldl (fun d e => d.set e.1 e.2) d).entries = d.entries ++ items from hfold items empty h
  intro items
  induction items with
  | nil => exact fun d _ => (List.append_nil _).symm
  | cons e items ih =>
    intro d hd
    have hnew : e.1 ∉ d.keys := by
      rw [List.map_append, List.map_cons, List.nodup_append'] at hd
      exact fun hmem => hd.2.2 hmem (List.mem_cons_self ..)
    have hset := entries_set hnew e.2
    rw [List.foldl_cons, ih (d.set e.1 e.2) (by rw [hset]; simpa using hd), hset]
    simp

theorem ofList_entries (d : Dict α β) : ofList d.entries = d := Dict.ext (entries_ofList d.nodup)

end

end Dict

end Plantkeeper
