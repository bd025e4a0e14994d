/-
Tables as lists of rows. `update` is a conditional update of every matching row; what it does to a
column it leaves alone, and what an insert does to a unique column, is said once here. `get` and
`put` are the lookup and the merge by primary key, and `overlay` is a table as an open transaction
sees it.
-/
import Mathlib.Data.List.Nodup

namespace Plantkeeper.Table

variable {ρ κ : Type*}

/-- `UPDATE … SET f WHERE p`. -/
def update (p : ρ → Bool) (f : ρ → ρ) (rows : List ρ) : List ρ :=
  rows.map fun r => if p r then f r else r

variable {p : ρ → Bool} {f : ρ → ρ} {rows : List ρ}

theorem mem_update {r : ρ} (h : r ∈ update p f rows) :
    (∃ r₀ ∈ rows, p r₀ = true ∧ r = f r₀) ∨ (r ∈ rows ∧ p r = false) := by
  obtain ⟨r₀, h0, rfl⟩ := List.mem_map.1 h
  by_cases hp : p r₀ = true
  · rw [if_pos hp]; exact .inl ⟨r₀, h0, hp, rfl⟩
  · rw [if_neg hp]; exact .inr ⟨h0, by simpa using hp⟩

/-- A column the update does not set keeps its values, row by row. -/
theorem map_update {g : ρ → κ} (hg : ∀ r ∈ rows, p r = true → g (f r) = g r) :
    (update p f rows).map g = rows.map g := by
  unfold update
  rw [List.map_map]
  apply List.map_congr_left
  intro r hr
  simp only [Function.comp_apply]
  split
  · rename_i hp
    exact hg r hr hp
  · rfl

/-- Every row is still there after an update, as itself or as set. -/
theorem mem_update_of_mem {r : ρ} (h : r ∈ rows) :
    (p r = true ∧ f r ∈ update p f rows) ∨ (p r = false ∧ r ∈ update p f rows) := by
  have hm : (if p r then f r else r) ∈ update p f rows := List.mem_map.2 ⟨r, h, rfl⟩
  by_cases hp : p r = true
  · rw [if_pos hp] at hm; exact .inl ⟨hp, hm⟩
  · rw [if_neg hp] at hm; exact .inr ⟨by simpa using hp, hm⟩

/-- An insert under a fresh key keeps a unique column unique. -/
theorem nodup_insert {g : ρ → κ} {r : ρ} (h : (rows.map g).Nodup) (hr : g r ∉ rows.map g) :
    ((rows ++ [r]).map g).Nodup := by
  rw [List.map_append, List.nodup_append']
  refine ⟨h, List.nodup_singleton _, fun a ha hb => ?_⟩
  rw [List.map_singleton, List.mem_singleton] at hb
  subst hb; exact hr ha

/-- In a table with a unique column, the rows with the value of one row are that row. -/
theorem filter_eq_singleton [DecidableEq κ] {key : ρ → κ} (hk : (rows.map key).Nodup) {r : ρ}
    (hr : r ∈ rows) : (rows.filter fun x => key x = key r) = [r] := by
  induction rows with
  | nil => cases hr
  | cons y ys ih =>
    rw [List.map_cons, List.nodup_cons] at hk
    rcases List.mem_cons.1 hr with rfl | hmem
    · have hrest : (ys.filter fun x => key x = key r) = [] := by
        rw [List.filter_eq_nil_iff]
        intro z hz hkey
        exact hk.1 (List.mem_map.2 ⟨z, hz, by simpa using hkey⟩)
      simp [hrest]
    · have hne : key y ≠ key r := by
        intro hkey
        exact hk.1 (List.mem_map.2 ⟨r, hmem, hkey.symm⟩)
      simp [hne, ih hk.2 hmem]

/-- Rows that share a value of a unique column are one row at most. -/
theorem length_filter_le_one {key : ρ → κ} (hk : (rows.map key).Nodup) {p : ρ → Bool} {k : κ}
    (hp : ∀ r ∈ rows, p r = true → key r = k) : (rows.filter p).length ≤ 1 := by
  have hsame : (rows.filter p).map key = List.replicate (rows.filter p).length k := by
    rw [List.eq_replicate_iff]
    refine ⟨List.length_map .., fun k' hk' => ?_⟩
    obtain ⟨r, hr, rfl⟩ := List.mem_map.1 hk'
    exact hp r (List.mem_filter.1 hr).1 (List.mem_filter.1 hr).2
  have hnodup : ((rows.filter p).map key).Nodup := hk.sublist (List.filter_sublist.map key)
  rw [hsame, List.nodup_replicate] at hnodup
  exact hnodup

/-! ## By primary key -/

section

variable [DecidableEq κ] (key : ρ → κ)

/-- The row with the key. -/
def get (rows : List ρ) (k : κ) : Option ρ := rows.find? fun r => key r = k

/-- The row replaces the one with its key, or is inserted. -/
def put (r : ρ) : List ρ → List ρ
  | [] => [r]
  | x :: xs => if key x = key r then r :: xs else x :: put r xs

/-- A table under a transaction's own rows, in the order it wrote them. -/
def overlay (staged rows : List ρ) : List ρ := staged.foldl (fun rows r => put key r rows) rows

variable {key}

theorem mem_of_get {k : κ} {r : ρ} (h : get key rows k = some r) : r ∈ rows ∧ key r = k :=
  ⟨List.mem_of_find?_eq_some h, by simpa using List.find?_some h⟩

theorem get_of_mem (hk : (rows.map key).Nodup) {r : ρ} (hr : r ∈ rows) : get key rows (key r) = some r := by
  cases hg : get key rows (key r) with
  | none =>
    have := List.find?_eq_none.1 hg r hr
    simp at this
  | some x =>
    obtain ⟨hx, hkey⟩ := mem_of_get hg
    rw [List.inj_on_of_nodup_map hk hx hr hkey]

theorem get_put (r : ρ) (k : κ) : ∀ rows : List ρ,
    get key (put key r rows) k = if key r = k then some r else get key rows k
  | [] => by
    simp only [put, get, List.find?_cons, List.find?_nil]
    split <;> simp_all
  | x :: xs => by
    have ih := get_put r k xs
    unfold put
    by_cases hx : key x = key r
    · rw [if_pos hx]
      by_cases hk : key r = k
      · simp [get, hk]
      · simp [get, hk, hx]
    · rw [if_neg hx]
      by_cases hk : key x = k
      · have hne : key r ≠ k := fun h => hx (hk.trans h.symm)
        simp [get, hk, hne]
      · simp only [get, List.find?_cons, hk, decide_false] at ih ⊢
        exact ih

/-- The rows but the one with the key. -/
theorem get_filter_ne (d k : κ) (rows : List ρ) :
    get key (rows.filter fun r => key r ≠ d) k = if d = k then none else get key rows k := by
  induction rows with
  | nil => simp [get]
  | cons x xs ih =>
    by_cases hx : key x = d
    · rw [List.filter_cons_of_neg (by simpa using hx), ih]
      by_cases hk : d = k
      · simp [hk]
      · simp [get, hx, hk]
    · rw [List.filter_cons_of_pos (by simpa using hx)]
      by_cases hk : key x = k
      · have hd : d ≠ k := fun h => hx (hk.trans h.symm)
        simp [get, hk, hd]
      · simp only [get, List.find?_cons, hk, decide_false] at ih ⊢
        exact ih

/-- Merging a row that is stored as it is changes nothing. -/
theorem put_self {r : ρ} : ∀ {rows : List ρ}, get key rows (key r) = some r → put key r rows = rows
  | [], h => by cases h
  | x :: xs, h => by
    unfold put
    by_cases hx : key x = key r
    · rw [if_pos hx]
      have : x = r := by simpa [get, hx] using h
      rw [this]
    · rw [if_neg hx, put_self (by simpa [get, hx] using h)]

theorem mem_put {r x : ρ} : ∀ {rows : List ρ}, x ∈ put key r rows → x = r ∨ x ∈ rows
  | [], h => .inl (List.mem_singleton.1 h)
  | y :: ys, h => by
    unfold put at h
    split at h
    · rcases List.mem_cons.1 h with rfl | h
      · exact .inl rfl
      · exact .inr (List.mem_cons_of_mem _ h)
    · rcases List.mem_cons.1 h with rfl | h
      · exact .inr (List.mem_cons_self ..)
      · exact (mem_put h).imp id (List.mem_cons_of_mem _)

theorem put_keys (r : ρ) : ∀ rows : List ρ, (put key r rows).map key =
    if key r ∈ rows.map key then rows.map key else rows.map key ++ [key r]
  | [] => rfl
  | x :: xs => by
    have ih := put_keys r xs
    unfold put
    by_cases hx : key x = key r
    · rw [if_pos hx]
      simp [hx]
    · have hne : key r ≠ key x := fun h => hx h.symm
      rw [if_neg hx, List.map_cons, ih]
      by_cases hr : key r ∈ xs.map key
      · rw [if_pos hr, if_pos (by rw [List.map_cons]; exact List.mem_cons_of_mem _ hr), List.map_cons]
      · rw [if_neg hr, if_neg (by rw [List.map_cons, List.mem_cons]; exact not_or.2 ⟨hne, hr⟩), List.map_cons,
          List.cons_append]

/-- A merge keeps the primary key unique. -/
theorem nodup_put {r : ρ} (h : (rows.map key).Nodup) : ((put key r rows).map key).Nodup := by
  rw [put_keys]
  split
  · exact h
  · rename_i hr
    rw [← List.map_singleton, ← List.map_append]
    exact nodup_insert h hr

/-- One more row written. -/
theorem get_overlay_append (staged : List ρ) (r : ρ) (rows : List ρ) (k : κ) :
    get key (overlay key (staged ++ [r]) rows) k = if key r = k then some r else get key (overlay key staged rows) k := by
  unfold overlay
  rw [List.foldl_append]
  exact get_put r k _

/-- A row the transaction has not written is the table's. -/
theorem get_overlay_of_not_mem {k : κ} : ∀ {staged : List ρ} (rows : List ρ), (∀ r ∈ staged, key r ≠ k) →
    get key (overlay key staged rows) k = get key rows k
  | [], _, _ => rfl
  | r :: staged, rows, h => by
    have ih := get_overlay_of_not_mem (put key r rows) fun x hx => h x (List.mem_cons_of_mem _ hx)
    have hr : key r ≠ k := h r (List.mem_cons_self ..)
    exact ih.trans ((get_put r k rows).trans (if_neg hr))

/-- What is seen of a row depends on that row of the table alone. -/
theorem get_overlay_congr {k : κ} : ∀ {staged rows rows' : List ρ}, get key rows k = get key rows' k →
    get key (overlay key staged rows) k = get key (overlay key staged rows') k
  | [], _, _, h => h
  | r :: staged, rows, rows', h => by
    have hput : get key (put key r rows) k = get key (put key r rows') k := by
      rw [get_put, get_put, h]
    show get key (overlay key staged (put key r rows)) k = get key (overlay key staged (put key r rows')) k
    exact get_overlay_congr hput

end

end Plantkeeper.Table
