/-
Folds that may fail. A fold over a list runs to the end if and only if every element is accepted by the
state the elements before it left; what is said of such a fold is said of the processed prefix.
-/
import Mathlib.Data.List.Forall2
import Mathlib.Data.List.Induction

namespace Plantkeeper.Fold

universe u

variable {α β : Type u} {ε : Type*} {f : β → α → Except ε β}

theorem bind_eq_ok {x : Except ε α} {g : α → Except ε β} {c : β} :
    x >>= g = .ok c ↔ ∃ b, x = .ok b ∧ g b = .ok c := by
  cases x with
  | error e => simp [bind, Except.bind]
  | ok b => simp [bind, Except.bind]

theorem map_eq_ok {x : Except ε α} {g : α → β} {c : β} : x.map g = .ok c ↔ ∃ b, x = .ok b ∧ g b = c := by
  cases x <;> simp [Except.map]

/-- A list is mapped to the end if and only if every element is. -/
theorem mapM_eq_ok {g : α → Except ε β} : ∀ {l : List α} {l' : List β},
    l.mapM g = .ok l' ↔ List.Forall₂ (fun x y => g x = .ok y) l l'
  | [], l' => by
    rw [List.mapM_nil, List.forall₂_nil_left_iff]
    exact ⟨fun h => by cases h; rfl, fun h => by rw [h]; rfl⟩
  | x :: l, l' => by
    rw [List.mapM_cons, bind_eq_ok, List.forall₂_cons_left_iff]
    refine exists_congr fun y => ?_
    rw [bind_eq_ok]
    constructor
    · rintro ⟨hy, l'', hl, heq⟩
      cases heq
      exact ⟨l'', hy, mapM_eq_ok.1 hl, rfl⟩
    · rintro ⟨l'', hy, hl, rfl⟩
      exact ⟨hy, l'', mapM_eq_ok.2 hl, rfl⟩

/-- Where every element has a partner, the list has a list of partners. -/
theorem exists_forall₂ {R : α → β → Prop} : ∀ {l : List α}, (∀ x ∈ l, ∃ y, R x y) → ∃ l', List.Forall₂ R l l'
  | [], _ => ⟨[], .nil⟩
  | x :: l, h => by
    obtain ⟨y, hy⟩ := h x (List.mem_cons_self ..)
    obtain ⟨l', hl⟩ := exists_forall₂ fun z hz => h z (List.mem_cons_of_mem _ hz)
    exact ⟨y :: l', .cons hy hl⟩

theorem forall₂_left {R : α → β → Prop} : ∀ {l : List α} {l' : List β}, List.Forall₂ R l l' → ∀ x ∈ l, ∃ y ∈ l', R x y
  | _, _, .cons hR hrest, x, hx => by
    rcases List.mem_cons.1 hx with rfl | hx
    · exact ⟨_, List.mem_cons_self .., hR⟩
    · obtain ⟨y, hy, hR'⟩ := forall₂_left hrest x hx
      exact ⟨y, List.mem_cons_of_mem _ hy, hR'⟩

theorem forall₂_right {R : α → β → Prop} {l : List α} {l' : List β} (h : List.Forall₂ R l l') : ∀ y ∈ l', ∃ x ∈ l, R x y :=
  forall₂_left h.flip

theorem foldlM_cons_ok {x : α} {l : List α} {b c : β} :
    (x :: l).foldlM f b = .ok c ↔ ∃ d, f b x = .ok d ∧ l.foldlM f d = .ok c := by
  rw [List.foldlM_cons, bind_eq_ok]

theorem foldlM_append_ok {l l' : List α} {b c : β} :
    (l ++ l').foldlM f b = .ok c ↔ ∃ d, l.foldlM f b = .ok d ∧ l'.foldlM f d = .ok c := by
  rw [List.foldlM_append, bind_eq_ok]

theorem foldlM_concat_ok {l : List α} {x : α} {b c : β} :
    (l ++ [x]).foldlM f b = .ok c ↔ ∃ d, l.foldlM f b = .ok d ∧ f d x = .ok c := by
  rw [foldlM_append_ok]
  refine exists_congr fun d => and_congr_right fun _ => ?_
  rw [foldlM_cons_ok]
  constructor
  · rintro ⟨e, he, hc⟩
    cases hc; exact he
  · intro h
    exact ⟨c, h, rfl⟩

/-- A fold that fails on a prefix fails. -/
theorem foldlM_append_error {l : List α} (l' : List α) {b : β} {e : ε} (h : l.foldlM f b = .error e) :
    (l ++ l').foldlM f b = .error e := by
  rw [List.foldlM_append, h]; rfl

/-- What holds of the empty prefix and goes from a prefix to the next one holds of the list. -/
theorem foldlM_inv {P : List α → β → Prop} {b : β} (hnil : P [] b)
    (hstep : ∀ done x c d, P done c → f c x = .ok d → P (done ++ [x]) d) :
    ∀ {l : List α} {c : β}, l.foldlM f b = .ok c → P l c := by
  intro l
  induction l using List.reverseRecOn with
  | nil =>
    intro c h
    cases h; exact hnil
  | append_singleton l x ih =>
    intro c h
    obtain ⟨d, hd, hc⟩ := foldlM_concat_ok.1 h
    exact hstep l x d c (ih hd) hc

/-- The fold succeeds if and only if each element is accepted after those before it. -/
theorem foldlM_ok_iff {l : List α} {b : β} : (∃ c, l.foldlM f b = .ok c) ↔
    ∀ done x rest, l = done ++ x :: rest → ∀ d, done.foldlM f b = .ok d → ∃ c, f d x = .ok c := by
  constructor
  · rintro ⟨c, h⟩ done x rest rfl d hd
    obtain ⟨d', hd', h⟩ := foldlM_append_ok.1 h
    rw [hd] at hd'
    cases hd'
    obtain ⟨c', hc', _⟩ := foldlM_cons_ok.1 h
    exact ⟨c', hc'⟩
  · intro h
    induction l using List.reverseRecOn with
    | nil => exact ⟨b, rfl⟩
    | append_singleton l x ih =>
      obtain ⟨d, hd⟩ := ih fun done y rest hl => h done y (rest ++ [x]) (by rw [hl]; simp)
      obtain ⟨c, hc⟩ := h l x [] rfl d hd
      exact ⟨c, foldlM_concat_ok.2 ⟨d, hd, hc⟩⟩

/-- The elements of a list after those before them, by their index. -/
theorem forall_split {P : List α → α → Prop} {l : List α} : (∀ done x rest, l = done ++ x :: rest → P done x) ↔
    ∀ j (h : j < l.length), P (l.take j) l[j] := by
  constructor
  · intro h j hj
    refine h _ _ (l.drop (j + 1)) ?_
    rw [← List.drop_eq_getElem_cons hj, List.take_append_drop]
  · rintro h done x rest rfl
    have hlt : done.length < (done ++ x :: rest).length := by simp
    have hp := h done.length hlt
    rw [List.take_left, List.getElem_append_right (Nat.le_refl _)] at hp
    simpa using hp

end Plantkeeper.Fold
