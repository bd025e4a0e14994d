/-
Runs of a partial step function. A system is `step : σ → α → Option σ`: the action says what
happens next (which process moves and what its environment answers) and `none` that it cannot
happen here. A run is a list of actions taken from a state, so "for every interleaving" is
"for every list of actions". `Meets` restricts a run to steps taken under a condition on the state
before them. The rules are the induction principles every safety result below goes through: an
invariant, an invariant of the runs that meet a condition, and a simulation by a total machine.
-/
import Mathlib.Data.List.Basic
import Mathlib.Logic.Function.Basic

namespace Plantkeeper.Run

variable {σ α τ : Type*}

/-! ## Runs -/

/-- The state after the actions, if all of them are enabled in turn. -/
def run (step : σ → α → Option σ) : σ → List α → Option σ
  | s, [] => some s
  | s, a :: as => (step s a).bind fun t => run step t as

/-- Every action of the run is taken in a state where it meets `ok`. -/
def Meets (step : σ → α → Option σ) (ok : σ → α → Prop) : σ → List α → Prop
  | _, [] => True
  | s, a :: as => ok s a ∧ match step s a with
    | some t => Meets step ok t as
    | none => True

variable {step : σ → α → Option σ} {ok : σ → α → Prop}

@[simp] theorem run_nil (s : σ) : run step s [] = some s := rfl

theorem run_cons {s u : σ} {a : α} {as : List α} :
    run step s (a :: as) = some u ↔ ∃ t, step s a = some t ∧ run step t as = some u := by
  simp [run, Option.bind_eq_some_iff]

theorem run_append {u : σ} {bs : List α} : ∀ {as : List α} {s : σ},
    run step s (as ++ bs) = some u ↔ ∃ t, run step s as = some t ∧ run step t bs = some u
  | [], s => by simp
  | a :: as, s => by
    rw [List.cons_append, run_cons]
    constructor
    · rintro ⟨t, ht, h⟩
      obtain ⟨v, hv, h⟩ := run_append.1 h
      exact ⟨v, run_cons.2 ⟨t, ht, hv⟩, h⟩
    · rintro ⟨v, hv, h⟩
      obtain ⟨t, ht, hv⟩ := run_cons.1 hv
      exact ⟨t, ht, run_append.2 ⟨v, hv, h⟩⟩

theorem meets_cons {s t : σ} {a : α} {as : List α} (h : Meets step ok s (a :: as)) (ht : step s a = some t) :
    ok s a ∧ Meets step ok t as := by
  obtain ⟨h1, h2⟩ := h
  rw [ht] at h2
  exact ⟨h1, h2⟩

theorem meets_of_cons {s t : σ} {a : α} {as : List α} (ha : ok s a) (ht : step s a = some t) (h : Meets step ok t as) :
    Meets step ok s (a :: as) := by
  refine ⟨ha, ?_⟩
  rw [ht]; exact h

theorem meets_append {bs : List α} : ∀ {as : List α} {s t : σ}, Meets step ok s (as ++ bs) → run step s as = some t →
    Meets step ok s as ∧ Meets step ok t bs
  | [], s, t, hm, h => by
    cases h; exact ⟨trivial, hm⟩
  | a :: as, s, t, hm, h => by
    obtain ⟨u, hu, h⟩ := run_cons.1 h
    obtain ⟨ha, hm⟩ := meets_cons hm hu
    obtain ⟨h1, h2⟩ := meets_append hm h
    exact ⟨meets_of_cons ha hu h1, h2⟩

instance decidableMeets [∀ s a, Decidable (ok s a)] : ∀ (as : List α) (s : σ), Decidable (Meets step ok s as)
  | [], _ => inferInstanceAs (Decidable True)
  | a :: as, s =>
    have : Decidable (match step s a with
        | some t => Meets step ok t as
        | none => True) :=
      match step s a with
      | some t => decidableMeets as t
      | none => inferInstanceAs (Decidable True)
    inferInstanceAs (Decidable (ok s a ∧ _))

/-! ## Processes -/

/-- The processes of a system by their numbers: once one is replaced, what is found is that one or
another as it was. -/
theorem update_eq_some {ι : Type*} [DecidableEq ι] {f : ι → Option τ} {i j : ι} {o : Option τ} {x : τ} :
    Function.update f i o j = some x ↔ (j = i ∧ o = some x) ∨ (j ≠ i ∧ f j = some x) := by
  by_cases hj : j = i
  · subst hj
    simp
  · simp [hj]

/-- Once a process is gone, what is found is another, as it was. -/
theorem eq_some_of_remove {ι : Type*} [DecidableEq ι] {f : ι → Option τ} {i j : ι} {x : τ}
    (h : Function.update f i none j = some x) : j ≠ i ∧ f j = some x := by
  rcases update_eq_some.1 h with ⟨_, hnone⟩ | hother
  · cases hnone
  · exact hother

section

variable {ι : Type*} [DecidableEq ι] {R : τ → τ → Prop} {f : ι → Option τ} {i j : ι} {a b x : τ}

/-- What is found once a process is replaced by one related to it is related to what was there. -/
theorem exists_of_update (hrefl : ∀ x, R x x) (ha : f i = some a) (hab : R a b) (h : Function.update f i (some b) j = some x) :
    ∃ y, f j = some y ∧ R y x := by
  rcases update_eq_some.1 h with ⟨rfl, hset⟩ | ⟨_, hold⟩
  · cases hset
    exact ⟨a, ha, hab⟩
  · exact ⟨x, hold, hrefl x⟩

theorem exists_update (hrefl : ∀ x, R x x) (ha : f i = some a) (hab : R a b) (h : f j = some x) :
    ∃ y, Function.update f i (some b) j = some y ∧ R x y := by
  by_cases hj : j = i
  · subst hj
    rw [ha] at h
    cases h
    exact ⟨b, Function.update_self .., hab⟩
  · exact ⟨x, (Function.update_of_ne hj ..).trans h, hrefl x⟩

end

/-! ## Invariants and simulation -/

/-- What every step taken under the condition preserves holds at the end of a run that meets it. -/
theorem inv_of_meets {P : σ → Prop} (hstep : ∀ s a t, P s → ok s a → step s a = some t → P t) :
    ∀ {as : List α} {s t : σ}, P s → Meets step ok s as → run step s as = some t → P t
  | [], s, t, hs, _, h => by
    rw [run_nil] at h
    cases h; exact hs
  | a :: as, s, t, hs, hm, h => by
    obtain ⟨u, hu, h⟩ := run_cons.1 h
    obtain ⟨ha, hm⟩ := meets_cons hm hu
    exact inv_of_meets hstep (hstep s a u hs ha hu) hm h

/-- A condition on the actions alone is met from every state. -/
theorem meets_of_forall {q : α → Prop} : ∀ {as : List α}, (∀ a ∈ as, q a) → ∀ s : σ, Meets step (fun _ a => q a) s as
  | [], _, _ => trivial
  | a :: as, h, s => by
    refine ⟨h a (List.mem_cons_self ..), ?_⟩
    split
    · exact meets_of_forall (fun b hb => h b (List.mem_cons_of_mem _ hb)) _
    · trivial

/-- A run that meets a condition meets every weaker one. -/
theorem meets_mono {strong : σ → α → Prop} (h : ∀ s a, strong s a → ok s a) :
    ∀ {as : List α} {s : σ}, Meets step strong s as → Meets step ok s as
  | [], _, _ => trivial
  | a :: as, s, hm => by
    refine ⟨h s a hm.1, ?_⟩
    cases hs : step s a with
    | none => trivial
    | some t => exact meets_mono h (meets_cons hm hs).2

/-- A run that meets two conditions meets both at every step. -/
theorem meets_and {ok' : σ → α → Prop} : ∀ {as : List α} {s : σ}, Meets step ok s as → Meets step ok' s as →
    Meets step (fun s a => ok s a ∧ ok' s a) s as
  | [], _, _, _ => trivial
  | a :: as, s, hm, hm' => by
    refine ⟨⟨hm.1, hm'.1⟩, ?_⟩
    cases hs : step s a with
    | none => trivial
    | some t => exact meets_and (meets_cons hm hs).2 (meets_cons hm' hs).2

/-- An invariant of every step holds at the end of every run. -/
theorem inv {P : σ → Prop} (hstep : ∀ s a t, P s → step s a = some t → P t)
    {as : List α} {s t : σ} (hs : P s) (h : run step s as = some t) : P t :=
  inv_of_meets (fun s a t hs _ => hstep s a t hs) hs (meets_of_forall (fun _ _ => trivial) s) h

/-- A total machine that simulates every step taken under the condition simulates the run. -/
theorem sim_of_meets {R : σ → τ → Prop} {next : τ → α → τ}
    (hstep : ∀ s i a t, R s i → ok s a → step s a = some t → R t (next i a)) :
    ∀ {as : List α} {s t : σ} {i : τ}, R s i → Meets step ok s as → run step s as = some t →
      R t (as.foldl next i)
  | [], s, t, i, hs, _, h => by
    rw [run_nil] at h
    cases h; exact hs
  | a :: as, s, t, i, hs, hm, h => by
    obtain ⟨u, hu, h⟩ := run_cons.1 h
    obtain ⟨ha, hm⟩ := meets_cons hm hu
    rw [List.foldl_cons]
    exact sim_of_meets hstep (hstep s i a u hs ha hu) hm h

end Plantkeeper.Run
