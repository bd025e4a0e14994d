/-
Progress by a potential. Work is to be done, and a step that counts is paid for out of a potential for as
long as there is some; what is done stays done. So a run has no more steps that count than the potential
it began with, unless its work is done before.
-/
import Plantkeeper.Lib.Run

namespace Plantkeeper.Potential

open Plantkeeper.Run

variable {σ α : Type*} {step : σ → α → Option σ} {ok : α → Prop} {counts : α → Bool} {P work : σ → Prop} {potential : σ → ℕ}

/-- Every step that counts is paid for while there is work. -/
structure Pays (step : σ → α → Option σ) (ok : α → Prop) (counts : α → Bool) (P work : σ → Prop) (potential : σ → ℕ) : Prop where
  keeps : ∀ {s a t}, P s → ok a → step s a = some t → P t
  stays : ∀ {s a t}, P s → ok a → step s a = some t → work t → work s
  pays : ∀ {s a t}, P s → ok a → step s a = some t → work s → potential t + (if counts a then 1 else 0) ≤ potential s

/-- What a run has paid. -/
theorem paid (h : Pays step ok counts P work potential) : ∀ {as : List α} {s t : σ}, P s → (∀ a ∈ as, ok a) →
    run step s as = some t → P t ∧ (work t → work s ∧ potential t + as.countP counts ≤ potential s)
  | [], s, t, hs, _, hrun => by
    cases hrun
    exact ⟨hs, fun hwork => ⟨hwork, by simp⟩⟩
  | a :: as, s, t, hs, hok, hrun => by
    obtain ⟨u, hu, hrun⟩ := run_cons.1 hrun
    have ha : ok a := hok a (List.mem_cons_self ..)
    obtain ⟨ht, hpaid⟩ := paid h (h.keeps hs ha hu) (fun b hb => hok b (List.mem_cons_of_mem _ hb)) hrun
    refine ⟨ht, fun hwork => ?_⟩
    obtain ⟨hmid, hrest⟩ := hpaid hwork
    have hfirst := h.stays hs ha hu hmid
    have hstep := h.pays hs ha hu hfirst
    refine ⟨hfirst, ?_⟩
    rw [List.countP_cons]
    omega

/-- A run that could not be paid for has done its work. -/
theorem done (h : Pays step ok counts P work potential) {as : List α} {s t : σ} (hs : P s) (hok : ∀ a ∈ as, ok a)
    (hrun : run step s as = some t) (hlong : potential s < as.countP counts) : ¬ work t := by
  intro hwork
  have hpaid := ((paid h hs hok hrun).2 hwork).2
  omega

end Plantkeeper.Potential
