/-
One transaction per step, for the two sagas. The documentation promises one commit for a step's
effect, its log entry and its checkpoint; the steps commit their effect themselves and the engine
commits the rest afterwards. A crash finds the two in agreement exactly if it does not come in between,
as long as nothing went wrong there before and no step raised with species already saved.
-/
import Plantkeeper.Saga.Onboard
import Plantkeeper.Saga.SpeciesSync

namespace Plantkeeper.Saga

open Plantkeeper.Run Effects

variable {κ ω ε ι : Type} {p : Process κ ω ε} {E : Effects p ι}

/-- A crash changes nothing that is committed. -/
theorem oneTransaction_close (w : Engine κ ω) : E.OneTransaction (w.close p) ↔ E.OneTransaction w := by
  unfold OneTransaction
  constructor
  · intro h i
    exact ((E.renew w.tables).2 i).symm.trans (h i)
  · intro h i
    exact ((E.renew w.tables).2 i).trans (h i)

/-- What a crash leaves, at the end of a run that meets the condition. -/
theorem crash_iff {c : κ} {t : ω} {acts : List (EngineAction ε)} {w : Engine κ ω} (hq : E.quiet t)
    (ht : ∀ i, ¬ E.wrote t i) (hc : ∀ i, E.clean c i) (hm : Meets (engineStep p) E.Unbroken (Engine.start c t) acts)
    (h : run (engineStep p) (Engine.start c t) acts = some w) : E.OneTransaction (w.close p) ↔ ¬ E.InWindow w := by
  rw [oneTransaction_close]
  exact (inv_run (inv_start hq ht hc) hm h).oneTransaction_iff

/-! ## The two sagas -/

/-- Before the saga none of its effects is there. -/
theorem onboard_unwritten (sagaId : SagaId) (now : Instant) (catalog : SpeciesId → Option WateringInterval)
    (others : List Intents.Intent) (i : OnboardEffect) :
    ¬ i.Wrote sagaId (OnboardTables.before sagaId now catalog others) := by
  have none : ∀ n, ¬ HasIntent (OnboardTables.before sagaId now catalog others).intents (Intents.intentKey sagaId n) := by
    intro n hn
    obtain ⟨r, hr, hkey⟩ := List.mem_map.1 hn
    have hne := (List.mem_filter.1 hr).2
    rw [hkey] at hne
    simp [Intents.intentKey] at hne
  cases i with
  | careScheduleIntent => exact none _
  | notificationIntent => exact none _
  | plantOnboarded => exact fun h => h rfl

theorem speciesSync_unwritten (now : Instant) (upstream : List SpeciesRecord) (species : List Species) :
    (Catalogue.before now upstream species).Quiet ∧
      ∀ i : CatalogueEffect, ¬ i.Wrote (Catalogue.before now upstream species) := by
  constructor
  · rintro (_ | _ | _) ⟨x, hx, -⟩ <;> cases hx
  · rintro (_ | _ | _) ⟨x, hx, -⟩ <;> cases hx

/-- Onboarding up to the commit of the second step, with its checkpoint to come. -/
def beforeCheckpoint : List (EngineAction OnboardEvent) := [.resume true [], .act none, .checkpoint true, .act none]

/-- A catalogue that is empty, and one species upstream. -/
def firstSync : Engine SpeciesSyncContext Catalogue :=
  Engine.start (.fromEvent 0 6) (.before 0 [⟨7, ['M', ' '], ['m'], .weekly, .medium⟩] [])

end Plantkeeper.Saga
