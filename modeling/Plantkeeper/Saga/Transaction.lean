/-
One transaction per step, as far as the engine keeps it. `Effects` says what a process has to tell
about its steps: which effects they write, how the context shows them, and that nothing else writes
them. A step commits its effect before the engine commits the completed entry and the context, so the
two agree everywhere but in between. They agree from then on as well, unless the process stops there,
the checkpoint fails there, or a step raises with events tracked that a later commit publishes.
-/
import Plantkeeper.Saga.Engine

namespace Plantkeeper.Saga

open Plantkeeper.Run

variable {κ ω ε ι : Type}

/-! ## Effects of steps -/

/-- The effects `ι` of a process. An effect is written by the `act` of its step; `marks` tells it from
the context, `clean` is what the context has to be before, and `quiet` says that nothing an `act` left
behind is waiting for a commit. -/
structure Effects (p : Process κ ω ε) (ι : Type) where
  step : ι → ℕ
  wrote : ω → ι → Prop
  marks : κ → ι → Prop
  clean : κ → ι → Prop
  quiet : ω → Prop
  commit : ∀ {t}, quiet t → quiet (p.commit t) ∧ ∀ i, wrote (p.commit t) i ↔ wrote t i
  rollback : ∀ t i, wrote (p.rollback t) i ↔ wrote t i
  renew : ∀ t, quiet (p.renew t) ∧ ∀ i, wrote (p.renew t) i ↔ wrote t i
  environment : ∀ e {t}, quiet t → quiet (p.environment e t) ∧ ∀ i, wrote (p.environment e t) i ↔ wrote t i
  act : ∀ {k : ℕ} {h : Handler κ ω}, p.steps[k]? = some h → ∀ {c t fault}, quiet t → (∀ i, step i = k → ¬ wrote t i ∧ clean c i) →
    (h.act c t fault).2.ok = true → quiet (h.act c t fault).2.tables ∧
      (∀ i, step i = k → (wrote (h.act c t fault).2.tables i ↔ marks (h.act c t fault).1 i)) ∧
      ∀ i, step i ≠ k → (wrote (h.act c t fault).2.tables i ↔ wrote t i)
  raised : ∀ {k : ℕ} {h : Handler κ ω}, p.steps[k]? = some h → ∀ {c t fault}, (h.act c t fault).2.ok = false →
    ∀ i, wrote (h.act c t fault).2.tables i ↔ wrote t i
  context : ∀ {k : ℕ} {h : Handler κ ω}, p.steps[k]? = some h → ∀ c t fault, (h.act c t fault).2.ok = true → ∀ i,
    (step i < k → (marks (h.act c t fault).1 i ↔ marks c i)) ∧ (k < step i → clean c i → clean (h.act c t fault).1 i)
  compensate : ∀ {k : ℕ} {h : Handler κ ω}, p.steps[k]? = some h → ∀ {c t fault}, quiet t → quiet (h.compensate c t fault).2.tables ∧
    ∀ i, wrote (h.compensate c t fault).2.tables i ↔ wrote t i

namespace Effects

variable {p : Process κ ω ε} (E : Effects p ι) {w w' : Engine κ ω}

/-- Each effect is committed exactly if the completed entry of its step is and the context with it. -/
def OneTransaction (w : Engine κ ω) : Prop :=
  ∀ i, E.wrote w.tables i ↔ w.stored.completed (E.step i) ∧ E.marks w.stored.context i

/-- A step's effect is committed, its checkpoint is not. -/
def InWindow (w : Engine κ ω) : Prop := ∃ i, w.pc = .acted (E.step i) ∧ E.wrote w.tables i

/-- The process does not stop in the window, no checkpoint fails there, and no step raises with events
or rows left behind. -/
def Unbroken (w : Engine κ ω) : EngineAction ε → Prop
  | .crash | .checkpoint false => ¬ InWindow E w
  | .act fault => ∀ k h, w.pc = .ready k → p.steps[k]? = some h → (h.act w.context w.tables fault).2.ok = false →
      E.quiet (runAct p w k h fault).tables
  | _ => True

/-! ## The invariant -/

/-- What the engine's own copy of the context has to do with the stored one. -/
def AtPc (w : Engine κ ω) : Prop :=
  match w.pc with
  | .ready k => (∀ j < k, w.stored.completed j) ∧
      ∀ i, (w.stored.completed (E.step i) → (E.marks w.context i ↔ E.marks w.stored.context i)) ∧
        (¬ w.stored.completed (E.step i) → E.clean w.context i)
  | .acted k => (∀ j < k, w.stored.completed j) ∧ ¬ w.stored.completed k ∧
      ∀ i, (E.step i < k → (E.marks w.context i ↔ E.marks w.stored.context i)) ∧
        (E.step i = k → (E.wrote w.tables i ↔ E.marks w.context i)) ∧ (k < E.step i → E.clean w.context i)
  | _ => True

/-- The completed steps come first; the effects of completed steps are those the context shows; the
others were not written, unless the engine is in the window. -/
structure Inv (w : Engine κ ω) : Prop where
  quiet : E.quiet w.tables
  started : w.Started
  first : ∀ {j k}, w.stored.completed k → j < k → w.stored.completed j
  done : ∀ i, w.stored.completed (E.step i) → (E.wrote w.tables i ↔ E.marks w.stored.context i)
  clean : ∀ i, ¬ w.stored.completed (E.step i) → E.clean w.stored.context i
  undone : ∀ i, ¬ w.stored.completed (E.step i) → w.pc ≠ .acted (E.step i) → ¬ E.wrote w.tables i
  atPc : AtPc E w

variable {E}

theorem inv_start {c : κ} {t : ω} (hq : E.quiet t) (ht : ∀ i, ¬ E.wrote t i) (hc : ∀ i, E.clean c i) :
    Inv E (Engine.start c t) where
  quiet := hq
  started := by intro e he; cases he
  first := by intro j k h; cases h
  done := by intro i h; cases h
  clean := fun i _ => hc i
  undone := fun i _ _ => ht i
  atPc := trivial

/-- A step that completes nothing and writes no effect, and is not in the window. -/
theorem Inv.frame (hi : Inv E w) (hk : Kept w w') (hs : w'.Started)
    (ht : E.quiet w'.tables ∧ ∀ i, E.wrote w'.tables i ↔ E.wrote w.tables i) (hw : ¬ InWindow E w)
    (hpc : AtPc E w') : Inv E w' where
  quiet := ht.1
  started := hs
  first := by
    intro j k h hlt
    exact (hk.completed j).2 (hi.first ((hk.completed k).1 h) hlt)
  done := by
    intro i h
    rw [ht.2, hk.context]
    exact hi.done i ((hk.completed _).1 h)
  clean := by
    intro i h
    rw [hk.context]
    exact hi.clean i fun hc => h ((hk.completed _).2 hc)
  undone := by
    intro i h _ hwrote
    have hold : E.wrote w.tables i := (ht.2 i).1 hwrote
    apply hi.undone i (fun hc => h ((hk.completed _).2 hc)) _ hold
    exact fun hacted => hw ⟨i, hacted, hold⟩
  atPc := hpc

/-- Only between a step's `act` and its checkpoint is there a window. -/
theorem not_inWindow {pc : Pc} (hpc : w.pc = pc) (h : ∀ k, pc ≠ .acted k) : ¬ InWindow E w := by
  rintro ⟨i, hacted, -⟩
  rw [hpc] at hacted
  exact h _ hacted

/-! ## One step -/

/-- The commit of a run writes no effect. -/
theorem commitRun_wrote (hq : E.quiet w.tables) (entries : List LogEntry) :
    E.quiet (w.commitRun p entries).tables ∧
      ∀ i, E.wrote (w.commitRun p entries).tables i ↔ E.wrote w.tables i := by
  unfold Engine.commitRun
  by_cases hb : w.bound
  · simp only [hb, if_true]
    exact E.commit hq
  · simp only [hb]
    exact ⟨hq, fun i => Iff.rfl⟩

theorem inv_act {k : ℕ} {h : Handler κ ω} {fault : Option ℕ} (hi : Inv E w) (hpc : w.pc = .ready k)
    (hk : p.steps[k]? = some h) (hc : ¬ w.stored.completed k) (hok : Unbroken E w (.act fault)) :
    Inv E (runAct p w k h fault) := by
  have hat := hi.atPc
  simp only [AtPc, hpc] at hat
  obtain ⟨hbefore, hctx⟩ := hat
  have fresh : ∀ i, E.step i = k → ¬ E.wrote w.tables i ∧ E.clean w.context i := by
    rintro i rfl
    exact ⟨hi.undone i hc (by rw [hpc]; exact nofun), (hctx i).2 hc⟩
  cases hres : (h.act w.context w.tables fault).2.ok with
  | true =>
    obtain ⟨ht, hcon, hpc', -, hst, hkept⟩ := runAct_ok (p := p) (k := k) hi.started hres
    obtain ⟨hq, hself, hother⟩ := E.act hk hi.quiet fresh hres
    refine ⟨ht ▸ hq, hst, ?_, ?_, ?_, ?_, ?_⟩
    · intro j l h hlt
      exact (hkept.completed j).2 (hi.first ((hkept.completed l).1 h) hlt)
    · intro i h
      have hdone : w.stored.completed (E.step i) := (hkept.completed _).1 h
      rw [ht, hkept.context, hother i (fun he => hc (he ▸ hdone))]
      exact hi.done i hdone
    · intro i h
      rw [hkept.context]
      exact hi.clean i fun hd => h ((hkept.completed _).2 hd)
    · intro i h hne
      have hik : E.step i ≠ k := by
        rintro rfl
        exact hne hpc'
      rw [ht, hother i hik]
      exact hi.undone i (fun hd => h ((hkept.completed _).2 hd)) (by rw [hpc]; exact nofun)
    · simp only [AtPc, hpc']
      refine ⟨fun j hj => (hkept.completed j).2 (hbefore j hj), fun hd => hc ((hkept.completed k).1 hd), fun i => ?_⟩
      rw [ht, hcon, hkept.context]
      obtain ⟨hlt, hgt⟩ := E.context hk w.context w.tables fault hres i
      refine ⟨fun h => (hlt h).trans ((hctx i).1 (hbefore _ h)), hself i, fun h => hgt h ((hctx i).2 fun hd => ?_)⟩
      exact hc (hi.first hd h)
  | false =>
    have hquiet := hok k h hpc hk hres
    rw [runAct_raised hres] at hquiet ⊢
    refine hi.frame (.of_eq rfl) (started_nil rfl) ⟨hquiet, fun i => ?_⟩ (not_inWindow hpc (by rintro k ⟨⟩)) trivial
    have hsame := E.raised hk hres i
    show E.wrote (if w.bound then p.rollback _ else _) i ↔ _
    split
    · exact (E.rollback _ i).trans hsame
    · exact hsame

theorem inv_checkpoint {k : ℕ} (hi : Inv E w) (hpc : w.pc = .acted k) :
    Inv E { w.commitRun p [⟨k, .act, .completed⟩] with
      stored := { (w.commitRun p [⟨k, .act, .completed⟩]).stored with context := w.context }, pc := .ready (k + 1) } := by
  have hat := hi.atPc
  simp only [AtPc, hpc] at hat
  obtain ⟨hbefore, hnot, hctx⟩ := hat
  obtain ⟨hq, hwrote⟩ := commitRun_wrote (p := p) hi.quiet [⟨k, .act, .completed⟩]
  -- the completed steps are now those up to `k`
  have completed : ∀ j, (w.commitRun p [⟨k, .act, .completed⟩]).stored.completed j ↔ w.stored.completed j ∨ j = k := by
    intro j
    simp only [Engine.commitRun, Engine.store, Execution.completed, List.mem_append, List.mem_singleton]
    constructor
    · rintro ((h | h) | h)
      · exact .inl h
      · cases hi.started _ h
      · cases h; exact .inr rfl
    · rintro (h | rfl)
      · exact .inl (.inl h)
      · exact .inr rfl
  have below : ∀ {i}, w.stored.completed (E.step i) → E.step i < k := by
    intro i h
    rcases Nat.lt_trichotomy (E.step i) k with hlt | heq | hgt
    · exact hlt
    · exact absurd (heq ▸ h) hnot
    · exact absurd (hi.first h hgt) hnot
  have above : ∀ {i}, ¬ w.stored.completed (E.step i) → E.step i ≠ k → k < E.step i := by
    intro i h hne
    rcases Nat.lt_trichotomy (E.step i) k with hlt | heq | hgt
    · exact absurd (hbefore _ hlt) h
    · exact absurd heq hne
    · exact hgt
  have done : ∀ i, w.stored.completed (E.step i) ∨ E.step i = k → (E.wrote w.tables i ↔ E.marks w.context i) := by
    rintro i (h | h)
    · exact (hi.done i h).trans ((hctx i).1 (below h)).symm
    · exact (hctx i).2.1 h
  have clean : ∀ i, ¬ (w.stored.completed (E.step i) ∨ E.step i = k) → E.clean w.context i := by
    intro i h
    rw [not_or] at h
    exact (hctx i).2.2 (above h.1 h.2)
  refine ⟨hq, started_nil rfl, ?_, ?_, ?_, ?_, ?_⟩
  · intro j l h hlt
    refine (completed j).2 (.inl ?_)
    rcases (completed l).1 h with h | rfl
    · exact hi.first h hlt
    · exact hbefore j hlt
  · intro i h
    exact (hwrote i).trans (done i ((completed _).1 h))
  · intro i h
    exact clean i fun hd => h ((completed _).2 hd)
  · intro i h _ hw
    have hn : ¬ (w.stored.completed (E.step i) ∨ E.step i = k) := fun hd => h ((completed _).2 hd)
    rw [not_or] at hn
    apply hi.undone i hn.1 _ ((hwrote i).1 hw)
    rw [hpc]
    intro heq
    exact hn.2 (Pc.acted.inj heq).symm
  · refine ⟨fun j hj => (completed j).2 ?_, fun i => ⟨fun _ => Iff.rfl, fun h => clean i fun hd => h ((completed _).2 hd)⟩⟩
    rcases Nat.lt_or_eq_of_le (Nat.lt_succ_iff.1 hj) with h | h
    · exact .inl (hbefore j h)
    · exact .inr h

/-- The request's unit of work is gone, and with it what was only staged. -/
theorem close_wrote (w : Engine κ ω) : E.quiet (w.close p).tables ∧
    ∀ i, E.wrote (w.close p).tables i ↔ E.wrote w.tables i :=
  E.renew w.tables

/-- The engine is done with the saga: the status is committed and the run closed. -/
theorem Inv.finish (hi : Inv E w) (status : SagaStatus) (hw : ¬ InWindow E w) :
    Inv E (((w.commitRun p []).setStatus status).close p) := by
  have hkept : Kept w (w.commitRun p []) := commitRun_kept hi.started (by simp)
  obtain ⟨-, hrun⟩ := commitRun_wrote (p := p) hi.quiet []
  obtain ⟨hq, hclose⟩ := close_wrote (E := E) ((w.commitRun p []).setStatus status)
  exact hi.frame (hkept.trans ⟨rfl, fun j => Iff.rfl⟩) (started_nil rfl) ⟨hq, fun i => (hclose i).trans (hrun i)⟩ hw trivial

theorem inv_step {a : EngineAction ε} (hi : Inv E w) (hok : Unbroken E w a) (h : engineStep p w a = some w') :
    Inv E w' := by
  have same : E.quiet w.tables ∧ ∀ i, E.wrote w.tables i ↔ E.wrote w.tables i := ⟨hi.quiet, fun i => Iff.rfl⟩
  cases engineStep_move h with
  | forward hpc hs =>
    exact hi.frame (.of_eq rfl) hi.started same (not_inWindow hpc (by rintro k ⟨⟩))
      ⟨fun j hj => absurd hj (Nat.not_lt_zero j), fun i => ⟨fun _ => Iff.rfl, hi.clean i⟩⟩
  | backward hpc hs => exact hi.frame (.of_eq rfl) hi.started same (not_inWindow hpc (by rintro k ⟨⟩)) trivial
  | @skip k hpc hc =>
    have hat := hi.atPc
    simp only [AtPc, hpc] at hat
    exact hi.frame (.of_eq rfl) hi.started same (not_inWindow hpc (by rintro k ⟨⟩)) ⟨below_succ hat.1 hc, hat.2⟩
  | act hpc hk hc => exact inv_act hi hpc hk hc hok
  | checkpoint hpc => exact inv_checkpoint hi hpc
  | checkpointRaised hpc => exact hi.frame (.of_eq rfl) (started_nil rfl) same hok trivial
  | complete hpc hk => exact hi.finish .completed (not_inWindow hpc (by rintro k ⟨⟩))
  | recordFailure hpc =>
    exact hi.frame ((commitRun_kept (p := p) hi.started (by simp)).trans ⟨rfl, fun j => Iff.rfl⟩) (started_nil rfl)
      (commitRun_wrote hi.quiet []) (not_inWindow hpc (by rintro k ⟨⟩)) trivial
  | @compensate k todo hd fault hpc hk =>
    obtain ⟨ht, -, hpc', -, hst, hkept⟩ := runCompensate_kept (p := p) k todo hd fault hi.started
    have hcomp : E.quiet (hd.compensate w.context w.tables fault).2.tables ∧
        ∀ i, E.wrote (hd.compensate w.context w.tables fault).2.tables i ↔ E.wrote w.tables i := E.compensate hk hi.quiet
    refine hi.frame hkept hst ?_ (not_inWindow hpc (by rintro k ⟨⟩)) ?_
    · rcases ht with ht | ht <;> rw [ht]
      · exact hcomp
      · exact ⟨(E.commit hcomp.1).1, fun i => ((E.commit hcomp.1).2 i).trans (hcomp.2 i)⟩
    · rcases hpc' with hpc' | hpc' <;> simp only [AtPc, hpc']
  | @checkpointCompensation k todo hpc =>
    have hkept : Kept w (w.commitRun p [⟨k, .compensate, .completed⟩]) := commitRun_kept hi.started (by simp)
    exact hi.frame (hkept.trans (.of_eq rfl)) (started_nil rfl) (commitRun_wrote hi.quiet [⟨k, .compensate, .completed⟩])
      (not_inWindow hpc (by rintro k ⟨⟩)) trivial
  | fail hpc => exact hi.finish .failed (not_inWindow hpc (by rintro k ⟨⟩))
  | crash => exact hi.frame (.of_eq rfl) (started_nil rfl) (close_wrote w) hok trivial
  | retry hpc hs =>
    refine hi.frame ⟨rfl, fun j => Iff.rfl⟩ hi.started same (not_inWindow hpc (by rintro k ⟨⟩)) ?_
    simp only [AtPc, Engine.setStatus, hpc]
  | environment e =>
    -- the others may move in the window too
    obtain ⟨hq, he⟩ := E.environment e hi.quiet
    refine ⟨hq, hi.started, hi.first, fun i h => (he i).trans (hi.done i h), hi.clean,
      fun i h hpc hw => hi.undone i h hpc ((he i).1 hw), ?_⟩
    have hat := hi.atPc
    cases hpc : w.pc with
    | acted k =>
      simp only [AtPc, hpc] at hat ⊢
      exact ⟨hat.1, hat.2.1, fun i => ⟨(hat.2.2 i).1, fun h => (he i).trans ((hat.2.2 i).2.1 h), (hat.2.2 i).2.2⟩⟩
    | ready k => simpa only [AtPc, hpc] using hat
    | idle | raised | compensating | compensated => simp only [AtPc]

/-! ## Runs -/

/-- In a state the invariant holds of, the two agree exactly outside the window. -/
theorem Inv.oneTransaction_iff (hi : Inv E w) : OneTransaction E w ↔ ¬ InWindow E w := by
  constructor
  · rintro h ⟨i, hpc, hw⟩
    have hat := hi.atPc
    simp only [AtPc, hpc] at hat
    exact hat.2.1 ((h i).1 hw).1
  · intro hn i
    by_cases hc : w.stored.completed (E.step i)
    · rw [hi.done i hc]
      exact ⟨fun h => ⟨hc, h⟩, fun h => h.2⟩
    · refine ⟨fun hw => absurd hw (hi.undone i hc fun hpc => hn ⟨i, hpc, hw⟩), fun h => absurd h.1 hc⟩

theorem inv_run {acts : List (EngineAction ε)} (hi : Inv E w) (hm : Meets (engineStep p) (Unbroken E) w acts)
    (h : run (engineStep p) w acts = some w') : Inv E w' :=
  inv_of_meets (fun _ _ _ hi hok h => inv_step hi hok h) hi hm h

end Effects

end Plantkeeper.Saga
