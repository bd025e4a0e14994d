/-
A recorded create command takes effect exactly once. The effect and the mark of it commit apart, so
a command may be executed again after a crash or by a dispatcher that took over its lease; the
response stored with the effect makes every later execution a replay. As long as no compensation
runs, nothing deletes a created row, and each response stands for one row that is still there.
-/
import Plantkeeper.Intents.Invariant

namespace Plantkeeper.Intents

open Plantkeeper.Run Plantkeeper.Table

/-- No compensation has run: every recorded command creates, and every response has its row. -/
structure Kept (w : World) : Prop where
  creates : ∀ r ∈ w.intents, r.command.isCreate = true
  rows : ∀ k x, w.idempotency k = some x → ∃ y, w.rows x.requestHash.target = some y ∧ y.origin = k ∧
    y.row = x.response

theorem creates_update {rows : List Intent} {p : Intent → Bool} {f : Intent → Intent}
    (hf : ∀ r : Intent, r.Same (f r)) (h : ∀ r ∈ rows, r.command.isCreate = true) :
    ∀ r ∈ update p f rows, r.command.isCreate = true := by
  intro r hr
  rcases mem_update hr with ⟨r₀, h0, -, rfl⟩ | ⟨h0, -⟩
  · rw [← (hf r₀).command]; exact h r₀ h0
  · exact h r h0

theorem kept_insert {w : World} (h : Kept w) {k : IntentKey} {command : Command} {row : Created} {event : Event}
    (hr : w.rows command.target = none) : Kept (w.insert k command row event) := by
  refine ⟨h.creates, fun k' x hx => ?_⟩
  simp only [World.insert, World.setRow] at hx ⊢
  split at hx
  · rename_i hk
    cases hx
    exact ⟨_, if_pos rfl, hk.symm, rfl⟩
  · obtain ⟨y, hy, h1, h2⟩ := h.rows k' x hx
    refine ⟨y, ?_, h1, h2⟩
    rw [if_neg (by intro ht; rw [ht, hr] at hy; cases hy)]
    exact hy

/-- Without a withdrawal there is no delete command to execute. -/
theorem kept_move {env : Env} {w w' : World} {a : Action} (hi : Inv env w) (h : Kept w)
    (ha : a.withdraws = none) (hm : Move env w a w') : Kept w' := by
  cases hm with
  | advance d => exact ⟨h.creates, h.rows⟩
  | record _ hc hr =>
    obtain ⟨-, -, rfl⟩ := record_some hr
    refine ⟨fun r hr => ?_, h.rows⟩
    rcases List.mem_append.1 hr with hr | hr
    · exact h.creates r hr
    · rw [List.mem_singleton] at hr
      subst hr; exact hc
  | cancel hw _ => rw [ha] at hw; cases hw
  | undo hw _ _ _ _ => rw [ha] at hw; cases hw
  | claim skipped _ => exact ⟨creates_update (fun r => ⟨rfl, rfl, rfl, rfl, rfl⟩) h.creates, h.rows⟩
  | phase _ _ => exact ⟨h.creates, h.rows⟩
  | @delete i c cs hd hc =>
    obtain ⟨r, hr, -, -, hcmd, -⟩ := (hi.dispatchers i).held c (hd ▸ List.mem_cons_self ..)
    rw [← hcmd, h.creates r hr] at hc; cases hc
  | @insert i c cs row event _ _ _ hr =>
    have hk : Kept (w.insert c.idempotencyKey c.command row event) := kept_insert h hr
    exact ⟨hk.creates, hk.rows⟩
  | executed _ _ => exact ⟨creates_update (fun r => ⟨rfl, rfl, rfl, rfl, rfl⟩) h.creates, h.rows⟩
  | failed _ _ hm =>
    refine ⟨fun r hr => ?_, h.rows⟩
    obtain ⟨r₀, h0, hs, -⟩ := mem_markFailed hi.tables.ids hm hr
    rw [← hs.command]; exact h.creates r₀ h0
  | drop i => exact ⟨h.creates, h.rows⟩

theorem kept_empty : Kept World.empty := ⟨fun _ h => (nomatch h), fun _ _ h => (nomatch h)⟩

theorem kept_run {env : Env} {w : World} {acts : List Action} (hno : ∀ a ∈ acts, a.withdraws = none)
    (h : run (step env) World.empty acts = some w) : Inv env w ∧ Kept w :=
  inv_of_meets (P := fun w => Inv env w ∧ Kept w)
    (fun _ _ _ hi ha ht => ⟨inv_move hi.1 (step_moves ht), kept_move hi.1 hi.2 ha (step_moves ht)⟩)
    ⟨inv_empty env, kept_empty⟩ (meets_of_forall hno _) h

/-- A row's origin fixes the row: it is the one the stored response names. -/
theorem origin_target {env : Env} {w : World} (h : Inv env w) {t : Target} {x : Stored} (hx : w.rows t = some x)
    {y : IdempotencyRecord} (hy : w.idempotency x.origin = some y) : t = y.requestHash.target ∧ x.row = y.response := by
  obtain ⟨y', hy', h1, h2⟩ := h.tables.stored t x hx
  rw [hy'] at hy
  cases hy; exact ⟨h2.symm, h1.symm⟩

/-- In every state the dispatchers reach without a compensation, a recorded create command has
appended at most one event and stored at most one row, and once it is marked executed exactly one of
each: the row its content names, and the event that reports this row. -/
theorem create_takes_effect_once (env : Env) {acts : List Action} {w : World}
    (hno : ∀ a ∈ acts, a.withdraws = none) (h : run (step env) World.empty acts = some w)
    {r : Intent} (hr : r ∈ w.intents) (hc : r.command.isCreate = true) :
    (w.eventsOf r.idempotencyKey).length ≤ 1 ∧
    (∀ t t' x x', w.rows t = some x → w.rows t' = some x' → x.origin = r.idempotencyKey →
      x'.origin = r.idempotencyKey → t = t') ∧
    (r.status = .executed → ∃ row event,
      w.eventsOf r.idempotencyKey = [(r.idempotencyKey, event)] ∧ event.subject = row ∧
      row.target = r.command.target ∧
      ∀ t x, (w.rows t = some x ∧ x.origin = r.idempotencyKey) ↔
        (t = r.command.target ∧ x = ⟨r.idempotencyKey, row⟩)) := by
  obtain ⟨hi, hk⟩ := kept_run hno h
  refine ⟨?_, fun t t' x x' hx hx' ho ho' => ?_, fun hs => ?_⟩
  · cases hx : w.idempotency r.idempotencyKey with
    | none => rw [hi.tables.silent _ hx]; exact Nat.zero_le _
    | some x =>
      obtain ⟨e, he, -⟩ := (hi.tables.responses _ x hx).event
      rw [he]; exact Nat.le_refl _
  · obtain ⟨y, hy, -, -⟩ := hi.tables.stored t x hx
    exact (origin_target hi hx hy).1.trans (origin_target hi hx' (ho'.trans ho.symm ▸ hy)).1.symm
  · obtain ⟨y, hy⟩ := Option.isSome_iff_exists.1 (hi.tables.executed r hr hs hc)
    obtain ⟨⟨r', hr', hk', hcmd⟩, -, htar, e, he, hsub⟩ := hi.tables.responses _ y hy
    -- keys are unique, so the response is of this command
    have hrr : r' = r := List.inj_on_of_nodup_map hi.tables.keys hr' hr hk'
    subst hrr
    refine ⟨y.response, e, he, hsub, hcmd ▸ htar, fun t x => ⟨fun ⟨hx, ho⟩ => ?_, fun ⟨ht, hx⟩ => ?_⟩⟩
    · obtain ⟨h1, h2⟩ := origin_target hi hx (ho ▸ hy)
      refine ⟨hcmd ▸ h1, ?_⟩
      cases x
      simp only at ho h2
      rw [ho, h2]
    · obtain ⟨x', hx', h1, h2⟩ := hk.rows _ y hy
      subst ht hx
      refine ⟨?_, rfl⟩
      rw [hcmd, hx']
      cases x'
      simp only at h1 h2
      rw [h1, h2]

/-- A dispatcher dies after the handler's commit; once its lease is out another one takes over. -/
def takenOver : List Action :=
  [.recordCareSchedule 7 1, .claim 0 [], .handle 0 true, .commitHandler 0 true, .crash 0, .advance 61000000,
    .claim 1 [], .handle 1 true, .markExecuted 1 true]

/-- The command is executed twice and takes effect once. -/
theorem create_takes_effect_once_taken_over :
    ∃ w, run (step sampleEnv) World.empty takenOver = some w ∧ ∃ r ∈ w.intents, r.status = .executed ∧
      (w.eventsOf r.idempotencyKey).length = 1 := by
  have hrun : run (step sampleEnv) World.empty takenOver =
      some ((run (step sampleEnv) World.empty takenOver).get (by decide)) := (Option.some_get _).symm
  have hex : ∃ r ∈ ((run (step sampleEnv) World.empty takenOver).get (by decide)).intents,
      r.status = .executed ∧ r.command.isCreate = true := by decide
  obtain ⟨r, hr, hs, hc⟩ := hex
  obtain ⟨-, -, hone⟩ := create_takes_effect_once sampleEnv (by decide) hrun hr hc
  obtain ⟨row, event, he, -⟩ := hone hs
  exact ⟨_, hrun, r, hr, hs, by rw [he]; rfl⟩

end Plantkeeper.Intents
