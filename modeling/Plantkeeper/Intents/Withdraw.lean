/-
A withdrawn command never takes effect, as far as the code keeps it. `cancel_pending` looks at the
status alone, so a compensation may cancel a command a dispatcher has already claimed, and the
effect follows all the same (`claimed_command_takes_effect`); it may also cancel one whose effect is
committed and not yet marked. Where every withdrawal finds its command settled, and no undo is
parked with its row still there, a withdrawn command leaves nothing behind once its saga is quiet.
-/
import Plantkeeper.Intents.Invariant

namespace Plantkeeper.Intents

open Plantkeeper.Run Plantkeeper.Table

/-! ## The property and its condition -/

/-- A row that the handler of this recorded command inserted exists. -/
def Live (rows : Target → Option Stored) (k : IntentKey) : Prop := ∃ t x, rows t = some x ∧ x.origin = k

/-- No command of the saga is waiting, claimed or being executed. -/
def Quiet (w : World) (sagaId : SagaId) : Prop :=
  (∀ r ∈ w.intents, r.sagaId = sagaId → r.retryable = false) ∧
    ∀ i, ∀ c ∈ (w.dispatchers i).claims, c.sagaId ≠ sagaId

/-- A withdrawn command of a quiet saga left nothing behind. -/
def NoEffect (w : World) : Prop := ∀ k ∈ w.withdrawn, Quiet w k.sagaId → ¬ Live w.rows k

def Pending (rows : List Intent) (k : IntentKey) : Prop := ∃ r ∈ rows, r.idempotencyKey = k ∧ r.status = .pending

def Claimed (dispatchers : ℕ → Dispatcher) (k : IntentKey) : Prop :=
  ∃ i, ∃ c ∈ (dispatchers i).claims, c.idempotencyKey = k

/-- The command's effect is committed and marked, or not committed and nobody is about to. -/
def Settled (w : World) (k : IntentKey) : Prop :=
  ((w.idempotency k).isSome ∧ ¬ Pending w.intents k) ∨ (w.idempotency k = none ∧ ¬ Claimed w.dispatchers k)

/-- A failed undo has an attempt left, or nothing left to undo. -/
def UndoRetried (env : Env) (w : World) (i : ℕ) : Prop :=
  ∀ c ∈ (w.dispatchers i).claims.head?, c.command.isCreate = false →
    w.rows c.command.target = none ∨ ∀ r ∈ w.intents, r.id = c.id → r.attempts + 1 < env.maxAttempts

/-- Withdrawals find their command settled, and no undo is parked with its row still there. -/
def Orderly (env : Env) (w : World) (a : Action) : Prop :=
  (∀ k, a.withdraws = some k → Settled w k) ∧ ∀ i, a = .markFailed i true → UndoRetried env w i

/-- A dispatcher holds the command when its saga withdraws it. -/
def raced : List Action :=
  [.recordCareSchedule 7 1, .claim 0 [], .withdrawCareSchedule 7 2, .handle 0 true, .commitHandler 0 true,
    .markExecuted 0 true]

def racedWorld : World := (run (step sampleEnv) World.empty raced).get (by decide)

theorem racedWorld_idle : ∀ i, (racedWorld.dispatchers i).claims = []
  | 0 => rfl
  | _ + 1 => rfl

/-- The schedule of the withdrawn command is there, and nothing is left that would delete it. -/
theorem claimed_command_takes_effect :
    ¬ ∀ (env : Env) (acts : List Action) (w : World), run (step env) World.empty acts = some w → NoEffect w := by
  intro h
  have hrun : run (step sampleEnv) World.empty raced = some racedWorld := (Option.some_get _).symm
  refine h sampleEnv raced racedWorld hrun (intentKey 7 stepCareSchedule) (by decide) ⟨by decide, fun i c hc => ?_⟩ ?_
  · rw [racedWorld_idle i] at hc; cases hc
  · exact ⟨.careSchedule 7, (racedWorld.rows (.careSchedule 7)).get (by decide), (Option.some_get _).symm, by decide⟩

/-! ## Undo commands -/

/-- The key the undo of a command is recorded under. -/
def undoKey (k : IntentKey) : IntentKey := intentKey k.sagaId (k.stepNo + compensationStepOffset)

theorem undoKey_inj {k k' : IntentKey} (h : undoKey k = undoKey k') : k = k' := by
  cases k; cases k'
  simp only [undoKey, intentKey, IntentKey.mk.injEq, Nat.add_right_cancel_iff] at h
  rw [h.1, h.2]

theorem planned_create_ne {env : Env} {k k' : IntentKey} {c : Command} (h : Planned env k c)
    (hc : c.isCreate = true) : k ≠ undoKey k' := by
  intro hk
  have hstep := congrArg IntentKey.stepNo hk
  cases h with
  | careSchedule s => simp [intentKey, undoKey, stepCareSchedule, compensationStepOffset] at hstep
  | notification s next => simp [intentKey, undoKey, stepNotification, compensationStepOffset] at hstep
  | undoCareSchedule s => cases hc
  | undoNotification s => cases hc

theorem withdraws_ne_undo {a : Action} {k k' : IntentKey} (h : a.withdraws = some k) : k ≠ undoKey k' := by
  intro hk
  have hstep := congrArg IntentKey.stepNo hk
  cases a <;> simp only [Action.withdraws, Option.some.injEq, reduceCtorEq] at h
  · subst h; simp [intentKey, undoKey, stepCareSchedule, compensationStepOffset] at hstep
  · subst h; simp [intentKey, undoKey, stepNotification, compensationStepOffset] at hstep

/-- The undo deletes the row its command creates. -/
theorem planned_undo_target {env : Env} {k k' : IntentKey} {c u : Command} (h : Planned env k c)
    (hc : c.isCreate = true) (hu : Planned env k' u) (hk : k' = undoKey k) : u.target = c.target := by
  have hstep := congrArg IntentKey.stepNo hk
  have hsaga := congrArg IntentKey.sagaId hk
  cases h <;> cases hu <;>
    simp_all [intentKey, undoKey, stepCareSchedule, stepNotification, compensationStepOffset, Command.target,
      Command.isCreate]

/-! ## The invariant -/

structure Withdrawals (w : World) : Prop where
  recorded : ∀ k ∈ w.withdrawn, k ∈ w.intents.map (·.idempotencyKey)
  undoes : ∀ r ∈ w.intents, ∀ k, r.idempotencyKey = undoKey k → k ∈ w.withdrawn
  stopped : ∀ k ∈ w.withdrawn, ¬ Pending w.intents k
  released : ∀ k ∈ w.withdrawn, w.idempotency k = none → ¬ Claimed w.dispatchers k
  undone : ∀ k ∈ w.withdrawn, Live w.rows k → Pending w.intents (undoKey k)
  deleted : ∀ i c cs, (w.dispatchers i).claims = c :: cs → (w.dispatchers i).phase = .handled →
    ∀ k, c.idempotencyKey = undoKey k → ¬ Live w.rows k

theorem withdrawals_empty : Withdrawals World.empty :=
  ⟨fun _ h => (nomatch h), fun _ h => (nomatch h), fun _ h => (nomatch h), fun _ h => (nomatch h),
    fun _ h => (nomatch h), fun _ _ _ h => (nomatch h)⟩

/-- A live row lies where the undo of its command deletes. -/
theorem live_target {env : Env} {w : World} (h : Inv env w) {k k' : IntentKey} {t : Target} {x : Stored}
    (hx : w.rows t = some x) (ho : x.origin = k) {u : Command} (hu : Planned env k' u) (hk : k' = undoKey k) :
    t = u.target := by
  obtain ⟨y, hy, -, rfl⟩ := h.tables.stored t x hx
  obtain ⟨⟨r, hr, hrk, hcmd⟩, hc, -, -⟩ := h.tables.responses _ y hy
  have hp := (h.tables.wellFormed r hr).planned
  rw [hrk, hcmd, ho] at hp
  exact (planned_undo_target hp hc hu hk).symm

theorem live_isSome {env : Env} {w : World} (h : Inv env w) {k : IntentKey} (hl : Live w.rows k) :
    (w.idempotency k).isSome := by
  obtain ⟨t, x, hx, rfl⟩ := hl
  obtain ⟨y, hy, -⟩ := h.tables.stored t x hx
  rw [hy]; rfl

theorem held_planned {env : Env} {w : World} (h : Inv env w) {i : ℕ} {c : IntentClaim}
    (hc : c ∈ (w.dispatchers i).claims) : Planned env c.idempotencyKey c.command := by
  obtain ⟨r, hr, -, -, hcmd, hk⟩ := (h.dispatchers i).held c hc
  rw [← hcmd, ← hk]; exact (h.tables.wellFormed r hr).planned

/-! ## What a move does to pending, claimed and live -/

theorem pending_of_update {rows : List Intent} {p : Intent → Bool} {f : Intent → Intent} {k : IntentKey}
    (hf : ∀ r : Intent, r.Same (f r)) (hs : ∀ r ∈ rows, (f r).status = .pending → r.status = .pending)
    (h : Pending (update p f rows) k) : Pending rows k := by
  obtain ⟨r, hr, hk, hst⟩ := h
  rcases mem_update hr with ⟨r₀, h0, -, rfl⟩ | ⟨h0, -⟩
  · exact ⟨r₀, h0, (hf r₀).idempotencyKey.trans hk, hs r₀ h0 hst⟩
  · exact ⟨r, h0, hk, hst⟩

/-- An update that leaves the pending rows of a key alone, or pending, leaves the key pending. -/
theorem pending_update {rows : List Intent} {p : Intent → Bool} {f : Intent → Intent} {k : IntentKey}
    (hf : ∀ r : Intent, r.Same (f r))
    (hs : ∀ r ∈ rows, r.idempotencyKey = k → r.status = .pending → p r = true → (f r).status = .pending)
    (h : Pending rows k) : Pending (update p f rows) k := by
  obtain ⟨r, hr, hk, hst⟩ := h
  rcases mem_update_of_mem (p := p) (f := f) hr with ⟨hp, h0⟩ | ⟨-, h0⟩
  · exact ⟨f r, h0, (hf r).idempotencyKey.symm.trans hk, hs r hr hk hst hp⟩
  · exact ⟨r, h0, hk, hst⟩

theorem pending_insert (k' : IntentKey) {rows : List Intent} {k : IntentKey} {id : ℕ} {c : Command}
    (h : Pending (rows ++ [.fresh id k'.sagaId k'.stepNo c]) k) : Pending rows k ∨ k = k' := by
  obtain ⟨r, hr, hk, hst⟩ := h
  rcases List.mem_append.1 hr with hr | hr
  · exact .inl ⟨r, hr, hk, hst⟩
  · rw [List.mem_singleton] at hr
    subst hr; exact .inr hk.symm

theorem pending_insert_of {rows : List Intent} {k : IntentKey} (r : Intent) (h : Pending rows k) :
    Pending (rows ++ [r]) k := by
  obtain ⟨r₀, h0, hk⟩ := h
  exact ⟨r₀, List.mem_append_left _ h0, hk⟩

/-- The rows of the table are those of before, under new statuses. -/
theorem withdrawals_rows {w : World} (h : Withdrawals w) {rows : List Intent}
    (hkeys : rows.map (·.idempotencyKey) = w.intents.map (·.idempotencyKey))
    (hstop : ∀ k, Pending rows k → Pending w.intents k)
    (hundo : ∀ k, Live w.rows k → Pending w.intents (undoKey k) → Pending rows (undoKey k)) :
    Withdrawals { w with intents := rows } := by
  refine ⟨fun k hk => hkeys ▸ h.recorded k hk, fun r hr k hk => ?_, fun k hk hp => h.stopped k hk (hstop k hp),
    h.released, fun k hk hl => hundo k hl (h.undone k hk hl), h.deleted⟩
  have hmem : r.idempotencyKey ∈ w.intents.map (·.idempotencyKey) := hkeys ▸ List.mem_map_of_mem hr
  obtain ⟨r₀, h0, hr₀⟩ := List.mem_map.1 hmem
  exact h.undoes r₀ h0 k (hr₀.trans hk)

theorem claimed_of_setDispatcher {w : World} {i : ℕ} {d : Dispatcher} {k : IntentKey}
    (hd : d.claims ⊆ (w.dispatchers i).claims) (h : Claimed (w.setDispatcher i d).dispatchers k) :
    Claimed w.dispatchers k := by
  obtain ⟨j, c, hc, hk⟩ := h
  simp only [World.setDispatcher] at hc
  split at hc
  · exact ⟨i, c, hd hc, hk⟩
  · exact ⟨j, c, hc, hk⟩

/-- The tables stay and a dispatcher moves: it may give claims up, and if it now reports an undo as
handled, the row is gone. -/
theorem withdrawals_setDispatcher {w : World} (h : Withdrawals w) (i : ℕ) {d : Dispatcher}
    (hd : d.claims ⊆ (w.dispatchers i).claims)
    (hp : d.phase = .handled → ∀ c cs, d.claims = c :: cs → ∀ k, c.idempotencyKey = undoKey k → ¬ Live w.rows k) :
    Withdrawals (w.setDispatcher i d) := by
  refine ⟨h.recorded, h.undoes, h.stopped, fun k hk hn hc => h.released k hk hn (claimed_of_setDispatcher hd hc), h.undone,
    fun j c cs hj hph k hk => ?_⟩
  simp only [World.setDispatcher] at hj hph
  split at hj
  · rename_i hji
    rw [if_pos hji] at hph
    exact hp hph c cs hj k hk
  · rename_i hji
    rw [if_neg hji] at hph
    exact h.deleted j c cs hj hph k hk

theorem withdrawals_pop {w : World} (h : Withdrawals w) (i : ℕ) :
    Withdrawals (w.setDispatcher i (w.dispatchers i).pop) :=
  withdrawals_setDispatcher h i (fun _ hc => List.mem_of_mem_tail hc) fun hp => by cases hp

/-! ## The saga's moves -/

section

variable {env : Env} {w : World}

theorem withdrawals_record (h : Withdrawals w) {sagaId : SagaId} {stepNo id : ℕ} {c : Command} {rows : List Intent}
    (hp : Planned env (intentKey sagaId stepNo) c) (hc : c.isCreate = true)
    (hr : record w.intents id sagaId stepNo c = some rows) : Withdrawals { w with intents := rows } := by
  obtain ⟨-, hkey, rfl⟩ := record_some hr
  refine ⟨fun k hk => ?_, fun r hr k hk => ?_, fun k hk hpend => ?_, h.released,
    fun k hk hl => pending_insert_of _ (h.undone k hk hl), h.deleted⟩
  · rw [List.map_append]; exact List.mem_append_left _ (h.recorded k hk)
  · rcases List.mem_append.1 hr with hr | hr
    · exact h.undoes r hr k hk
    · rw [List.mem_singleton] at hr
      subst hr
      exact absurd hk (planned_create_ne hp hc)
  · rcases pending_insert (intentKey sagaId stepNo) hpend with hpend | rfl
    · exact h.stopped k hk hpend
    · exact hkey (h.recorded _ hk)

theorem withdrawals_undo (h : Withdrawals w) {a : Action} {sagaId : SagaId} {stepNo id : ℕ} {c : Command}
    {rows : List Intent} (ha : a.withdraws = some (intentKey sagaId stepNo))
    (hs : Settled w (intentKey sagaId stepNo))
    (hm : intentKey sagaId stepNo ∈ w.intents.map (·.idempotencyKey))
    (hcan : (cancelPending w.intents (intentKey sagaId stepNo)).2 = false)
    (hr : record w.intents id sagaId (stepNo + compensationStepOffset) c = some rows) :
    Withdrawals { w with intents := rows, withdrawn := w.withdrawn ++ [intentKey sagaId stepNo] } := by
  obtain ⟨-, hkey, rfl⟩ := record_some hr
  have hold : ∀ {k}, k ∈ w.withdrawn ++ [intentKey sagaId stepNo] → k ∈ w.withdrawn ∨ k = intentKey sagaId stepNo := by
    intro k hk
    rwa [List.mem_append, List.mem_singleton] at hk
  refine ⟨fun k hk => ?_, fun r hr k hk => ?_, fun k hk hpend => ?_, fun k hk hn hc => ?_, fun k hk hl => ?_, h.deleted⟩
  · rw [List.map_append]
    rcases hold hk with hk | rfl
    · exact List.mem_append_left _ (h.recorded k hk)
    · exact List.mem_append_left _ hm
  · rcases List.mem_append.1 hr with hr | hr
    · exact List.mem_append_left _ (h.undoes r hr k hk)
    · rw [List.mem_singleton] at hr
      subst hr
      have : intentKey sagaId stepNo = k := undoKey_inj hk
      subst this
      exact List.mem_append_right _ (List.mem_singleton.2 rfl)
  · rcases hold hk with hk | rfl
    · rcases pending_insert (undoKey (intentKey sagaId stepNo)) hpend with hpend | rfl
      · exact h.stopped k hk hpend
      · exact hkey (h.recorded _ hk)
    · rcases pending_insert (undoKey (intentKey sagaId stepNo)) hpend with ⟨r, hr, hrk, hst⟩ | heq
      · -- `cancel_pending` would have found it
        rw [cancelPending, List.any_eq_false] at hcan
        exact hcan r hr (by simp [cancellable, hrk, hst])
      · exact withdraws_ne_undo ha heq
  · rcases hold hk with hk | rfl
    · exact h.released k hk hn hc
    · rcases hs with ⟨hsome, -⟩ | ⟨-, hfree⟩
      · rw [hn] at hsome; cases hsome
      · exact hfree hc
  · rcases hold hk with hk | rfl
    · exact pending_insert_of _ (h.undone k hk hl)
    · exact ⟨_, List.mem_append_right _ (List.mem_singleton.2 rfl), rfl, rfl⟩

theorem withdrawals_cancel (hi : Inv env w) (h : Withdrawals w) {a : Action} {k : IntentKey}
    (ha : a.withdraws = some k) (hs : Settled w k) (hk : (cancelPending w.intents k).2 = true) :
    Withdrawals { w with intents := (cancelPending w.intents k).1, withdrawn := w.withdrawn ++ [k] } := by
  obtain ⟨r, hr, hc⟩ := List.any_eq_true.1 hk
  simp only [cancellable, Bool.and_eq_true, beq_iff_eq] at hc
  have hpend : Pending w.intents k := ⟨r, hr, hc.1, hc.2⟩
  -- a pending command is settled only if its effect is not there and nobody holds it
  obtain ⟨hnone, hfree⟩ : w.idempotency k = none ∧ ¬ Claimed w.dispatchers k :=
    hs.resolve_left fun hdone => hdone.2 hpend
  have hkeys : (cancelPending w.intents k).1.map (·.idempotencyKey) = w.intents.map (·.idempotencyKey) :=
    map_update fun r _ _ => (cancel_same r).idempotencyKey.symm
  have hrest : Withdrawals { w with intents := (cancelPending w.intents k).1 } := by
    refine withdrawals_rows h hkeys (fun k' => pending_of_update cancel_same fun r _ hst => by cases hst) fun k' _ => ?_
    refine pending_update cancel_same fun r _ hrk _ hp => ?_
    simp only [cancellable, Bool.and_eq_true, beq_iff_eq] at hp
    exact absurd (hp.1.symm.trans hrk) (withdraws_ne_undo ha)
  have hold : ∀ {k'}, k' ∈ w.withdrawn ++ [k] → k' ∈ w.withdrawn ∨ k' = k := by
    intro k' hk'
    rwa [List.mem_append, List.mem_singleton] at hk'
  refine ⟨fun k' hk' => ?_, fun r hr k' hk' => List.mem_append_left _ (hrest.undoes r hr k' hk'),
    fun k' hk' hp => ?_, fun k' hk' hn hcl => ?_, fun k' hk' hl => ?_, hrest.deleted⟩
  · rcases hold hk' with hk' | rfl
    · exact hrest.recorded k' hk'
    · exact hkeys ▸ hc.1 ▸ List.mem_map_of_mem hr
  · rcases hold hk' with hk' | rfl
    · exact hrest.stopped k' hk' hp
    · obtain ⟨r', hr', hrk, hst⟩ := hp
      rcases mem_update hr' with ⟨r₀, -, -, rfl⟩ | ⟨-, hno⟩
      · cases hst
      · simp [cancellable, hrk, hst] at hno
  · rcases hold hk' with hk' | rfl
    · exact hrest.released k' hk' hn hcl
    · exact hfree hcl
  · rcases hold hk' with hk' | rfl
    · exact hrest.undone k' hk' hl
    · have hsome := live_isSome hi hl
      rw [hnone] at hsome; cases hsome

/-! ## The dispatchers' moves -/

theorem withdrawals_claim (hi : Inv env w) (h : Withdrawals w) (i : ℕ) (skipped : List ℕ) :
    Withdrawals (claim env w i skipped) := by
  have hf : ∀ r : Intent, r.Same { r with claimedAt := some w.now } := fun r => ⟨rfl, rfl, rfl, rfl, rfl⟩
  let ids := (claimable w.intents skipped w.now env.batchSize env.leaseSeconds).map Intent.id
  have hrows : Withdrawals { w with intents := markClaimed w.intents ids w.now } :=
    withdrawals_rows h (map_update fun r _ _ => (hf r).idempotencyKey.symm)
      (fun k => pending_of_update hf fun _ _ hst => hst) fun k _ => pending_update hf fun _ _ _ hst _ => hst
  refine ⟨hrows.recorded, hrows.undoes, hrows.stopped, fun k hk hn hc => ?_, hrows.undone, fun j c cs hj hph k hk => ?_⟩
  · obtain ⟨j, c, hc, hck⟩ := hc
    simp only [claim, World.setDispatcher] at hc
    split at hc
    · -- a claimed row is pending, and a withdrawn one is not
      obtain ⟨r, hr, rfl⟩ := List.mem_map.1 hc
      obtain ⟨hmem, hret⟩ := mem_claimable hr
      simp only [Intent.retryable, Bool.or_eq_true, beq_iff_eq] at hret
      rcases hret with hst | hst
      · exact h.stopped k hk ⟨r, hmem, hck, hst⟩
      · exact (hi.tables.wellFormed r hmem).status hst
    · exact h.released k hk hn ⟨j, c, hc, hck⟩
  · simp only [claim, World.setDispatcher] at hj hph
    split at hj
    · rename_i hji
      rw [if_pos hji] at hph; cases hph
    · rename_i hji
      rw [if_neg hji] at hph
      exact h.deleted j c cs hj hph k hk

theorem withdrawals_phase (hi : Inv env w) (h : Withdrawals w) {i : ℕ} {c : IntentClaim} {cs : List IntentClaim}
    {p : Phase} (hd : (w.dispatchers i).claims = c :: cs) (hp : Entered w c p) : Withdrawals (w.setPhase i p) := by
  refine withdrawals_setDispatcher h i (fun _ hc => hc) fun hph c' cs' hd' k hk => ?_
  have hcc : c' = c := (List.cons.inj (hd'.symm.trans hd)).1
  simp only at hph
  subst hcc hph
  -- only a create command is ever replayed
  obtain ⟨y, hy⟩ := Option.isSome_iff_exists.1 hp
  obtain ⟨⟨r, hr, hrk, hcmd⟩, hc, -, -⟩ := hi.tables.responses _ y hy
  have hpl := (hi.tables.wellFormed r hr).planned
  rw [hrk] at hpl
  exact absurd hk (planned_create_ne hpl (hcmd ▸ hc))

theorem withdrawals_delete (hi : Inv env w) (h : Withdrawals w) {i : ℕ} {c : IntentClaim} {cs : List IntentClaim}
    (hd : (w.dispatchers i).claims = c :: cs) :
    Withdrawals ((w.setRow c.command.target none).setPhase i .handled) := by
  have hlive : ∀ {k}, Live (w.setRow c.command.target none).rows k →
      ∃ t x, t ≠ c.command.target ∧ w.rows t = some x ∧ x.origin = k := by
    rintro k ⟨t, x, hx, ho⟩
    simp only [World.setRow] at hx
    split at hx
    · cases hx
    · rename_i hne
      exact ⟨t, x, hne, hx, ho⟩
  have hmono : ∀ {k}, Live (w.setRow c.command.target none).rows k → Live w.rows k := by
    intro k hl
    obtain ⟨t, x, -, hx, ho⟩ := hlive hl
    exact ⟨t, x, hx, ho⟩
  have hrows : Withdrawals (w.setRow c.command.target none) :=
    ⟨h.recorded, h.undoes, h.stopped, h.released, fun k hk hl => h.undone k hk (hmono hl),
      fun j c' cs' hj hph k hk hl => h.deleted j c' cs' hj hph k hk (hmono hl)⟩
  refine withdrawals_setDispatcher hrows i (fun _ hc => hc) fun _ c' cs' hd' k hk hl => ?_
  have hcc : c' = c := (List.cons.inj (hd'.symm.trans hd)).1
  subst hcc
  obtain ⟨t, x, hne, hx, ho⟩ := hlive hl
  exact hne (live_target hi hx ho (held_planned hi (hd ▸ List.mem_cons_self ..)) hk)

theorem withdrawals_insert (hi : Inv env w) (h : Withdrawals w) {i : ℕ} {c : IntentClaim} {cs : List IntentClaim}
    {row : Created} {event : Event} (hd : (w.dispatchers i).claims = c :: cs)
    (hp : (w.dispatchers i).phase = .staged row event) (hk : w.idempotency c.idempotencyKey = none) :
    Withdrawals ((w.insert c.idempotencyKey c.command row event).setPhase i .handled) := by
  have hc : c ∈ (w.dispatchers i).claims := hd ▸ List.mem_cons_self ..
  have hnot : c.idempotencyKey ∉ w.withdrawn := fun hmem => h.released _ hmem hk ⟨i, c, hc, rfl⟩
  have hlive : ∀ {k}, k ∈ w.withdrawn → Live (w.insert c.idempotencyKey c.command row event).rows k →
      Live w.rows k := by
    rintro k hmem ⟨t, x, hx, ho⟩
    simp only [World.insert, World.setRow] at hx
    split at hx
    · cases hx
      simp only at ho
      exact absurd (ho ▸ hmem) hnot
    · exact ⟨t, x, hx, ho⟩
  -- an undo in flight belongs to a withdrawn command
  have hundo : ∀ {j : ℕ} {c' : IntentClaim} {k}, c' ∈ (w.dispatchers j).claims → c'.idempotencyKey = undoKey k →
      k ∈ w.withdrawn := by
    intro j c' k hc' hck
    obtain ⟨r, hr, -, -, -, hrk⟩ := (hi.dispatchers j).held c' hc'
    exact h.undoes r hr k (hrk.trans hck)
  have hrows : Withdrawals (w.insert c.idempotencyKey c.command row event) := by
    refine ⟨h.recorded, h.undoes, h.stopped, fun k hmem hn hcl => ?_, fun k hmem hl => h.undone k hmem (hlive hmem hl),
      fun j c' cs' hj hph k hck hl => ?_⟩
    · simp only [World.insert] at hn
      split at hn
      · cases hn
      · exact h.released k hmem hn hcl
    · exact h.deleted j c' cs' hj hph k hck (hlive (hundo (hj ▸ List.mem_cons_self ..) hck) hl)
  refine withdrawals_setDispatcher hrows i (fun _ hc => hc) fun _ c' cs' hd' k hck _ => ?_
  have hcc : c' = c := (List.cons.inj (hd'.symm.trans hd)).1
  subst hcc
  -- its own command is a create, so its key is no undo's
  have hph := (hi.dispatchers i).phase c' cs hd
  rw [hp] at hph
  exact absurd hck (planned_create_ne (held_planned hi hc) hph.1)

theorem withdrawals_executed (hi : Inv env w) (h : Withdrawals w) {i : ℕ} {c : IntentClaim} {cs : List IntentClaim}
    (hd : (w.dispatchers i).claims = c :: cs) (hp : (w.dispatchers i).phase = .handled) :
    Withdrawals ({ w with intents := markExecuted w.intents c.id w.now }.setDispatcher i (w.dispatchers i).pop) := by
  have hf : ∀ r : Intent, r.Same
      { r with status := .executed, executedAt := some w.now, lastError := none, claimedAt := none } :=
    fun r => ⟨rfl, rfl, rfl, rfl, rfl⟩
  have hrows : Withdrawals { w with intents := markExecuted w.intents c.id w.now } := by
    refine withdrawals_rows h (map_update fun r _ _ => (hf r).idempotencyKey.symm)
      (fun k => pending_of_update hf fun _ _ hst => by cases hst) fun k hl => ?_
    refine pending_update hf fun r hr hrk _ hid => ?_
    -- the marked row is the undo of a row that is still there: its handler would have deleted it
    obtain ⟨r', hr', h1, -, -, h4⟩ := (hi.dispatchers i).held c (hd ▸ List.mem_cons_self ..)
    have : r' = r := List.inj_on_of_nodup_map hi.tables.ids hr' hr (h1.trans (beq_iff_eq.1 hid).symm)
    subst this
    exact absurd hl (h.deleted i c cs hd hp k (h4.symm.trans hrk))
  exact withdrawals_pop hrows i

/-- An undo is parked only with its row gone. -/
theorem parked_undo_done (hi : Inv env w) {i : ℕ} {c : IntentClaim} {cs : List IntentClaim}
    (hd : (w.dispatchers i).claims = c :: cs) (hu : UndoRetried env w i) {r : Intent} (hr : r ∈ w.intents)
    (hid : r.id = c.id) {k : IntentKey} (hrk : r.idempotencyKey = undoKey k)
    (hbudget : env.maxAttempts ≤ r.attempts + 1) : ¬ Live w.rows k := by
  rintro ⟨t, x, hx, ho⟩
  have hpl := (hi.tables.wellFormed r hr).planned
  obtain ⟨r', hr', h1, -, h3, -⟩ := (hi.dispatchers i).held c (hd ▸ List.mem_cons_self ..)
  have : r' = r := List.inj_on_of_nodup_map hi.tables.ids hr' hr (h1.trans hid.symm)
  subst this
  have hcr : c.command.isCreate = false := by
    rw [← h3]
    by_contra hcr
    exact planned_create_ne hpl (by simpa using hcr) hrk
  rcases hu c (by rw [hd]; rfl) hcr with hnone | hleft
  · have htar := live_target hi hx ho hpl hrk
    rw [htar, h3, hnone] at hx; cases hx
  · have := hleft r' hr hid
    omega

theorem markFailed_keys {rows rows' : List Intent} {id maxAttempts : ℕ} {error : Error} {status : IntentStatus}
    (h : markFailed rows id error maxAttempts = some (rows', status)) :
    rows'.map (·.idempotencyKey) = rows.map (·.idempotencyKey) := by
  have hcount : (countFailure rows id error).map (·.idempotencyKey) = rows.map (·.idempotencyKey) :=
    map_update fun r _ _ => (countFailure_same error r).idempotencyKey.symm
  obtain ⟨r, -, -, ⟨-, rfl⟩ | ⟨-, rfl⟩⟩ := markFailed_some h
  · exact (map_update fun r _ _ => (park_same error r).idempotencyKey.symm).trans hcount
  · exact hcount

theorem withdrawals_failed (hi : Inv env w) (h : Withdrawals w) {i : ℕ} {c : IntentClaim} {cs : List IntentClaim}
    {error : Error} {rows : List Intent} {status : IntentStatus} (hd : (w.dispatchers i).claims = c :: cs)
    (hu : UndoRetried env w i) (hm : markFailed w.intents c.id error env.maxAttempts = some (rows, status)) :
    Withdrawals ({ w with intents := rows }.setDispatcher i (w.dispatchers i).pop) := by
  have hkeys := markFailed_keys hm
  have hrows : Withdrawals { w with intents := rows } := by
    refine withdrawals_rows h hkeys (fun k hp => ?_) fun k hl hp => ?_
    · obtain ⟨r, hr, hrk, hst⟩ := hp
      obtain ⟨r₀, h0, hs, hst₀ | ⟨-, hpk, -⟩⟩ := mem_markFailed hi.tables.ids hm hr
      · exact ⟨r₀, h0, hs.idempotencyKey.trans hrk, hst₀.symm.trans hst⟩
      · rw [hst] at hpk; cases hpk
    · obtain ⟨r, hr, hrk, hst⟩ := hp
      have hmem : undoKey k ∈ rows.map (·.idempotencyKey) := hkeys ▸ hrk ▸ List.mem_map_of_mem hr
      obtain ⟨r', hr', hrk'⟩ := List.mem_map.1 hmem
      obtain ⟨r₀, h0, hs, hcase⟩ := mem_markFailed hi.tables.ids hm hr'
      have : r₀ = r := List.inj_on_of_nodup_map hi.tables.keys h0 hr (hs.idempotencyKey.trans (hrk'.trans hrk.symm))
      subst this
      rcases hcase with hst₀ | ⟨hid, -, hbudget⟩
      · exact ⟨r', hr', hrk', hst₀.trans hst⟩
      · exact absurd hl (parked_undo_done hi hd hu h0 hid hrk hbudget)
  exact withdrawals_pop hrows i

end

/-! ## Every orderly run -/

theorem withdrawals_move {env : Env} {w w' : World} {a : Action} (hi : Inv env w) (h : Withdrawals w)
    (ho : Orderly env w a) (hm : Move env w a w') : Withdrawals w' := by
  cases hm with
  | advance d => exact ⟨h.recorded, h.undoes, h.stopped, h.released, h.undone, h.deleted⟩
  | record hp hc hr => exact withdrawals_record h hp hc hr
  | cancel ha hk => exact withdrawals_cancel hi h ha (ho.1 _ ha) hk
  | undo ha hk hcan _ hr => exact withdrawals_undo h ha (ho.1 _ ha) hk hcan hr
  | claim skipped _ => exact withdrawals_claim hi h _ skipped
  | phase hd hp => exact withdrawals_phase hi h hd hp
  | delete hd _ => exact withdrawals_delete hi h hd
  | insert hd hp hk _ => exact withdrawals_insert hi h hd hp hk
  | executed hd hp => exact withdrawals_executed hi h hd hp
  | failed hd _ hm => exact withdrawals_failed hi h hd (ho.2 _ rfl) hm
  | drop i =>
    exact withdrawals_setDispatcher h i (List.nil_subset _) fun hp => by cases hp

/-- In every run in which a withdrawal finds its command settled and no undo is parked with its row
still there, nothing that a withdrawn command created is left once no command of its saga waits, is
claimed or is being executed. -/
theorem withdrawn_command_has_no_effect (env : Env) {acts : List Action} {w : World}
    (ho : Meets (step env) (Orderly env) World.empty acts) (h : run (step env) World.empty acts = some w) :
    NoEffect w := by
  have hw : Inv env w ∧ Withdrawals w :=
    inv_of_meets (P := fun w => Inv env w ∧ Withdrawals w)
      (fun _ _ _ hi ha ht => ⟨inv_move hi.1 (step_moves ht), withdrawals_move hi.1 hi.2 ha (step_moves ht)⟩)
      ⟨inv_empty env, withdrawals_empty⟩ ho h
  intro k hk hq hl
  obtain ⟨r, hr, hrk, hst⟩ := hw.2.undone k hk hl
  have hsaga : r.sagaId = k.sagaId := by
    have hkey := (hw.1.tables.wellFormed r hr).key
    rw [hrk] at hkey
    exact (congrArg IntentKey.sagaId hkey).symm
  have hretry := hq.1 r hr hsaga
  simp [Intent.retryable, hst] at hretry

/-- The saga withdraws its command after it was executed; a dispatcher executes the undo. -/
def undoneRun : List Action :=
  [.recordCareSchedule 7 1, .claim 0 [], .handle 0 true, .commitHandler 0 true, .markExecuted 0 true,
    .withdrawCareSchedule 7 2, .claim 0 [], .handle 0 true, .markExecuted 0 true]

/-- A withdrawal after the mark, and no failed execution: a condition that can be evaluated. -/
def marked (w : World) : Action → Bool
  | .withdrawCareSchedule sagaId _ => (w.idempotency (intentKey sagaId stepCareSchedule)).isSome &&
      w.intents.all fun r => r.idempotencyKey != intentKey sagaId stepCareSchedule || r.status != .pending
  | .withdrawNotification _ _ => false
  | .markFailed _ _ => false
  | _ => true

theorem orderly_of_marked {env : Env} (w : World) (a : Action) (h : marked w a = true) : Orderly env w a := by
  cases a with
  | withdrawCareSchedule sagaId id =>
    refine ⟨fun k hk => ?_, fun i hi => by cases hi⟩
    cases hk
    simp only [marked, Bool.and_eq_true, List.all_eq_true] at h
    refine .inl ⟨h.1, fun ⟨r, hr, hrk, hst⟩ => ?_⟩
    have := h.2 r hr
    simp [hrk, hst] at this
  | withdrawNotification sagaId id => cases h
  | markFailed i ok => cases h
  | _ => exact ⟨fun k hk => (by cases hk), fun i hi => by cases hi⟩

/-- The schedule was created and is gone again. -/
theorem withdrawn_command_has_no_effect_undone :
    ∃ w, run (step sampleEnv) World.empty undoneRun = some w ∧ (intentKey 7 stepCareSchedule) ∈ w.withdrawn ∧
      (w.idempotency (intentKey 7 stepCareSchedule)).isSome ∧ NoEffect w := by
  have hrun : run (step sampleEnv) World.empty undoneRun =
      some ((run (step sampleEnv) World.empty undoneRun).get (by decide)) := (Option.some_get _).symm
  refine ⟨_, hrun, by decide, by decide, ?_⟩
  exact withdrawn_command_has_no_effect sampleEnv (meets_mono orderly_of_marked (by decide)) hrun

end Plantkeeper.Intents
