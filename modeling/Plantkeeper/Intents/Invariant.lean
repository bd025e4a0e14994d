/-
What every run of the sagas and the dispatchers keeps. A recorded command is never rewritten: its
key, content and owner stay, and only its status, lease and counter move. A stored response is the
trace of one effect: it is committed with the row and the event it stands for, under the key of a
recorded create command, and it is never taken back. So a dispatcher that was told "done" can rely
on the response being there.
-/
import Plantkeeper.Intents.Dispatch

namespace Plantkeeper.Intents

open Plantkeeper.Run Plantkeeper.Table

/-! ## Recorded commands are frozen -/

/-- The columns no update touches agree. -/
structure Intent.Same (r r' : Intent) : Prop where
  id : r.id = r'.id
  sagaId : r.sagaId = r'.sagaId
  stepNo : r.stepNo = r'.stepNo
  command : r.command = r'.command
  idempotencyKey : r.idempotencyKey = r'.idempotencyKey

theorem Intent.Same.refl (r : Intent) : r.Same r := ⟨rfl, rfl, rfl, rfl, rfl⟩

theorem Intent.Same.trans {r r' r'' : Intent} (h : r.Same r') (h' : r'.Same r'') : r.Same r'' :=
  ⟨h.id.trans h'.id, h.sagaId.trans h'.sagaId, h.stepNo.trans h'.stepNo, h.command.trans h'.command,
    h.idempotencyKey.trans h'.idempotencyKey⟩

/-- The commands the onboarding saga records, by the key they are recorded under. -/
inductive Planned (env : Env) : IntentKey → Command → Prop
  | careSchedule (s : SagaId) : Planned env (intentKey s stepCareSchedule)
      (.createCareSchedule (env.context s).plantId (env.context s).wateringInterval)
  | notification (s : SagaId) (next : Instant) : Planned env (intentKey s stepNotification)
      (.createOnboardingNotification (env.context s).householdId (env.context s).plantId next
        (env.reminderId s stepNotification))
  | undoCareSchedule (s : SagaId) : Planned env (intentKey s (stepCareSchedule + compensationStepOffset))
      (.deleteCareSchedule (env.context s).plantId)
  | undoNotification (s : SagaId) : Planned env (intentKey s (stepNotification + compensationStepOffset))
      (.deleteNotification (env.reminderId s stepNotification))

/-- A row as `record` writes it and the updates leave it. No update sets the status `failed`. -/
structure Intent.WellFormed (env : Env) (r : Intent) : Prop where
  key : r.idempotencyKey = intentKey r.sagaId r.stepNo
  planned : Planned env r.idempotencyKey r.command
  status : r.status ≠ .failed

theorem Intent.WellFormed.of_same {env : Env} {r r' : Intent} (h : r.WellFormed env) (hs : r.Same r')
    (hst : r'.status ≠ .failed) : r'.WellFormed env := by
  refine ⟨?_, ?_, hst⟩
  · rw [← hs.idempotencyKey, ← hs.sagaId, ← hs.stepNo]; exact h.key
  · rw [← hs.idempotencyKey, ← hs.command]; exact h.planned

/-- A claim is of a recorded command. -/
def Held (rows : List Intent) (c : IntentClaim) : Prop :=
  ∃ r ∈ rows, r.id = c.id ∧ r.sagaId = c.sagaId ∧ r.command = c.command ∧ r.idempotencyKey = c.idempotencyKey

/-! ## Effects -/

def Created.target : Created → Target
  | .careSchedule s => .careSchedule s.plantId
  | .notification n => .notification n.id

/-- The row an event reports. -/
def Event.subject : Event → Created
  | .careScheduleCreated s _ => .careSchedule s
  | .notificationCreated n _ => .notification n

theorem operation_ok {now : Instant} {c : Command} {row : Created} {event : Event}
    (h : operation now c = .ok (row, event)) :
    c.isCreate = true ∧ event.subject = row ∧ row.target = c.target := by
  cases c with
  | createCareSchedule plantId wateringInterval =>
    simp only [operation] at h
    split at h
    · cases h
    · rename_i interval _
      simp only [CareSchedule.create] at h
      split at h
      · cases h
      · rename_i s _ hs
        cases h
        split at hs
        · cases hs
        · cases hs; exact ⟨rfl, rfl, rfl⟩
  | createOnboardingNotification householdId plantId nextWateringAt notificationId =>
    cases h; exact ⟨rfl, rfl, rfl⟩
  | deleteCareSchedule plantId => cases h
  | deleteNotification notificationId => cases h

/-- The outbox rows a recorded command's handler appended. -/
def World.eventsOf (w : World) (k : IntentKey) : List (IntentKey × Event) :=
  w.outbox.filter fun e => e.1 = k

/-- A stored response belongs to a recorded create command and comes with exactly one event. -/
structure ResponseOK (w : World) (k : IntentKey) (x : IdempotencyRecord) : Prop where
  recorded : ∃ r ∈ w.intents, r.idempotencyKey = k ∧ r.command = x.requestHash
  create : x.requestHash.isCreate = true
  target : x.response.target = x.requestHash.target
  event : ∃ e, w.eventsOf k = [(k, e)] ∧ e.subject = x.response

structure TablesOK (env : Env) (w : World) : Prop where
  ids : (w.intents.map (·.id)).Nodup
  keys : (w.intents.map (·.idempotencyKey)).Nodup
  wellFormed : ∀ r ∈ w.intents, r.WellFormed env
  executed : ∀ r ∈ w.intents, r.status = .executed → r.command.isCreate = true →
    (w.idempotency r.idempotencyKey).isSome
  responses : ∀ k x, w.idempotency k = some x → ResponseOK w k x
  silent : ∀ k, w.idempotency k = none → w.eventsOf k = []
  stored : ∀ t x, w.rows t = some x → ∃ y, w.idempotency x.origin = some y ∧ y.response = x.row ∧
    y.requestHash.target = t

/-- What a dispatcher knows about its first claim. -/
def PhaseOK (w : World) (c : IntentClaim) : Phase → Prop
  | .staged row event => c.command.isCreate = true ∧ event.subject = row ∧ row.target = c.command.target
  | .handled => c.command.isCreate = true → (w.idempotency c.idempotencyKey).isSome
  | _ => True

structure DispatcherOK (w : World) (d : Dispatcher) : Prop where
  held : ∀ c ∈ d.claims, Held w.intents c
  phase : ∀ c cs, d.claims = c :: cs → PhaseOK w c d.phase

structure Inv (env : Env) (w : World) : Prop where
  tables : TablesOK env w
  dispatchers : ∀ i, DispatcherOK w (w.dispatchers i)

theorem inv_empty (env : Env) : Inv env World.empty :=
  ⟨⟨List.nodup_nil, List.nodup_nil, fun _ h => (nomatch h), fun _ h => (nomatch h), fun _ _ h => (nomatch h),
    fun _ _ => rfl, fun _ _ h => (nomatch h)⟩,
    fun _ => ⟨fun _ h => (nomatch h), fun _ _ h => (nomatch h)⟩⟩

/-! ## What a step can do -/

/-- The create command a compensation withdraws. -/
def Action.withdraws : Action → Option IntentKey
  | .withdrawCareSchedule sagaId _ => some (intentKey sagaId stepCareSchedule)
  | .withdrawNotification sagaId _ => some (intentKey sagaId stepNotification)
  | _ => none

/-- What is true when the execution of a claim enters a phase without writing. -/
def Entered (w : World) (c : IntentClaim) : Phase → Prop
  | .staged row event => operation w.now c.command = .ok (row, event)
  | .handled => (w.idempotency c.idempotencyKey).isSome
  | _ => True

/-- The commits of the sagas and the dispatchers, and the moves between them. -/
inductive Move (env : Env) (w : World) : Action → World → Prop
  | advance (d : ℕ) : Move env w (.advance d) { w with now := w.now + d }
  | record {a : Action} {sagaId : SagaId} {stepNo id : ℕ} {c : Command} {rows : List Intent}
      (hp : Planned env (intentKey sagaId stepNo) c) (hc : c.isCreate = true)
      (hr : record w.intents id sagaId stepNo c = some rows) : Move env w a { w with intents := rows }
  | cancel {a : Action} {k : IntentKey} (ha : a.withdraws = some k) (hk : (cancelPending w.intents k).2 = true) :
      Move env w a { w with intents := (cancelPending w.intents k).1, withdrawn := w.withdrawn ++ [k] }
  | undo {a : Action} {sagaId : SagaId} {stepNo id : ℕ} {c : Command} {rows : List Intent}
      (ha : a.withdraws = some (intentKey sagaId stepNo))
      (hm : intentKey sagaId stepNo ∈ w.intents.map (·.idempotencyKey))
      (hk : (cancelPending w.intents (intentKey sagaId stepNo)).2 = false)
      (hp : Planned env (intentKey sagaId (stepNo + compensationStepOffset)) c)
      (hr : record w.intents id sagaId (stepNo + compensationStepOffset) c = some rows) :
      Move env w a { w with intents := rows, withdrawn := w.withdrawn ++ [intentKey sagaId stepNo] }
  | claim {i : ℕ} (skipped : List ℕ) (hd : (w.dispatchers i).claims = []) :
      Move env w (.claim i skipped) (claim env w i skipped)
  | phase {a : Action} {i : ℕ} {c : IntentClaim} {cs : List IntentClaim} {p : Phase}
      (hd : (w.dispatchers i).claims = c :: cs) (hp : Entered w c p) : Move env w a (w.setPhase i p)
  | delete {i : ℕ} {c : IntentClaim} {cs : List IntentClaim} (hd : (w.dispatchers i).claims = c :: cs)
      (hc : c.command.isCreate = false) :
      Move env w (.handle i true) ((w.setRow c.command.target none).setPhase i .handled)
  | insert {i : ℕ} {c : IntentClaim} {cs : List IntentClaim} {row : Created} {event : Event}
      (hd : (w.dispatchers i).claims = c :: cs) (hp : (w.dispatchers i).phase = .staged row event)
      (hk : w.idempotency c.idempotencyKey = none) (hr : w.rows c.command.target = none) :
      Move env w (.commitHandler i true) ((w.insert c.idempotencyKey c.command row event).setPhase i .handled)
  | executed {i : ℕ} {c : IntentClaim} {cs : List IntentClaim} (hd : (w.dispatchers i).claims = c :: cs)
      (hp : (w.dispatchers i).phase = .handled) :
      Move env w (.markExecuted i true)
        ({ w with intents := markExecuted w.intents c.id w.now }.setDispatcher i (w.dispatchers i).pop)
  | failed {i : ℕ} {c : IntentClaim} {cs : List IntentClaim} {error : Error} {rows : List Intent}
      {status : IntentStatus} (hd : (w.dispatchers i).claims = c :: cs)
      (hp : (w.dispatchers i).phase = .failed error)
      (hm : markFailed w.intents c.id error env.maxAttempts = some (rows, status)) :
      Move env w (.markFailed i true) ({ w with intents := rows }.setDispatcher i (w.dispatchers i).pop)
  | drop {a : Action} (i : ℕ) : Move env w a (w.setDispatcher i .idle)

section

variable {env : Env} {w w' : World} {a : Action} {i : ℕ} {c : IntentClaim} {cs : List IntentClaim}

theorem replayed_moves (hd : (w.dispatchers i).claims = c :: cs) {x : IdempotencyRecord}
    (hx : w.idempotency c.idempotencyKey = some x) :
    Move env w a (match replayed x c.command with
      | .ok _ => w.setPhase i .handled
      | .error e => w.setPhase i (.failed e)) := by
  split
  · refine .phase hd ?_
    show (w.idempotency c.idempotencyKey).isSome = true
    rw [hx]; rfl
  · exact .phase hd trivial

theorem handle_moves (hd : (w.dispatchers i).claims = c :: cs) (ok : Bool) :
    Move env w (.handle i ok) (handle w i c ok) := by
  unfold handle
  split
  · exact .phase hd trivial
  · rename_i hok
    split
    · split
      · rename_i x hx
        exact replayed_moves hd hx
      · split
        · rename_i hop
          exact .phase hd hop
        · exact .phase hd trivial
    · rename_i hc
      rw [show ok = true by simpa using hok]
      exact .delete hd (by simpa using hc)

theorem commitHandler_moves (hd : (w.dispatchers i).claims = c :: cs) {row : Created} {event : Event}
    (hp : (w.dispatchers i).phase = .staged row event) (ok : Bool) :
    Move env w (.commitHandler i ok) (commitHandler w i c row event ok) := by
  unfold commitHandler
  split
  · exact .phase hd trivial
  · rename_i hok
    split
    · exact .phase hd trivial
    · rename_i hfree
      rw [show ok = true by simpa using hok]
      simp only [Bool.or_eq_true, Option.isSome_iff_ne_none, not_or, not_not] at hfree
      exact .insert hd hp hfree.1 hfree.2

theorem readWinner_moves (hd : (w.dispatchers i).claims = c :: cs) (ok : Bool) :
    Move env w (.readWinner i ok) (readWinner w i c ok) := by
  unfold readWinner
  split
  · exact .phase hd trivial
  · split
    · exact .phase hd trivial
    · rename_i x hx
      exact replayed_moves hd hx

theorem recordCreate_moves {sagaId : SagaId} {stepNo id : ℕ} {command : Command}
    (hp : Planned env (intentKey sagaId stepNo) command) (hc : command.isCreate = true)
    (h : recordCreate w sagaId stepNo id command = some w') : Move env w a w' := by
  obtain ⟨rows, hr, rfl⟩ := Option.map_eq_some_iff.1 h
  exact .record hp hc hr

theorem withdraw_moves {sagaId : SagaId} {stepNo id : ℕ} {undo : Command}
    (ha : a.withdraws = some (intentKey sagaId stepNo))
    (hp : Planned env (intentKey sagaId (stepNo + compensationStepOffset)) undo)
    (h : withdraw w sagaId stepNo id undo = some w') : Move env w a w' := by
  simp only [withdraw] at h
  split at h
  · cases h
  · rename_i hm
    split at h
    · rename_i hk
      cases h; exact .cancel ha hk
    · rename_i hk
      obtain ⟨rows, hr, rfl⟩ := Option.map_eq_some_iff.1 h
      exact .undo ha (by simpa using hm) (by simpa using hk) hp hr

theorem step_moves (h : step env w a = some w') : Move env w a w' := by
  cases a with
  | advance d => cases h; exact .advance d
  | recordCareSchedule sagaId id => exact recordCreate_moves (.careSchedule sagaId) rfl h
  | recordNotification sagaId id => exact recordCreate_moves (.notification sagaId _) rfl h
  | withdrawCareSchedule sagaId id => exact withdraw_moves rfl (.undoCareSchedule sagaId) h
  | withdrawNotification sagaId id => exact withdraw_moves rfl (.undoNotification sagaId) h
  | claim i skipped =>
    simp only [step] at h
    split at h
    · rename_i hd
      cases h; exact .claim skipped hd
    · cases h
  | handle i ok =>
    simp only [step] at h
    split at h
    · rename_i hd _
      cases h; exact handle_moves hd ok
    · cases h
  | commitHandler i ok =>
    simp only [step] at h
    split at h
    · rename_i hd hp
      cases h; exact commitHandler_moves hd hp ok
    · cases h
  | readWinner i ok =>
    simp only [step] at h
    split at h
    · rename_i hd _
      cases h; exact readWinner_moves hd ok
    · cases h
  | markExecuted i ok =>
    simp only [step] at h
    split at h
    · rename_i hd hp
      split at h
      · rename_i hok
        cases h; subst hok; exact .executed hd hp
      · cases h; exact .phase hd trivial
    · cases h
  | markFailed i ok =>
    simp only [step] at h
    split at h
    · rename_i hd hp
      split at h
      · rename_i hm
        cases h; exact .failed hd hp hm
      · cases h; exact .drop i
    · cases h
  | crash i => cases h; exact .drop i

end

/-! ## What a dispatcher relies on is never taken back -/

structure Grows (w w' : World) : Prop where
  intents : ∀ r ∈ w.intents, ∃ r' ∈ w'.intents, r.Same r'
  idempotency : ∀ k x, w.idempotency k = some x → w'.idempotency k = some x

theorem Grows.of_tables {w w' : World} (hi : w'.intents = w.intents) (hk : w'.idempotency = w.idempotency) :
    Grows w w' :=
  ⟨fun r hr => ⟨r, hi ▸ hr, .refl r⟩, fun _ _ h => hk ▸ h⟩

theorem Grows.trans {w w' w'' : World} (g : Grows w w') (g' : Grows w' w'') : Grows w w'' := by
  refine ⟨fun r hr => ?_, fun k x hx => g'.idempotency k x (g.idempotency k x hx)⟩
  obtain ⟨r', hr', hs⟩ := g.intents r hr
  obtain ⟨r'', hr'', hs'⟩ := g'.intents r' hr'
  exact ⟨r'', hr'', hs.trans hs'⟩

theorem Grows.isSome {w w' : World} (g : Grows w w') {k : IntentKey} (h : (w.idempotency k).isSome) :
    (w'.idempotency k).isSome := by
  obtain ⟨x, hx⟩ := Option.isSome_iff_exists.1 h
  rw [g.idempotency k x hx]; rfl

theorem held_mono {w w' : World} (g : Grows w w') {c : IntentClaim} (h : Held w.intents c) : Held w'.intents c := by
  obtain ⟨r, hr, h1, h2, h3, h4⟩ := h
  obtain ⟨r', hr', hs⟩ := g.intents r hr
  exact ⟨r', hr', hs.id.symm.trans h1, hs.sagaId.symm.trans h2, hs.command.symm.trans h3,
    hs.idempotencyKey.symm.trans h4⟩

theorem phaseOK_mono {w w' : World} (g : Grows w w') {c : IntentClaim} {p : Phase} (h : PhaseOK w c p) :
    PhaseOK w' c p := by
  cases p with
  | handled => exact fun hc => g.isSome (h hc)
  | staged row event => exact h
  | _ => trivial

theorem DispatcherOK.mono {w w' : World} (g : Grows w w') {d : Dispatcher} (h : DispatcherOK w d) :
    DispatcherOK w' d :=
  ⟨fun c hc => held_mono g (h.held c hc), fun c cs hd => phaseOK_mono g (h.phase c cs hd)⟩

theorem dispatcherOK_idle (w : World) : DispatcherOK w .idle :=
  ⟨fun _ h => (nomatch h), fun _ _ h => (nomatch h)⟩

/-- The next claim starts from the beginning. -/
theorem DispatcherOK.pop {w : World} {d : Dispatcher} (h : DispatcherOK w d) : DispatcherOK w d.pop :=
  ⟨fun c hc => h.held c (List.mem_of_mem_tail hc), fun _ _ _ => trivial⟩

theorem TablesOK.of_dispatchers {env : Env} {w : World} (h : TablesOK env w) (d : ℕ → Dispatcher) :
    TablesOK env { w with dispatchers := d } :=
  ⟨h.ids, h.keys, h.wellFormed, h.executed,
    fun k x hx => ⟨(h.responses k x hx).recorded, (h.responses k x hx).create, (h.responses k x hx).target,
      (h.responses k x hx).event⟩, h.silent, h.stored⟩

/-- One dispatcher moves, in tables that only grew. -/
theorem inv_setDispatcher {env : Env} {w w' : World} (h : Inv env w) (g : Grows w w')
    (hd : w'.dispatchers = w.dispatchers) (ht : TablesOK env w') (i : ℕ) {d : Dispatcher}
    (hi : DispatcherOK w' d) : Inv env (w'.setDispatcher i d) := by
  refine ⟨ht.of_dispatchers _, fun j => ?_⟩
  have key : DispatcherOK w' (if j = i then d else w'.dispatchers j) := by
    split
    · exact hi
    · rw [hd]; exact (h.dispatchers j).mono g
  have g' : Grows w' (w'.setDispatcher i d) := Grows.of_tables rfl rfl
  exact key.mono g'

/-- Nothing but the phase of one dispatcher changes. -/
theorem inv_setPhase {env : Env} {w : World} (h : Inv env w) (i : ℕ) {p : Phase}
    (hp : ∀ c cs, (w.dispatchers i).claims = c :: cs → PhaseOK w c p) : Inv env (w.setPhase i p) :=
  inv_setDispatcher h (Grows.of_tables rfl rfl) rfl h.tables i ⟨(h.dispatchers i).held, hp⟩

/-! ## The saga's steps -/

theorem record_some {rows rows' : List Intent} {id : ℕ} {sagaId : SagaId} {stepNo : ℕ} {command : Command}
    (h : record rows id sagaId stepNo command = some rows') :
    id ∉ rows.map (·.id) ∧ intentKey sagaId stepNo ∉ rows.map (·.idempotencyKey) ∧
      rows' = rows ++ [.fresh id sagaId stepNo command] := by
  unfold record at h
  split at h
  · cases h
  · rename_i hid
    split at h
    · cases h
    · rename_i hkey
      cases h; exact ⟨hid, hkey, rfl⟩

theorem grows_record {w : World} {r : Intent} {withdrawn : List IntentKey} :
    Grows w { w with intents := w.intents ++ [r], withdrawn := withdrawn } :=
  ⟨fun r hr => ⟨r, List.mem_append_left _ hr, .refl r⟩, fun _ _ hx => hx⟩

theorem inv_record {env : Env} {w : World} (h : Inv env w) {sagaId : SagaId} {stepNo id : ℕ} {command : Command}
    (hp : Planned env (intentKey sagaId stepNo) command) {rows : List Intent} {withdrawn : List IntentKey}
    (ht : record w.intents id sagaId stepNo command = some rows) :
    Inv env { w with intents := rows, withdrawn := withdrawn } := by
  obtain ⟨hid, hkey, rfl⟩ := record_some ht
  refine ⟨⟨nodup_insert h.tables.ids hid, nodup_insert h.tables.keys hkey, fun r hr => ?_, fun r hr hs hc => ?_,
    fun k x hx => ?_, h.tables.silent, h.tables.stored⟩, fun i => (h.dispatchers i).mono grows_record⟩
  · rcases List.mem_append.1 hr with hr | hr
    · exact h.tables.wellFormed r hr
    · rw [List.mem_singleton] at hr
      subst hr
      exact ⟨rfl, hp, by simp [Intent.fresh]⟩
  · rcases List.mem_append.1 hr with hr | hr
    · exact h.tables.executed r hr hs hc
    · rw [List.mem_singleton] at hr
      subst hr; cases hs
  · obtain ⟨⟨r, hr, hk⟩, h2, h3, h4⟩ := h.tables.responses k x hx
    exact ⟨⟨r, List.mem_append_left _ hr, hk⟩, h2, h3, h4⟩

/-- An update of the mutable columns, under a status that is not `failed` and that says `executed`
only with the response in place. -/
theorem tablesOK_update {env : Env} {w : World} (h : TablesOK env w) {p : Intent → Bool} {f : Intent → Intent}
    {withdrawn : List IntentKey} (hf : ∀ r : Intent, r.Same (f r))
    (hs : ∀ r ∈ w.intents, p r = true → (f r).status ≠ .failed ∧ ((f r).status = .executed →
      r.command.isCreate = true → (w.idempotency r.idempotencyKey).isSome)) :
    TablesOK env { w with intents := update p f w.intents, withdrawn := withdrawn } := by
  refine ⟨?_, ?_, fun r hr => ?_, fun r hr he hc => ?_, fun k x hx => ?_, h.silent, h.stored⟩
  · show ((update p f w.intents).map (·.id)).Nodup
    rw [map_update fun r _ _ => (hf r).id.symm]; exact h.ids
  · show ((update p f w.intents).map (·.idempotencyKey)).Nodup
    rw [map_update fun r _ _ => (hf r).idempotencyKey.symm]; exact h.keys
  · rcases mem_update hr with ⟨r₀, h0, hp, rfl⟩ | ⟨h0, -⟩
    · exact (h.wellFormed r₀ h0).of_same (hf r₀) (hs r₀ h0 hp).1
    · exact h.wellFormed r h0
  · rcases mem_update hr with ⟨r₀, h0, hp, rfl⟩ | ⟨h0, -⟩
    · show (w.idempotency (f r₀).idempotencyKey).isSome
      rw [← (hf r₀).idempotencyKey]
      exact (hs r₀ h0 hp).2 he ((hf r₀).command ▸ hc)
    · exact h.executed r h0 he hc
  · obtain ⟨⟨r, hr, hk, hc⟩, h2, h3, h4⟩ := h.responses k x hx
    refine ⟨?_, h2, h3, h4⟩
    rcases mem_update_of_mem (p := p) (f := f) hr with ⟨-, h0⟩ | ⟨-, h0⟩
    · exact ⟨f r, h0, (hf r).idempotencyKey.symm.trans hk, (hf r).command.symm.trans hc⟩
    · exact ⟨r, h0, hk, hc⟩

theorem grows_update {w : World} {p : Intent → Bool} {f : Intent → Intent} {withdrawn : List IntentKey}
    (hf : ∀ r : Intent, r.Same (f r)) : Grows w { w with intents := update p f w.intents, withdrawn := withdrawn } := by
  refine ⟨fun r hr => ?_, fun _ _ hx => hx⟩
  rcases mem_update_of_mem (p := p) (f := f) hr with ⟨-, h0⟩ | ⟨-, h0⟩
  · exact ⟨f r, h0, hf r⟩
  · exact ⟨r, h0, .refl r⟩

/-! ## The updates of the repository -/

theorem cancel_same (r : Intent) : r.Same { r with status := .cancelled, claimedAt := none } :=
  ⟨rfl, rfl, rfl, rfl, rfl⟩

theorem inv_cancel {env : Env} {w : World} (h : Inv env w) (k : IntentKey) {withdrawn : List IntentKey} :
    Inv env { w with intents := (cancelPending w.intents k).1, withdrawn := withdrawn } :=
  ⟨tablesOK_update h.tables cancel_same fun _ _ _ => ⟨by simp, fun he => by cases he⟩,
    fun i => (h.dispatchers i).mono (grows_update cancel_same)⟩

/-- A claimed row is one of the table. -/
theorem mem_claimable {rows : List Intent} {skipped : List ℕ} {now : Instant} {limit lease : ℕ} {r : Intent}
    (h : r ∈ claimable rows skipped now limit lease) : r ∈ rows ∧ r.retryable = true := by
  have h := (List.mem_insertionSort _).1 (List.mem_of_mem_take h)
  obtain ⟨hr, hp⟩ := List.mem_filter.1 h
  simp only [Bool.and_eq_true] at hp
  exact ⟨hr, hp.1.1⟩

theorem inv_claim {env : Env} {w : World} (h : Inv env w) (i : ℕ) (skipped : List ℕ) :
    Inv env (claim env w i skipped) := by
  have hf : ∀ r : Intent, r.Same { r with claimedAt := some w.now } := fun r => ⟨rfl, rfl, rfl, rfl, rfl⟩
  refine inv_setDispatcher h (grows_update hf) rfl (tablesOK_update h.tables hf fun r hr _ => ?_) i ?_
  · exact ⟨(h.tables.wellFormed r hr).status, h.tables.executed r hr⟩
  · refine ⟨fun c hc => ?_, fun _ _ _ => trivial⟩
    obtain ⟨r, hr, rfl⟩ := List.mem_map.1 hc
    exact held_mono (grows_update hf) ⟨r, (mem_claimable hr).1, rfl, rfl, rfl, rfl⟩

theorem markFailed_some {rows rows' : List Intent} {id maxAttempts : ℕ} {error : Error} {status : IntentStatus}
    (h : markFailed rows id error maxAttempts = some (rows', status)) :
    ∃ r ∈ rows, r.id = id ∧
      ((r.attempts + 1 ≥ maxAttempts ∧ rows' = park (countFailure rows id error) id error) ∨
        (r.attempts + 1 < maxAttempts ∧ rows' = countFailure rows id error)) := by
  unfold markFailed at h
  split at h
  · cases h
  · rename_i r hr
    have hid : r.id = id := by simpa using List.find?_some hr
    have hmem : r ∈ countFailure rows id error := List.mem_of_find?_eq_some hr
    rcases mem_update hmem with ⟨r₀, h0, hp, rfl⟩ | ⟨-, hp⟩
    · refine ⟨r₀, h0, hid, ?_⟩
      split at h
      · rename_i hge
        cases h; exact .inl ⟨hge, rfl⟩
      · rename_i hlt
        cases h; exact .inr ⟨Nat.lt_of_not_le hlt, rfl⟩
    · rw [hid] at hp; simp at hp

theorem countFailure_same (error : Error) (r : Intent) :
    r.Same { r with attempts := r.attempts + 1, lastError := some error, claimedAt := none } :=
  ⟨rfl, rfl, rfl, rfl, rfl⟩

theorem park_same (error : Error) (r : Intent) :
    r.Same { r with status := .parked, lastError := some error, claimedAt := none } := ⟨rfl, rfl, rfl, rfl, rfl⟩

/-- A row after a recorded failure: its status is as before, or it was parked with its budget out. -/
theorem mem_markFailed {rows rows' : List Intent} {id maxAttempts : ℕ} {error : Error} {status : IntentStatus}
    (hids : (rows.map (·.id)).Nodup) (h : markFailed rows id error maxAttempts = some (rows', status))
    {r : Intent} (hr : r ∈ rows') :
    ∃ r₀ ∈ rows, r₀.Same r ∧
      (r.status = r₀.status ∨ (r₀.id = id ∧ r.status = .parked ∧ maxAttempts ≤ r₀.attempts + 1)) := by
  have hcount : ∀ {r₁ : Intent}, r₁ ∈ countFailure rows id error →
      ∃ r₀ ∈ rows, r₀.Same r₁ ∧ r₁.status = r₀.status := by
    intro r₁ h1
    rcases mem_update h1 with ⟨r₀, h0, -, rfl⟩ | ⟨h0, -⟩
    · exact ⟨r₀, h0, countFailure_same error r₀, rfl⟩
    · exact ⟨r₁, h0, .refl r₁, rfl⟩
  obtain ⟨x, hx, hid, ⟨hge, rfl⟩ | ⟨-, rfl⟩⟩ := markFailed_some h
  · rcases mem_update hr with ⟨r₁, h1, hp, rfl⟩ | ⟨h1, -⟩
    · obtain ⟨r₀, h0, hs, -⟩ := hcount h1
      have hr₁ : r₁.id = id := beq_iff_eq.1 hp
      -- the row that was counted is the row that is parked
      have : x = r₀ := List.inj_on_of_nodup_map hids hx h0 (hid.trans (hs.id.trans hr₁).symm)
      subst this
      exact ⟨x, hx, hs.trans (park_same error r₁), .inr ⟨hid, rfl, hge⟩⟩
    · obtain ⟨r₀, h0, hs, hst⟩ := hcount h1
      exact ⟨r₀, h0, hs, .inl hst⟩
  · obtain ⟨r₀, h0, hs, hst⟩ := hcount hr
    exact ⟨r₀, h0, hs, .inl hst⟩

theorem tablesOK_countFailure {env : Env} {w : World} (h : TablesOK env w) (id : ℕ) (error : Error) :
    TablesOK env { w with intents := countFailure w.intents id error } :=
  tablesOK_update h (countFailure_same error) fun r hr _ => ⟨(h.wellFormed r hr).status, h.executed r hr⟩

theorem inv_failed {env : Env} {w : World} (h : Inv env w) {i id : ℕ} {error : Error} {rows : List Intent}
    {status : IntentStatus} (hm : markFailed w.intents id error env.maxAttempts = some (rows, status)) :
    Inv env ({ w with intents := rows }.setDispatcher i (w.dispatchers i).pop) := by
  have g1 : Grows w { w with intents := countFailure w.intents id error } := grows_update (countFailure_same error)
  have t1 := tablesOK_countFailure h.tables id error
  obtain ⟨r, -, -, ⟨-, rfl⟩ | ⟨-, rfl⟩⟩ := markFailed_some hm
  · have g2 : Grows { w with intents := countFailure w.intents id error }
        { w with intents := park (countFailure w.intents id error) id error } := grows_update (park_same error)
    refine inv_setDispatcher h (g1.trans g2) rfl ?_ i ((h.dispatchers i).pop.mono (g1.trans g2))
    exact tablesOK_update t1 (park_same error) fun _ _ _ => ⟨by simp, fun he => by cases he⟩
  · exact inv_setDispatcher h g1 rfl t1 i ((h.dispatchers i).pop.mono g1)

/-- The mark comes after the handler returned, so a create command has its response. -/
theorem inv_executed {env : Env} {w : World} (h : Inv env w) {i : ℕ} {c : IntentClaim} {cs : List IntentClaim}
    (hd : (w.dispatchers i).claims = c :: cs) (hp : (w.dispatchers i).phase = .handled) :
    Inv env ({ w with intents := markExecuted w.intents c.id w.now }.setDispatcher i (w.dispatchers i).pop) := by
  have hf : ∀ r : Intent, r.Same
      { r with status := .executed, executedAt := some w.now, lastError := none, claimedAt := none } :=
    fun r => ⟨rfl, rfl, rfl, rfl, rfl⟩
  have g : Grows w { w with intents := markExecuted w.intents c.id w.now } := grows_update hf
  refine inv_setDispatcher h g rfl (tablesOK_update h.tables hf fun r hr hid => ?_) i ((h.dispatchers i).pop.mono g)
  refine ⟨by simp, fun _ hc => ?_⟩
  -- the marked row is the claimed one, and its handler has returned
  obtain ⟨r', hr', h1, -, h3, h4⟩ := (h.dispatchers i).held c (hd ▸ List.mem_cons_self ..)
  have : r' = r := List.inj_on_of_nodup_map h.tables.ids hr' hr (h1.trans (beq_iff_eq.1 hid).symm)
  subst this
  have hph := (h.dispatchers i).phase c cs hd
  rw [hp] at hph
  rw [h4]
  exact hph (h3 ▸ hc)

/-! ## The handlers' commits -/

theorem inv_delete {env : Env} {w : World} (h : Inv env w) {i : ℕ} {c : IntentClaim} {cs : List IntentClaim}
    (hd : (w.dispatchers i).claims = c :: cs) (hc : c.command.isCreate = false) :
    Inv env ((w.setRow c.command.target none).setPhase i .handled) := by
  have g : Grows w (w.setRow c.command.target none) := Grows.of_tables rfl rfl
  refine inv_setDispatcher h g rfl ?_ i ⟨fun c' hc' => (h.dispatchers i).held c' hc', fun c' cs' hd' => ?_⟩
  · refine ⟨h.tables.ids, h.tables.keys, h.tables.wellFormed, h.tables.executed, fun k x hx => ?_, h.tables.silent,
      fun t x hx => ?_⟩
    · exact ⟨(h.tables.responses k x hx).recorded, (h.tables.responses k x hx).create,
        (h.tables.responses k x hx).target, (h.tables.responses k x hx).event⟩
    · simp only [World.setRow] at hx
      split at hx
      · cases hx
      · exact h.tables.stored t x hx
  · have hcc : c' = c := (List.cons.inj (hd'.symm.trans hd)).1
    intro hcr
    rw [hcc, hc] at hcr; cases hcr

theorem eventsOf_append {w : World} {k : IntentKey} {event : Event} (k' : IntentKey) :
    (w.outbox ++ [(k, event)]).filter (fun e => e.1 = k') =
      if k = k' then w.eventsOf k' ++ [(k, event)] else w.eventsOf k' := by
  rw [List.filter_append]
  split
  · rename_i hk
    rw [List.filter_cons_of_pos (by simpa using hk), List.filter_nil]; rfl
  · rename_i hk
    rw [List.filter_cons_of_neg (by simpa using hk), List.filter_nil, List.append_nil]; rfl

theorem tablesOK_insert {env : Env} {w : World} (h : TablesOK env w) {c : IntentClaim} {row : Created}
    {event : Event} (hh : Held w.intents c) (hp : PhaseOK w c (.staged row event))
    (hk : w.idempotency c.idempotencyKey = none) :
    TablesOK env (w.insert c.idempotencyKey c.command row event) := by
  obtain ⟨hcr, hsub, htar⟩ := hp
  obtain ⟨r, hr, -, -, hcmd, hkey⟩ := hh
  refine ⟨h.ids, h.keys, h.wellFormed, fun r hr hs hc => ?_, fun k x hx => ?_, fun k hx => ?_, fun t x hx => ?_⟩
  · simp only [World.insert]
    split
    · rfl
    · exact h.executed r hr hs hc
  · simp only [World.insert] at hx
    split at hx
    · rename_i hkk
      subst hkk
      cases hx
      -- no event of the key was published before its response was stored
      refine ⟨⟨r, hr, hkey, hcmd⟩, hcr, htar, event, ?_, hsub⟩
      show (w.outbox ++ [(c.idempotencyKey, event)]).filter (fun e => e.1 = c.idempotencyKey) = _
      rw [eventsOf_append, if_pos rfl, h.silent _ hk]; rfl
    · rename_i hkk
      obtain ⟨h1, h2, h3, e, h4, h5⟩ := h.responses k x hx
      refine ⟨h1, h2, h3, e, ?_, h5⟩
      show (w.outbox ++ [(c.idempotencyKey, event)]).filter (fun e => e.1 = k) = _
      rw [eventsOf_append, if_neg (Ne.symm hkk), h4]
  · simp only [World.insert] at hx
    split at hx
    · cases hx
    · rename_i hkk
      show (w.outbox ++ [(c.idempotencyKey, event)]).filter (fun e => e.1 = k) = _
      rw [eventsOf_append, if_neg (Ne.symm hkk), h.silent k hx]
  · simp only [World.insert, World.setRow] at hx ⊢
    split at hx
    · rename_i ht
      cases hx
      exact ⟨_, if_pos rfl, rfl, ht.symm⟩
    · obtain ⟨y, hy, h1, h2⟩ := h.stored t x hx
      refine ⟨y, ?_, h1, h2⟩
      rw [if_neg (by intro ho; rw [ho, hk] at hy; cases hy)]
      exact hy

theorem grows_insert {w : World} {k : IntentKey} {command : Command} {row : Created} {event : Event}
    (hk : w.idempotency k = none) : Grows w (w.insert k command row event) := by
  refine ⟨fun r hr => ⟨r, hr, .refl r⟩, fun k' x hx => ?_⟩
  simp only [World.insert]
  rw [if_neg (by rintro rfl; rw [hk] at hx; cases hx)]
  exact hx

theorem inv_insert {env : Env} {w : World} (h : Inv env w) {i : ℕ} {c : IntentClaim} {cs : List IntentClaim}
    {row : Created} {event : Event} (hd : (w.dispatchers i).claims = c :: cs)
    (hp : (w.dispatchers i).phase = .staged row event) (hk : w.idempotency c.idempotencyKey = none) :
    Inv env ((w.insert c.idempotencyKey c.command row event).setPhase i .handled) := by
  have hdo := h.dispatchers i
  have g : Grows w (w.insert c.idempotencyKey c.command row event) := grows_insert hk
  refine inv_setDispatcher h g rfl ?_ i ⟨fun c' hc' => held_mono g (hdo.held c' hc'), fun c' cs' hd' _ => ?_⟩
  · exact tablesOK_insert h.tables (hdo.held c (hd ▸ List.mem_cons_self ..)) (hp ▸ hdo.phase c cs hd) hk
  · have hcc : c' = c := (List.cons.inj (hd'.symm.trans hd)).1
    subst hcc
    simp [World.insert]

/-! ## Every step and every run -/

theorem inv_move {env : Env} {w w' : World} {a : Action} (h : Inv env w) (hm : Move env w a w') : Inv env w' := by
  cases hm with
  | advance d =>
    have g : Grows w { w with now := w.now + d } := Grows.of_tables rfl rfl
    refine ⟨⟨h.tables.ids, h.tables.keys, h.tables.wellFormed, h.tables.executed, fun k x hx => ?_, h.tables.silent,
      h.tables.stored⟩, fun i => (h.dispatchers i).mono g⟩
    obtain ⟨h1, h2, h3, h4⟩ := h.tables.responses k x hx
    exact ⟨h1, h2, h3, h4⟩
  | record hp _ hr => exact inv_record h hp hr
  | cancel _ _ => exact inv_cancel h _
  | undo _ _ _ hp hr => exact inv_record h hp hr
  | claim skipped _ => exact inv_claim h _ skipped
  | @phase _ i c cs p hd hp =>
    refine inv_setPhase h i fun c' cs' hd' => ?_
    have hcc : c' = c := (List.cons.inj (hd'.symm.trans hd)).1
    subst hcc
    cases p with
    | staged row event => exact operation_ok hp
    | handled => exact fun _ => hp
    | _ => trivial
  | delete hd hc => exact inv_delete h hd hc
  | insert hd hp hk _ => exact inv_insert h hd hp hk
  | executed hd hp => exact inv_executed h hd hp
  | failed _ _ hm => exact inv_failed h hm
  | drop i => exact inv_setDispatcher h (Grows.of_tables rfl rfl) rfl h.tables i (dispatcherOK_idle w)

theorem inv_run {env : Env} {w : World} {acts : List Action} (h : run (step env) World.empty acts = some w) :
    Inv env w :=
  inv (fun _ _ _ hi ht => inv_move hi (step_moves ht)) (inv_empty env) h

/-- Each plant waters every three days; a saga is named like its plant. -/
def sampleEnv : Env :=
  { batchSize := 20, leaseSeconds := 60, maxAttempts := 5, context := fun s => ⟨s, 0, days 3⟩,
    reminderId := fun s _ => s }

end Plantkeeper.Intents
