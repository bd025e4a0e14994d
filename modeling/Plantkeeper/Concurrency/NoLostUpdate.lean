/-
A care schedule loses no update, as long as a tick's save of a due schedule finds the row it listed.
The stored row is then, at every moment, the first one with the committed changes replayed onto it in
the order of their commits: a transaction holds the lock of every schedule it has read for a change,
so nothing is committed under it. A tick lists the due schedules without a lock and saves them as
listed; a change committed in between is overwritten.
-/
import Plantkeeper.Concurrency.Transactions

namespace Plantkeeper.Concurrency

open Plantkeeper.Run Plantkeeper.Table

/-! ## Replaying the committed changes -/

/-- The schedule after one more change. -/
def advance (s : CareSchedule) (next : Instant) : CareSchedule :=
  { s with nextWateringAt := next, version := s.version + 1 }

def changesOf (log : List (PlantId × Instant)) (p : PlantId) : List Instant := (log.filter (·.1 = p)).map (·.2)

/-- The schedule the log leaves of the plant's first one. -/
def replay (rows : List CareSchedule) (log : List (PlantId × Instant)) (p : PlantId) : Option CareSchedule :=
  (get CareSchedule.plantId rows p).map fun s => (changesOf log p).foldl advance s

theorem changesOf_append (log log' : List (PlantId × Instant)) (p : PlantId) :
    changesOf (log ++ log') p = changesOf log p ++ changesOf log' p := by
  unfold changesOf
  rw [List.filter_append, List.map_append]

theorem changesOf_eq_nil {log : List (PlantId × Instant)} {p : PlantId} (h : ∀ c ∈ log, c.1 ≠ p) :
    changesOf log p = [] := by
  unfold changesOf
  rw [List.map_eq_nil_iff, List.filter_eq_nil_iff]
  intro c hc
  simpa using h c hc

theorem replay_append (rows : List CareSchedule) (log log' : List (PlantId × Instant)) (p : PlantId) :
    replay rows (log ++ log') p = (replay rows log p).map fun s => (changesOf log' p).foldl advance s := by
  unfold replay
  rw [changesOf_append, Option.map_map]
  congr 1
  funext s
  exact List.foldl_append

theorem replay_append_of_ne (rows : List CareSchedule) {log log' : List (PlantId × Instant)} {p : PlantId}
    (h : ∀ c ∈ log', c.1 ≠ p) : replay rows (log ++ log') p = replay rows log p := by
  rw [replay_append, changesOf_eq_nil h]
  simp

theorem foldl_advance (changes : List Instant) : ∀ s : CareSchedule,
    (changes.foldl advance s).version = s.version + changes.length ∧
      (changes.foldl advance s).nextWateringAt = changes.getLastD s.nextWateringAt := by
  induction changes with
  | nil => exact fun s => ⟨rfl, rfl⟩
  | cons n changes ih =>
    intro s
    obtain ⟨hv, hn⟩ := ih (advance s n)
    rw [List.foldl_cons, hv, hn, List.length_cons, List.getLastD_cons]
    refine ⟨?_, rfl⟩
    show s.version + 1 + changes.length = s.version + (changes.length + 1)
    omega

/-! ## What an operation makes of a schedule -/

theorem change_advance {s s' : CareSchedule} {v : ℕ} {next : Instant} {e e' : CareEvent}
    (h : s.change v next e = .ok (s', e')) : s' = advance s s'.nextWateringAt := by
  obtain ⟨-, rfl, -⟩ := CareSchedule.change_ok h
  rfl

theorem reschedule_advance {s s' : CareSchedule} {next now : Instant} {v : ℕ} {reason : Option String} {e : CareEvent}
    (h : s.reschedule next now v reason = .ok (s', e)) : s' = advance s s'.nextWateringAt := by
  unfold CareSchedule.reschedule at h
  split at h
  · cases h
  · split at h
    · cases h
    · exact change_advance h

/-! ## The invariant -/

/-- The transaction holds the lock of the plant's schedule. -/
def Holds (w : World) (i : ℕ) (p : PlantId) : Prop := (.schedule p, i) ∈ w.locks

/-- A schedule about to be saved is one change on from the one the transaction sees, and held. -/
def PcOK (w : World) (i : ℕ) (tx : Tx) : Pc → Prop
  | .getPlant s => Holds w i s.plantId ∧ w.scheduleSeen tx s.plantId = some s
  | .savePlant _ s | .save s | .saveMissed s _ _ =>
    Holds w i s.plantId ∧ ∃ r, w.scheduleSeen tx s.plantId = some r ∧ s = advance r s.nextWateringAt
  | _ => True

section

variable (rows : List CareSchedule)

/-- A transaction holds what it has written, and sees the committed changes under its own. -/
structure TxOK (w : World) (i : ℕ) (tx : Tx) : Prop where
  owned : ∀ s ∈ tx.schedules, Holds w i s.plantId
  changed : ∀ c ∈ tx.changes, Holds w i c.1
  seen : ∀ p, w.scheduleSeen tx p = replay rows (w.log ++ tx.changes) p
  pc : PcOK w i tx tx.pc

structure Inv (w : World) : Prop where
  exclusive : ∀ r i j, (r, i) ∈ w.locks → (r, j) ∈ w.locks → i = j
  stored : ∀ p, get CareSchedule.plantId w.schedules p = replay rows w.log p
  txs : ∀ i tx, w.txs i = some tx → TxOK rows w i tx

end

variable {rows : List CareSchedule} {w w' : World} {i : ℕ} {tx tx' : Tx}

theorem inv_atRest (plants : List Plant) (windows : List Care.MissedCareWindow) :
    Inv rows (World.atRest plants rows windows) := by
  refine ⟨fun _ _ _ h => (nomatch h), fun p => ?_, fun _ _ h => (nomatch h)⟩
  show get CareSchedule.plantId rows p = (get CareSchedule.plantId rows p).map fun s => s
  rw [Option.map_id']

theorem scheduleSeen_of_not_holds (h : TxOK rows w i tx) {p : PlantId} (hp : ¬ Holds w i p) :
    w.scheduleSeen tx p = get CareSchedule.plantId w.schedules p :=
  get_overlay_of_not_mem w.schedules fun s hs heq => hp (heq ▸ h.owned s hs)

theorem PcOK.mono {pc : Pc} (hl : ∀ p, Holds w i p → Holds w' i p)
    (hseen : ∀ p, Holds w i p → w'.scheduleSeen tx p = w.scheduleSeen tx p) (h : PcOK w i tx pc) : PcOK w' i tx pc := by
  cases pc
  case getPlant s => exact ⟨hl _ h.1, (hseen _ h.1).trans h.2⟩
  case savePlant plant s =>
    obtain ⟨hh, r, hr, hs⟩ := h
    exact ⟨hl _ hh, r, (hseen _ hh).trans hr, hs⟩
  case save s =>
    obtain ⟨hh, r, hr, hs⟩ := h
    exact ⟨hl _ hh, r, (hseen _ hh).trans hr, hs⟩
  case saveMissed s x expired =>
    obtain ⟨hh, r, hr, hs⟩ := h
    exact ⟨hl _ hh, r, (hseen _ hh).trans hr, hs⟩
  all_goals trivial

/-- Nothing is committed, and the transaction keeps its locks. -/
theorem TxOK.mono (h : TxOK rows w i tx) (hs : w'.schedules = w.schedules) (hlog : w'.log = w.log)
    (hl : ∀ r, (r, i) ∈ w.locks → (r, i) ∈ w'.locks) : TxOK rows w' i tx := by
  have hseen : ∀ p, w'.scheduleSeen tx p = w.scheduleSeen tx p := by
    intro p
    unfold World.scheduleSeen World.schedulesSeen
    rw [hs]
  refine ⟨fun s hmem => hl _ (h.owned s hmem), fun c hmem => hl _ (h.changed c hmem), fun p => ?_,
    h.pc.mono (fun p => hl _) fun p _ => hseen p⟩
  rw [hseen, hlog]
  exact h.seen p

/-- Another statement of the same transaction. -/
theorem TxOK.goto (h : TxOK rows w i tx) {pc : Pc} (hpc : PcOK w i tx pc) : TxOK rows w i { tx with pc := pc } :=
  ⟨h.owned, h.changed, h.seen, by cases pc <;> exact hpc⟩

/-! ## Locks, rollbacks and commits -/

theorem mem_lock {r r' : Row} {j : ℕ} : (r', j) ∈ (w.lock i r).locks ↔ (r', j) ∈ w.locks ∨ r' = r ∧ j = i := by
  unfold World.lock
  rw [List.mem_append, List.mem_singleton, Prod.mk.injEq]

theorem available_iff {r : Row} : w.available i r = true ↔ ∀ j, (r, j) ∈ w.locks → j = i := by
  unfold World.available
  rw [List.all_eq_true]
  constructor
  · intro h j hj
    simpa using h (r, j) hj
  · rintro h ⟨r', j⟩ hmem
    by_cases hr : r' = r
    · subst hr
      simp [h j hmem]
    · simp [hr]

theorem inv_lock (h : Inv rows w) {r : Row} (ha : w.available i r = true) : Inv rows (w.lock i r) := by
  have hfree := available_iff.1 ha
  refine ⟨fun r' j k hj hk => ?_, h.stored, fun j tx htx => ?_⟩
  · rcases mem_lock.1 hj with hj' | ⟨hr, hji⟩ <;> rcases mem_lock.1 hk with hk' | ⟨hr', hki⟩
    · exact h.exclusive r' j k hj' hk'
    · exact (hfree j (hr' ▸ hj')).trans hki.symm
    · exact hji.trans (hfree k (hr ▸ hk')).symm
    · exact hji.trans hki.symm
  · exact (h.txs j tx htx).mono rfl rfl fun _ hmem => mem_lock.2 (.inl hmem)

theorem inv_put (h : Inv rows w) (htx : TxOK rows w i tx) : Inv rows (w.put i tx) := by
  refine ⟨h.exclusive, h.stored, fun j t ht => ?_⟩
  rcases update_eq_some.1 ht with ⟨rfl, hsame⟩ | ⟨-, ht⟩
  · cases hsame
    exact htx.mono rfl rfl fun _ => id
  · exact (h.txs j t ht).mono rfl rfl fun _ => id

theorem mem_close {r : Row} {j : ℕ} : (r, j) ∈ (w.close i).locks ↔ (r, j) ∈ w.locks ∧ j ≠ i := by
  unfold World.close
  rw [List.mem_filter, bne_iff_ne]

theorem txs_close {j : ℕ} (h : (w.close i).txs j = some tx) : j ≠ i ∧ w.txs j = some tx :=
  eq_some_of_remove h

theorem inv_close (h : Inv rows w) : Inv rows (w.close i) := by
  refine ⟨fun r j k hj hk => ?_, h.stored, fun j t ht => ?_⟩
  · exact h.exclusive r j k (mem_close.1 hj).1 (mem_close.1 hk).1
  · obtain ⟨hne, ht⟩ := txs_close ht
    exact (h.txs j t ht).mono rfl rfl fun _ hmem => mem_close.2 ⟨hmem, hne⟩

/-- A commit changes no schedule another transaction holds. -/
theorem commit_other (h : Inv rows w) (htx : TxOK rows w i tx) {j : ℕ} (hne : j ≠ i) {p : PlantId} (hp : Holds w j p) :
    get CareSchedule.plantId (w.commit i tx).schedules p = get CareSchedule.plantId w.schedules p ∧
      ∀ c ∈ tx.changes, c.1 ≠ p := by
  have hnot : ¬ Holds w i p := fun hi => hne (h.exclusive _ j i hp hi)
  refine ⟨scheduleSeen_of_not_holds htx hnot, fun c hc heq => hnot ?_⟩
  rw [← heq]
  exact htx.changed c hc

theorem inv_commit (h : Inv rows w) (htx : TxOK rows w i tx) : Inv rows (w.commit i tx) := by
  have hstored : ∀ p, get CareSchedule.plantId (w.commit i tx).schedules p = replay rows (w.commit i tx).log p :=
    htx.seen
  refine ⟨fun r j k hj hk => ?_, hstored, fun j t ht => ?_⟩
  · exact h.exclusive r j k (mem_close.1 hj).1 (mem_close.1 hk).1
  · obtain ⟨hne, ht⟩ := txs_close (w := w) ht
    have hj := h.txs j t ht
    have hl : ∀ p, Holds w j p → Holds (w.commit i tx) j p := fun p hp => mem_close.2 ⟨hp, hne⟩
    have hseen : ∀ p, Holds w j p → (w.commit i tx).scheduleSeen t p = w.scheduleSeen t p := fun p hp =>
      get_overlay_congr (commit_other h htx hne hp).1
    refine ⟨fun s hs => hl _ (hj.owned s hs), fun c hc => hl _ (hj.changed c hc), fun p => ?_, hj.pc.mono hl hseen⟩
    show (w.commit i tx).scheduleSeen t p = replay rows ((w.log ++ tx.changes) ++ t.changes) p
    by_cases hp : Holds w j p
    · -- the committing transaction has no change of a plant another one holds
      rw [hseen p hp, hj.seen p, replay_append, replay_append, replay_append_of_ne rows (commit_other h htx hne hp).2]
    · -- the transaction has not touched the plant: it sees what was committed
      have hch : ∀ c ∈ t.changes, c.1 ≠ p := fun c hc heq => hp (heq ▸ hj.changed c hc)
      rw [replay_append_of_ne rows hch, ← htx.seen p]
      exact get_overlay_of_not_mem _ fun s hs heq => hp (heq ▸ hj.owned s hs)

/-! ## Saves -/

theorem save_cases {ρ : Type} [DecidableEq ρ] {r : Row} {seen : Option ρ} {row : ρ} {write : Tx} {w₁ : World} {tx₁ : Tx}
    (h : save w i r seen row write tx = some (w₁, tx₁)) :
    (seen = some row ∧ w₁ = w ∧ tx₁ = tx) ∨ (w.available i r = true ∧ w₁ = w.lock i r ∧ tx₁ = write) := by
  unfold save at h
  split at h
  · rename_i hseen
    cases h; exact .inl ⟨hseen, rfl, rfl⟩
  · split at h
    · rename_i ha
      cases h; exact .inr ⟨ha, rfl, rfl⟩
    · cases h

theorem inv_goto (h : Inv rows w) (htx : TxOK rows w i tx) {pc : Pc} (hpc : PcOK w i tx pc) :
    Inv rows (goto w i tx (some pc)) :=
  inv_put h (htx.goto hpc)

/-- A save of a plant or a window: the transaction's schedules stay as they are. -/
theorem inv_saved_other {ρ : Type} [DecidableEq ρ] {r : Row} {seen : Option ρ} {row : ρ} {write : Tx} {pc : Pc}
    (h : Inv rows w) (htx : TxOK rows w i tx) (hw : saved i pc (save w i r seen row write tx) = some w')
    (hs : write.schedules = tx.schedules) (hc : write.changes = tx.changes) (hpc : PcOK w i tx pc) : Inv rows w' := by
  cases hsave : save w i r seen row write tx with
  | none =>
    rw [hsave] at hw; cases hw
  | some out =>
    obtain ⟨w₁, tx₁⟩ := out
    rw [hsave] at hw
    cases hw
    rcases save_cases hsave with ⟨-, rfl, rfl⟩ | ⟨ha, rfl, rfl⟩
    · exact inv_goto h htx hpc
    · have hl : ∀ r', (r', i) ∈ w.locks → (r', i) ∈ (w.lock i r).locks := fun _ hmem => mem_lock.2 (.inl hmem)
      have hseen : ∀ p, (w.lock i r).scheduleSeen tx₁ p = w.scheduleSeen tx p := by
        intro p
        unfold World.scheduleSeen World.schedulesSeen
        rw [hs]; rfl
      have hpc' : PcOK (w.lock i r) i tx₁ pc := by
        have hlocked : PcOK (w.lock i r) i tx pc := hpc.mono (fun p => hl _) fun p _ => rfl
        cases pc <;> simp only [PcOK, hseen] at hlocked ⊢ <;> exact hlocked
      refine inv_put (inv_lock h ha) ⟨fun s hmem => hl _ (htx.owned s (hs ▸ hmem)), fun c hmem => hl _ (htx.changed c (hc ▸ hmem)),
        fun p => ?_, by cases pc <;> exact hpc'⟩
      show (w.lock i r).scheduleSeen tx₁ p = replay rows (w.log ++ tx₁.changes) p
      rw [hseen, hc]
      exact htx.seen p

/-- The save of a changed schedule: one more change on top of what the transaction sees. -/
theorem inv_saved_changed {s : CareSchedule} {pc : Pc} (h : Inv rows w) (htx : TxOK rows w i tx)
    (hw : saved i pc (changed s (saveSchedule w i tx s)) = some w')
    (hs : Holds w i s.plantId ∧ ∃ r, w.scheduleSeen tx s.plantId = some r ∧ s = advance r s.nextWateringAt)
    (hpc : ∀ w tx, PcOK w i tx pc) : Inv rows w' := by
  obtain ⟨hh, r, hr, hadv⟩ := hs
  cases hsave : saveSchedule w i tx s with
  | none =>
    rw [hsave] at hw; cases hw
  | some out =>
    obtain ⟨w₁, tx₁⟩ := out
    rw [hsave] at hw
    cases hw
    rcases save_cases hsave with ⟨hseen, -, -⟩ | ⟨ha, rfl, rfl⟩
    · -- the version has moved on, so the row is written
      rw [hr] at hseen
      cases hseen
      have : s.version = s.version + 1 := congrArg CareSchedule.version hadv
      omega
    · have hl : ∀ p, Holds w i p → Holds (w.lock i (.schedule s.plantId)) i p := fun _ hmem => mem_lock.2 (.inl hmem)
      refine inv_put (inv_lock h ha) ⟨fun x hx => ?_, fun c hc => ?_, fun p => ?_, ?_⟩
      · rcases List.mem_append.1 hx with hx | hx
        · exact hl _ (htx.owned x hx)
        · rw [List.mem_singleton.1 hx]
          exact hl _ hh
      · rcases List.mem_append.1 hc with hc | hc
        · exact hl _ (htx.changed c hc)
        · rw [List.mem_singleton.1 hc]
          exact hl _ hh
      · -- the saved row is the next one after what was seen, and the change is on record
        show get CareSchedule.plantId (overlay CareSchedule.plantId (tx.schedules ++ [s]) w.schedules) p =
          replay rows (w.log ++ (tx.changes ++ [(s.plantId, s.nextWateringAt)])) p
        rw [get_overlay_append, ← List.append_assoc]
        by_cases hp : s.plantId = p
        · subst hp
          rw [if_pos rfl, replay_append, ← htx.seen, hr, Option.map_some]
          simpa [changesOf] using hadv
        · rw [if_neg hp, replay_append_of_ne rows fun c hc => by rw [List.mem_singleton.1 hc]; exact hp]
          exact htx.seen p
      · exact hpc _ _

/-! ## One statement -/

/-- The schedule a command or a reaction goes on with is one change on from the one it locked. -/
theorem withSchedule_ok {task : Task} {s : CareSchedule} {pc : Pc} (h : withSchedule task s = some pc) :
    pc = .getPlant s ∨ pc = .commit ∨ ∃ s', pc = .save s' ∧ s'.plantId = s.plantId ∧ s' = advance s s'.nextWateringAt := by
  cases task with
  | waterPlant p v now =>
    cases h; exact .inl rfl
  | skipWatering p v now =>
    simp only [withSchedule] at h
    split at h
    · cases h
    · rename_i s' e hc
      cases h
      have hadv := change_advance hc
      exact .inr (.inr ⟨s', rfl, by rw [hadv]; rfl, hadv⟩)
  | telemetryReceived p moisture now =>
    simp only [withSchedule] at h
    split at h
    · cases h; exact .inr (.inl rfl)
    · split at h
      · cases h; exact .inr (.inl rfl)
      · split at h
        · cases h
        · rename_i s' e hc
          cases h
          have hadv := reschedule_advance hc
          exact .inr (.inr ⟨s', rfl, by rw [hadv]; rfl, hadv⟩)
  | escalateOverdue now => cases h

theorem watered_ok {task : Task} {plant plant' : Plant} {s s' : CareSchedule} (h : watered task plant s = some (plant', s')) :
    s'.plantId = s.plantId ∧ s' = advance s s'.nextWateringAt := by
  cases task with
  | waterPlant p v now =>
    simp only [watered] at h
    split at h
    · rename_i hc
      cases h
      have hadv := change_advance hc
      exact ⟨by rw [hadv]; rfl, hadv⟩
    · cases h
  | _ => cases h

theorem scheduleSeen_plantId {p : PlantId} {s : CareSchedule} (h : w.scheduleSeen tx p = some s) : s.plantId = p :=
  (mem_of_get h).2

theorem holds_lock (w : World) (i : ℕ) (p : PlantId) : Holds (w.lock i (.schedule p)) i p :=
  mem_lock.2 (.inr ⟨rfl, rfl⟩)

theorem inv_getForUpdate {p : PlantId} (h : Inv rows w) (htx : TxOK rows w i tx) {s : CareSchedule}
    (hs : w.scheduleSeen tx p = some s) (ha : w.available i (.schedule p) = true) :
    Inv rows (goto (w.lock i (.schedule p)) i tx (withSchedule tx.task s)) := by
  have hpid := scheduleSeen_plantId hs
  have htx' : TxOK rows (w.lock i (.schedule p)) i tx := htx.mono rfl rfl fun _ hmem => mem_lock.2 (.inl hmem)
  have hheld : Holds (w.lock i (.schedule p)) i s.plantId := hpid ▸ holds_lock w i p
  have hseen : (w.lock i (.schedule p)).scheduleSeen tx s.plantId = some s := hpid ▸ hs
  cases hd : withSchedule tx.task s with
  | none => exact inv_close (inv_lock h ha)
  | some pc =>
    refine inv_goto (inv_lock h ha) htx' ?_
    rcases withSchedule_ok hd with rfl | rfl | ⟨s', rfl, hid, hadv⟩
    · exact ⟨hheld, hseen⟩
    · trivial
    · exact ⟨hid ▸ hheld, s, hid ▸ hseen, hadv⟩

theorem withoutSchedule_ok {task : Task} {pc : Pc} (h : withoutSchedule task = some pc) : pc = .commit := by
  cases task with
  | telemetryReceived p moisture now => cases h; rfl
  | _ => cases h

theorem inv_nextExpired {p : PlantId} (h : Inv rows w) (htx : TxOK rows w i tx) {s s' : CareSchedule}
    (hs : w.scheduleSeen tx p = some s) (ha : w.available i (.schedule p) = true) (hadv : s' = advance s s'.nextWateringAt)
    {x : Care.MissedCareWindow} {expired : List Care.MissedCareWindow} :
    Inv rows (goto (w.lock i (.schedule p)) i tx (some (.saveMissed s' x expired))) := by
  have hid : s'.plantId = p := by
    rw [hadv]
    show s.plantId = p
    exact scheduleSeen_plantId hs
  have htx' : TxOK rows (w.lock i (.schedule p)) i tx := htx.mono rfl rfl fun _ hmem => mem_lock.2 (.inl hmem)
  refine inv_goto (inv_lock h ha) htx' ⟨?_, s, ?_, hadv⟩
  · rw [hid]
    exact holds_lock w i p
  · rw [hid]
    exact hs

/-- The listed schedule a tick is about to save. -/
def Pc.listed : Pc → Option CareSchedule
  | .saveDue _ s _ => some s
  | _ => none

/-- A tick that saves a listed schedule still sees the row it listed. -/
def Fresh (w : World) : Action → Prop
  | .execute i => ∀ tx ∈ w.txs i, ∀ s ∈ tx.pc.listed, w.scheduleSeen tx s.plantId = some s
  | _ => True

instance (w : World) : (a : Action) → Decidable (Fresh w a)
  | .execute i => inferInstanceAs (Decidable (∀ tx ∈ w.txs i, ∀ s ∈ tx.pc.listed, _))
  | .start _ _ | .giveUp _ => inferInstanceAs (Decidable True)

theorem inv_saveDue {plant : Plant} {s : CareSchedule} {due : List CareSchedule} {pc : Pc} (h : Inv rows w)
    (htx : TxOK rows w i tx) (hw : saved i pc (saveSchedule w i tx s) = some w') (hpc : tx.pc = .saveDue plant s due)
    (hf : ∀ s ∈ tx.pc.listed, w.scheduleSeen tx s.plantId = some s) (hfree : PcOK w i tx pc) : Inv rows w' := by
  have hseen : w.scheduleSeen tx s.plantId = some s := by
    apply hf
    rw [hpc]; rfl
  have hsave : saveSchedule w i tx s = some (w, tx) := by
    unfold saveSchedule save
    rw [if_pos hseen]
  rw [hsave] at hw
  cases hw
  exact inv_goto h htx hfree

theorem inv_execute (h : Inv rows w) (htx : TxOK rows w i tx)
    (hf : ∀ s ∈ tx.pc.listed, w.scheduleSeen tx s.plantId = some s) (hw : execute w i tx = some w') : Inv rows w' := by
  have hpc := htx.pc
  unfold execute at hw
  split at hw
  · -- `get_for_update`
    split at hw
    · cases hw
      cases hwo : withoutSchedule tx.task with
      | none => exact inv_close h
      | some pc =>
        rw [withoutSchedule_ok hwo]
        exact inv_goto h htx trivial
    · rename_i s hs
      split at hw
      · rename_i ha
        cases hw; exact inv_getForUpdate h htx hs ha
      · cases hw
  · -- the plant of the schedule read
    rename_i s heq
    rw [heq] at hpc
    split at hw
    · cases hw; exact inv_close h
    · rename_i plant hplant
      cases hw
      cases hwat : watered tx.task plant s with
      | none => exact inv_close h
      | some out =>
        obtain ⟨hid, hadv⟩ := watered_ok hwat
        exact inv_goto h htx ⟨hid ▸ hpc.1, s, hid ▸ hpc.2, hadv⟩
  · -- the save of a plant leaves the schedules alone, that of a schedule is of the one locked
    rename_i plant s heq
    rw [heq] at hpc
    exact inv_saved_other h htx hw rfl rfl hpc
  · rename_i s heq
    rw [heq] at hpc
    exact inv_saved_changed h htx hw hpc fun _ _ => trivial
  · -- the first loop of the tick writes the schedules it listed back as they are
    cases hw; exact inv_goto h htx trivial
  · cases hw; exact inv_goto h htx trivial
  · split at hw
    · cases hw; exact inv_goto h htx trivial
    · split at hw
      · cases hw; exact inv_close h
      · cases hw; exact inv_goto h htx trivial
  · rename_i heq
    exact inv_saveDue h htx hw heq hf trivial
  · exact inv_saved_other h htx hw rfl rfl trivial
  · -- the second loop reads each schedule under its lock
    cases hw; exact inv_goto h htx trivial
  · cases hw; exact inv_goto h htx trivial
  · rename_i x expired heq
    split at hw
    · cases hw; exact inv_goto h htx trivial
    · rename_i s hs
      split at hw
      · rename_i ha
        split at hw
        · cases hw; exact inv_close h
        · rename_i s' e hm
          cases hw; exact inv_nextExpired h htx hs ha (change_advance hm)
      · cases hw
  · rename_i s x expired heq
    rw [heq] at hpc
    exact inv_saved_changed h htx hw hpc fun _ _ => trivial
  · exact inv_saved_other h htx hw rfl rfl trivial
  · cases hw; exact inv_commit h htx

theorem inv_step {a : Action} (h : Inv rows w) (ha : Fresh w a) (hs : step w a = some w') : Inv rows w' := by
  cases a with
  | start j task =>
    simp only [step] at hs
    split at hs
    · cases hs
      refine inv_put h ⟨fun _ hx => (nomatch hx), fun _ hx => (nomatch hx), fun p => ?_, ?_⟩
      · show get CareSchedule.plantId w.schedules p = replay rows (w.log ++ []) p
        rw [List.append_nil]
        exact h.stored p
      · cases task <;> trivial
    · cases hs
  | execute j =>
    simp only [step] at hs
    split at hs
    · cases hs
    · rename_i t ht
      exact inv_execute h (h.txs j t ht) (ha t ht) hs
  | giveUp j =>
    cases hs; exact inv_close h

/-! ## Runs -/

theorem log_goto (pc : Option Pc) : (goto w i tx pc).log = w.log := by
  cases pc <;> rfl

theorem log_save {ρ : Type} [DecidableEq ρ] {r : Row} {seen : Option ρ} {row : ρ} {write tx₁ : Tx} {w₁ : World}
    (h : save w i r seen row write tx = some (w₁, tx₁)) : w₁.log = w.log := by
  rcases save_cases h with ⟨-, rfl, -⟩ | ⟨-, rfl, -⟩
  · rfl
  · rfl

theorem log_saved {out : Option (World × Tx)} {pc : Pc} (hout : ∀ w₁ tx₁, out = some (w₁, tx₁) → w₁.log = w.log)
    (h : saved i pc out = some w') : w'.log = w.log := by
  cases out with
  | none => cases h
  | some o =>
    obtain ⟨w₁, tx₁⟩ := o
    cases h
    rw [log_goto, hout w₁ tx₁ rfl]

theorem log_changed {s : CareSchedule} {w₁ : World} {tx₁ : Tx} (h : changed s (saveSchedule w i tx s) = some (w₁, tx₁)) :
    w₁.log = w.log := by
  cases hsave : saveSchedule w i tx s with
  | none =>
    rw [hsave] at h; cases h
  | some o =>
    obtain ⟨w₂, tx₂⟩ := o
    rw [hsave] at h
    cases h
    exact log_save hsave

/-- Only a commit writes the log. -/
theorem log_execute (h : execute w i tx = some w') : w'.log = w.log ∨ w' = w.commit i tx := by
  unfold execute at h
  split at h
  · split at h
    · cases h; exact .inl (log_goto _)
    · split at h
      · cases h; exact .inl (log_goto _)
      · cases h
  · split at h
    · cases h; exact .inl rfl
    · cases h; exact .inl (log_goto _)
  · exact .inl (log_saved (fun _ _ => log_save) h)
  · exact .inl (log_saved (fun _ _ => log_changed) h)
  · cases h; exact .inl rfl
  · cases h; exact .inl rfl
  · split at h
    · cases h; exact .inl rfl
    · split at h
      · cases h; exact .inl rfl
      · cases h; exact .inl rfl
  · exact .inl (log_saved (fun _ _ => log_save) h)
  · exact .inl (log_saved (fun _ _ => log_save) h)
  · cases h; exact .inl rfl
  · cases h; exact .inl rfl
  · split at h
    · cases h; exact .inl rfl
    · split at h
      · split at h
        · cases h; exact .inl rfl
        · cases h; exact .inl rfl
      · cases h
  · exact .inl (log_saved (fun _ _ => log_changed) h)
  · exact .inl (log_saved (fun _ _ => log_save) h)
  · cases h; exact .inr rfl

/-- The log only grows. -/
theorem log_step {a : Action} (hs : step w a = some w') : ∃ committed, w'.log = w.log ++ committed := by
  have same : w'.log = w.log → ∃ committed, w'.log = w.log ++ committed := fun h => ⟨[], by rw [h, List.append_nil]⟩
  cases a with
  | start j task =>
    simp only [step] at hs
    split at hs
    · cases hs; exact same rfl
    · cases hs
  | execute j =>
    simp only [step] at hs
    split at hs
    · cases hs
    · rename_i t ht
      rcases log_execute hs with hlog | rfl
      · exact same hlog
      · exact ⟨t.changes, rfl⟩
  | giveUp j =>
    cases hs; exact same rfl

theorem log_run {acts : List Action} {w₀ : World} (h : run step w acts = some w') (hw : ∃ committed, w.log = w₀.log ++ committed) :
    ∃ committed, w'.log = w₀.log ++ committed := by
  refine Run.inv (P := fun w => ∃ committed, w.log = w₀.log ++ committed) ?_ hw h
  rintro u a v ⟨c, hc⟩ hs
  obtain ⟨c', hc'⟩ := log_step hs
  exact ⟨c ++ c', by rw [hc', hc, List.append_assoc]⟩

/-- In every interleaving whose ticks save what they listed, and between any two of its states: every
committed change of a schedule raises its stored version by exactly one, nothing else changes it, and
the stored `next_watering_at` is the one set by the last committed change. -/
theorem no_lost_update (plants : List Plant) (schedules : List CareSchedule) (windows : List Care.MissedCareWindow)
    (before after : List Action) (w w' : World)
    (hm : Meets step Fresh (World.atRest plants schedules windows) (before ++ after))
    (h : run step (World.atRest plants schedules windows) before = some w) (h' : run step w after = some w')
    (p : PlantId) (s : CareSchedule) (hs : get CareSchedule.plantId w.schedules p = some s) :
    ∃ s' committed, get CareSchedule.plantId w'.schedules p = some s' ∧ w'.log = w.log ++ committed ∧
      s'.version = s.version + (changesOf committed p).length ∧
      s'.nextWateringAt = (changesOf committed p).getLastD s.nextWateringAt := by
  obtain ⟨hmb, hma⟩ := meets_append hm h
  have hw : Inv schedules w := inv_of_meets (fun _ _ _ => inv_step) (inv_atRest plants windows) hmb h
  have hw' : Inv schedules w' := inv_of_meets (fun _ _ _ => inv_step) hw hma h'
  obtain ⟨committed, hlog⟩ := log_run h' ⟨[], (List.append_nil _).symm⟩
  obtain ⟨hv, hn⟩ := foldl_advance (changesOf committed p) s
  refine ⟨(changesOf committed p).foldl advance s, committed, ?_, hlog, hv, hn⟩
  rw [hw'.stored p, hlog, replay_append, ← hw.stored p, hs, Option.map_some]

/-- A schedule that came due at the epoch, and its plant. -/
def stale : CareSchedule := { plantId := 1, wateringInterval := Care.everyTwoDays, nextWateringAt := 0, version := 1 }

def garden : World := World.atRest [.add 1 9] [stale] []

/-- A watering from its first statement to its commit. -/
def watering : List Action := .start 1 (.waterPlant 1 none (hours 25)) :: List.replicate 5 (.execute 1)

/-- The tick opens and escalates the window around a watering: it locks the schedule after it. -/
def interleaved : List Action :=
  .start 0 (.escalateOverdue (hours 25)) :: List.replicate 4 (.execute 0) ++ watering ++ List.replicate 7 (.execute 0)

theorem no_lost_update_interleaved : ∃ w', run step garden interleaved = some w' ∧
    ∃ s' committed, get CareSchedule.plantId w'.schedules 1 = some s' ∧ w'.log = [] ++ committed ∧
      s'.version = 1 + (changesOf committed 1).length ∧ s'.nextWateringAt = (changesOf committed 1).getLastD 0 :=
  ⟨(run step garden interleaved).get (by decide), (Option.some_get _).symm,
    no_lost_update [.add 1 9] [stale] [] [] interleaved garden _ (by decide) rfl (Option.some_get _).symm 1 stale rfl⟩

/-- The watering commits between the tick's list and its save. -/
def overwritten : List Action :=
  .start 0 (.escalateOverdue (hours 25)) :: List.replicate 2 (.execute 0) ++ watering ++ List.replicate 9 (.execute 0)

theorem watering_overwritten :
    ¬ ∀ (plants : List Plant) (schedules : List CareSchedule) (windows : List Care.MissedCareWindow)
      (before after : List Action) (w w' : World),
      run step (World.atRest plants schedules windows) before = some w → run step w after = some w' →
      ∀ (p : PlantId) (s : CareSchedule), get CareSchedule.plantId w.schedules p = some s →
      ∃ s' committed, get CareSchedule.plantId w'.schedules p = some s' ∧ w'.log = w.log ++ committed ∧
        s'.version = s.version + (changesOf committed p).length ∧
        s'.nextWateringAt = (changesOf committed p).getLastD s.nextWateringAt := by
  intro h
  obtain ⟨s', committed, hs', hlog, hv, -⟩ := h [.add 1 9] [stale] [] [] overwritten garden
    ((run step garden overwritten).get (by decide)) rfl (Option.some_get _).symm 1 stale rfl
  have hversion : (get CareSchedule.plantId ((run step garden overwritten).get (by decide)).schedules 1).map
      CareSchedule.version = some 2 := by decide
  have hchanges : changesOf ((run step garden overwritten).get (by decide)).log 1 = [hours 73, days 2] := by decide
  rw [hs', Option.map_some, Option.some.injEq, hv] at hversion
  rw [hlog] at hchanges
  have hlen : (changesOf committed 1).length = 2 := congrArg List.length hchanges
  rw [hlen] at hversion
  revert hversion
  decide

end Plantkeeper.Concurrency
