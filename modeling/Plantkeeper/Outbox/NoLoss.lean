/-
The outbox loses nothing, and its batches respect the partition keys. Over every run of any number
of relays, a row is marked published only after the broker accepted it on its topic and marked
dead-lettered only after the broker accepted its copy; and a poll returns at most one row of each
key, the oldest committed one that still waits.
-/
import Mathlib.Data.List.Nodup
import Plantkeeper.Outbox.Relay

namespace Plantkeeper.Outbox

open Plantkeeper.Run

variable {π : Type}

/-! ## The frozen columns -/

/-- The row and the message are about the same event: the columns no update touches agree. -/
def Row.Same (r m : Row π) : Prop :=
  r.id = m.id ∧ r.topic = m.topic ∧ r.partitionKey = m.partitionKey ∧ r.body = m.body

theorem Row.Same.refl (r : Row π) : r.Same r := ⟨rfl, rfl, rfl, rfl⟩

/-- The message is of a stored row. -/
def Stored (rows : List (Row π)) (m : Row π) : Prop := ∃ r ∈ rows, r.Same m

theorem apply_same (now : Instant) (c : Change) (r m : Row π) : (c.apply now r).Same m ↔ r.Same m := by
  cases c <;> rfl

theorem apply_id (now : Instant) (c : Change) (r : Row π) : (c.apply now r).id = r.id := by
  cases c <;> rfl

theorem update_ids (now : Instant) (rows : List (Row π)) (u : ℕ × Change) :
    (update now rows u).map (·.id) = rows.map (·.id) :=
  Table.map_update fun r _ _ => apply_id now u.2 r

theorem mem_update {now : Instant} {rows : List (Row π)} {u : ℕ × Change} {r : Row π} (h : r ∈ update now rows u) :
    (∃ r₀ ∈ rows, r₀.id = u.1 ∧ r = u.2.apply now r₀) ∨ r ∈ rows := by
  rcases Table.mem_update h with ⟨r₀, h0, hp, hr⟩ | ⟨h0, -⟩
  · exact .inl ⟨r₀, h0, beq_iff_eq.1 hp, hr⟩
  · exact .inr h0

theorem stored_update {now : Instant} {rows : List (Row π)} {u : ℕ × Change} {m : Row π} (h : Stored rows m) :
    Stored (update now rows u) m := by
  obtain ⟨r, hr, hm⟩ := h
  rcases Table.mem_update_of_mem (p := fun r => r.id == u.1) (f := u.2.apply now) hr with ⟨-, h0⟩ | ⟨-, h0⟩
  · exact ⟨_, h0, (apply_same now u.2 r m).2 hm⟩
  · exact ⟨r, h0, hm⟩

theorem stored_foldl {now : Instant} {m : Row π} : ∀ {us : List (ℕ × Change)} {rows : List (Row π)},
    Stored rows m → Stored (us.foldl (update now) rows) m
  | [], _, h => h
  | u :: us, rows, h => by
    rw [List.foldl_cons]
    exact stored_foldl (stored_update h)

/-- What an update leaves of a row: its frozen columns, and that it stopped waiting. -/
structure Row.Later (r r' : Row π) : Prop where
  same : r.Same r'
  deadLettered : r.deadLetteredAt ≠ none → r'.deadLetteredAt ≠ none
  settled : r.stillPending = false → r'.stillPending = false

theorem Row.Later.refl (r : Row π) : r.Later r := ⟨Row.Same.refl r, fun h => h, fun h => h⟩

theorem later_apply (now : Instant) (c : Change) (r : Row π) : r.Later (c.apply now r) := by
  constructor
  · cases c <;> exact Row.Same.refl r
  · cases c with
    | deadLetter error => intro _ h; cases h
    | _ => exact id
  · cases c <;> simp [Change.apply, Row.stillPending]

/-! ## Outcomes and rows -/

section

variable (accepted deadLetters : List (Row π))

/-- The broker's answer an outcome update rests on. -/
def Heard (rows : List (Row π)) : ℕ × Change → Prop
  | (id, .markPublished) => ∃ m ∈ accepted, m.id = id ∧ Stored rows m
  | (id, .deadLetter _) => ∃ m ∈ deadLetters, m.id = id ∧ Stored rows m
  | _ => True

/-- Ids are unique, and every row that stopped waiting was accepted before. -/
structure RowsOK (rows : List (Row π)) : Prop where
  ids : (rows.map (·.id)).Nodup
  published : ∀ r ∈ rows, r.publishedAt ≠ none → ∃ m ∈ accepted, r.Same m
  deadLettered : ∀ r ∈ rows, r.deadLetteredAt ≠ none → ∃ m ∈ deadLetters, r.Same m

variable {accepted deadLetters}

theorem heard_mono {rows rows' : List (Row π)} {acc' dead' : List (Row π)} {u : ℕ × Change}
    (hs : ∀ m, Stored rows m → Stored rows' m) (ha : accepted ⊆ acc') (hd : deadLetters ⊆ dead')
    (h : Heard accepted deadLetters rows u) : Heard acc' dead' rows' u := by
  obtain ⟨id, c⟩ := u
  cases c with
  | markPublished =>
    obtain ⟨m, hm, hid, hst⟩ := h
    exact ⟨m, ha hm, hid, hs m hst⟩
  | deadLetter error =>
    obtain ⟨m, hm, hid, hst⟩ := h
    exact ⟨m, hd hm, hid, hs m hst⟩
  | claim => trivial
  | recordFailure error => trivial
  | releaseClaim => trivial

/-- The stored row of a message is the row with its id. -/
theorem same_of_id {rows : List (Row π)} (hids : (rows.map (·.id)).Nodup) {r m : Row π} (hr : r ∈ rows)
    (hm : Stored rows m) (hid : m.id = r.id) : r.Same m := by
  obtain ⟨r', hr', hs⟩ := hm
  have : r' = r := List.inj_on_of_nodup_map hids hr' hr (hs.1.trans hid)
  exact this ▸ hs

theorem rowsOK_update {now : Instant} {rows : List (Row π)} {u : ℕ × Change} (h : RowsOK accepted deadLetters rows)
    (hu : Heard accepted deadLetters rows u) : RowsOK accepted deadLetters (update now rows u) := by
  obtain ⟨id, c⟩ := u
  refine ⟨by rw [update_ids]; exact h.ids, fun r hr hp => ?_, fun r hr hp => ?_⟩
  · rcases mem_update hr with ⟨r₀, h0, hid, rfl⟩ | h0
    · cases c with
      | markPublished =>
        obtain ⟨m, hm, hmid, hst⟩ := hu
        exact ⟨m, hm, (apply_same now _ r₀ m).2 (same_of_id h.ids h0 hst (hmid.trans hid.symm))⟩
      | _ => exact h.published r₀ h0 hp
    · exact h.published r h0 hp
  · rcases mem_update hr with ⟨r₀, h0, hid, rfl⟩ | h0
    · cases c with
      | deadLetter error =>
        obtain ⟨m, hm, hmid, hst⟩ := hu
        exact ⟨m, hm, (apply_same now _ r₀ m).2 (same_of_id h.ids h0 hst (hmid.trans hid.symm))⟩
      | _ => exact h.deadLettered r₀ h0 hp
    · exact h.deadLettered r h0 hp

/-- A commit applies its staged updates one after another, each resting on its own answer. -/
theorem rowsOK_foldl {now : Instant} : ∀ {us : List (ℕ × Change)} {rows : List (Row π)},
    RowsOK accepted deadLetters rows → (∀ u ∈ us, Heard accepted deadLetters rows u) →
    RowsOK accepted deadLetters (us.foldl (update now) rows)
  | [], _, h, _ => h
  | u :: us, rows, h, hu => by
    rw [List.foldl_cons]
    refine rowsOK_foldl (rowsOK_update h (hu u (List.mem_cons_self ..))) fun v hv => ?_
    exact heard_mono (fun m => stored_update) (List.Subset.refl _) (List.Subset.refl _)
      (hu v (List.mem_cons_of_mem _ hv))

end

/-! ## The batch law -/

/-- A message of a batch is a committed row that waits, with no older row of its key waiting. -/
theorem mem_fetchUnpublished {rows : List (Row π)} {locked : List ℕ} {now : Instant} {limit lease : ℕ} {m : Row π}
    (h : m ∈ fetchUnpublished rows locked now limit lease) :
    ∃ r ∈ rows, r.Same m ∧ r.stillPending = true ∧ blocked rows r = false ∧
      r.leaseExpired lease now = true ∧ r.id ∉ locked := by
  obtain ⟨r, hr, rfl⟩ := List.mem_map.1 h
  have hr := (List.mem_insertionSort _).1 (List.mem_of_mem_take (List.mem_filter.1 hr).1)
  obtain ⟨hmem, hp⟩ := List.mem_filter.1 hr
  simp only [Bool.and_eq_true, Bool.not_eq_true', decide_eq_true_eq] at hp
  obtain ⟨⟨⟨h1, h2⟩, h3⟩, h4⟩ := hp
  exact ⟨r, hmem, ⟨rfl, rfl, rfl, rfl⟩, h1, h2, h3, h4⟩

theorem oldest_of_not_blocked {rows : List (Row π)} {r p : Row π} (hb : blocked rows r = false) (hp : p ∈ rows)
    (hk : p.partitionKey = r.partitionKey) (hw : p.stillPending = true) : r.id ≤ p.id := by
  by_contra hlt
  have : blocked rows r = true := by
    unfold blocked
    rw [List.any_eq_true]
    exact ⟨p, hp, by simp [hk, hw, Nat.lt_of_not_le hlt]⟩
  rw [hb] at this; cases this

/-- The selection keeps ids distinct. -/
theorem fetchUnpublished_ids {rows : List (Row π)} (hids : (rows.map (·.id)).Nodup) (locked : List ℕ)
    (now : Instant) (limit lease : ℕ) :
    ((fetchUnpublished rows locked now limit lease).map (·.id)).Nodup := by
  unfold fetchUnpublished
  rw [List.map_map]
  refine List.Nodup.sublist (List.filter_sublist.map _) (List.Nodup.sublist ((List.take_sublist _ _).map _) ?_)
  refine ((List.perm_insertionSort _ _).map _).nodup_iff.2 ?_
  exact hids.sublist (List.filter_sublist.map _)

/-- Two rows of a batch with one key would block one another. -/
theorem fetchUnpublished_keys {rows : List (Row π)} (hids : (rows.map (·.id)).Nodup) (locked : List ℕ)
    (now : Instant) (limit lease : ℕ) :
    ((fetchUnpublished rows locked now limit lease).map (·.partitionKey)).Nodup := by
  have hid := fetchUnpublished_ids hids locked now limit lease
  refine List.Nodup.map_on (fun a ha b hb hk => ?_) (List.Nodup.of_map _ hid)
  -- two rows of one key: each is the oldest of it, so they are one
  obtain ⟨r, hr, ⟨hri, -, hrk, -⟩, hrp, hrb, -⟩ := mem_fetchUnpublished ha
  obtain ⟨q, hq, ⟨hqi, -, hqk, -⟩, hqp, hqb, -⟩ := mem_fetchUnpublished hb
  have hkey : q.partitionKey = r.partitionKey := hqk.trans (hk.symm.trans hrk.symm)
  have h1 := oldest_of_not_blocked hrb hq hkey hqp
  have h2 := oldest_of_not_blocked hqb hr hkey.symm hrp
  exact List.inj_on_of_nodup_map hid ha hb (by omega)

/-! ## The invariant of the relays -/

/-- A session delivers stored rows, and every outcome it staged was heard from the broker. -/
structure SessionOK (w : World π) (x : Session π) : Prop where
  messages : ∀ m ∈ x.messages, Stored w.rows m
  staged : ∀ u ∈ x.staged, Heard w.accepted w.deadLetters w.rows u

structure Inv (w : World π) : Prop where
  rows : RowsOK w.accepted w.deadLetters w.rows
  sessions : ∀ i x, w.relays i = some x → SessionOK w x

/-- What a session relies on is never taken back. -/
structure Grows (w w' : World π) : Prop where
  rows : ∀ m, Stored w.rows m → Stored w'.rows m
  accepted : w.accepted ⊆ w'.accepted
  deadLetters : w.deadLetters ⊆ w'.deadLetters

theorem SessionOK.mono {w w' : World π} {x : Session π} (h : SessionOK w x) (g : Grows w w') : SessionOK w' x :=
  ⟨fun m hm => g.rows m (h.messages m hm),
    fun u hu => heard_mono g.rows g.accepted g.deadLetters (h.staged u hu)⟩

theorem Grows.refl (w : World π) : Grows w w :=
  ⟨fun _ h => h, List.Subset.refl _, List.Subset.refl _⟩

/-- One relay moves to a session that is in order, in a world that only grew. -/
theorem inv_setRelay {w w' : World π} {i : ℕ} {x : Option (Session π)} (h : Inv w) (g : Grows w w')
    (hr : RowsOK w'.accepted w'.deadLetters w'.rows) (hrel : w'.relays = w.relays)
    (hx : ∀ y, x = some y → SessionOK w' y) : Inv (w'.setRelay i x) := by
  refine ⟨hr, fun j y hy => ?_⟩
  simp only [World.setRelay] at hy
  split at hy
  · exact ⟨(hx y hy).messages, (hx y hy).staged⟩
  · rw [hrel] at hy
    exact (h.sessions j y hy).mono ⟨g.rows, g.accepted, g.deadLetters⟩

theorem rowsOK_mono {acc acc' dead dead' rows : List (Row π)} (ha : acc ⊆ acc') (hd : dead ⊆ dead')
    (h : RowsOK acc dead rows) : RowsOK acc' dead' rows :=
  ⟨h.ids, fun r hr hp => (h.published r hr hp).imp fun _ hm => ⟨ha hm.1, hm.2⟩,
    fun r hr hp => (h.deadLettered r hr hp).imp fun _ hm => ⟨hd hm.1, hm.2⟩⟩

theorem grows_accept (w : World π) (taken : Bool) (m : Row π) : Grows w (w.accept taken m) := by
  unfold World.accept
  split
  · exact ⟨fun _ h => h, List.subset_append_left _ _, List.Subset.refl _⟩
  · exact Grows.refl w

theorem grows_acceptDeadLetter (w : World π) (taken : Bool) (m : Row π) : Grows w (w.acceptDeadLetter taken m) := by
  unfold World.acceptDeadLetter
  split
  · exact ⟨fun _ h => h, List.Subset.refl _, List.subset_append_left _ _⟩
  · exact Grows.refl w

/-- An outcome is recorded once the broker's answer it rests on is there. -/
theorem sessionOK_record {w w' : World π} {x : Session π} {m : Row π} {c : Change} (hx : SessionOK w x)
    (g : Grows w w') (hc : Heard w'.accepted w'.deadLetters w'.rows (m.id, c)) :
    SessionOK w' (x.record w.now m.id c) := by
  refine ⟨(hx.mono g).messages, fun u hu => ?_⟩
  rcases List.mem_append.1 hu with hu | hu
  · exact (hx.mono g).staged u hu
  · rcases List.mem_cons.1 hu with rfl | hu
    · exact hc
    · rw [List.mem_singleton] at hu
      subst hu; trivial

theorem inv_empty : Inv (World.empty : World π) :=
  ⟨⟨List.nodup_nil, fun _ h => (nomatch h), fun _ h => (nomatch h)⟩, fun _ _ h => (nomatch h)⟩

theorem inv_fetch {cfg : Settings} {w : World π} (h : Inv w) (i : ℕ) (skipped : List ℕ) :
    Inv (fetch cfg w i skipped) := by
  unfold fetch
  simp only
  split
  · exact h
  · refine inv_setRelay h ⟨fun _ h => h, List.Subset.refl _, List.Subset.refl _⟩ h.rows rfl fun y hy => ?_
    cases hy
    refine ⟨fun m hm => ?_, fun u hu => ?_⟩
    · obtain ⟨r, hr, hs, -⟩ := mem_fetchUnpublished hm
      exact ⟨r, hr, hs⟩
    · obtain ⟨m, -, rfl⟩ := List.mem_map.1 hu
      trivial

theorem inv_publish {cfg : Settings} {w : World π} {i : ℕ} {x : Session π} {m : Row π} (h : Inv w)
    (hx : w.relays i = some x) (hm : m ∈ x.messages) (failures : ℕ) (answer : Answer) :
    Inv (publish cfg w i x m failures answer) := by
  have hxo := h.sessions i x hx
  cases answer with
  | ok =>
    have g := grows_accept w true m
    refine inv_setRelay h g (rowsOK_mono g.accepted g.deadLetters h.rows) rfl fun y hy => ?_
    cases hy
    exact sessionOK_record hxo g ⟨m, List.mem_append_right _ (List.mem_singleton.2 rfl), rfl, hxo.messages m hm⟩
  | error taken text =>
    have g := grows_accept w taken m
    obtain ⟨-, hrows, hrelays, -⟩ := accept_frame w taken m
    refine inv_setRelay h g ?_ hrelays fun y hy => ?_
    · rw [hrows]; exact rowsOK_mono g.accepted g.deadLetters h.rows
    · simp only [Option.some.injEq] at hy
      subst hy
      -- a refused message is tried again, counted, or passed on as a dead letter: nothing rests on it
      split
      · exact ⟨(hxo.mono g).messages, (hxo.mono g).staged⟩
      · split
        · exact sessionOK_record hxo g trivial
        · exact ⟨(hxo.mono g).messages, (hxo.mono g).staged⟩

theorem inv_publishDeadLetter {w : World π} {i : ℕ} {x : Session π} {m : Row π} (h : Inv w)
    (hx : w.relays i = some x) (hm : m ∈ x.messages) (error : String) (answer : Answer) :
    Inv (publishDeadLetter w i x m error answer) := by
  have hxo := h.sessions i x hx
  cases answer with
  | ok =>
    have g := grows_acceptDeadLetter w true m
    refine inv_setRelay h g (rowsOK_mono g.accepted g.deadLetters h.rows) rfl fun y hy => ?_
    cases hy
    exact sessionOK_record hxo g ⟨m, List.mem_append_right _ (List.mem_singleton.2 rfl), rfl, hxo.messages m hm⟩
  | error taken text =>
    have g := grows_acceptDeadLetter w taken m
    obtain ⟨-, hrows, hrelays, -⟩ := acceptDeadLetter_frame w taken m
    refine inv_setRelay h g ?_ hrelays fun y hy => ?_
    · rw [hrows]; exact rowsOK_mono g.accepted g.deadLetters h.rows
    · cases hy
      exact sessionOK_record hxo g trivial

theorem inv_commit {w : World π} {i : ℕ} {x : Session π} {m : Row π} {rest : List (Row π)} (h : Inv w)
    (hx : w.relays i = some x) (hm : x.messages = m :: rest) : Inv (commit w i x rest) := by
  have hxo := h.sessions i x hx
  have g : Grows w ({ w with rows := x.staged.foldl (update (x.began.getD w.now)) w.rows }.unlock i) :=
    ⟨fun m => stored_foldl, List.Subset.refl _, List.Subset.refl _⟩
  refine inv_setRelay h g (rowsOK_foldl h.rows hxo.staged) rfl fun y hy => ?_
  split at hy
  · cases hy
  · cases hy
    exact ⟨fun m' hm' => g.rows m' (hxo.messages m' (hm ▸ List.mem_cons_of_mem _ hm')), fun _ hu => nomatch hu⟩

theorem inv_stop {w : World π} (h : Inv w) (i : ℕ) : Inv ((w.unlock i).setRelay i none) := by
  have g : Grows w (w.unlock i) := ⟨fun _ h => h, List.Subset.refl _, List.Subset.refl _⟩
  exact inv_setRelay h g h.rows rfl fun _ hy => nomatch hy

/-- A writer's row starts pending and unclaimed. -/
theorem inv_write {w : World π} (h : Inv w) {id : ℕ} (hid : id ∉ w.rows.map (·.id)) (topic key : String) (body : π) :
    Inv { w with rows := w.rows ++ [⟨id, topic, key, body, 0, none, none, none, none⟩] } := by
  refine ⟨⟨?_, fun r hr hp => ?_, fun r hr hp => ?_⟩, fun j y hy => (h.sessions j y hy).mono
    ⟨fun m hm => hm.imp fun r hr => ⟨List.mem_append_left _ hr.1, hr.2⟩, List.Subset.refl _, List.Subset.refl _⟩⟩
  · exact Table.nodup_insert h.rows.ids hid
  · rcases List.mem_append.1 hr with hr | hr
    · exact h.rows.published r hr hp
    · rw [List.mem_singleton] at hr
      subst hr; exact absurd rfl hp
  · rcases List.mem_append.1 hr with hr | hr
    · exact h.rows.deadLettered r hr hp
    · rw [List.mem_singleton] at hr
      subst hr; exact absurd rfl hp

theorem inv_step {cfg : Settings} {w w' : World π} {a : Action π} (h : Inv w) (ht : step cfg w a = some w') :
    Inv w' := by
  cases step_move ht with
  | advance d =>
    exact ⟨h.rows, fun j y hy => (h.sessions j y hy).mono ⟨fun _ h => h, List.Subset.refl _, List.Subset.refl _⟩⟩
  | write topic key body hid => exact inv_write h hid topic key body
  | fetch skipped hx => exact inv_fetch h _ skipped
  | publish answer hx hm hp => exact inv_publish h hx (hm ▸ List.mem_cons_self ..) _ answer
  | publishDeadLetter answer hx hm hp => exact inv_publishDeadLetter h hx (hm ▸ List.mem_cons_self ..) _ answer
  | commit hx hm hp hl => exact inv_commit h hx hm
  | fail hx hm hp => exact inv_stop h _
  | crash i => exact inv_stop h i

/-! ## The outbox loses nothing -/

/-- In every state any number of writers and relays reach, a row that no longer waits was accepted
by the broker on its topic or as its dead-letter copy; and whatever a poll then returns has pairwise
distinct partition keys, each message the lowest-id committed row of its key that still waits. -/
theorem outbox_loses_nothing (cfg : Settings) {acts : List (Action π)} {w : World π}
    (h : run (step cfg) World.empty acts = some w) :
    (∀ r ∈ w.rows, r.stillPending = false →
      (∃ m ∈ w.accepted, r.Same m) ∨ (∃ m ∈ w.deadLetters, r.Same m)) ∧
    ∀ skipped : List ℕ,
      let batch := fetchUnpublished w.rows (w.locks.map (·.2) ++ skipped) w.now cfg.batchSize cfg.leaseSeconds
      (batch.map (·.partitionKey)).Nodup ∧
      ∀ m ∈ batch, ∃ r ∈ w.rows, r.Same m ∧ r.stillPending = true ∧
        ∀ p ∈ w.rows, p.partitionKey = m.partitionKey → p.stillPending = true → m.id ≤ p.id := by
  have hinv : Inv w := inv (fun w a w' => inv_step) inv_empty h
  refine ⟨fun r hr hp => ?_, fun skipped => ⟨fetchUnpublished_keys hinv.rows.ids _ _ _ _, fun m hm => ?_⟩⟩
  · -- a row stops waiting in one of two ways, and each was heard from the broker
    unfold Row.stillPending at hp
    rw [Bool.and_eq_false_iff] at hp
    rcases hp with hp | hp
    · exact .inl (hinv.rows.published r hr (by intro h0; rw [h0] at hp; cases hp))
    · exact .inr (hinv.rows.deadLettered r hr (by intro h0; rw [h0] at hp; cases hp))
  · obtain ⟨r, hr, hs, hp, hb, -⟩ := mem_fetchUnpublished hm
    refine ⟨r, hr, hs, hp, fun p hpm hk hw => ?_⟩
    rw [← hs.1]
    exact oldest_of_not_blocked hb hpm (hk.trans hs.2.2.1.symm) hw

def settings : Settings := ⟨100, 60, 3⟩

/-- Two events of one plant; a relay delivers the older one. -/
def delivered : List (Action Unit) :=
  [.write 1 "care.events" "fern" (), .write 2 "care.events" "fern" (), .fetch 0 [], .publish 0 .ok, .commit 0 true]

/-- The row the relay marked was taken by the broker; the younger one is next in line. -/
theorem outbox_loses_nothing_delivered :
    ∃ w, run (step settings) World.empty delivered = some w ∧
      (∃ m ∈ w.accepted, m.id = 1) ∧
      ((fetchUnpublished w.rows (w.locks.map (·.2) ++ []) w.now settings.batchSize settings.leaseSeconds).map
        (·.partitionKey)).Nodup := by
  have hrun : run (step settings) World.empty delivered =
      some ((run (step settings) World.empty delivered).get (by decide)) := (Option.some_get _).symm
  refine ⟨_, hrun, ?_, ((outbox_loses_nothing settings hrun).2 []).1⟩
  have hmem : ∃ r ∈ ((run (step settings) World.empty delivered).get (by decide)).rows,
      r.id = 1 ∧ r.stillPending = false := by decide
  obtain ⟨r, hr, hid, hp⟩ := hmem
  rcases (outbox_loses_nothing settings hrun).1 r hr hp with ⟨m, hm, hs⟩ | ⟨m, hm, -⟩
  · exact ⟨m, hm, hs.1.symm.trans hid⟩
  · exact absurd hm (by simp [show ((run (step settings) World.empty delivered).get (by decide)).deadLetters = [] from rfl])

end Plantkeeper.Outbox
