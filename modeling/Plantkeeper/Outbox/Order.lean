/-
Order within a partition key. The barrier of a poll looks at the rows committed at that moment, so it
orders the first publications of a key only where no older row of the key becomes visible behind it,
and only where no relay still publishes a row that another relay has given up on. Over every run whose
steps keep to that, the first publications of a key follow the ids.
-/
import Plantkeeper.Outbox.NoLoss

namespace Plantkeeper.Outbox

open Plantkeeper.Run

variable {π : Type}

/-! ## First publications -/

/-- The broker took the row on its topic. -/
def Taken (accepted : List (Row π)) (id : ℕ) : Prop := ∃ q ∈ accepted, q.id = id

instance (accepted : List (Row π)) (id : ℕ) : Decidable (Taken accepted id) :=
  inferInstanceAs (Decidable (∃ q ∈ accepted, q.id = id))

/-- Where in the broker's log the row first stands. -/
def firstPublication (accepted : List (Row π)) (id : ℕ) : ℕ := accepted.findIdx fun q => q.id == id

/-- Of two published rows of one key, the one with the lower id was published first. -/
def InOrder (w : World π) : Prop :=
  ∀ r ∈ w.rows, ∀ s ∈ w.rows, r.partitionKey = s.partitionKey → r.id < s.id →
    Taken w.accepted r.id → Taken w.accepted s.id →
    firstPublication w.accepted r.id < firstPublication w.accepted s.id

instance (w : World π) : Decidable (InOrder w) :=
  inferInstanceAs (Decidable (∀ r ∈ w.rows, ∀ s ∈ w.rows, _ → _ → _ → _ → _))

theorem firstPublication_lt {accepted : List (Row π)} {id : ℕ} (h : Taken accepted id) :
    firstPublication accepted id < accepted.length := by
  obtain ⟨q, hq, hid⟩ := h
  exact List.findIdx_lt_length_of_exists ⟨q, hq, beq_iff_eq.2 hid⟩

/-- A publication later in the log moves no first publication. -/
theorem firstPublication_append {accepted : List (Row π)} {id : ℕ} (m : Row π) (h : Taken accepted id) :
    firstPublication (accepted ++ [m]) id = firstPublication accepted id := by
  unfold firstPublication
  rw [List.findIdx_append, if_pos]
  exact firstPublication_lt h

theorem firstPublication_new {accepted : List (Row π)} (m : Row π) (h : ¬ Taken accepted m.id) :
    firstPublication (accepted ++ [m]) m.id = accepted.length := by
  have hnone : ∀ q ∈ accepted, (q.id == m.id) = false := by
    intro q hq
    rw [beq_eq_false_iff_ne]
    intro hid
    exact h ⟨q, hq, hid⟩
  unfold firstPublication
  rw [List.findIdx_append, List.findIdx_eq_length_of_false hnone]
  simp

theorem taken_append {accepted : List (Row π)} {m : Row π} {id : ℕ} :
    Taken (accepted ++ [m]) id ↔ Taken accepted id ∨ m.id = id := by
  unfold Taken
  constructor
  · rintro ⟨q, hq, hid⟩
    rcases List.mem_append.1 hq with hq | hq
    · exact .inl ⟨q, hq, hid⟩
    · rw [List.mem_singleton] at hq
      subst hq; exact .inr hid
  · rintro (⟨q, hq, hid⟩ | hid)
    · exact ⟨q, List.mem_append_left _ hq, hid⟩
    · exact ⟨m, List.mem_append_right _ (List.mem_singleton.2 rfl), hid⟩

/-! ## The steps the barrier covers -/

/-- No older row of the message's key still waits. -/
def Clear (rows : List (Row π)) (m : Row π) : Prop :=
  ∀ p ∈ rows, p.partitionKey = m.partitionKey → p.id < m.id → p.stillPending = false

/-- The broker took a younger row of the key. -/
def Overtaken (w : World π) (key : String) (id : ℕ) : Prop :=
  ∃ s ∈ w.rows, s.partitionKey = key ∧ id < s.id ∧ Taken w.accepted s.id

instance (w : World π) (key : String) (id : ℕ) : Decidable (Overtaken w key id) :=
  inferInstanceAs (Decidable (∃ s ∈ w.rows, s.partitionKey = key ∧ id < s.id ∧ Taken w.accepted s.id))

/-- The row was given up: its copy is on the dead-letter topic and it is not published any more. -/
def Abandoned (rows : List (Row π)) (id : ℕ) : Prop := ∃ r ∈ rows, r.id = id ∧ r.deadLetteredAt ≠ none

instance (rows : List (Row π)) (id : ℕ) : Decidable (Abandoned rows id) :=
  inferInstanceAs (Decidable (∃ r ∈ rows, r.id = id ∧ r.deadLetteredAt ≠ none))

/-- A transaction commits its row before a younger one of the key is in a relay's batch or published;
and the broker takes no message for the first time whose row was abandoned while a younger one of the
key went out. -/
def InTurn (w : World π) : Action π → Prop
  | .write id _ key _ =>
    ¬ Overtaken w key id ∧ ∀ i x, w.relays i = some x → ∀ m ∈ x.messages, m.partitionKey = key → m.id ≤ id
  | .publish i answer =>
    match w.relays i with
    | some x =>
      match x.messages with
      | m :: _ => answer.taken = true → Abandoned w.rows m.id → ¬ Overtaken w m.partitionKey m.id ∨ Taken w.accepted m.id
      | [] => True
    | none => True
  | _ => True

/-- Where no row was abandoned every publish is in turn. -/
theorem inTurn_publish {w : World π} (h : ∀ r ∈ w.rows, r.deadLetteredAt = none) (i : ℕ) (answer : Answer) :
    InTurn w (.publish i answer) := by
  simp only [InTurn]
  split
  · split
    · rintro - ⟨r, hr, -, hd⟩
      exact absurd (h r hr) hd
    · trivial
  · trivial

/-! ## The invariant -/

theorem later_foldl {now : Instant} : ∀ {us : List (ℕ × Change)} {rows : List (Row π)} {r' : Row π},
    r' ∈ us.foldl (update now) rows → ∃ r ∈ rows, r.Later r'
  | [], _, r', h => ⟨r', h, Row.Later.refl r'⟩
  | u :: us, rows, r', h => by
    have htail : r' ∈ us.foldl (update now) (update now rows u) := h
    obtain ⟨r, hr, hl⟩ := later_foldl htail
    rcases mem_update hr with ⟨r₀, h0, -, rfl⟩ | h0
    · have hu := later_apply now u.2 r₀
      refine ⟨r₀, h0, ?_, hl.deadLettered ∘ hu.deadLettered, hl.settled ∘ hu.settled⟩
      exact (apply_same now u.2 r₀ r').1 hl.same
    · exact ⟨r, h0, hl⟩

theorem foldl_ids (now : Instant) : ∀ (us : List (ℕ × Change)) (rows : List (Row π)),
    (us.foldl (update now) rows).map (·.id) = rows.map (·.id)
  | [], _ => rfl
  | u :: us, rows => by
    rw [List.foldl_cons, foldl_ids now us, update_ids]

/-- What the relays publish is stored and in order; a message in a batch has nothing of its key
waiting before it; and a row that was overtaken without ever being published was abandoned. -/
structure Ordered (w : World π) : Prop where
  stored : ∀ q ∈ w.accepted, q.id ∈ w.rows.map (·.id)
  inOrder : InOrder w
  clear : ∀ i x, w.relays i = some x → ∀ m ∈ x.messages, Clear w.rows m
  overtaken : ∀ r ∈ w.rows, Overtaken w r.partitionKey r.id → Taken w.accepted r.id ∨ r.deadLetteredAt ≠ none

theorem ordered_empty : Ordered (World.empty : World π) := by
  refine ⟨?_, ?_, ?_, ?_⟩
  · intro q hq; cases hq
  · intro r hr; cases hr
  · intro i x hx; cases hx
  · intro r hr; cases hr

theorem clear_later {rows rows' : List (Row π)} {m : Row π} (hr : ∀ r' ∈ rows', ∃ r ∈ rows, r.Later r')
    (h : Clear rows m) : Clear rows' m := by
  intro p hp hk hid
  obtain ⟨r, hmem, hl⟩ := hr p hp
  apply hl.settled
  apply h r hmem
  · exact hl.same.2.2.1.trans hk
  · rw [hl.same.1]; exact hid

/-- A step that publishes nothing and adds no row: rows may settle and batches change hands. -/
theorem ordered_of_later {w w' : World π} (h : Ordered w) (ha : w'.accepted = w.accepted)
    (hids : w'.rows.map (·.id) = w.rows.map (·.id)) (hr : ∀ r' ∈ w'.rows, ∃ r ∈ w.rows, r.Later r')
    (hs : ∀ i x, w'.relays i = some x → ∀ m ∈ x.messages, Clear w.rows m) : Ordered w' := by
  refine ⟨?_, ?_, ?_, ?_⟩
  · rw [ha, hids]; exact h.stored
  · intro r' hr' s' hs' hk hlt hta htb
    obtain ⟨r, hrm, hrl⟩ := hr r' hr'
    obtain ⟨s, hsm, hsl⟩ := hr s' hs'
    rw [ha] at hta htb ⊢
    rw [← hrl.same.1] at hlt hta ⊢
    rw [← hsl.same.1] at hlt htb ⊢
    exact h.inOrder r hrm s hsm (hrl.same.2.2.1.trans (hk.trans hsl.same.2.2.1.symm)) hlt hta htb
  · intro i x hx m hm
    exact clear_later hr (hs i x hx m hm)
  · intro r' hr' ho
    obtain ⟨r, hrm, hrl⟩ := hr r' hr'
    obtain ⟨s', hs', hk, hlt, ht⟩ := ho
    obtain ⟨s, hsm, hsl⟩ := hr s' hs'
    rw [ha] at ht ⊢
    rw [← hrl.same.1] at hlt ⊢
    rw [← hsl.same.1] at hlt ht
    rcases h.overtaken r hrm ⟨s, hsm, hsl.same.2.2.1.trans (hk.trans hrl.same.2.2.1.symm), hlt, ht⟩ with h0 | h0
    · exact .inl h0
    · exact .inr (hrl.deadLettered h0)

/-- The broker takes a message of a clear batch. -/
theorem ordered_take {w : World π} (hinv : Inv w) (h : Ordered w) {m : Row π} (hst : Stored w.rows m)
    (hc : Clear w.rows m)
    (hab : Abandoned w.rows m.id → ¬ Overtaken w m.partitionKey m.id ∨ Taken w.accepted m.id) :
    Ordered { w with accepted := w.accepted ++ [m] } := by
  obtain ⟨r₀, hr₀, hsame⟩ := hst
  -- taken for the first time, the message was not overtaken: an overtaken row was abandoned
  have hfirst : ¬ Taken w.accepted m.id → ¬ Overtaken w m.partitionKey m.id := by
    intro hnt ho
    have ho' : Overtaken w r₀.partitionKey r₀.id := by
      rw [hsame.1, hsame.2.2.1]; exact ho
    rcases h.overtaken r₀ hr₀ ho' with ht | hd
    · rw [hsame.1] at ht; exact hnt ht
    · rcases hab ⟨r₀, hr₀, hsame.1, hd⟩ with hno | ht
      · exact hno ho
      · exact hnt ht
  -- the row with the message's id is of its key
  have hkey : ∀ r ∈ w.rows, r.id = m.id → r.partitionKey = m.partitionKey := by
    intro r hr hid
    exact (same_of_id hinv.rows.ids hr ⟨r₀, hr₀, hsame⟩ hid.symm).2.2.1
  refine ⟨?_, ?_, h.clear, ?_⟩
  · intro q hq
    rcases List.mem_append.1 hq with hq | hq
    · exact h.stored q hq
    · rw [List.mem_singleton] at hq
      subst hq
      exact List.mem_map.2 ⟨r₀, hr₀, hsame.1⟩
  · intro r hr s hs hk hlt hta htb
    show firstPublication (w.accepted ++ [m]) r.id < firstPublication (w.accepted ++ [m]) s.id
    by_cases hs0 : Taken w.accepted s.id
    · -- the younger row went out before: so did the older one
      have hr0 : Taken w.accepted r.id := by
        rcases taken_append.1 hta with h0 | hid
        · exact h0
        · by_contra hnt
          rw [← hid] at hnt
          exact hfirst hnt ⟨s, hs, hk.symm.trans (hkey r hr hid.symm), by omega, hs0⟩
      rw [firstPublication_append m hr0, firstPublication_append m hs0]
      exact h.inOrder r hr s hs hk hlt hr0 hs0
    · -- the younger row goes out now, at the end of the log
      have hid : m.id = s.id := (taken_append.1 htb).resolve_left hs0
      have hr0 : Taken w.accepted r.id := (taken_append.1 hta).resolve_right (by omega)
      rw [firstPublication_append m hr0, ← hid, firstPublication_new m (hid ▸ hs0)]
      exact firstPublication_lt hr0
  · rintro r hr ⟨s, hs, hk, hlt, ht⟩
    show Taken (w.accepted ++ [m]) r.id ∨ _
    rcases taken_append.1 ht with h0 | hid
    · rcases h.overtaken r hr ⟨s, hs, hk, hlt, h0⟩ with h1 | h1
      · exact .inl (taken_append.2 (.inl h1))
      · exact .inr h1
    · -- an older row of the key has stopped waiting: it was published, or abandoned
      have hp := hc r hr (hk.symm.trans (hkey s hs hid.symm)) (by omega)
      unfold Row.stillPending at hp
      rw [Bool.and_eq_false_iff] at hp
      rcases hp with hp | hp
      · have hpub : r.publishedAt ≠ none := by
          intro h0; rw [h0] at hp; cases hp
        obtain ⟨q, hq, hqs⟩ := hinv.rows.published r hr hpub
        exact .inl (taken_append.2 (.inl ⟨q, hq, hqs.1.symm⟩))
      · right
        intro h0; rw [h0] at hp; cases hp

/-- A transaction commits its row in turn. -/
theorem ordered_write {w : World π} (h : Ordered w) {id : ℕ} {key : String} (topic : String) (body : π)
    (hid : id ∉ w.rows.map (·.id)) (ho : ¬ Overtaken w key id)
    (hb : ∀ i x, w.relays i = some x → ∀ m ∈ x.messages, m.partitionKey = key → m.id ≤ id) :
    Ordered { w with rows := w.rows ++ [⟨id, topic, key, body, 0, none, none, none, none⟩] } := by
  have hnew : ∀ q ∈ w.accepted, q.id ≠ id := by
    intro q hq hqid
    exact hid (hqid ▸ h.stored q hq)
  have hnt : ¬ Taken w.accepted id := fun ⟨q, hq, hqid⟩ => hnew q hq hqid
  refine ⟨?_, ?_, ?_, ?_⟩
  · intro q hq
    rw [List.map_append]
    exact List.mem_append_left _ (h.stored q hq)
  · intro r hr s hs hk hlt hta htb
    simp only [List.mem_append, List.mem_singleton] at hr hs
    rcases hr with hr | rfl
    · rcases hs with hs | rfl
      · exact h.inOrder r hr s hs hk hlt hta htb
      · exact absurd htb hnt
    · exact absurd hta hnt
  · intro i x hx m hm p hp hk hlt
    simp only [List.mem_append, List.mem_singleton] at hp
    rcases hp with hp | rfl
    · exact h.clear i x hx m hm p hp hk hlt
    · -- the row would stand before a message that a relay already holds
      have hle := hb i x hx m hm hk.symm
      simp only at hlt
      omega
  · rintro r hr ⟨s, hs, hk, hlt, ht⟩
    simp only [List.mem_append, List.mem_singleton] at hr hs
    rcases hs with hs | rfl
    · rcases hr with hr | rfl
      · exact h.overtaken r hr ⟨s, hs, hk, hlt, ht⟩
      · exact absurd ⟨s, hs, hk, hlt, ht⟩ ho
    · exact absurd ht hnt

theorem ordered_setRelay {w w' : World π} {i : ℕ} {x : Option (Session π)} (h : Ordered w)
    (ha : w'.accepted = w.accepted) (hids : w'.rows.map (·.id) = w.rows.map (·.id))
    (hr : ∀ r' ∈ w'.rows, ∃ r ∈ w.rows, r.Later r') (hrel : w'.relays = w.relays)
    (hx : ∀ y, x = some y → ∀ m ∈ y.messages, Clear w.rows m) : Ordered (w'.setRelay i x) := by
  refine ordered_of_later h ha hids hr ?_
  intro j y hy
  simp only [World.setRelay] at hy
  split at hy
  · exact hx y hy
  · rw [hrel] at hy
    exact h.clear j y hy

theorem ordered_fetch {cfg : Settings} {w : World π} (h : Ordered w) (i : ℕ) (skipped : List ℕ) :
    Ordered (fetch cfg w i skipped) := by
  unfold fetch
  simp only
  split
  · exact h
  · refine ordered_setRelay h rfl rfl (fun r hr => ⟨r, hr, Row.Later.refl r⟩) rfl ?_
    intro y hy m hm p hp hk hlt
    cases hy
    -- a message of the batch is the oldest of its key that waits
    obtain ⟨r, -, hs, -, hb, -⟩ := mem_fetchUnpublished hm
    by_contra hw
    rw [Bool.not_eq_false] at hw
    have hle := oldest_of_not_blocked hb hp (hk.trans hs.2.2.1.symm) hw
    rw [hs.1] at hle
    omega

theorem ordered_publish {cfg : Settings} {w : World π} {i : ℕ} {x : Session π} {m : Row π} {rest : List (Row π)}
    (hinv : Inv w) (h : Ordered w) (hx : w.relays i = some x) (hm : x.messages = m :: rest) (failures : ℕ)
    (answer : Answer) (hok : InTurn w (.publish i answer)) : Ordered (publish cfg w i x m failures answer) := by
  have hmem : m ∈ x.messages := hm ▸ List.mem_cons_self ..
  obtain ⟨y, hy, he⟩ := publish_eq cfg w i x m failures answer
  rw [he]
  simp only [InTurn, hx, hm] at hok
  have hacc : Ordered (w.accept answer.taken m) := by
    unfold World.accept
    split
    · rename_i ht
      exact ordered_take hinv h ((hinv.sessions i x hx).messages m hmem) (h.clear i x hx m hmem) (hok ht)
    · exact h
  refine ordered_setRelay hacc rfl rfl (fun r hr => ⟨r, hr, Row.Later.refl r⟩) rfl ?_
  intro z hz
  cases hz
  rw [hy.messages]
  apply hacc.clear i x
  rw [(accept_frame w answer.taken m).2.2.1]; exact hx

theorem ordered_step {cfg : Settings} {w w' : World π} {a : Action π} (h : Inv w ∧ Ordered w) (hok : InTurn w a)
    (ht : step cfg w a = some w') : Inv w' ∧ Ordered w' := by
  refine ⟨inv_step h.1 ht, ?_⟩
  obtain ⟨hinv, h⟩ := h
  have same : ∀ r ∈ w.rows, ∃ r₀ ∈ w.rows, r₀.Later r := fun r hr => ⟨r, hr, Row.Later.refl r⟩
  cases step_move ht with
  | advance d => exact ordered_of_later h rfl rfl same h.clear
  | write topic key body hid => exact ordered_write h topic body hid hok.1 hok.2
  | fetch skipped hx => exact ordered_fetch h _ skipped
  | publish answer hx hm hp => exact ordered_publish hinv h hx hm _ answer hok
  | @publishDeadLetter i x m rest error answer hx hm hp =>
    -- the dead-letter topic is another one, and the batch stays as it is
    obtain ⟨y, hy, he⟩ := publishDeadLetter_eq w i x m error answer
    obtain ⟨-, hrows, hrel, -, hacc⟩ := acceptDeadLetter_frame w answer.taken m
    rw [he]
    refine ordered_setRelay h hacc (by rw [hrows]) (by rw [hrows]; exact same) hrel ?_
    intro z hz
    cases hz
    rw [hy.messages]; exact h.clear i x hx
  | @commit i x m rest hx hm hp hl =>
    refine ordered_setRelay h rfl (foldl_ids _ _ _) (fun r hr => later_foldl hr) rfl ?_
    intro y hy
    split at hy
    · cases hy
    · cases hy
      intro q hq
      exact h.clear i x hx q (hm ▸ List.mem_cons_of_mem _ hq)
  | fail hx hm hp => exact ordered_setRelay h rfl rfl same rfl (by intro y hy; cases hy)
  | crash i => exact ordered_setRelay h rfl rfl same rfl (by intro y hy; cases hy)

/-! ## Order within a partition key -/

/-- In every state reached by steps the barrier covers, whichever way writers, relays, crashes and the
clock interleave: of two rows of one partition key that were published to their topic, the row with
the lower id was published first. -/
theorem published_in_key_order (cfg : Settings) {acts : List (Action π)} {w : World π}
    (hm : Meets (step cfg) InTurn World.empty acts) (h : run (step cfg) World.empty acts = some w) : InOrder w :=
  (inv_of_meets (fun _ _ _ => ordered_step) ⟨inv_empty, ordered_empty⟩ hm h).2.inOrder

/-- Two events of one plant, committed in the order of their ids and delivered by two polls. -/
def deliveredInTurn : List (Action Unit) :=
  [.write 1 "care.events" "fern" (), .write 2 "care.events" "fern" (),
    .fetch 0 [], .publish 0 .ok, .commit 0 true, .fetch 0 [], .publish 0 .ok, .commit 0 true]

/-- Both go out, the older one first. -/
theorem published_in_key_order_two :
    ∃ w, run (step settings) World.empty deliveredInTurn = some w ∧ w.accepted.map (·.id) = [1, 2] ∧ InOrder w := by
  have hrun : run (step settings) World.empty deliveredInTurn =
      some ((run (step settings) World.empty deliveredInTurn).get (by decide)) := (Option.some_get _).symm
  refine ⟨_, hrun, by decide, published_in_key_order settings ?_ hrun⟩
  have hno : ∀ i x, (World.empty : World Unit).relays i = some x → ∀ m ∈ x.messages,
      m.partitionKey = "fern" → m.id ≤ 1 := by
    intro i x hx; cases hx
  refine ⟨⟨by decide, hno⟩, ⟨by decide, ?_⟩, trivial, inTurn_publish (by decide) _ _, trivial, trivial,
    inTurn_publish (by decide) _ _, trivial, trivial⟩
  intro i x hx; cases hx

/-- A transaction that took its id first commits after a younger event of its plant was delivered. -/
def committedLate : List (Action Unit) :=
  [.write 2 "care.events" "fern" (), .fetch 0 [], .publish 0 .ok, .commit 0 true,
    .write 1 "care.events" "fern" (), .fetch 0 [], .publish 0 .ok, .commit 0 true]

/-- The older row is published second: the poll's barrier could not see it. -/
theorem late_commit_breaks_order :
    ∃ w, run (step settings) World.empty committedLate = some w ∧ w.accepted.map (·.id) = [2, 1] ∧ ¬ InOrder w := by
  have hrun : run (step settings) World.empty committedLate =
      some ((run (step settings) World.empty committedLate).get (by decide)) := (Option.some_get _).symm
  exact ⟨_, hrun, by decide, by decide⟩

end Plantkeeper.Outbox
