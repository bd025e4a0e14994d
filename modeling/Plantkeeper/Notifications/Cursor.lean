/-
No loss and no duplicate on the stream. The read is ordered by creation and the cursor compares
identifiers, so the two orders must agree: an identifier derived from an event (`uuid5`) is not
ordered by creation, and then a notification is yielded twice (`derived_identifier_repeats`) or
never (`derived_identifier_lost`). Where identifiers follow creation, what a session yields is
strictly increasing, the cursor is its last element, and nothing unread is left behind it.
-/
import Plantkeeper.Notifications.Stream

namespace Plantkeeper.Notifications

open Plantkeeper.Run

/-! ## The property and its condition -/

/-- Nothing is yielded twice, and a drain that is through has yielded all it found unread. -/
structure Delivered (w : World) : Prop where
  once : w.yielded.Nodup
  all : ∀ mode cursor due, w.stream = .draining mode cursor [] due → ∀ n ∈ due, n.id ∈ w.yielded

/-- The notification a step commits. -/
def Action.created : Action → Option Notification
  | .create n => some n
  | _ => none

/-- Identifiers follow creation: a new notification of the household has a greater identifier than
those committed before it and is not older. -/
def InOrder (householdId : HouseholdId) (w : World) (a : Action) : Prop :=
  ∀ n ∈ a.created, n.householdId = householdId → ∀ m ∈ w.table, m.householdId = householdId →
    m.id < n.id ∧ m.createdAt ≤ n.createdAt

instance (householdId : HouseholdId) (w : World) (a : Action) : Decidable (InOrder householdId w a) :=
  inferInstanceAs (Decidable (∀ n ∈ a.created, _))

def reminder (id : NotificationId) (createdAt : Instant) : Notification :=
  .create id 1 .wateringDue createdAt []

/-- The older of two unread reminders has the greater identifier; a wake-up follows their drain. -/
def repeated : List Action :=
  [.create (reminder 5 1), .create (reminder 3 2), .connect, .attach true, .read, .yieldNext, .yieldNext, .drained,
    .nudged, .read, .yieldNext]

/-- The drain leaves the cursor on the lesser identifier, and the next one yields the other again. -/
theorem derived_identifier_repeats :
    ¬ ∀ (householdId : HouseholdId) (acts : List Action) (w : World),
      run (step householdId) World.empty acts = some w → Delivered w := by
  intro h
  have hrun : run (step 1) World.empty repeated = some ((run (step 1) World.empty repeated).get (by decide)) :=
    (Option.some_get _).symm
  exact absurd (h 1 repeated _ hrun).once (by decide)

/-- A reminder with a lesser identifier is created after the cursor has passed it. -/
def passed : List Action :=
  [.create (reminder 5 1), .connect, .attach true, .read, .yieldNext, .drained, .create (reminder 3 2), .nudged, .read]

/-- The drain has read it unread, and ends without it. -/
theorem derived_identifier_lost :
    (run (step 1) World.empty passed).map (fun w => (w.stream, w.yielded)) =
      some (.draining .live (some 5) [] [reminder 5 1, reminder 3 2], [5]) := by
  decide

/-! ## The two orders -/

instance : Std.Total Before where
  total a b := by unfold Before; grind

instance : IsTrans Notification Before where
  trans a b c := by unfold Before; grind

/-- Identifiers are unique, and within the household they follow creation. -/
structure TableOK (householdId : HouseholdId) (table : List Notification) : Prop where
  ids : (table.map (·.id)).Nodup
  ordered : ∀ a ∈ table, ∀ b ∈ table, a.householdId = householdId → b.householdId = householdId → a.id < b.id →
    a.createdAt ≤ b.createdAt

theorem mem_unread {table : List Notification} {householdId : HouseholdId} {n : Notification} :
    n ∈ unread table householdId ↔ n ∈ table ∧ n.householdId = householdId ∧ n.readAt = none := by
  simp [unread]

theorem mem_listPending {table : List Notification} {householdId : HouseholdId} {since : Option NotificationId}
    {n : Notification} :
    n ∈ listPending table householdId since ↔ n ∈ unread table householdId ∧ after since n = true := by
  rw [listPending, List.mem_insertionSort, List.mem_filter]

/-- Where identifiers follow creation, the read is ordered by identifier. -/
theorem listPending_increasing {table : List Notification} {householdId : HouseholdId} (h : TableOK householdId table)
    (since : Option NotificationId) :
    (listPending table householdId since).Pairwise fun a b => a.id < b.id := by
  have hids : ((listPending table householdId since).map (·.id)).Nodup := by
    refine ((List.perm_insertionSort _ _).map _).nodup_iff.2 (h.ids.sublist ?_)
    exact (List.filter_sublist.trans List.filter_sublist).map _
  have hsort : (listPending table householdId since).Pairwise Before := List.pairwise_insertionSort _ _
  refine (hsort.and (List.pairwise_map.1 hids)).imp_of_mem fun {a b} ha hb hab => ?_
  obtain ⟨ha, hah, -⟩ := mem_unread.1 (mem_listPending.1 ha).1
  obtain ⟨hb, hbh, -⟩ := mem_unread.1 (mem_listPending.1 hb).1
  obtain ⟨hbefore, hne⟩ := hab
  have hord := h.ordered b hb a ha hbh hah
  unfold Before at hbefore
  grind

/-! ## The invariant -/

/-- What the session has yielded: increasing identifiers of the household, with nothing unread left
behind them. -/
structure Passed (householdId : HouseholdId) (table : List Notification) (yielded : List NotificationId) : Prop where
  increasing : yielded.Pairwise (· < ·)
  stored : ∀ i ∈ yielded, ∃ n ∈ table, n.householdId = householdId ∧ n.id = i
  behind : ∀ n ∈ unread table householdId, (∃ i ∈ yielded, n.id ≤ i) → n.id ∈ yielded

/-- What a drain has still to yield lies ahead of the cursor, in order, and covers what it read. -/
structure Draining (householdId : HouseholdId) (table : List Notification) (yielded : List NotificationId)
    (arrivals due : List Notification) : Prop where
  increasing : arrivals.Pairwise fun a b => a.id < b.id
  ahead : ∀ n ∈ arrivals, ∀ i ∈ yielded, i < n.id
  stored : ∀ n ∈ arrivals, ∃ m ∈ table, m.householdId = householdId ∧ m.id = n.id
  due : ∀ n ∈ due, n.id ∈ yielded ∨ n ∈ arrivals
  next : ∀ m ∈ unread table householdId, (∀ i ∈ yielded, i < m.id) →
    m.id ∈ arrivals.map (·.id) ∨ ∀ n ∈ arrivals, n.id < m.id

def StreamOK (householdId : HouseholdId) (table : List Notification) (yielded : List NotificationId) : Stream → Prop
  | .closed => True
  | .attaching cursor => cursor = yielded.getLast?
  | .reading _ cursor => cursor = yielded.getLast?
  | .waiting cursor => cursor = yielded.getLast?
  | .draining mode cursor arrivals due =>
    (mode ≠ .final → cursor = yielded.getLast?) ∧ Draining householdId table yielded arrivals due

structure Inv (householdId : HouseholdId) (w : World) : Prop where
  table : TableOK householdId w.table
  passed : Passed householdId w.table w.yielded
  stream : StreamOK householdId w.table w.yielded w.stream

theorem inv_empty (householdId : HouseholdId) : Inv householdId World.empty :=
  ⟨⟨List.nodup_nil, fun _ h => (nomatch h)⟩,
    ⟨List.Pairwise.nil, fun _ h => (nomatch h), fun _ h => (nomatch h)⟩, trivial⟩

/-- The last of an increasing list bounds it. -/
theorem le_getLast {l : List NotificationId} (h : l.Pairwise (· < ·)) {x : NotificationId} (hx : l.getLast? = some x) :
    x ∈ l ∧ ∀ i ∈ l, i ≤ x := by
  obtain ⟨init, rfl⟩ := List.getLast?_eq_some_iff.1 hx
  refine ⟨List.mem_append_right _ (List.mem_singleton.2 rfl), fun i hi => ?_⟩
  rcases List.mem_append.1 hi with hi | hi
  · exact Nat.le_of_lt ((List.pairwise_append.1 h).2.2 i hi x (List.mem_singleton.2 rfl))
  · rw [List.mem_singleton] at hi
    subst hi; exact Nat.le_refl _

/-- The cursor separates what was yielded from what is to come. -/
theorem after_last_iff {householdId : HouseholdId} {table : List Notification} {yielded : List NotificationId}
    (h : Passed householdId table yielded) (n : Notification) :
    after yielded.getLast? n = true ↔ ∀ i ∈ yielded, i < n.id := by
  cases hl : yielded.getLast? with
  | none =>
    rw [List.getLast?_eq_none_iff] at hl
    subst hl
    exact ⟨fun _ i hi => (nomatch hi), fun _ => rfl⟩
  | some x =>
    obtain ⟨hmem, hle⟩ := le_getLast h.increasing hl
    simp only [after, decide_eq_true_eq]
    exact ⟨fun hx i hi => Nat.lt_of_le_of_lt (hle i hi) hx, fun hall => hall x hmem⟩

/-! ## Steps -/

theorem draining_read {householdId : HouseholdId} {w : World} (h : Inv householdId w) :
    Draining householdId w.table w.yielded (listPending w.table householdId w.yielded.getLast?)
      (unread w.table householdId) := by
  refine ⟨listPending_increasing h.table _, fun n hn => ?_, fun n hn => ?_, fun n hn => ?_, fun m hm hi => ?_⟩
  · exact (after_last_iff h.passed n).1 (mem_listPending.1 hn).2
  · obtain ⟨hmem, hh, -⟩ := mem_unread.1 (mem_listPending.1 hn).1
    exact ⟨n, hmem, hh, rfl⟩
  · by_cases hi : ∀ i ∈ w.yielded, i < n.id
    · exact .inr (mem_listPending.2 ⟨hn, (after_last_iff h.passed n).2 hi⟩)
    · simp only [not_forall, Nat.not_lt] at hi
      obtain ⟨i, hi, hle⟩ := hi
      exact .inl (h.passed.behind n hn ⟨i, hi, hle⟩)
  · exact .inl (List.mem_map_of_mem (mem_listPending.2 ⟨hm, (after_last_iff h.passed m).2 hi⟩))

/-- Yielding the next arrival passes it, and only it. -/
theorem inv_yield {householdId : HouseholdId} {w : World} {mode : Mode} {cursor : Option NotificationId}
    {n : Notification} {rest due : List Notification} (h : Inv householdId w)
    (hs : w.stream = .draining mode cursor (n :: rest) due) :
    Inv householdId { w with
      stream := .draining mode (mode.advance cursor n.id) rest due, yielded := w.yielded ++ [n.id] } := by
  have hst := h.stream
  rw [hs] at hst
  obtain ⟨-, hd⟩ := hst
  obtain ⟨hhead, htail⟩ := List.pairwise_cons.1 hd.increasing
  have hn : n ∈ n :: rest := List.mem_cons_self ..
  have hsplit : ∀ {i}, i ∈ w.yielded ++ [n.id] → i ∈ w.yielded ∨ i = n.id := by
    intro i hi
    rwa [List.mem_append, List.mem_singleton] at hi
  refine ⟨h.table, ⟨?_, fun i hi => ?_, fun m hm hle => ?_⟩, ⟨fun hmode => ?_, htail, fun m hm i hi => ?_,
    fun m hm => hd.stored m (List.mem_cons_of_mem _ hm), fun m hm => ?_, fun m hm hi => ?_⟩⟩
  · refine List.pairwise_append.2 ⟨h.passed.increasing, List.pairwise_singleton _ _, fun i hi j hj => ?_⟩
    rw [List.mem_singleton] at hj
    subst hj; exact hd.ahead n hn i hi
  · rcases hsplit hi with hi | rfl
    · exact h.passed.stored i hi
    · exact hd.stored n hn
  · by_cases hall : ∀ i ∈ w.yielded, i < m.id
    · obtain ⟨i, hi, hle⟩ := hle
      rcases hsplit hi with hi | rfl
      · exact absurd (hall i hi) (Nat.not_lt.2 hle)
      · rcases hd.next m hm hall with hmem | hlt
        · obtain ⟨m', hm', hid⟩ := List.mem_map.1 hmem
          rcases List.mem_cons.1 hm' with rfl | hm'
          · exact hid ▸ List.mem_append_right _ (List.mem_singleton.2 rfl)
          · exact absurd (hhead m' hm') (Nat.not_lt.2 (hid ▸ hle))
        · exact absurd (hlt n hn) (Nat.not_lt.2 hle)
    · simp only [not_forall, Nat.not_lt] at hall
      obtain ⟨i, hi, hle⟩ := hall
      exact List.mem_append_left _ (h.passed.behind m hm ⟨i, hi, hle⟩)
  · cases mode with
    | final => exact absurd rfl hmode
    | live => simp [Mode.advance]
    | degraded => simp [Mode.advance]
  · rcases hsplit hi with hi | rfl
    · exact hd.ahead m (List.mem_cons_of_mem _ hm) i hi
    · exact hhead m hm
  · rcases hd.due m hm with hy | hy
    · exact .inl (List.mem_append_left _ hy)
    · rcases List.mem_cons.1 hy with rfl | hy
      · exact .inl (List.mem_append_right _ (List.mem_singleton.2 rfl))
      · exact .inr hy
  · have hlast : n.id < m.id := hi n.id (List.mem_append_right _ (List.mem_singleton.2 rfl))
    rcases hd.next m hm fun i hi' => hi i (List.mem_append_left _ hi') with hmem | hlt
    · rw [List.map_cons, List.mem_cons] at hmem
      rcases hmem with hid | hmem
      · exact absurd hlast (Nat.not_lt.2 (Nat.le_of_eq hid))
      · exact .inl hmem
    · exact .inr fun m' hm' => hlt m' (List.mem_cons_of_mem _ hm')

/-- The table changes: the household's rows stay, and what is newly unread is newer than all of them. -/
theorem inv_table {householdId : HouseholdId} {w : World} (h : Inv householdId w) {table : List Notification}
    (ht : TableOK householdId table)
    (hkept : ∀ n ∈ w.table, n.householdId = householdId → ∃ m ∈ table, m.householdId = householdId ∧ m.id = n.id)
    (hnew : ∀ m ∈ unread table householdId, m ∈ unread w.table householdId ∨
      ∀ n ∈ w.table, n.householdId = householdId → n.id < m.id) :
    Inv householdId { w with table := table } := by
  have hstored : ∀ {i}, (∃ n ∈ w.table, n.householdId = householdId ∧ n.id = i) →
      ∃ m ∈ table, m.householdId = householdId ∧ m.id = i := by
    rintro i ⟨n, hn, hh, rfl⟩
    exact hkept n hn hh
  refine ⟨ht, ⟨h.passed.increasing, fun i hi => hstored (h.passed.stored i hi), fun m hm hle => ?_⟩, ?_⟩
  · rcases hnew m hm with hm | hlt
    · exact h.passed.behind m hm hle
    · obtain ⟨i, hi, hle⟩ := hle
      obtain ⟨n, hn, hh, rfl⟩ := h.passed.stored i hi
      exact absurd (hlt n hn hh) (Nat.not_lt.2 hle)
  · have hst := h.stream
    show StreamOK householdId table w.yielded w.stream
    cases hw : w.stream with
    | draining mode cursor arrivals due =>
      rw [hw] at hst
      obtain ⟨hc, hd⟩ := hst
      refine ⟨hc, hd.increasing, hd.ahead, fun n hn => hstored (hd.stored n hn), hd.due, fun m hm hi => ?_⟩
      rcases hnew m hm with hm | hlt
      · exact hd.next m hm hi
      · refine .inr fun n hn => ?_
        obtain ⟨m', hm', hh, hid⟩ := hd.stored n hn
        exact hid ▸ hlt m' hm' hh
    | _ => rw [hw] at hst; exact hst

theorem inv_create {householdId : HouseholdId} {w : World} {n : Notification} (h : Inv householdId w)
    (hid : n.id ∉ w.table.map (·.id)) (ho : n.householdId = householdId → ∀ m ∈ w.table,
      m.householdId = householdId → m.id < n.id ∧ m.createdAt ≤ n.createdAt) :
    Inv householdId { w with table := w.table ++ [n] } := by
  refine inv_table h ⟨Table.nodup_insert h.table.ids hid, fun a ha b hb hah hbh hlt => ?_⟩
    (fun m hm hh => ⟨m, List.mem_append_left _ hm, hh, rfl⟩) fun m hm => ?_
  · rw [List.mem_append, List.mem_singleton] at ha hb
    rcases ha with ha | rfl <;> rcases hb with hb | rfl
    · exact h.table.ordered a ha b hb hah hbh hlt
    · exact (ho hbh a ha hah).2
    · exact absurd hlt (Nat.lt_asymm (ho hah b hb hbh).1)
    · exact le_refl _
  · obtain ⟨hm, hh, hr⟩ := mem_unread.1 hm
    rw [List.mem_append, List.mem_singleton] at hm
    rcases hm with hm | rfl
    · exact .inl (mem_unread.2 ⟨hm, hh, hr⟩)
    · exact .inr fun m' hm' hh' => (ho hh m' hm' hh').1

theorem inv_acknowledge {householdId : HouseholdId} {w : World} {table : List Notification} {id : NotificationId}
    {now : Instant} (h : Inv householdId w) (ha : acknowledge w.table id now = some table) :
    Inv householdId { w with table := table } := by
  obtain rfl := acknowledge_eq ha
  -- only `read_at` changes, and never back to unread
  have hback : ∀ m ∈ Table.update (fun m => m.id == id) (fun m => { m with readAt := some now }) w.table,
      ∃ m₀ ∈ w.table, m₀.id = m.id ∧ m₀.householdId = m.householdId ∧ m₀.createdAt = m.createdAt ∧
        (m.readAt = none → m₀ = m) := by
    intro m hm
    rcases Table.mem_update hm with ⟨m₀, h0, -, rfl⟩ | ⟨h0, -⟩
    · exact ⟨m₀, h0, rfl, rfl, rfl, fun hr => nomatch hr⟩
    · exact ⟨m, h0, rfl, rfl, rfl, fun _ => rfl⟩
  refine inv_table h ⟨?_, fun a ha b hb hah hbh hlt => ?_⟩ (fun n hn hh => ?_) fun m hm => ?_
  · have hids : (Table.update (fun m => m.id == id) (fun m => { m with readAt := some now }) w.table).map (·.id) =
        w.table.map (·.id) := Table.map_update fun _ _ _ => rfl
    rw [hids]
    exact h.table.ids
  · obtain ⟨a₀, ha₀, ha1, ha2, ha3, -⟩ := hback a ha
    obtain ⟨b₀, hb₀, hb1, hb2, hb3, -⟩ := hback b hb
    rw [← ha3, ← hb3]
    exact h.table.ordered a₀ ha₀ b₀ hb₀ (ha2.trans hah) (hb2.trans hbh) (by rw [ha1, hb1]; exact hlt)
  · rcases Table.mem_update_of_mem (p := fun m => m.id == id) (f := fun m => { m with readAt := some now }) hn
      with ⟨-, h0⟩ | ⟨-, h0⟩
    · exact ⟨_, h0, hh, rfl⟩
    · exact ⟨n, h0, hh, rfl⟩
  · obtain ⟨hm, hh, hr⟩ := mem_unread.1 hm
    obtain ⟨m₀, h0, -, -, -, hsame⟩ := hback m hm
    exact .inl (mem_unread.2 ⟨hsame hr ▸ h0, hh, hr⟩)

theorem inv_step {householdId : HouseholdId} {w w' : World} {a : Action} (h : Inv householdId w)
    (ho : InOrder householdId w a) (ht : step householdId w a = some w') : Inv householdId w' := by
  have hst := h.stream
  cases a with
  | create n =>
    simp only [step] at ht
    split at ht
    · cases ht
    · rename_i hid
      cases ht; exact inv_create h hid (ho n rfl)
  | acknowledge id now =>
    obtain ⟨table, hack, rfl⟩ := Option.map_eq_some_iff.1 ht
    exact inv_acknowledge h hack
  | connect =>
    simp only [step] at ht
    split at ht
    · cases ht; exact ⟨h.table, h.passed, rfl⟩
    · cases ht
  | read =>
    simp only [step] at ht
    split at ht
    · rename_i mode cursor hs
      rw [hs] at hst
      cases hst
      have hd := draining_read h
      cases ht; exact ⟨h.table, h.passed, fun _ => rfl, hd⟩
    · cases ht
  | yieldNext =>
    simp only [step] at ht
    split at ht
    · rename_i hs
      cases ht; exact inv_yield h hs
    · cases ht
  | drained =>
    simp only [step] at ht
    split at ht
    · rename_i hs
      rw [hs] at hst
      cases ht; exact ⟨h.table, h.passed, hst.1 (by simp)⟩
    · cases ht; exact ⟨h.table, h.passed, trivial⟩
    · cases ht
  | disconnect => cases ht; exact ⟨h.table, h.passed, trivial⟩
  -- attaching, and every way a wait ends, only carry the cursor on
  | attach ok | nudged | idle | lost =>
    simp only [step] at ht
    split at ht
    · rename_i hs
      rw [hs] at hst
      cases ht; exact ⟨h.table, h.passed, hst⟩
    · cases ht

/-! ## No loss, no duplicate -/

/-- In every session in which the household's identifiers follow creation, no notification is
yielded twice, and a drain that is through has yielded everything that was committed and unread when
it read the table. -/
theorem stream_delivers_once (householdId : HouseholdId) {acts : List Action} {w : World}
    (ho : Meets (step householdId) (InOrder householdId) World.empty acts)
    (h : run (step householdId) World.empty acts = some w) : Delivered w := by
  have hi : Inv householdId w := inv_of_meets (fun _ _ _ hi ha ht => inv_step hi ha ht) (inv_empty householdId) ho h
  refine ⟨hi.passed.increasing.imp Nat.ne_of_lt, fun mode cursor due hs n hn => ?_⟩
  have hst := hi.stream
  rw [hs] at hst
  exact (hst.2.due n hn).resolve_right (List.not_mem_nil)

/-- A reminder arrives while the stream waits, the signal is lost, and the client reconnects. -/
def resumed : List Action :=
  [.create (reminder 3 1), .connect, .attach true, .read, .yieldNext, .drained, .create (reminder 5 2), .lost, .read,
    .yieldNext, .drained, .create (reminder 8 2), .connect, .attach false, .read, .yieldNext]

theorem stream_delivers_once_resumed :
    ∃ w, run (step 1) World.empty resumed = some w ∧ w.yielded = [3, 5, 8] ∧ Delivered w := by
  have hrun : run (step 1) World.empty resumed = some ((run (step 1) World.empty resumed).get (by decide)) :=
    (Option.some_get _).symm
  exact ⟨_, hrun, by decide, stream_delivers_once 1 (by decide) hrun⟩

end Plantkeeper.Notifications
