/-
The request-and-wait endpoint: `list_pending` of the notifications router, with the pusher and the
household's channel. A nudge carries nothing; a poll that gets one reads the table again. Any number of
polls of one household run beside commits, acknowledgements and the pusher's deliveries. A poll subscribes
before it reads again, so a notification that is unread while a poll waits is in one of three places: its
event is still on its way to the pusher, its nudge was refused, or a nudge is waiting for the poll.
-/
import Mathlib.Algebra.Order.Ring.Rat
import Plantkeeper.Notifications.Cursor

namespace Plantkeeper.Notifications.LongPoll

open Plantkeeper.Run

/-! ## The state -/

def MAX_POLL_TIMEOUT_SECONDS : ℚ := 60

/-- Where `list_pending` is. It reads first, again once it is subscribed and after every nudge, and last when
it has given up waiting; no items is the `204`. -/
inductive Phase
  | first
  | subscribing
  | rereading
  | waiting
  | last
  | answered (items : List Notification)
  deriving DecidableEq

/-- A request; `subscription` holds the messages that wait for it while its subscription is open. -/
structure Poll where
  timeout : ℚ
  phase : Phase
  subscription : Option (List NotificationId)
  deriving DecidableEq

/-- `NotificationCreated`, as far as the pusher reads it. -/
structure Created where
  notificationId : NotificationId
  householdId : HouseholdId
  deriving DecidableEq

/-- `events` are committed and not yet handled by the pusher; `refused` are those whose nudge the channel
did not take. -/
structure World where
  table : List Notification
  events : List Created
  refused : List Created
  polls : ℕ → Option Poll

def World.empty : World := ⟨[], [], [], fun _ => none⟩

/-! ## The steps -/

/-- How a delivery to the pusher ends. A publication the channel refuses is logged and the delivery is over;
one that is published but whose claim is not committed comes again. -/
inductive Push
  | published
  | refused
  | again
  deriving DecidableEq, Repr

inductive Action
  | create (n : Notification)
  | acknowledge (id : NotificationId) (now : Instant)
  | push (event : Created) (outcome : Push)
  | request (i : ℕ) (timeout : ℚ)
  | read (i : ℕ)
  | subscribe (i : ℕ) (ok : Bool)
  | nudged (i : ℕ)
  | deadline (i : ℕ)
  | lost (i : ℕ)
  | gone (i : ℕ)
  deriving DecidableEq

/-- A message reaches the subscriptions that are open. -/
def Poll.receive (id : NotificationId) (poll : Poll) : Poll := { poll with subscription := poll.subscription.map (· ++ [id]) }

/-- The channel of a household other than the polls' has none of their subscriptions. -/
def publish (householdId : HouseholdId) (event : Created) (polls : ℕ → Option Poll) : ℕ → Option Poll :=
  if event.householdId = householdId then fun i => (polls i).map (Poll.receive event.notificationId) else polls

/-- A poll that has read what is pending: it answers, and leaves its subscription, when there is something or
nothing more to wait for. -/
def Poll.next (pending : List Notification) (poll : Poll) : Option Poll :=
  match poll.phase with
  | .first =>
    if pending ≠ [] ∨ poll.timeout ≤ 0 then some { poll with phase := .answered pending }
    else some { poll with phase := .subscribing }
  | .rereading =>
    if pending ≠ [] then some { poll with phase := .answered pending, subscription := none }
    else some { poll with phase := .waiting }
  | .last => some { poll with phase := .answered pending }
  | _ => none

/-- The wait takes one message off the subscription. -/
def Poll.wake (poll : Poll) : Option Poll :=
  match poll.phase, poll.subscription with
  | .waiting, some (_ :: messages) => some { poll with phase := .rereading, subscription := some messages }
  | _, _ => none

/-- The wait is over without a message: its deadline has passed, or the channel is lost. -/
def Poll.giveUp (poll : Poll) : Option Poll :=
  match poll.phase with
  | .waiting => some { poll with phase := .last, subscription := none }
  | _ => none

/-- `async with channel.subscribe`; a refused subscription is answered from the table. -/
def Poll.subscribed (ok : Bool) (poll : Poll) : Option Poll :=
  match poll.phase with
  | .subscribing =>
    if ok then some { poll with phase := .rereading, subscription := some [] } else some { poll with phase := .last }
  | _ => none

/-- One poll moves. -/
def World.move (w : World) (i : ℕ) (f : Poll → Option Poll) : Option World :=
  ((w.polls i).bind f).map fun poll => { w with polls := Function.update w.polls i (some poll) }

def step (householdId : HouseholdId) (w : World) : Action → Option World
  | .create n =>
    if n.id ∈ w.table.map (·.id) then none
    else some { w with table := w.table ++ [n], events := w.events ++ [⟨n.id, n.householdId⟩] }
  | .acknowledge id now => (Notifications.acknowledge w.table id now).map fun table => { w with table := table }
  | .push event outcome =>
    if event ∉ w.events then none
    else
      match outcome with
      | .published => some { w with events := w.events.erase event, polls := publish householdId event w.polls }
      | .refused => some { w with events := w.events.erase event, refused := w.refused ++ [event] }
      | .again => some { w with polls := publish householdId event w.polls }
  | .request i timeout =>
    if (w.polls i).isSome ∨ timeout < 0 ∨ MAX_POLL_TIMEOUT_SECONDS < timeout then none
    else some { w with polls := Function.update w.polls i (some ⟨timeout, .first, none⟩) }
  | .read i => w.move i (Poll.next (listPending w.table householdId none))
  | .subscribe i ok => w.move i (Poll.subscribed ok)
  | .nudged i => w.move i Poll.wake
  | .deadline i | .lost i => w.move i Poll.giveUp
  | .gone i => some { w with polls := Function.update w.polls i none }

/-! ## Where a nudge is -/

/-- A notification's nudge is still to come, was refused, or waits for the poll. -/
def Nudging (w : World) (n : Notification) (messages : List NotificationId) : Prop :=
  ⟨n.id, n.householdId⟩ ∈ w.events ∨ ⟨n.id, n.householdId⟩ ∈ w.refused ∨ n.id ∈ messages

/-- A poll that has subscribed is so until it answers, and while it waits nothing unread will pass it by. -/
structure Awake (householdId : HouseholdId) (w : World) (poll : Poll) : Prop where
  subscribed : poll.phase = .rereading → ∃ messages, poll.subscription = some messages
  nudging : poll.phase = .waiting →
    ∃ messages, poll.subscription = some messages ∧ ∀ n ∈ unread w.table householdId, Nudging w n messages

def Inv (householdId : HouseholdId) (w : World) : Prop := ∀ i poll, w.polls i = some poll → Awake householdId w poll

theorem inv_empty (householdId : HouseholdId) : Inv householdId World.empty := fun _ _ h => (nomatch h)

section

variable {householdId : HouseholdId} {w w' : World} {i : ℕ}

theorem mem_listPending_none {table : List Notification} {n : Notification} :
    n ∈ listPending table householdId none ↔ n ∈ unread table householdId := by
  rw [mem_listPending]
  exact and_iff_left rfl

theorem unread_eq_nil (h : listPending w.table householdId none = []) : unread w.table householdId = [] := by
  rw [List.eq_nil_iff_forall_not_mem] at h ⊢
  exact fun n hn => h n (mem_listPending_none.2 hn)

/-- The polls are as they were, and what is unread is as it was or has its event on its way. -/
theorem inv_of_table (hi : Inv householdId w) (hpolls : w'.polls = w.polls)
    (hmono : ∀ {n messages}, n ∈ unread w'.table householdId →
      (n ∈ unread w.table householdId → Nudging w n messages) → Nudging w' n messages) : Inv householdId w' := by
  intro i poll hp
  rw [hpolls] at hp
  obtain ⟨hsubscribed, hnudging⟩ := hi i poll hp
  refine ⟨hsubscribed, fun hwait => ?_⟩
  obtain ⟨messages, hsub, hall⟩ := hnudging hwait
  exact ⟨messages, hsub, fun n hn => hmono hn (hall n)⟩

/-- A poll that has not subscribed yet, or has left its subscription. -/
theorem awake_of_ne {poll : Poll} (hreading : poll.phase ≠ .rereading) (hwaiting : poll.phase ≠ .waiting) :
    Awake householdId w poll :=
  ⟨fun h => absurd h hreading, fun h => absurd h hwaiting⟩

/-- The other polls do not matter to one. -/
theorem Awake.of_polls {polls : ℕ → Option Poll} {poll : Poll} (h : Awake householdId w poll) :
    Awake householdId { w with polls := polls } poll :=
  ⟨h.subscribed, h.nudging⟩

theorem inv_move {f : Poll → Option Poll} (hi : Inv householdId w)
    (hf : ∀ poll poll', w.polls i = some poll → f poll = some poll' → Awake householdId w poll') (h : w.move i f = some w') :
    Inv householdId w' := by
  obtain ⟨poll', hbind, rfl⟩ := Option.map_eq_some_iff.1 h
  obtain ⟨poll, hpoll, hfpoll⟩ := Option.bind_eq_some_iff.1 hbind
  intro j q hq
  rcases update_eq_some.1 hq with ⟨rfl, hset⟩ | ⟨-, hold⟩
  · cases hset
    exact (hf poll poll' hpoll hfpoll).of_polls
  · exact (hi j q hold).of_polls

theorem acknowledge_unread {table : List Notification} {id : NotificationId} {now : Instant}
    (h : Notifications.acknowledge w.table id now = some table) : ∀ n ∈ unread table householdId, n ∈ unread w.table householdId := by
  obtain rfl := acknowledge_eq h
  intro n hn
  obtain ⟨hmem, hh, hread⟩ := mem_unread.1 hn
  rcases Table.mem_update hmem with ⟨m, -, -, rfl⟩ | ⟨hmem, -⟩
  · cases hread
  · exact mem_unread.2 ⟨hmem, hh, hread⟩

/-- A message that is published is with every poll that waits. -/
theorem nudging_publish {event : Created} {events : List Created} (hevents : ∀ e ∈ w.events, e = event ∨ e ∈ events)
    (hi : Inv householdId w) : Inv householdId { w with events := events, polls := publish householdId event w.polls } := by
  intro i poll hp
  by_cases hh : event.householdId = householdId
  · simp only [publish, if_pos hh] at hp
    obtain ⟨before, hbefore, rfl⟩ := Option.map_eq_some_iff.1 hp
    obtain ⟨hsubscribed, hnudging⟩ := hi i before hbefore
    refine ⟨fun hreading => ?_, fun hwait => ?_⟩
    · obtain ⟨messages, hsub⟩ := hsubscribed hreading
      exact ⟨messages ++ [event.notificationId], by simp [Poll.receive, hsub]⟩
    obtain ⟨messages, hsub, hall⟩ := hnudging hwait
    refine ⟨messages ++ [event.notificationId], by simp [Poll.receive, hsub], fun n hn => ?_⟩
    rcases hall n hn with hevent | hrefused | hmessage
    · rcases hevents _ hevent with rfl | hstill
      · exact .inr (.inr (List.mem_append_right _ (List.mem_singleton.2 rfl)))
      · exact .inl hstill
    · exact .inr (.inl hrefused)
    · exact .inr (.inr (List.mem_append_left _ hmessage))
  · simp only [publish, if_neg hh] at hp
    obtain ⟨hsubscribed, hnudging⟩ := hi i poll hp
    refine ⟨hsubscribed, fun hwait => ?_⟩
    obtain ⟨messages, hsub, hall⟩ := hnudging hwait
    refine ⟨messages, hsub, fun n hn => ?_⟩
    rcases hall n hn with hevent | hrest
    · rcases hevents _ hevent with rfl | hstill
      · exact absurd (mem_unread.1 hn).2.1 hh
      · exact .inl hstill
    · exact .inr hrest

theorem inv_step {a : Action} (hi : Inv householdId w) (h : step householdId w a = some w') : Inv householdId w' := by
  cases a with
  | create n =>
    simp only [step] at h
    split at h
    · cases h
    · cases h
      refine inv_of_table hi rfl fun {m messages} hm hold => ?_
      obtain ⟨hmem, hh, hread⟩ := mem_unread.1 hm
      rcases List.mem_append.1 hmem with hmem | hmem
      · exact (hold (mem_unread.2 ⟨hmem, hh, hread⟩)).imp_left (List.mem_append_left _)
      · obtain rfl := List.mem_singleton.1 hmem
        exact .inl (List.mem_append_right _ (List.mem_singleton.2 rfl))
  | acknowledge id now =>
    obtain ⟨table, hack, rfl⟩ := Option.map_eq_some_iff.1 h
    exact inv_of_table hi rfl fun hn hold => hold (acknowledge_unread hack _ hn)
  | push event outcome =>
    have herase : ∀ e ∈ w.events, e = event ∨ e ∈ w.events.erase event := by
      intro e he
      by_cases heq : e = event
      · exact .inl heq
      · exact .inr ((List.mem_erase_of_ne heq).2 he)
    simp only [step] at h
    split at h
    · cases h
    · cases outcome with
      | published =>
        cases h
        exact nudging_publish herase hi
      | again =>
        cases h
        exact nudging_publish (fun e he => .inr he) hi
      | refused =>
        cases h
        refine inv_of_table hi rfl fun {m messages} hm hold => ?_
        obtain ⟨hmem, hh, hread⟩ := mem_unread.1 hm
        rcases hold (mem_unread.2 ⟨hmem, hh, hread⟩) with hevent | hrefused | hmessage
        · rcases herase _ hevent with hthis | hstill
          · exact .inr (.inl (List.mem_append_right _ (List.mem_singleton.2 hthis)))
          · exact .inl hstill
        · exact .inr (.inl (List.mem_append_left _ hrefused))
        · exact .inr (.inr hmessage)
  | request i timeout =>
    simp only [step] at h
    split at h
    · cases h
    · cases h
      intro j q hq
      rcases update_eq_some.1 hq with ⟨rfl, hset⟩ | ⟨-, hold⟩
      · cases hset
        exact awake_of_ne (by simp) (by simp)
      · exact (hi j q hold).of_polls
  | read i =>
    refine inv_move hi (fun poll poll' hp hnext => ?_) h
    unfold Poll.next at hnext
    split at hnext
    · split_ifs at hnext <;> cases hnext <;> exact awake_of_ne (by simp) (by simp)
    · rename_i hphase
      split_ifs at hnext with hpending
      · cases hnext
        exact awake_of_ne (by simp) (by simp)
      · -- nothing is pending, and the poll has been subscribed since before it read
        cases hnext
        obtain ⟨messages, hsub⟩ := (hi i poll hp).subscribed hphase
        refine ⟨by simp, fun _ => ⟨messages, hsub, fun n hn => ?_⟩⟩
        rw [unread_eq_nil (not_ne_iff.1 hpending)] at hn
        cases hn
    · cases hnext
      exact awake_of_ne (by simp) (by simp)
    · cases hnext
  | subscribe i ok =>
    refine inv_move hi (fun poll poll' hp hsub => ?_) h
    unfold Poll.subscribed at hsub
    split at hsub
    · split_ifs at hsub
      · cases hsub
        exact ⟨fun _ => ⟨[], rfl⟩, by simp⟩
      · cases hsub
        exact awake_of_ne (by simp) (by simp)
    · cases hsub
  | nudged i =>
    refine inv_move hi (fun poll poll' hp hwake => ?_) h
    unfold Poll.wake at hwake
    split at hwake
    · cases hwake
      exact ⟨fun _ => ⟨_, rfl⟩, by simp⟩
    · cases hwake
  | deadline i | lost i =>
    refine inv_move hi (fun poll poll' hp hgive => ?_) h
    unfold Poll.giveUp at hgive
    split at hgive
    · cases hgive
      exact awake_of_ne (by simp) (by simp)
    · cases hgive
  | gone i =>
    cases h
    intro j q hq
    exact (hi j q (eq_some_of_remove hq).2).of_polls

/-! ## No poll sleeps on a notification -/

theorem move_eq {poll poll' : Poll} {f : Poll → Option Poll} (hp : w.polls i = some poll) (hf : f poll = some poll') :
    w.move i f = some { w with polls := Function.update w.polls i (some poll') } := by
  rw [World.move, hp, Option.bind_some, hf, Option.map_some]

end

/-- A run answers a poll with what is pending in these two steps: one ends its wait, the other reads. -/
def Answers (householdId : HouseholdId) (w : World) (i : ℕ) (wakes : Action) : Prop :=
  ∃ w', run (step householdId) w [wakes, .read i] = some w' ∧ w'.table = w.table ∧
    ∃ poll, w'.polls i = some poll ∧ poll.phase = .answered (listPending w.table householdId none) ∧ poll.subscription = none

/-- In every run, whenever a poll waits and a notification is unread: once the notification's event has been
handled, and the channel did not refuse its nudge, a nudge is there for the poll and its answer is what is
pending; and whatever became of the nudge, so is the answer it gives when its wait ends without one. -/
theorem poll_never_sleeps (householdId : HouseholdId) {acts : List Action} {w : World}
    (h : run (step householdId) World.empty acts = some w) {i : ℕ} {poll : Poll} (hp : w.polls i = some poll)
    (hwait : poll.phase = .waiting) {n : Notification} (hn : n ∈ unread w.table householdId) :
    n ∈ listPending w.table householdId none ∧
      (⟨n.id, householdId⟩ ∉ w.events → ⟨n.id, householdId⟩ ∉ w.refused → Answers householdId w i (.nudged i)) ∧
      Answers householdId w i (.deadline i) ∧ Answers householdId w i (.lost i) := by
  have hi : Inv householdId w := Run.inv (fun _ _ _ hi ht => inv_step hi ht) (inv_empty householdId) h
  have hmem := mem_listPending_none.2 hn
  have hne : listPending w.table householdId none ≠ [] := List.ne_nil_of_mem hmem
  obtain ⟨messages, hsub, hall⟩ := (hi i poll hp).nudging hwait
  have hgive : poll.giveUp = some { poll with phase := .last, subscription := none } := by rw [Poll.giveUp, hwait]
  have hlast : ∀ a, step householdId w a = w.move i Poll.giveUp → Answers householdId w i a := by
    intro a ha
    refine ⟨_, run_cons.2 ⟨_, ha.trans (move_eq hp hgive), run_cons.2 ⟨_, move_eq (Function.update_self ..) rfl, rfl⟩⟩, rfl, _,
      Function.update_self .., rfl, rfl⟩
  refine ⟨hmem, fun hevent hrefused => ?_, hlast _ rfl, hlast _ rfl⟩
  have hmessage : n.id ∈ messages := by
    have hnudging := hall n hn
    rw [Nudging, (mem_unread.1 hn).2.1] at hnudging
    exact (hnudging.resolve_left hevent).resolve_left hrefused
  obtain ⟨first, others, rfl⟩ := List.exists_cons_of_ne_nil (List.ne_nil_of_mem hmessage)
  have hwake : poll.wake = some { poll with phase := .rereading, subscription := some others } := by rw [Poll.wake, hwait, hsub]
  refine ⟨_, run_cons.2 ⟨_, move_eq hp hwake, run_cons.2 ⟨_, move_eq (Function.update_self ..) (if_pos hne), rfl⟩⟩, rfl, _,
    Function.update_self .., rfl, rfl⟩

/-- A reminder is created while a poll waits, and its nudge is published. -/
def polled : List Action :=
  [.request 0 30, .read 0, .subscribe 0 true, .read 0, .create (reminder 21 4), .request 1 30, .push ⟨21, 1⟩ .published]

theorem poll_never_sleeps_polled : ∃ w, run (step 1) World.empty polled = some w ∧ Answers 1 w 0 (.nudged 0) := by
  refine ⟨_, rfl, ?_⟩
  have hrun : run (step 1) World.empty polled = _ := rfl
  exact (poll_never_sleeps 1 hrun (i := 0) rfl rfl (n := reminder 21 4) (by decide)).2.1 (by decide) (by decide)

end Plantkeeper.Notifications.LongPoll
