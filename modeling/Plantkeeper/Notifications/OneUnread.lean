/-
One unread reminder of a kind that a sensor would repeat. Both producers read the household's unread
notifications and add one in a transaction of their own; the deliveries about one plant come one at a
time, those about others and the acknowledgements in between. What a delivery has not found when it looked
is not there when it commits either: only a delivery about the same plant could have added it.
-/
import Plantkeeper.Lib.Run
import Plantkeeper.Notifications.Consumer

namespace Plantkeeper.Notifications

/-! ## Deliveries -/

/-- The two consumer groups. -/
inductive Producer
  | notifications
  | adaptiveWatering
  deriving DecidableEq

/-- A delivery that has read what it needs: the notification it is about to add, if any. -/
structure Delivery where
  producer : Producer
  event : DomainEvent
  draft : Option Notification
  deriving DecidableEq

/-- The households of the Garden's plants, the context's references, the notifications, the ledger, the
open delivery about each plant; and which event each notification was made of. -/
structure Desk where
  plants : PlantId → Option HouseholdId
  plantRefs : PlantRefs
  notifications : List Notification
  ledger : List (Producer × Uuid)
  deliveries : PlantId → Option Delivery
  made : List (DomainEvent × NotificationId)

def Desk.empty : Desk := ⟨fun _ => none, fun _ => none, [], [], fun _ => none, []⟩

/-- The Garden adds, moves or removes a plant. A message reaches a group, which reads at the instant `now`
and has a new identifier at hand; the open delivery about a plant commits or is rolled back; a
notification is acknowledged. -/
inductive DeskAction
  | garden (event : Garden.Event)
  | start (producer : Producer) (event : DomainEvent) (now : Instant) (newId : NotificationId)
  | commit (plantId : PlantId)
  | rollback (plantId : PlantId)
  | acknowledge (id : NotificationId) (now : Instant)

/-- A move keeps the household, and a removed plant is still found. -/
def keepPlant (plants : PlantId → Option HouseholdId) : Garden.Event → PlantId → Option HouseholdId
  | .plantAdded plantId householdId .. => Function.update plants plantId (some householdId)
  | .plantMoved .. | .plantRemoved .. => plants

def Desk.put (w : Desk) (p : PlantId) (d : Option Delivery) : Desk :=
  { w with deliveries := Function.update w.deliveries p d }

/-- The claim, the references and the notification are committed together. -/
def Desk.commit (w : Desk) (p : PlantId) (d : Delivery) : Desk :=
  { w.put p none with
    plantRefs := match d.producer with
      | .notifications => rememberPlant w.plantRefs d.event
      | .adaptiveWatering => w.plantRefs
    notifications := w.notifications ++ d.draft.toList
    ledger := w.ledger ++ [(d.producer, d.event.eventId)]
    made := w.made ++ (d.draft.map fun n => (d.event, n.id)).toList }

section

variable (names : Naming)

/-- What the handler of a group adds. -/
def Desk.draft (w : Desk) (now : Instant) (newId : NotificationId) (e : DomainEvent) : Producer → Option Notification
  | .notifications => notificationFor names w.plantRefs w.notifications now e
  | .adaptiveWatering => onSoilMoistureHigh w.plants w.notifications newId now e

/-- One step. An event of the ledger is passed over, and a delivery about a plant waits for the one that is
open. A commit that finds its claim or its notification taken is rolled back. -/
def Desk.step (w : Desk) : DeskAction → Option Desk
  | .garden event => some { w with plants := keepPlant w.plants event }
  | .start producer event now newId =>
    if (producer, event.eventId) ∈ w.ledger then some w
    else if (w.deliveries event.fact.plantId).isSome then none
    else some (w.put event.fact.plantId (some ⟨producer, event, w.draft names now newId event producer⟩))
  | .commit p =>
    (w.deliveries p).map fun d =>
      if (d.producer, d.event.eventId) ∈ w.ledger ∨ d.draft.any (fun n => stored w.notifications n.id) then w.put p none
      else w.commit p d
  | .rollback p => some (w.put p none)
  | .acknowledge id now => some { w with notifications := (acknowledge w.notifications id now).getD w.notifications }

end

/-! ## Unread notifications of a kind -/

/-- The kinds of which a household has one unread at most for each plant. -/
def single : NotificationType → Bool
  | .soilMoistureLow | .temperatureAnomaly | .soilMoistureHigh => true
  | _ => false

/-- An unread notification to the household, of the type and about the plant. -/
def isUnread (householdId : HouseholdId) (type : NotificationType) (plantId : PlantId) (n : Notification) : Bool :=
  n.householdId = householdId && n.readAt.isNone && n.notificationType = type && concerns n plantId

/-- The household's unread notifications of a type about a plant. -/
def unreadAbout (table : List Notification) (householdId : HouseholdId) (type : NotificationType) (plantId : PlantId) :
    List Notification :=
  table.filter (isUnread householdId type plantId)

section

variable {table : List Notification} {householdId : HouseholdId} {type : NotificationType} {plantId : PlantId}

theorem hasUnread_eq_false (h : hasUnread table householdId type plantId = false) :
    unreadAbout table householdId type plantId = [] := by
  unfold unreadAbout
  rw [List.filter_eq_nil_iff]
  intro n hn hunread
  have htrue : hasUnread table householdId type plantId = true := by
    rw [hasUnread_iff]
    simp only [isUnread, Bool.and_eq_true, decide_eq_true_eq, Option.isNone_iff_eq_none] at hunread
    exact ⟨n, hn, hunread.1.1.1, hunread.1.1.2, hunread.1.2, hunread.2⟩
  rw [h] at htrue
  cases htrue

/-- An acknowledgement adds nothing unread. -/
theorem unreadAbout_acknowledge (id : NotificationId) (now : Instant) :
    (unreadAbout ((acknowledge table id now).getD table) householdId type plantId).length ≤
      (unreadAbout table householdId type plantId).length := by
  cases hack : acknowledge table id now with
  | none => exact le_refl _
  | some table' =>
    rw [Option.getD_some, acknowledge_eq hack]
    unfold unreadAbout Table.update
    rw [← List.countP_eq_length_filter, ← List.countP_eq_length_filter, List.countP_map]
    refine List.countP_mono_left fun n _ hn => ?_
    simp only [Function.comp_apply] at hn
    split at hn
    · simp [isUnread] at hn
    · exact hn

theorem unreadAbout_append (n : Notification) : unreadAbout (table ++ [n]) householdId type plantId =
    unreadAbout table householdId type plantId ++ if isUnread householdId type plantId n then [n] else [] := by
  unfold unreadAbout
  rw [List.filter_append]
  congr 1
  cases hn : isUnread householdId type plantId n with
  | true => simp [hn]
  | false => simp [hn]

/-- A notification is about one plant. -/
theorem concerns_unique {n : Notification} {p q : PlantId} (hp : concerns n p = true) (hq : concerns n q = true) : p = q := by
  unfold concerns at hp hq
  have heq := (of_decide_eq_true hp).symm.trans (of_decide_eq_true hq)
  cases heq
  rfl

theorem ids_acknowledge (id : NotificationId) (now : Instant) :
    ((acknowledge table id now).getD table).map (·.id) = table.map (·.id) := by
  cases hack : acknowledge table id now with
  | none => rfl
  | some table' =>
    rw [Option.getD_some, acknowledge_eq hack]
    exact Table.map_update fun _ _ _ => rfl

end

/-! ## The invariant -/

/-- The group that makes notifications of such an event. -/
def producerOf : Fact → Producer
  | .telemetry (.soilMoistureHigh ..) => .adaptiveWatering
  | _ => .notifications

/-- A notification that is about to be added is the one its group makes of the event, it is about the plant
of the event, and of a kind of which none is unread if there may be one at most. -/
structure DraftOk (table : List Notification) (p : PlantId) (d : Delivery) (n : Notification) : Prop where
  concerns : concerns n p = true
  alone : single n.notificationType = true → unreadAbout table n.householdId n.notificationType p = []
  producer : d.producer = producerOf d.event.fact

/-- One unread of a kind for each plant; the notifications and what they were made of; and the drafts. -/
structure OneUnread (w : Desk) : Prop where
  one : ∀ householdId type plantId, single type = true → (unreadAbout w.notifications householdId type plantId).length ≤ 1
  ids : w.notifications.map (·.id) = w.made.map (·.2)
  unique : (w.made.map (·.2)).Nodup
  claimed : ∀ x ∈ w.made, (producerOf x.1.fact, x.1.eventId) ∈ w.ledger
  once : (w.made.map (·.1)).Nodup
  drafts : ∀ p d, w.deliveries p = some d → ∀ n, d.draft = some n → DraftOk w.notifications p d n

theorem oneUnread_empty : OneUnread .empty :=
  ⟨fun _ _ _ _ => Nat.zero_le _, rfl, List.nodup_nil, fun _ h => (nomatch h), List.nodup_nil, fun _ _ h => (nomatch h)⟩

/-! ## What the steps keep -/

section

variable {names : Naming} {w w' : Desk}

theorem producerOf_reminder {f : Fact} {r : Reminder} (h : reminder? f = some r) : producerOf f = .notifications := by
  rcases f with _ | (_ | _ | _ | _ | _ | _) | (_ | _ | _ | _ | _) <;> cases h <;> rfl

theorem unreadGuarded_of_single {type : NotificationType} (hs : single type = true) (hne : type ≠ .soilMoistureHigh) :
    unreadGuarded type = true := by
  cases type <;> first | rfl | exact absurd rfl hne | cases hs

/-- What a delivery has read. -/
theorem draftOk_start {now : Instant} {newId : NotificationId} {e : DomainEvent} {producer : Producer} {n : Notification}
    (h : w.draft names now newId e producer = some n) :
    DraftOk w.notifications e.fact.plantId ⟨producer, e, some n⟩ n := by
  cases producer with
  | notifications =>
    obtain ⟨r, hr, hstore⟩ := Option.bind_eq_some_iff.1 h
    obtain ⟨hplant, hpayload, htype⟩ := reminder?_ok hr
    obtain ⟨plant, -, rfl, hguard⟩ := store_ok hstore
    refine ⟨?_, fun hs => ?_, (producerOf_reminder hr).symm⟩
    · simp [concerns, Notification.create, hpayload]
    · rw [← hplant]
      exact hasUnread_eq_false (hguard (unreadGuarded_of_single hs htype))
  | adaptiveWatering =>
    -- the household is the Garden's, and it is the one whose list was read
    have h : onSoilMoistureHigh w.plants w.notifications newId now e = some n := h
    unfold onSoilMoistureHigh at h
    split at h
    · rename_i plantId moisture threshold occurredAt hfact
      split at h
      · cases h
      · rename_i householdId _
        split at h
        · cases h
        · rename_i hunread
          cases h
          have hfalse : hasUnread w.notifications householdId .soilMoistureHigh plantId = false := by simpa using hunread
          have hplant : e.fact.plantId = plantId := by
            rw [hfact]
            rfl
          rw [hplant]
          refine ⟨by simp [concerns, Notification.create], fun _ => hasUnread_eq_false hfalse, ?_⟩
          rw [hfact]
          rfl
    · cases h

/-- A step that leaves the notifications and what they were made of alone. -/
theorem OneUnread.frame (h : OneUnread w) (hnotifications : w'.notifications = w.notifications) (hmade : w'.made = w.made)
    (hledger : w.ledger ⊆ w'.ledger) (hdrafts : ∀ p d, w'.deliveries p = some d → ∀ n, d.draft = some n →
      DraftOk w.notifications p d n) : OneUnread w' where
  one := by rw [hnotifications]; exact h.one
  ids := by rw [hnotifications, hmade]; exact h.ids
  unique := by rw [hmade]; exact h.unique
  claimed := by rw [hmade]; exact fun x hx => hledger (h.claimed x hx)
  once := by rw [hmade]; exact h.once
  drafts := by rw [hnotifications]; exact hdrafts

theorem OneUnread.rollback (h : OneUnread w) (p : PlantId) : OneUnread (w.put p none) := by
  exact h.frame rfl rfl (List.Subset.refl _) fun q d hq => h.drafts q d (Run.eq_some_of_remove hq).2

/-- A notification of one plant leaves the unread ones of another as they are. -/
theorem DraftOk.append {table : List Notification} {p q : PlantId} {d : Delivery} {n m : Notification}
    (h : DraftOk table q d n) (hm : Notifications.concerns m p = true) (hne : q ≠ p) : DraftOk (table ++ [m]) q d n := by
  refine ⟨h.concerns, fun hs => ?_, h.producer⟩
  have hnot : isUnread n.householdId n.notificationType q m = false := by
    by_contra hunread
    simp only [isUnread, Bool.not_eq_false, Bool.and_eq_true] at hunread
    exact hne (concerns_unique hunread.2 hm)
  rw [unreadAbout_append, hnot, h.alone hs]
  rfl

/-- One is added where there was none. -/
theorem DraftOk.one {table : List Notification} {p : PlantId} {d : Delivery} {n : Notification} (h : DraftOk table p d n)
    {householdId : HouseholdId} {type : NotificationType} {q : PlantId} (hs : single type = true)
    (hone : (unreadAbout table householdId type q).length ≤ 1) :
    (unreadAbout (table ++ [n]) householdId type q).length ≤ 1 := by
  rw [unreadAbout_append]
  split
  · rename_i hunread
    simp only [isUnread, Bool.and_eq_true, decide_eq_true_eq] at hunread
    obtain ⟨⟨⟨rfl, -⟩, rfl⟩, hq⟩ := hunread
    rw [concerns_unique hq h.concerns, h.alone hs]
    simp
  · rw [List.append_nil]
    exact hone

theorem deliveries_commit {p q : PlantId} {d d' : Delivery} (h : (w.commit p d).deliveries q = some d') :
    q ≠ p ∧ w.deliveries q = some d' :=
  Run.eq_some_of_remove h

theorem OneUnread.commit_nothing (h : OneUnread w) {p : PlantId} {d : Delivery} (hdraft : d.draft = none) :
    OneUnread (w.commit p d) := by
  refine h.frame ?_ ?_ (List.subset_append_left ..) fun q d' hq => h.drafts q d' (deliveries_commit hq).2
  · simp [Desk.commit, hdraft]
  · simp [Desk.commit, hdraft]

theorem OneUnread.commit_one (h : OneUnread w) {p : PlantId} {d : Delivery} {n : Notification} (hdraft : d.draft = some n)
    (hok : DraftOk w.notifications p d n) (hclaim : (d.producer, d.event.eventId) ∉ w.ledger)
    (hid : stored w.notifications n.id = false) : OneUnread (w.commit p d) := by
  have hnotifications : (w.commit p d).notifications = w.notifications ++ [n] := by simp [Desk.commit, hdraft]
  have hmade : (w.commit p d).made = w.made ++ [(d.event, n.id)] := by simp [Desk.commit, hdraft]
  refine ⟨fun householdId type q hs => ?_, ?_, ?_, fun x hx => ?_, ?_, fun q d' hq n' hn' => ?_⟩
  · rw [hnotifications]
    exact hok.one hs (h.one householdId type q hs)
  · rw [hnotifications, hmade, List.map_append, List.map_append, h.ids]
    rfl
  · rw [hmade]
    refine Table.nodup_insert h.unique fun hin => ?_
    rw [← h.ids] at hin
    obtain ⟨m, hm, hid'⟩ := List.mem_map.1 hin
    simp only [stored, List.any_eq_false, decide_eq_true_eq] at hid
    exact hid m hm hid'
  · rw [hmade] at hx
    rcases List.mem_append.1 hx with hx | hx
    · exact List.mem_append_left _ (h.claimed x hx)
    · cases List.mem_singleton.1 hx
      rw [← hok.producer]
      exact List.mem_append_right _ (List.mem_singleton_self _)
  · -- only its own group makes a notification of the event, and that group's claim was free
    rw [hmade]
    refine Table.nodup_insert h.once fun hin => hclaim ?_
    obtain ⟨x, hx, hevent⟩ := List.mem_map.1 hin
    have hkey := h.claimed x hx
    rw [hevent, ← hok.producer] at hkey
    exact hkey
  · obtain ⟨hne, hopen⟩ := deliveries_commit hq
    rw [hnotifications]
    exact (h.drafts q d' hopen n' hn').append hok.concerns hne

theorem OneUnread.commit (h : OneUnread w) {p : PlantId} {d : Delivery} (hd : w.deliveries p = some d)
    (hclaim : (d.producer, d.event.eventId) ∉ w.ledger) (hid : d.draft.any (fun n => stored w.notifications n.id) = false) :
    OneUnread (w.commit p d) := by
  cases hdraft : d.draft with
  | none => exact h.commit_nothing hdraft
  | some n => exact h.commit_one hdraft (h.drafts p d hd n hdraft) hclaim (by simpa [hdraft] using hid)

theorem OneUnread.acknowledge (h : OneUnread w) (id : NotificationId) (now : Instant) :
    OneUnread { w with notifications := (Notifications.acknowledge w.notifications id now).getD w.notifications } where
  one householdId type p hs := (unreadAbout_acknowledge id now).trans (h.one householdId type p hs)
  ids := (ids_acknowledge id now).trans h.ids
  unique := h.unique
  claimed := h.claimed
  once := h.once
  drafts p d hd n hn := by
    have hok := h.drafts p d hd n hn
    refine ⟨hok.concerns, fun hs => ?_, hok.producer⟩
    have hle : (unreadAbout ((Notifications.acknowledge w.notifications id now).getD w.notifications) n.householdId
        n.notificationType p).length ≤ (unreadAbout w.notifications n.householdId n.notificationType p).length :=
      unreadAbout_acknowledge id now
    rw [hok.alone hs] at hle
    exact List.eq_nil_of_length_eq_zero (Nat.le_zero.1 hle)

theorem oneUnread_step {a : DeskAction} (h : OneUnread w) (hstep : w.step names a = some w') : OneUnread w' := by
  cases a with
  | garden event =>
    cases hstep
    exact h.frame rfl rfl (List.Subset.refl _) h.drafts
  | start producer event now newId =>
    simp only [Desk.step] at hstep
    split at hstep
    · cases hstep
      exact h
    · split at hstep
      · cases hstep
      · cases hstep
        -- the delivery that is opened has just looked, the others are as they were
        refine h.frame rfl rfl (List.Subset.refl _) fun p d hp n hn => ?_
        rcases Run.update_eq_some.1 hp with ⟨rfl, hd⟩ | ⟨-, hd⟩
        · cases hd
          have hdraft : w.draft names now newId event producer = some n := hn
          rw [hdraft]
          exact draftOk_start hdraft
        · exact h.drafts p d hd n hn
  | commit p =>
    obtain ⟨d, hd, rfl⟩ := Option.map_eq_some_iff.1 hstep
    split
    · exact h.rollback p
    · rename_i hfree
      rw [not_or] at hfree
      exact h.commit hd hfree.1 (by simpa using hfree.2)
  | rollback p =>
    cases hstep
    exact h.rollback p
  | acknowledge id now =>
    cases hstep
    exact h.acknowledge id now

end

/-- After every sequence of deliveries to the two groups, acknowledgements and changes of the Garden: a
household has one unread notification at most of each of the three kinds for each plant, every notification
was made of one event, and no event of two. -/
theorem one_unread {names : Naming} {as : List DeskAction} {w : Desk} (hrun : Run.run (Desk.step names) .empty as = some w) :
    (∀ householdId plantId type, type ∈ [NotificationType.soilMoistureLow, .temperatureAnomaly, .soilMoistureHigh] →
        (unreadAbout w.notifications householdId type plantId).length ≤ 1) ∧
      (w.notifications.map (·.id) = w.made.map (·.2) ∧ (w.notifications.map (·.id)).Nodup) ∧
      ∀ e, (w.made.filter fun x => x.1 = e).length ≤ 1 := by
  have h : OneUnread w := Run.inv (fun _ _ _ => oneUnread_step) oneUnread_empty hrun
  refine ⟨fun householdId plantId type htype => ?_, ⟨h.ids, ?_⟩, fun e => ?_⟩
  · apply h.one
    simp only [List.mem_cons, List.not_mem_nil, or_false] at htype
    rcases htype with rfl | rfl | rfl <;> rfl
  · rw [h.ids]
    exact h.unique
  · exact Table.length_filter_le_one h.once fun _ _ he => of_decide_eq_true he

/-- The texts and identifiers of two dry readings. -/
def drySoil : Naming :=
  { uuid5 := fun s =>
      if s = "plantkeeper:notification:SoilMoistureLow:00000000-0000-0000-0000-000000000002"
      then 84903640261777907509964387190579615564 else 243154089472280087615695653031527738697
    str := fun id =>
      if id = 2 then "00000000-0000-0000-0000-000000000002" else "00000000-0000-0000-0000-000000000003"
    isoformat := fun _ => "1970-01-01T00:00:01+00:00" }

def plantAdded : Garden.Event :=
  .plantAdded 7 3 5 ⟨['i', 'v', 'y'], by decide, by decide⟩ ⟨['h', 'a', 'l', 'l'], by decide, by decide, by decide⟩ 0 0

/-- Plant 7 gets dry twice, and is watered too much in between; the first reminder is acknowledged while
the second reading waits for its commit. -/
def dryAndWet : List DeskAction :=
  [.garden plantAdded, .start .notifications ⟨1, .garden plantAdded⟩ 1 0, .commit 7,
    .start .notifications ⟨2, .telemetry (.soilMoistureLow 9 7 ⟨11, by decide, by decide⟩ 30 2)⟩ 3 0, .commit 7,
    .start .adaptiveWatering ⟨4, .telemetry (.soilMoistureHigh 9 7 ⟨91, by decide, by decide⟩ 80 4)⟩ 5 50, .commit 7,
    .start .notifications ⟨3, .telemetry (.soilMoistureLow 9 7 ⟨11, by decide, by decide⟩ 30 6)⟩ 7 0,
    .acknowledge 84903640261777907509964387190579615564 8, .commit 7]

theorem run_dryAndWet : (Run.run (Desk.step drySoil) .empty dryAndWet).isSome := by decide

theorem one_unread_dryAndWet : ∃ w, Run.run (Desk.step drySoil) .empty dryAndWet = some w ∧
    w.notifications.map (·.id) = [84903640261777907509964387190579615564, 50] ∧
    (unreadAbout w.notifications 3 .soilMoistureHigh 7).length ≤ 1 :=
  ⟨(Run.run (Desk.step drySoil) .empty dryAndWet).get run_dryAndWet, (Option.some_get _).symm, by decide,
    (one_unread (Option.some_get run_dryAndWet).symm).1 3 7 .soilMoistureHigh (by decide)⟩

end Plantkeeper.Notifications
