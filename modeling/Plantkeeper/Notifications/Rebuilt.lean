/-
A rebuilt notification group: its ledger is lost, its offsets are reset, its tables are kept. The derived
identifier stops every event that has left a notification. An event that left none is weighed again, and
the plant may be known by now, or the reminder that silenced it acknowledged: then the second pass adds
what the first one did not.
-/
import Mathlib.Data.List.Induction
import Plantkeeper.Notifications.Consumer

namespace Plantkeeper.Notifications

/-! ## The group -/

/-- The tables of the group, and the events in its ledger in the order it took them. -/
structure Group where
  plantRefs : PlantRefs
  notifications : List Notification
  consumed : List DomainEvent

def Group.empty : Group := ⟨fun _ => none, [], []⟩

section

variable (names : Naming)

/-- A delivery: an event in the ledger is passed over. -/
def Group.consume (g : Group) (now : Instant) (e : DomainEvent) : Group :=
  if e.eventId ∈ g.consumed.map (·.eventId) then g
  else
    { plantRefs := rememberPlant g.plantRefs e
      notifications := g.notifications ++ (notificationFor names g.plantRefs g.notifications now e).toList
      consumed := g.consumed ++ [e] }

/-- A delivery, the first or another, or an acknowledgement; one that is refused changes nothing. -/
inductive GroupAction
  | deliver (e : DomainEvent) (now : Instant)
  | acknowledge (id : NotificationId) (now : Instant)

def Group.step (g : Group) : GroupAction → Group
  | .deliver e now => g.consume names now e
  | .acknowledge id now => { g with notifications := (acknowledge g.notifications id now).getD g.notifications }

/-- The group after a history. -/
def Group.after (history : List GroupAction) : Group := history.foldl (Group.step names) .empty

/-- The events consumed again on the same tables, the ledger being lost; `clock` is when. -/
def Group.again (g : Group) (clock : DomainEvent → Instant) (events : List DomainEvent) : Group :=
  events.foldl (fun g' e => g'.consume names (clock e) e) { g with consumed := [] }

end

/-! ## The second pass -/

section

variable {names : Naming} {g : Group} {clock : DomainEvent → Instant}

theorem consume_fresh {now : Instant} {e : DomainEvent} (h : e.eventId ∉ g.consumed.map (·.eventId)) :
    g.consume names now e = ⟨rememberPlant g.plantRefs e,
      g.notifications ++ (notificationFor names g.plantRefs g.notifications now e).toList, g.consumed ++ [e]⟩ := by
  unfold Group.consume
  exact if_neg h

theorem notifications_consume (now : Instant) (e : DomainEvent) :
    g.notifications <+: (g.consume names now e).notifications := by
  unfold Group.consume
  split
  · exact List.prefix_rfl
  · exact List.prefix_append ..

theorem nodup_consume (now : Instant) (e : DomainEvent) (h : (g.consumed.map (·.eventId)).Nodup) :
    ((g.consume names now e).consumed.map (·.eventId)).Nodup := by
  unfold Group.consume
  split
  · exact h
  · rename_i hfresh
    exact Table.nodup_insert h hfresh

/-- An event is in the ledger once. -/
theorem nodup_after (names : Naming) (history : List GroupAction) :
    ((Group.after names history).consumed.map (·.eventId)).Nodup := by
  unfold Group.after
  induction history using List.reverseRecOn with
  | nil => exact List.nodup_nil
  | append_singleton history a ih =>
    rw [List.foldl_append]
    cases a with
    | deliver e now => exact nodup_consume now e ih
    | acknowledge id now => exact ih

variable (names g clock)

theorem again_snoc (events : List DomainEvent) (e : DomainEvent) :
    g.again names clock (events ++ [e]) = (g.again names clock events).consume names (clock e) e := by
  unfold Group.again
  rw [List.foldl_append]
  rfl

/-- The next event is not yet in the ledger of the second pass. -/
theorem fresh_again {events : List DomainEvent} {e : DomainEvent} (h : ((events ++ [e]).map (·.eventId)).Nodup)
    (hconsumed : (g.again names clock events).consumed = events) :
    e.eventId ∉ (g.again names clock events).consumed.map (·.eventId) := by
  rw [List.map_append, List.nodup_append'] at h
  rw [hconsumed]
  exact fun hin => h.2.2 hin (List.mem_singleton_self _)

/-- The second pass rebuilds the ledger, and the references from what is left of them. -/
theorem again_ledger {events : List DomainEvent} (h : (events.map (·.eventId)).Nodup) :
    (g.again names clock events).consumed = events ∧
      (g.again names clock events).plantRefs = events.foldl rememberPlant g.plantRefs := by
  induction events using List.reverseRecOn with
  | nil => exact ⟨rfl, rfl⟩
  | append_singleton events e ih =>
    have hfront : (events.map (·.eventId)).Nodup := by
      rw [List.map_append] at h
      exact h.of_append_left
    obtain ⟨hconsumed, hrefs⟩ := ih hfront
    rw [again_snoc, consume_fresh (fresh_again names g clock h hconsumed), List.foldl_append, hconsumed, hrefs]
    exact ⟨rfl, rfl⟩

theorem notifications_again (events rest : List DomainEvent) :
    (g.again names clock events).notifications <+: (g.again names clock (events ++ rest)).notifications := by
  induction rest using List.reverseRecOn with
  | nil => simp
  | append_singleton rest e ih =>
    rw [← List.append_assoc, again_snoc]
    exact ih.trans (notifications_consume (clock e) e)

/-- One more event of the second pass. -/
theorem notifications_again_snoc {events : List DomainEvent} {e : DomainEvent} (h : ((events ++ [e]).map (·.eventId)).Nodup) :
    (g.again names clock (events ++ [e])).notifications = (g.again names clock events).notifications ++
      (notificationFor names (events.foldl rememberPlant g.plantRefs) (g.again names clock events).notifications (clock e)
        e).toList := by
  have hfront : (events.map (·.eventId)).Nodup := by
    rw [List.map_append] at h
    exact h.of_append_left
  obtain ⟨hconsumed, hrefs⟩ := again_ledger names g clock hfront
  rw [again_snoc, consume_fresh (fresh_again names g clock h hconsumed), hrefs]

end

/-! ## Which plants it knows -/

/-- Whether an event adds or removes the plant. -/
def mention (p : PlantId) (e : DomainEvent) : Option Bool :=
  match e.fact with
  | .garden (.plantAdded q ..) => if q = p then some true else none
  | .garden (.plantRemoved q ..) => if q = p then some false else none
  | _ => none

/-- The plant was last added among the events, or it was neither added nor removed and was known. -/
def known (refs : PlantRefs) (events : List DomainEvent) (p : PlantId) : Bool :=
  (events.reverse.findSome? (mention p)).getD (refs p).isSome

theorem isSome_rememberPlant (refs : PlantRefs) (e : DomainEvent) (p : PlantId) :
    (rememberPlant refs e p).isSome = (mention p e).getD (refs p).isSome := by
  rcases e with ⟨id, (_ | _ | _) | _ | _⟩
  · rename_i q householdId speciesId name location addedAt occurredAt
    by_cases hq : q = p
    · subst hq
      simp [rememberPlant, maintainPlantReference, upsertReference, mention]
    · simp [rememberPlant, maintainPlantReference, upsertReference, Keyed.upsert_apply, mention, hq, Ne.symm hq]
  · rename_i q previous location occurredAt
    cases hrow : refs q with
    | none => simp [rememberPlant, maintainPlantReference, mention, hrow]
    | some row =>
      by_cases hq : q = p
      · subst hq
        simp [rememberPlant, maintainPlantReference, mention, upsertReference, hrow]
      · simp [rememberPlant, maintainPlantReference, mention, upsertReference, hrow, Keyed.upsert_apply, Ne.symm hq]
  · rename_i q removedAt occurredAt
    by_cases hq : q = p
    · subst hq
      simp [rememberPlant, maintainPlantReference, mention]
    · simp [rememberPlant, maintainPlantReference, mention, hq, Ne.symm hq]
  · rfl
  · rfl

theorem isSome_foldl_rememberPlant (refs : PlantRefs) (p : PlantId) (events : List DomainEvent) :
    (events.foldl rememberPlant refs p).isSome = known refs events p := by
  unfold known
  induction events using List.reverseRecOn with
  | nil => rfl
  | append_singleton events e ih =>
    rw [List.foldl_append, List.reverse_append]
    show (rememberPlant (events.foldl rememberPlant refs) e p).isSome = _
    rw [isSome_rememberPlant, ih]
    cases hm : mention p e with
    | none => simp [hm]
    | some b => simp [hm]

/-! ## The second pass against the first -/

section

variable (names : Naming)

/-- Whatever the second pass meets stops every event: the event has left its notification, or its plant is
not known then, or the event is of a guarded type and the household still has one unread. -/
def Stopped (g : Group) : Prop :=
  ∀ before e rest r, g.consumed = before ++ e :: rest → reminder? e.fact = some r →
    stored g.notifications (notificationIdFor names r.eventName e.eventId) = true ∨
      known g.plantRefs before r.plantId = false ∨
      (unreadGuarded r.notificationType = true ∧ ∀ plant, before.foldl rememberPlant g.plantRefs r.plantId = some plant →
        hasUnread g.notifications plant.householdId r.notificationType r.plantId = true)

variable {names} {g : Group} {clock : DomainEvent → Instant}

/-- The guards of `_store` on the tables of the first pass. -/
theorem notificationFor_eq_none {events : List DomainEvent} {e : DomainEvent} {now : Instant} :
    notificationFor names (events.foldl rememberPlant g.plantRefs) g.notifications now e = none ↔
      ∀ r, reminder? e.fact = some r →
        stored g.notifications (notificationIdFor names r.eventName e.eventId) = true ∨
          known g.plantRefs events r.plantId = false ∨
          (unreadGuarded r.notificationType = true ∧ ∀ plant, events.foldl rememberPlant g.plantRefs r.plantId = some plant →
            hasUnread g.notifications plant.householdId r.notificationType r.plantId = true) := by
  unfold notificationFor
  cases hr : reminder? e.fact with
  | none => simp
  | some r =>
    have hknown := isSome_foldl_rememberPlant g.plantRefs r.plantId events
    simp only [Option.bind_some, store_eq_none, Option.some.injEq, forall_eq']
    cases hplant : events.foldl rememberPlant g.plantRefs r.plantId with
    | none =>
      rw [hplant] at hknown
      simp [← hknown]
    | some plant =>
      rw [hplant] at hknown
      cases hs : stored g.notifications (notificationIdFor names r.eventName e.eventId) with
      | true => simp
      | false => simp [← hknown]

/-- In a second pass that adds nothing, no part of it adds anything. -/
theorem again_same {before rest : List DomainEvent}
    (h : (g.again names clock (before ++ rest)).notifications = g.notifications) :
    (g.again names clock before).notifications = g.notifications := by
  have hlow : g.notifications <+: (g.again names clock before).notifications := notifications_again names g clock [] before
  have hhigh : (g.again names clock before).notifications <+: g.notifications := by
    rw [← h]
    exact notifications_again names g clock before rest
  exact hhigh.eq_of_length_le hlow.length_le

theorem again_creates_nothing_iff (hnodup : (g.consumed.map (·.eventId)).Nodup) :
    (g.again names clock g.consumed).notifications = g.notifications ↔ Stopped names g := by
  have hfront : ∀ {before rest : List DomainEvent}, g.consumed = before ++ rest → (before.map (·.eventId)).Nodup := by
    intro before rest heq
    rw [heq, List.map_append] at hnodup
    exact hnodup.of_append_left
  constructor
  · -- nothing is added before the event either, so it meets the tables of the first pass
    intro hsame before e rest r heq hr
    have hbefore : (g.again names clock before).notifications = g.notifications := again_same (by rw [← heq]; exact hsame)
    have heq' : g.consumed = (before ++ [e]) ++ rest := by simpa using heq
    have hafter : (g.again names clock (before ++ [e])).notifications = g.notifications :=
      again_same (by rw [← heq']; exact hsame)
    rw [notifications_again_snoc names g clock (hfront heq'), hbefore, List.append_right_eq_self, Option.toList_eq_nil_iff] at hafter
    exact notificationFor_eq_none.1 hafter r hr
  · intro hstopped
    have hall : ∀ before rest : List DomainEvent, g.consumed = before ++ rest →
        (g.again names clock before).notifications = g.notifications := by
      intro before
      induction before using List.reverseRecOn with
      | nil => exact fun _ _ => rfl
      | append_singleton before e ih =>
        intro rest heq
        have heq' : g.consumed = before ++ e :: rest := by simpa using heq
        rw [notifications_again_snoc names g clock (hfront heq), ih (e :: rest) heq',
          notificationFor_eq_none.2 fun r hr => hstopped before e rest r heq' hr]
        simp
    exact hall g.consumed [] (by simp)

end

/-- For every history of deliveries and acknowledgements: the events consumed again in the same order, on
the tables they left and with the ledger lost, create no notification exactly if each of them that calls
for one has left it, or concerns a plant that is not known when its turn comes, or is of a guarded type of
which the household still has one unread. -/
theorem rebuilt_creates_nothing_iff (names : Naming) (history : List GroupAction) (clock : DomainEvent → Instant) :
    ((Group.after names history).again names clock (Group.after names history).consumed).notifications =
        (Group.after names history).notifications ↔
      Stopped names (Group.after names history) :=
  again_creates_nothing_iff (nodup_after names history)

/-- The texts and identifiers of the two readings below. -/
def lowNaming : Naming :=
  { uuid5 := fun s =>
      if s = "plantkeeper:notification:SoilMoistureLow:00000000-0000-0000-0000-000000000002"
      then 84903640261777907509964387190579615564 else 243154089472280087615695653031527738697
    str := fun id =>
      if id = 2 then "00000000-0000-0000-0000-000000000002" else "00000000-0000-0000-0000-000000000003"
    isoformat := fun _ => "1970-01-01T00:00:01+00:00" }

/-- The soil of plant 7 is dry. -/
def tooDry (eventId : Uuid) (t : Instant) : DomainEvent :=
  ⟨eventId, .telemetry (.soilMoistureLow 9 7 ⟨10, by decide, by decide⟩ 30 t)⟩

def introduced : DomainEvent :=
  ⟨1, .garden (.plantAdded 7 3 5 ⟨['p'], by decide, by decide⟩ ⟨['a'], by decide, by decide, by decide⟩ 0 0)⟩

/-- Two dry readings, of which the first is told and acknowledged. -/
def dryTwice : List GroupAction :=
  [.deliver introduced 1, .deliver (tooDry 2 2) 3, .deliver (tooDry 3 4) 5,
    .acknowledge 84903640261777907509964387190579615564 6]

/-- The second reading was silenced by the reminder that is acknowledged now. -/
theorem rebuilt_creates_again :
    (Group.after lowNaming dryTwice).notifications.map (·.id) = [84903640261777907509964387190579615564] ∧
    ((Group.after lowNaming dryTwice).again lowNaming (fun _ => 7) (Group.after lowNaming dryTwice).consumed).notifications.map
      (·.id) = [84903640261777907509964387190579615564, 243154089472280087615695653031527738697] := by
  constructor <;> decide

end Plantkeeper.Notifications
