/-
A projection that is rebuilt over the tables it has written. After any interleaving of the topics, the
history of one topic projected a second time leaves every table as it was. In the middle of the second
pass a row is not what it was, since earlier events set back what later ones had set; but every handler
sets columns of its own, and the first event of a plant, a schedule or a notification makes its row, so
that at the end each column has again what was last set.
-/
import Plantkeeper.ReadModel.PlantRows

namespace Plantkeeper.ReadModel

open Plantkeeper.Journal

/-! ## One topic of an interleaving -/

/-- The events of one topic among all. -/
structure Topic (α : Type) where
  get? : TopicEvent → Option α
  put : α → TopicEvent
  put_of_get? : ∀ {e a}, get? e = some a → put a = e

def gardenTopic : Topic GardenEvent where
  get? := TopicEvent.garden?
  put := .garden
  put_of_get? {e _} h := by cases e <;> cases h; rfl

def careTopic : Topic CareEvent where
  get? := TopicEvent.care?
  put := .care
  put_of_get? {e _} h := by cases e <;> cases h; rfl

def journalTopic : Topic JournalEntryAdded where
  get? := TopicEvent.journal?
  put := .journal
  put_of_get? {e _} h := by cases e <;> cases h; rfl

def notificationTopic : Topic NotificationEvent where
  get? := TopicEvent.notification?
  put := .notification
  put_of_get? {e _} h := by cases e <;> cases h; rfl

namespace Topic

variable {α ρ : Type} (T : Topic α)

theorem filter_any (about : α → Bool) (es : List TopicEvent) :
    (es.filter fun e => (T.get? e).any about) = ((es.filterMap T.get?).filter about).map T.put := by
  induction es with
  | nil => rfl
  | cons e es ih =>
    cases he : T.get? e with
    | none => simp [he, ih]
    | some a =>
      have hput : T.put a = e := T.put_of_get? he
      cases ha : about a with
      | true => simp [he, ha, ih, hput]
      | false => simp [he, ha, ih]

variable (view : ReadTables → Option ρ) {act : Option ρ → TopicEvent → Option ρ} {patch : ρ → TopicEvent → ρ}
  {creates : TopicEvent → Prop} {about : α → Bool}

/-- A row whose columns the topic owns is as it was when the topic's history is projected again. -/
theorem again (hview : ∀ t e, view (project t e) = act (view t) e) (hempty : view .empty = none)
    (howner : Keyed.Owner act (fun e => (T.get? e).any about) patch creates)
    (hskip : ∀ row a, about a = false → act row (T.put a) = row) (es : List TopicEvent)
    (hfirst : ∀ a ∈ ((es.filterMap T.get?).filter about).head?, creates (T.put a)) :
    view ((es.filterMap T.get?).foldl (fun t a => project t (T.put a)) (es.foldl project .empty)) =
      view (es.foldl project .empty) := by
  have hfold : ∀ (es : List TopicEvent) (t : ReadTables), view (es.foldl project t) = es.foldl act (view t) :=
    fun es t => (List.foldl_hom view fun t' e => (hview t' e).symm).symm
  have hhead : ∀ e ∈ (es.filter fun e => (T.get? e).any about).head?, creates e := by
    rw [T.filter_any about es, List.head?_map]
    intro e he
    obtain ⟨a, ha, rfl⟩ := Option.map_eq_some_iff.1 he
    exact hfirst a ha
  calc view ((es.filterMap T.get?).foldl (fun t a => project t (T.put a)) (es.foldl project .empty))
      = (es.filterMap T.get?).foldl (fun row a => act row (T.put a)) (es.foldl act none) := by
        rw [← List.foldl_map, hfold, hfold, hempty, List.foldl_map]
    _ = ((es.filterMap T.get?).filter about).foldl (fun row a => act row (T.put a)) (es.foldl act none) :=
        Keyed.foldl_filter_of_skip hskip _ _
    _ = (es.filter fun e => (T.get? e).any about).foldl act (es.foldl act none) := by
        rw [T.filter_any about es, List.foldl_map]
    _ = view (es.foldl project .empty) := by
        rw [(howner.again es hhead).1, hfold, hempty]

/-- The topic's part of an owner is about its own events. -/
theorem owner (hlast : Keyed.LastWrite patch)
    (hown : ∀ r a, about a = true → act (some r) (T.put a) = some (patch r (T.put a)))
    (hcreate : ∀ a, about a = true → creates (T.put a) → ∃ r, act none (T.put a) = some (patch r (T.put a)))
    (hother : ∀ r e, (T.get? e).any about = false →
      ∃ f : ρ → ρ, act (some r) e = some (f r) ∧ ∀ r' e', patch (f r') e' = f (patch r' e')) :
    Keyed.Owner act (fun e => (T.get? e).any about) patch creates where
  lastWrite := hlast
  own r e he := by
    obtain ⟨a, ha, habout⟩ := (Option.any_eq_true _ _).1 he
    rw [← T.put_of_get? ha]
    exact hown r a habout
  create {e} he hcreates := by
    obtain ⟨a, ha, habout⟩ := (Option.any_eq_true _ _).1 he
    rw [← T.put_of_get? ha] at hcreates ⊢
    exact hcreate a habout hcreates
  other r e he := hother r e he

/-- A row that no other event touches. -/
theorem owner_alone (hlast : Keyed.LastWrite patch)
    (hown : ∀ r a, about a = true → act (some r) (T.put a) = some (patch r (T.put a)))
    (hcreate : ∀ a, about a = true → creates (T.put a) → ∃ r, act none (T.put a) = some (patch r (T.put a)))
    (hskip : ∀ r e, (T.get? e).any about = false → act (some r) e = some r) :
    Keyed.Owner act (fun e => (T.get? e).any about) patch creates :=
  T.owner hlast hown hcreate fun r e he => ⟨id, hskip r e he, fun _ _ => rfl⟩

end Topic

/-! ## `plants` -/

/-- The changes of one topic to a row of `plants`. -/
def gardenPatch (row : PlantRow) : TopicEvent → PlantRow
  | .garden e => e.patch row
  | _ => row

def careColumn (row : PlantRow) : TopicEvent → PlantRow
  | .care e => carePatch row e
  | _ => row

theorem lastWrite_gardenPatch : Keyed.LastWrite gardenPatch where
  idem r e := by rcases e with ((_ | _ | _) | _) | _ | _ | _ | _ <;> rfl
  absorb r e e' := by
    rcases e with ((_ | _ | _) | _) | _ | _ | _ | _ <;> rcases e' with ((_ | _ | _) | _) | _ | _ | _ | _ <;> rfl

theorem lastWrite_careColumn : Keyed.LastWrite careColumn where
  idem r e := by
    cases e with
    | care e => simp only [careColumn, carePatch]; split <;> rfl
    | garden | catalog | journal | notification => rfl
  absorb r e e' := by
    cases e with
    | care e =>
      cases e' with
      | care e' => simp only [careColumn, carePatch]; split <;> split <;> rfl
      | garden | catalog | journal | notification => simp only [careColumn, carePatch]; split <;> rfl
    | garden | catalog | journal | notification => rfl

theorem garden_owns (p : PlantId) : Keyed.Owner (plantAct p) (fun e => e.garden?.any fun g => p = g.plantId) gardenPatch
    (fun e => e.garden?.any (·.added?.isSome)) := by
  refine gardenTopic.owner lastWrite_gardenPatch (fun r g hp => ?_) (fun g hp hadded => ?_) fun r e he => ?_
  · show plantAct p (some r) (.garden g) = some (g.patch r)
    simp only [plantAct, if_pos (of_decide_eq_true hp)]
    split <;> rfl
  · have hadded : g.added?.isSome = true := hadded
    refine ⟨.blank, ?_⟩
    show plantAct p none (.garden g) = some (g.patch .blank)
    simp only [plantAct, if_pos (of_decide_eq_true hp), if_pos hadded]
    rfl
  · cases e with
    | garden g =>
      have hp : ¬ p = g.plantId := of_decide_eq_false he
      exact ⟨id, by simp only [plantAct, if_neg hp]; rfl, fun _ _ => rfl⟩
    | care c =>
      by_cases hc : p = c.plantId ∧ (nextWatering? c).isSome
      · refine ⟨(carePatch · c), by simp only [plantAct, if_pos hc]; rfl, fun r' e' => ?_⟩
        cases e' with
        | garden g => exact (carePatch_patch r' c g).symm
        | care | catalog | journal | notification => rfl
      · exact ⟨id, by simp only [plantAct, if_neg hc]; rfl, fun _ _ => rfl⟩
    | catalog s =>
      -- the species' name is no column of the Garden
      rcases catalogPatch_cases r s with hsame | ⟨name, hname⟩
      · exact ⟨id, congrArg some hsame, fun _ _ => rfl⟩
      · refine ⟨fun r' => { r' with speciesName := some name }, congrArg some hname, fun r' e' => ?_⟩
        rcases e' with ((_ | _ | _) | _) | _ | _ | _ | _ <;> rfl
    | journal j => exact ⟨id, plantAct_journal p r j, fun _ _ => rfl⟩
    | notification => exact ⟨id, rfl, fun _ _ => rfl⟩

/-- The event that makes a schedule. -/
def isScheduleCreated : CareEvent → Bool
  | .careScheduleCreated .. => true
  | _ => false

theorem care_owns_column (p : PlantId) : Keyed.Owner (plantAct p) (fun e => e.care?.any fun c => p = c.plantId) careColumn
    (fun e => e.care?.any isScheduleCreated) := by
  refine careTopic.owner lastWrite_careColumn (fun r c hp => ?_) (fun c hp hcreates => ?_) fun r e he => ?_
  · show plantAct p (some r) (.care c) = some (carePatch r c)
    have hp : p = c.plantId := of_decide_eq_true hp
    cases hn : nextWatering? c with
    | none => simp [plantAct, carePatch, hn]
    | some next => simp [plantAct, ← hp, hn]
  · have hp : p = c.plantId := of_decide_eq_true hp
    cases c with
    | careScheduleCreated q interval next now =>
      have hnext : (nextWatering? (.careScheduleCreated q interval next now)).isSome = true := rfl
      refine ⟨.blank, ?_⟩
      show plantAct p none (.care (.careScheduleCreated q interval next now)) =
        some (carePatch .blank (.careScheduleCreated q interval next now))
      simp only [plantAct, if_pos (And.intro hp hnext)]
      rfl
    | wateringDue | wateringCompleted | wateringRescheduled | careMissed | careSkipped => cases hcreates
  · cases e with
    | garden g =>
      by_cases hp : p = g.plantId
      · refine ⟨g.patch, ?_, fun r' e' => ?_⟩
        · simp only [plantAct, if_pos hp]
          split <;> rfl
        · cases e' with
          | care c => exact carePatch_patch r' c g
          | garden | catalog | journal | notification => rfl
      · exact ⟨id, by simp only [plantAct, if_neg hp]; rfl, fun _ _ => rfl⟩
    | care c =>
      have hp : ¬ (p = c.plantId ∧ (nextWatering? c).isSome = true) := by
        rintro ⟨hp, -⟩
        exact of_decide_eq_false he hp
      exact ⟨id, by simp only [plantAct, if_neg hp]; rfl, fun _ _ => rfl⟩
    | catalog s =>
      refine ⟨(catalogPatch · s), rfl, fun r' e' => ?_⟩
      cases e' with
      | care c => exact carePatch_catalogPatch r' c s
      | garden | catalog | journal | notification => rfl
    | journal j => exact ⟨id, plantAct_journal p r j, fun _ _ => rfl⟩
    | notification => exact ⟨id, rfl, fun _ _ => rfl⟩

/-- The Journal sets no column: it only sees to it that the row is there. -/
theorem journal_owns_nothing (p : PlantId) : Keyed.Owner (plantAct p) (fun e => e.journal?.any fun j => p = j.plantId)
    (fun r _ => r) (fun _ => True) := by
  refine journalTopic.owner ⟨fun _ _ => rfl, fun _ _ _ => rfl⟩ (fun r j hp => ?_) (fun j hp _ => ⟨.blank, ?_⟩)
    fun r e he => ?_
  · exact plantAct_journal p r j
  · show plantAct p none (.journal j) = some .blank
    simp only [plantAct, if_pos (of_decide_eq_true hp)]
    rfl
  · obtain ⟨r', hr'⟩ := plantAct_some p r e
    exact ⟨fun _ => r', hr', fun _ _ => rfl⟩

/-! ## The tables of one topic -/

/-- What an event does to the row of a schedule. -/
def careAct (p : PlantId) (row : Option CareRow) : TopicEvent → Option CareRow
  | .care e =>
    if p = e.plantId then
      match e with
      | .careScheduleCreated _ interval next _ => some (.created interval next row)
      | .wateringCompleted _ completedAt next _ =>
        row.map fun r => { r with lastWateredAt := some completedAt, nextWateringAt := next }
      | .wateringDue .. => row
      | .wateringRescheduled _ _ next _ _ | .careMissed _ next _ | .careSkipped _ _ next _ =>
        row.map fun r => { r with nextWateringAt := next }
    else row
  | _ => row

def carePatchRow (row : CareRow) : TopicEvent → CareRow
  | .care (.careScheduleCreated _ interval next _) => { row with wateringInterval := interval, nextWateringAt := next }
  | .care (.wateringCompleted _ completedAt next _) => { row with lastWateredAt := some completedAt, nextWateringAt := next }
  | .care (.wateringRescheduled _ _ next _ _) | .care (.careMissed _ next _) | .care (.careSkipped _ _ next _) =>
    { row with nextWateringAt := next }
  | _ => row

theorem care_project (p : PlantId) (t : ReadTables) (e : TopicEvent) :
    (project t e).care p = careAct p (t.care p) e := by
  cases e with
  | care e =>
    cases e with
    | wateringDue => simp [project, projectCare, careAct]
    | careScheduleCreated q interval next now =>
      simp only [project, projectCare, setNextWatering, Keyed.upsert_apply, Keyed.modify_apply, careAct, CareEvent.plantId]
      by_cases hp : p = q
      · cases t.care p <;> simp [hp, CareRow.created]
      · simp [hp]
    | wateringCompleted q completedAt next now =>
      simp only [project, projectCare, setNextWatering, Keyed.modify_apply, careAct, CareEvent.plantId]
      by_cases hp : p = q
      · cases t.care p <;> simp [hp]
      · simp [hp]
    | wateringRescheduled | careMissed | careSkipped =>
      simp only [project, projectCare, setNextWatering, Keyed.modify_apply, careAct]
      rfl
  | garden e => rcases e with (_ | _ | _) | _ <;> rfl
  | catalog e => cases e <;> rfl
  | journal e => rfl
  | notification e => cases e <;> rfl

theorem lastWrite_carePatchRow : Keyed.LastWrite carePatchRow where
  idem r e := by rcases e with _ | (_ | _ | _ | _ | _ | _) | _ | _ | _ <;> rfl
  absorb r e e' := by
    rcases e with _ | (_ | _ | _ | _ | _ | _) | _ | _ | _ <;>
      rcases e' with _ | (_ | _ | _ | _ | _ | _) | _ | _ | _ <;> rfl

theorem care_owns (p : PlantId) : Keyed.Owner (careAct p) (fun e => e.care?.any fun c => p = c.plantId) carePatchRow
    (fun e => e.care?.any isScheduleCreated) := by
  refine careTopic.owner_alone lastWrite_carePatchRow (fun r c hp => ?_) (fun c hp hcreates => ?_) fun r e he => ?_
  · show careAct p (some r) (.care c) = some (carePatchRow r (.care c))
    simp only [careAct, if_pos (of_decide_eq_true hp)]
    cases c <;> rfl
  · cases c with
    | careScheduleCreated q interval next now =>
      refine ⟨⟨interval, next, none, 1⟩, ?_⟩
      show careAct p none (.care (.careScheduleCreated q interval next now)) = _
      simp only [careAct, if_pos (of_decide_eq_true hp)]
      rfl
    | wateringDue | wateringCompleted | wateringRescheduled | careMissed | careSkipped => cases hcreates
  · cases e with
    | care c => simp only [careAct, if_neg (of_decide_eq_false he)]
    | garden | catalog | journal | notification => rfl

/-- What an event does to the row of a journal entry. -/
def journalAct (i : JournalEntryId) (row : Option JournalRow) : TopicEvent → Option JournalRow
  | .journal e => if i = e.entryId then some ⟨e.plantId, e.entryType, e.note, e.entryOccurredAt, e.occurredAt⟩ else row
  | _ => row

def journalPatch (row : JournalRow) : TopicEvent → JournalRow
  | .journal e => ⟨e.plantId, e.entryType, e.note, e.entryOccurredAt, e.occurredAt⟩
  | _ => row

theorem journal_project (i : JournalEntryId) (t : ReadTables) (e : TopicEvent) :
    (project t e).journal i = journalAct i (t.journal i) e := by
  cases e with
  | journal e => simp only [project, projectJournal, Keyed.upsert_apply, journalAct]
  | garden e => rcases e with (_ | _ | _) | _ <;> rfl
  | care e => cases e <;> rfl
  | catalog e => cases e <;> rfl
  | notification e => cases e <;> rfl

theorem journal_owns (i : JournalEntryId) : Keyed.Owner (journalAct i) (fun e => e.journal?.any fun j => i = j.entryId)
    journalPatch (fun _ => True) := by
  have hlast : Keyed.LastWrite journalPatch :=
    ⟨fun r e => by cases e <;> rfl, fun r e e' => by cases e <;> rfl⟩
  refine journalTopic.owner_alone hlast (fun r j hi => ?_) (fun j hi _ => ?_) fun r e he => ?_
  · exact if_pos (of_decide_eq_true hi)
  · exact ⟨⟨j.plantId, j.entryType, j.note, j.entryOccurredAt, j.occurredAt⟩, if_pos (of_decide_eq_true hi)⟩
  · cases e with
    | journal j => exact if_neg (of_decide_eq_false he)
    | garden | care | catalog | notification => rfl

namespace NotificationEvent

def notificationId : NotificationEvent → NotificationId
  | .notificationCreated notificationId .. | .notificationRead notificationId _ => notificationId

def isCreated : NotificationEvent → Bool
  | .notificationCreated .. => true
  | .notificationRead .. => false

end NotificationEvent

/-- What an event does to the row of a notification. -/
def notificationAct (i : NotificationId) (row : Option NotificationRow) : TopicEvent → Option NotificationRow
  | .notification e =>
    if i = e.notificationId then
      match e with
      | .notificationCreated _ householdId notificationType payload createdAt =>
        some (.created householdId notificationType payload createdAt row)
      | .notificationRead _ readAt => row.map fun r => { r with readAt := some readAt }
    else row
  | _ => row

def notificationPatch (row : NotificationRow) : TopicEvent → NotificationRow
  | .notification (.notificationCreated _ householdId notificationType payload createdAt) =>
    ⟨householdId, notificationType, payload, createdAt, row.readAt⟩
  | .notification (.notificationRead _ readAt) => { row with readAt := some readAt }
  | _ => row

theorem notifications_project (i : NotificationId) (t : ReadTables) (e : TopicEvent) :
    (project t e).notifications i = notificationAct i (t.notifications i) e := by
  cases e with
  | notification e =>
    cases e with
    | notificationCreated =>
      simp only [project, projectNotification, Keyed.upsert_apply, notificationAct]
      rfl
    | notificationRead =>
      simp only [project, projectNotification, Keyed.modify_apply, notificationAct]
      rfl
  | garden e => rcases e with (_ | _ | _) | _ <;> rfl
  | care e => cases e <;> rfl
  | catalog e => cases e <;> rfl
  | journal e => rfl

theorem lastWrite_notificationPatch : Keyed.LastWrite notificationPatch where
  idem r e := by rcases e with _ | _ | _ | _ | (_ | _) <;> rfl
  absorb r e e' := by rcases e with _ | _ | _ | _ | (_ | _) <;> rcases e' with _ | _ | _ | _ | (_ | _) <;> rfl

theorem notification_owns (i : NotificationId) : Keyed.Owner (notificationAct i)
    (fun e => e.notification?.any fun n => i = n.notificationId) notificationPatch
    (fun e => e.notification?.any NotificationEvent.isCreated) := by
  refine notificationTopic.owner_alone lastWrite_notificationPatch (fun r n hi => ?_) (fun n hi hcreates => ?_)
    fun r e he => ?_
  · show notificationAct i (some r) (.notification n) = some (notificationPatch r (.notification n))
    simp only [notificationAct, if_pos (of_decide_eq_true hi)]
    cases n <;> rfl
  · cases n with
    | notificationCreated j householdId notificationType payload createdAt =>
      refine ⟨⟨householdId, notificationType, payload, createdAt, none⟩, ?_⟩
      show notificationAct i none (.notification (.notificationCreated j householdId notificationType payload createdAt)) = _
      simp only [notificationAct, if_pos (of_decide_eq_true hi)]
      rfl
    | notificationRead => cases hcreates
  · cases e with
    | notification n => simp only [notificationAct, if_neg (of_decide_eq_false he)]
    | garden | care | catalog | journal => rfl

/-! ## Every table -/

/-- What the aggregates see to: the first event about a plant, a schedule or a notification makes it. -/
structure Produced (h : Histories) : Prop where
  garden : ∀ p, ∀ e ∈ (h.garden.filter fun e => p = e.plantId).head?, e.added?.isSome
  care : ∀ p, ∀ e ∈ (h.care.filter fun e => p = e.plantId).head?, isScheduleCreated e
  notifications : ∀ i, ∀ e ∈ (h.notifications.filter fun e => i = e.notificationId).head?, e.isCreated

theorem foldl_same {α β : Type} (view : ReadTables → β) {step : ReadTables → α → ReadTables}
    (h : ∀ t a, view (step t a) = view t) (as : List α) (t : ReadTables) : view (as.foldl step t) = view t := by
  induction as generalizing t with
  | nil => rfl
  | cons a as ih => exact (ih _).trans (h t a)

section

variable {es : List TopicEvent}

theorem garden_again (h : Produced (historiesOf es)) :
    (historiesOf es).garden.foldl projectGarden (es.foldl project .empty) = es.foldl project .empty := by
  ext1
  · funext p
    have hskip : ∀ row a, decide (p = GardenEvent.plantId a) = false → plantAct p row (.garden a) = row := by
      intro row a ha
      have hp : ¬ p = a.plantId := by simpa using ha
      simp only [plantAct, if_neg hp]
    exact gardenTopic.again (fun t => t.plants p) (plants_project p) rfl (garden_owns p) hskip es (h.garden p)
  · exact foldl_same ReadTables.care (fun t e => by rcases e with (_ | _ | _) | _ <;> rfl) _ _
  · exact foldl_same ReadTables.species (fun t e => by rcases e with (_ | _ | _) | _ <;> rfl) _ _
  · exact foldl_same ReadTables.journal (fun t e => by rcases e with (_ | _ | _) | _ <;> rfl) _ _
  · exact foldl_same ReadTables.notifications (fun t e => by rcases e with (_ | _ | _) | _ <;> rfl) _ _

theorem care_again (h : Produced (historiesOf es)) :
    (historiesOf es).care.foldl projectCare (es.foldl project .empty) = es.foldl project .empty := by
  ext1
  · funext p
    have hskip : ∀ row a, decide (p = a.plantId) = false → plantAct p row (.care a) = row := by
      intro row a ha
      have hp : ¬ (p = a.plantId ∧ (nextWatering? a).isSome = true) := fun hp => by simp [hp.1] at ha
      simp only [plantAct, if_neg hp]
    exact careTopic.again (fun t => t.plants p) (plants_project p) rfl (care_owns_column p) hskip es (h.care p)
  · funext p
    have hskip : ∀ row a, decide (p = a.plantId) = false → careAct p row (.care a) = row := by
      intro row a ha
      have hp : ¬ p = a.plantId := by simpa using ha
      simp only [careAct, if_neg hp]
    exact careTopic.again (fun t => t.care p) (care_project p) rfl (care_owns p) hskip es (h.care p)
  · exact foldl_same ReadTables.species (fun t e => by cases e <;> rfl) _ _
  · exact foldl_same ReadTables.journal (fun t e => by cases e <;> rfl) _ _
  · exact foldl_same ReadTables.notifications (fun t e => by cases e <;> rfl) _ _

theorem journal_again (es : List TopicEvent) :
    (historiesOf es).journal.foldl projectJournal (es.foldl project .empty) = es.foldl project .empty := by
  ext1
  · funext p
    have hskip : ∀ row a, decide (p = JournalEntryAdded.plantId a) = false → plantAct p row (.journal a) = row := by
      intro row a ha
      have hp : ¬ p = a.plantId := by simpa using ha
      simp only [plantAct, if_neg hp]
    exact journalTopic.again (fun t => t.plants p) (plants_project p) rfl (journal_owns_nothing p) hskip es
      fun _ _ => trivial
  · exact foldl_same ReadTables.care (fun _ _ => by rfl) _ _
  · exact foldl_same ReadTables.species (fun _ _ => by rfl) _ _
  · funext i
    have hskip : ∀ row a, decide (i = JournalEntryAdded.entryId a) = false → journalAct i row (.journal a) = row := by
      intro row a ha
      have hi : ¬ i = a.entryId := by simpa using ha
      simp only [journalAct, if_neg hi]
    exact journalTopic.again (fun t => t.journal i) (journal_project i) rfl (journal_owns i) hskip es
      fun _ _ => trivial
  · exact foldl_same ReadTables.notifications (fun _ _ => by rfl) _ _

theorem notification_again (h : Produced (historiesOf es)) :
    (historiesOf es).notifications.foldl projectNotification (es.foldl project .empty) = es.foldl project .empty := by
  ext1
  · exact foldl_same ReadTables.plants (fun t e => by cases e <;> rfl) _ _
  · exact foldl_same ReadTables.care (fun t e => by cases e <;> rfl) _ _
  · exact foldl_same ReadTables.species (fun t e => by cases e <;> rfl) _ _
  · exact foldl_same ReadTables.journal (fun t e => by cases e <;> rfl) _ _
  · funext i
    have hskip : ∀ row a, decide (i = NotificationEvent.notificationId a) = false →
        notificationAct i row (.notification a) = row := by
      intro row a ha
      have hi : ¬ i = a.notificationId := by simpa using ha
      simp only [notificationAct, if_neg hi]
    exact notificationTopic.again (fun t => t.notifications i) (notifications_project i) rfl (notification_owns i)
      hskip es (h.notifications i)

end

/-- For every interleaving of histories the write side produces: the history of one projection's topic,
projected again into the tables, leaves them as they are. -/
theorem rebuild_changes_nothing {es : List TopicEvent} (h : Produced (historiesOf es)) :
    (historiesOf es).garden.foldl projectGarden (es.foldl project .empty) = es.foldl project .empty ∧
      (historiesOf es).care.foldl projectCare (es.foldl project .empty) = es.foldl project .empty ∧
      (historiesOf es).journal.foldl projectJournal (es.foldl project .empty) = es.foldl project .empty ∧
      (historiesOf es).notifications.foldl projectNotification (es.foldl project .empty) = es.foldl project .empty :=
  ⟨garden_again h, care_again h, journal_again es, notification_again h⟩

/-- A plant whose journal and schedule are seen before the plant itself; it is moved, watered and removed,
and its household is told and reads it. -/
def gardenDay : List TopicEvent :=
  [.journal ⟨8, 9, 7, .note, none, 1, 1⟩,
    .care (.careScheduleCreated 7 .weekly 2 1),
    .garden (.plant (.plantAdded 7 3 5 ⟨['i', 'd', 'a'], by decide, by decide⟩
      ⟨['s', 'i', 'l', 'l'], by decide, by decide, by decide⟩ 1 1)),
    .garden (.plant (.plantMoved 7 ⟨['s', 'i', 'l', 'l'], by decide, by decide, by decide⟩
      ⟨['d', 'e', 'c', 'k'], by decide, by decide, by decide⟩ 2)),
    .care (.wateringCompleted 7 2 9 2),
    .notification (.notificationCreated 4 3 .wateringDue [] 2),
    .garden (.plantOnboarded 7 3),
    .notification (.notificationRead 4 5),
    .garden (.plant (.plantRemoved 7 6 6))]

theorem produced_gardenDay : Produced (historiesOf gardenDay) where
  garden p e he := by
    by_cases hp : p = 7
    · subst hp
      cases he
      rfl
    · simp [historiesOf, gardenDay, TopicEvent.garden?, GardenEvent.plantId, Garden.Event.plantId, hp] at he
  care p e he := by
    by_cases hp : p = 7
    · subst hp
      cases he
      rfl
    · simp [historiesOf, gardenDay, TopicEvent.care?, CareEvent.plantId, hp] at he
  notifications i e he := by
    by_cases hi : i = 4
    · subst hi
      cases he
      rfl
    · simp [historiesOf, gardenDay, TopicEvent.notification?, NotificationEvent.notificationId, hi] at he

theorem rebuild_changes_nothing_gardenDay :
    (historiesOf gardenDay).garden.foldl projectGarden (gardenDay.foldl project .empty) = gardenDay.foldl project .empty ∧
      ((gardenDay.foldl project .empty).plants 7).isSome :=
  ⟨(rebuild_changes_nothing produced_gardenDay).1, by decide⟩

end Plantkeeper.ReadModel
