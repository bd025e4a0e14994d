/-
What the API lists. `GET /plants` and `GET /care/today` are answered from the read tables and never from
the aggregates. However the topics were interleaved, the plants listed are those of the Garden as far as
its topic was seen, each with the last watering that Care's topic has shown; and the schedules listed for
today are those that are due, but for a plant whose schedule was withdrawn, which stays on the list.
-/
import Plantkeeper.Care.AdaptiveWatering
import Plantkeeper.Garden.AddPlant
import Plantkeeper.Garden.Watering
import Plantkeeper.Lib.Fold
import Plantkeeper.Lib.Query
import Plantkeeper.Lib.Table
import Plantkeeper.ReadModel.CareSchedules
import Plantkeeper.ReadModel.Rebuild

namespace Plantkeeper.ReadModel.Listings

open Plantkeeper.Run
open Garden.AddPlant (AddPlantCommand Env PlantView)
open Query (Lists select)

/-! ## The queries -/

/-- The columns of the Garden, where the query finds none of them missing. -/
structure Listed where
  householdId : HouseholdId
  speciesId : SpeciesId
  name : Name
  location : Location
  addedAt : Instant
  removed : Bool
  deriving DecidableEq

/-- `WHERE household_id = … AND species_id IS NOT NULL AND …`. -/
def listed (row : PlantRow) : Option Listed :=
  match row.householdId, row.speciesId, row.name, row.location, row.addedAt with
  | some householdId, some speciesId, some name, some location, some addedAt =>
    some ⟨householdId, speciesId, name, location, addedAt, row.removed⟩
  | _, _, _, _, _ => none

structure PlantListRow where
  plantId : PlantId
  householdId : HouseholdId
  speciesId : SpeciesId
  name : Name
  location : Location
  addedAt : Instant
  lastWateredAt : Option Instant
  removed : Bool
  nextWateringAt : Option Instant
  deriving DecidableEq

/-- The outer join with `care_schedules`, and `_plant_row`. -/
def plantRow (care : PlantId → Option CareRow) (r : PlantId × PlantRow) : Option (PlantId × PlantListRow) :=
  (listed r.2).map fun c => (r.1, ⟨r.1, c.householdId, c.speciesId, c.name, c.location, c.addedAt,
    (care r.1).bind (·.lastWateredAt), c.removed, r.2.nextWateringAt⟩)

/-- `list_plants`, over the rows of the table. -/
def listPlantRows (rows : List (PlantId × PlantRow)) (care : PlantId → Option CareRow) (householdId : HouseholdId)
    (includeRemoved : Bool) : List PlantListRow :=
  (select (fun r => decide (r.2.householdId = householdId) && (includeRemoved || !r.2.removed)) (·.addedAt)
    (rows.filterMap (plantRow care))).map Prod.snd

/-- `_plant_view`. -/
def plantView (row : PlantListRow) : PlantView :=
  ⟨row.plantId, row.householdId, row.speciesId, row.name, row.location, row.addedAt, row.lastWateredAt, row.removed⟩

/-- `ListPlantsQueryHandler.handle`. -/
def listPlants (rows : List (PlantId × PlantRow)) (care : PlantId → Option CareRow) (householdId : HouseholdId)
    (includeRemoved : Bool) : List PlantView :=
  (listPlantRows rows care householdId includeRemoved).map plantView

structure CareScheduleRow where
  plantId : PlantId
  wateringInterval : WateringInterval
  nextWateringAt : Instant
  lastWateredAt : Option Instant
  version : ℕ
  deriving DecidableEq

structure CareScheduleView where
  plantId : PlantId
  wateringInterval : WateringInterval
  nextWateringAt : Instant
  version : ℕ
  deriving DecidableEq

/-- `_care_schedule_row`. -/
def careScheduleRow (r : PlantId × CareRow) : CareScheduleRow :=
  ⟨r.1, r.2.wateringInterval, r.2.nextWateringAt, r.2.lastWateredAt, r.2.version⟩

/-- The join with `plants`: the plant is the household's and is not removed. -/
def keptBy (plants : PlantId → Option PlantRow) (householdId : HouseholdId) (plantId : PlantId) : Bool :=
  (plants plantId).any fun p => decide (p.householdId = some householdId) && !p.removed

/-- `list_due_care`, over the rows of the table. -/
def listDueCare (rows : List (PlantId × CareRow)) (plants : PlantId → Option PlantRow) (householdId : HouseholdId)
    (until_ : Instant) : List CareScheduleRow :=
  (select (fun r => keptBy plants householdId r.1 && decide (r.2.nextWateringAt ≤ until_)) (·.nextWateringAt) rows).map careScheduleRow

/-- `now.replace(hour=23, minute=59, second=59, microsecond=999999)`. -/
def endOfDay (now : Instant) : Instant := now - now % days 1 + days 1 - 1

/-- `_care_schedule_view`. -/
def careScheduleView (row : CareScheduleRow) : CareScheduleView :=
  ⟨row.plantId, row.wateringInterval, row.nextWateringAt, row.version⟩

/-- `GetTodayCareQueryHandler.handle`. -/
def getTodayCare (rows : List (PlantId × CareRow)) (plants : PlantId → Option PlantRow) (householdId : HouseholdId)
    (now : Instant) : List CareScheduleView :=
  (listDueCare rows plants householdId (endOfDay now)).map careScheduleView

/-- Up to the end of the day is on that day of UTC, or on one before. -/
theorem le_endOfDay_iff (now t : Instant) : t ≤ endOfDay now ↔ t / days 1 ≤ now / days 1 := by
  have hday : ∀ now t : ℤ, t ≤ now - now % 86400000000 + 86400000000 - 1 ↔ t / 86400000000 ≤ now / 86400000000 := by
    intro now t
    omega
  exact hday now t

/-! ## The write side -/

/-- The tables of the Garden and of Care, and the events their transactions have committed. -/
structure World where
  households : HouseholdId → Option Name
  plants : List Garden.Plant
  schedules : PlantId → Option CareSchedule
  outbox : List TopicEvent

def World.empty : World := ⟨fun _ => none, [], fun _ => none, []⟩

namespace World

def plant (w : World) (plantId : PlantId) : Option Garden.Plant := Table.get Garden.Plant.id w.plants plantId

/-- The plants of a household that are not removed. -/
def members (w : World) (householdId : HouseholdId) : List PlantId :=
  (w.plants.filter fun p => decide (p.householdId = householdId) && !p.removed).map (·.id)

def savePlant (w : World) (p : Garden.Plant) (events : List Garden.Event) : World :=
  { w with plants := Table.put Garden.Plant.id p w.plants, outbox := w.outbox ++ events.map (.garden ∘ .plant) }

def saveSchedule (w : World) (plantId : PlantId) (s : Option CareSchedule) (events : List CareEvent) : World :=
  { w with schedules := Function.update w.schedules plantId s, outbox := w.outbox ++ events.map .care }

/-- `GetPlantQueryHandler.handle`: `none` is `NotFoundError`. -/
def getPlant (w : World) (plantId : PlantId) : Option PlantView := (w.plant plantId).map .fromDomain

end World

/-- A command or a reaction that is committed. A watering completes the schedule with the plant; whatever
else is done to a schedule is one of its writers. -/
inductive Commit
  | createHousehold (householdId : HouseholdId) (name : List Char)
  | addPlant (command : AddPlantCommand) (env : Env)
  | movePlant (plantId : PlantId) (location : Location) (now : Instant)
  | removePlant (plantId : PlantId) (now : Instant)
  | plantOnboarded (plantId : PlantId) (now : Instant)
  | waterPlant (plantId : PlantId) (expectedVersion : Option ℕ) (now : Instant)
  | schedule (plantId : PlantId) (writer : Care.Writer)
  deriving DecidableEq

/-- The writer is `WaterPlant`'s. -/
def isWatering : Care.Writer → Bool
  | .completeWatering .. => true
  | _ => false

/-- `none` is a refused command. -/
def step (w : World) : Commit → Option World
  | .createHousehold householdId name =>
    if (w.households householdId).isSome then none
    else (normalizeName name).map fun name => { w with households := Function.update w.households householdId (some name) }
  | .addPlant command env =>
    match w.households command.householdId with
    | none => none
    | some name =>
      if (w.plant env.plantId).isSome then none
      else match Garden.AddPlant.add command name.text (w.members command.householdId) env with
        | .error _ => none
        | .ok (p, events) => some (w.savePlant p events)
  | .movePlant plantId location now =>
    match w.plant plantId with
    | none => none
    | some p => match p.move location now with
      | .error _ => none
      | .ok (p', events) => some (w.savePlant p' events)
  | .removePlant plantId now =>
    match w.plant plantId with
    | none => none
    | some p => match p.remove now with
      | .error _ => none
      | .ok (p', events) => some (w.savePlant p' events)
  | .plantOnboarded plantId now => some { w with outbox := w.outbox ++ [.garden (.plantOnboarded plantId now)] }
  | .waterPlant plantId expectedVersion now =>
    match w.schedules plantId, w.plant plantId with
    | some s, some p => match p.water now, s.completeWatering now (expectedVersion.getD s.version) with
      | .ok (p', events), .ok (s', event) => some ((w.savePlant p' events).saveSchedule plantId (some s') [event])
      | _, _ => none
    | _, _ => none
  | .schedule plantId writer =>
    if isWatering writer then none
    else match writer.on plantId (w.schedules plantId) with
      | .error _ => none
      | .ok (s, events) => some (w.saveSchedule plantId s events)

/-! ## The columns of the Garden -/

theorem listed_eq_some {row : PlantRow} {c : Listed} : listed row = some c ↔ row.householdId = some c.householdId ∧
    row.speciesId = some c.speciesId ∧ row.name = some c.name ∧ row.location = some c.location ∧
    row.addedAt = some c.addedAt ∧ row.removed = c.removed := by
  unfold listed
  constructor
  · intro h
    split at h
    · cases h
      simp_all
    · cases h
  · rintro ⟨hhousehold, hspecies, hname, hlocation, hadded, hremoved⟩
    simp [hhousehold, hspecies, hname, hlocation, hadded, hremoved]

theorem listed_of_household {row : PlantRow} (h : row.householdId = none) : listed row = none := by
  simp [listed, h]

/-- A row has all of the columns, or it has no household. -/
def Whole (row : Option PlantRow) : Prop := ∀ r, row = some r → listed r = none → r.householdId = none

/-- What an event of the Garden leaves of a plant's columns. -/
def gardenAct (p : PlantId) (c : Option Listed) (e : GardenEvent) : Option Listed :=
  if p = e.plantId then
    match e with
    | .plant (.plantAdded _ householdId speciesId name location addedAt _) =>
      some ⟨householdId, speciesId, name, location, addedAt, false⟩
    | .plant (.plantMoved _ _ location _) => c.map fun c => { c with location := location }
    | .plant (.plantRemoved ..) => c.map fun c => { c with removed := true }
    | .plantOnboarded .. => c
  else c

/-- An event of another topic sets none of the columns. -/
theorem columns_other {p : PlantId} {row : Option PlantRow} {e : TopicEvent} (he : e.garden? = none) (h : Whole row) :
    Whole (plantAct p row e) ∧ (plantAct p row e).bind listed = row.bind listed := by
  -- a row that is changed has the columns it had, and a new one is blank
  have hset : ∀ f : PlantRow → PlantRow, (∀ r, (f r).householdId = r.householdId ∧ listed (f r) = listed r) →
      Whole (row.map f) ∧ (row.map f).bind listed = row.bind listed ∧
        Whole (some (f (row.getD .blank))) ∧ (some (f (row.getD .blank))).bind listed = row.bind listed := by
    intro f hf
    cases row with
    | none =>
      refine ⟨fun r hr => (by cases hr), rfl, fun r hr _ => ?_, ?_⟩
      · cases hr
        exact (hf .blank).1
      · exact (hf .blank).2
    | some r =>
      refine ⟨fun r' hr' hl => ?_, (hf r).2, fun r' hr' hl => ?_, (hf r).2⟩
      all_goals
        cases hr'
        exact (hf r).1.trans (h r rfl ((hf r).2.symm.trans hl))
  cases e with
  | garden e => cases he
  | care e =>
    have hcare := hset (carePatch · e) fun r => by
      unfold carePatch
      split <;> exact ⟨rfl, rfl⟩
    simp only [plantAct]
    split
    · exact hcare.2.2
    · exact ⟨h, rfl⟩
  | catalog e =>
    have hcatalog := hset (catalogPatch · e) fun r => by
      obtain heq | ⟨name, heq⟩ := catalogPatch_cases r e
      · rw [heq]
        exact ⟨rfl, rfl⟩
      · rw [heq]
        exact ⟨rfl, rfl⟩
    exact ⟨hcatalog.1, hcatalog.2.1⟩
  | journal e =>
    have hjournal := hset id fun r => ⟨rfl, rfl⟩
    simp only [plantAct]
    split
    · exact hjournal.2.2
    · exact ⟨h, rfl⟩
  | notification e => exact ⟨h, rfl⟩

theorem columns_garden {p : PlantId} {row : Option PlantRow} {e : GardenEvent} (h : Whole row) :
    Whole (plantAct p row (.garden e)) ∧ (plantAct p row (.garden e)).bind listed = gardenAct p (row.bind listed) e := by
  by_cases hp : p = e.plantId
  · rcases e with (⟨q, householdId, speciesId, name, location, addedAt, now⟩ | ⟨q, previous, location, now⟩ | ⟨q, removedAt, now⟩) | ⟨q, now⟩
    · -- an added plant has every column
      have hlisted : ∀ r : PlantRow, listed (r.added householdId speciesId name location addedAt) =
          some ⟨householdId, speciesId, name, location, addedAt, false⟩ := fun r => rfl
      simp only [plantAct, gardenAct, if_pos hp]
      refine ⟨fun r hr hl => ?_, hlisted _⟩
      cases hr
      cases hl
    all_goals
      simp only [plantAct, gardenAct, if_pos hp, GardenEvent.added?, Option.isSome_none, Bool.false_eq_true, if_false]
      cases row with
      | none => exact ⟨fun r hr => (by cases hr), rfl⟩
      | some r =>
        simp only [Option.map_some, Option.bind_some, GardenEvent.patch]
        cases hr : listed r with
        | none =>
          have hhousehold := h r rfl hr
          refine ⟨fun r' hr' _ => ?_, ?_⟩
          · cases hr'
            exact hhousehold
          · exact listed_of_household hhousehold
        | some c =>
          obtain ⟨hhousehold, hspecies, hname, hlocation, hadded, hremoved⟩ := listed_eq_some.1 hr
          have hnew : ∀ {r' : PlantRow} {c' : Listed}, listed r' = some c' →
              Whole (some r') ∧ listed r' = some c' := fun hr' => by
            refine ⟨fun r'' hr'' hl => ?_, hr'⟩
            cases hr''
            rw [hr'] at hl
            cases hl
          exact hnew (listed_eq_some.2 ⟨hhousehold, hspecies, hname, by first | rfl | exact hlocation, hadded,
            by first | rfl | exact hremoved⟩)
  · have hact : plantAct p row (.garden e) = row := by simp only [plantAct, if_neg hp]
    have hcolumns : gardenAct p (row.bind listed) e = row.bind listed := by
      unfold gardenAct
      rw [if_neg hp]
    rw [hact, hcolumns]
    exact ⟨h, rfl⟩

/-- The columns come from the Garden's events alone, whatever was projected between them. -/
theorem columns_foldl (p : PlantId) : ∀ {es : List TopicEvent} {row : Option PlantRow}, Whole row →
    (es.foldl (plantAct p) row).bind listed = (es.filterMap (·.garden?)).foldl (gardenAct p) (row.bind listed)
  | [], row, _ => rfl
  | e :: es, row, h => by
    cases he : e.garden? with
    | none =>
      obtain ⟨hwhole, hsame⟩ := columns_other (p := p) he h
      rw [List.foldl_cons, columns_foldl p hwhole, hsame, List.filterMap_cons_none he]
    | some g =>
      obtain rfl : e = .garden g := by
        cases e with
        | garden g' =>
          cases he
          rfl
        | care | catalog | journal | notification => cases he
      obtain ⟨hwhole, hact⟩ := columns_garden (p := p) (e := g) h
      rw [List.foldl_cons, columns_foldl p hwhole, hact, List.filterMap_cons_some he, List.foldl_cons]

/-! ## The schedule's row -/

/-- What Care's events leave of a plant's row. -/
def careSeen (p : PlantId) (events : List CareEvent) : Option CareRow :=
  events.foldl (fun row e => careAct p row (.care e)) none

theorem careSeen_foldl (p : PlantId) (es : List TopicEvent) : es.foldl (careAct p) none = careSeen p (es.filterMap (·.care?)) := by
  unfold careSeen
  rw [List.foldl_filterMap]
  refine List.foldl_ext _ _ _ fun row e _ => ?_
  cases e <;> rfl

theorem careSeen_append (p : PlantId) (before events : List CareEvent) :
    careSeen p (before ++ events) = events.foldl (fun row e => careAct p row (.care e)) (careSeen p before) :=
  List.foldl_append ..

theorem careAct_of_ne {p : PlantId} {e : CareEvent} (h : e.plantId ≠ p) (row : Option CareRow) : careAct p row (.care e) = row :=
  if_neg fun hp => h hp.symm

theorem careAct_of_reports {p : PlantId} {next : Instant} {e : CareEvent} (h : Reports p next e) (row : Option CareRow) :
    careAct p row (.care e) =
      row.map fun r => { r with nextWateringAt := next, lastWateredAt := (completedAt e).or r.lastWateredAt } := by
  cases e with
  | wateringCompleted | wateringRescheduled | careSkipped | careMissed =>
    obtain ⟨rfl, rfl⟩ := h
    exact if_pos rfl
  | careScheduleCreated | wateringDue => cases h

theorem plantId_of_reports {p : PlantId} {next : Instant} {e : CareEvent} (h : Reports p next e) : e.plantId = p := by
  cases e with
  | wateringCompleted | wateringRescheduled | careSkipped | careMissed => exact h.1
  | careScheduleCreated | wateringDue => cases h

/-- What a writer that waters nothing makes of a schedule, and what it records. -/
inductive Written (p : PlantId) (writer : Care.Writer) : Option CareSchedule → Option CareSchedule → List CareEvent → Prop
  | same (s : Option CareSchedule) : Written p writer s s []
  | withdrawn (s : Option CareSchedule) (h : writer = .deleteCareSchedule) : Written p writer s none []
  | created (interval : WateringInterval) (next now : Instant) :
    Written p writer none (some ⟨p, interval, next, 1⟩) [.careScheduleCreated p interval next now]
  | due (s : CareSchedule) (due now : Instant) : Written p writer (some s) (some s) [.wateringDue s.plantId due now]
  | moved (s : CareSchedule) {next : Instant} {e : CareEvent} (hreports : Reports s.plantId next e) (he : completedAt e = none) :
    Written p writer (some s) (some { s with nextWateringAt := next, version := s.version + 1 }) [e]

theorem written_changed {p : PlantId} {writer : Care.Writer} {f : CareSchedule → Except CareError (CareSchedule × CareEvent)}
    (hf : ∀ s s' e, f s = .ok (s', e) → Written p writer (some s) (some s') [e]) {s s' : Option CareSchedule}
    {events : List CareEvent} (h : Care.changed f s = .ok (s', events)) : Written p writer s s' events := by
  cases s with
  | none =>
    cases h
    exact .same none
  | some s =>
    obtain ⟨⟨s₁, e⟩, hs, heq⟩ := Fold.map_eq_ok.1 h
    cases heq
    exact hf s s₁ e hs

theorem written_on {p : PlantId} {writer : Care.Writer} (hw : isWatering writer = false) {s s' : Option CareSchedule}
    {events : List CareEvent} (h : writer.on p s = .ok (s', events)) : Written p writer s s' events := by
  cases writer with
  | telemetryReceived moisture now =>
    rcases Care.onTelemetryReceived_cases s moisture now with hsame | ⟨s₀, rfl, -, -, hpulled⟩
    · cases hsame.symm.trans h
      exact .same s
    · cases hpulled.symm.trans h
      exact .moved s₀ ⟨rfl, rfl⟩ rfl
  | createCareSchedule interval now =>
    cases s with
    | some s =>
      cases h
      exact .same _
    | none =>
      obtain ⟨⟨s₁, e⟩, hs, heq⟩ := Fold.map_eq_ok.1 h
      cases heq
      unfold CareSchedule.create at hs
      split at hs
      · cases hs
      · cases hs
        exact .created ..
  | deleteCareSchedule =>
    cases h
    exact .withdrawn s rfl
  | markDue now =>
    refine written_changed (fun s₀ s₁ e hs => ?_) h
    obtain ⟨event, hevent, heq⟩ := Fold.map_eq_ok.1 hs
    cases heq
    unfold CareSchedule.markDue at hevent
    split at hevent
    · cases hevent
    · cases hevent
      exact .due ..
  | completeWatering => cases hw
  | skip now v =>
    refine written_changed (fun s₀ s₁ e hs => ?_) h
    obtain ⟨-, rfl, rfl⟩ := CareSchedule.change_ok hs
    exact .moved s₀ ⟨rfl, rfl⟩ rfl
  | markMissed now v =>
    refine written_changed (fun s₀ s₁ e hs => ?_) h
    obtain ⟨-, rfl, rfl⟩ := CareSchedule.change_ok hs
    exact .moved s₀ ⟨rfl, rfl⟩ rfl

/-! ## What the events say -/

/-- The columns of a plant that its row has. -/
def columnsOf (p : Garden.Plant) : Listed := ⟨p.householdId, p.speciesId, p.name, p.location, p.addedAt, p.removed⟩

namespace World

variable {w : World} {p : PlantId}

def columns (w : World) (p : PlantId) : Option Listed := (w.outbox.filterMap (·.garden?)).foldl (gardenAct p) none

def careRow (w : World) (p : PlantId) : Option CareRow := careSeen p (w.outbox.filterMap (·.care?))

theorem plant_savePlant (q : Garden.Plant) (events : List Garden.Event) :
    (w.savePlant q events).plant p = if q.id = p then some q else w.plant p := Table.get_put ..

theorem columns_savePlant (q : Garden.Plant) (events : List Garden.Event) :
    (w.savePlant q events).columns p = events.foldl (fun c e => gardenAct p c (.plant e)) (w.columns p) := by
  have hevents : (events.map (TopicEvent.garden ∘ .plant)).filterMap (·.garden?) = events.map .plant := by
    rw [List.filterMap_map]
    exact congrFun List.filterMap_eq_map events
  simp only [columns, savePlant, List.filterMap_append, List.foldl_append, hevents, List.foldl_map]

@[simp] theorem careRow_savePlant (q : Garden.Plant) (events : List Garden.Event) : (w.savePlant q events).careRow p = w.careRow p := by
  have hevents : (events.map (TopicEvent.garden ∘ .plant)).filterMap (·.care?) = [] := by
    rw [List.filterMap_map, List.filterMap_eq_nil_iff]
    exact fun _ _ => rfl
  simp only [careRow, savePlant, List.filterMap_append, hevents, List.append_nil]

@[simp] theorem columns_saveSchedule (q : PlantId) (s : Option CareSchedule) (events : List CareEvent) :
    (w.saveSchedule q s events).columns p = w.columns p := by
  have hevents : (events.map TopicEvent.care).filterMap (·.garden?) = [] := by
    rw [List.filterMap_map, List.filterMap_eq_nil_iff]
    exact fun _ _ => rfl
  simp only [columns, saveSchedule, List.filterMap_append, hevents, List.append_nil]

theorem careRow_saveSchedule (q : PlantId) (s : Option CareSchedule) (events : List CareEvent) :
    (w.saveSchedule q s events).careRow p = events.foldl (fun row e => careAct p row (.care e)) (w.careRow p) := by
  have hevents : (events.map TopicEvent.care).filterMap (·.care?) = events := by
    rw [List.filterMap_map]
    exact List.filterMap_some
  simp only [careRow, saveSchedule, List.filterMap_append, hevents, careSeen_append]

@[simp] theorem plant_saveSchedule (q : PlantId) (s : Option CareSchedule) (events : List CareEvent) :
    (w.saveSchedule q s events).plant p = w.plant p := rfl

theorem schedules_saveSchedule (q : PlantId) (s : Option CareSchedule) (events : List CareEvent) :
    (w.saveSchedule q s events).schedules p = if p = q then s else w.schedules p := by
  simp only [saveSchedule, Function.update_apply]

end World

/-- The row is the schedule's, but for the version. -/
def Shows (row : CareRow) (s : CareSchedule) : Prop :=
  row.wateringInterval = s.wateringInterval ∧ row.nextWateringAt = s.nextWateringAt

/-- Every schedule has a row that shows it. -/
def ShowsSchedules (w : World) : Prop :=
  ∀ p s, w.schedules p = some s → s.plantId = p ∧ ∃ row, w.careRow p = some row ∧ Shows row s

/-- The events say of every plant what its row says, of every schedule what the schedule says, and of the
last watering what the plant remembers. -/
structure Inv (w : World) : Prop where
  keys : (w.plants.map Garden.Plant.id).Nodup
  columns : ∀ p, w.columns p = (w.plant p).map columnsOf
  scheduled : ShowsSchedules w
  watered : ∀ p, (w.careRow p).bind (·.lastWateredAt) = (w.plant p).bind (·.lastWateredAt)

theorem inv_empty : Inv .empty where
  keys := List.nodup_nil
  columns p := rfl
  scheduled p s hs := by cases hs
  watered p := rfl

section

variable {w : World} {p : PlantId} {q : Garden.Plant} {events : List Garden.Event}

/-- The columns of a plant are saved with the events that say so. -/
theorem columns_of_savePlant (h : Inv w) (hplant : ∀ e ∈ events, e.plantId = q.id)
    (hevents : events.foldl (fun c e => gardenAct q.id c (.plant e)) ((w.plant q.id).map columnsOf) = some (columnsOf q)) (p : PlantId) :
    (w.savePlant q events).columns p = ((w.savePlant q events).plant p).map columnsOf := by
  rw [World.columns_savePlant, World.plant_savePlant, h.columns]
  by_cases hp : q.id = p
  · subst hp
    simpa using hevents
  · rw [if_neg hp]
    have hother : ∀ c, events.foldl (fun c e => gardenAct p c (.plant e)) c = events.foldl (fun c _ => c) c := fun c =>
      List.foldl_ext _ _ _ fun c e he => if_neg fun hpe => hp ((hplant e he).symm.trans hpe.symm)
    rw [hother, List.foldl_fixed]

theorem showsSchedules_savePlant (h : ShowsSchedules w) : ShowsSchedules (w.savePlant q events) := by
  intro p s hs
  rw [World.careRow_savePlant]
  exact h p s hs

theorem inv_savePlant (h : Inv w) (hplant : ∀ e ∈ events, e.plantId = q.id)
    (hevents : events.foldl (fun c e => gardenAct q.id c (.plant e)) ((w.plant q.id).map columnsOf) = some (columnsOf q))
    (hwatered : (w.plant q.id).bind (·.lastWateredAt) = q.lastWateredAt) : Inv (w.savePlant q events) where
  keys := Table.nodup_put h.keys
  columns := columns_of_savePlant h hplant hevents
  scheduled := showsSchedules_savePlant h.scheduled
  watered p := by
    rw [World.careRow_savePlant, World.plant_savePlant, h.watered]
    by_cases hp : q.id = p
    · rw [if_pos hp, ← hp, hwatered]
      rfl
    · rw [if_neg hp]

/-- Another plant's row stays. -/
theorem careRow_saveSchedule_of_ne {p' : PlantId} {s : Option CareSchedule} {events : List CareEvent} (hevents : ∀ e ∈ events, e.plantId = p)
    (hp : p' ≠ p) : (w.saveSchedule p s events).careRow p' = w.careRow p' := by
  rw [World.careRow_saveSchedule]
  refine (List.foldl_ext _ (fun row _ => row) _ fun row e he => careAct_of_ne ?_ row).trans (List.foldl_fixed ..)
  rw [hevents e he]
  exact Ne.symm hp

/-- The schedule of a plant is saved with the events that say so. -/
theorem showsSchedules_saveSchedule (h : ShowsSchedules w) {s : Option CareSchedule} {events : List CareEvent}
    (hevents : ∀ e ∈ events, e.plantId = p) (hs : ∀ s', s = some s' → s'.plantId = p ∧
      ∃ row, events.foldl (fun row e => careAct p row (.care e)) (w.careRow p) = some row ∧ Shows row s') :
    ShowsSchedules (w.saveSchedule p s events) := by
  intro p' s' hs'
  rw [World.schedules_saveSchedule] at hs'
  by_cases hp : p' = p
  · subst hp
    rw [if_pos rfl] at hs'
    rw [World.careRow_saveSchedule]
    exact hs s' hs'
  · rw [if_neg hp] at hs'
    rw [careRow_saveSchedule_of_ne hevents hp]
    exact h p' s' hs'

/-- What a writer leaves of the row, and of the last watering there. -/
theorem careRow_of_written (h : Inv w) {writer : Care.Writer} {s : Option CareSchedule} {events : List CareEvent}
    (hw : Written p writer (w.schedules p) s events) : (∀ e ∈ events, e.plantId = p) ∧
      (∀ s', s = some s' → s'.plantId = p ∧
        ∃ row, events.foldl (fun row e => careAct p row (.care e)) (w.careRow p) = some row ∧ Shows row s') ∧
      (events.foldl (fun row e => careAct p row (.care e)) (w.careRow p)).bind (·.lastWateredAt) =
        (w.careRow p).bind (·.lastWateredAt) := by
  generalize hbefore : w.schedules p = before at hw
  cases hw with
  | same => exact ⟨by simp, fun s' hs' => h.scheduled p s' (hbefore.trans hs'), rfl⟩
  | withdrawn => exact ⟨by simp, fun s' hs' => (by cases hs'), rfl⟩
  | created interval next now =>
    have hact : ∀ row, careAct p row (.care (.careScheduleCreated p interval next now)) = some (.created interval next row) :=
      fun row => if_pos rfl
    refine ⟨by simp [CareEvent.plantId], fun s' hs' => ?_, ?_⟩
    · cases hs'
      refine ⟨rfl, _, hact _, ?_⟩
      cases w.careRow p <;> exact ⟨rfl, rfl⟩
    · rw [List.foldl_cons, List.foldl_nil, hact]
      cases w.careRow p <;> rfl
  | due s due now =>
    obtain ⟨hid, hrow⟩ := h.scheduled p s hbefore
    have hact : ∀ row, careAct p row (.care (.wateringDue s.plantId due now)) = row := fun row => by
      rw [hid]
      exact if_pos rfl
    refine ⟨by simp [CareEvent.plantId, hid], fun s' hs' => ?_, ?_⟩
    · cases hs'
      rw [List.foldl_cons, List.foldl_nil, hact]
      exact ⟨hid, hrow⟩
    · rw [List.foldl_cons, List.foldl_nil, hact]
  | @moved s next e hreports he =>
    obtain ⟨hid, row, hrow, hshows⟩ := h.scheduled p s hbefore
    rw [hid] at hreports
    have hact : [e].foldl (fun row e => careAct p row (.care e)) (w.careRow p) = some { row with nextWateringAt := next } := by
      rw [List.foldl_cons, List.foldl_nil, careAct_of_reports hreports, hrow, he]
      rfl
    refine ⟨by simp [plantId_of_reports hreports], fun s' hs' => ?_, ?_⟩
    · cases hs'
      exact ⟨hid, _, hact, hshows.1, rfl⟩
    · rw [hact, hrow]
      rfl

theorem inv_written (h : Inv w) {writer : Care.Writer} {s : Option CareSchedule} {events : List CareEvent}
    (hw : Written p writer (w.schedules p) s events) : Inv (w.saveSchedule p s events) := by
  obtain ⟨hevents, hs, hlast⟩ := careRow_of_written h hw
  refine ⟨h.keys, fun p' => ?_, showsSchedules_saveSchedule h.scheduled hevents hs, fun p' => ?_⟩
  · rw [World.columns_saveSchedule]
    exact h.columns p'
  · rw [World.plant_saveSchedule, ← h.watered p']
    by_cases hp : p' = p
    · subst hp
      rw [World.careRow_saveSchedule]
      exact hlast
    · rw [careRow_saveSchedule_of_ne hevents hp]

/-- `WaterPlant`: the plant's last watering and the row's are one instant. -/
theorem inv_water (h : Inv w) {s s' : CareSchedule} {q' : Garden.Plant} {v : ℕ} {now : Instant} {event : CareEvent}
    (hs : w.schedules p = some s) (hq : w.plant p = some q) (hplant : q.water now = .ok (q', events))
    (hschedule : s.completeWatering now v = .ok (s', event)) : Inv ((w.savePlant q' events).saveSchedule p (some s') [event]) := by
  obtain ⟨hid, row, hrow, hshows⟩ := h.scheduled p s hs
  obtain ⟨-, rfl⟩ := Table.mem_of_get hq
  obtain ⟨-, rfl, rfl⟩ := CareSchedule.change_ok hschedule
  obtain ⟨rfl, rfl, -⟩ := Garden.Watering.water_ok hplant
  have hreports : Reports q.id (now + s.wateringInterval.value) (.wateringCompleted s.plantId now (now + s.wateringInterval.value) now) :=
    ⟨hid, rfl⟩
  have hact : [CareEvent.wateringCompleted s.plantId now (now + s.wateringInterval.value) now].foldl
      (fun row e => careAct q.id row (.care e)) (w.careRow q.id) =
        some { row with nextWateringAt := now + s.wateringInterval.value, lastWateredAt := some now } := by
    rw [List.foldl_cons, List.foldl_nil, careAct_of_reports hreports, hrow]
    rfl
  have hevents : ∀ e ∈ [CareEvent.wateringCompleted s.plantId now (now + s.wateringInterval.value) now], e.plantId = q.id := by
    simp [plantId_of_reports hreports]
  refine ⟨Table.nodup_put h.keys, fun p' => ?_, ?_, fun p' => ?_⟩
  · rw [World.columns_saveSchedule]
    exact columns_of_savePlant h (by simp) (by rw [hq]; rfl) p'
  · refine showsSchedules_saveSchedule (showsSchedules_savePlant h.scheduled) hevents fun s' hs' => ?_
    cases hs'
    rw [World.careRow_savePlant]
    exact ⟨hid, _, hact, hshows.1, rfl⟩
  · rw [World.plant_saveSchedule, World.plant_savePlant]
    by_cases hp : p' = q.id
    · subst hp
      rw [World.careRow_saveSchedule, World.careRow_savePlant, hact, if_pos rfl]
      rfl
    · rw [careRow_saveSchedule_of_ne hevents hp, World.careRow_savePlant, if_neg fun hid => hp hid.symm]
      exact h.watered p'

/-- A plant that is added is announced with what its row has. -/
theorem addPlant_announced {c : AddPlantCommand} {name : List Char} {plantIds : List PlantId} {env : Env}
    (h : Garden.AddPlant.add c name plantIds env = .ok (q, events)) : q.id = env.plantId ∧ q.lastWateredAt = none ∧
      (∀ e ∈ events, e.plantId = q.id) ∧ ∀ c, events.foldl (fun c e => gardenAct q.id c (.plant e)) c = some (columnsOf q) := by
  unfold Garden.AddPlant.add at h
  split at h
  · cases h
  · split at h
    · cases h
    · rename_i hadd
      split at h
      · cases h
      · cases h
        unfold Garden.Plant.add at hadd
        split at hadd
        · cases hadd
        · cases hadd
          exact ⟨rfl, rfl, by simp [Garden.Event.plantId], fun c => if_pos rfl⟩

/-- A plant that is moved is announced where it was not there already. -/
theorem move_announced {q q' : Garden.Plant} {location : Location} {now : Instant} (h : q.move location now = .ok (q', events)) :
    q'.id = q.id ∧ q'.lastWateredAt = q.lastWateredAt ∧ (∀ e ∈ events, e.plantId = q.id) ∧
      events.foldl (fun c e => gardenAct q.id c (.plant e)) (some (columnsOf q)) = some (columnsOf q') := by
  unfold Garden.Plant.move at h
  split at h
  · cases h
  · split at h
    · cases h
      exact ⟨rfl, rfl, by simp, rfl⟩
    · cases h
      exact ⟨rfl, rfl, by simp [Garden.Event.plantId], if_pos rfl⟩

theorem remove_announced {q q' : Garden.Plant} {now : Instant} (h : q.remove now = .ok (q', events)) :
    q'.id = q.id ∧ q'.lastWateredAt = q.lastWateredAt ∧ (∀ e ∈ events, e.plantId = q.id) ∧
      events.foldl (fun c e => gardenAct q.id c (.plant e)) (some (columnsOf q)) = some (columnsOf q') := by
  unfold Garden.Plant.remove at h
  split at h
  · cases h
  · cases h
    exact ⟨rfl, rfl, by simp [Garden.Event.plantId], if_pos rfl⟩

/-- A plant is saved as a change of it was announced. -/
theorem inv_changed (h : Inv w) {q' : Garden.Plant} (hq : w.plant p = some q) (hchanged : q'.id = q.id ∧
    q'.lastWateredAt = q.lastWateredAt ∧ (∀ e ∈ events, e.plantId = q.id) ∧
      events.foldl (fun c e => gardenAct q.id c (.plant e)) (some (columnsOf q)) = some (columnsOf q')) : Inv (w.savePlant q' events) := by
  obtain ⟨-, rfl⟩ := Table.mem_of_get hq
  obtain ⟨hid, hlast, hplant, hevents⟩ := hchanged
  refine inv_savePlant h ?_ ?_ ?_
  · rw [hid]
    exact hplant
  · rw [hid, hq]
    exact hevents
  · rw [hid, hq]
    exact hlast.symm

theorem inv_step {w' : World} {a : Commit} (h : Inv w) (hs : step w a = some w') : Inv w' := by
  cases a with
  | createHousehold householdId name =>
    simp only [step] at hs
    split at hs
    · cases hs
    · obtain ⟨name, -, rfl⟩ := Option.map_eq_some_iff.1 hs
      exact ⟨h.keys, h.columns, h.scheduled, h.watered⟩
  | addPlant command env =>
    simp only [step] at hs
    split at hs
    · cases hs
    · split at hs
      · cases hs
      · rename_i hnew
        split at hs
        · cases hs
        · rename_i hadd
          cases hs
          obtain ⟨hid, hlast, hplant, hevents⟩ := addPlant_announced hadd
          refine inv_savePlant h hplant (hevents _) ?_
          rw [hid, Option.not_isSome_iff_eq_none.1 hnew, hlast]
          rfl
  | movePlant plantId location now =>
    simp only [step] at hs
    split at hs
    · cases hs
    · rename_i hq
      split at hs
      · cases hs
      · rename_i hmove
        cases hs
        exact inv_changed h hq (move_announced hmove)
  | removePlant plantId now =>
    simp only [step] at hs
    split at hs
    · cases hs
    · rename_i hq
      split at hs
      · cases hs
      · rename_i hremove
        cases hs
        exact inv_changed h hq (remove_announced hremove)
  | plantOnboarded plantId now =>
    cases hs
    have hcolumns : ∀ p, World.columns { w with outbox := w.outbox ++ [.garden (.plantOnboarded plantId now)] } p = w.columns p := by
      intro p
      have hact : ∀ c, gardenAct p c (.plantOnboarded plantId now) = c := fun c => by
        unfold gardenAct
        split <;> rfl
      simp [World.columns, TopicEvent.garden?, hact]
    have hcare : ∀ p, World.careRow { w with outbox := w.outbox ++ [.garden (.plantOnboarded plantId now)] } p = w.careRow p := by
      intro p
      simp [World.careRow, TopicEvent.care?]
    refine ⟨h.keys, fun p => ?_, fun p s hs => ?_, fun p => ?_⟩
    · rw [hcolumns]
      exact h.columns p
    · rw [hcare]
      exact h.scheduled p s hs
    · rw [hcare]
      exact h.watered p
  | waterPlant plantId expectedVersion now =>
    simp only [step] at hs
    split at hs
    · rename_i hschedule hplant
      split at hs
      · rename_i hwater hcomplete
        cases hs
        exact inv_water h hschedule hplant hwater hcomplete
      · cases hs
    · cases hs
  | schedule plantId writer =>
    simp only [step] at hs
    split at hs
    · cases hs
    · rename_i hwatering
      split at hs
      · cases hs
      · rename_i hon
        cases hs
        exact inv_written h (written_on (Bool.not_eq_true _ ▸ hwatering) hon)

theorem inv_run {as : List Commit} (hrun : run step .empty as = some w) : Inv w :=
  Run.inv (fun _ _ _ h hs => inv_step h hs) inv_empty hrun

end

/-! ## The answers -/

/-- The projections have handled the Garden's events up to one commit and Care's up to another, in any
interleaving and with whatever else there was. -/
structure Saw (garden care : World) (es : List TopicEvent) : Prop where
  garden : es.filterMap (·.garden?) = garden.outbox.filterMap (·.garden?)
  care : es.filterMap (·.care?) = care.outbox.filterMap (·.care?)

/-- A plant as it is listed. -/
def shown (care : World) (p : Garden.Plant) : PlantView :=
  { PlantView.fromDomain p with lastWateredAt := (care.plant p.id).bind (·.lastWateredAt) }

/-- The plant is the household's and is not removed. -/
def World.keeps (w : World) (householdId : HouseholdId) (plantId : PlantId) : Bool :=
  (w.plant plantId).any fun p => decide (p.householdId = householdId) && !p.removed

section

variable {as : List Commit} {i j : ℕ} {garden care : World} {es : List TopicEvent}

theorem whole_foldl (p : PlantId) : ∀ (es : List TopicEvent) {row : Option PlantRow}, Whole row → Whole (es.foldl (plantAct p) row)
  | [], _, h => h
  | e :: es, row, h => by
    have hstep : Whole (plantAct p row e) := by
      cases e with
      | garden e => exact (columns_garden h).1
      | care | catalog | journal | notification => exact (columns_other rfl h).1
    exact whole_foldl p es hstep

theorem whole_none : Whole none := fun r hr => by cases hr

/-- The columns of a projected row are the plant's. -/
theorem plants_listed_columns (hinv : Inv garden) (hsaw : Saw garden care es) (p : PlantId) :
    ((es.foldl project .empty).plants p).bind listed = (garden.plant p).map columnsOf := by
  rw [plants_foldl]
  refine (columns_foldl p whole_none).trans ?_
  rw [hsaw.garden]
  exact hinv.columns p

theorem care_foldl (p : PlantId) (es : List TopicEvent) (t : ReadTables) : (es.foldl project t).care p = es.foldl (careAct p) (t.care p) :=
  (List.foldl_hom (fun t' : ReadTables => t'.care p) fun t' e => (care_project p t' e).symm).symm

theorem care_seen (hsaw : Saw garden care es) (p : PlantId) : (es.foldl project .empty).care p = care.careRow p := by
  rw [care_foldl]
  exact (careSeen_foldl p es).trans (congrArg _ hsaw.care)

/-- The join with `plants` finds the plants that are kept. -/
theorem keptBy_eq (hinv : Inv garden) (hsaw : Saw garden care es) (householdId : HouseholdId) (p : PlantId) :
    keptBy (es.foldl project .empty).plants householdId p = garden.keeps householdId p := by
  have hcolumns := plants_listed_columns hinv hsaw p
  have hwhole : Whole ((es.foldl project .empty).plants p) := by
    rw [plants_foldl]
    exact whole_foldl p es whole_none
  unfold keptBy World.keeps
  cases hrow : (es.foldl project .empty).plants p with
  | none =>
    rw [hrow] at hcolumns
    rw [Option.map_eq_none_iff.1 hcolumns.symm]
    rfl
  | some row =>
    rw [hrow, Option.bind_some] at hcolumns
    cases hl : listed row with
    | none =>
      rw [hl] at hcolumns
      rw [Option.map_eq_none_iff.1 hcolumns.symm, Option.any_some, hwhole row hrow hl]
      rfl
    | some c =>
      rw [hl] at hcolumns
      obtain ⟨q, hq, rfl⟩ := Option.map_eq_some_iff.1 hcolumns.symm
      obtain ⟨hhousehold, -, -, -, -, hremoved⟩ := listed_eq_some.1 hl
      rw [hq, Option.any_some, Option.any_some, hhousehold, hremoved]
      simp [columnsOf]

/-- The rows of the plants by their identifiers. -/
theorem lists_plants (hinv : Inv garden) (care : World) :
    Lists (fun k => (garden.plant k).map (shown care)) (garden.plants.map fun p => (p.id, shown care p)) where
  keys := by
    rw [List.map_map]
    exact hinv.keys
  mem k v := by
    rw [List.mem_map, Option.map_eq_some_iff]
    constructor
    · rintro ⟨q, hq, heq⟩
      cases heq
      exact ⟨q, Table.get_of_mem hinv.keys hq, rfl⟩
    · rintro ⟨q, hq, rfl⟩
      obtain ⟨hmem, rfl⟩ := Table.mem_of_get hq
      exact ⟨q, hmem, rfl⟩

/-- The rows that the query lists, as views, are those of the plants. -/
theorem lists_rows (hgarden : Inv garden) (hcare : Inv care) (hsaw : Saw garden care es) {rows : List (PlantId × PlantRow)}
    (hrows : Lists (es.foldl project .empty).plants rows) :
    Lists (fun k => (garden.plant k).map (shown care))
      ((rows.filterMap (plantRow (es.foldl project .empty).care)).map fun r => (r.1, plantView r.2)) := by
  have hlast : ∀ p, ((es.foldl project .empty).care p).bind (·.lastWateredAt) = (care.plant p).bind (·.lastWateredAt) := fun p => by
    rw [care_seen hsaw]
    exact hcare.watered p
  rw [List.map_filterMap]
  refine Query.lists_filterMap hrows (fun x y hxy => ?_) fun k v => ?_
  · simp only [plantRow, Option.map_map, Option.map_eq_some_iff] at hxy
    obtain ⟨c, -, rfl⟩ := hxy
    rfl
  · have hcolumns := plants_listed_columns hgarden hsaw k
    constructor
    · intro hv
      obtain ⟨q, hq, rfl⟩ := Option.map_eq_some_iff.1 hv
      obtain ⟨-, rfl⟩ := Table.mem_of_get hq
      rw [hq] at hcolumns
      obtain ⟨row, hrow, hl⟩ := Option.bind_eq_some_iff.1 hcolumns
      refine ⟨row, hrow, ?_⟩
      simp only [plantRow, hl, Option.map_some, hlast]
      rfl
    · rintro ⟨row, hrow, hf⟩
      simp only [plantRow, Option.map_map, Option.map_eq_some_iff] at hf
      obtain ⟨c, hl, hview⟩ := hf
      rw [hrow, Option.bind_some, hl] at hcolumns
      obtain ⟨q, hq, rfl⟩ := Option.map_eq_some_iff.1 hcolumns.symm
      obtain ⟨-, rfl⟩ := Table.mem_of_get hq
      cases hview
      refine Option.map_eq_some_iff.2 ⟨q, hq, ?_⟩
      simp only [plantView, hlast]
      rfl

/-- Where there is a row there is a schedule. -/
def Kept (w : World) (p : PlantId) : Prop := (w.careRow p).isSome → (w.schedules p).isSome

theorem kept_saveSchedule {w : World} {p q : PlantId} {s : Option CareSchedule} {events : List CareEvent} (h : Kept w p)
    (hevents : ∀ e ∈ events, e.plantId = q)
    (hs : p = q → (events.foldl (fun row e => careAct q row (.care e)) (w.careRow q)).isSome → s.isSome) :
    Kept (w.saveSchedule q s events) p := by
  unfold Kept
  rw [World.schedules_saveSchedule]
  by_cases hp : p = q
  · subst hp
    rw [World.careRow_saveSchedule, if_pos rfl]
    exact hs rfl
  · rw [careRow_saveSchedule_of_ne hevents hp, if_neg hp]
    exact h

theorem kept_savePlant {w : World} {p : PlantId} {q : Garden.Plant} {events : List Garden.Event} (h : Kept w p) :
    Kept (w.savePlant q events) p := by
  unfold Kept
  rw [World.careRow_savePlant]
  exact h

/-- A schedule that is not withdrawn stays. -/
theorem kept_step {w w' : World} {a : Commit} {p : PlantId} (hinv : Inv w) (h : Kept w p) (ha : a ≠ .schedule p .deleteCareSchedule)
    (hs : step w a = some w') : Kept w' p := by
  cases a with
  | createHousehold householdId name =>
    simp only [step] at hs
    split at hs
    · cases hs
    · obtain ⟨name, -, rfl⟩ := Option.map_eq_some_iff.1 hs
      exact h
  | addPlant command env =>
    simp only [step] at hs
    repeat' split at hs
    all_goals cases hs
    exact kept_savePlant h
  | movePlant plantId location now =>
    simp only [step] at hs
    repeat' split at hs
    all_goals cases hs
    exact kept_savePlant h
  | removePlant plantId now =>
    simp only [step] at hs
    repeat' split at hs
    all_goals cases hs
    exact kept_savePlant h
  | plantOnboarded plantId now =>
    cases hs
    have hcare : World.careRow { w with outbox := w.outbox ++ [.garden (.plantOnboarded plantId now)] } p = w.careRow p := by
      simp [World.careRow, TopicEvent.care?]
    unfold Kept
    rw [hcare]
    exact h
  | waterPlant plantId expectedVersion now =>
    simp only [step] at hs
    split at hs
    · rename_i s q hschedule _
      split at hs
      · rename_i hcomplete
        cases hs
        obtain ⟨hid, -⟩ := hinv.scheduled plantId s hschedule
        obtain ⟨-, -, rfl⟩ := CareSchedule.change_ok hcomplete
        exact kept_saveSchedule (kept_savePlant h) (by simp [CareEvent.plantId, hid]) fun _ _ => rfl
      · cases hs
    · cases hs
  | schedule plantId writer =>
    simp only [step] at hs
    split at hs
    · cases hs
    · rename_i hwatering
      split at hs
      · cases hs
      · rename_i s events hon
        cases hs
        have hw := written_on (Bool.not_eq_true _ ▸ hwatering) hon
        refine kept_saveSchedule h (careRow_of_written hinv hw).1 ?_
        rintro rfl
        generalize hbefore : w.schedules p = before at hw
        cases hw with
        | same => exact hbefore ▸ h
        | withdrawn _ hwithdrawn => exact absurd (congrArg _ hwithdrawn) ha
        | created | due | moved => exact fun _ => rfl

theorem schedule_of_careRow {w : World} {p : PlantId} {bs : List Commit} (hrun : run step .empty bs = some w)
    (hkept : .schedule p .deleteCareSchedule ∉ bs) {row : CareRow} (hrow : w.careRow p = some row) : (w.schedules p).isSome := by
  have hstep : ∀ w a w', Inv w ∧ Kept w p → a ≠ .schedule p .deleteCareSchedule → step w a = some w' → Inv w' ∧ Kept w' p :=
    fun _ _ _ h ha hs => ⟨inv_step h.1 hs, kept_step h.1 h.2 ha hs⟩
  have hmeets : Meets step (fun _ a => a ≠ .schedule p .deleteCareSchedule) .empty bs := by
    refine meets_of_forall (fun a ha => ?_) _
    rintro rfl
    exact hkept ha
  refine (inv_of_meets hstep ⟨inv_empty, fun h => ?_⟩ hmeets hrun).2 (by rw [hrow]; rfl)
  cases h

end

/-! ## A week of one plant -/

/-- A plant that is added, is given a schedule and is watered. -/
def tended : List Commit :=
  [.createHousehold 1 ['z'], .addPlant ⟨1, 5, ['q'], ⟨['y'], by decide, by decide, by decide⟩, none⟩ ⟨3, 0, 0⟩,
    .schedule 3 (.createCareSchedule .weekly 0), .waterPlant 3 none 0]

theorem run_tended : (run step .empty tended).isSome := by decide

def tendedWorld : World := (run step .empty tended).get run_tended

/-- Care's topic is handled before the Garden's. -/
def careFirst : List TopicEvent :=
  tendedWorld.outbox.filter (·.care?.isSome) ++ tendedWorld.outbox.filter (·.garden?.isSome)

theorem saw_careFirst : Saw tendedWorld tendedWorld careFirst := ⟨by decide, by decide⟩

/-- Its events are about this plant. -/
theorem careFirst_other {k : PlantId} (hk : k ≠ 3) : (careFirst.foldl project .empty).plants k = none ∧
    (careFirst.foldl project .empty).care k = none := by
  have hplants : ∀ e ∈ careFirst, e.garden?.all (·.plantId = 3) ∧ e.care?.all (·.plantId = 3) ∧ e.catalog? = none ∧ e.journal? = none := by
    decide
  have hact : ∀ es : List TopicEvent, (∀ e ∈ es, e.garden?.all (·.plantId = 3) ∧ e.care?.all (·.plantId = 3) ∧ e.catalog? = none ∧
      e.journal? = none) → es.foldl (plantAct k) none = none ∧ es.foldl (careAct k) none = none := by
    intro es
    induction es with
    | nil => simp
    | cons e es ih =>
      intro h
      obtain ⟨hgarden, hcare, hcatalog, hjournal⟩ := h e (by simp)
      have hnone : plantAct k none e = none ∧ careAct k none e = none := by
        cases e <;> simp_all [plantAct, careAct, TopicEvent.garden?, TopicEvent.care?, TopicEvent.catalog?, TopicEvent.journal?]
      rw [List.foldl_cons, List.foldl_cons, hnone.1, hnone.2]
      exact ih fun e he => h e (List.mem_cons_of_mem _ he)
  rw [plants_foldl, care_foldl]
  exact hact careFirst hplants

end Plantkeeper.ReadModel.Listings
