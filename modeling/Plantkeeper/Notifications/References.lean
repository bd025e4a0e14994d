/-
The `plant_refs` row of a plant under rewinds. The plant's events come in order; an offset may be set back
to an event that was delivered before, the ledger being lost, and the events from there come again. Until
the plant's removal has been delivered the row is the newest it ever was; once it has, the row may come
back with the events before the removal, and goes when the removal comes again.
-/
import Plantkeeper.Lib.Run
import Plantkeeper.Notifications.Consumer

namespace Plantkeeper.Notifications.References

/-! ## Histories -/

/-- What a `PlantMoved` says. -/
structure Move where
  previousLocation : Location
  location : Location
  occurredAt : Instant
  deriving DecidableEq

/-- A plant's life in the Garden: it is added, moved, and perhaps removed, at increasing instants. -/
structure History where
  plantId : PlantId
  householdId : HouseholdId
  speciesId : SpeciesId
  name : Name
  location : Location
  addedAt : Instant
  occurredAt : Instant
  moves : List Move
  /-- `removedAt` and `occurredAt` of the `PlantRemoved`. -/
  removal : Option (Instant × Instant)
  increasing : (occurredAt :: moves.map (·.occurredAt) ++ (removal.map (·.2)).toList).Pairwise (· < ·)

variable (h : History)

/-- The events of the plant in the order of its partition. -/
def History.events : List Garden.Event :=
  .plantAdded h.plantId h.householdId h.speciesId h.name h.location h.addedAt h.occurredAt ::
    h.moves.map (fun m => .plantMoved h.plantId m.previousLocation m.location m.occurredAt) ++
      (h.removal.map fun r => Garden.Event.plantRemoved h.plantId r.1 r.2).toList

/-- What the plant's row should be in the end: its household and name, and where it was last put. -/
def History.reference : Option PlantReference :=
  match h.removal, h.moves.getLast? with
  | some _, _ => none
  | none, none => some ⟨h.householdId, h.name, h.location, h.occurredAt⟩
  | none, some m => some ⟨h.householdId, h.name, m.location, m.occurredAt⟩

/-! ## Deliveries -/

/-- The references, the next event of the plant, and the event its partition had come to. -/
structure Reader where
  refs : PlantRefs
  position : ℕ
  reached : ℕ

/-- The next event is delivered, an event of another plant is, or the offset is reset with the ledger lost. -/
inductive Action
  | deliver
  | other (event : Garden.Event)
  | rewind (position : ℕ)

def step (s : Reader) : Action → Option Reader
  | .deliver => h.events[s.position]?.map fun e =>
    ⟨maintainPlantReference s.refs e, s.position + 1, max s.reached (s.position + 1)⟩
  | .other e => if e.plantId = h.plantId then none else some { s with refs := maintainPlantReference s.refs e }
  | .rewind position => if position < s.reached then some { s with position := position } else none

/-! ## One row -/

/-- What the row holds after each of the events that leave one. -/
def History.rows : List PlantReference :=
  ⟨h.householdId, h.name, h.location, h.occurredAt⟩ ::
    h.moves.map fun m => ⟨h.householdId, h.name, m.location, m.occurredAt⟩

theorem maintain_other (refs : PlantRefs) {e : Garden.Event} {plantId : PlantId} (he : e.plantId ≠ plantId) :
    maintainPlantReference refs e plantId = refs plantId := by
  cases e with
  | plantAdded => exact Function.update_of_ne (Ne.symm he) ..
  | plantMoved p prev loc occ =>
    unfold maintainPlantReference
    cases hp : refs p with
    | none => simp [hp]
    | some known =>
      simp only [hp]
      exact Function.update_of_ne (Ne.symm he) ..
  | plantRemoved => exact Function.update_of_ne (Ne.symm he) ..

variable {h}

theorem length_events : h.events.length = h.rows.length + h.removal.toList.length := by
  simp only [History.events, History.rows, List.length_append, List.length_cons, List.length_map]
  cases h.removal <;> rfl

/-- The rows are newer and newer. -/
theorem rows_lt {i j : ℕ} {r r' : PlantReference} (hij : i < j) (hi : h.rows[i]? = some r) (hj : h.rows[j]? = some r') :
    r.seenAt < r'.seenAt := by
  have htimes : h.rows.map (·.seenAt) = h.occurredAt :: h.moves.map (·.occurredAt) := by
    simp [History.rows, Function.comp_def]
  have hincr : (h.rows.map (·.seenAt)).Pairwise (· < ·) := by
    rw [htimes]
    exact (List.pairwise_append.1 h.increasing).1
  rw [List.pairwise_map] at hincr
  obtain ⟨hi', rfl⟩ := List.getElem?_eq_some_iff.1 hi
  obtain ⟨hj', rfl⟩ := List.getElem?_eq_some_iff.1 hj
  exact List.pairwise_iff_getElem.1 hincr i j hi' hj' hij

/-- The event at a position with the row it leaves; the removal, at the end, leaves none. -/
theorem event_cases {i : ℕ} {e : Garden.Event} (he : h.events[i]? = some e) :
    (i = 0 ∧ e = .plantAdded h.plantId h.householdId h.speciesId h.name h.location h.addedAt h.occurredAt ∧
      h.rows[i]? = some ⟨h.householdId, h.name, h.location, h.occurredAt⟩) ∨
    (0 < i ∧ ∃ m : Move, e = .plantMoved h.plantId m.previousLocation m.location m.occurredAt ∧
      h.rows[i]? = some ⟨h.householdId, h.name, m.location, m.occurredAt⟩) ∨
    (i = h.rows.length ∧ ∃ r, h.removal = some r ∧ e = .plantRemoved h.plantId r.1 r.2) := by
  have hlen : h.rows.length = h.moves.length + 1 := by simp [History.rows]
  cases i with
  | zero =>
    left
    exact ⟨rfl, (Option.some.inj he).symm, rfl⟩
  | succ i =>
    right
    by_cases hi : i < h.moves.length
    · left
      refine ⟨Nat.succ_pos i, h.moves[i], ?_, ?_⟩
      · simpa [History.events, List.getElem?_append, hi] using he.symm
      · simp [History.rows, hi]
    · right
      have hlast : (h.removal.map fun r => Garden.Event.plantRemoved h.plantId r.1 r.2).toList[i - h.moves.length]? =
          some e := by
        simpa [History.events, List.getElem?_append, hi] using he
      cases hr : h.removal with
      | none => simp [hr] at hlast
      | some r =>
        have hz : i - h.moves.length = 0 := by
          by_contra hne
          simp [hr, hne] at hlast
        refine ⟨by omega, r, rfl, ?_⟩
        simpa [hr, hz] using hlast.symm

theorem of_mem_rows {r : PlantReference} (hr : r ∈ h.rows) : r.householdId = h.householdId ∧ r.name = h.name := by
  simp only [History.rows, List.mem_cons, List.mem_map] at hr
  rcases hr with rfl | ⟨m, -, rfl⟩ <;> exact ⟨rfl, rfl⟩

/-- An event before the removal on an empty row: only the first one makes a row. -/
theorem maintain_none {refs : PlantRefs} {i : ℕ} {e : Garden.Event} {r : PlantReference} (he : h.events[i]? = some e)
    (hr : h.rows[i]? = some r) (hrow : refs h.plantId = none) :
    maintainPlantReference refs e h.plantId = if i = 0 then some r else none := by
  rcases event_cases he with ⟨rfl, rfl, hr'⟩ | ⟨hi, m, rfl, -⟩ | ⟨rfl, -⟩
  · rw [hr] at hr'
    cases hr'
    simp [maintainPlantReference, upsertReference, hrow]
  · have hne : i ≠ 0 := by omega
    simp [maintainPlantReference, hrow, hne]
  · simp at hr

/-- An event before the removal on a row of the plant: the newer of the two stays. -/
theorem maintain_some {refs : PlantRefs} {i : ℕ} {e : Garden.Event} {r row : PlantReference}
    (he : h.events[i]? = some e) (hr : h.rows[i]? = some r) (hrow : refs h.plantId = some row) (hmem : row ∈ h.rows) :
    maintainPlantReference refs e h.plantId = some (if row.seenAt < r.seenAt then r else row) := by
  rcases event_cases he with ⟨rfl, rfl, hr'⟩ | ⟨-, m, rfl, hr'⟩ | ⟨rfl, -⟩
  · rw [hr] at hr'
    cases hr'
    simp [maintainPlantReference, upsertReference, hrow]
  · rw [hr] at hr'
    cases hr'
    obtain ⟨hhousehold, hname⟩ := of_mem_rows hmem
    simp [maintainPlantReference, upsertReference, hrow, hhousehold, hname]
  · simp at hr

/-! ## The row along the deliveries -/

/-- Up to the removal the row is the newest that was delivered. From then on it is any or none, and none
whenever the removal is the last that came. -/
structure Follows (h : History) (s : Reader) : Prop where
  le : s.position ≤ s.reached
  known : s.reached ≤ h.events.length
  newest : s.reached ≤ h.rows.length → s.refs h.plantId = if s.reached = 0 then none else h.rows[s.reached - 1]?
  removed : h.rows.length < s.reached →
    s.refs h.plantId = none ∨ s.position < s.reached ∧ ∃ r ∈ h.rows, s.refs h.plantId = some r

/-- In any case the row is one of the plant's. -/
theorem Follows.row {s : Reader} (hs : Follows h s) :
    s.refs h.plantId = none ∨ ∃ r ∈ h.rows, s.refs h.plantId = some r := by
  by_cases hreached : s.reached ≤ h.rows.length
  · have hrow := hs.newest hreached
    split at hrow
    · exact Or.inl hrow
    · have hlt : s.reached - 1 < h.rows.length := by omega
      rw [List.getElem?_eq_getElem hlt] at hrow
      exact Or.inr ⟨_, List.getElem_mem hlt, hrow⟩
  · rcases hs.removed (by omega) with hrow | ⟨-, hrow⟩
    · exact Or.inl hrow
    · exact Or.inr hrow

/-- Before the removal has come, a new event replaces the row and one that comes again leaves it. -/
theorem Follows.deliver_newest {s : Reader} (hs : Follows h s) {e : Garden.Event} (he : h.events[s.position]? = some e)
    (hreached : s.reached ≤ h.rows.length) (hpos : s.position < h.rows.length) :
    maintainPlantReference s.refs e h.plantId = h.rows[max s.reached (s.position + 1) - 1]? := by
  have hle := hs.le
  have hrow := hs.newest hreached
  have hr := List.getElem?_eq_getElem hpos
  by_cases hz : s.reached = 0
  · have hp : s.position = 0 := by omega
    rw [if_pos hz] at hrow
    rw [maintain_none he hr hrow, if_pos hp]
    simp [hp, hz]
  · have hlt : s.reached - 1 < h.rows.length := by omega
    have hlast := List.getElem?_eq_getElem hlt
    rw [if_neg hz, hlast] at hrow
    rw [maintain_some he hr hrow (List.getElem_mem hlt)]
    by_cases hnew : s.position = s.reached
    · have hmax : max s.reached (s.position + 1) - 1 = s.position := by omega
      rw [if_pos (rows_lt (by omega) hlast hr), hmax, hr]
    · have hmax : max s.reached (s.position + 1) = s.reached := by omega
      have hold : ¬ h.rows[s.reached - 1].seenAt < h.rows[s.position].seenAt := by
        rcases Nat.lt_or_eq_of_le (show s.position ≤ s.reached - 1 by omega) with hlt' | heq
        · exact (rows_lt hlt' hr hlast).asymm
        · simp [heq]
      rw [if_neg hold, hmax, hlast]

/-- After any event there is a row of the plant or none, and none after the removal. -/
theorem Follows.deliver_row {s : Reader} (hs : Follows h s) {e : Garden.Event} (he : h.events[s.position]? = some e) :
    maintainPlantReference s.refs e h.plantId = none ∨
      s.position < h.rows.length ∧ ∃ r ∈ h.rows, maintainPlantReference s.refs e h.plantId = some r := by
  by_cases hpos : s.position < h.rows.length
  · have hr := List.getElem?_eq_getElem hpos
    have hmem : h.rows[s.position] ∈ h.rows := List.getElem_mem hpos
    rcases hs.row with hrow | ⟨row, hrowmem, hrow⟩
    · rw [maintain_none he hr hrow]
      split
      · exact Or.inr ⟨hpos, _, hmem, rfl⟩
      · exact Or.inl rfl
    · rw [maintain_some he hr hrow hrowmem]
      split
      · exact Or.inr ⟨hpos, _, hmem, rfl⟩
      · exact Or.inr ⟨hpos, _, hrowmem, rfl⟩
  · left
    rcases event_cases he with ⟨-, -, hr⟩ | ⟨-, m, -, hr⟩ | ⟨-, r, -, rfl⟩
    · exact absurd (List.getElem?_eq_some_iff.1 hr).1 hpos
    · exact absurd (List.getElem?_eq_some_iff.1 hr).1 hpos
    · exact Function.update_self ..

theorem Follows.deliver {s : Reader} (hs : Follows h s) {e : Garden.Event} (he : h.events[s.position]? = some e) :
    Follows h ⟨maintainPlantReference s.refs e, s.position + 1, max s.reached (s.position + 1)⟩ := by
  have hpos : s.position < h.events.length := (List.getElem?_eq_some_iff.1 he).1
  have hknown := hs.known
  constructor
  · exact le_max_right ..
  · show max s.reached (s.position + 1) ≤ h.events.length
    omega
  · intro hreached
    simp only at hreached ⊢
    rw [if_neg (by omega)]
    exact hs.deliver_newest he (by omega) (by omega)
  · intro hreached
    simp only at hreached ⊢
    rcases hs.deliver_row he with hrow | ⟨hlt, hrow⟩
    · exact Or.inl hrow
    · exact Or.inr ⟨by omega, hrow⟩

theorem Follows.step {s t : Reader} {a : Action} (hs : Follows h s) (ha : step h s a = some t) : Follows h t := by
  cases a with
  | deliver =>
    simp only [References.step, Option.map_eq_some_iff] at ha
    obtain ⟨e, he, rfl⟩ := ha
    exact hs.deliver he
  | other e =>
    simp only [References.step] at ha
    split at ha
    · cases ha
    · rename_i hne
      cases ha
      have hrow := maintain_other s.refs hne
      exact ⟨hs.le, hs.known, fun hle => hrow.trans (hs.newest hle), fun hlt => by simpa only [hrow] using hs.removed hlt⟩
  | rewind position =>
    simp only [References.step] at ha
    split at ha
    · rename_i hlt
      cases ha
      refine ⟨hlt.le, hs.known, hs.newest, fun hreached => ?_⟩
      rcases hs.removed hreached with hrow | ⟨-, hrow⟩
      · exact Or.inl hrow
      · exact Or.inr ⟨hlt, hrow⟩
    · cases ha

/-- With every event delivered the newest row is what the plant's life comes to. -/
theorem last_row (hremoval : h.removal = none) : h.rows[h.rows.length - 1]? = h.reference := by
  rw [← List.getLast?_eq_getElem?]
  unfold History.rows History.reference
  rw [hremoval, List.getLast?_cons, List.getLast?_map]
  cases h.moves.getLast? <;> rfl

/-! ## Convergence -/

/-- Whatever was redelivered on the way: with the last event delivered, the row is gone if the plant was
removed, and otherwise has its household, its name and its last location. -/
theorem references_converge {h : History} {refs : PlantRefs} (hnew : refs h.plantId = none) {s : Reader} {as : List Action}
    (hrun : Run.run (step h) ⟨refs, 0, 0⟩ as = some s) (hend : s.position = h.events.length) :
    s.refs h.plantId = h.reference := by
  have hinit : Follows h ⟨refs, 0, 0⟩ :=
    ⟨le_rfl, Nat.zero_le _, fun _ => hnew, fun hlt => absurd hlt (Nat.not_lt_zero _)⟩
  have hs : Follows h s := Run.inv (fun _ _ _ hs ha => hs.step ha) hinit hrun
  have hle := hs.le
  have hknown := hs.known
  have hlen := length_events (h := h)
  cases hremoval : h.removal with
  | none =>
    have hreached : s.reached = h.rows.length := by
      simp only [hremoval, Option.toList_none, List.length_nil] at hlen
      omega
    have hne : s.reached ≠ 0 := by
      rw [hreached]
      exact Nat.succ_ne_zero _
    have hrow := hs.newest (by omega)
    rw [hrow, if_neg hne, hreached, last_row hremoval]
  | some r =>
    simp only [hremoval, Option.toList_some, List.length_singleton] at hlen
    have hgone : h.reference = none := by
      unfold History.reference
      rw [hremoval]
    rcases hs.removed (by omega) with hrow | ⟨hlt, -⟩
    · rw [hrow, hgone]
    · omega

/-- A plant that was moved and removed. -/
def moved : History :=
  ⟨7, 3, 9, ⟨['m'], by decide, by decide⟩, ⟨['w'], by decide, by decide, by decide⟩, 10, 10,
    [⟨⟨['w'], by decide, by decide, by decide⟩, ⟨['e'], by decide, by decide, by decide⟩, 20⟩], some (30, 30), by decide⟩

/-- Everything is delivered, and again from the start: the row has gone, come back and gone again. -/
theorem references_converge_moved :
    ∃ s, Run.run (step moved) ⟨fun _ => none, 0, 0⟩
        [.deliver, .deliver, .deliver, .rewind 0, .deliver, .deliver, .deliver] = some s ∧ s.refs 7 = none := by
  refine ⟨_, rfl, ?_⟩
  have hrun : Run.run (step moved) ⟨fun _ => none, 0, 0⟩
      [.deliver, .deliver, .deliver, .rewind 0, .deliver, .deliver, .deliver] = some _ := rfl
  exact references_converge (h := moved) rfl hrun rfl

end Plantkeeper.Notifications.References
