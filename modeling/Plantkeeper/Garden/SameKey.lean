/-
`AddPlant` requests with one idempotency key and one body, racing. A loser that looked the key up before
the winner committed runs its operation against the household the winner left. It is answered with the
winner's view if its own commit is refused, but not if the operation is: the winner may have taken the last
of the fifty places.
-/
import Plantkeeper.Garden.Cap

namespace Plantkeeper.Garden.AddPlant

open Plantkeeper.Run
open Idempotency (Key Library IdempotencyRecord Failure replayed requestFingerprint)

variable {Json Digest : Type} {lib : Library PlantView Json Digest}

/-! ## The race -/

/-- Every request of the run is this one. -/
def Same (c : AddPlantCommand) : Action → Prop
  | .start _ request => request = .addPlant c
  | _ => True

/-- No request reads the plants of a full household when a response is stored under its key. -/
def TxTimely (w : World Json Digest) : Option (Tx Json Digest) → Prop
  | some ⟨.addPlant c, .plantIds _⟩ => (c.idempotencyKey.bind (stored w.responses)).isSome = true →
      (members w).length < MAX_PLANTS
  | _ => True

def Timely (w : World Json Digest) : Action → Prop
  | .execute i _ => TxTimely w (w.txs i)
  | _ => True

instance (w : World Json Digest) : ∀ o, Decidable (TxTimely w o)
  | some ⟨.addPlant c, .plantIds _⟩ =>
    inferInstanceAs (Decidable ((c.idempotencyKey.bind (stored w.responses)).isSome = true → (members w).length < MAX_PLANTS))
  | none | some ⟨.removePlant _, _⟩ => inferInstanceAs (Decidable True)
  | some ⟨.addPlant _, .lookup⟩ | some ⟨.addPlant _, .getForUpdate⟩ | some ⟨.addPlant _, .commit ..⟩ |
    some ⟨.addPlant _, .reread⟩ | some ⟨.addPlant _, .get⟩ | some ⟨.addPlant _, .save ..⟩ |
    some ⟨.addPlant _, .commitRemoval ..⟩ | some ⟨.addPlant _, .returned _⟩ | some ⟨.addPlant _, .raised _⟩ |
    some ⟨.addPlant _, .gone⟩ => inferInstanceAs (Decidable True)

instance (w : World Json Digest) : ∀ a, Decidable (Timely w a)
  | .execute i _ => inferInstanceAs (Decidable (TxTimely w (w.txs i)))
  | .start .. | .giveUp _ => inferInstanceAs (Decidable True)

/-- Nothing but the number of plants can refuse the request. -/
structure Sound (w : World Json Digest) (c : AddPlantCommand) (key : Key) : Prop where
  household : ∃ name, w.household = some name ∧ (normalizeName name).isSome = true
  name : (normalizeName c.name).isSome = true
  key : key.text ≠ []

/-- The response answers the command. -/
def Answers (lib : Library PlantView Json Digest) (c : AddPlantCommand) (r : IdempotencyRecord Json Digest) : Prop :=
  r.requestHash = requestFingerprint lib c.toCreate ∧ ∃ view, r.response = lib.modelDump view

/-- Where a request may be: with the response stored it has returned it or is on its way; one that was
refused was refused before any was stored, and so is every other. -/
def TxSame (lib : Library PlantView Json Digest) (c : AddPlantCommand) (key : Key) (w : World Json Digest)
    (tx : Tx Json Digest) : Prop :=
  tx.request = .addPlant c ∧
    match tx.pc with
    | .commit plant _ record => Sound w c key ∧ ∃ r, record = some r ∧ r.key = key ∧
        r.requestHash = requestFingerprint lib c.toCreate ∧ r.response = lib.modelDump (.fromDomain plant)
    | .reread => (stored w.responses key).isSome = true
    | .returned view => ∃ r, stored w.responses key = some r ∧ r.response = lib.modelDump view
    | .raised _ => stored w.responses key = none ∧ (Sound w c key → MAX_PLANTS ≤ (members w).length)
    | _ => True

structure Raced (lib : Library PlantView Json Digest) (c : AddPlantCommand) (key : Key) (w : World Json Digest) : Prop where
  inv : Inv w
  answers : ∀ r, stored w.responses key = some r → Sound w c key ∧ Answers lib c r
  txs : ∀ i tx, w.txs i = some tx → TxSame lib c key w tx

section

variable {c : AddPlantCommand} {key : Key} {w w' : World Json Digest} {tx : Tx Json Digest} {i : ℕ} {pc : Pc Json Digest}

theorem TxSame.frame (h : TxSame lib c key w tx) (hhousehold : w'.household = w.household)
    (hresponses : w'.responses = w.responses) (hmembers : members w' = members w) : TxSame lib c key w' tx := by
  have hsound : Sound w' c key ↔ Sound w c key := by
    constructor <;> rintro ⟨hh, hn, hk⟩
    · exact ⟨by rw [← hhousehold]; exact hh, hn, hk⟩
    · exact ⟨by rw [hhousehold]; exact hh, hn, hk⟩
  unfold TxSame at *
  rw [hresponses, hmembers]
  simp only [hsound]
  exact h

/-- An operation that fails on a household it could be made in found no room. -/
theorem create_raised {name : List Char} {plantIds : List PlantId} {env : Env} {f : Failure Error}
    (h : create lib c name plantIds env = .raised f) (hkey : c.idempotencyKey = some key) (hnodup : plantIds.Nodup)
    (hname : (normalizeName name).isSome = true) (hplant : (normalizeName c.name).isSome = true) (hk : key.text ≠ []) :
    MAX_PLANTS ≤ plantIds.length := by
  obtain ⟨name', hname'⟩ := Option.isSome_iff_exists.1 hname
  obtain ⟨plantName, hplantName⟩ := Option.isSome_iff_exists.1 hplant
  have hremember : ∀ plant, ∃ record, remember lib c plant env.createdAt = .ok record := by
    intro plant
    simp [remember, hkey, hk]
  by_contra hroom
  have hcard : plantIds.toFinset.card < MAX_PLANTS := by
    rw [List.toFinset_card_of_nodup hnodup]
    omega
  have hadd : ∃ r, add c name plantIds env = .ok r := by
    by_cases hin : env.plantId ∈ plantIds <;>
      simp [add, Household.ofStored, hname', hcard.le, Plant.add, hplantName, Household.addPlant, hcard, hin]
  obtain ⟨⟨plant, events⟩, hadd⟩ := hadd
  obtain ⟨record, hrecord⟩ := hremember plant
  simp [create, hadd, hrecord] at h

/-- What an operation staged answers the command. -/
theorem remember_ok {plant : Plant} {createdAt : Instant} {record : Option (IdempotencyRecord Json Digest)}
    (hkey : c.idempotencyKey = some key) (h : remember lib c plant createdAt = .ok record) :
    key.text ≠ [] ∧ ∃ r, record = some r ∧ r.key = key ∧ r.requestHash = requestFingerprint lib c.toCreate ∧
      r.response = lib.modelDump (.fromDomain plant) := by
  simp only [remember, hkey] at h
  split at h
  · cases h
  · rename_i hk
    cases h
    exact ⟨hk, _, rfl, rfl, rfl, rfl⟩

theorem Raced.goto {request : Request} (hr : Raced lib c key w) (lock : Option ℕ)
    (hi : Inv { w.goto i request pc with lock := lock }) (hok : TxSame lib c key w ⟨request, pc⟩) :
    Raced lib c key { w.goto i request pc with lock := lock } where
  inv := hi
  answers := fun r h => ⟨⟨(hr.answers r h).1.household, (hr.answers r h).1.name, (hr.answers r h).1.key⟩, (hr.answers r h).2⟩
  txs := by
    intro j tx h
    rcases update_eq_some.1 h with ⟨rfl, hsame⟩ | ⟨-, h⟩
    · cases hsame
      exact hok.frame rfl rfl rfl
    · exact (hr.txs j tx h).frame rfl rfl rfl

/-- The winner commits: until then nobody was answered, and nobody was refused. -/
theorem Raced.add {plant : Plant} {events : List Event} {record : Option (IdempotencyRecord Json Digest)}
    (hr : Raced lib c key w) (h : w.txs i = some ⟨.addPlant c, .commit plant events record⟩)
    (ht : taken w.responses record = false)
    (hi : Inv { w.goto i (.addPlant c) (.returned (.fromDomain plant)) with
      plants := w.plants ++ [plant], outbox := w.outbox ++ events, responses := w.responses ++ record.toList }) :
    Raced lib c key { w.goto i (.addPlant c) (.returned (.fromDomain plant)) with
      plants := w.plants ++ [plant], outbox := w.outbox ++ events, responses := w.responses ++ record.toList } := by
  obtain ⟨-, hsound, r, rfl, hrkey, hhash, hview⟩ := hr.txs i _ h
  obtain ⟨-, -, hroom⟩ := hr.inv.txs i _ h
  have hnone : stored w.responses key = none := by
    simpa [taken, hrkey] using ht
  have hstored : stored (w.responses ++ [r]) key = some r := by
    unfold stored at *
    rw [List.find?_append, hnone]
    simp [hrkey]
  refine ⟨hi, ?_, ?_⟩
  · intro r' hr'
    have hsame : r = r' := Option.some.inj (hstored.symm.trans hr')
    subst hsame
    exact ⟨⟨hsound.household, hsound.name, hsound.key⟩, hhash, _, hview⟩
  · intro j tx hj
    rcases update_eq_some.1 hj with ⟨-, hsame⟩ | ⟨-, hj⟩
    · cases hsame
      exact ⟨rfl, r, hstored, hview⟩
    · obtain ⟨request, pc⟩ := tx
      obtain ⟨hrequest, hok⟩ := hr.txs j _ hj
      refine ⟨hrequest, ?_⟩
      cases pc with
      | commit plant' events' record' => exact ⟨⟨hsound.household, hsound.name, hsound.key⟩, hok.2⟩
      | reread => exact Option.isSome_iff_exists.2 ⟨r, hstored⟩
      | returned view =>
        obtain ⟨r', hr', -⟩ := hok
        rw [hnone] at hr'
        cases hr'
      | raised f =>
        have hle := hok.2 hsound
        omega
      | _ => trivial

variable [DecidableEq Digest]

/-- A lookup finds the winner's response and returns its view. -/
theorem lookup_raced (hlib : ∀ view, lib.modelValidate .plant (lib.modelDump view) = some view) (hr : Raced lib c key w)
    (hkey : c.idempotencyKey = some key) {missing : Pc Json Digest} :
    (stored w.responses key = none ∧ lookup lib w.responses c missing = missing) ∨
      ∃ r view, stored w.responses key = some r ∧ r.response = lib.modelDump view ∧
        lookup lib w.responses c missing = .returned view := by
  unfold lookup
  rw [hkey, Option.bind_some]
  cases hs : stored w.responses key with
  | none => exact .inl ⟨rfl, rfl⟩
  | some r =>
    right
    obtain ⟨-, hhash, view, hview⟩ := hr.answers r hs
    refine ⟨r, view, rfl, hview, ?_⟩
    have hreplayed : replayed (E := Error) lib c.toCreate r = .ok view := by
      have htype : c.toCreate.create.viewType = .plant := rfl
      simp [replayed, hhash, htype, hview, hlib]
    simp only [hreplayed, Pc.ofResult]

/-- A request that does not write goes on, if it was in time. -/
theorem same_next (hlib : ∀ view, lib.modelValidate .plant (lib.modelDump view) = some view) (hr : Raced lib c key w)
    (hkey : c.idempotencyKey = some key) (h : w.txs i = some tx) (ht : TxTimely w (some tx)) (hn : Next lib w tx pc) :
    TxSame lib c key w ⟨tx.request, pc⟩ := by
  have hok := hr.txs i tx h
  refine ⟨hok.1, ?_⟩
  cases hn with
  | lookup c' =>
    cases hok.1
    rcases lookup_raced hlib hr hkey with ⟨-, hl⟩ | ⟨r, view, hs, hview, hl⟩
    · rw [hl]
      trivial
    · rw [hl]
      exact ⟨r, hs, hview⟩
  | noHousehold c' hnone =>
    have hunsound : ¬ Sound w c key := by
      rintro ⟨⟨name, hname, -⟩, -, -⟩
      rw [hnone] at hname
      cases hname
    refine ⟨?_, fun hs => absurd hs hunsound⟩
    cases hs : stored w.responses key with
    | none => rfl
    | some r => exact absurd (hr.answers r hs).1 hunsound
  | create c' name env hnew =>
    cases hok.1
    obtain ⟨-, hhousehold⟩ := hr.inv.txs i _ h
    have hnodup : ((members w).map (·.id)).Nodup := ids_members.nodup hr.inv.nodup
    rcases @create_cases _ _ lib c name ((members w).map (·.id)) env with ⟨f, hf⟩ | ⟨plant, events, record, hcommit⟩
    · rw [hf]
      have hfull : Sound w c key → MAX_PLANTS ≤ (members w).length := by
        rintro ⟨⟨name', hname', hblank⟩, hplant, hk⟩
        rw [hhousehold] at hname'
        cases hname'
        have hle := create_raised hf hkey hnodup hblank hplant hk
        rwa [List.length_map] at hle
      refine ⟨?_, hfull⟩
      -- with the response stored there was still room
      cases hs : stored w.responses key with
      | none => rfl
      | some r =>
        have hroom : (members w).length < MAX_PLANTS := ht (by rw [hkey, Option.bind_some, hs]; rfl)
        have hle := hfull (hr.answers r hs).1
        omega
    · have hfresh : env.plantId ∉ (members w).map (·.id) := fun hin => hnew (ids_members.subset hin)
      obtain ⟨-, -, hname, hplant, hremember⟩ := create_commit hcommit hfresh hnodup
      obtain ⟨hk, hrecord⟩ := remember_ok hkey hremember
      rw [hcommit]
      exact ⟨⟨⟨name, hhousehold, hname⟩, hplant, hk⟩, hrecord⟩
  | reread c' =>
    cases hok.1
    have hsome : (stored w.responses key).isSome = true := hok.2
    rcases lookup_raced hlib hr hkey with ⟨hs, -⟩ | ⟨r, view, hs, hview, hl⟩
    · rw [hs] at hsome
      cases hsome
    · rw [hl]
      exact ⟨r, hs, hview⟩
  | refuse => cases hok.1
  | get => cases hok.1
  | save => cases hok.1

theorem Raced.step {a : Action} (hlib : ∀ view, lib.modelValidate .plant (lib.modelDump view) = some view)
    (hkey : c.idempotencyKey = some key) (hr : Raced lib c key w) (hsame : Same c a) (ht : Timely w a)
    (h : step lib w a = some w') : Raced lib c key w' := by
  have hi := hr.inv.step h
  cases steps_of_step h with
  | start i request hnone hon =>
    cases hsame
    refine hr.goto _ hi ⟨rfl, ?_⟩
    simp [Request.start, hkey]
  | giveUp i tx htx ho => exact hr.goto _ hi ⟨(hr.txs i tx htx).1, trivial⟩
  | move i tx env pc htx hn =>
    simp only [Timely, htx] at ht
    exact hr.goto _ hi (same_next hlib hr hkey htx ht hn)
  | lock i c' env name htx hhousehold hfree =>
    cases (hr.txs i _ htx).1
    exact hr.goto _ hi ⟨rfl, trivial⟩
  | lose i c' env plant events record htx htaken =>
    obtain ⟨hrequest, -, r, rfl, hrkey, -⟩ := hr.txs i _ htx
    cases hrequest
    refine hr.goto _ hi ⟨rfl, ?_⟩
    rw [← hrkey]
    exact htaken
  | add i c' env plant events record htx htaken =>
    obtain ⟨hrequest, -⟩ := hr.txs i _ htx
    cases hrequest
    exact hr.add htx htaken hi
  | remove i plantId env plant events seen htx =>
    obtain ⟨hrequest, -⟩ := hr.txs i _ htx
    cases hrequest

end

/-! ## Runs -/

/-- **The loser of an idempotency race gets the winner's answer**, in every interleaving of requests with one
key and one body in which none reads the plants of a full household after a response was stored under the
key: once one of them has committed, every request that has ended has returned the view that is stored. -/
theorem losers_answered {c : AddPlantCommand} {key : Key} {w₀ w : World Json Digest} {as : List Action}
    [DecidableEq Digest] (hlib : ∀ view, lib.modelValidate .plant (lib.modelDump view) = some view)
    (hkey : c.idempotencyKey = some key) (hrest : AtRest w₀) (hids : (w₀.plants.map (·.id)).Nodup)
    (hfree : stored w₀.responses key = none) (hsame : ∀ a ∈ as, Same c a) (hm : Meets (step lib) Timely w₀ as)
    (hrun : run (step lib) w₀ as = some w) {r : IdempotencyRecord Json Digest} (hr : stored w.responses key = some r) :
    ∃ view, r.response = lib.modelDump view ∧
      ∀ i tx, w.txs i = some tx → tx.pc.isOpen = true ∨ tx.pc = .gone ∨ tx.pc = .returned view := by
  have hinit : Raced lib c key w₀ := by
    refine ⟨inv_atRest hrest hids, fun r' hr' => ?_, fun i tx htx => ?_⟩
    · rw [hfree] at hr'
      cases hr'
    · rw [hrest.2 i] at htx
      cases htx
  have hraced : Raced lib c key w :=
    inv_of_meets (fun _ _ _ hr ha h => hr.step hlib hkey ha.1 ha.2 h) hinit (meets_and (meets_of_forall hsame w₀) hm) hrun
  obtain ⟨-, -, view, hview⟩ := hraced.answers r hr
  refine ⟨view, hview, fun i tx htx => ?_⟩
  obtain ⟨request, pc⟩ := tx
  obtain ⟨-, hok⟩ := hraced.txs i _ htx
  cases pc with
  | returned view' =>
    obtain ⟨r', hr', hview'⟩ := hok
    rw [hr] at hr'
    cases hr'
    -- one response has one view
    have hviews : some view' = some view := by
      rw [← hlib view', ← hlib view, ← hview', ← hview]
    cases hviews
    exact .inr (.inr rfl)
  | raised f =>
    have hnone : stored w.responses key = none := hok.1
    rw [hr] at hnone
    cases hnone
  | gone => exact .inr (.inl rfl)
  | _ => exact .inl rfl

/-- A cactus for the household, under a key. -/
def cactus : AddPlantCommand :=
  ⟨2, 3, ['c'], ⟨['x'], by decide, by decide, by decide⟩, some ⟨['r'], by decide⟩⟩

/-- Two requests look the key up before either commits; the first commits and the second reads the plants. -/
def bothLooked : List Action :=
  [.start 0 (.addPlant cactus), .start 1 (.addPlant cactus), .execute 0 ⟨7, 10, 10⟩, .execute 1 ⟨8, 11, 11⟩,
    .execute 0 ⟨7, 10, 10⟩, .execute 0 ⟨7, 10, 10⟩, .execute 0 ⟨7, 10, 10⟩, .execute 1 ⟨8, 11, 11⟩, .execute 1 ⟨8, 11, 11⟩]

/-- The second goes on: its commit is refused and it looks the key up again. -/
def secondAnswered : List Action := bothLooked ++ [.execute 1 ⟨8, 11, 11⟩, .execute 1 ⟨8, 11, 11⟩]

/-- In a household without plants the second returns what the first stored. -/
theorem losers_answered_empty :
    ∃ w r view, run (step plain) { nearlyFull with plants := [] } secondAnswered = some w ∧
      stored w.responses ⟨['r'], by decide⟩ = some r ∧ r.response = view ∧
        ∀ i tx, w.txs i = some tx → tx.pc.isOpen = true ∨ tx.pc = .gone ∨ tx.pc = .returned view := by
  obtain ⟨w, hrun⟩ : ∃ w, w = (run (step plain) { nearlyFull with plants := [] } secondAnswered).get (by decide +kernel) :=
    ⟨_, rfl⟩
  have hstored : (stored w.responses ⟨['r'], by decide⟩).isSome = true := by
    rw [hrun]
    decide +kernel
  obtain ⟨r, hr⟩ := Option.isSome_iff_exists.1 hstored
  have hrun : run (step plain) { nearlyFull with plants := [] } secondAnswered = some w := by
    rw [hrun]
    exact (Option.some_get _).symm
  have hsame : ∀ a ∈ secondAnswered, Same cactus a := by
    simp [secondAnswered, bothLooked, Same]
  obtain ⟨view, hview, hended⟩ := losers_answered (fun _ => rfl) rfl ⟨rfl, fun _ => rfl⟩ (by decide) rfl hsame
    (by decide +kernel) hrun hr
  exact ⟨w, r, view, hrun, hr, hview, hended⟩

/-- With room for one more plant the second is refused for the place that the first took, although the
view it should return is stored. -/
theorem loser_refused :
    (∀ a ∈ bothLooked, Same cactus a) ∧
      ∃ w, run (step plain) nearlyFull bothLooked = some w ∧ (stored w.responses ⟨['r'], by decide⟩).isSome = true ∧
        (w.txs 1).bind (·.pc.failure) = some (.operation (.household .householdCapacityExceeded)) := by
  constructor
  · simp [bothLooked, Same]
  · exact ⟨(run (step plain) nearlyFull bothLooked).get (by decide +kernel), (Option.some_get _).symm, by decide +kernel,
      by decide +kernel⟩

end Plantkeeper.Garden.AddPlant
