/-
A household never owns more than its fifty plants. Between reading the household's plants and committing a
new one a request holds the lock of the household's row, and the others can only remove plants. What a
request writes it writes with its commit, so one that is refused leaves nothing.
-/
import Plantkeeper.Garden.AddPlant
import Plantkeeper.Lib.Table

namespace Plantkeeper.Garden.AddPlant

open Plantkeeper.Run
open Idempotency (Key Library IdempotencyRecord Failure replayed requestFingerprint)

variable {Json Digest : Type} {lib : Library PlantView Json Digest}

/-! ## The invariant -/

/-- An `AddPlant` past the lock holds it, and what it staged fits; a removal removes the row it read. -/
def TxOk (w : World Json Digest) (i : ℕ) (tx : Tx Json Digest) : Prop :=
  match tx.pc with
  | .plantIds name => w.lock = some i ∧ w.household = some name
  | .commit plant _ _ => w.lock = some i ∧ plant.id ∉ w.plants.map (·.id) ∧ (members w).length < MAX_PLANTS
  | .save plant _ => plant.removed = true ∧ tx.request = .removePlant plant.id
  | .commitRemoval plant _ seen => plant.removed = true ∧ tx.request = .removePlant plant.id ∧ seen.id = plant.id ∧
      plant.id ∈ w.plants.map (·.id) ∧ (seen.removed = true → ∀ row ∈ w.plants, row.id = plant.id → row.removed = true)
  | _ => True

structure Inv (w : World Json Digest) : Prop where
  nodup : (w.plants.map (·.id)).Nodup
  txs : ∀ i tx, w.txs i = some tx → TxOk w i tx

section

variable {w w' : World Json Digest} {i j : ℕ} {request : Request} {pc : Pc Json Digest} {tx : Tx Json Digest}
  {plant seen : Plant} {events : List Event} {record : Option (IdempotencyRecord Json Digest)}

/-! ## The tables -/

theorem ids_members : ((members w).map (·.id)).Sublist (w.plants.map (·.id)) :=
  List.filter_sublist.map _

/-- One more row is at most one more plant of the household. -/
theorem length_members_append (hplants : w'.plants = w.plants ++ [plant]) (hid : w'.householdId = w.householdId) :
    (members w').length ≤ (members w).length + 1 := by
  unfold members
  rw [hplants, hid, List.filter_append, List.length_append]
  have hone := List.length_filter_le (fun p : Plant => p.householdId = w.householdId && !p.removed) [plant]
  simp only [List.length_singleton] at hone
  omega

/-- The row after the update that a removal makes. -/
theorem merge_row {row : Plant} (hplant : plant.removed = true) (hid : seen.id = plant.id)
    (hseen : seen.removed = true → row.removed = true) :
    (Garden.plants.merge seen plant row).id = row.id ∧ (Garden.plants.merge seen plant row).removed = true := by
  have hremoved : (Garden.plants.merge seen plant row).removed =
      if plant.removed = seen.removed then row.removed else plant.removed := rfl
  constructor
  · exact Columns.get_merge_of_eq (C := Garden.plants) (c := Column.id) hid.symm
  · rw [hremoved, hplant]
    split
    · rename_i h
      exact hseen h.symm
    · rfl

theorem ids_update (hplant : plant.removed = true) (hid : seen.id = plant.id)
    (hseen : seen.removed = true → ∀ row ∈ w.plants, row.id = plant.id → row.removed = true) :
    (w.update plant.id seen plant).map (·.id) = w.plants.map (·.id) := by
  unfold World.update
  rw [List.map_map]
  apply List.map_congr_left
  intro row hrow
  simp only [Function.comp_apply]
  split
  · rename_i h
    exact (merge_row hplant hid fun hs => hseen hs row hrow h).1
  · rfl

theorem removed_update {row : Plant} (hplant : plant.removed = true) (hid : seen.id = plant.id)
    (hseen : seen.removed = true → ∀ row ∈ w.plants, row.id = plant.id → row.removed = true)
    (hrow : row ∈ w.update plant.id seen plant) : row.removed = true ∨ row ∈ w.plants := by
  obtain ⟨old, hold, rfl⟩ := List.mem_map.1 hrow
  split
  · rename_i h
    exact .inl (merge_row hplant hid fun hs => hseen hs old hold h).2
  · exact .inr hold

/-- A removal makes no plant the household's. -/
theorem length_members_update (hplant : plant.removed = true) (hid : seen.id = plant.id)
    (hseen : seen.removed = true → ∀ row ∈ w.plants, row.id = plant.id → row.removed = true)
    (hplants : w'.plants = w.update plant.id seen plant) (hhousehold : w'.householdId = w.householdId) :
    (members w').length ≤ (members w).length := by
  unfold members
  rw [hplants, hhousehold, World.update, ← List.countP_eq_length_filter, ← List.countP_eq_length_filter, List.countP_map]
  apply List.countP_mono_left
  intro row hrow hmember
  simp only [Function.comp_apply] at hmember
  split at hmember
  · rename_i h
    rw [(merge_row hplant hid fun hs => hseen hs row hrow h).2] at hmember
    simp at hmember
  · exact hmember

/-! ## The lock -/

/-- Requests that end leave the others' lock alone. -/
theorem lock_goto (hj : j ≠ i) :
    (w.goto i request pc).lock = some j ↔ w.lock = some j := by
  unfold World.goto
  simp only
  split
  · rfl
  · split
    · rename_i hlock
      simp [hlock, hj.symm]
    · rfl

theorem lock_goto_open (ho : pc.isOpen = true) :
    (w.goto i request pc).lock = w.lock :=
  if_pos ho


/-- What a request relies on is still there when the tables are as they were and it has its lock. -/
theorem TxOk.frame (h : TxOk w j tx) (hlock : w.lock = some j → w'.lock = some j) (hhousehold : w'.household = w.household)
    (hid : w'.householdId = w.householdId) (hplants : w'.plants = w.plants) : TxOk w' j tx := by
  have hmembers : members w' = members w := by
    unfold members
    rw [hplants, hid]
  unfold TxOk at *
  rw [hhousehold, hplants, hmembers]
  split at h
  · exact ⟨hlock h.1, h.2⟩
  · exact ⟨hlock h.1, h.2⟩
  · exact h
  · exact h
  · trivial

theorem create_cases (c : AddPlantCommand) (name : List Char) (plantIds : List PlantId) (env : Env) :
    (∃ f, create lib c name plantIds env = .raised f) ∨
      ∃ plant events record, create lib c name plantIds env = .commit plant events record := by
  unfold create
  split
  · exact .inl ⟨_, rfl⟩
  · split
    · exact .inl ⟨_, rfl⟩
    · exact .inr ⟨_, _, _, rfl⟩

/-- The household's plants are below the cap when a new one is staged. -/
theorem create_commit {c : AddPlantCommand} {name : List Char} {plantIds : List PlantId} {env : Env}
    (h : create lib c name plantIds env = .commit plant events record) (hnew : env.plantId ∉ plantIds)
    (hnodup : plantIds.Nodup) :
    plant.id = env.plantId ∧ plantIds.length < MAX_PLANTS ∧ (normalizeName name).isSome ∧ (normalizeName c.name).isSome ∧
      remember lib c plant env.createdAt = .ok record := by
  unfold create add at h
  split at h
  · cases h
  · rename_i plant' events' hadd
    split at h
    · cases h
    · rename_i record' hremember
      cases h
      split at hadd
      · cases hadd
      · rename_i household hhousehold
        obtain ⟨hname, hids⟩ := Household.ofStored_ok hhousehold
        split at hadd
        · cases hadd
        · rename_i plant' events' hplant
          unfold Plant.add at hplant
          split at hplant
          · cases hplant
          · rename_i name' hname'
            cases hplant
            split at hadd
            · cases hadd
            · rename_i household' hroom
              cases hadd
              have hcard := Household.addPlant_ok (by simpa [hids] using hnew) hroom
              rw [hids, List.toFinset_card_of_nodup hnodup] at hcard
              exact ⟨rfl, hcard, by simp [hname], by simp [hname'], hremember⟩

end

variable [DecidableEq Digest]

/-! ## What a step can do -/

/-- Where a statement that writes nothing takes its request. -/
inductive Next (lib : Library PlantView Json Digest) (w : World Json Digest) : Tx Json Digest → Pc Json Digest → Prop
  | lookup (c : AddPlantCommand) : Next lib w ⟨.addPlant c, .lookup⟩ (lookup lib w.responses c .getForUpdate)
  | noHousehold (c : AddPlantCommand) (h : w.household = none) :
    Next lib w ⟨.addPlant c, .getForUpdate⟩ (.raised (.operation .notFound))
  | create (c : AddPlantCommand) (name : List Char) (env : Env) (hnew : env.plantId ∉ w.plants.map (·.id)) :
    Next lib w ⟨.addPlant c, .plantIds name⟩ (create lib c name ((members w).map (·.id)) env)
  | reread (c : AddPlantCommand) : Next lib w ⟨.addPlant c, .reread⟩ (lookup lib w.responses c (.raised .concurrentWrite))
  | refuse (plantId : PlantId) (e : Error) : Next lib w ⟨.removePlant plantId, .get⟩ (.raised (.operation e))
  | get (plantId : PlantId) (p plant : Plant) (events : List Event) (now : Instant) (hp : p.id = plantId)
    (h : p.remove now = .ok (plant, events)) : Next lib w ⟨.removePlant plantId, .get⟩ (.save plant events)
  | save (plantId : PlantId) (plant : Plant) (events : List Event) (seen : Plant) (hmem : seen ∈ w.plants)
    (hid : seen.id = plantId) : Next lib w ⟨.removePlant plantId, .save plant events⟩ (.commitRemoval plant events seen)

inductive Steps (lib : Library PlantView Json Digest) (w : World Json Digest) : Action → World Json Digest → Prop
  | start (i : ℕ) (request : Request) (h : w.txs i = none) (hon : request.isOn w.householdId = true) :
    Steps lib w (.start i request) (w.goto i request request.start)
  | giveUp (i : ℕ) (tx : Tx Json Digest) (h : w.txs i = some tx) (ho : tx.pc.isOpen = true) :
    Steps lib w (.giveUp i) (w.goto i tx.request .gone)
  | move (i : ℕ) (tx : Tx Json Digest) (env : Env) (pc : Pc Json Digest) (h : w.txs i = some tx) (hn : Next lib w tx pc) :
    Steps lib w (.execute i env) (w.goto i tx.request pc)
  | lock (i : ℕ) (c : AddPlantCommand) (env : Env) (name : List Char) (h : w.txs i = some ⟨.addPlant c, .getForUpdate⟩)
    (hhousehold : w.household = some name) (hfree : w.lock = none) :
    Steps lib w (.execute i env) { w.goto i (.addPlant c) (.plantIds name) with lock := some i }
  | lose (i : ℕ) (c : AddPlantCommand) (env : Env) (plant : Plant) (events : List Event)
    (record : Option (IdempotencyRecord Json Digest)) (h : w.txs i = some ⟨.addPlant c, .commit plant events record⟩)
    (ht : taken w.responses record = true) : Steps lib w (.execute i env) (w.rollback i (.addPlant c) .reread)
  | add (i : ℕ) (c : AddPlantCommand) (env : Env) (plant : Plant) (events : List Event)
    (record : Option (IdempotencyRecord Json Digest)) (h : w.txs i = some ⟨.addPlant c, .commit plant events record⟩)
    (ht : taken w.responses record = false) :
    Steps lib w (.execute i env) { w.goto i (.addPlant c) (.returned (.fromDomain plant)) with
      plants := w.plants ++ [plant]
      outbox := w.outbox ++ events
      responses := w.responses ++ record.toList }
  | remove (i : ℕ) (plantId : PlantId) (env : Env) (plant : Plant) (events : List Event) (seen : Plant)
    (h : w.txs i = some ⟨.removePlant plantId, .commitRemoval plant events seen⟩) :
    Steps lib w (.execute i env) { w.goto i (.removePlant plantId) (.returned (.fromDomain plant)) with
      plants := w.update plantId seen plant
      outbox := w.outbox ++ events }

theorem steps_of_addPlant {w w' : World Json Digest} {i : ℕ} {c : AddPlantCommand} {pc : Pc Json Digest} {env : Env}
    (hi : w.txs i = some ⟨.addPlant c, pc⟩) (h : execute lib w i ⟨.addPlant c, pc⟩ env = some w') :
    Steps lib w (.execute i env) w' := by
  unfold execute at h
  cases pc with
  | lookup =>
    cases h
    exact .move i _ env _ hi (.lookup c)
  | getForUpdate =>
    simp only at h
    split at h
    · rename_i hnone
      cases h
      exact .move i _ env _ hi (.noHousehold c hnone)
    · rename_i name hname hfree
      cases h
      exact .lock i c env name hi hname hfree
    · cases h
  | plantIds name =>
    simp only at h
    split at h
    · cases h
    · rename_i hnew
      cases h
      exact .move i _ env _ hi (.create c name env hnew)
  | commit plant events record =>
    simp only at h
    split at h
    · rename_i ht
      cases h
      exact .lose i c env _ _ _ hi ht
    · rename_i ht
      cases h
      exact .add i c env _ _ _ hi (by simpa using ht)
  | reread =>
    cases h
    exact .move i _ env _ hi (.reread c)
  | _ => cases h

theorem steps_of_removePlant {w w' : World Json Digest} {i : ℕ} {plantId : PlantId} {pc : Pc Json Digest} {env : Env}
    (hi : w.txs i = some ⟨.removePlant plantId, pc⟩) (h : execute lib w i ⟨.removePlant plantId, pc⟩ env = some w') :
    Steps lib w (.execute i env) w' := by
  unfold execute at h
  cases pc with
  | get =>
    simp only at h
    split at h
    · cases h
      exact .move i _ env _ hi (.refuse plantId _)
    · rename_i p hp
      have hid : p.id = plantId := by simpa using List.find?_some hp
      split at h
      · cases h
        exact .move i _ env _ hi (.refuse plantId _)
      · rename_i plant events hremove
        cases h
        exact .move i _ env _ hi (.get plantId p plant events env.now hid hremove)
  | save plant events =>
    simp only [Option.map_eq_some_iff] at h
    obtain ⟨seen, hseen, rfl⟩ := h
    have hid : seen.id = plantId := by simpa using List.find?_some hseen
    exact .move i _ env _ hi (.save plantId plant events seen (List.mem_of_find?_eq_some hseen) hid)
  | commitRemoval plant events seen =>
    cases h
    exact .remove i plantId env plant events seen hi
  | _ => cases h

theorem steps_of_step {w w' : World Json Digest} {a : Action} (h : step lib w a = some w') : Steps lib w a w' := by
  cases a with
  | start i request =>
    simp only [step] at h
    split at h
    · rename_i hi
      split at h
      · rename_i hon
        cases h
        exact .start i request hi hon
      · cases h
    · cases h
  | giveUp i =>
    simp only [step] at h
    split at h
    · cases h
    · rename_i tx hi
      split at h
      · rename_i ho
        cases h
        exact .giveUp i tx hi ho
      · cases h
  | execute i env =>
    simp only [step] at h
    split at h
    · cases h
    · rename_i tx hi
      obtain ⟨request, pc⟩ := tx
      cases request with
      | addPlant c => exact steps_of_addPlant hi h
      | removePlant plantId => exact steps_of_removePlant hi h

/-! ## One step -/

section

variable {w w' : World Json Digest} {i j : ℕ} {request : Request} {pc : Pc Json Digest} {tx : Tx Json Digest} {a : Action}

omit [DecidableEq Digest] in
theorem Inv.goto (hi : Inv w) (hok : TxOk (w.goto i request pc) i ⟨request, pc⟩) : Inv (w.goto i request pc) where
  nodup := hi.nodup
  txs := by
    intro j tx h
    rcases update_eq_some.1 h with ⟨rfl, hsame⟩ | ⟨hj, h⟩
    · cases hsame
      exact hok
    · exact (hi.txs j tx h).frame (lock_goto hj).2 rfl rfl rfl

theorem txOk_lookup {responses : List (IdempotencyRecord Json Digest)} {c : AddPlantCommand} {missing : Pc Json Digest}
    (hmissing : TxOk w i ⟨request, missing⟩) : TxOk w i ⟨request, lookup lib responses c missing⟩ := by
  unfold lookup
  split
  · rename_i r
    unfold Pc.ofResult
    split <;> trivial
  · exact hmissing

/-- A request that does not write goes on. -/
theorem txOk_next (hi : Inv w) (h : w.txs i = some tx) (hn : Next lib w tx pc) :
    TxOk (w.goto i tx.request pc) i ⟨tx.request, pc⟩ := by
  have hok := hi.txs i tx h
  cases hn with
  | lookup c => exact txOk_lookup trivial
  | noHousehold c hnone => trivial
  | create c name env hnew =>
    rcases @create_cases _ _ lib c name ((members w).map (·.id)) env with ⟨f, hf⟩ | ⟨plant, events, record, hcommit⟩
    · rw [hf]
      trivial
    · have hfresh : env.plantId ∉ (members w).map (·.id) := fun hin => hnew (ids_members.subset hin)
      obtain ⟨hid, hroom, -⟩ := create_commit hcommit hfresh (ids_members.nodup hi.nodup)
      rw [hcommit]
      rw [List.length_map] at hroom
      exact ⟨(lock_goto_open rfl).trans hok.1, by rw [hid]; exact hnew, hroom⟩
  | reread c => exact txOk_lookup trivial
  | refuse plantId e => trivial
  | get plantId p plant events now hp hremove =>
    unfold Plant.remove at hremove
    split at hremove
    · cases hremove
    · cases hremove
      exact ⟨rfl, by rw [← hp]⟩
  | save plantId plant events seen hmem hid =>
    obtain ⟨hremoved, hrequest⟩ := hok
    cases hrequest
    refine ⟨hremoved, rfl, hid, hid ▸ List.mem_map_of_mem hmem, fun hseen row hrow hrowid => ?_⟩
    -- the row the save saw is the one with the identifier
    have hsame : row = seen := List.inj_on_of_nodup_map hi.nodup hrow hmem (hrowid.trans hid.symm)
    rw [hsame, hseen]

omit [DecidableEq Digest] in
/-- A new plant: only the holder of the lock stages one. -/
theorem Inv.add {c : AddPlantCommand} {plant : Plant} {events outbox : List Event}
    {record : Option (IdempotencyRecord Json Digest)} {responses : List (IdempotencyRecord Json Digest)} (hi : Inv w)
    (h : w.txs i = some ⟨.addPlant c, .commit plant events record⟩) :
    Inv { w.goto i (.addPlant c) (.returned (.fromDomain plant)) with
      plants := w.plants ++ [plant], outbox := outbox, responses := responses } := by
  obtain ⟨hlock, hfresh, -⟩ := hi.txs i _ h
  constructor
  · exact Table.nodup_insert hi.nodup hfresh
  · intro j tx hj
    rcases update_eq_some.1 hj with ⟨-, hsame⟩ | ⟨hne, hj⟩
    · cases hsame
      trivial
    · have hwait : w.lock ≠ some j := by
        rw [hlock]
        simpa using hne.symm
      have hok := hi.txs j tx hj
      unfold TxOk at hok ⊢
      split at hok
      · exact absurd hok.1 hwait
      · exact absurd hok.1 hwait
      · exact hok
      · rename_i plant' events' seen _
        obtain ⟨hremoved, hrequest, hid, hmem, hseen⟩ := hok
        refine ⟨hremoved, hrequest, hid, ?_, fun hs row hrow hrowid => ?_⟩
        · simp only [List.map_append, List.mem_append]
          exact .inl hmem
        · rcases List.mem_append.1 hrow with hrow | hrow
          · exact hseen hs row hrow hrowid
          · rw [List.mem_singleton] at hrow
            rw [hrow] at hrowid
            exact absurd (hrowid ▸ hmem) hfresh
      · trivial

omit [DecidableEq Digest] in
/-- A removal: the others' plants stay the ones they were. -/
theorem Inv.remove {plantId : PlantId} {plant seen : Plant} {events outbox : List Event} (hi : Inv w)
    (h : w.txs i = some ⟨.removePlant plantId, .commitRemoval plant events seen⟩) :
    Inv { w.goto i (.removePlant plantId) (.returned (.fromDomain plant)) with
      plants := w.update plantId seen plant, outbox := outbox } := by
  obtain ⟨hremoved, hrequest, hid, hmem, hseen⟩ := hi.txs i _ h
  cases hrequest
  have hids := ids_update hremoved hid hseen
  constructor
  · show ((w.update plant.id seen plant).map (·.id)).Nodup
    rw [hids]
    exact hi.nodup
  · intro j tx hj
    rcases update_eq_some.1 hj with ⟨-, hsame⟩ | ⟨hne, hj⟩
    · cases hsame
      trivial
    · have hlock : w.lock = some j → (w.goto i (.removePlant plant.id) (.returned (.fromDomain plant))).lock = some j :=
        (lock_goto hne).2
      have hok := hi.txs j tx hj
      unfold TxOk at hok ⊢
      split at hok
      · exact ⟨hlock hok.1, hok.2⟩
      · refine ⟨hlock hok.1, ?_, ?_⟩
        · show _ ∉ (w.update plant.id seen plant).map (·.id)
          rw [hids]
          exact hok.2.1
        · exact lt_of_le_of_lt (length_members_update (w := w) hremoved hid hseen rfl rfl) hok.2.2
      · exact hok
      · obtain ⟨hremoved', hrequest', hid', hmem', hseen'⟩ := hok
        refine ⟨hremoved', hrequest', hid', ?_, fun hs row hrow hrowid => ?_⟩
        · show _ ∈ (w.update plant.id seen plant).map (·.id)
          rw [hids]
          exact hmem'
        · rcases removed_update hremoved hid hseen hrow with hr | hold
          · exact hr
          · exact hseen' hs row hold hrowid
      · trivial

theorem Inv.step (hi : Inv w) (h : step lib w a = some w') : Inv w' := by
  cases steps_of_step h with
  | start i request hnone hon =>
    apply hi.goto
    cases request with
    | addPlant c =>
      unfold Request.start
      simp only
      split <;> trivial
    | removePlant plantId => trivial
  | giveUp i tx htx ho => exact hi.goto trivial
  | move i tx env pc htx hn => exact hi.goto (txOk_next hi htx hn)
  | lock i c env name htx hhousehold hfree =>
    refine ⟨hi.nodup, fun j tx hj => ?_⟩
    rcases update_eq_some.1 hj with ⟨rfl, hsame⟩ | ⟨hne, hj⟩
    · cases hsame
      exact ⟨rfl, hhousehold⟩
    · refine (hi.txs j tx hj).frame (fun hlock => ?_) rfl rfl rfl
      rw [hfree] at hlock
      cases hlock
  | lose i c env plant events record htx ht =>
    refine ⟨hi.nodup, fun j tx hj => ?_⟩
    rcases update_eq_some.1 hj with ⟨rfl, hsame⟩ | ⟨hne, hj⟩
    · cases hsame
      trivial
    · refine (hi.txs j tx hj).frame (fun hlock => ?_) rfl rfl rfl
      have hother : w.lock ≠ some i := by
        rw [hlock]
        simpa using hne
      exact (if_neg hother).trans hlock
  | add i c env plant events record htx ht => exact hi.add htx
  | remove i plantId env plant events seen htx => exact hi.remove htx

/-- No step takes the household over its cap. -/
theorem cap_step (hi : Inv w) (h : step lib w a = some w') (hcap : (members w).length ≤ MAX_PLANTS) :
    (members w').length ≤ MAX_PLANTS := by
  cases steps_of_step h with
  | start | giveUp | move | lock | lose => exact hcap
  | add i c env plant events record htx ht =>
    obtain ⟨-, -, hroom⟩ := hi.txs i _ htx
    exact le_trans (length_members_append (w := w) rfl rfl) hroom
  | remove i plantId env plant events seen htx =>
    obtain ⟨hremoved, hrequest, hid, -, hseen⟩ := hi.txs i _ htx
    cases hrequest
    exact le_trans (length_members_update (w := w) hremoved hid hseen rfl rfl) hcap

/-! ## Refused requests -/

/-- The plants, the outbox and the stored responses are as they were. -/
def Unchanged (w w' : World Json Digest) : Prop :=
  w'.plants = w.plants ∧ w'.outbox = w.outbox ∧ w'.responses = w.responses

/-- The step is one of the request. -/
def Action.isOf (i : ℕ) : Action → Bool
  | .start j _ | .execute j _ | .giveUp j => j = i

/-- What a request writes it writes with the step in which it returns. -/
theorem returned_of_changed (h : step lib w a = some w') (hi : a.isOf i = true) (hc : ¬ Unchanged w w') :
    ∃ request view, w'.txs i = some ⟨request, .returned view⟩ := by
  cases steps_of_step h with
  | start | giveUp | move | lock | lose => exact absurd ⟨rfl, rfl, rfl⟩ hc
  | add j c env plant events record htx ht =>
    have hji : j = i := by simpa [Action.isOf] using hi
    exact ⟨_, _, by rw [← hji]; exact Function.update_self ..⟩
  | remove j plantId env plant events seen htx =>
    have hji : j = i := by simpa [Action.isOf] using hi
    exact ⟨_, _, by rw [← hji]; exact Function.update_self ..⟩

theorem isOpen_of_next (hn : Next lib w tx pc) : tx.pc.isOpen = true := by
  cases hn <;> rfl

/-- A request that has ended takes no further step. -/
theorem ended_step (h : step lib w a = some w') (hi : w.txs i = some tx) (he : tx.pc.isOpen = false) :
    w'.txs i = some tx := by
  have other : ∀ {j : ℕ} {tx' : Tx Json Digest} {o : Option (Tx Json Digest)}, w.txs j = some tx' → tx'.pc.isOpen = true →
      Function.update w.txs j o i = some tx := by
    intro j tx' o hj ho
    have hne : i ≠ j := by
      rintro rfl
      rw [hi] at hj
      cases hj
      rw [he] at ho
      cases ho
    rw [Function.update_of_ne hne]
    exact hi
  cases steps_of_step h with
  | start j request hnone hon =>
    have hne : i ≠ j := by
      rintro rfl
      rw [hi] at hnone
      cases hnone
    exact (Function.update_of_ne hne ..).trans hi
  | giveUp j tx' htx ho => exact other htx ho
  | move j tx' env pc htx hn => exact other htx (isOpen_of_next hn)
  | lock j c env name htx => exact other htx rfl
  | lose j c env plant events record htx => exact other htx rfl
  | add j c env plant events record htx => exact other htx rfl
  | remove j plantId env plant events seen htx => exact other htx rfl

end

/-! ## Runs -/

/-- Nobody is at work. -/
def AtRest (w : World Json Digest) : Prop := w.lock = none ∧ ∀ i, w.txs i = none

omit [DecidableEq Digest] in
theorem inv_atRest {w : World Json Digest} (hrest : AtRest w) (hids : (w.plants.map (·.id)).Nodup) : Inv w where
  nodup := hids
  txs := by
    intro i tx h
    rw [hrest.2 i] at h
    cases h

/-- **The household cap holds under concurrency**: in every interleaving of requests on the household it
never has more than its fifty plants, and no step of a request that was refused wrote a plant, an event or
a stored response. -/
theorem cap_holds {w₀ w : World Json Digest} {as : List Action} (hrest : AtRest w₀) (hids : (w₀.plants.map (·.id)).Nodup)
    (hcap : (members w₀).length ≤ MAX_PLANTS) (hrun : run (step lib) w₀ as = some w) :
    (members w).length ≤ MAX_PLANTS ∧
      ∀ i request f, w.txs i = some ⟨request, .raised f⟩ →
        ∀ before a after u u', as = before ++ a :: after → run (step lib) w₀ before = some u → step lib u a = some u' →
          a.isOf i = true → Unchanged u u' := by
  constructor
  · have hboth : Inv w ∧ (members w).length ≤ MAX_PLANTS :=
      inv (P := fun w => Inv w ∧ (members w).length ≤ MAX_PLANTS) (fun _ _ _ hi h => ⟨hi.1.step h, cap_step hi.1 h hi.2⟩)
        ⟨inv_atRest hrest hids, hcap⟩ hrun
    exact hboth.2
  · intro i request f hraised before a after u u' has hbefore hstep ha
    by_contra hc
    obtain ⟨request', view, hreturned⟩ := returned_of_changed hstep ha hc
    rw [has] at hrun
    obtain ⟨v, hv, hrun⟩ := run_append.1 hrun
    rw [hbefore] at hv
    cases hv
    obtain ⟨v, hv, hafter⟩ := run_cons.1 hrun
    rw [hstep] at hv
    cases hv
    have hstays : w.txs i = some ⟨request', .returned view⟩ :=
      inv (P := fun w => w.txs i = some ⟨request', .returned view⟩) (fun _ _ _ hi h => ended_step h hi rfl) hreturned hafter
    rw [hraised] at hstays
    cases hstays

/-- Views that are their own JSON, and a digest that is the content itself. -/
def plain : Library PlantView PlantView (List (String × Idempotency.Value)) where
  sha256 := id
  typeOf _ := .plant
  modelDump := id
  modelValidate _ view := some view

/-- A household with room for one more plant. -/
def nearlyFull : World PlantView (List (String × Idempotency.Value)) where
  householdId := 2
  household := some ['z', 'o', 'e']
  lock := none
  plants := (List.range 49).map fun n => ⟨100 + n, 2, 3, ⟨['c'], by decide, by decide⟩,
    ⟨['g'], by decide, by decide, by decide⟩, 0, none, none, false⟩
  outbox := []
  responses := []
  txs := fun _ => none

/-- A cactus for the household. -/
def addCactus (idempotencyKey : Option Key) : Request :=
  .addPlant ⟨2, 3, ['c'], ⟨['g'], by decide, by decide, by decide⟩, idempotencyKey⟩

/-- Two requests wait for the household's lock; the first commits, then the second reads the plants. -/
def lastPlace : List Action :=
  [.start 0 (addCactus none), .start 1 (addCactus none), .execute 0 ⟨7, 10, 10⟩, .execute 0 ⟨7, 10, 10⟩,
    .execute 0 ⟨7, 10, 10⟩, .execute 1 ⟨8, 11, 11⟩, .execute 1 ⟨8, 11, 11⟩]

/-- The household is full, and the second request was refused. -/
theorem cap_holds_lastPlace :
    ∃ w, run (step plain) nearlyFull lastPlace = some w ∧ (members w).length = 50 ∧ (members w).length ≤ MAX_PLANTS ∧
      w.outbox.length = 1 := by
  have hrun : run (step plain) nearlyFull lastPlace = some ((run (step plain) nearlyFull lastPlace).get (by decide +kernel)) :=
    (Option.some_get _).symm
  obtain ⟨hcap, -⟩ := cap_holds ⟨rfl, fun _ => rfl⟩ (by decide +kernel) (by decide +kernel) hrun
  exact ⟨_, hrun, by decide +kernel, hcap, by decide +kernel⟩

end Plantkeeper.Garden.AddPlant
