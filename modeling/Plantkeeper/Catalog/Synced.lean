/-
The catalogue against Trefle over any number of synchronisations. One fetches a list, writes what differs
and either completes or is compensated; an attempt may also end before anything is written. The catalogue
says what the lists of the completed ones say, the last one that names a species deciding, and each of
these is a list Trefle answered as a whole.
-/
import Plantkeeper.External.SpeciesSource
import Plantkeeper.Lib.Overrides
import Plantkeeper.ReadModel.Catalogue

namespace Plantkeeper.Catalog.Synced

open Plantkeeper.External.Trefle Plantkeeper.ReadModel Plantkeeper.Saga

/-! ## Attempts -/

/-- One attempt of a synchronisation, by a worker whose breaker is as `session` says. Trefle answers within
so many turns, and one call of Valkey may be needed. The second step is applied at an instant and the run
ends, unless the attempt is over before its commit. -/
structure Attempt (Body : Type) where
  requestedAt : Instant
  requestedBy : Uuid
  session : Session
  upstream : Upstream Body
  turns : ℕ
  valkey : Bool
  work : Option (Instant × Ending)

/-- The snapshot and the catalogue; `completed` are the lists of the completed runs, in turn. -/
structure World where
  snapshot : SpeciesSnapshotStore
  catalogue : Synchronised
  completed : List (List SpeciesRecord)

def World.start (now : Instant) (species : List Species) : World := ⟨none, ⟨.before now [] species, []⟩, []⟩

/-- The snapshot's time to live is over, or the attempt is made. -/
inductive Action (Body : Type)
  | expire
  | attempt (a : Attempt Body)

section

variable {Body V : Type} (wire : Wire Body V) (client : Client)

/-- What Trefle's client comes to. -/
def Attempt.answer (a : Attempt Body) : Option (Except Error (List SpeciesRecord)) :=
  (External.Trefle.fetchAll wire client a.upstream a.turns a.session).2

def Attempt.run (a : Attempt Body) (records : List SpeciesRecord) (work : Instant × Ending) : SyncRun :=
  ⟨a.requestedAt, a.requestedBy, records, work.1, work.2⟩

/-- The attempt once Trefle's client came to its answer. A list that is not raised is applied. -/
def World.attempt (w : World) (a : Attempt Body) (answer : Except Error (List SpeciesRecord)) : Option World :=
  let fetched := TrefleSpeciesSource.fetchAll w.snapshot a.valkey answer
  let w := { w with snapshot := fetched.2 }
  match fetched.1, a.work with
  | .ok records, some work => (w.catalogue.step (a.run records work)).map fun catalogue =>
      { w with catalogue, completed := if work.2.isCompensated then w.completed else w.completed ++ [records] }
  | _, _ => some w

def step (w : World) : Action Body → Option World
  | .expire => some { w with snapshot := none }
  | .attempt a => (a.answer wire client).bind (w.attempt a)

end

/-- What rows say of a species. -/
def valuesIn (species : List Species) (id : SpeciesId) : Option SpeciesValues := (Table.get Species.id species id).map Species.values

/-- What lists, one after the other, make of what is said. -/
def follow (said : SpeciesId → Option SpeciesValues) (lists : List (List SpeciesRecord)) : SpeciesId → Option SpeciesValues :=
  Overrides.overrides SpeciesRecord.speciesId SpeciesRecord.values said lists

/-- A list can be applied: each species once, with values a species can have. -/
structure Proper (records : List SpeciesRecord) : Prop where
  nodup : (records.map (·.speciesId)).Nodup
  valid : ∀ r ∈ records, r.values.isSome = true

theorem Proper.nil : Proper [] := ⟨List.nodup_nil, nofun⟩

/-! ## One synchronisation -/

section

variable {c : SpeciesSyncContext} {t t' t₀ : Catalogue} {records : List SpeciesRecord}

/-- A list of what the rows say already is applied without a write. -/
theorem applyRecords_same : ∀ {rs : List SpeciesSnapshot}, (∀ r ∈ rs, ∃ s, t.get r.speciesId = some s ∧ r.values = some s.values) →
    applyRecords c t rs none = (c, t, true)
  | [], _ => rfl
  | r :: rs, h => by
    obtain ⟨s, hget, hv⟩ := h r (List.mem_cons_self ..)
    obtain ⟨-, -, hinterval, -⟩ := of_values hv
    have hrecord : applyRecord c t r = some (c, t) := by
      simp [applyRecord, hinterval, hget, update_values hv s hinterval]
    simp only [applyRecords, hrecord, Option.map_none]
    exact applyRecords_same fun r' hr' => h r' (List.mem_cons_of_mem _ hr')

/-- What waits for the outbox does not matter to a round of the compensation. -/
theorem undoRecord_staged (es : List (StepAction × CatalogEvent)) (t : Catalogue) (u : Undo) :
    undoRecord { t with staged := es } u = (undoRecord t u).map fun t => { t with staged := es } := by
  have hget : ∀ id, Catalogue.get { t with staged := es } id = t.get id := fun _ => rfl
  cases u with
  | delete id =>
    simp only [undoRecord, hget, Option.map_some]
    split <;> rfl
  | restore before =>
    simp only [undoRecord, hget]
    split
    · rfl
    · rfl
    · split <;> rfl

theorem undoRecords_staged (es : List (StepAction × CatalogEvent)) (us : List Undo) (t : Catalogue) :
    undoRecords { t with staged := es } us none = ({ (undoRecords t us none).1 with staged := es }, (undoRecords t us none).2) := by
  induction us generalizing t with
  | nil => rfl
  | cons u us ih =>
    simp only [undoRecords, undoRecord_staged]
    cases undoRecord t u with
    | none => rfl
    | some t' => exact ih t'

/-! ### To its end -/

/-- What the first step leaves in the context. -/
def fetchedOf (r : SyncRun) : List SpeciesSnapshot := r.upstream.map SpeciesRecord.fetched

/-- The tables when the second step begins. -/
def opened (t : Catalogue) (r : SyncRun) : Catalogue := { t with now := r.now, upstream := r.upstream }

theorem applied_eq (ht : Settled t) (r : SyncRun) : applied t r =
    match applySpeciesUpdatesStep.act ⟨r.requestedAt, r.requestedBy, fetchedOf r, [], []⟩ (opened t r) none with
    | (c, .committed t) => some (c, t)
    | _ => none := by
  unfold applied
  rw [ht]
  rfl

/-- A transaction sees the committed rows when it begins. -/
theorem get_opened (ht : Settled t) (r : SyncRun) (id : SpeciesId) : (opened t r).get id = Table.get Species.id t.species id := by
  unfold opened
  rw [← ht]
  rfl

theorem nodup_fetchedOf {r : SyncRun} (hp : Proper r.upstream) : ((fetchedOf r).map (·.speciesId)).Nodup := by
  unfold fetchedOf
  rw [List.map_map]
  exact hp.nodup

/-- The first two steps come to the commit of the second. -/
theorem applied_proper {r : SyncRun} (ht : Settled t) (hp : Proper r.upstream) : ∃ c t₁, applied t r = some (c, t₁.commit) ∧
    Applied (opened t r) (fetchedOf r) t₁ ∧ c.created = (fetchedOf r).filterMap (created (opened t r)) ∧
    c.updated = ((fetchedOf r).filterMap (changed (opened t r))).map snapshot := by
  have hvalid : ∀ x ∈ fetchedOf r, x.values.isSome = true := by
    intro x hx
    obtain ⟨y, hy, rfl⟩ := List.mem_map.1 hx
    exact hp.valid y hy
  obtain ⟨t₁, hact, happlied⟩ := act_ok (c := ⟨r.requestedAt, r.requestedBy, fetchedOf r, [], []⟩) (t := opened t r) rfl rfl
    (nodup_fetchedOf hp) hvalid
  have hrun := applied_eq ht r
  rw [hact] at hrun
  exact ⟨_, t₁, hrun, happlied, rfl, rfl⟩

/-- The values of the species a record concerns are its own from then on. -/
theorem values_rowAfter {r : SpeciesSnapshot} {v : SpeciesValues} (hv : r.values = some v) (stored : Option Species) :
    (rowAfter r stored).map Species.values = some v := by
  unfold rowAfter
  rw [hv]
  cases stored with
  | none => rfl
  | some s =>
    by_cases hsame : v = s.values
    · simp [hsame]
    · simp only [if_neg hsame, Option.map_some]
      rfl

/-- What the second step commits is the list over what was there. -/
theorem values_applied {r : SyncRun} {t₁ : Catalogue} (ht : Settled t) (hp : Proper r.upstream)
    (h : Applied (opened t r) (fetchedOf r) t₁) :
    valuesIn t₁.commit.species = Overrides.override SpeciesRecord.speciesId SpeciesRecord.values (valuesIn t.species) r.upstream := by
  have hget : ∀ id, valuesIn t₁.commit.species id = (t₁.get id).map Species.values := fun _ => rfl
  refine Overrides.eq_override hp.nodup (fun x hx => ?_) fun id hid => ?_
  · obtain ⟨v, hv⟩ := Option.isSome_iff_exists.1 (hp.valid x hx)
    have hown : t₁.get x.speciesId = rowAfter x.fetched _ := h.own x.fetched (List.mem_map_of_mem hx)
    rw [hget, hown, values_rowAfter hv, hv]
  · have hother : t₁.get id = (opened t r).get id := by
      refine h.others id fun y hy => ?_
      obtain ⟨x, hx, rfl⟩ := List.mem_map.1 hy
      exact hid x hx
    rw [hget, hother, get_opened ht]
    rfl

/-- Where the third step raised, at most invalidations wait. -/
theorem failed_staged (ht : Settled t) (c : SpeciesSyncContext) (call : ℕ) (work : AfterFailure) :
    (invalidateSpeciesCacheStep.act c t (some call)).1 = c ∧
      ∃ es, work.run (invalidateSpeciesCacheStep.act c t (some call)).2.tables = { t with staged := es } := by
  obtain ⟨hwrites, hstaged, htracked⟩ : t.writes = [] ∧ t.staged = [] ∧ t.tracked = [] := by
    rw [← ht]
    exact ⟨rfl, rfl, rfl⟩
  simp only [invalidateSpeciesCacheStep]
  split
  · refine ⟨rfl, ?_⟩
    cases work with
    | kept => exact ⟨_, rfl⟩
    | rolledBack => exact ⟨[], by simp [AfterFailure.run, Outcome.tables, Catalogue.append, Catalogue.rollback, hwrites]⟩
    | renewed => exact ⟨[], by simp [AfterFailure.run, Outcome.tables, Catalogue.append, Catalogue.renew, hwrites, htracked]⟩
  · refine ⟨rfl, [], ?_⟩
    rw [Outcome.tables, ht]
    cases work with
    | kept => simp [AfterFailure.run, ← hstaged]
    | rolledBack => simp [AfterFailure.run, Catalogue.rollback, hwrites]
    | renewed => simp [AfterFailure.run, Catalogue.renew, hwrites, htracked]

/-- The compensation comes to its end, and every species has the values it had. -/
theorem compensated_values {r : SyncRun} {t₁ : Catalogue} (ht : Settled t) (hp : Proper r.upstream)
    (happlied : Applied (opened t r) (fetchedOf r) t₁) (hcreated : c.created = (fetchedOf r).filterMap (created (opened t r)))
    (hupdated : c.updated = ((fetchedOf r).filterMap (changed (opened t r))).map snapshot) (call : ℕ) (work : AfterFailure)
    (now : Instant) : ∃ t', ended c t₁.commit (.compensated call work now) = some t' ∧ Settled t' ∧ valuesIn t'.species = valuesIn t.species := by
  obtain ⟨hc, es, hes⟩ := failed_staged (t := t₁.commit) rfl c call work
  obtain ⟨t₂, hcompensate, hget, -⟩ := compensate_ok c happlied (nodup_fetchedOf hp) hcreated hupdated now
  obtain ⟨hdone, hcommit⟩ := compensate_committed hcompensate
  -- what waits is not looked at
  have hundo := undoRecords_staged es (c.created.map .delete ++ c.updated.map .restore) { t₁.commit with now }
  cases hundone : undoRecords { t₁.commit with now } (c.created.map .delete ++ c.updated.map .restore) none with
  | mk t₃ done =>
    rw [hundone] at hdone hcommit hundo
    cases hdone
    refine ⟨({ t₃ with staged := es } : Catalogue).commit, ?_, rfl, ?_⟩
    · simp only [ended, hc, hes, applySpeciesUpdatesStep, hundo]
    · funext id
      have hspecies : ({ t₃ with staged := es } : Catalogue).commit.species = t₂.commit.species := by
        rw [hcommit]
        rfl
      have hrow : Table.get Species.id t₂.commit.species id = t₂.get id := rfl
      rw [valuesIn, hspecies, hrow, hget, get_opened ht]
      unfold valuesIn
      cases Table.get Species.id t.species id with
      | none => rfl
      | some s =>
        simp only [Option.map_some, Option.some.injEq]
        split <;> rfl

/-- A run whose list can be applied comes to its end: completed, the catalogue says what the list says, and
compensated, what it said before. -/
theorem sync_proper {r : SyncRun} (ht : Settled t) (hp : Proper r.upstream) : ∃ c t₁ t',
    applied t r = some (c, t₁) ∧ ended c t₁ r.ending = some t' ∧ Settled t' ∧ valuesIn t'.species =
      if r.ending.isCompensated then valuesIn t.species
      else Overrides.override SpeciesRecord.speciesId SpeciesRecord.values (valuesIn t.species) r.upstream := by
  obtain ⟨c, t₁, hrun, happlied, hcreated, hupdated⟩ := applied_proper ht hp
  refine ⟨c, t₁.commit, ?_⟩
  cases r.ending with
  | completed =>
    have hvalues : valuesIn (t₁.commit.append .act (c.updated.map fun s =>
        .speciesCacheInvalidated s.speciesId t₁.commit.now)).commit.species = valuesIn t₁.commit.species := rfl
    exact ⟨_, hrun, rfl, rfl, hvalues.trans (values_applied ht hp happlied)⟩
  | compensated call work now =>
    obtain ⟨t', hended, ht', hvalues⟩ := compensated_values ht hp happlied hcreated hupdated call work now
    exact ⟨t', hrun, hended, ht', hvalues⟩

/-! ### With nothing to change -/

theorem commit_settled (ht : Settled t) : t.commit = t := by
  obtain ⟨hwrites, hstaged, htracked⟩ : t.writes = [] ∧ t.staged = [] ∧ t.tracked = [] := by
    rw [← ht]
    exact ⟨rfl, rfl, rfl⟩
  cases t
  simp_all [Catalogue.commit]

/-- There is nothing to roll back. -/
theorem run_settled (ht : Settled t) (work : AfterFailure) : work.run t = t := by
  cases work with
  | kept => rfl
  | rolledBack =>
    show t.rollback = t
    rw [← ht]
    rfl
  | renewed => exact ht

/-- A list that says what the catalogue says already changes no row and announces nothing, however the run ends. -/
theorem sync_same {r : SyncRun} {t₁ : Catalogue} (ht : Settled t) (hp : Proper r.upstream)
    (hsame : ∀ x ∈ r.upstream, valuesIn t.species x.speciesId = x.values) (hrun : applied t r = some (c, t₁))
    (hended : ended c t₁ r.ending = some t') : t'.species = t.species ∧ t'.outbox = t.outbox := by
  have happly : applyRecords ⟨r.requestedAt, r.requestedBy, fetchedOf r, [], []⟩ (opened t r) (fetchedOf r) none =
      (⟨r.requestedAt, r.requestedBy, fetchedOf r, [], []⟩, opened t r, true) := by
    refine applyRecords_same fun y hy => ?_
    obtain ⟨x, hx, rfl⟩ := List.mem_map.1 hy
    obtain ⟨v, hv⟩ := Option.isSome_iff_exists.1 (hp.valid x hx)
    have hvalues := hsame x hx
    rw [hv] at hvalues
    obtain ⟨s, hs, rfl⟩ := Option.map_eq_some_iff.1 hvalues
    exact ⟨s, (get_opened ht r _).trans hs, hv⟩
  have hopened : Settled (opened t r) := by
    unfold opened Settled
    rw [← ht]
    rfl
  have hrenew : (opened t r).renew = opened t r := hopened
  rw [applied_eq ht] at hrun
  simp only [applySpeciesUpdatesStep, happly, commit_settled hopened] at hrun
  cases hrun
  cases hending : r.ending with
  | completed =>
    rw [hending] at hended
    cases hended
    have hnone : (opened t r).append .act [] = opened t r := by simp [Catalogue.append]
    show ((opened t r).append .act []).commit.species = _ ∧ ((opened t r).append .act []).commit.outbox = _
    rw [hnone, commit_settled hopened]
    exact ⟨rfl, rfl⟩
  | compensated call work now =>
    have hfailed : invalidateSpeciesCacheStep.act ⟨r.requestedAt, r.requestedBy, fetchedOf r, [], []⟩ (opened t r) (some call) =
        (⟨r.requestedAt, r.requestedBy, fetchedOf r, [], []⟩, .raised (opened t r)) := by
      simp only [invalidateSpeciesCacheStep, List.map_nil, List.length_nil, Nat.not_lt_zero, if_false, hrenew]
    have hnow : ({ opened t r with now := now } : Catalogue).renew = { opened t r with now := now } :=
      congrArg (fun t : Catalogue => { t with now := now }) hrenew
    rw [hending] at hended
    simp only [ended, hfailed, Outcome.tables, run_settled hopened, applySpeciesUpdatesStep, List.map_nil, List.append_nil,
      undoRecords, commit_settled hnow] at hended
    cases hended
    exact ⟨rfl, rfl⟩

end

/-! ## Runs -/

section

variable {Body V : Type} {wire : Wire Body V} {client : Client} {as : List (Action Body)} {said : SpeciesId → Option SpeciesValues}
  {w : World} {records : List SpeciesRecord}

/-- Trefle answered the list in one of the attempts. -/
def Answered (wire : Wire Body V) (client : Client) (as : List (Action Body)) (records : List SpeciesRecord) : Prop :=
  ∃ a, Action.attempt a ∈ as ∧ a.answer wire client = some (.ok records)

theorem Answered.proper (h : Answered wire client as records) : Proper records := by
  obtain ⟨a, -, ha⟩ := h
  refine ⟨(fetchAll_records ha).1, fun r hr => ?_⟩
  obtain ⟨detail, hdetail⟩ := fetchAll_mapped ha hr
  exact values_recordFromDetail hdetail

/-- Between two attempts: the catalogue follows the lists of the completed runs, which were answered, as was the snapshot. -/
structure Inv (wire : Wire Body V) (client : Client) (as : List (Action Body)) (said : SpeciesId → Option SpeciesValues)
    (w : World) : Prop where
  settled : Settled w.catalogue.tables
  values : valuesIn w.catalogue.tables.species = follow said w.completed
  snapshot : ∀ records, w.snapshot = some records → Answered wire client as records
  completed : ∀ records ∈ w.completed, records = [] ∨ Answered wire client as records

theorem Inv.mono {as' : List (Action Body)} (hi : Inv wire client as said w) (h : as ⊆ as') : Inv wire client as' said w where
  settled := hi.settled
  values := hi.values
  snapshot records hs := (hi.snapshot records hs).imp fun _ ha => ⟨h ha.1, ha.2⟩
  completed records hr := (hi.completed records hr).imp_right fun hans => hans.imp fun _ ha => ⟨h ha.1, ha.2⟩

/-- An attempt whose fetch has ended is carried through, and if its list was applied last it changes nothing. -/
theorem attempt_ok {a : Attempt Body} {answer : Except Error (List SpeciesRecord)} (hi : Inv wire client as said w)
    (ha : Action.attempt a ∈ as) (hanswer : a.answer wire client = some answer) : ∃ w', w.attempt a answer = some w' ∧
    Inv wire client as said w' ∧ ∀ records, (TrefleSpeciesSource.fetchAll w.snapshot a.valkey answer).1 = .ok records →
      w.completed.getLast? = some records → w'.catalogue.tables.species = w.catalogue.tables.species ∧
        w'.catalogue.tables.outbox = w.catalogue.tables.outbox := by
  unfold World.attempt
  cases hfetch : TrefleSpeciesSource.fetchAll w.snapshot a.valkey answer with
  | mk outcome stored =>
    obtain ⟨hlist, hstored⟩ := source_fetchAll hfetch
    have hsnapshot : ∀ records, stored = some records → Answered wire client as records := by
      intro records hs
      rcases hstored records hs with hold | hnew
      · exact hi.snapshot records hold
      · exact ⟨a, ha, by rw [hanswer, hnew]⟩
    have hidle : Inv wire client as said { w with snapshot := stored } := ⟨hi.settled, hi.values, hsnapshot, hi.completed⟩
    cases outcome with
    | error e => exact ⟨_, rfl, hidle, nofun⟩
    | ok records =>
      cases hwork : a.work with
      | none => exact ⟨_, rfl, hidle, fun _ _ _ => ⟨rfl, rfl⟩⟩
      | some work =>
        have hknown : records = [] ∨ Answered wire client as records := by
          rcases hlist records rfl with hok | hold | hnil
          · exact .inr ⟨a, ha, by rw [hanswer, hok]⟩
          · exact .inr (hi.snapshot records hold)
          · exact .inl hnil
        have hp : Proper records := by
          rcases hknown with rfl | hans
          · exact .nil
          · exact hans.proper
        obtain ⟨c, t₁, t', hrun, hended, ht', hvalues⟩ := sync_proper (r := a.run records work) hi.settled hp
        have hstep : w.catalogue.step (a.run records work) =
            some ⟨t', w.catalogue.reports ++ [⟨c.created, work.2.isCompensated⟩]⟩ := by
          simp only [Synchronised.step, hrun, hended, Option.map_some]
          rfl
        refine ⟨⟨stored, ⟨t', w.catalogue.reports ++ [⟨c.created, work.2.isCompensated⟩]⟩,
          if work.2.isCompensated then w.completed else w.completed ++ [records]⟩, ?_, ?_, ?_⟩
        · simp only [hstep, Option.map_some]
        · cases hcompensated : work.2.isCompensated with
          | true =>
            have hvalues : valuesIn t'.species = valuesIn w.catalogue.tables.species := by
              rw [hvalues]
              exact if_pos hcompensated
            exact ⟨ht', hvalues.trans hi.values, hsnapshot, hi.completed⟩
          | false =>
            have hvalues : valuesIn t'.species = follow said (w.completed ++ [records]) := by
              rw [hvalues, follow, Overrides.overrides_concat, ← follow, ← hi.values]
              exact if_neg (by rw [show (a.run records work).ending = work.2 from rfl, hcompensated]; decide)
            refine ⟨ht', hvalues, hsnapshot, fun rs hrs => ?_⟩
            rcases List.mem_append.1 hrs with hold | hnew
            · exact hi.completed rs hold
            · rw [List.mem_singleton.1 hnew]
              exact hknown
        · intro rs hrs hlast
          cases hrs
          refine sync_same hi.settled hp (fun x hx => ?_) hrun hended
          rw [hi.values]
          exact Overrides.overrides_last hlast hp.nodup hx

theorem inv_step {w' : World} {act : Action Body} (hi : Inv wire client as said w) (hact : act ∈ as)
    (hstep : step wire client w act = some w') : Inv wire client as said w' := by
  cases act with
  | expire =>
    cases hstep
    exact ⟨hi.settled, hi.values, nofun, hi.completed⟩
  | attempt a =>
    obtain ⟨answer, hanswer, hattempt⟩ := Option.bind_eq_some_iff.1 hstep
    obtain ⟨w₁, hok, hi', -⟩ := attempt_ok hi hact hanswer
    rw [hok] at hattempt
    cases hattempt
    exact hi'

end

/-- The upstream lists one species. -/
def oneSpecies : Upstream (ListResponse ⊕ SpeciesDetail) where
  list _ _ := .response 200 (.inl ⟨["ficus-lyrata"], none⟩)
  detail _ _ _ := .response 200 (.inr ficus)
  before _ := 0
  after _ := 0

def unreachable : Upstream (ListResponse ⊕ SpeciesDetail) where
  list _ _ := .transportError
  detail _ _ _ := .transportError
  before _ := 0
  after _ := 0

/-- A new worker's attempt that completes at the instant. -/
def completedAt (upstream : Upstream (ListResponse ⊕ SpeciesDetail)) (now : Instant) :
    Action (ListResponse ⊕ SpeciesDetail) :=
  .attempt ⟨now, 0, ⟨.new, 0, 0⟩, upstream, 1, true, some (now, .completed)⟩

/-- A species is fetched; on the next day Trefle is out of reach; on the third the snapshot is lost too. -/
def threeDays : List (Action (ListResponse ⊕ SpeciesDetail)) :=
  [completedAt oneSpecies 1, completedAt unreachable 2, .expire, completedAt unreachable 3]

theorem run_threeDays : (Run.run (step catalogue (clientOf 5 5 (by decide))) (World.start 0 [fern]) threeDays).isSome := by
  decide +kernel

end Plantkeeper.Catalog.Synced
