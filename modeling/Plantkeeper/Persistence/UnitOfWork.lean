/-
The unit of work over one session: `SqlAlchemyUnitOfWork`, its `AggregateTracker` and the events
the aggregates still hold. `Ideal` states what the unit of work is for: a successful commit
publishes the events appended directly and those of the aggregates added or saved since the last
commit or rollback, and everything else staged since then is forgotten. The code is that machine as
long as no rollback meets a tracker that still holds an aggregate; one that does can publish the
event of a write that never happened.
-/
import Mathlib.Data.List.Nodup
import Mathlib.Data.List.Flatten
import Plantkeeper.Lib.Run

namespace Plantkeeper.Persistence

open Plantkeeper.Run

variable {ι ε : Type} [DecidableEq ι]

/-! ## The code -/

/-- How `session.commit()` ends: it succeeds, a unique constraint is violated (the unit of work
rolls the session back and raises `ConcurrentWriteError`), or anything else is raised. -/
inductive CommitOutcome
  | ok
  | integrityError
  | otherError
  deriving DecidableEq, Repr

/-- What happens to a unit of work. `ι` names the aggregate objects (tracking is by identity),
`ε` the domain events. -/
inductive Op (ι ε : Type)
  | record (i : ι) (e : ε)
  | add (i : ι)
  | save (i : ι)
  | append (e : ε)
  | commit (o : CommitOutcome)
  | rollback
  | enter
  | exit (raised : Bool)
  deriving DecidableEq, Repr

/-- The unit of work, the session under it and the objects it was handed: each aggregate's pending
events, the tracker's list, the aggregate writes and outbox rows staged in the open transaction,
whether a failed commit left the session waiting for a rollback, the `_committed` flag, and the
committed aggregate writes and outbox rows. -/
structure UnitOfWork (ι ε : Type) where
  events : ι → List ε
  tracked : List ι
  writes : List ι
  staged : List ε
  inactive : Bool
  committed : Bool
  stored : List ι
  outbox : List ε

namespace UnitOfWork

/-- A fresh unit of work over a fresh session. -/
def empty : UnitOfWork ι ε :=
  { events := fun _ => [], tracked := [], writes := [], staged := [], inactive := false,
    committed := false, stored := [], outbox := [] }

/-- `AggregateTracker.track`: register an aggregate, ignoring a repeated registration. -/
def track (i : ι) (l : List ι) : List ι :=
  if i ∈ l then l else l ++ [i]

/-- The aggregates' events once the given ones are drained (`AggregateRoot.collect_events`). -/
def drain (l : List ι) (events : ι → List ε) : ι → List ε :=
  fun i => if i ∈ l then [] else events i

/-- `session.rollback()`: the staged rows are gone and the session is usable again. -/
def discard (s : UnitOfWork ι ε) : UnitOfWork ι ε :=
  { s with writes := [], staged := [], inactive := false }

/-- `AggregateTracker.collect_events` followed by `outbox.append` of each event: the tracked
aggregates are drained, in the order they were touched, and the tracker is cleared. -/
def collect (s : UnitOfWork ι ε) : UnitOfWork ι ε :=
  { s with
    events := drain s.tracked s.events
    tracked := []
    staged := s.staged ++ s.tracked.flatMap s.events }

/-- `SqlAlchemyUnitOfWork.commit`. A session left inactive by an earlier failure refuses every
commit, so only `otherError` can happen there. -/
def commit (s : UnitOfWork ι ε) : CommitOutcome → Option (UnitOfWork ι ε)
  | .ok =>
    if s.inactive then none
    else some { s.collect with
      writes := [], staged := [], committed := true
      stored := s.collect.stored ++ s.collect.writes
      outbox := s.collect.outbox ++ s.collect.staged }
  | .integrityError => if s.inactive then none else some s.collect.discard
  | .otherError => some { s.collect with inactive := true }

/-- `SqlAlchemyUnitOfWork.rollback`. It says nothing to the tracker. -/
def rollback (s : UnitOfWork ι ε) : UnitOfWork ι ε :=
  { s with committed := false }.discard

/-- `__aexit__`: roll back unless the body committed. -/
def exit (s : UnitOfWork ι ε) (raised : Bool) : UnitOfWork ι ε :=
  if raised || !s.committed then s.rollback else s

/-- One operation. `save` merges, so it reads the database and cannot run on an inactive session. -/
def step (s : UnitOfWork ι ε) : Op ι ε → Option (UnitOfWork ι ε)
  | .record i e => some { s with events := fun j => if j = i then s.events i ++ [e] else s.events j }
  | .add i => some { s with writes := s.writes ++ [i], tracked := track i s.tracked }
  | .save i =>
    if s.inactive then none else some { s with writes := s.writes ++ [i], tracked := track i s.tracked }
  | .append e => some { s with staged := s.staged ++ [e] }
  | .commit o => s.commit o
  | .rollback => some s.rollback
  | .enter => some { s with committed := false }
  | .exit raised => some (s.exit raised)

/-- Whether the operation ends in `rollback`. -/
def rollsBack (s : UnitOfWork ι ε) : Op ι ε → Bool
  | .rollback => true
  | .exit raised => raised || !s.committed
  | _ => false

/-- A rollback finds the tracker empty: nothing was added or saved since the last commit, or a
commit (whatever its outcome) has drained it. -/
def TrackerDrained (s : UnitOfWork ι ε) (o : Op ι ε) : Prop :=
  s.rollsBack o = true → s.tracked = []

instance (s : UnitOfWork ι ε) (o : Op ι ε) : Decidable (s.TrackerDrained o) :=
  inferInstanceAs (Decidable (_ → _))

end UnitOfWork

/-! ## What it is for -/

/-- The purpose of the unit of work: the events each aggregate raised and nobody has published or
forgotten, the aggregates added or saved and the events appended since the last commit or rollback,
and what was published. -/
structure Ideal (ι ε : Type) where
  raised : ι → List ε
  touched : List ι
  direct : List ε
  published : List ε
  committed : Bool

namespace Ideal

def empty : Ideal ι ε :=
  { raised := fun _ => [], touched := [], direct := [], published := [], committed := false }

/-- What a commit or rollback leaves of the transaction's events: nothing. -/
def forget (s : Ideal ι ε) : Ideal ι ε :=
  { s with raised := UnitOfWork.drain s.touched s.raised, touched := [], direct := [] }

/-- The events a successful commit owes the outbox. -/
def due (s : Ideal ι ε) : List ε :=
  s.direct ++ s.touched.flatMap s.raised

def next (s : Ideal ι ε) : Op ι ε → Ideal ι ε
  | .record i e => { s with raised := fun j => if j = i then s.raised i ++ [e] else s.raised j }
  | .add i => { s with touched := UnitOfWork.track i s.touched }
  | .save i => { s with touched := UnitOfWork.track i s.touched }
  | .append e => { s with direct := s.direct ++ [e] }
  | .commit .ok => { s.forget with published := s.published ++ s.due, committed := true }
  | .commit _ => s.forget
  | .rollback => { s.forget with committed := false }
  | .enter => { s with committed := false }
  | .exit raised => if raised || !s.committed then { s.forget with committed := false } else s

/-- What the operations published, from nothing. -/
def publishedBy (ops : List (Op ι ε)) : List ε := (ops.foldl next empty).published

end Ideal

/-! ## The simulation -/

/-- The unit of work agrees with its purpose. An inactive session may still hold rows of a failed
commit: a rollback has to come before the next successful one. -/
structure Agrees (s : UnitOfWork ι ε) (i : Ideal ι ε) : Prop where
  events : s.events = i.raised
  tracked : s.tracked = i.touched
  staged : s.inactive = false → s.staged = i.direct
  outbox : s.outbox = i.published
  committed : s.committed = i.committed

theorem drain_nil (events : ι → List ε) : UnitOfWork.drain [] events = events := by
  funext i; simp [UnitOfWork.drain]

omit [DecidableEq ι] in
theorem agrees_empty : Agrees (UnitOfWork.empty : UnitOfWork ι ε) Ideal.empty :=
  ⟨rfl, rfl, fun _ => rfl, rfl, rfl⟩

/-- A rollback with an empty tracker forgets exactly what the ideal forgets. -/
theorem agrees_rollback {s : UnitOfWork ι ε} {i : Ideal ι ε} (h : Agrees s i) (ht : s.tracked = []) :
    Agrees s.rollback { i.forget with committed := false } := by
  have hi : i.touched = [] := by rw [← h.tracked, ht]
  refine ⟨?_, ht, fun _ => rfl, h.outbox, rfl⟩
  show s.events = UnitOfWork.drain i.touched i.raised
  rw [hi, drain_nil]; exact h.events

theorem agrees_commit {s t : UnitOfWork ι ε} {i : Ideal ι ε} {o : CommitOutcome} (h : Agrees s i)
    (ht : s.commit o = some t) : Agrees t (i.next (.commit o)) := by
  have hdrain : UnitOfWork.drain s.tracked s.events = UnitOfWork.drain i.touched i.raised := by
    rw [h.tracked, h.events]
  unfold UnitOfWork.commit at ht
  cases o with
  | ok =>
    simp only at ht
    split at ht
    · cases ht
    · rename_i hin
      cases ht
      refine ⟨hdrain, rfl, fun _ => rfl, ?_, rfl⟩
      show s.outbox ++ (s.staged ++ s.tracked.flatMap s.events) = i.published ++ (i.direct ++ i.touched.flatMap i.raised)
      rw [h.outbox, h.staged (by simpa using hin), h.tracked, h.events]
  | integrityError =>
    simp only at ht
    split at ht
    · cases ht
    · cases ht
      exact ⟨hdrain, rfl, fun _ => rfl, h.outbox, h.committed⟩
  | otherError =>
    cases ht
    exact ⟨hdrain, rfl, fun hin => (by cases hin), h.outbox, h.committed⟩

theorem agrees_track {s : UnitOfWork ι ε} {i : Ideal ι ε} (h : Agrees s i) (a : ι) :
    Agrees { s with writes := s.writes ++ [a], tracked := UnitOfWork.track a s.tracked }
      { i with touched := UnitOfWork.track a i.touched } :=
  ⟨h.events, by show UnitOfWork.track a s.tracked = _; rw [h.tracked], h.staged, h.outbox, h.committed⟩

/-- One operation keeps the agreement, unless it rolls back over a tracker that is not empty. -/
theorem agrees_step {s t : UnitOfWork ι ε} {i : Ideal ι ε} {o : Op ι ε} (h : Agrees s i)
    (hok : s.TrackerDrained o) (ht : s.step o = some t) : Agrees t (i.next o) := by
  cases o with
  | record a e =>
    cases ht
    refine ⟨?_, h.tracked, h.staged, h.outbox, h.committed⟩
    show (fun j => if j = a then s.events a ++ [e] else s.events j) = _
    rw [h.events]; rfl
  | add a =>
    cases ht; exact agrees_track h a
  | save a =>
    simp only [UnitOfWork.step] at ht
    split at ht
    · cases ht
    · cases ht; exact agrees_track h a
  | append e =>
    cases ht
    refine ⟨h.events, h.tracked, fun hin => ?_, h.outbox, h.committed⟩
    show s.staged ++ [e] = i.direct ++ [e]
    rw [h.staged hin]
  | commit o => exact agrees_commit h ht
  | rollback =>
    cases ht; exact agrees_rollback h (hok rfl)
  | enter =>
    cases ht; exact ⟨h.events, h.tracked, h.staged, h.outbox, rfl⟩
  | exit raised =>
    cases ht
    simp only [UnitOfWork.exit, Ideal.next, ← h.committed]
    split
    · rename_i hr
      exact agrees_rollback h (hok hr)
    · exact h

/-! ## No event twice -/

/-- The events an operation brings into the world. -/
def Op.introduced : Op ι ε → List ε
  | .record _ e => [e]
  | .append e => [e]
  | _ => []

/-- Every event met so far is in one place only: committed or staged for the outbox, or pending on
one aggregate. -/
structure Distinct (s : UnitOfWork ι ε) (seen : List ε) : Prop where
  tracked : s.tracked.Nodup
  rows : (s.outbox ++ s.staged).Nodup
  own : ∀ i, (s.events i).Nodup
  apart : ∀ i j, i ≠ j → List.Disjoint (s.events i) (s.events j)
  fresh : ∀ i, List.Disjoint (s.events i) (s.outbox ++ s.staged)
  seenRows : ∀ e ∈ s.outbox ++ s.staged, e ∈ seen
  seenEvents : ∀ i, ∀ e ∈ s.events i, e ∈ seen

omit [DecidableEq ι] in
theorem distinct_empty : Distinct (UnitOfWork.empty : UnitOfWork ι ε) [] := by
  constructor <;> simp [UnitOfWork.empty]

theorem track_nodup {i : ι} {l : List ι} (h : l.Nodup) : (UnitOfWork.track i l).Nodup := by
  unfold UnitOfWork.track
  split
  · exact h
  · rename_i hi
    exact List.nodup_append.2 ⟨h, List.nodup_singleton _, by simpa using fun a ha => ne_of_mem_of_not_mem ha hi⟩

theorem mem_drain {l : List ι} {events : ι → List ε} {i : ι} {e : ε} (h : e ∈ UnitOfWork.drain l events i) :
    i ∉ l ∧ e ∈ events i := by
  unfold UnitOfWork.drain at h
  split at h
  · cases h
  · rename_i hi; exact ⟨hi, h⟩

/-- Draining the tracker moves each event from its aggregate to the staged rows. -/
theorem distinct_collect {s : UnitOfWork ι ε} {seen : List ε} (h : Distinct s seen) : Distinct s.collect seen := by
  have hmem : ∀ e, e ∈ s.outbox ++ (s.staged ++ s.tracked.flatMap s.events) ↔
      e ∈ s.outbox ++ s.staged ∨ ∃ i ∈ s.tracked, e ∈ s.events i := by
    intro e
    rw [← List.append_assoc, List.mem_append, List.mem_flatMap]
  refine ⟨List.nodup_nil, ?_, fun i => ?_, fun i j hij e hi hj => ?_, fun i e hi he => ?_, fun e he => ?_,
    fun i e he => h.seenEvents i e (mem_drain he).2⟩
  · show (s.outbox ++ (s.staged ++ s.tracked.flatMap s.events)).Nodup
    rw [← List.append_assoc, List.nodup_append']
    refine ⟨h.rows, List.nodup_flatMap.2 ⟨fun i _ => h.own i, ?_⟩, fun e he hf => ?_⟩
    · exact h.tracked.imp fun {i j} hij => h.apart i j hij
    · obtain ⟨i, _, hi⟩ := List.mem_flatMap.1 hf
      exact h.fresh i hi he
  · show (UnitOfWork.drain s.tracked s.events i).Nodup
    unfold UnitOfWork.drain
    split
    · exact List.nodup_nil
    · exact h.own i
  · exact h.apart i j hij (mem_drain hi).2 (mem_drain hj).2
  · obtain ⟨hi, hei⟩ := mem_drain hi
    rcases (hmem e).1 he with he | ⟨j, hj, hej⟩
    · exact h.fresh i hei he
    · exact h.apart i j (fun hij => hi (hij ▸ hj)) hei hej
  · rcases (hmem e).1 he with he | ⟨j, _, hej⟩
    · exact h.seenRows e he
    · exact h.seenEvents j e hej

omit [DecidableEq ι] in
theorem distinct_discard {s : UnitOfWork ι ε} {seen : List ε} (h : Distinct s seen) : Distinct s.discard seen := by
  have hsub : ∀ e, e ∈ s.outbox ++ ([] : List ε) → e ∈ s.outbox ++ s.staged := by
    intro e he
    rw [List.append_nil] at he
    exact List.mem_append_left _ he
  refine ⟨h.tracked, ?_, h.own, h.apart, fun i e hi he => h.fresh i hi (hsub e he),
    fun e he => h.seenRows e (hsub e he), h.seenEvents⟩
  show (s.outbox ++ ([] : List ε)).Nodup
  rw [List.append_nil]; exact (List.nodup_append'.1 h.rows).1

omit [DecidableEq ι] in
/-- A change of the flags, or a move of staged rows to the outbox, moves no event elsewhere. -/
theorem Distinct.congr {s t : UnitOfWork ι ε} {seen : List ε} (h : Distinct s seen) (he : t.events = s.events)
    (ht : t.tracked = s.tracked) (hr : t.outbox ++ t.staged = s.outbox ++ s.staged) : Distinct t seen := by
  constructor
  · rw [ht]; exact h.tracked
  · rw [hr]; exact h.rows
  · rw [he]; exact h.own
  · rw [he]; exact h.apart
  · rw [he, hr]; exact h.fresh
  · rw [hr]; exact h.seenRows
  · rw [he]; exact h.seenEvents

theorem distinct_commit {s t : UnitOfWork ι ε} {seen : List ε} {o : CommitOutcome} (h : Distinct s seen)
    (ht : s.commit o = some t) : Distinct t seen := by
  have hc := distinct_collect h
  unfold UnitOfWork.commit at ht
  cases o with
  | ok =>
    simp only at ht
    split at ht
    · cases ht
    · cases ht; exact hc.congr rfl rfl (List.append_nil _)
  | integrityError =>
    simp only at ht
    split at ht
    · cases ht
    · cases ht; exact distinct_discard hc
  | otherError =>
    cases ht; exact hc.congr rfl rfl rfl

omit [DecidableEq ι] in
theorem Distinct.mono {s : UnitOfWork ι ε} {seen : List ε} (h : Distinct s seen) (new : List ε) :
    Distinct s (seen ++ new) :=
  ⟨h.tracked, h.rows, h.own, h.apart, h.fresh, fun e he => List.mem_append_left _ (h.seenRows e he),
    fun i e he => List.mem_append_left _ (h.seenEvents i e he)⟩

/-- An aggregate records an event nobody has met. -/
theorem distinct_record {s : UnitOfWork ι ε} {seen : List ε} {a : ι} {e : ε} (h : Distinct s seen) (he : e ∉ seen) :
    Distinct { s with events := fun i => if i = a then s.events a ++ [e] else s.events i } (seen ++ [e]) := by
  have hmono := h.mono [e]
  -- only the aggregate that recorded the event changed
  have hcase : ∀ i x, x ∈ (if i = a then s.events a ++ [e] else s.events i) → x ∈ s.events i ∨ (i = a ∧ x = e) := by
    intro i x hx
    split at hx
    · rename_i hia
      subst hia
      rw [List.mem_append, List.mem_singleton] at hx
      exact hx.imp id fun hx => ⟨rfl, hx⟩
    · exact .inl hx
  refine ⟨h.tracked, h.rows, fun i => ?_, fun i j hij x hx hy => ?_, fun i x hx hr => ?_, hmono.seenRows,
    fun i x hx => ?_⟩
  · show (if i = a then s.events a ++ [e] else s.events i).Nodup
    split
    · exact List.nodup_append'.2 ⟨h.own a, List.nodup_singleton _, fun x hx hxe => by
        rw [List.mem_singleton] at hxe
        exact he (hxe ▸ h.seenEvents a x hx)⟩
    · exact h.own i
  · rcases hcase i x hx with hx' | ⟨hi, hxe⟩ <;> rcases hcase j x hy with hy' | ⟨hj, hxe'⟩
    · exact h.apart i j hij hx' hy'
    · exact he (hxe' ▸ h.seenEvents i x hx')
    · exact he (hxe ▸ h.seenEvents j x hy')
    · exact hij (hi.trans hj.symm)
  · rcases hcase i x hx with hx | ⟨-, rfl⟩
    · exact h.fresh i hx hr
    · exact he (h.seenRows x hr)
  · rcases hcase i x hx with hx | ⟨-, rfl⟩
    · exact hmono.seenEvents i x hx
    · exact List.mem_append_right _ (List.mem_singleton.2 rfl)

omit [DecidableEq ι] in
/-- An event nobody has met is staged for the outbox. -/
theorem distinct_append {s : UnitOfWork ι ε} {seen : List ε} {e : ε} (h : Distinct s seen) (he : e ∉ seen) :
    Distinct { s with staged := s.staged ++ [e] } (seen ++ [e]) := by
  have hmono := h.mono [e]
  have hcase : ∀ x, x ∈ s.outbox ++ (s.staged ++ [e]) → x ∈ s.outbox ++ s.staged ∨ x = e := by
    intro x hx
    rw [← List.append_assoc, List.mem_append, List.mem_singleton] at hx
    exact hx
  refine ⟨h.tracked, ?_, h.own, h.apart, fun i x hx hr => ?_, fun x hx => ?_, hmono.seenEvents⟩
  · show (s.outbox ++ (s.staged ++ [e])).Nodup
    rw [← List.append_assoc, List.nodup_append']
    exact ⟨h.rows, List.nodup_singleton _, fun x hx hxe => by
      rw [List.mem_singleton] at hxe
      exact he (hxe ▸ h.seenRows x hx)⟩
  · rcases hcase x hr with hr | rfl
    · exact h.fresh i hx hr
    · exact he (h.seenEvents i x hx)
  · rcases hcase x hx with hx | rfl
    · exact hmono.seenRows x hx
    · exact List.mem_append_right _ (List.mem_singleton.2 rfl)

theorem distinct_step {s t : UnitOfWork ι ε} {seen : List ε} {o : Op ι ε} (h : Distinct s seen)
    (hnew : (seen ++ o.introduced).Nodup) (ht : s.step o = some t) : Distinct t (seen ++ o.introduced) := by
  have hmono := h.mono o.introduced
  have hnot : ∀ e ∈ o.introduced, e ∉ seen := fun e he hs =>
    (List.disjoint_of_nodup_append hnew) hs he
  cases o with
  | record a e =>
    cases ht
    exact distinct_record h (hnot e (List.mem_singleton.2 rfl))
  | add a =>
    cases ht
    exact { hmono with tracked := track_nodup h.tracked }
  | save a =>
    simp only [UnitOfWork.step] at ht
    split at ht
    · cases ht
    · cases ht
      exact { hmono with tracked := track_nodup h.tracked }
  | append e =>
    cases ht
    exact distinct_append h (hnot e (List.mem_singleton.2 rfl))
  | commit o => exact distinct_commit hmono ht
  | rollback =>
    cases ht; exact distinct_discard (hmono.congr rfl rfl rfl)
  | enter =>
    cases ht; exact hmono.congr rfl rfl rfl
  | exit raised =>
    cases ht
    unfold UnitOfWork.exit
    split
    · exact distinct_discard (hmono.congr rfl rfl rfl)
    · exact hmono

theorem distinct_run : ∀ {ops : List (Op ι ε)} {s t : UnitOfWork ι ε} {seen : List ε}, Distinct s seen →
    (seen ++ ops.flatMap Op.introduced).Nodup → run UnitOfWork.step s ops = some t →
    Distinct t (seen ++ ops.flatMap Op.introduced)
  | [], s, t, seen, h, _, ht => by
    rw [run_nil] at ht
    cases ht; simpa using h
  | o :: ops, s, t, seen, h, hn, ht => by
    obtain ⟨u, hu, ht⟩ := run_cons.1 ht
    rw [List.flatMap_cons, ← List.append_assoc] at hn ⊢
    exact distinct_run (distinct_step h (List.nodup_append'.1 hn).1 hu) hn ht

/-! ## Event atomicity -/

/-- In every run whose rollbacks all find the tracker empty, the outbox holds exactly what the
successful commits owed it: the events appended directly or raised by the aggregates added or saved
since the commit or rollback before; and no event is appended twice. -/
theorem commit_appends_exactly {ops : List (Op ι ε)} {t : UnitOfWork ι ε}
    (hok : Meets UnitOfWork.step UnitOfWork.TrackerDrained UnitOfWork.empty ops)
    (ht : run UnitOfWork.step UnitOfWork.empty ops = some t) :
    t.outbox = Ideal.publishedBy ops ∧ ((ops.flatMap Op.introduced).Nodup → t.outbox.Nodup) := by
  refine ⟨(sim_of_meets (fun s i o t => agrees_step) agrees_empty hok ht).outbox, fun hn => ?_⟩
  have h : Distinct t _ := distinct_run distinct_empty (by simpa using hn) ht
  exact (List.nodup_append'.1 h.rows).1

/-- A delivery that fails at its commit, is retried on the same unit of work and commits: its
rollback comes right after the failed commit, which has drained the tracker. -/
def retriedDelivery : List (Op Nat Nat) :=
  [.enter, .record 0 0, .save 0, .commit .integrityError, .exit true,
    .enter, .record 1 1, .save 1, .commit .ok, .exit false]

theorem commit_appends_exactly_retried :
    ((run UnitOfWork.step UnitOfWork.empty retriedDelivery).get (by decide)).outbox = [1] := by
  have hok : Meets UnitOfWork.step UnitOfWork.TrackerDrained UnitOfWork.empty retriedDelivery := by decide
  exact (commit_appends_exactly hok (Option.some_get _).symm).1

/-- A saga step that saved an aggregate and then failed: the run discards its transaction, and
`Saga._record_failure` appends the failure and commits on the same unit of work. -/
def failedStep : List (Op Nat Nat) :=
  [.record 0 0, .save 0, .rollback, .append 1, .commit .ok]

/-- The event of the discarded write is published with the record of the failure. -/
theorem rolled_back_event_published :
    (run UnitOfWork.step UnitOfWork.empty failedStep).map (·.outbox) = some [1, 0] ∧
      Ideal.publishedBy failedStep = [1] := by
  decide

/-- Every rollback over a tracker that still holds an aggregate can be continued to a commit that
publishes an event of an aggregate nobody saved since. -/
theorem rollback_leaks {s : UnitOfWork ι ε} {a : ι} (ha : a ∈ s.tracked) (e : ε) :
    ∃ t, run UnitOfWork.step s [.rollback, .record a e, .commit .ok] = some t ∧ e ∈ t.outbox ∧ t.stored = s.stored := by
  refine ⟨_, rfl, ?_, by simp [UnitOfWork.rollback, UnitOfWork.discard, UnitOfWork.collect]⟩
  simp only [UnitOfWork.rollback, UnitOfWork.discard, UnitOfWork.collect, List.nil_append, List.mem_append,
    List.mem_flatMap]
  exact .inr ⟨a, ha, by simp⟩

end Plantkeeper.Persistence
