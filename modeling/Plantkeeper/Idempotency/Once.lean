/-
A create commits at most once per idempotency key, whatever calls race for it. The key column decides:
a response is stored with the writes of its operation, so a second commit under the key is refused
and its caller is answered from the response of the first.
-/
import Plantkeeper.Idempotency.Create

namespace Plantkeeper.Idempotency

open Plantkeeper.Run

variable {View Json Digest Write E : Type}

/-! ## Stored responses -/

section

variable {commits : List (Commit Json Digest Write)} {m : Commit Json Digest Write} {key : Key}
  {r : IdempotencyRecord Json Digest}

theorem stored_mono (h : stored commits key = some r) : stored (commits ++ [m]) key = some r := by
  unfold stored at h ⊢
  rw [List.filterMap_append, List.find?_append, h]
  rfl

theorem stored_new (h : stored commits key = none) (hm : m.record = some r) (hk : r.key = key) :
    stored (commits ++ [m]) key = some r := by
  unfold stored at h ⊢
  rw [List.filterMap_append, List.find?_append, h]
  simp [hm, hk]

theorem mem_of_stored (h : stored commits key = some r) : (∃ m ∈ commits, m.record = some r) ∧ r.key = key := by
  unfold stored at h
  exact ⟨List.mem_filterMap.1 (List.mem_of_find?_eq_some h), by simpa using List.find?_some h⟩

theorem key_ne_of_stored (h : stored commits key = none) (hm : m ∈ commits) (hr : m.record = some r) : r.key ≠ key := by
  intro hk
  have := List.find?_eq_none.1 h r (List.mem_filterMap.2 ⟨m, hm, hr⟩)
  exact this (decide_eq_true hk)

end

variable {lib : Library View Json Digest}

/-! ## The invariant -/

/-- The record holds the view under the command's key and fingerprint; without a key there is none. -/
def Answers (lib : Library View Json Digest) (command : Command) (record : Option (IdempotencyRecord Json Digest))
    (view : View) : Prop :=
  lib.typeOf view = command.create.viewType ∧
    match command.idempotencyKey with
    | none => record = none
    | some key => ∃ r, record = some r ∧ r.key = key ∧ r.requestHash = requestFingerprint lib command ∧
        r.response = lib.modelDump view

/-- A call stages the response to its view, and returns the view that is stored. -/
def CallOk (lib : Library View Json Digest) (commits : List (Commit Json Digest Write))
    (call : Call View Json Digest Write E) : Prop :=
  match call.pc with
  | .commit _ record view => Answers lib call.command record view
  | .returned view => Answers lib call.command (call.command.idempotencyKey.bind (stored commits)) view
  | _ => True

structure Inv (lib : Library View Json Digest) (w : World View Json Digest Write E) : Prop where
  calls : ∀ i call, w.calls i = some call → CallOk lib w.commits call
  callers : ∀ m ∈ w.commits, ∃ call view, w.calls m.caller = some call ∧ call.pc = .returned view
  commits : ∀ m ∈ w.commits, ∃ view, Answers lib m.command m.record view
  once : ∀ key, w.commits.countP (fun m => m.command.idempotencyKey = some key) ≤ 1

theorem inv_empty : Inv lib (World.empty : World View Json Digest Write E) where
  calls := by intro i call h; cases h
  callers := by intro m h; cases h
  commits := by intro m h; cases h
  once := fun _ => Nat.zero_le 1

section

variable {commits : List (Commit Json Digest Write)} {m : Commit Json Digest Write} {command : Command} {key : Key}
  {record : Option (IdempotencyRecord Json Digest)} {r : IdempotencyRecord Json Digest} {view view' : View}
  {call : Call View Json Digest Write E}

theorem Answers.of_key (h : Answers lib command record view) (hk : command.idempotencyKey = some key) :
    ∃ r, record = some r ∧ r.key = key ∧ r.requestHash = requestFingerprint lib command ∧
      r.response = lib.modelDump view := by
  obtain ⟨-, h⟩ := h
  rw [hk] at h
  exact h

/-- A record is one for the command's own key. -/
theorem Answers.of_record (h : Answers lib command (some r) view) :
    command.idempotencyKey = some r.key ∧ r.requestHash = requestFingerprint lib command ∧
      r.response = lib.modelDump view := by
  cases hk : command.idempotencyKey with
  | none =>
    obtain ⟨-, h⟩ := h
    rw [hk] at h
    cases h
  | some key =>
    obtain ⟨r', hr, rfl, hhash, hresp⟩ := h.of_key hk
    cases hr
    exact ⟨rfl, hhash, hresp⟩

theorem CallOk.mono (h : CallOk lib commits call) : CallOk lib (commits ++ [m]) call := by
  unfold CallOk at h ⊢
  split
  · rename_i hpc
    rw [hpc] at h
    exact h
  · rename_i view hpc
    rw [hpc] at h
    refine ⟨h.1, ?_⟩
    cases hk : call.command.idempotencyKey with
    | none => rfl
    | some key =>
      obtain ⟨r, hr, hrest⟩ := h.of_key hk
      rw [hk] at hr
      exact ⟨r, stored_mono hr, hrest⟩
  · trivial

/-- Without a key the response is not remembered; with one it is, under the fingerprint. -/
theorem callOk_remember {now : Instant} {writes : List Write} (ht : lib.typeOf view = call.command.create.viewType) :
    CallOk lib commits { call with pc := remember lib call now writes view } := by
  unfold remember
  cases hk : call.command.idempotencyKey with
  | none => exact ⟨ht, by rw [hk]⟩
  | some key =>
    by_cases he : key.text = []
    · simp only [he]; trivial
    · simp only [he]
      refine ⟨ht, ?_⟩
      simp only [hk]
      exact ⟨_, rfl, rfl, rfl, rfl⟩

end

/-! ## Moves and commits -/

section

variable {w : World View Json Digest Write E} {i : ℕ} {call : Call View Json Digest Write E} {key : Key} {view : View}
  {r : IdempotencyRecord Json Digest}

/-- Whoever committed has returned. -/
theorem caller_ne (hi : Inv lib w) (h : ∀ call view, w.calls i = some call → call.pc ≠ .returned view) :
    ∀ m ∈ w.commits, m.caller ≠ i := by
  rintro m hm rfl
  obtain ⟨call, view, hc, hpc⟩ := hi.callers m hm
  exact h call view hc hpc

/-- A call that returned under a key returned what is stored there. -/
theorem response_of_returned (hi : Inv lib w) (hc : w.calls i = some call) (hk : call.command.idempotencyKey = some key)
    (hr : stored w.commits key = some r) (hret : call.pc = .returned view) :
    lib.typeOf view = call.command.create.viewType ∧ r.requestHash = requestFingerprint lib call.command ∧
      r.response = lib.modelDump view := by
  have hok := hi.calls i call hc
  unfold CallOk at hok
  rw [hret] at hok
  obtain ⟨r', hr', -, hhash, hresp⟩ := hok.of_key hk
  rw [hk, Option.bind_some, hr] at hr'
  cases hr'
  exact ⟨hok.1, hhash, hresp⟩

theorem inv_goto {pc : Pc View Json Digest Write E} (hi : Inv lib w) (hn : ∀ m ∈ w.commits, m.caller ≠ i)
    (hok : CallOk lib w.commits { call with pc := pc }) : Inv lib (w.goto i call pc) where
  calls := by
    intro j call' h
    rcases update_eq_some.1 h with ⟨rfl, hsame⟩ | ⟨-, h⟩
    · cases hsame; exact hok
    · exact hi.calls j call' h
  callers := by
    intro m hm
    obtain ⟨call', view, hc, hpc⟩ := hi.callers m hm
    exact ⟨call', view, (World.calls_goto_ne (hn m hm) pc).trans hc, hpc⟩
  commits := hi.commits
  once := hi.once

/-- Where the key is free no commit was made under it. -/
theorem countP_of_free (hi : Inv lib w) (h : stored w.commits key = none) :
    w.commits.countP (fun m => m.command.idempotencyKey = some key) = 0 := by
  rw [List.countP_eq_zero]
  intro m hm hk
  obtain ⟨view, hans⟩ := hi.commits m hm
  obtain ⟨r, hr, hkey, -⟩ := hans.of_key (of_decide_eq_true hk)
  exact key_ne_of_stored h hm hr hkey

/-- A stored response was committed with the writes of its own key. -/
theorem countP_records (hi : Inv lib w) : (w.commits.filterMap (·.record)).countP (fun r => r.key = key) ≤ 1 := by
  rw [List.countP_filterMap]
  refine Nat.le_trans (List.countP_mono_left ?_) (hi.once key)
  intro m hm h
  obtain ⟨view, hans⟩ := hi.commits m hm
  cases hr : m.record with
  | none => rw [hr] at h; cases h
  | some r =>
    rw [hr] at h hans
    have hkey : r.key = key := by simpa using h
    rw [hans.of_record.1, hkey]
    exact decide_eq_true rfl

theorem inv_commit {writes : List Write} {record : Option (IdempotencyRecord Json Digest)} (hi : Inv lib w)
    (hc : w.calls i = some call) (hpc : call.pc = .commit writes record view) (hfree : taken w.commits record = false) :
    Inv lib (w.commit i call writes record view) := by
  have hans : Answers lib call.command record view := by
    have hok := hi.calls i call hc
    unfold CallOk at hok
    rw [hpc] at hok
    exact hok
  have hn : ∀ m ∈ w.commits, m.caller ≠ i := by
    apply caller_ne hi
    intro call' v hc' hret
    rw [hc] at hc'
    cases hc'
    rw [hpc] at hret; cases hret
  have hstored : ∀ key, call.command.idempotencyKey = some key → stored w.commits key = none := by
    intro key hk
    obtain ⟨r, rfl, rfl, -⟩ := hans.of_key hk
    simpa [taken] using hfree
  constructor
  · intro j call' h
    rcases update_eq_some.1 h with ⟨rfl, hsame⟩ | ⟨-, h⟩
    · cases hsame
      refine ⟨hans.1, ?_⟩
      cases hk : call.command.idempotencyKey with
      | none => rfl
      | some key =>
        obtain ⟨r, hr, hkey, hrest⟩ := hans.of_key hk
        exact ⟨r, stored_new (hstored key hk) hr hkey, hkey, hrest⟩
    · exact (hi.calls j call' h).mono
  · intro m hm
    rcases List.mem_append.1 hm with hm | hm
    · obtain ⟨call', v, hc', hret⟩ := hi.callers m hm
      exact ⟨call', v, (World.calls_commit_ne (hn m hm)).trans hc', hret⟩
    · rw [List.mem_singleton] at hm
      subst hm
      exact ⟨_, view, World.calls_commit_self, rfl⟩
  · intro m hm
    rcases List.mem_append.1 hm with hm | hm
    · exact hi.commits m hm
    · rw [List.mem_singleton] at hm
      subst hm
      exact ⟨view, hans⟩
  · intro key
    refine le_of_eq_of_le List.countP_append ?_
    by_cases hk : call.command.idempotencyKey = some key
    · rw [countP_of_free hi (hstored key hk)]
      simp [hk]
    · simpa [hk] using hi.once key

end

/-! ## What the calls return -/

/-- A call under the key, with the fingerprint of the response, returned the view. -/
def Returns (lib : Library View Json Digest) (w : World View Json Digest Write E) (key : Key)
    (r : IdempotencyRecord Json Digest) (view : View) : Prop :=
  ∃ i call, w.calls i = some call ∧ call.command.idempotencyKey = some key ∧
    requestFingerprint lib call.command = r.requestHash ∧ call.pc = .returned view

/-- Two calls of one content under one key return the same view. -/
theorem view_unique {w : World View Json Digest Write E} {key : Key} {r : IdempotencyRecord Json Digest} {view view' : View}
    (hlib : lib.Lawful) (hi : Inv lib w) (hr : stored w.commits key = some r) (h : Returns lib w key r view)
    (h' : Returns lib w key r view') : view = view' := by
  obtain ⟨i, call, hc, hk, hhash, hret⟩ := h
  obtain ⟨j, call', hc', hk', hhash', hret'⟩ := h'
  obtain ⟨htype, -, hresp⟩ := response_of_returned hi hc hk hr hret
  obtain ⟨htype', -, hresp'⟩ := response_of_returned hi hc' hk' hr hret'
  have hsame : lib.typeOf view = lib.typeOf view' := by
    rw [htype, htype']
    exact viewType_of_modelDumpJson (hlib.noCollision (hhash.trans hhash'.symm))
  apply Option.some.inj
  rw [← hlib.roundTrip view, ← hlib.roundTrip view', ← hresp, ← hresp', hsame]

variable [DecidableEq Digest]

/-! ## What a step can do -/

/-- Where a call goes next, other than by its commit. -/
inductive Next (lib : Library View Json Digest) (commits : List (Commit Json Digest Write)) (i : ℕ)
    (call : Call View Json Digest Write E) : Action View Write E → Pc View Json Digest Write E → Prop
  | get : Next lib commits i call (.get i) (lookup lib commits call.command .operation)
  | raise (e : E) (now : Instant) : Next lib commits i call (.operate i (.error e) now) (.raised (.operation e))
  | operate (writes : List Write) (view : View) (now : Instant) (h : lib.typeOf view = call.command.create.viewType) :
    Next lib commits i call (.operate i (.ok (writes, view)) now) (remember lib call now writes view)
  | violated (writes : List Write) (view : View) (b : Bool) (h : call.pc = .commit writes none view) :
    Next lib commits i call (.commit i b) (.raised .concurrentWrite)
  | lost (b : Bool) : Next lib commits i call (.commit i b) .reread
  | reread : Next lib commits i call (.reread i) (lookup lib commits call.command (.raised .concurrentWrite))
  | die : Next lib commits i call (.die i) .gone

/-- A step begins a call, moves an open one on, or commits what one staged where its key is free. -/
inductive Steps (lib : Library View Json Digest) (w : World View Json Digest Write E) :
    Action View Write E → World View Json Digest Write E → Prop
  | call (i : ℕ) (command : Command) (statusCode : ℕ) (pc : Pc View Json Digest Write E) (h : w.calls i = none)
    (hpc : pc = .get ∨ pc = .operation) :
    Steps lib w (.call i command statusCode) (w.goto i ⟨command, statusCode, .get⟩ pc)
  | move (i : ℕ) (call : Call View Json Digest Write E) (a : Action View Write E) (pc : Pc View Json Digest Write E)
    (h : w.calls i = some call) (ho : call.pc.isOpen = true) (hn : Next lib w.commits i call a pc) :
    Steps lib w a (w.goto i call pc)
  | commit (i : ℕ) (call : Call View Json Digest Write E) (writes : List Write)
    (record : Option (IdempotencyRecord Json Digest)) (view : View) (h : w.calls i = some call)
    (hpc : call.pc = .commit writes record view) (hfree : taken w.commits record = false) :
    Steps lib w (.commit i false) (w.commit i call writes record view)

section

variable {w w' : World View Json Digest Write E} {a : Action View Write E} {i : ℕ} {call : Call View Json Digest Write E}

theorem steps_of_step (h : step lib w a = some w') : Steps lib w a w' := by
  cases a with
  | call i command statusCode =>
    simp only [step] at h
    split at h
    · rename_i hc
      cases h
      apply Steps.call _ _ _ _ hc
      split
      · exact .inr rfl
      · exact .inl rfl
    · cases h
  | get i =>
    simp only [step] at h
    split at h
    · rename_i call hc
      split at h
      · rename_i hpc
        cases h
        exact .move i call _ _ hc (by rw [hpc]; rfl) .get
      · cases h
    · cases h
  | operate i outcome now =>
    simp only [step] at h
    split at h
    · rename_i call hc
      split at h
      · rename_i e hpc
        cases h
        exact .move i call _ _ hc (by rw [hpc]; rfl) (.raise e now)
      · rename_i writes view hpc
        split at h
        · rename_i ht
          cases h
          exact .move i call _ _ hc (by rw [hpc]; rfl) (.operate writes view now ht)
        · cases h
      · cases h
    · cases h
  | commit i violated =>
    simp only [step] at h
    split at h
    · rename_i call hc
      split at h
      · rename_i writes record view hpc
        split at h
        · cases h
          refine .move i call _ _ hc (by rw [hpc]; rfl) ?_
          cases record with
          | none => exact .violated writes view violated hpc
          | some r => exact .lost violated
        · rename_i hfree
          cases h
          simp only [Bool.or_eq_true, not_or, Bool.not_eq_true] at hfree
          rw [hfree.1]
          exact .commit i call writes record view hc hpc hfree.2
      · cases h
    · cases h
  | reread i =>
    simp only [step] at h
    split at h
    · rename_i call hc
      split at h
      · rename_i hpc
        cases h
        exact .move i call _ _ hc (by rw [hpc]; rfl) .reread
      · cases h
    · cases h
  | die i =>
    simp only [step] at h
    split at h
    · rename_i call hc
      split at h
      · rename_i ho
        cases h
        exact .move i call _ _ hc ho .die
      · cases h
    · cases h

end

/-! ## What a step preserves -/

section

variable {w w' : World View Json Digest Write E} {a : Action View Write E} {i : ℕ} {call : Call View Json Digest Write E}
  {key : Key} {command : Command} {r : IdempotencyRecord Json Digest} {view : View}

/-- What is replayed is the view the response was stored for: one content has one view type, and the
view's JSON round-trips. -/
theorem answers_replayed (hlib : lib.Lawful) (hi : Inv lib w) (hk : command.idempotencyKey = some key)
    (hr : stored w.commits key = some r) (h : replayed (E := E) lib command r = .ok view) :
    Answers lib command (some r) view := by
  obtain ⟨⟨m, hm, hmr⟩, hkey⟩ := mem_of_stored hr
  obtain ⟨first, hfirst⟩ := hi.commits m hm
  rw [hmr] at hfirst
  obtain ⟨-, hhash, hresp⟩ := hfirst.of_record
  unfold replayed at h
  split at h
  · cases h
  · rename_i heq
    rw [not_not] at heq
    have htype : lib.typeOf first = command.create.viewType := by
      rw [hfirst.1]
      exact viewType_of_modelDumpJson (hlib.noCollision (hhash.symm.trans heq))
    rw [hresp, ← htype, hlib.roundTrip] at h
    cases h
    refine ⟨htype, ?_⟩
    rw [hk]
    exact ⟨r, rfl, hkey, heq, hresp⟩

theorem callOk_lookup (hlib : lib.Lawful) (hi : Inv lib w) {missing : Pc View Json Digest Write E}
    (hmissing : CallOk lib w.commits { call with pc := missing }) :
    CallOk lib w.commits { call with pc := lookup lib w.commits call.command missing } := by
  cases hk : call.command.idempotencyKey with
  | none => simpa only [lookup, hk, Option.bind_none] using hmissing
  | some key =>
    cases hr : stored w.commits key with
    | none => simpa only [lookup, hk, Option.bind_some, hr] using hmissing
    | some r =>
      simp only [lookup, hk, Option.bind_some, hr]
      cases hrep : replayed (E := E) lib call.command r with
      | error f => trivial
      | ok view =>
        have hans := answers_replayed hlib hi hk hr hrep
        simp only [CallOk, Pc.ofResult, hk, Option.bind_some, hr]
        exact hans

theorem callOk_next {pc : Pc View Json Digest Write E} (hlib : lib.Lawful) (hi : Inv lib w)
    (h : Next lib w.commits i call a pc) : CallOk lib w.commits { call with pc := pc } := by
  cases h with
  | get => exact callOk_lookup hlib hi trivial
  | operate writes view now ht => exact callOk_remember ht
  | reread => exact callOk_lookup hlib hi trivial
  | raise e now => trivial
  | violated writes view b hpc => trivial
  | lost b => trivial
  | die => trivial

theorem inv_step (hlib : lib.Lawful) (hi : Inv lib w) (h : step lib w a = some w') : Inv lib w' := by
  cases steps_of_step h with
  | call i command statusCode pc hc hpc =>
    refine inv_goto hi (caller_ne hi fun call view h' => ?_) ?_
    · rw [hc] at h'; cases h'
    · rcases hpc with rfl | rfl <;> trivial
  | move i call a pc hc ho hn =>
    refine inv_goto hi (caller_ne hi fun call' view h' => ?_) (callOk_next hlib hi hn)
    rw [hc] at h'
    cases h'
    exact Pc.ne_returned_of_isOpen ho
  | commit i call writes record view hc hpc hfree => exact inv_commit hi hc hpc hfree

/-! ## How a call fails -/

/-- Where a response is stored, the lookup of another content ends in a conflict. -/
theorem lookup_of_conflict {missing : Pc View Json Digest Write E} (hr : stored w.commits key = some r)
    (hk : command.idempotencyKey = some key) (hne : requestFingerprint lib command ≠ r.requestHash) :
    lookup lib w.commits command missing = .raised .idempotencyKeyConflict := by
  simp only [lookup, hk, Option.bind_some, hr, replayed]
  rw [if_pos hne.symm]
  rfl

theorem raised_next {f : Failure E} {pc : Pc View Json Digest Write E} (hok : CallOk lib w.commits call)
    (hr : stored w.commits key = some r) (hk : call.command.idempotencyKey = some key)
    (hne : requestFingerprint lib call.command ≠ r.requestHash) (h : Next lib w.commits i call a pc) (hf : pc = .raised f) :
    f = .idempotencyKeyConflict ∨ ∃ e now, a = .operate i (.error e) now ∧ f = .operation e := by
  cases h with
  | get =>
    rw [lookup_of_conflict hr hk hne] at hf
    cases hf; exact .inl rfl
  | reread =>
    rw [lookup_of_conflict hr hk hne] at hf
    cases hf; exact .inl rfl
  | raise e now =>
    cases hf
    exact .inr ⟨e, now, rfl, rfl⟩
  | operate writes view now ht =>
    -- the key of a stored response is not empty
    have hkey : ¬ key.text = [] := by
      rw [← (mem_of_stored hr).2]; exact r.nonempty
    simp only [remember, hk, hkey] at hf
    cases hf
  | violated writes view b hpc =>
    unfold CallOk at hok
    rw [hpc] at hok
    obtain ⟨r', hr', -⟩ := hok.of_key hk
    cases hr'
  | lost b => cases hf
  | die => cases hf

/-- A step that fails a call of another content fails it with the conflict, or with what its operation
raised. -/
theorem raised_step {before : Call View Json Digest Write E} {f : Failure E} (hi : Inv lib w)
    (h : step lib w a = some w') (hr : stored w.commits key = some r) (hb : w.calls i = some before)
    (ho : before.pc.isOpen = true) (hc : w'.calls i = some call) (hk : call.command.idempotencyKey = some key)
    (hne : requestFingerprint lib call.command ≠ r.requestHash) (hf : call.pc = .raised f) :
    f = .idempotencyKeyConflict ∨ ∃ e now, a = .operate i (.error e) now ∧ f = .operation e := by
  have hmoved : w'.calls i ≠ w.calls i := by
    intro heq
    rw [hc, hb] at heq
    cases heq
    rw [hf] at ho; cases ho
  cases steps_of_step h with
  | call j command statusCode pc hj hpc =>
    by_cases hij : i = j
    · subst hij
      rw [hb] at hj; cases hj
    · exact absurd (World.calls_goto_ne hij pc) hmoved
  | move j call' a pc hj ho' hn =>
    by_cases hij : i = j
    · subst hij
      rw [World.calls_goto_self] at hc
      cases hc
      exact raised_next (hi.calls i call' hj) hr hk hne hn hf
    · exact absurd (World.calls_goto_ne hij pc) hmoved
  | commit j call' writes record view hj hpc hfree =>
    by_cases hij : i = j
    · subst hij
      rw [World.calls_commit_self] at hc
      cases hc
      cases hf
    · exact absurd (World.calls_commit_ne hij) hmoved

end

/-! ## Runs -/

/-- **A create commits at most once per idempotency key**, and its callers agree. In every interleaving
of calls under a key, after every step: at most one operation's writes and one response were committed
for it; the calls that returned with the fingerprint of the stored response returned one view; a call
with another fingerprint returned no view and committed nothing, and fails with the conflict or what
its operation raised once a response is stored; and a call that failed left nothing. -/
theorem create_once {acts : List (Action View Write E)} {a : Action View Write E} {w w' : World View Json Digest Write E}
    (hlib : lib.Lawful) (h : run (step lib) World.empty acts = some w) (hs : step lib w a = some w') (key : Key) :
    (w'.commits.countP (fun m => m.command.idempotencyKey = some key) ≤ 1 ∧
      (w'.commits.filterMap (·.record)).countP (fun r => r.key = key) ≤ 1) ∧
    (∀ r view view', stored w'.commits key = some r → Returns lib w' key r view → Returns lib w' key r view' →
      view = view') ∧
    (∀ i call r, stored w'.commits key = some r → w'.calls i = some call → call.command.idempotencyKey = some key →
      requestFingerprint lib call.command ≠ r.requestHash →
        (∀ view, call.pc ≠ .returned view) ∧ (∀ m ∈ w'.commits, m.caller ≠ i) ∧
        ∀ before f, w.calls i = some before → before.pc.isOpen = true → call.pc = .raised f →
          stored w.commits key = some r →
            f = .idempotencyKeyConflict ∨ ∃ e now, a = .operate i (.error e) now ∧ f = .operation e) ∧
    ∀ i call f, w'.calls i = some call → call.pc = .raised f → ∀ m ∈ w'.commits, m.caller ≠ i := by
  have hi : Inv lib w := inv (fun _ _ _ => inv_step hlib) inv_empty h
  have hi' : Inv lib w' := inv_step hlib hi hs
  refine ⟨⟨hi'.once key, countP_records hi'⟩, fun r view view' hr => view_unique hlib hi' hr, ?_, ?_⟩
  · intro i call r hr hc hk hne
    have hret : ∀ view, call.pc ≠ .returned view := by
      intro view hret
      exact hne (response_of_returned hi' hc hk hr hret).2.1.symm
    refine ⟨hret, caller_ne hi' ?_, ?_⟩
    · intro call' view hc'
      rw [hc] at hc'
      cases hc'
      exact hret view
    · intro before f hb ho hf hr
      exact raised_step hi hs hr hb ho hc hk hne hf
  · intro i call f hc hf
    apply caller_ne hi'
    intro call' view hc' hret
    rw [hc] at hc'
    cases hc'
    rw [hf] at hret; cases hret

/-- Views that are their own JSON, and a digest that is the content itself. -/
def plain : Library (ViewType × ℕ) (ViewType × ℕ) (List (String × Value)) where
  sha256 := id
  typeOf := Prod.fst
  modelDump := id
  modelValidate t j := if j.1 = t then some j else none

theorem lawful_plain : plain.Lawful where
  roundTrip := fun _ => if_pos rfl
  noCollision := Function.injective_id

/-- A household, asked for under a key. -/
def createOak : Command := ⟨.household ['o', 'a', 'k'], some ⟨['k'], by decide⟩⟩

/-- Two calls look the key up and run their operations before either commits; the second is refused. -/
def raced : List (Action (ViewType × ℕ) ℕ Unit) :=
  [.call 0 createOak 201, .call 1 createOak 201, .get 0, .get 1, .operate 0 (.ok ([10], (.household, 0))) 5,
    .operate 1 (.ok ([11], (.household, 1))) 6, .commit 0 false, .commit 1 false]

/-- The second call returns the view of the first, and one operation's writes are committed. -/
theorem create_once_raced :
    ∃ w w', run (step plain) World.empty raced = some w ∧ step plain w (.reread 1) = some w' ∧
      (∃ call, w'.calls 1 = some call ∧ call.pc = .returned (.household, 0)) ∧
      w'.commits.map (·.writes) = [[10]] ∧
      w'.commits.countP (fun m => m.command.idempotencyKey = some ⟨['k'], by decide⟩) ≤ 1 := by
  have hrun : run (step plain) World.empty raced = some ((run (step plain) World.empty raced).get (by decide)) :=
    (Option.some_get _).symm
  have hstep : step plain ((run (step plain) World.empty raced).get (by decide)) (.reread 1) =
      some ((step plain ((run (step plain) World.empty raced).get (by decide)) (.reread 1)).get (by decide)) :=
    (Option.some_get _).symm
  obtain ⟨⟨hone, -⟩, -⟩ := create_once lawful_plain hrun hstep ⟨['k'], by decide⟩
  exact ⟨_, _, hrun, hstep, ⟨_, rfl, rfl⟩, rfl, hone⟩

end Plantkeeper.Idempotency
