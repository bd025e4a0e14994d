/-
The stream over connections that break. A response is cut at any character; the client keeps what it has
read, and what it opens next names the last identifier it saw. Where identifiers follow creation, the
messages it gets over all its connections are each notification once, and none is passed over.
-/
import Plantkeeper.Notifications.Cursor
import Plantkeeper.Notifications.Sse

namespace Plantkeeper.Notifications

open EventStream EventStream.Reader Plantkeeper.Run

/-! ## The client and the server -/

/-- `_cursor`: an explicit `since` wins over the header. -/
def cursorOf (since lastEventId : Option UUID) : Option NotificationId := (since.or lastEventId).map UUID.int

/-- The server, the client as it was when it opened its connection, and what the stream has yielded on it
since; without a connection there is nothing on the wire. -/
structure Session where
  world : World
  client : Reader
  wire : Option (List NotificationStreamEvent)
  deriving DecidableEq

def Session.empty : Session := ⟨World.empty, fresh, none⟩

/-- What a step of the stream yields to the frames. -/
def yields (w : World) : Action → List NotificationStreamEvent
  | .attach ok => [.opened (!ok)]
  | .yieldNext =>
    match w.stream with
    | .draining _ _ (n :: _) _ => [.arrival n]
    | _ => []
  | .idle => [.keepAlive]
  | _ => []

def idText (id : NotificationId) : List Char := (uuid id).str

def readId (text : List Char) : Option NotificationId := (UUID.ofText text).map UUID.int

/-- The identifiers a client has got messages for, the oldest first. -/
def got (r : Reader) : List NotificationId := (r.messages.map (·.lastEventId)).filterMap readId

/-- The `Last-Event-ID` header, which an event source sends once it has an identifier. -/
def lastEventIdHeader (r : Reader) : Option (List Char) := if r.lastEventId = [] then none else some r.lastEventId

inductive Event
  | server (a : Action)
  | connect
  | cut (received : ℕ)
  deriving DecidableEq

section

variable (document : Notification → List Char)

/-- The client once all that is written has reached it. -/
def Session.reader (s : Session) : Reader :=
  match s.wire with
  | none => s.client
  | some events => s.client.read (response document events)

/-- One step. The cut is where the connection breaks: what is behind it is lost, and the stream is closed.
A header that is no UUID is refused before anything is opened. -/
def sessionStep (householdId : HouseholdId) (s : Session) : Event → Option Session
  | .server .connect | .server .disconnect => none
  | .server a =>
    (step householdId s.world a).map fun w => { s with world := w, wire := s.wire.map (· ++ yields s.world a) }
  | .connect =>
    match s.wire, s.world.stream, (lastEventIdHeader s.client).map UUID.ofText with
    | some _, _, _ | _, _, some none => none
    | none, .closed, header =>
      some
        { s with
          world := { s.world with stream := .attaching (cursorOf none header.join) }
          client := s.client.reopen, wire := some [] }
    | none, _, _ => none
  | .cut received =>
    s.wire.map fun events =>
      let client := s.client.read ((response document events).take received)
      { s with world := { s.world with stream := .closed, yielded := got client }, client := client, wire := none }

end

/-- Identifiers follow creation, and are UUIDs. -/
def Follows (householdId : HouseholdId) (s : Session) : Event → Prop
  | .server a => InOrder householdId s.world a ∧ ∀ n ∈ a.created, n.id < 2 ^ 128
  | _ => True

instance (householdId : HouseholdId) (s : Session) : ∀ e, Decidable (Follows householdId s e)
  | .server _ => inferInstanceAs (Decidable (_ ∧ _))
  | .connect | .cut _ => inferInstanceAs (Decidable True)

/-! ## The client's identifiers -/

/-- A client's messages are those of these notifications, in order, and it names the last of them. -/
structure Has (r : Reader) (ids : List NotificationId) : Prop where
  texts : r.messages.map (·.lastEventId) = ids.map idText
  last : r.lastEventId = (ids.getLast?.map idText).getD []
  bound : ∀ i ∈ ids, i < 2 ^ 128

theorem readId_idText {id : NotificationId} (h : id < 2 ^ 128) : readId (idText id) = some id := by
  have hint : (uuid id).int = id := Nat.mod_eq_of_lt h
  rw [readId, idText, UUID.ofText_str, Option.map_some, hint]

theorem idText_ne_nil (id : NotificationId) : idText id ≠ [] := by
  unfold idText UUID.str
  simp

theorem got_eq {r : Reader} {ids : List NotificationId} (h : Has r ids) : got r = ids := by
  obtain ⟨htexts, -, hbound⟩ := h
  rw [got, htexts]
  clear htexts
  induction ids with
  | nil => rfl
  | cons i ids ih =>
    obtain ⟨hi, hids⟩ := List.forall_mem_cons.1 hbound
    rw [List.map_cons, List.filterMap_cons_some (readId_idText hi), ih hids]

/-- The header names the last notification the client has. -/
theorem header_eq {r : Reader} {ids : List NotificationId} (h : Has r ids) :
    (lastEventIdHeader r).map UUID.ofText = ids.getLast?.map fun i => some (uuid i) := by
  unfold lastEventIdHeader
  rw [h.last]
  cases ids.getLast? with
  | none => rfl
  | some i =>
    show Option.map UUID.ofText (if idText i = [] then none else some (idText i)) = some (some (uuid i))
    rw [if_neg (idText_ne_nil i), Option.map_some, idText, UUID.ofText_str]

/-- What a client sees is all that the identifiers are read from. -/
theorem Has.of_seen {r r' : Reader} {ids : List NotificationId} (h : Has r ids) (hseen : r'.seen = r.seen) : Has r' ids := by
  obtain ⟨hmessages, hlast⟩ := Prod.mk.inj hseen
  exact ⟨by rw [hmessages]; exact h.texts, hlast.trans h.last, h.bound⟩

/-- The notifications that arrive with some events. -/
def arrivals (events : List NotificationStreamEvent) : List NotificationId :=
  events.filterMap fun
    | .arrival n => some n.id
    | _ => none

theorem arrivals_append (events more : List NotificationStreamEvent) :
    arrivals (events ++ more) = arrivals events ++ arrivals more := List.filterMap_append

section

variable (document : Notification → List Char)

theorem has_frame {r : Reader} {ids : List NotificationId} (hr : r.Idle) (h : Has r ids) (e : NotificationStreamEvent)
    (hbound : ∀ i ∈ arrivals [e], i < 2 ^ 128) : Has (r.take (frame document e)) (ids ++ arrivals [e]) := by
  obtain ⟨hmessages, hlast⟩ := Prod.mk.inj (take_frame document hr e)
  refine ⟨?_, ?_, fun i hi => (List.mem_append.1 hi).elim (h.bound i) (hbound i)⟩
  · rw [hmessages, List.map_append, List.map_append, h.texts]
    cases e <;> rfl
  · rw [hlast]
    cases e with
    | arrival n => simp [messageOf, arrivals, idText]
    | _ => simpa [messageOf, arrivals] using h.last

/-- After any number of a response's frames, the client has the notifications that arrived with them. -/
theorem has_frames {events : List NotificationStreamEvent} : ∀ {r : Reader} {ids : List NotificationId}, r.Idle → Has r ids →
    (∀ i ∈ arrivals events, i < 2 ^ 128) → Has ((events.map (frame document)).foldl Reader.take r) (ids ++ arrivals events) := by
  induction events with
  | nil =>
    intro r ids _ h _
    simpa [arrivals] using h
  | cons e es ih =>
    intro r ids hr h hbound
    have hsplit : arrivals (e :: es) = arrivals [e] ++ arrivals es := arrivals_append [e] es
    rw [hsplit, List.forall_mem_append] at hbound
    rw [hsplit, ← List.append_assoc]
    exact ih (take_idle hr.atLine _) (has_frame document hr h e hbound.1) hbound.2

/-- However a response is cut, the client has a beginning of what arrives with it. -/
theorem has_cut {r : Reader} {ids : List NotificationId} {events : List NotificationStreamEvent} (hr : r.Idle) (h : Has r ids)
    (hbound : ∀ i ∈ arrivals events, i < 2 ^ 128) {cut : List Char} (hcut : cut <+: response document events) :
    ∃ now, now <+: arrivals events ∧ Has (r.read cut) (ids ++ now) := by
  rw [response_eq] at hcut
  obtain ⟨k, -, hseen⟩ := seen_read_cut hr.atLine hcut
  cases k with
  | zero => exact ⟨[], List.nil_prefix, by rw [List.append_nil]; exact h.of_seen hseen⟩
  | succ k =>
    have hfirst : arrivals (events.take k) <+: arrivals events := (List.take_prefix k events).filterMap _
    have hretry := (take_retry hr RETRY_MILLISECONDS).1
    rw [List.take_succ_cons, List.foldl_cons, ← List.map_take] at hseen
    exact ⟨_, hfirst, (has_frames document (take_idle hr.atLine _) (h.of_seen hretry)
      fun i hi => hbound i (hfirst.subset hi)).of_seen hseen⟩

/-- A response that has all arrived. -/
theorem has_response {r : Reader} {ids : List NotificationId} {events : List NotificationStreamEvent} (hr : r.Idle) (h : Has r ids)
    (hbound : ∀ i ∈ arrivals events, i < 2 ^ 128) : Has (r.read (response document events)) (ids ++ arrivals events) := by
  have hretry := (take_retry hr RETRY_MILLISECONDS).1
  rw [response_eq, read_frames hr.atLine, List.foldl_cons]
  exact has_frames document (take_idle hr.atLine _) (h.of_seen hretry) hbound

end

/-! ## The server's steps -/

/-- What a step adds to what the session has yielded is what it yields to the frames. -/
theorem yielded_step {householdId : HouseholdId} {w w' : World} {a : Action} (h : step householdId w a = some w') :
    w'.yielded = w.yielded ++ arrivals (yields w a) := by
  cases a with
  | create n =>
    simp only [step] at h
    split at h <;> cases h
    simp [yields, arrivals]
  | acknowledge id now =>
    obtain ⟨table, -, rfl⟩ := Option.map_eq_some_iff.1 h
    simp [yields, arrivals]
  | yieldNext =>
    simp only [step] at h
    split at h
    · rename_i hs
      cases h
      simp [yields, hs, arrivals]
    · cases h
  | drained =>
    simp only [step] at h
    split at h <;> cases h <;> simp [yields, arrivals]
  | disconnect =>
    cases h
    simp [yields, arrivals]
  | connect | attach ok | read | nudged | idle | lost =>
    simp only [step] at h
    split at h <;> cases h
    simp [yields, arrivals]

/-- No stream steps while it is closed. -/
theorem step_closed {householdId : HouseholdId} {w w' : World} {a : Action} (hclosed : w.stream = .closed) (hne : a ≠ .connect)
    (h : step householdId w a = some w') : w'.stream = .closed ∧ yields w a = [] := by
  cases a with
  | connect => exact absurd rfl hne
  | create n =>
    simp only [step] at h
    split at h <;> cases h
    exact ⟨hclosed, rfl⟩
  | acknowledge id now =>
    obtain ⟨table, -, rfl⟩ := Option.map_eq_some_iff.1 h
    exact ⟨hclosed, rfl⟩
  | disconnect =>
    cases h
    exact ⟨rfl, rfl⟩
  | _ => simp [step, hclosed] at h

/-- The table's identifiers are UUIDs when those created are. -/
theorem bound_step {householdId : HouseholdId} {w w' : World} {a : Action} (hw : ∀ n ∈ w.table, n.id < 2 ^ 128)
    (ha : ∀ n ∈ a.created, n.id < 2 ^ 128) (h : step householdId w a = some w') : ∀ n ∈ w'.table, n.id < 2 ^ 128 := by
  cases a with
  | create n =>
    simp only [step] at h
    split at h <;> cases h
    intro m hm
    rcases List.mem_append.1 hm with hm | hm
    · exact hw m hm
    · rw [List.mem_singleton.1 hm]
      exact ha n rfl
  | acknowledge id now =>
    obtain ⟨table, hack, rfl⟩ := Option.map_eq_some_iff.1 h
    obtain rfl := acknowledge_eq hack
    intro m hm
    rcases Table.mem_update hm with ⟨m₀, h0, -, rfl⟩ | ⟨h0, -⟩
    · exact hw m₀ h0
    · exact hw m h0
  | disconnect =>
    cases h
    exact hw
  | drained =>
    simp only [step] at h
    split at h <;> cases h <;> exact hw
  | connect | attach ok | read | yieldNext | nudged | idle | lost =>
    simp only [step] at h
    split at h <;> cases h
    exact hw

/-- What a client got before its connection broke is passed as the whole was. -/
theorem passed_front {householdId : HouseholdId} {table : List Notification} {yielded front : List NotificationId}
    (h : Passed householdId table yielded) (hfront : front <+: yielded) : Passed householdId table front := by
  obtain ⟨rest, rfl⟩ := hfront
  obtain ⟨hincreasing, -, hcross⟩ := List.pairwise_append.1 h.increasing
  refine ⟨hincreasing, fun i hi => h.stored i (List.mem_append_left _ hi), fun n hn hle => ?_⟩
  obtain ⟨i, hi, hle⟩ := hle
  rcases List.mem_append.1 (h.behind n hn ⟨i, List.mem_append_left _ hi, hle⟩) with hmem | hmem
  · exact hmem
  · exact absurd hle (Nat.not_le.2 (hcross i hi n.id hmem))

/-! ## The invariant -/

/-- Without a connection the client has what was yielded; with one, it will have once all is read. -/
def WireOK (s : Session) : Prop :=
  match s.wire with
  | none => s.world.stream = .closed ∧ Has s.client s.world.yielded
  | some events => s.client.Idle ∧ ∃ ids, Has s.client ids ∧ s.world.yielded = ids ++ arrivals events

structure SessionInv (householdId : HouseholdId) (s : Session) : Prop where
  server : Inv householdId s.world
  bound : ∀ n ∈ s.world.table, n.id < 2 ^ 128
  wire : WireOK s

theorem sessionInv_empty (householdId : HouseholdId) : SessionInv householdId Session.empty :=
  ⟨inv_empty householdId, fun _ h => (nomatch h), rfl, rfl, rfl, fun _ h => (nomatch h)⟩

theorem yielded_bound {householdId : HouseholdId} {s : Session} (h : SessionInv householdId s) :
    ∀ i ∈ s.world.yielded, i < 2 ^ 128 := by
  intro i hi
  obtain ⟨n, hn, -, rfl⟩ := h.server.passed.stored i hi
  exact h.bound n hn

section

variable {document : Notification → List Char} {householdId : HouseholdId} {s s' : Session}

theorem has_reader (h : SessionInv householdId s) : Has (s.reader document) s.world.yielded := by
  have hbound := yielded_bound h
  have hwire := h.wire
  unfold Session.reader
  unfold WireOK at hwire
  split at hwire
  · exact hwire.2
  · obtain ⟨hidle, ids, hhas, hyielded⟩ := hwire
    rw [hyielded] at hbound ⊢
    exact has_response document hidle hhas fun i hi => hbound i (List.mem_append_right _ hi)

theorem sessionInv_server {w : World} {a : Action} (h : SessionInv householdId s) (hne : a ≠ .connect)
    (ho : InOrder householdId s.world a) (hb : ∀ n ∈ a.created, n.id < 2 ^ 128) (ht : step householdId s.world a = some w) :
    SessionInv householdId { s with world := w, wire := s.wire.map (· ++ yields s.world a) } := by
  refine ⟨inv_step h.server ho ht, bound_step h.bound hb ht, ?_⟩
  have hwire := h.wire
  unfold WireOK at hwire
  split at hwire
  · rename_i hnone
    obtain ⟨hclosed, hhas⟩ := hwire
    obtain ⟨hclosed', hyields⟩ := step_closed hclosed hne ht
    have hyielded := yielded_step ht
    rw [hyields] at hyielded
    simp only [WireOK, hnone, Option.map_none]
    refine ⟨hclosed', ?_⟩
    rw [hyielded, arrivals, List.filterMap_nil, List.append_nil]
    exact hhas
  · rename_i events hsome
    obtain ⟨hidle, ids, hhas, hyielded⟩ := hwire
    simp only [WireOK, hsome, Option.map_some]
    refine ⟨hidle, ids, hhas, ?_⟩
    rw [yielded_step ht, hyielded, arrivals_append, List.append_assoc]

theorem sessionInv_cut (h : SessionInv householdId s) {received : ℕ} (ht : sessionStep document householdId s (.cut received) = some s') :
    SessionInv householdId s' := by
  obtain ⟨events, hsome, rfl⟩ := Option.map_eq_some_iff.1 ht
  have hwire := h.wire
  have hbound := yielded_bound h
  simp only [WireOK, hsome] at hwire
  obtain ⟨hidle, ids, hhas, hyielded⟩ := hwire
  rw [hyielded] at hbound
  obtain ⟨now, hnow, hhas'⟩ := has_cut document hidle hhas (fun i hi => hbound i (List.mem_append_right _ hi))
    (List.take_prefix received _)
  have hfront : ids ++ now <+: s.world.yielded := by
    rw [hyielded]
    exact (List.prefix_append_right_inj ids).2 hnow
  -- the yields that did not arrive are taken back: the client will ask for them again
  have hpassed : Passed householdId s.world.table (got (s.client.read ((response document events).take received))) := by
    rw [got_eq hhas']
    exact passed_front h.server.passed hfront
  have hgot : Has (s.client.read ((response document events).take received))
      (got (s.client.read ((response document events).take received))) := by
    rw [got_eq hhas']
    exact hhas'
  exact ⟨⟨h.server.table, hpassed, trivial⟩, h.bound, rfl, hgot⟩

theorem sessionInv_connect (h : SessionInv householdId s) (ht : sessionStep document householdId s .connect = some s') :
    SessionInv householdId s' := by
  simp only [sessionStep] at ht
  split at ht
  · cases ht
  · cases ht
  · rename_i hnone hclosed hheader
    have hwire := h.wire
    simp only [WireOK, hnone] at hwire
    obtain ⟨-, hhas⟩ := hwire
    cases ht
    rw [header_eq hhas]
    refine ⟨⟨h.server.table, h.server.passed, ?_⟩, h.bound, reopen_idle _, s.world.yielded, ?_, ?_⟩
    · -- the identifier in the header is that of the last message
      cases hlast : s.world.yielded.getLast? with
      | none => simp [StreamOK, cursorOf, hlast]
      | some i =>
        have hint : (uuid i).int = i := Nat.mod_eq_of_lt (yielded_bound h i (List.mem_of_getLast? hlast))
        simp [StreamOK, cursorOf, hint, hlast]
    · exact hhas.of_seen (reopen_seen s.client)
    · simp [arrivals]
  · cases ht

theorem sessionInv_step {e : Event} (h : SessionInv householdId s) (ho : Follows householdId s e)
    (ht : sessionStep document householdId s e = some s') : SessionInv householdId s' := by
  cases e with
  | connect => exact sessionInv_connect h ht
  | cut received => exact sessionInv_cut h ht
  | server a =>
    have hne : a ≠ .connect := by
      rintro rfl
      cases ht
    cases a with
    | connect => exact absurd rfl hne
    | disconnect => cases ht
    | _ =>
      obtain ⟨w, hw, rfl⟩ := Option.map_eq_some_iff.1 ht
      exact sessionInv_server h hne ho.1 ho.2 hw

end

/-! ## Over all connections -/

/-- The notifications a client has messages for: increasing, with nothing unread passed over, everything a
drain that is through has found, and the next connection's cursor on the last of them. -/
structure Received (householdId : HouseholdId) (w : World) (ids : List NotificationId) : Prop where
  increasing : ids.Pairwise (· < ·)
  behind : ∀ n ∈ unread w.table householdId, (∃ i ∈ ids, n.id ≤ i) → n.id ∈ ids
  drained : ∀ mode cursor due, w.stream = .draining mode cursor [] due → ∀ n ∈ due, n.id ∈ ids
  resumes : ∀ cursor, w.stream = .attaching cursor → cursor = ids.getLast?

/-- Two reminders are yielded, the connection breaks within the frame of the second, and a third is created
before the client is back. -/
def broken : List Event :=
  [.server (.create (reminder 11 1)), .server (.create (reminder 12 2)), .connect, .server (.attach true), .server .read,
    .server .yieldNext, .server .yieldNext, .cut 150, .server (.create (reminder 14 3)), .connect, .server (.attach false),
    .server .read, .server .yieldNext, .server .yieldNext]

end Plantkeeper.Notifications
