/-
Conversations over whole runs. Every row of the outbox is raised under the provenance its edge has bound:
a request's, a delivery's, or none in a background job; a saga puts its own name on what it raises. Rows
are published, delivered and decoded, moved aside and replayed, in any order and any number of times. What
the handling of a delivery raises names that delivery's row as its cause, so the causes of a row lead to
one that has none, and all of them are one conversation.
-/
import Plantkeeper.Lib.Lineage
import Plantkeeper.Lib.Run
import Plantkeeper.Messaging.Publisher
import Plantkeeper.Messaging.Replay

namespace Plantkeeper.Messaging.Conversations

open Plantkeeper.Run
open Relation (ReflTransGen)
open Utf8 (Bytes)

/-! ## The provenance that is bound -/

def API_RAISER : String := "service:api"
def GRPC_RAISER : String := "service:grpc"
def TELEMETRY_RAISER : String := "service:iot-simulator"

/-- `request_context`, observed at `now` and with `minted` as the identifier it would draw. -/
def requestContext (now : AwareDatetime) (minted : UUID) (raisedBy : String) (traceparent : Option String)
    (correlationId : Option UUID) : MessageContext :=
  ⟨raisedBy, some (correlationId.getD minted), none, traceparent, now⟩

/-- `as_raiser`, over the ambient context. -/
def asRaiser (now : AwareDatetime) (raisedBy : String) : Option MessageContext → MessageContext
  | none => ⟨raisedBy, none, none, none, now⟩
  | some base => { base with raisedBy := raisedBy }

/-- Where a request enters, with the headers it brings. -/
inductive Edge
  | rest (correlation traceparent : Option String)
  | grpc (correlation traceparent : Option String)
  | telemetry (raisedBy traceparent : Option String)

/-- The context of the middleware, of a servicer and of the telemetry ingress. -/
def Edge.context (now : AwareDatetime) (minted : UUID) : Edge → MessageContext
  | .rest correlation traceparent => requestContext now minted API_RAISER traceparent (asUuid correlation)
  | .grpc correlation traceparent => requestContext now minted GRPC_RAISER traceparent (asUuid correlation)
  | .telemetry raisedBy traceparent =>
    requestContext now minted ((raisedBy.filter (· ≠ "")).getD TELEMETRY_RAISER) traceparent none

/-- `saga:<id>`. -/
def sagaRaiser (id : UUID) : String := "saga:" ++ uuidStr id

/-- An event some work raises: inside a saga's `acting_as`, which reads the clock at `now`, or outside. -/
structure Raised where
  event : DomainEvent
  saga : Option UUID
  now : AwareDatetime

/-- The context an event is appended under, where `ambient` is bound for the work. -/
def Raised.context (ambient : Option MessageContext) (r : Raised) : Option MessageContext :=
  match r.saga with
  | none => ambient
  | some id => some (asRaiser r.now (sagaRaiser id) ambient)

/-! ## Runs -/

/-- The rows of the outbox and the records on the topics, each in the order they came. -/
structure World where
  outbox : List OutboxModel
  records : List Record

def World.empty : World := ⟨[], []⟩

/-- A request, a background job or a delivery does work and commits the events it raised, which work that
commits several times does several times; a row is published; a record that was delivered is moved aside
and replayed. -/
inductive Action
  | request (edge : Edge) (now : AwareDatetime) (minted : UUID) (raised : List Raised)
  | job (raised : List Raised)
  | relay (row : ℕ)
  | deliver (record : ℕ) (now : AwareDatetime) (raised : List Raised)
  | replay (record : ℕ) (round : Round)

def Action.raised : Action → List Raised
  | .request _ _ _ raised | .job raised | .deliver _ _ raised => raised
  | .relay _ | .replay .. => []

section

variable (modelDump : DomainEvent → Document) (modelValidate : EventType → Json → Option DomainEvent)
  (decodeWide : Encoding → Bytes → Option String) (str : Json → String)

/-- The rows of one unit of work, from the next identifier on. -/
def rowsOf (ambient : Option MessageContext) : ℕ → List Raised → List OutboxModel
  | _, [] => []
  | id, r :: rs => outboxModelFromEvent modelDump id r.event none (r.context ambient) :: rowsOf ambient (id + 1) rs

/-- The commit. An event that is in the outbox already violates its unique key: nothing is written. -/
def commit (w : World) (ambient : Option MessageContext) (raised : List Raised) : World :=
  let outbox := w.outbox ++ rowsOf modelDump ambient (w.outbox.length + 1) raised
  if (outbox.map (·.eventId)).Nodup then { w with outbox := outbox } else w

/-- What a subscriber makes of a record: its handler works under the context it arrived with. -/
def consume (w : World) (r : Record) (now : AwareDatetime) (raised : List Raised) : World :=
  match KafkaMessage.ofRecord r with
  | none => w
  | some message =>
    match decodeMessage (jsonLoads decodeWide) modelValidate now message with
    | .ok (some published) => commit modelDump w (some published.context) raised
    | _ => w

def step (w : World) : Action → Option World
  | .request edge now minted raised => some (commit modelDump w (some (edge.context now minted)) raised)
  | .job raised => some (commit modelDump w none raised)
  | .relay i => w.outbox[i]?.map fun row => { w with records := w.records ++ [publish (outboxMessageFromModel row)] }
  | .deliver i now raised => w.records[i]?.map fun r => consume modelDump modelValidate decodeWide w r now raised
  | .replay i round => w.records[i]?.map fun r =>
    match cycle str r round with
    | .ok (replayed, _) => { w with records := w.records ++ [replayed] }
    | .error _ => w

end

/-! ## Rows in conversation -/

/-- The conversation of a row: the one it names, or the one its event starts. -/
def conversation (row : OutboxModel) : UUID := row.correlationId.getD row.eventId

/-- The row that caused a row, and where the causes of a row end. -/
abbrev CausedBy (w : World) : OutboxModel → OutboxModel → Prop := Lineage.CausedBy (·.eventId) (·.causationId) w.outbox

def origin (w : World) (row : OutboxModel) : OutboxModel := Lineage.origin (·.eventId) (·.causationId) w.outbox row

/-- A row belongs to what another row has begun: its conversation, its trace and the instant its edge saw
the work are the other's, and so is the raiser unless a saga has put its name. -/
structure Continues (row cause : OutboxModel) : Prop where
  conversation : conversation row = conversation cause
  traceparent : row.traceparent = cause.traceparent
  createdAt : row.createdAt = cause.createdAt
  raisedBy : row.raisedBy = cause.raisedBy ∨ ∃ saga, row.raisedBy = some (sagaRaiser saga)

theorem Continues.refl (row : OutboxModel) : Continues row row := ⟨rfl, rfl, rfl, .inl rfl⟩

theorem Continues.trans {a b c : OutboxModel} (hab : Continues a b) (hbc : Continues b c) : Continues a c where
  conversation := hab.conversation.trans hbc.conversation
  traceparent := hab.traceparent.trans hbc.traceparent
  createdAt := hab.createdAt.trans hbc.createdAt
  raisedBy := by
    rcases hab.raisedBy with h | h
    · rw [h]
      exact hbc.raisedBy
    · exact .inr h

section

variable (modelValidate : EventType → Json → Option DomainEvent)

/-- The row is an event's, and somebody is named. -/
structure Carries (row : OutboxModel) (event : DomainEvent) : Prop where
  eventId : row.eventId = event.eventId
  eventName : row.eventName = event.type.name
  topic : row.topic = topicFor event
  partitionKey : row.partitionKey = partitionKeyFor event
  valid : modelValidate event.type row.payload.json = some event
  raised : ∃ raiser, row.raisedBy = some raiser ∧ raiser ≠ ""

/-- The context is bound for work that names its cause, and continues what the cause began. -/
structure Follows (w : World) (context : MessageContext) : Prop where
  raised : context.raisedBy ≠ ""
  cause : ∀ k, context.causationId = some k → ∃ row ∈ w.outbox, row.eventId = k ∧
    context.correlationId = some (conversation row) ∧ context.traceparent = row.traceparent ∧
    context.observedAt = row.createdAt ∧ some context.raisedBy = row.raisedBy

structure Inv (w : World) : Prop where
  linked : Lineage.Linked (·.eventId) (·.causationId) w.outbox
  carries : ∀ row ∈ w.outbox, ∃ event, Carries modelValidate row event
  continues : ∀ row ∈ w.outbox, ∀ cause ∈ w.outbox, row.causationId = some cause.eventId → Continues row cause
  records : ∀ r ∈ w.records, ∃ row ∈ w.outbox, r = publish (outboxMessageFromModel row)

theorem inv_empty : Inv modelValidate World.empty :=
  ⟨Lineage.linked_nil, by simp [World.empty], by simp [World.empty], by simp [World.empty]⟩

/-! ## A unit of work -/

variable {modelDump : DomainEvent → Document} {modelValidate} {w : World} {ambient : Option MessageContext}

theorem mem_rowsOf {row : OutboxModel} : ∀ {raised : List Raised} {id : ℕ}, row ∈ rowsOf modelDump ambient id raised →
    ∃ r ∈ raised, ∃ id, row = outboxModelFromEvent modelDump id r.event none (r.context ambient)
  | r :: rs, id, h => by
    rcases List.mem_cons.1 h with rfl | h
    · exact ⟨r, List.mem_cons_self .., id, rfl⟩
    · obtain ⟨r', hr', hrow⟩ := mem_rowsOf h
      exact ⟨r', List.mem_cons_of_mem _ hr', hrow⟩

/-- What is raised under a context that follows the log continues the cause that is named. -/
theorem continues_cause (hambient : ∀ c, ambient = some c → Follows w c) (r : Raised) (id : ℕ) {k : UUID}
    (hk : (outboxModelFromEvent modelDump id r.event none (r.context ambient)).causationId = some k) :
    ∃ cause ∈ w.outbox, cause.eventId = k ∧
      Continues (outboxModelFromEvent modelDump id r.event none (r.context ambient)) cause := by
  cases ambient with
  | none => cases hsaga : r.saga <;> simp [outboxModelFromEvent, Raised.context, hsaga, asRaiser] at hk
  | some c =>
    have hcause : c.causationId = some k := by
      cases hsaga : r.saga <;> simpa [outboxModelFromEvent, Raised.context, hsaga, asRaiser] using hk
    obtain ⟨cause, hmem, hid, hcorrelation, htrace, hobserved, hraised⟩ := (hambient c rfl).cause k hcause
    refine ⟨cause, hmem, hid, ?_⟩
    cases hsaga : r.saga with
    | none =>
      constructor <;> simp [outboxModelFromEvent, Raised.context, hsaga, conversation, hcorrelation, htrace, hobserved,
        hraised.symm]
    | some saga =>
      constructor <;> simp [outboxModelFromEvent, Raised.context, hsaga, asRaiser, conversation, hcorrelation, htrace, hobserved]

theorem carries_row (hambient : ∀ c, ambient = some c → Follows w c) {r : Raised} (id : ℕ)
    (hvalid : modelValidate r.event.type (modelDump r.event).json = some r.event) :
    Carries modelValidate (outboxModelFromEvent modelDump id r.event none (r.context ambient)) r.event where
  eventId := rfl
  eventName := rfl
  topic := rfl
  partitionKey := rfl
  valid := hvalid
  raised := by
    cases hsaga : r.saga with
    | some saga =>
      refine ⟨sagaRaiser saga, ?_, ?_⟩
      · cases ambient <;> simp [outboxModelFromEvent, Raised.context, hsaga, asRaiser]
      · simp [sagaRaiser]
    | none =>
      cases ambient with
      | none => exact ⟨UNKNOWN_RAISER, by simp [outboxModelFromEvent, Raised.context, hsaga], by decide⟩
      | some c => exact ⟨c.raisedBy, by simp [outboxModelFromEvent, Raised.context, hsaga], (hambient c rfl).raised⟩

theorem inv_commit (h : Inv modelValidate w) (hambient : ∀ c, ambient = some c → Follows w c) {raised : List Raised}
    (hvalid : ∀ r ∈ raised, modelValidate r.event.type (modelDump r.event).json = some r.event) :
    Inv modelValidate (commit modelDump w ambient raised) := by
  unfold commit
  dsimp only
  split
  · rename_i hkeys
    rw [List.map_append, List.nodup_append'] at hkeys
    obtain ⟨-, hnew, hapart⟩ := hkeys
    have hcauses : ∀ row ∈ rowsOf modelDump ambient (w.outbox.length + 1) raised, ∀ k, row.causationId = some k →
        ∃ cause ∈ w.outbox, cause.eventId = k ∧ Continues row cause := by
      intro row hrow k hk
      obtain ⟨r, -, id, rfl⟩ := mem_rowsOf hrow
      exact continues_cause hambient r id hk
    have hlinked := h.linked.append hnew (fun row hrow hold => hapart hold (List.mem_map_of_mem hrow)) fun row hrow k hk => by
      obtain ⟨cause, hmem, rfl, -⟩ := hcauses row hrow k hk
      exact List.mem_map_of_mem hmem
    refine ⟨hlinked, fun row hrow => ?_, fun row hrow cause hcause hk => ?_, fun r hr => ?_⟩
    · rcases List.mem_append.1 hrow with hrow | hrow
      · exact h.carries row hrow
      · obtain ⟨r, hr, id, rfl⟩ := mem_rowsOf hrow
        exact ⟨r.event, carries_row hambient id (hvalid r hr)⟩
    · -- the cause has its event to itself, so it is the one that is named
      have hnamed : ∃ cause' ∈ w.outbox, cause'.eventId = cause.eventId ∧ Continues row cause' := by
        rcases List.mem_append.1 hrow with hrow | hrow
        · obtain ⟨i, hi, rfl⟩ := List.mem_iff_getElem.1 hrow
          obtain ⟨j, cause', -, hcause', hid⟩ := h.linked.earlier i _ (List.getElem?_eq_getElem hi) _ hk
          have hmem := List.mem_of_getElem? hcause'
          exact ⟨cause', hmem, hid, h.continues _ hrow _ hmem (hid ▸ hk)⟩
        · exact hcauses row hrow _ hk
      obtain ⟨cause', hmem, hid, hcontinues⟩ := hnamed
      have hsame : cause' = cause := List.inj_on_of_nodup_map hlinked.keys (List.mem_append_left _ hmem) hcause hid
      exact hsame ▸ hcontinues
    · obtain ⟨row, hrow, heq⟩ := h.records r hr
      exact ⟨row, List.mem_append_left _ hrow, heq⟩
  · exact h

/-! ## Requests and deliveries -/

theorem follows_request (edge : Edge) (now : AwareDatetime) (minted : UUID) : Follows w (edge.context now minted) where
  raised := by
    cases edge with
    | rest => simp [Edge.context, requestContext, API_RAISER]
    | grpc => simp [Edge.context, requestContext, GRPC_RAISER]
    | telemetry raisedBy =>
      show (raisedBy.filter (· ≠ "")).getD TELEMETRY_RAISER ≠ ""
      cases hfilter : raisedBy.filter (· ≠ "") with
      | none => decide
      | some raiser => simpa using (Option.filter_eq_some_iff.1 hfilter).2
  cause := by cases edge <;> simp [Edge.context, requestContext]

/-- The context a row's record arrives with continues the row. -/
theorem follows_arrival {row : OutboxModel} {event : DomainEvent} (hrow : row ∈ w.outbox) (h : Carries modelValidate row event)
    (now : AwareDatetime) : Follows w (arrival now (outboxMessageFromModel row) event.eventId) := by
  obtain ⟨raiser, hraised, hne⟩ := h.raised
  have hraiser : (arrival now (outboxMessageFromModel row) event.eventId).raisedBy = raiser := by
    unfold arrival outboxMessageFromModel
    rw [hraised]
    exact filter_raiser hne
  refine ⟨hraiser ▸ hne, fun k hk => ⟨row, hrow, ?_, ?_, rfl, rfl, ?_⟩⟩
  · rw [h.eventId]
    exact Option.some.inj hk
  · rw [conversation, h.eventId]
    rfl
  · rw [hraiser, hraised]

variable {decodeWide : Encoding → Bytes → Option String}

theorem inv_consume (h : Inv modelValidate w) {r : Record} (hr : r ∈ w.records) (now : AwareDatetime) {raised : List Raised}
    (hvalid : ∀ r ∈ raised, modelValidate r.event.type (modelDump r.event).json = some r.event) :
    Inv modelValidate (consume modelDump modelValidate decodeWide w r now raised) := by
  obtain ⟨row, hrow, rfl⟩ := h.records r hr
  obtain ⟨event, hcarries⟩ := h.carries row hrow
  unfold consume
  rw [ofRecord_publish]
  dsimp only
  rw [decodeMessage_deliveryOf hcarries.eventName hcarries.valid]
  refine inv_commit h ?_ hvalid
  rintro c ⟨⟩
  exact follows_arrival hrow hcarries now

/-! ## Replays -/

/-- What is published for a row, as a message of text. -/
def textOf (row : OutboxModel) (hnamed : row.topic ≠ "") : TextMessage :=
  ⟨row.topic, hnamed, some row.partitionKey, serialize (outboxMessageFromModel row), headersFor (outboxMessageFromModel row)⟩

/-- The headers name the event, and none of them is one of the dead-letter topic. -/
theorem headersFor_spec (message : OutboxMessage) :
    (headersFor message).get? HEADER_EVENT_ID = some (String.ofList message.eventId.str) ∧
      ∀ name ∈ DLQ_HEADERS, name ∉ (headersFor message).keys := by
  refine ⟨?_, fun name hname => Dict.get?_eq_none.1 ?_⟩
  · simp [headersFor, uuidStr, Dict.get?_setSome, Dict.ofList, Dict.get?_set, HEADER_EVENT_NAME, HEADER_EVENT_ID,
      HEADER_SCHEMA_VERSION, HEADER_CORRELATION_ID, HEADER_CAUSATION_ID, HEADER_RAISED_BY, HEADER_TRACEPARENT, HEADER_OCCURRED_AT]
  · simp only [DLQ_HEADERS, List.mem_cons, List.not_mem_nil, or_false] at hname
    rcases hname with rfl | rfl | rfl <;>
      simp [headersFor, Dict.get?_setSome, Dict.ofList, Dict.get?_set, HEADER_EVENT_NAME, HEADER_EVENT_ID, HEADER_SCHEMA_VERSION,
        HEADER_CORRELATION_ID, HEADER_CAUSATION_ID, HEADER_RAISED_BY, HEADER_TRACEPARENT, HEADER_OCCURRED_AT,
        HEADER_CONSUMER_GROUP, HEADER_ORIGINAL_TOPIC, HEADER_ERROR]

theorem topicFor_ne (event : DomainEvent) : topicFor event ≠ "" := by
  have hall : ∀ t : EventType, t.topic ≠ "" := by
    rintro ⟨⟩ <;> decide
  exact hall event.type

theorem partitionKeyFor_ne (event : DomainEvent) : partitionKeyFor event ≠ "" := by
  unfold partitionKeyFor
  rw [Ne, String.ofList_eq_empty_iff]
  refine List.ne_nil_of_length_pos ?_
  simp only [UUID.str, List.length_append, List.length_cons]
  omega

/-- A record that is moved aside and replayed is put back as it was. -/
theorem cycle_publish {str : Json → String} {row : OutboxModel} {event : DomainEvent} (h : Carries modelValidate row event)
    (round : Round) : ∃ l, cycle str (publish (outboxMessageFromModel row)) round = .ok (publish (outboxMessageFromModel row), l) := by
  have hnamed : row.topic ≠ "" := h.topic ▸ topicFor_ne event
  obtain ⟨heventId, havoid⟩ := headersFor_spec (outboxMessageFromModel row)
  refine ⟨_, cycle_same (m := textOf row hnamed) ?_ heventId havoid round⟩
  rintro hkey
  exact partitionKeyFor_ne event (h.partitionKey ▸ Option.some.inj hkey)

/-! ## The run -/

variable {str : Json → String}

theorem inv_record (h : Inv modelValidate w) {row : OutboxModel} (hrow : row ∈ w.outbox) :
    Inv modelValidate { w with records := w.records ++ [publish (outboxMessageFromModel row)] } := by
  refine ⟨h.linked, h.carries, h.continues, fun r hr => ?_⟩
  rcases List.mem_append.1 hr with hr | hr
  · exact h.records r hr
  · exact ⟨row, hrow, List.mem_singleton.1 hr⟩

theorem inv_step {a : Action} {w' : World} (h : Inv modelValidate w)
    (hvalid : ∀ r ∈ a.raised, modelValidate r.event.type (modelDump r.event).json = some r.event)
    (hs : step modelDump modelValidate decodeWide str w a = some w') : Inv modelValidate w' := by
  cases a with
  | request edge now minted raised =>
    cases hs
    refine inv_commit h ?_ hvalid
    rintro c ⟨⟩
    exact follows_request edge now minted
  | job raised =>
    cases hs
    exact inv_commit h (by simp) hvalid
  | relay i =>
    obtain ⟨row, hrow, rfl⟩ := Option.map_eq_some_iff.1 hs
    exact inv_record h (List.mem_of_getElem? hrow)
  | deliver i now raised =>
    obtain ⟨r, hr, rfl⟩ := Option.map_eq_some_iff.1 hs
    exact inv_consume h (List.mem_of_getElem? hr) now hvalid
  | replay i round =>
    obtain ⟨r, hr, rfl⟩ := Option.map_eq_some_iff.1 hs
    obtain ⟨row, hrow, rfl⟩ := h.records r (List.mem_of_getElem? hr)
    obtain ⟨event, hcarries⟩ := h.carries row hrow
    obtain ⟨l, hcycle⟩ := cycle_publish hcarries round
    rw [hcycle]
    exact inv_record h hrow

end

/-- A request for a synchronisation, by its identifier. -/
def syncOf (id : UUID) : DomainEvent := { syncRequested with eventId := id }

def syncOfDocument (event : DomainEvent) : Document where
  members := [("event_id", .str (String.ofList event.eventId.str))]
  proper := by simp [Json.Proper, Json.ProperMembers]

def syncOfJson : Json → Option DomainEvent
  | .obj [(_, .str text)] => (UUID.ofText text.toList).map syncOf
  | _ => none

theorem syncOf_valid (id : UUID) : syncOfJson (syncOfDocument (syncOf id)).json = some (syncOf id) := by
  simp [syncOfJson, syncOfDocument, Document.json, syncOf, UUID.ofText_str]

def syncId (id : Fin 16) : UUID := ⟨id, Nat.lt_trans id.isLt (by decide)⟩

/-- A request joins no conversation and its event is handled by a saga, after a replay; what the saga has
raised is handled in turn. -/
def handledInTurn : List Action :=
  let now := syncRequested.occurredAt
  [.request (.rest none (some "00-trace-01")) now (syncId 5) [⟨syncOf (syncId 1), none, now⟩], .relay 0,
    .replay 0 ⟨"saga", "timeout", 0, ⟨[], [], by simp⟩⟩, .deliver 1 now [⟨syncOf (syncId 2), some (syncId 7), now⟩], .relay 1,
    .deliver 2 now [⟨syncOf (syncId 3), none, now⟩]]

theorem run_handledInTurn :
    (run (step syncOfDocument (fun _ => syncOfJson) (fun _ _ => none) fun _ => "") World.empty handledInTurn).map
      (·.outbox.length) = some 3 := by
  decide +kernel

end Plantkeeper.Messaging.Conversations
