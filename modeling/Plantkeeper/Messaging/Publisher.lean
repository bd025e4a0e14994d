/-
From an event to the wire: the outbox row that freezes its topic, its key and its provenance, the message
the relay reads from the row, and the record the publisher writes. What a consumer decodes is the event, in
the conversation the row names and caused by itself.
-/
import Plantkeeper.Messaging.Decoding

namespace Plantkeeper.Messaging

open Utf8 (Bytes)

/-- A row of `write_shared.outbox`, as far as a message is made from it. -/
structure OutboxModel where
  id : ℕ
  eventId : UUID
  eventName : String
  topic : String
  partitionKey : String
  payload : Document
  occurredAt : AwareDatetime
  createdAt : AwareDatetime
  attempts : ℕ
  schemaVersion : ℕ
  raisedBy : Option String
  correlationId : Option UUID
  causationId : Option UUID
  traceparent : Option String
  claimedAt : Option AwareDatetime

structure OutboxMessage where
  outboxId : ℕ
  eventId : UUID
  eventName : String
  topic : String
  partitionKey : String
  payload : Document
  attempts : ℕ
  schemaVersion : ℕ
  raisedBy : Option String
  correlationId : Option UUID
  causationId : Option UUID
  traceparent : Option String
  observedAt : Option AwareDatetime
  claimedAt : Option AwareDatetime

/-- `outbox_model_from_event`, under the context it is given or else the ambient one. `modelDump` is the
event's own document and `id` what the database gives the row. -/
def outboxModelFromEvent (modelDump : DomainEvent → Document) (id : ℕ) (event : DomainEvent)
    (context ambient : Option MessageContext) : OutboxModel :=
  let provenance := context.or ambient
  { id := id
    eventId := event.eventId
    eventName := event.type.name
    topic := topicFor event
    partitionKey := partitionKeyFor event
    payload := modelDump event
    occurredAt := event.occurredAt
    -- every event one delivery raises has the instant its edge observed
    createdAt := (provenance.map MessageContext.observedAt).getD event.occurredAt
    attempts := 0
    schemaVersion := SCHEMA_VERSION
    raisedBy := some ((provenance.map MessageContext.raisedBy).getD UNKNOWN_RAISER)
    correlationId := provenance.bind MessageContext.correlationId
    causationId := provenance.bind MessageContext.causationId
    traceparent := provenance.bind MessageContext.traceparent
    claimedAt := none }

/-- `outbox_message_from_model`. -/
def outboxMessageFromModel (model : OutboxModel) : OutboxMessage where
  outboxId := model.id
  eventId := model.eventId
  eventName := model.eventName
  topic := model.topic
  partitionKey := model.partitionKey
  payload := model.payload
  attempts := model.attempts
  schemaVersion := model.schemaVersion
  raisedBy := model.raisedBy
  correlationId := model.correlationId
  causationId := model.causationId
  traceparent := model.traceparent
  observedAt := some model.createdAt
  claimedAt := model.claimedAt

/-! ## Publishing -/

/-- `str(…)` of an identifier. -/
def uuidStr (u : UUID) : String := String.ofList u.str

/-- `headers_for`. -/
def headersFor (message : OutboxMessage) : Dict String String :=
  let headers := Dict.ofList [(HEADER_EVENT_NAME, message.eventName), (HEADER_EVENT_ID, uuidStr message.eventId),
    (HEADER_SCHEMA_VERSION, toString message.schemaVersion)]
  -- the optional ones, in the order of the publisher
  let headers := headers.setSome HEADER_CORRELATION_ID (message.correlationId.map uuidStr)
  let headers := headers.setSome HEADER_CAUSATION_ID (message.causationId.map uuidStr)
  let headers := headers.setSome HEADER_RAISED_BY message.raisedBy
  let headers := headers.setSome HEADER_TRACEPARENT message.traceparent
  headers.setSome HEADER_OCCURRED_AT (message.observedAt.map fun d => String.ofList d.datetime.isoformat)

/-- `_serialize`. -/
def serialize (message : OutboxMessage) : String := String.ofList message.payload.json.dumps

/-- `publish`: the record it appends. -/
def publish (message : OutboxMessage) : Record where
  topic := message.topic
  key := some (encode message.partitionKey)
  value := some (encode (serialize message))
  headers := encodeHeaders (headersFor message)

/-! ## What is published is decoded -/

theorem asUuid_uuidStr (id : Option UUID) : asUuid (id.map uuidStr) = id := by
  cases id with
  | none => rfl
  | some u => simp [asUuid, uuidStr, UUID.ofText_str]

theorem asDatetime_isoformat (d : Option AwareDatetime) :
    asDatetime (d.map fun d => String.ofList d.datetime.isoformat) = d.map AwareDatetime.datetime := by
  cases d with
  | none => rfl
  | some d => simp [asDatetime, fromisoformat_isoformat]

/-- What starts with a brace and another character of ASCII is no wide encoding. -/
theorem detectEncoding_brace {b : UInt8} (hb : b ≠ 0) (rest : Bytes) : detectEncoding (0x7b :: b :: rest) = .utf8 := by
  unfold detectEncoding
  cases rest with
  | nil => simp [hb]
  | cons b₂ rest => cases rest <;> simp [hb]

theorem detectEncoding_dumps (d : Document) : detectEncoding (encode (String.ofList d.json.dumps)) = .utf8 := by
  have hencode : ∀ cs, encode (String.ofList ('{' :: cs)) = 0x7b :: Utf8.encode cs := by
    intro cs
    rw [encode, String.toList_ofList]
    rfl
  unfold Document.json Json.dumps
  cases d.members with
  | nil => exact detectEncoding_brace (b := 0x7d) (by decide) []
  | cons m l =>
    obtain ⟨cs, hcs⟩ : ∃ cs, Json.dumpsMembers (m :: l) = '"' :: cs := by
      have hhead := Json.head_dumpsMembers m l
      cases h : Json.dumpsMembers (m :: l) with
      | nil =>
        rw [h] at hhead
        cases hhead
      | cons c cs =>
        rw [h] at hhead
        cases hhead
        exact ⟨cs, rfl⟩
    -- the bytes start with a brace and a quote
    rw [hcs, List.cons_append, hencode]
    exact detectEncoding_brace (b := 0x22) (by decide) _

/-- A document is read back from its bytes. -/
theorem jsonLoads_encode (decodeWide : Encoding → Bytes → Option String) (d : Document) :
    jsonLoads decodeWide (.inl (encode (String.ofList d.json.dumps))) = .ok d.json := by
  have hloads : Json.loads d.json.dumps = some d.json := Json.loads_dumps d.proper
  unfold jsonLoads
  simp only [detectEncoding_dumps, if_true, decode_encode, Option.bind_some, String.toList_ofList, hloads]

/-! ## The round trip -/

/-- The delivery of a published message. -/
def deliveryOf (message : OutboxMessage) : KafkaMessage Json :=
  ⟨publish message, .bytes (encode (serialize message)), (headersFor message).mapValues HeaderValue.text⟩

theorem ofRecord_publish (message : OutboxMessage) : KafkaMessage.ofRecord (publish message) = some (deliveryOf message) :=
  ofRecord_encode rfl rfl

section

variable {message : OutboxMessage}

theorem get?_deliveryOf (name : String) : (deliveryOf message).headers.get? name = ((headersFor message).get? name).map .text :=
  Dict.get?_mapValues ..

/-- Its headers are text. -/
theorem readable_deliveryOf (name : String) : Readable (deliveryOf message) name := by
  intro b h
  rw [get?_deliveryOf] at h
  obtain ⟨s, -, hs⟩ := Option.map_eq_some_iff.1 h
  cases hs

theorem headerText_deliveryOf (name : String) : headerText (deliveryOf message) name = (headersFor message).get? name := by
  unfold headerText readHeader
  rw [get?_deliveryOf]
  cases (headersFor message).get? name <;> rfl

/-- Every header is the field that it is made from. -/
theorem get?_headersFor (message : OutboxMessage) : (headersFor message).get? HEADER_EVENT_NAME = some message.eventName ∧
    (headersFor message).get? HEADER_RAISED_BY = message.raisedBy ∧
    (headersFor message).get? HEADER_CORRELATION_ID = message.correlationId.map uuidStr ∧
    (headersFor message).get? HEADER_TRACEPARENT = message.traceparent ∧
    (headersFor message).get? HEADER_OCCURRED_AT = message.observedAt.map fun d => String.ofList d.datetime.isoformat := by
  unfold headersFor
  refine ⟨?_, ?_, ?_, ?_, ?_⟩
  all_goals simp [Dict.get?_setSome, Dict.ofList, Dict.get?_set, HEADER_EVENT_NAME, HEADER_EVENT_ID, HEADER_SCHEMA_VERSION,
    HEADER_CORRELATION_ID, HEADER_CAUSATION_ID, HEADER_RAISED_BY, HEADER_TRACEPARENT, HEADER_OCCURRED_AT]

/-- The provenance of a message, where it arrives with its event. -/
def arrival (now : AwareDatetime) (message : OutboxMessage) (eventId : UUID) : MessageContext where
  raisedBy := (message.raisedBy.filter (· ≠ "")).getD UNKNOWN_RAISER
  correlationId := some (message.correlationId.getD eventId)
  causationId := some eventId
  traceparent := message.traceparent
  observedAt := message.observedAt.getD now

theorem repaired_deliveryOf (now : AwareDatetime) (eventId : UUID) :
    repaired now (deliveryOf message) eventId = arrival now message eventId := by
  obtain ⟨-, hraised, hcorrelation, htrace, hoccurred⟩ := get?_headersFor message
  unfold repaired arrival
  simp only [headerText_deliveryOf, hraised, hcorrelation, htrace, hoccurred, asUuid_uuidStr, asDatetime_isoformat]
  cases message.observedAt with
  | none => rfl
  | some d => simp [AwareDatetime.of_datetime]

variable {event : DomainEvent} {modelValidate : EventType → Json → Option DomainEvent}

/-- A message that is an event's is decoded as the event. -/
theorem decodeMessage_deliveryOf (hname : message.eventName = event.type.name)
    (hvalid : modelValidate event.type message.payload.json = some event) (decodeWide : Encoding → Bytes → Option String)
    (now : AwareDatetime) : decodeMessage (jsonLoads decodeWide) modelValidate now (deliveryOf message) =
      .ok (some ⟨event, arrival now message event.eventId⟩) := by
  have hbody : readBody (jsonLoads decodeWide) (deliveryOf message) = .ok message.payload.json := by
    unfold readBody deliveryOf serialize
    exact jsonLoads_encode decodeWide message.payload
  have hnames : Names (deliveryOf message) event.type := by
    unfold Names
    rw [headerText_deliveryOf, (get?_headersFor message).1, hname, Option.bind_some, eventTypeFor_name]
  have hrepairable : Repairable (deliveryOf message) := by
    refine ⟨readable_deliveryOf _, readable_deliveryOf _, readable_deliveryOf _, readable_deliveryOf _, ?_⟩
    rw [headerText_deliveryOf, (get?_headersFor message).2.2.2.2, asDatetime_isoformat]
    rintro d hd
    obtain ⟨d, -, rfl⟩ := Option.map_eq_some_iff.1 hd
    exact d.aware
  have htolerable : Tolerable (jsonLoads decodeWide) modelValidate (deliveryOf message) := by
    refine ⟨readable_deliveryOf _, readable_deliveryOf _, fun _ _ => ?_, fun _ _ => hrepairable⟩
    rw [hbody]
    rintro ⟨⟩
  rw [htolerable.decodeMessage_eq ⟨event.type, _, hnames, hbody, hvalid⟩, repaired_deliveryOf]

end

theorem filter_raiser {raiser : String} (h : raiser ≠ "") : ((some raiser).filter (· ≠ "")).getD UNKNOWN_RAISER = raiser := by
  simp [Option.filter, h]

/-- Whatever the event and the context it is appended under, the record published for it is delivered and
decoded as the same event, in the row's conversation or one of its own, caused by itself, and with the
raiser, the trace and the instant of the context. -/
theorem wire_roundTrip (modelDump : DomainEvent → Document) (modelValidate : EventType → Json → Option DomainEvent)
    (decodeWide : Encoding → Bytes → Option String) (now : AwareDatetime) (id : ℕ) (claimedAt : Option AwareDatetime)
    (event : DomainEvent) (context ambient : Option MessageContext)
    (hinverse : modelValidate event.type (modelDump event).json = some event)
    (hraiser : ∀ provenance, context.or ambient = some provenance → provenance.raisedBy ≠ "") :
    let provenance := context.or ambient
    let row : OutboxModel := { outboxModelFromEvent modelDump id event context ambient with claimedAt }
    ∃ delivery, KafkaMessage.ofRecord (publish (outboxMessageFromModel row)) = some delivery ∧
      decodeMessage (jsonLoads decodeWide) modelValidate now delivery = .ok (some
        { event := event
          context :=
            { raisedBy := (provenance.map MessageContext.raisedBy).getD UNKNOWN_RAISER
              correlationId := some (row.correlationId.getD event.eventId)
              causationId := some event.eventId
              traceparent := provenance.bind MessageContext.traceparent
              observedAt := (provenance.map MessageContext.observedAt).getD event.occurredAt } }) := by
  intro provenance row
  refine ⟨deliveryOf (outboxMessageFromModel row), ofRecord_publish (outboxMessageFromModel row), ?_⟩
  -- an unknown raiser and a bound one are both non-empty, so the decoder takes the header as it is
  have hbound : (provenance.map MessageContext.raisedBy).getD UNKNOWN_RAISER ≠ "" := by
    cases hprovenance : provenance with
    | none => decide
    | some p => exact hraiser p hprovenance
  have hraised : ((outboxMessageFromModel row).raisedBy.filter (· ≠ "")).getD UNKNOWN_RAISER =
      (provenance.map MessageContext.raisedBy).getD UNKNOWN_RAISER := filter_raiser hbound
  have hdecoded := decodeMessage_deliveryOf (show (outboxMessageFromModel row).eventName = event.type.name from rfl) hinverse decodeWide now
  rw [hdecoded, arrival, hraised]
  rfl

theorem wire_roundTrip_syncRequested :
    let scheduler : MessageContext := ⟨"system:scheduler", none, none, none, syncRequested.occurredAt⟩
    let row := outboxModelFromEvent (fun _ => syncDocument) 12 syncRequested (some scheduler) none
    ∃ delivery, KafkaMessage.ofRecord (publish (outboxMessageFromModel row)) = some delivery ∧
      decodeMessage (jsonLoads fun _ _ => none) (fun _ _ => some syncRequested) syncRequested.occurredAt delivery =
        .ok (some ⟨syncRequested, ⟨"system:scheduler", some syncRequested.eventId, some syncRequested.eventId, none,
          syncRequested.occurredAt⟩⟩) :=
  wire_roundTrip (fun _ => syncDocument) (fun _ _ => some syncRequested) (fun _ _ => none) syncRequested.occurredAt 12 none
    syncRequested _ none rfl (by
      rintro provenance hprovenance
      cases hprovenance
      decide)

end Plantkeeper.Messaging
