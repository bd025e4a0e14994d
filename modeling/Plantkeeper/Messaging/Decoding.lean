/-
Turning a delivery back into an event with its provenance. A delivery whose type or body is wrong is
skipped and a malformed provenance header is to be repaired. Three things escape all the same: a header
that is bytes but no text, an `occurred_at` header without an offset, and a body nested too deep to parse.
-/
import Plantkeeper.Lib.Fold
import Plantkeeper.Messaging.DeadLetter
import Plantkeeper.Messaging.Events

namespace Plantkeeper.Messaging

open Fold (bind_eq_ok)
open Utf8 (Bytes)

def HEADER_CORRELATION_ID : String := "correlation_id"
def HEADER_CAUSATION_ID : String := "causation_id"
def HEADER_RAISED_BY : String := "raised_by"
def HEADER_SCHEMA_VERSION : String := "schema_version"
def HEADER_TRACEPARENT : String := "traceparent"
def HEADER_OCCURRED_AT : String := "occurred_at"

/-- What `json.loads` raises: a `ValueError`, or a `RecursionError`, which is none. -/
inductive LoadsError
  | valueError
  | recursionError
  deriving DecidableEq, Repr

inductive Encoding
  | utf8 | utf8sig | utf16 | utf16be | utf16le | utf32 | utf32be | utf32le
  deriving DecidableEq, Repr

/-- `json.detect_encoding`: by the byte order mark, or by where the first zeros are. -/
def detectEncoding (b : Bytes) : Encoding :=
  if [0, 0, 0xfe, 0xff].isPrefixOf b || [0xff, 0xfe, 0, 0].isPrefixOf b then .utf32
  else if [0xfe, 0xff].isPrefixOf b || [0xff, 0xfe].isPrefixOf b then .utf16
  else if [0xef, 0xbb, 0xbf].isPrefixOf b then .utf8sig
  else
    match b with
    | b₀ :: b₁ :: b₂ :: b₃ :: _ =>
      if b₀ = 0 then if b₁ ≠ 0 then .utf16be else .utf32be
      else if b₁ = 0 then if b₂ ≠ 0 ∨ b₃ ≠ 0 then .utf16le else .utf32le
      else .utf8
    | [b₀, b₁] => if b₀ = 0 then .utf16be else if b₁ = 0 then .utf16le else .utf8
    | _ => .utf8

/-- `json.loads` of a document that is not nested too deep; `decodeWide` is the codec of the other encodings. -/
def jsonLoads (decodeWide : Encoding → Bytes → Option String) (raw : Bytes ⊕ String) : Except LoadsError Json :=
  let text :=
    match raw with
    | .inl b => if detectEncoding b = Encoding.utf8 then decode .strict b else decodeWide (detectEncoding b) b
    | .inr s => some s
  match text.bind fun s => Json.loads s.toList with
  | some j => .ok j
  | none => .error .valueError

/-- What can come out of the decoder in place of a result. -/
inductive Raised
  | unicodeDecodeError
  | recursionError
  | validationError
  deriving DecidableEq, Repr

/-- One delivery's event and the provenance it arrived with. -/
structure PublishedMessage where
  event : DomainEvent
  context : MessageContext

section

variable {J : Type}

/-- `read_header`: bytes are decoded strictly. -/
def readHeader (message : KafkaMessage J) (name : String) : Except Raised (Option String) :=
  match message.headers.get? name with
  | none => .ok none
  | some (.text s) => .ok (some s)
  | some (.bytes b) =>
    match decode .strict b with
    | some s => .ok (some s)
    | none => .error .unicodeDecodeError

/-- `_as_uuid`. -/
def asUuid (raw : Option String) : Option UUID := raw.bind fun raw => UUID.ofText raw.toList

/-- `_as_datetime`. -/
def asDatetime (raw : Option String) : Option DateTime := raw.bind fun raw => fromisoformat raw.toList

/-- `provenance_of`; `now` is the clock's. -/
def provenanceOf (now : AwareDatetime) (message : KafkaMessage J) (eventId : UUID) : Except Raised MessageContext := do
  let raisedBy ← readHeader message HEADER_RAISED_BY
  let correlationId ← readHeader message HEADER_CORRELATION_ID
  let traceparent ← readHeader message HEADER_TRACEPARENT
  let occurredAt ← readHeader message HEADER_OCCURRED_AT
  -- `or UNKNOWN_RAISER`: an empty header counts as an absent one
  match reactionContext now ((raisedBy.filter (· ≠ "")).getD UNKNOWN_RAISER) eventId (asUuid correlationId) traceparent
      (asDatetime occurredAt) with
  | some context => .ok context
  | none => .error .validationError

-- `json.loads` of bytes or of a text, and `model_validate`, where `none` is its `ValidationError`
variable (loads : Bytes ⊕ String → Except LoadsError J) (modelValidate : EventType → J → Option DomainEvent)

/-- `read_body`. -/
def readBody (message : KafkaMessage J) : Except LoadsError J :=
  match message.body with
  | .bytes b => loads (.inl b)
  | .text s => loads (.inr s)
  | .document j => .ok j

/-- `decode_event`. Only a `ValueError` of the body is caught. -/
def decodeEvent (message : KafkaMessage J) : Except Raised (Option DomainEvent) := do
  let eventName ← readHeader message HEADER_EVENT_NAME
  -- for the log only, but it is read outside every `try`
  let _eventId ← readHeader message HEADER_EVENT_ID
  match eventName.bind eventTypeFor with
  | none => .ok none
  | some model =>
    match readBody loads message with
    -- `except ValueError`
    | .error .valueError => .ok none
    | .error .recursionError => .error .recursionError
    | .ok document => .ok (modelValidate model document)

/-- `decode_message`. -/
def decodeMessage (now : AwareDatetime) (message : KafkaMessage J) : Except Raised (Option PublishedMessage) := do
  match ← decodeEvent loads modelValidate message with
  | none => .ok none
  | some event => return some ⟨event, ← provenanceOf now message event.eventId⟩

end

/-! ## Headers as text -/

section

variable {J : Type} {message : KafkaMessage J} {name : String}

/-- The text of a header that has one. -/
def headerText (message : KafkaMessage J) (name : String) : Option String :=
  match readHeader message name with
  | .ok text => text
  | .error _ => none

/-- The header is absent, a text, or the bytes of one. -/
def Readable (message : KafkaMessage J) (name : String) : Prop :=
  ∀ b, message.headers.get? name = some (.bytes b) → (decode .strict b).isSome = true

/-- A header is read, as its text, exactly when it is readable. -/
theorem readHeader_eq_ok {text : Option String} :
    readHeader message name = .ok text ↔ Readable message name ∧ text = headerText message name := by
  unfold headerText Readable readHeader
  cases h : message.headers.get? name with
  | none => simp only [Except.ok.injEq, reduceCtorEq, false_implies, implies_true, true_and, eq_comm]
  | some v =>
    cases v with
    | text s => simp only [Except.ok.injEq, Option.some.injEq, reduceCtorEq, false_implies, implies_true, true_and, eq_comm]
    | bytes b =>
      simp only [Option.some.injEq, HeaderValue.bytes.injEq, forall_eq']
      cases decode .strict b with
      | none => simp
      | some s => simp only [Except.ok.injEq, Option.isSome_some, true_and, eq_comm]

end

/-! ## When the decoder keeps its word -/

section

variable {J : Type} {loads : Bytes ⊕ String → Except LoadsError J} {modelValidate : EventType → J → Option DomainEvent}
  {now : AwareDatetime} {message : KafkaMessage J}

/-- The provenance with every absent or malformed header replaced by its default. -/
def repaired (now : AwareDatetime) (message : KafkaMessage J) (eventId : UUID) : MessageContext where
  raisedBy := ((headerText message HEADER_RAISED_BY).filter (· ≠ "")).getD UNKNOWN_RAISER
  correlationId := some ((asUuid (headerText message HEADER_CORRELATION_ID)).getD eventId)
  causationId := some eventId
  traceparent := headerText message HEADER_TRACEPARENT
  observedAt := ((asDatetime (headerText message HEADER_OCCURRED_AT)).bind AwareDatetime.of).getD now

/-- The delivery names an event of the catalogue. -/
def Names (message : KafkaMessage J) (model : EventType) : Prop :=
  (headerText message HEADER_EVENT_NAME).bind eventTypeFor = some model

/-- The body is one of the event that the delivery names. -/
def Carries (loads : Bytes ⊕ String → Except LoadsError J) (modelValidate : EventType → J → Option DomainEvent)
    (message : KafkaMessage J) (event : DomainEvent) : Prop :=
  ∃ model document, Names message model ∧ readBody loads message = .ok document ∧ modelValidate model document = some event

/-- The decoder raises nothing, and what it makes of a good delivery has its provenance repaired. -/
structure KeepsItsWord (loads : Bytes ⊕ String → Except LoadsError J) (modelValidate : EventType → J → Option DomainEvent)
    (now : AwareDatetime) (message : KafkaMessage J) : Prop where
  returns : ∃ result, decodeMessage loads modelValidate now message = .ok result
  repairs : ∀ event, Carries loads modelValidate message event →
    decodeMessage loads modelValidate now message = .ok (some ⟨event, repaired now message event.eventId⟩)

/-- The provenance headers are texts, and the instant among them, if it is one, has an offset. -/
structure Repairable (message : KafkaMessage J) : Prop where
  raisedBy : Readable message HEADER_RAISED_BY
  correlationId : Readable message HEADER_CORRELATION_ID
  traceparent : Readable message HEADER_TRACEPARENT
  occurredAt : Readable message HEADER_OCCURRED_AT
  aware : ∀ d, asDatetime (headerText message HEADER_OCCURRED_AT) = some d → d.offset.isSome = true

/-- Nothing of the delivery that is looked at escapes the decoder. -/
structure Tolerable (loads : Bytes ⊕ String → Except LoadsError J) (modelValidate : EventType → J → Option DomainEvent)
    (message : KafkaMessage J) : Prop where
  eventName : Readable message HEADER_EVENT_NAME
  eventId : Readable message HEADER_EVENT_ID
  body : ∀ model, Names message model → readBody loads message ≠ .error .recursionError
  provenance : ∀ event, Carries loads modelValidate message event → Repairable message

/-- A context is built exactly when the instant, if there is one, has an offset. -/
theorem reactionContext_eq_some {raisedBy : String} {eventId : UUID} {correlationId : Option UUID} {traceparent : Option String}
    {observedAt : Option DateTime} {context : MessageContext} :
    reactionContext now raisedBy eventId correlationId traceparent observedAt = some context ↔
      (∀ d, observedAt = some d → d.offset.isSome = true) ∧
        context = ⟨raisedBy, some (correlationId.getD eventId), some eventId, traceparent,
          (observedAt.bind AwareDatetime.of).getD now⟩ := by
  unfold reactionContext
  cases observedAt with
  | none =>
    rw [Option.getD_none, AwareDatetime.of_datetime, Option.map_some, Option.some.injEq]
    constructor
    · rintro rfl
      exact ⟨by simp, rfl⟩
    · rintro ⟨-, rfl⟩
      rfl
  | some d =>
    rw [Option.getD_some, Option.bind_some]
    by_cases hd : d.offset.isSome = true
    · rw [show AwareDatetime.of d = some ⟨d, hd⟩ from dif_pos hd, Option.map_some, Option.some.injEq]
      constructor
      · rintro rfl
        exact ⟨by simpa using hd, rfl⟩
      · rintro ⟨-, rfl⟩
        rfl
    · rw [show AwareDatetime.of d = none from dif_neg hd, Option.map_none]
      constructor
      · rintro ⟨⟩
      · rintro ⟨haware, -⟩
        exact absurd (haware d rfl) hd

/-- The provenance is built, repaired, exactly when it can be. -/
theorem provenanceOf_eq_ok {eventId : UUID} {context : MessageContext} : provenanceOf now message eventId = .ok context ↔
    Repairable message ∧ context = repaired now message eventId := by
  have hcontext : ∀ {c : Option MessageContext}, (match c with
      | some context => Except.ok context
      | none => .error Raised.validationError) = .ok context ↔ c = some context := by
    intro c
    cases c <;> simp
  unfold provenanceOf
  simp only [bind_eq_ok, readHeader_eq_ok, hcontext, reactionContext_eq_some]
  constructor
  · rintro ⟨_, ⟨hraised, rfl⟩, _, ⟨hcorrelation, rfl⟩, _, ⟨htrace, rfl⟩, _, ⟨hoccurred, rfl⟩, haware, rfl⟩
    exact ⟨⟨hraised, hcorrelation, htrace, hoccurred, haware⟩, rfl⟩
  · rintro ⟨h, rfl⟩
    exact ⟨_, ⟨h.raisedBy, rfl⟩, _, ⟨h.correlationId, rfl⟩, _, ⟨h.traceparent, rfl⟩, _, ⟨h.occurredAt, rfl⟩, h.aware, rfl⟩

theorem carries_iff {model : EventType} (h : Names message model) {event : DomainEvent} :
    Carries loads modelValidate message event ↔
      ∃ document, readBody loads message = .ok document ∧ modelValidate model document = some event := by
  unfold Names at h
  constructor
  · rintro ⟨model', document, hname, hbody, hvalid⟩
    unfold Names at hname
    rw [h, Option.some.injEq] at hname
    subst hname
    exact ⟨document, hbody, hvalid⟩
  · rintro ⟨document, hbody, hvalid⟩
    exact ⟨model, document, h, hbody, hvalid⟩

/-- The two headers are read whatever the body is; then an event comes out exactly when one is carried. -/
theorem decodeEvent_eq_ok {result : Option DomainEvent} : decodeEvent loads modelValidate message = .ok result ↔
    (Readable message HEADER_EVENT_NAME ∧ Readable message HEADER_EVENT_ID ∧
      ∀ model, Names message model → readBody loads message ≠ .error .recursionError) ∧
        ∀ event, result = some event ↔ Carries loads modelValidate message event := by
  unfold decodeEvent
  simp only [bind_eq_ok, readHeader_eq_ok, and_assoc, exists_and_left, exists_eq_left]
  refine and_congr_right fun _ => and_congr_right fun _ => ?_
  cases hmodel : (headerText message HEADER_EVENT_NAME).bind eventTypeFor with
  | none =>
    -- no event is named
    have hnames : ∀ model, ¬Names message model := by
      intro model h
      unfold Names at h
      rw [hmodel] at h
      cases h
    have hcarries : ∀ event, ¬Carries loads modelValidate message event := by
      rintro event ⟨model, _, h, -⟩
      exact hnames model h
    cases result <;> simp [hnames, hcarries]
  | some model =>
    have hnames : Names message model := hmodel
    have honly : ∀ model', Names message model' ↔ model' = model := by
      intro model'
      unfold Names
      rw [hmodel, Option.some.injEq, eq_comm]
    simp only [carries_iff hnames, honly, forall_eq]
    -- what comes out is decided by the body
    cases hbody : readBody loads message with
    | error e =>
      cases e with
      | valueError => cases result <;> simp
      | recursionError => simp
    | ok document =>
      simp only [Except.ok.injEq, ne_eq, reduceCtorEq, not_false_eq_true, true_and, exists_eq_left']
      constructor
      · rintro rfl event
        rfl
      · intro h
        exact (Option.ext h).symm

theorem carries_unique {event event' : DomainEvent} (h : Carries loads modelValidate message event)
    (h' : Carries loads modelValidate message event') : event = event' := by
  obtain ⟨model, document, hname, hbody, hvalid⟩ := h
  obtain ⟨document', hbody', hvalid'⟩ := (carries_iff hname).1 h'
  rw [hbody, Except.ok.injEq] at hbody'
  subst hbody'
  rw [hvalid, Option.some.injEq] at hvalid'
  exact hvalid'

theorem decodeMessage_eq_ok {result : Option PublishedMessage} : decodeMessage loads modelValidate now message = .ok result ↔
    (decodeEvent loads modelValidate message = .ok none ∧ result = none) ∨
      ∃ event, decodeEvent loads modelValidate message = .ok (some event) ∧ Repairable message ∧
        result = some ⟨event, repaired now message event.eventId⟩ := by
  unfold decodeMessage
  rw [bind_eq_ok]
  constructor
  · rintro ⟨_ | event, hevent, h⟩
    · cases h
      exact .inl ⟨hevent, rfl⟩
    · obtain ⟨context, hcontext, h⟩ := bind_eq_ok.1 h
      obtain ⟨hrepairable, rfl⟩ := provenanceOf_eq_ok.1 hcontext
      cases h
      exact .inr ⟨event, hevent, hrepairable, rfl⟩
  · rintro (⟨hevent, rfl⟩ | ⟨event, hevent, hrepairable, rfl⟩)
    · exact ⟨none, hevent, rfl⟩
    · exact ⟨some event, hevent, bind_eq_ok.2 ⟨_, provenanceOf_eq_ok.2 ⟨hrepairable, rfl⟩, rfl⟩⟩

/-- A good body under repairable headers is the event with its provenance repaired. -/
theorem Tolerable.decodeMessage_eq (h : Tolerable loads modelValidate message) {event : DomainEvent}
    (hcarries : Carries loads modelValidate message event) :
    decodeMessage loads modelValidate now message = .ok (some ⟨event, repaired now message event.eventId⟩) := by
  have hevent : decodeEvent loads modelValidate message = .ok (some event) := by
    refine decodeEvent_eq_ok.2 ⟨⟨h.eventName, h.eventId, h.body⟩, fun event' => ?_⟩
    rw [Option.some.injEq]
    constructor
    · rintro rfl
      exact hcarries
    · exact carries_unique hcarries
  exact decodeMessage_eq_ok.2 (.inr ⟨event, hevent, h.provenance event hcarries, rfl⟩)

/-- Everything else is skipped. -/
theorem Tolerable.decodeMessage_eq_none (h : Tolerable loads modelValidate message)
    (hcarries : ∀ event, ¬Carries loads modelValidate message event) :
    decodeMessage loads modelValidate now message = .ok none := by
  have hevent : decodeEvent loads modelValidate message = .ok none := by
    refine decodeEvent_eq_ok.2 ⟨⟨h.eventName, h.eventId, h.body⟩, fun event => ?_⟩
    simp [hcarries event]
  exact decodeMessage_eq_ok.2 (.inl ⟨hevent, rfl⟩)

end

/-! ## What escapes it -/

/-- A request to synchronise the catalogue. -/
def syncRequested : DomainEvent where
  eventId := ⟨77, by decide⟩
  occurredAt := ⟨⟨⟨2029, 7, 6, by decide, by decide, by decide⟩, ⟨8, 5, 0, 0, by decide⟩, some ⟨7200000000, by decide⟩⟩, rfl⟩
  fields := .speciesSyncRequested

def syncDocument : Document where
  members := [("event_id", .str (String.ofList syncRequested.eventId.str)),
    ("occurred_at", .str (String.ofList syncRequested.occurredAt.datetime.isoformat))]
  proper := by simp [Json.Proper, Json.ProperMembers]

/-- Its delivery, with its parsed body and one more header. -/
def syncDelivery (name : String) (value : HeaderValue) : KafkaMessage Json where
  raw := ⟨CATALOG_EVENTS, none, none, []⟩
  body := .document syncDocument.json
  headers := Dict.ofList [(HEADER_EVENT_NAME, .text "SpeciesSyncRequested"),
    (HEADER_EVENT_ID, .text (String.ofList syncRequested.eventId.str)), (name, value)]

end Plantkeeper.Messaging
