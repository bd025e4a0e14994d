/-
The dead-letter topic. A consumer that gives up on a delivery copies it there with three headers of its
own; an operator reads the copies back, and a replay strips these headers, clears the ledger claim they
name and appends the message to its topic again.
-/
import Plantkeeper.Messaging.Kafka

namespace Plantkeeper.Messaging

open Utf8 (Bytes)

def DLQ_TOPIC : String := "plantkeeper.dlq.v1"

def HEADER_EVENT_NAME : String := "event_name"
def HEADER_EVENT_ID : String := "event_id"
def HEADER_ORIGINAL_TOPIC : String := "original_topic"
def HEADER_ERROR : String := "error"
def HEADER_CONSUMER_GROUP : String := "consumer_group"

/-! ## Moving a delivery aside -/

structure DeliveryDeadLetter where
  consumerGroup : String
  originalTopic : String
  partitionKey : String
  body : String
  headers : Dict String String
  error : String

/-- `_key_text`, of the bytes a broker hands over. -/
def keyText : Option Bytes → String
  | none => ""
  | some key => decodeReplace key

section

variable {J : Type} (str : J → String)

/-- `_body_text`; `str` is that of a parsed document. -/
def bodyText : Body J → String
  | .bytes b => decodeReplace b
  | .text s => s
  | .document j => str j

/-- `dead_letter_for`. -/
def deadLetterFor (message : KafkaMessage J) (consumerGroup error : String) : DeliveryDeadLetter where
  consumerGroup := consumerGroup
  originalTopic := message.raw.topic
  partitionKey := keyText message.raw.key
  body := bodyText str message.body
  headers := message.headers.mapValues HeaderValue.str
  error := error

end

/-- `publish_moved_aside`: the record it appends. -/
def publishMovedAside (delivery : DeliveryDeadLetter) : Record where
  topic := DLQ_TOPIC
  key := some (encode delivery.partitionKey)
  value := some (encode delivery.body)
  headers := encodeHeaders (((delivery.headers.set HEADER_CONSUMER_GROUP delivery.consumerGroup).set
    HEADER_ORIGINAL_TOPIC delivery.originalTopic).set HEADER_ERROR delivery.error)

/-! ## Copies -/

def DLQ_HEADERS : List String := [HEADER_CONSUMER_GROUP, HEADER_ORIGINAL_TOPIC, HEADER_ERROR]

/-- One message as it sits on the dead-letter topic. -/
structure Copy where
  offset : ℕ
  key : String
  body : String
  headers : Dict String String

/-- `_as_copy`. -/
def asCopy (key value : Option Bytes) (headers : List (String × Bytes)) (offset : ℕ) : Copy where
  offset := offset
  key := (key.map decodeReplace).getD ""
  body := (value.map decodeReplace).getD ""
  headers := Dict.ofList (headers.map fun h => (h.1, decodeReplace h.2))

namespace Copy

def consumerGroup (copy : Copy) : Option String := copy.headers.get? HEADER_CONSUMER_GROUP

def originalTopic (copy : Copy) : String := (copy.headers.get? HEADER_ORIGINAL_TOPIC).getD ""

def eventName (copy : Copy) : String := (copy.headers.get? HEADER_EVENT_NAME).getD ""

def eventId (copy : Copy) : Option UUID := (copy.headers.get? HEADER_EVENT_ID).bind fun raw => UUID.ofText raw.toList

/-- `replay_headers`. -/
def replayHeaders (copy : Copy) : Dict String String := copy.headers.filterKeys (· ∉ DLQ_HEADERS)

end Copy

/-! ## The ledgers -/

/-- A row of either `processed_events`. -/
structure ProcessedEvent where
  consumerGroup : String
  eventId : UUID
  deriving DecidableEq

/-- The row is the group's claim on the event. -/
def ProcessedEvent.claims (group : String) (eventId : UUID) (r : ProcessedEvent) : Bool :=
  r.consumerGroup == group && r.eventId == eventId

/-- The two ledgers. A consumer group is a worker's or a projection's, so it has rows in one of them only. -/
@[ext] structure Ledgers where
  write : List ProcessedEvent
  read : List ProcessedEvent
  apart : ∀ r ∈ write, ∀ q ∈ read, r.consumerGroup ≠ q.consumerGroup

def WRITE_LEDGER : String := "write_shared.processed_events"
def READ_LEDGER : String := "read_analytics.processed_events"
def RELAY_COPY : String := "no ledger claim: the outbox relay wrote it, not a consumer"
def INGRESS_COPY : String := "no ledger claim: the telemetry ingress keeps none"

namespace Ledgers

/-- `clear_write_claim`, and whether there was a row. -/
def clearWriteClaim (l : Ledgers) (group : String) (eventId : UUID) : Ledgers × Bool :=
  (⟨l.write.filter fun r => !r.claims group eventId, l.read, fun r hr => l.apart r (List.mem_of_mem_filter hr)⟩,
    l.write.any (·.claims group eventId))

/-- `clear_read_claim`. -/
def clearReadClaim (l : Ledgers) (group : String) (eventId : UUID) : Ledgers × Bool :=
  (⟨l.write, l.read.filter fun r => !r.claims group eventId, fun r hr q hq => l.apart r hr q (List.mem_of_mem_filter hq)⟩,
    l.read.any (·.claims group eventId))

/-- `clear_claim`, with what it says it did. -/
def clearClaim (l : Ledgers) (copy : Copy) : Ledgers × String :=
  match copy.consumerGroup, copy.eventId with
  | none, _ => (l, RELAY_COPY)
  | some _, none => (l, INGRESS_COPY)
  | some group, some eventId =>
    let (l, written) := l.clearWriteClaim group eventId
    if written then (l, WRITE_LEDGER)
    else
      let (l, cleared) := l.clearReadClaim group eventId
      (l, if cleared then READ_LEDGER else "no claim in " ++ WRITE_LEDGER ++ " or " ++ READ_LEDGER)

end Ledgers

/-! ## Replaying -/

/-- Why a replay stopped. -/
inductive Failure
  /-- FastStream could not decode a header -/
  | unicodeDecodeError
  | deadLetterError (message : String)
  deriving DecidableEq, Repr

/-- `replay_copy`: the ledgers, the record it appends, and the line for the operator. -/
def replayCopy (l : Ledgers) (copy : Copy) : Except Failure (Ledgers × Record × String) :=
  if copy.originalTopic = "" then
    .error (.deadLetterError "the copy names no original_topic header; nothing to replay to")
  else
    let (l, claim) := l.clearClaim copy
    let record : Record :=
      { topic := copy.originalTopic, key := if copy.key = "" then none else some (encode copy.key),
        value := some (encode copy.body), headers := encodeHeaders copy.replayHeaders }
    let event := if copy.eventName = "" then "raw message" else copy.eventName
    .ok (l, record, "replayed offset " ++ toString copy.offset ++ " to " ++ copy.originalTopic ++ " (" ++ event ++
      "); claim: " ++ claim)

end Plantkeeper.Messaging
