/-
Moving a delivery of text aside and replaying the copy puts back the record that was delivered, and
clears the claim of the group that gave up and no other row. What was put back can be moved aside again,
so the cycle may be repeated.
-/
import Plantkeeper.Messaging.DeadLetter

namespace Plantkeeper.Messaging

/-! ## One cycle -/

/-- One time a delivery is moved aside, with the ledgers the replay finds. -/
structure Round where
  consumerGroup : String
  error : String
  offset : ℕ
  ledgers : Ledgers

section

variable {J : Type} (str : J → String)

/-- A record is delivered, moved aside, read back from the dead-letter topic and replayed: the record that
is appended and the ledgers. -/
def cycle (r : Record) (round : Round) : Except Failure (Record × Ledgers) :=
  match KafkaMessage.ofRecord (J := J) r with
  | none => .error .unicodeDecodeError
  | some message =>
    let aside := publishMovedAside (deadLetterFor str message round.consumerGroup round.error)
    (replayCopy round.ledgers (asCopy aside.key aside.value aside.headers round.offset)).map fun (l, replayed, _) => (replayed, l)

/-- The replayed record is the next delivery. -/
def cycles (r : Record) : List Round → Except Failure (List (Record × Ledgers))
  | [] => .ok []
  | round :: rounds => do
    let replayed ← cycle str r round
    let more ← cycles replayed.1 rounds
    return replayed :: more

end

/-- The ledgers without the group's claim. -/
def Ledgers.without (l : Ledgers) (group : String) (eventId : UUID) : Ledgers where
  write := l.write.filter fun r => !r.claims group eventId
  read := l.read.filter fun r => !r.claims group eventId
  apart r hr q hq := l.apart r (List.mem_of_mem_filter hr) q (List.mem_of_mem_filter hq)

/-! ## The ledgers -/

variable {l : Ledgers} {group : String} {eventId : UUID}

/-- A group has its claim in one ledger only, so clearing the write ledger first is no loss. -/
theorem clearClaim_eq {copy : Copy} (hgroup : copy.consumerGroup = some group) (hevent : copy.eventId = some eventId) :
    (l.clearClaim copy).1 = l.without group eventId := by
  unfold Ledgers.clearClaim
  rw [hgroup, hevent]
  dsimp only
  by_cases hwritten : (l.clearWriteClaim group eventId).2 = true
  · rw [if_pos hwritten]
    obtain ⟨r, hr, hclaims⟩ := List.any_eq_true.1 hwritten
    have hgroup : r.consumerGroup = group := by
      unfold ProcessedEvent.claims at hclaims
      rw [Bool.and_eq_true] at hclaims
      exact eq_of_beq hclaims.1
    ext1
    · rfl
    · -- the group's rows are in the write ledger
      refine (List.filter_eq_self.2 fun q hq => ?_).symm
      have hne : q.consumerGroup ≠ group := fun heq => l.apart r hr q hq (hgroup.trans heq.symm)
      simp [ProcessedEvent.claims, hne]
  · rw [if_neg hwritten]
    rfl

/-! ## The copy -/

variable {J : Type} {str : J → String} {m : TextMessage} {round : Round}

/-- The headers of the copy: the message's own, and the three. -/
def asideHeaders (m : TextMessage) (round : Round) : Dict String String :=
  ((m.headers.set HEADER_CONSUMER_GROUP round.consumerGroup).set HEADER_ORIGINAL_TOPIC m.topic).set HEADER_ERROR round.error

/-- The copy as it is read back. -/
def asideCopy (m : TextMessage) (round : Round) : Copy where
  offset := round.offset
  key := m.key.getD ""
  body := m.body
  headers := asideHeaders m round

theorem asCopy_record (headers : Dict String String) (key body : String) (offset : ℕ) :
    asCopy (some (encode key)) (some (encode body)) (encodeHeaders headers) offset = ⟨offset, key, body, headers⟩ := by
  have hheaders : (encodeHeaders headers).map (fun h => (h.1, decodeReplace h.2)) = headers.entries := by
    unfold encodeHeaders
    rw [List.map_map]
    conv_rhs => rw [← List.map_id headers.entries]
    refine List.map_congr_left fun h _ => ?_
    simp
  unfold asCopy
  rw [hheaders, Dict.ofList_entries]
  simp

/-- A delivery of text is copied as it is, with the three headers. -/
theorem deadLetterFor_eq (m : TextMessage) (group error : String) :
    deadLetterFor str ⟨m.record, .bytes (encode m.body), m.headers.mapValues HeaderValue.text⟩ group error =
      ⟨group, m.topic, m.key.getD "", m.body, m.headers, error⟩ := by
  have hkey : keyText m.record.key = m.key.getD "" := by
    show keyText (m.key.map encode) = _
    cases m.key with
    | none => rfl
    | some key => exact decodeReplace_encode key
  have hheaders : (m.headers.mapValues HeaderValue.text).mapValues HeaderValue.str = m.headers := by
    ext1
    show (m.headers.entries.map _).map _ = _
    rw [List.map_map]
    exact List.map_id _
  unfold deadLetterFor
  rw [hkey, hheaders]
  simp only [bodyText, decodeReplace_encode]
  rfl

theorem cycle_eq (round : Round) : cycle str m.record round =
    (replayCopy round.ledgers (asideCopy m round)).map fun (l, replayed, _) => (replayed, l) := by
  unfold cycle
  rw [ofRecord_record]
  dsimp only
  rw [deadLetterFor_eq]
  unfold publishMovedAside
  rw [asCopy_record]
  rfl

theorem asideCopy_consumerGroup : (asideCopy m round).consumerGroup = some round.consumerGroup := by
  unfold Copy.consumerGroup asideCopy asideHeaders
  simp only [Dict.get?_set]
  rfl

theorem asideCopy_originalTopic : (asideCopy m round).originalTopic = m.topic := by
  unfold Copy.originalTopic asideCopy asideHeaders
  simp only [Dict.get?_set]
  rfl

theorem asideCopy_eventId (h : m.headers.get? HEADER_EVENT_ID = some (String.ofList eventId.str)) :
    (asideCopy m round).eventId = some eventId := by
  have hheader : (asideHeaders m round).get? HEADER_EVENT_ID = some (String.ofList eventId.str) := by
    unfold asideHeaders
    simp only [Dict.get?_set]
    exact h
  unfold Copy.eventId
  rw [show (asideCopy m round).headers = asideHeaders m round from rfl, hheader, Option.bind_some, String.toList_ofList,
    UUID.ofText_str]

/-- The three headers are stripped again. -/
theorem asideCopy_replayHeaders (h : ∀ name ∈ DLQ_HEADERS, name ∉ m.headers.keys) : (asideCopy m round).replayHeaders = m.headers := by
  show (asideHeaders m round).filterKeys (· ∉ DLQ_HEADERS) = m.headers
  unfold asideHeaders
  rw [Dict.filterKeys_set (by decide), Dict.filterKeys_set (by decide), Dict.filterKeys_set (by decide)]
  refine Dict.filterKeys_eq_self fun name hname => ?_
  simpa using fun hin => h name hin hname

/-! ## The result -/

section

variable (hkey : m.key ≠ some "") (hevent : m.headers.get? HEADER_EVENT_ID = some (String.ofList eventId.str))
  (havoid : ∀ name ∈ DLQ_HEADERS, name ∉ m.headers.keys)

include hkey hevent havoid

/-- One cycle puts the record back and clears the claim. -/
theorem cycle_same (round : Round) : cycle str m.record round = .ok (m.record, round.ledgers.without round.consumerGroup eventId) := by
  have hrecord : (⟨m.topic, if m.key.getD "" = "" then none else some (encode (m.key.getD "")), some (encode m.body),
      encodeHeaders m.headers⟩ : Record) = m.record := by
    unfold TextMessage.record
    congr 1
    cases hk : m.key with
    | none => rfl
    | some key =>
      have hne : key ≠ "" := fun h => hkey (by rw [hk, h])
      exact if_neg hne
  have hgroup : (asideCopy m round).consumerGroup = some round.consumerGroup := asideCopy_consumerGroup
  have hledgers := clearClaim_eq (l := round.ledgers) hgroup (asideCopy_eventId hevent)
  rw [cycle_eq]
  unfold replayCopy
  rw [asideCopy_originalTopic, if_neg m.named, asideCopy_replayHeaders havoid, ← hledgers]
  exact congrArg (fun r => Except.ok (r, (round.ledgers.clearClaim (asideCopy m round)).1)) hrecord

/-- However often a message of text is moved aside, by whichever groups, and replayed, the record put back is
the one that was delivered, and each time the ledgers lose exactly the claim of the group that gave up. -/
theorem cycles_same (rounds : List Round) : cycles str m.record rounds =
    .ok (rounds.map fun round => (m.record, round.ledgers.without round.consumerGroup eventId)) := by
  induction rounds with
  | nil => rfl
  | cons round rounds ih =>
    rw [cycles, cycle_same hkey hevent havoid round]
    show (cycles str m.record rounds >>= fun more => _) = _
    rw [ih]
    rfl

end

/-- A keyed message, moved aside by two groups in turn. -/
theorem cycles_same_twice :
    let m : TextMessage := ⟨"garden.events", by decide, some "3", "\x7b\x7d", Dict.ofList [(HEADER_EVENT_NAME, "PlantMoved"),
      (HEADER_EVENT_ID, String.ofList (UUID.str ⟨9, by decide⟩))]⟩
    let l : Ledgers := ⟨[⟨"journal", ⟨9, by decide⟩⟩], [⟨"rows", ⟨9, by decide⟩⟩], by decide⟩
    let rounds : List Round := [⟨"journal", "timeout", 0, l⟩, ⟨"rows", "timeout", 1, l⟩]
    cycles (J := Empty) Empty.elim m.record rounds =
      .ok (rounds.map fun round => (m.record, round.ledgers.without round.consumerGroup ⟨9, by decide⟩)) :=
  cycles_same (by decide) rfl (by decide) _

end Plantkeeper.Messaging
