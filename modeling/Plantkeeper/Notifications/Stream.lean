/-
The household notification stream: `NotificationStreamService.stream` over
`SqlAlchemyNotificationRepository.list_pending`. Notifications are committed and acknowledged
between any two steps of the stream; the signal wakes it, stays silent or is lost; the client
reconnects naming the last notification it received. A drain reads the table once and then yields
row by row.
-/
import Mathlib.Data.List.Sort
import Plantkeeper.Domain.Notification
import Plantkeeper.Lib.Run
import Plantkeeper.Lib.Table

namespace Plantkeeper.Notifications

/-! ## The read -/

/-- `ORDER BY created_at, id`. -/
def Before (a b : Notification) : Prop :=
  a.createdAt < b.createdAt ∨ (a.createdAt = b.createdAt ∧ a.id ≤ b.id)

instance : DecidableRel Before := fun _ _ => inferInstanceAs (Decidable (_ ∨ _))

/-- The household's unacknowledged notifications. -/
def unread (table : List Notification) (householdId : HouseholdId) : List Notification :=
  table.filter fun n => n.householdId == householdId && n.readAt.isNone

/-- `id > since`, or no condition without a cursor. -/
def after (since : Option NotificationId) (n : Notification) : Bool :=
  match since with
  | none => true
  | some cursor => cursor < n.id

/-- `list_pending`. -/
def listPending (table : List Notification) (householdId : HouseholdId) (since : Option NotificationId) :
    List Notification :=
  ((unread table householdId).filter (after since)).insertionSort Before

/-! ## The stream -/

/-- Why a drain runs: in the loop of an attached stream, as the plain read of one that could not
attach, or as the last read of one that lost its signal. -/
inductive Mode
  | live
  | degraded
  | final
  deriving DecidableEq, Repr

/-- The last read's arrivals do not move the cursor: the response ends after it. -/
def Mode.advance (mode : Mode) (cursor : Option NotificationId) (id : NotificationId) : Option NotificationId :=
  match mode with
  | .final => cursor
  | _ => some id

/-- Where the generator is. A drain holds what it has still to yield; `due` is what was committed
and unread when it read the table. -/
inductive Stream
  | closed
  | attaching (cursor : Option NotificationId)
  | reading (mode : Mode) (cursor : Option NotificationId)
  | draining (mode : Mode) (cursor : Option NotificationId) (arrivals due : List Notification)
  | waiting (cursor : Option NotificationId)
  deriving DecidableEq

/-- The table, the client's stream, and what the session has yielded so far. -/
structure World where
  table : List Notification
  stream : Stream
  yielded : List NotificationId
  deriving DecidableEq

def World.empty : World := ⟨[], .closed, []⟩

inductive Action
  | create (n : Notification)
  | acknowledge (id : NotificationId) (now : Instant)
  | connect
  | attach (ok : Bool)
  | read
  | yieldNext
  | drained
  | nudged
  | idle
  | lost
  | disconnect
  deriving DecidableEq

/-- `MarkNotificationRead`: an unknown or acknowledged notification is refused. -/
def acknowledge (table : List Notification) (id : NotificationId) (now : Instant) : Option (List Notification) :=
  match table.find? (fun n => n.id == id) with
  | none => none
  | some n =>
    (n.markRead now).map fun read => Table.update (fun m => m.id == id) (fun m => { m with readAt := read.readAt }) table

/-- An acknowledgement only sets `read_at`. -/
theorem acknowledge_eq {table table' : List Notification} {id : NotificationId} {now : Instant}
    (h : acknowledge table id now = some table') :
    table' = Table.update (fun m => m.id == id) (fun m => { m with readAt := some now }) table := by
  unfold acknowledge at h
  split at h
  · cases h
  · obtain ⟨read, hread, rfl⟩ := Option.map_eq_some_iff.1 h
    unfold Notification.markRead at hread
    split at hread
    · cases hread
    · cases hread
      rfl

/-- One step, for one household's stream. -/
def step (householdId : HouseholdId) (w : World) : Action → Option World
  | .create n => if n.id ∈ w.table.map (·.id) then none else some { w with table := w.table ++ [n] }
  | .acknowledge id now => (acknowledge w.table id now).map fun table => { w with table := table }
  | .connect =>
    match w.stream with
    | .closed => some { w with stream := .attaching w.yielded.getLast? }
    | _ => none
  | .attach ok =>
    match w.stream with
    | .attaching cursor => some { w with stream := .reading (if ok then .live else .degraded) cursor }
    | _ => none
  | .read =>
    match w.stream with
    | .reading mode cursor =>
      let arrivals := listPending w.table householdId cursor
      some { w with stream := .draining mode cursor arrivals (unread w.table householdId) }
    | _ => none
  | .yieldNext =>
    match w.stream with
    | .draining mode cursor (n :: rest) due =>
      some { w with stream := .draining mode (mode.advance cursor n.id) rest due, yielded := w.yielded ++ [n.id] }
    | _ => none
  | .drained =>
    match w.stream with
    | .draining .live cursor [] _ => some { w with stream := .waiting cursor }
    | .draining _ _ [] _ => some { w with stream := .closed }
    | _ => none
  | .nudged =>
    match w.stream with
    | .waiting cursor => some { w with stream := .reading .live cursor }
    | _ => none
  | .idle =>
    match w.stream with
    | .waiting cursor => some { w with stream := .reading .live cursor }
    | _ => none
  | .lost =>
    match w.stream with
    | .waiting cursor => some { w with stream := .reading .final cursor }
    | _ => none
  | .disconnect => some { w with stream := .closed }

end Plantkeeper.Notifications
