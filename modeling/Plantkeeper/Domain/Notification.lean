/-
The `Notification` aggregate: a message waiting for the household.
-/
import Mathlib.Data.Rat.Defs
import Plantkeeper.Domain.Identifiers
import Plantkeeper.Domain.Time

namespace Plantkeeper

/-- Why a notification was created. -/
inductive NotificationType
  | wateringDue
  | careMissed
  | wateringRescheduled
  | soilMoistureLow
  | soilMoistureHigh
  | temperatureAnomaly
  | sensorOffline
  | plantOnboarded
  deriving DecidableEq, Repr

/-- The values a payload carries: texts of identifiers and instants, other texts, and numbers. -/
inductive PayloadValue
  | uuid (id : Uuid)
  | instant (t : Instant)
  | text (t : String)
  | number (q : ℚ)
  | null
  deriving DecidableEq

/-- The state of a `Notification`, which is also its row in `write_notifications.notifications`. -/
structure Notification where
  id : NotificationId
  householdId : HouseholdId
  notificationType : NotificationType
  payload : List (String × PayloadValue)
  createdAt : Instant
  readAt : Option Instant
  deriving DecidableEq

/-- `Notification.create`. -/
def Notification.create (id : NotificationId) (householdId : HouseholdId) (notificationType : NotificationType)
    (now : Instant) (payload : List (String × PayloadValue)) : Notification :=
  ⟨id, householdId, notificationType, payload, now, none⟩

/-- `mark_read`: `none` is the `NotificationAlreadyReadError`. -/
def Notification.markRead (n : Notification) (now : Instant) : Option Notification :=
  if n.readAt.isSome then none else some { n with readAt := some now }

end Plantkeeper
