/-
The signal fan-out of one household: its registered `_HouseholdFanout` and those before it, the pump tasks
that are not done, and the signals of the streams that attach. What runs between two awaits is one step. A
task that is cancelled unwinds before it is done, and `detach` awaits that before it forgets the task; a
subscription that fails is closed before its streams are told.
-/
import Mathlib.Logic.Function.Basic
import Plantkeeper.Lib.Run

namespace Plantkeeper.Notifications.Fanout

/-- Where `_pump` is: before its subscription is open, in its loop, closing after a `NotificationChannelError`, or
unwinding after a `CancelledError`. -/
inductive PumpState
  | starting
  | subscribed
  | failing
  | cancelled
  deriving DecidableEq, Repr

/-- A pump task that is not done, and its fan-out. -/
structure Pump where
  fanout : ℕ
  state : PumpState
  deriving DecidableEq

/-- `_HouseholdFanout`. -/
structure HouseholdFanout where
  signals : List ℕ
  task : Option ℕ
  ready : Bool
  failed : Bool
  deriving DecidableEq

/-- Where the stream of a signal is: its `attach` awaits `ready`, it holds the signal, or its `release` awaits the
task it cancelled. -/
inductive Phase
  | waiting
  | held
  | releasing (task : ℕ)
  deriving DecidableEq

/-- `HouseholdSignal`, until it is released. -/
structure Signal where
  fanout : ℕ
  wakeup : Bool
  lost : Bool
  phase : Phase
  deriving DecidableEq

structure World where
  households : Option ℕ
  fanouts : ℕ → Option HouseholdFanout
  pumps : ℕ → Option Pump
  signals : ℕ → Option Signal
  nextFanout : ℕ
  nextPump : ℕ

namespace World

def empty : World := ⟨none, fun _ => none, fun _ => none, fun _ => none, 0, 0⟩

variable (w : World)

def setFanout (g : ℕ) (fan : HouseholdFanout) : World := { w with fanouts := Function.update w.fanouts g (some fan) }

def setPump (p : ℕ) (pump : Option Pump) : World := { w with pumps := Function.update w.pumps p pump }

def setSignal (i : ℕ) (s : Option Signal) : World := { w with signals := Function.update w.signals i s }

/-- `_HouseholdFanout.attach`, and `ready` if it does not have to wait. -/
def attachTo (g : ℕ) (fan : HouseholdFanout) (i : ℕ) : World :=
  let signal : Signal := ⟨g, false, false, if fan.ready && !fan.failed then .held else .waiting⟩
  let fan := { fan with signals := fan.signals ++ [i] }
  match fan.task with
  | some _ => (w.setSignal i (some signal)).setFanout g fan
  | none =>
    { ((w.setSignal i (some signal)).setFanout g { fan with task := some w.nextPump }).setPump w.nextPump
        (some ⟨g, .starting⟩) with
      nextPump := w.nextPump + 1 }

/-- `HouseholdSignalFanout.attach` up to its first suspension. -/
def attach (i : ℕ) : World :=
  match w.households, w.households.bind w.fanouts with
  | some g, some fan => w.attachTo g fan i
  | _, _ =>
    { w with households := some w.nextFanout, nextFanout := w.nextFanout + 1 }.attachTo w.nextFanout ⟨[], none, false, false⟩ i

/-- `detach`: the last signal out cancels the task and awaits it, unless it is done already. -/
def detach (i : ℕ) (s : Signal) (fan : HouseholdFanout) : World :=
  let fan := { fan with signals := fan.signals.erase i }
  match fan.signals, fan.task with
  | [], some t =>
    match w.pumps t with
    | none => (w.setFanout s.fanout { fan with task := none }).setSignal i none
    | some pump =>
      ((w.setFanout s.fanout fan).setPump t (some { pump with state := .cancelled })).setSignal i
        (some { s with phase := .releasing t })
  | _, _ => (w.setFanout s.fanout fan).setSignal i none

/-- The signals of a fan-out, changed. -/
def each (fan : HouseholdFanout) (f : Signal → Signal) : World :=
  { w with signals := fun i => if i ∈ fan.signals then (w.signals i).map f else w.signals i }

/-- The `except` clause of `_pump`: the streams are told and the fan-out is forgotten. -/
def lose (g : ℕ) (fan : HouseholdFanout) : World :=
  { (w.each fan fun s => { s with lost := true, wakeup := true }).setFanout g { fan with failed := true, ready := true } with
    households := if w.households = some g then none else w.households }

/-- The pump of a live task and its fan-out. -/
def pumpAt (p : ℕ) : Option (Pump × HouseholdFanout) :=
  (w.pumps p).bind fun pump => (w.fanouts pump.fanout).map fun fan => (pump, fan)

/-- A signal and its fan-out. -/
def signalAt (i : ℕ) : Option (Signal × HouseholdFanout) :=
  (w.signals i).bind fun s => (w.fanouts s.fanout).map fun fan => (s, fan)

end World

/-- A stream attaches, goes on once the subscription is open or has failed, is cancelled while it waits, waits on its
signal, releases it, or goes on once the task it cancelled is done; a pump subscribes, nudges, fails, has closed its
failed subscription, is cancelled by another than its streams, or is done unwinding. -/
inductive Action
  | attach (i : ℕ)
  | ready (i : ℕ)
  | cancelAttach (i : ℕ)
  | wait (i : ℕ)
  | release (i : ℕ)
  | detached (i : ℕ)
  | subscribe (p : ℕ)
  | nudge (p : ℕ)
  | fail (p : ℕ)
  | lost (p : ℕ)
  | cancelPump (p : ℕ)
  | unwound (p : ℕ)
  deriving DecidableEq

def step (w : World) : Action → Option World
  | .attach i =>
    match w.signals i with
    | none => some (w.attach i)
    | some _ => none
  | .ready i =>
    match w.signalAt i with
    | some (⟨g, wakeup, lost, .waiting⟩, fan) =>
      if !fan.ready then none
      else if fan.failed then some (w.detach i ⟨g, wakeup, lost, .waiting⟩ fan)
      else some (w.setSignal i (some ⟨g, wakeup, lost, .held⟩))
    | _ => none
  | .cancelAttach i =>
    match w.signals i with
    | some ⟨_, _, _, .waiting⟩ => some (w.setSignal i none)
    | _ => none
  | .wait i =>
    match w.signals i with
    | some ⟨g, wakeup, lost, .held⟩ => some (w.setSignal i (some ⟨g, wakeup && lost, lost, .held⟩))
    | _ => none
  | .release i =>
    match w.signalAt i with
    | some (⟨g, wakeup, lost, .held⟩, fan) => some (w.detach i ⟨g, wakeup, lost, .held⟩ fan)
    | _ => none
  | .detached i =>
    match w.signalAt i with
    | some (⟨g, _, _, .releasing t⟩, fan) =>
      match w.pumps t with
      | none => some ((w.setFanout g { fan with task := none }).setSignal i none)
      | some _ => none
    | _ => none
  | .subscribe p =>
    match w.pumpAt p with
    | some (⟨g, .starting⟩, fan) => some ((w.setPump p (some ⟨g, .subscribed⟩)).setFanout g { fan with ready := true })
    | _ => none
  | .nudge p =>
    match w.pumpAt p with
    | some (⟨_, .subscribed⟩, fan) => some (w.each fan fun s => { s with wakeup := true })
    | _ => none
  | .fail p =>
    match w.pumps p with
    | some ⟨g, .starting⟩ | some ⟨g, .subscribed⟩ => some (w.setPump p (some ⟨g, .failing⟩))
    | _ => none
  | .lost p =>
    match w.pumpAt p with
    | some (⟨g, .failing⟩, fan) => some ((w.lose g fan).setPump p none)
    | _ => none
  | .cancelPump p => (w.pumps p).map fun pump => w.setPump p (some { pump with state := .cancelled })
  | .unwound p =>
    match w.pumps p with
    | some ⟨_, .cancelled⟩ => some (w.setPump p none)
    | _ => none

end Plantkeeper.Notifications.Fanout
