/-
`AsyncCircuitBreaker`. Consecutive failures open it; while it is open calls are rejected, until the reset
timeout lets one through as a trial, whose outcome closes it or opens it again.
-/
import Plantkeeper.Domain.Identifiers

namespace Plantkeeper.External

inductive CircuitState
  | closed
  | opened
  | halfOpen
  deriving DecidableEq, Repr

/-- What a breaker is configured with; its constructor refuses other values. -/
structure BreakerSettings where
  failureThreshold : ℕ
  resetTimeout : Duration
  threshold_pos : 1 ≤ failureThreshold
  timeout_pos : 0 < resetTimeout

structure CircuitBreaker where
  state : CircuitState
  failures : ℕ
  openedAt : Option Instant
  trialInFlight : Bool
  deriving DecidableEq

namespace CircuitBreaker

/-- A breaker as it is constructed. -/
def new : CircuitBreaker := ⟨.closed, 0, none, false⟩

variable (settings : BreakerSettings) (b : CircuitBreaker) (now : Instant)

/-- `_effective_state`: an open breaker whose timeout has elapsed is half open. -/
def effectiveState : CircuitState :=
  if b.state = .opened ∧ b.openedAt.any (fun t => settings.resetTimeout ≤ now - t) then .halfOpen else b.state

/-- `_before_call`, and whether the call is admitted. -/
def beforeCall : CircuitBreaker × Bool :=
  match b.effectiveState settings now with
  | .opened => (b, false)
  | .halfOpen =>
    if b.trialInFlight then ({ b with state := .halfOpen }, false)
    else ({ b with state := .halfOpen, trialInFlight := true }, true)
  | .closed => ({ b with state := .closed }, true)

/-- `_record_success`. -/
def recordSuccess : CircuitBreaker := ⟨.closed, 0, none, false⟩

/-- `_open`. -/
def doOpen : CircuitBreaker :=
  { b with state := .opened, openedAt := some now, failures := settings.failureThreshold }

/-- `_record_failure`. -/
def recordFailure : CircuitBreaker :=
  if b.state = .halfOpen then { b with trialInFlight := false }.doOpen settings now
  else
    let counted := { b with trialInFlight := false, failures := b.failures + 1 }
    if settings.failureThreshold ≤ counted.failures then counted.doOpen settings now else counted

/-- `call`: `none` is the `CircuitOpenError`. The clock is read before the operation and when a failure is
recorded; every exception of the operation is a failure. -/
def call {α ε : Type} (before after : Instant) (operation : Except ε α) : CircuitBreaker × Option (Except ε α) :=
  match b.beforeCall settings before with
  | (b, false) => (b, none)
  | (b, true) =>
    match operation with
    | .ok result => (recordSuccess, some (.ok result))
    | .error e => (b.recordFailure settings after, some (.error e))

end CircuitBreaker

end Plantkeeper.External
