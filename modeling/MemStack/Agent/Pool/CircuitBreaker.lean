import MemStack.Util.Since

/-!
This module contains the circuit breaker of the agent pool. A call passes the breaker in one section under
its lock, runs, and reports its outcome in a second one; a cancelled call reports nothing. Times are
microseconds, and one section reads the clock once.
-/

namespace MemStack
namespace Agent
namespace Pool

inductive CircuitState where
  | closed
  | «open»
  | halfOpen
  deriving DecidableEq

structure CircuitBreakerConfig where
  failureThreshold : Int := 5
  recoveryTimeoutSeconds : Int := 60
  halfOpenRequests : Int := 3
  successThreshold : Int := 2
  windowSeconds : Int := 60

def second : Int := 1000000

structure StateChange where
  fromState : CircuitState
  toState : CircuitState
  timestamp : Int

structure CircuitBreakerStats where
  totalCalls : Nat := 0
  successfulCalls : Nat := 0
  failedCalls : Nat := 0
  rejectedCalls : Nat := 0
  stateChanges : List StateChange := []

structure CircuitBreaker where
  state : CircuitState := .closed
  failureCount : Nat := 0
  successCount : Nat := 0
  halfOpenCalls : Nat := 0
  lastFailureTime : Option Int := none
  lastStateChangeTime : Int
  openedAt : Option Int := none
  failureTimestamps : List Int := []
  stats : CircuitBreakerStats := {}

namespace CircuitBreaker

variable (config : CircuitBreakerConfig)

def transitionTo (now : Int) (newState : CircuitState) (breaker : CircuitBreaker) : CircuitBreaker :=
  let stateChanges := breaker.stats.stateChanges ++ [⟨breaker.state, newState, now⟩]
  let changed := { breaker with
    state := newState
    lastStateChangeTime := now
    stats := { breaker.stats with stateChanges := stateChanges.drop (stateChanges.length - 100) } }
  match newState with
  | .closed => { changed with failureCount := 0, successCount := 0, halfOpenCalls := 0, openedAt := none }
  | .open => { changed with openedAt := some now, successCount := 0 }
  | .halfOpen => { changed with halfOpenCalls := 0, successCount := 0 }

def shouldTryReset (now : Int) (breaker : CircuitBreaker) : Bool :=
  match breaker.openedAt with
  | none => true
  | some openedAt => now - openedAt ≥ config.recoveryTimeoutSeconds * second

-- What `_cleanup_old_failures` leaves of the failures.
def recentFailures (now : Int) (timestamps : List Int) : List Int :=
  timestamps.filter fun timestamp => now - config.windowSeconds * second < timestamp

def countRecentFailures (now : Int) (breaker : CircuitBreaker) : Nat :=
  (recentFailures config now breaker.failureTimestamps).length

def rejected (breaker : CircuitBreaker) : CircuitBreaker :=
  { breaker with stats := { breaker.stats with rejectedCalls := breaker.stats.rejectedCalls + 1 } }

def admitted (breaker : CircuitBreaker) : CircuitBreaker :=
  { breaker with stats := { breaker.stats with totalCalls := breaker.stats.totalCalls + 1 } }

def admitHalfOpen (breaker : CircuitBreaker) : CircuitBreaker × Bool :=
  if breaker.halfOpenCalls ≥ config.halfOpenRequests then (breaker.rejected, false)
  else ({ breaker with halfOpenCalls := breaker.halfOpenCalls + 1 }.admitted, true)

-- The first section of `call`.
def admission (now : Int) (breaker : CircuitBreaker) : CircuitBreaker × Bool :=
  match breaker.state with
  | .closed => (breaker.admitted, true)
  | .open =>
    if breaker.shouldTryReset config now then (breaker.transitionTo now .halfOpen).admitHalfOpen config
    else (breaker.rejected, false)
  | .halfOpen => breaker.admitHalfOpen config

def onSuccess (now : Int) (breaker : CircuitBreaker) : CircuitBreaker :=
  let breaker := { breaker with
    successCount := breaker.successCount + 1
    stats := { breaker.stats with successfulCalls := breaker.stats.successfulCalls + 1 } }
  match breaker.state with
  | .halfOpen =>
    if breaker.successCount ≥ config.successThreshold then breaker.transitionTo now .closed else breaker
  | .closed => { breaker with failureCount := 0 }
  | .open => breaker

def withFailure (now : Int) (breaker : CircuitBreaker) : CircuitBreaker :=
  { breaker with
    failureCount := breaker.failureCount + 1
    lastFailureTime := some now
    failureTimestamps := recentFailures config now (breaker.failureTimestamps ++ [now])
    stats := { breaker.stats with failedCalls := breaker.stats.failedCalls + 1 } }

def onFailure (now : Int) (breaker : CircuitBreaker) : CircuitBreaker :=
  let breaker := breaker.withFailure config now
  match breaker.state with
  | .halfOpen => breaker.transitionTo now .open
  | .closed =>
    if breaker.countRecentFailures config now ≥ config.failureThreshold then breaker.transitionTo now .open
    else breaker
  | .open => breaker

def reset (now : Int) (breaker : CircuitBreaker) : CircuitBreaker :=
  { breaker.transitionTo now .closed with failureTimestamps := [] }

def trip (now : Int) (breaker : CircuitBreaker) : CircuitBreaker :=
  if breaker.state = .open then breaker else breaker.transitionTo now .open

inductive Outcome where
  | succeeded
  | failed
  | excluded
  | cancelled
  deriving DecidableEq

inductive Request where
  | call (now : Int)
  | finish (outcome : Outcome) (now : Int)
  | reset (now : Int)
  | trip (now : Int)

structure Guarded where
  breaker : CircuitBreaker
  inFlight : Nat := 0

namespace Guarded

variable (s : Guarded)

def report (outcome : Outcome) (now : Int) : CircuitBreaker :=
  match outcome with
  | .succeeded => s.breaker.onSuccess config now
  | .excluded => s.breaker.onSuccess config now
  | .failed => s.breaker.onFailure config now
  | .cancelled => s.breaker

def step (s : Guarded) : Request → Guarded × Option Bool
  | .call now =>
    let (breaker, admitted) := s.breaker.admission config now
    ({ breaker, inFlight := if admitted then s.inFlight + 1 else s.inFlight }, some admitted)
  | .finish outcome now =>
    if s.inFlight = 0 then (s, none)
    else ({ breaker := s.report config outcome now, inFlight := s.inFlight - 1 }, none)
  | .reset now => ({ s with breaker := s.breaker.reset now }, none)
  | .trip now => ({ s with breaker := s.breaker.trip now }, none)

def created (now : Int) : Guarded := { breaker := { lastStateChangeTime := now } }

end Guarded

end CircuitBreaker

end Pool
end Agent
end MemStack
