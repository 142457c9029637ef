/-
# Flock.Circuit — the circuit breaker of one provider.

The model of `circuit.rs`.  `last_failure` is an instant of the monotone clock, `last_failure_unix`
the wall clock's seconds, kept for the snapshot only.  Counters are naturals: a closed breaker opens
at `max_failures`, long before a `u32` could wrap.
-/
import Flock.Lib.SlidingWindow
import Flock.Pool.Basic

namespace Flock

open Lib (age)

/-- `CircuitState`. -/
inductive CircuitState where
  | closed
  | halfOpen
  | open
  deriving DecidableEq, Repr

/-- `CircuitSnapshot`: 0 closed, 1 half-open, 2 open. -/
structure CircuitSnapshot where
  state : ℕ
  failures : ℕ
  lastFailureUnix : ℕ
  consecutiveSuccesses : ℕ
  deriving DecidableEq, Repr

/-- `CircuitBreaker`. -/
structure CircuitBreaker where
  state : CircuitState
  failures : ℕ
  lastFailure : Option ℤ
  lastFailureUnix : ℕ
  consecutiveSuccesses : ℕ
  maxFailures : ℕ
  timeout : ℕ
  halfOpenMax : ℕ
  deriving DecidableEq, Repr

namespace CircuitBreaker

/-- `CircuitBreaker::new`. -/
def new (maxFailures timeout halfOpenMax : ℕ) : CircuitBreaker where
  state := .closed
  failures := 0
  lastFailure := none
  lastFailureUnix := 0
  consecutiveSuccesses := 0
  maxFailures := max maxFailures 1
  timeout := timeout
  halfOpenMax := max halfOpenMax 1

/-- `astmatrix_defaults`: 5 failures, 30 s, 3 half-open successes. -/
def astmatrixDefaults : CircuitBreaker := new 5 (secs 30) 3

/-- Open, with the timeout elapsed at `now`. -/
def elapsed (c : CircuitBreaker) (now : ℤ) : Bool :=
  match c.lastFailure with
  | some t => decide (c.timeout ≤ age now t)
  | none => false

/-- `allow`: the answer, and the breaker it leaves (an elapsed open one becomes half-open). -/
def allow (c : CircuitBreaker) (now : ℤ) : Bool × CircuitBreaker :=
  match c.state with
  | .closed | .halfOpen => (true, c)
  | .open =>
      if c.elapsed now then (true, { c with state := .halfOpen, consecutiveSuccesses := 0 })
      else (false, c)

/-- `record_success`. -/
def recordSuccess (c : CircuitBreaker) : CircuitBreaker :=
  match c.state with
  | .closed => { c with failures := 0 }
  | .halfOpen =>
      if c.consecutiveSuccesses + 1 ≥ c.halfOpenMax then
        { c with state := .closed, failures := 0, consecutiveSuccesses := 0 }
      else { c with consecutiveSuccesses := c.consecutiveSuccesses + 1 }
  | .open => c

/-- The private `open`. -/
def trip (c : CircuitBreaker) (now : ℤ) (nowUnix : ℕ) : CircuitBreaker :=
  { c with state := .open, lastFailure := some now, lastFailureUnix := nowUnix,
           consecutiveSuccesses := 0 }

/-- `record_failure`. -/
def recordFailure (c : CircuitBreaker) (now : ℤ) (nowUnix : ℕ) : CircuitBreaker :=
  match c.state with
  | .closed =>
      let c := { c with failures := c.failures + 1 }
      if c.failures ≥ c.maxFailures then c.trip now nowUnix else c
  | .halfOpen => c.trip now nowUnix
  | .open => c

/-- `force_open`. -/
def forceOpen (c : CircuitBreaker) (now : ℤ) (nowUnix : ℕ) : CircuitBreaker := c.trip now nowUnix

/-- `snapshot`. -/
def snapshot (c : CircuitBreaker) : CircuitSnapshot where
  state := match c.state with
    | .closed => 0
    | .halfOpen => 1
    | .open => 2
  failures := c.failures
  lastFailureUnix := c.lastFailureUnix
  consecutiveSuccesses := c.consecutiveSuccesses

/-- `restore`: the last failure is placed as far in the past as the wall clock says. -/
def restore (snap : CircuitSnapshot) (nowUnix : ℕ) (now : ℤ) : CircuitBreaker :=
  { astmatrixDefaults with
    failures := snap.failures
    consecutiveSuccesses := snap.consecutiveSuccesses
    lastFailureUnix := snap.lastFailureUnix
    lastFailure :=
      if snap.lastFailureUnix > 0 then some (now - secs (nowUnix - snap.lastFailureUnix)) else none
    state := match snap.state with
      | 1 => .halfOpen
      | 2 => .open
      | _ => .closed }

/-- **What `allow` answers**: no exactly when open with the timeout still running. -/
theorem allow_eq_true_iff (c : CircuitBreaker) (now : ℤ) :
    (c.allow now).1 = true ↔ c.state ≠ .open ∨ c.elapsed now = true := by
  unfold allow
  cases hs : c.state with
  | closed => simp
  | halfOpen => simp
  | «open» => cases c.elapsed now <;> simp

end CircuitBreaker

end Flock
