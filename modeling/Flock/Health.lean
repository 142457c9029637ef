/-
# Flock.Health — the shared health view: healthy flags, latencies, ELO, sticky sessions.

The in-memory part of `health.rs` (`HealthDb`).  Every map of the source is a function to `Option`.
Latencies are `f64` milliseconds in the source and rationals here.  The write-behind persistence
operations are not part of this state.
-/
import Mathlib.Data.Rat.Defs
import Mathlib.Algebra.Order.Field.Rat
import Mathlib.Logic.Function.Basic

namespace Flock

/-- `HealthInner`. -/
structure HealthDb where
  healthy : String → Option Bool := fun _ => none
  lastProbeUnix : String → Option ℕ := fun _ => none
  latenciesMs : String → Option ℚ := fun _ => none
  elos : String → Option ℤ := fun _ => none
  /-- Session to provider and expiry. -/
  stickies : String → Option (String × ℕ) := fun _ => none

namespace HealthDb

/-- `record_health`. -/
def recordHealth (h : HealthDb) (provider : String) (healthy : Bool) (nowUnix : ℕ) : HealthDb :=
  { h with healthy := Function.update h.healthy provider (some healthy),
           lastProbeUnix := Function.update h.lastProbeUnix provider (some nowUnix) }

/-- `record_latency`: `0.7 new + 0.3 old`, the first sample counting as its own predecessor. -/
def recordLatency (h : HealthDb) (provider : String) (ms : ℚ) : HealthDb :=
  let old := (h.latenciesMs provider).getD ms
  { h with latenciesMs :=
      Function.update h.latenciesMs provider (some (7 / 10 * ms + 3 / 10 * old)) }

/-- `is_healthy`: a provider never probed is healthy. -/
def isHealthy (h : HealthDb) (provider : String) : Bool := (h.healthy provider).getD true

/-- `latency_ms`. -/
def latencyMs (h : HealthDb) (provider : String) : Option ℚ := h.latenciesMs provider

/-- `get_elo`. -/
def getElo (h : HealthDb) (provider : String) : ℤ := (h.elos provider).getD 1500

/-- `set_elo`. -/
def setElo (h : HealthDb) (provider : String) (elo : ℤ) : HealthDb :=
  { h with elos := Function.update h.elos provider (some elo) }

/-- `set_sticky`: the sum is a `u64`, and wraps. -/
def setSticky (h : HealthDb) (session provider : String) (ttlSecs nowUnix : ℕ) : HealthDb :=
  { h with stickies :=
      Function.update h.stickies session (some (provider, (nowUnix + ttlSecs) % 2 ^ 64)) }

/-- `get_sticky`: an expired pin is gone. -/
def getSticky (h : HealthDb) (session : String) (nowUnix : ℕ) : Option String :=
  match h.stickies session with
  | some (p, exp) => if exp > nowUnix then some p else none
  | none => none

/-- `sweep_expired_stickies`. -/
def sweepExpiredStickies (h : HealthDb) (nowUnix : ℕ) : HealthDb :=
  { h with stickies := fun session =>
      (h.stickies session).filter fun pin => decide (pin.2 > nowUnix) }

/-! ## What an update leaves -/

variable (h : HealthDb) (p q : String)

theorem isHealthy_recordHealth (healthy : Bool) (nowUnix : ℕ) :
    (h.recordHealth q healthy nowUnix).isHealthy p = if p = q then healthy else h.isHealthy p := by
  by_cases hq : p = q <;> simp [recordHealth, isHealthy, hq]

theorem getElo_setElo (elo : ℤ) : (h.setElo q elo).getElo p = if p = q then elo else h.getElo p := by
  by_cases hq : p = q <;> simp [setElo, getElo, hq]

theorem latenciesMs_recordLatency (ms : ℚ) : (h.recordLatency q ms).latenciesMs p =
    if p = q then some (7 / 10 * ms + 3 / 10 * (h.latenciesMs p).getD ms) else h.latenciesMs p := by
  by_cases hq : p = q <;> simp [recordLatency, hq]

theorem stickies_setSticky (session provider : String) (ttlSecs nowUnix : ℕ) :
    (h.setSticky session provider ttlSecs nowUnix).stickies p =
      if p = session then some (provider, (nowUnix + ttlSecs) % 2 ^ 64) else h.stickies p := by
  by_cases hq : p = session <;> simp [setSticky, hq]

end HealthDb

end Flock
