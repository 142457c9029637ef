/-
# Flock.Config.TimeRange — the sums of limits and clocks.

`validate` compares the limits with each other, never with a bound.  They are added to clocks elsewhere: `max_wait`
and `heartbeat` to an `Instant`, whose seconds are an `i64`, in `wait_deadline` and where a request waits for a
permit; `sticky_ttl` to a unix time, an `u64`, in `set_sticky`.  The first two sums panic when they leave their
range, the third panics in a debug build and wraps in a release build.
-/
import Flock.Config.Json
import Flock.Health

namespace Flock

/-! ## Clocks -/

/-- `std::time::Instant`. -/
structure Instant where
  secs : ℤ
  nanos : ℕ
  lower : -2 ^ 63 ≤ secs
  upper : secs < 2 ^ 63
  subsecond : nanos < 10 ^ 9

/-- `now + Duration::from_secs(secs)`; `none`: it panics. -/
def Instant.add (now : Instant) (secs : ℕ) : Option Instant :=
  if h : now.secs + secs < 2 ^ 63 then
    some { now with secs := now.secs + secs, lower := by have := now.lower; omega, upper := h }
  else none

theorem Instant.isSome_add (now : Instant) (secs : ℕ) :
    (now.add secs).isSome = true ↔ now.secs + secs < 2 ^ 63 := by
  unfold Instant.add
  split
  · rename_i h
    exact iff_of_true rfl h
  · rename_i h
    exact iff_of_false (by decide) h

/-! ## The sums -/

/-- `wait_deadline`. -/
def Config.waitDeadline (cfg : Config) (now : Instant) : Option Instant := now.add cfg.maxWait

/-- When a waiting request looks at its client next. -/
def Config.nextHeartbeat (cfg : Config) (now : Instant) : Option Instant := now.add cfg.heartbeat

/-- The expiry of a pin; `none`: the sum is no `u64`. -/
def RoutingCfg.stickyExpiry (r : RoutingCfg) (nowUnix : ℕ) : Option ℕ :=
  if nowUnix + r.stickyTtl < 2 ^ 64 then some (nowUnix + r.stickyTtl) else none

theorem RoutingCfg.isSome_stickyExpiry (r : RoutingCfg) (nowUnix : ℕ) :
    (r.stickyExpiry nowUnix).isSome = true ↔ nowUnix + r.stickyTtl < 2 ^ 64 := by
  unfold stickyExpiry
  split
  · rename_i h
    exact iff_of_true rfl h
  · rename_i h
    exact iff_of_false (by decide) h

/-- A pin has that expiry, unless the sum wrapped. -/
theorem setSticky_expiry (h : HealthDb) (r : RoutingCfg) (session provider : String) (nowUnix : ℕ) :
    ((h.setSticky session provider r.stickyTtl nowUnix).stickies session).map (·.2) = r.stickyExpiry nowUnix ↔
      nowUnix + r.stickyTtl < 2 ^ 64 := by
  rw [HealthDb.stickies_setSticky, if_pos rfl, Option.map_some]
  unfold RoutingCfg.stickyExpiry
  by_cases hfits : nowUnix + r.stickyTtl < 2 ^ 64
  · rw [if_pos hfits, Nat.mod_eq_of_lt hfits]
    exact iff_of_true rfl hfits
  · rw [if_neg hfits]
    exact iff_of_false (Option.some_ne_none _) hfits

/-- **`TimesInRange`** — none of the three sums panics or wraps, at one reading of the clocks. -/
structure TimesInRange (sc : StoredConfig) (now : Instant) (nowUnix : ℕ) : Prop where
  maxWait : (sc.runtime.waitDeadline now).isSome = true
  heartbeat : (sc.runtime.nextHeartbeat now).isSome = true
  sticky : (sc.routing.stickyExpiry nowUnix).isSome = true

/-! ## What `validate` promises -/

/-- The one relation between two limits. -/
theorem validate_heartbeat_lt {sc : StoredConfig} (h : (validate sc).isOk = true) :
    sc.limits.heartbeatSecs < sc.limits.maxWaitSecs := by
  have hlimits := (accepted_of_validate h).limits
  unfold validateLimits at hlimits
  split at hlimits
  · cases hlimits
  · split at hlimits
    · cases hlimits
    · omega

/-- **`times_in_range_iff`** — with an accepted store the sums stay in range as long as the longest wait and the
lifetime of a pin do; the heartbeat follows, and `validate` bounds neither of the two. -/
theorem times_in_range_iff (sc : StoredConfig) (hvalid : (validate sc).isOk = true) (now : Instant) (nowUnix : ℕ) :
    TimesInRange sc now nowUnix ↔
      (sc.limits.maxWaitSecs : ℤ) ≤ 2 ^ 63 - 1 - now.secs ∧ (max sc.routing.stickyTtlSecs 1 : ℤ) ≤ 2 ^ 64 - 1 - nowUnix := by
  have hwait : (sc.runtime.waitDeadline now).isSome = true ↔ now.secs + sc.limits.maxWaitSecs < 2 ^ 63 :=
    now.isSome_add _
  have hbeat : (sc.runtime.nextHeartbeat now).isSome = true ↔ now.secs + sc.limits.heartbeatSecs < 2 ^ 63 :=
    now.isSome_add _
  have hsticky : (sc.routing.stickyExpiry nowUnix).isSome = true ↔ nowUnix + max sc.routing.stickyTtlSecs 1 < 2 ^ 64 :=
    sc.routing.isSome_stickyExpiry nowUnix
  have hlt := validate_heartbeat_lt hvalid
  constructor
  · intro h
    have hmax := hwait.mp h.maxWait
    have hpin := hsticky.mp h.sticky
    constructor <;> omega
  · rintro ⟨hmax, hpin⟩
    exact ⟨hwait.mpr (by omega), hbeat.mpr (by omega), hsticky.mpr (by omega)⟩

/-- Ten days after the boot, in 2025. -/
theorem times_in_range_iff_small :
    TimesInRange StoredConfig.small ⟨864000, 0, by decide, by decide, by decide⟩ 1750000000 :=
  (times_in_range_iff _ StoredConfig.small_valid _ _).mpr ⟨by decide, by decide⟩

/-- The store with the longest wait and the longest pin that fit their fields. -/
def StoredConfig.endless : StoredConfig :=
  { small with
    limits := { maxWaitSecs := 2 ^ 64 - 1 }
    routing := { stickyTtlSecs := 2 ^ 64 - 1 } }

/-- `validate` accepts it, and a second after the boot neither sum is in range. -/
theorem endless_out_of_range : (validate StoredConfig.endless).isOk = true ∧
    StoredConfig.endless.runtime.waitDeadline ⟨1, 0, by decide, by decide, by decide⟩ = none ∧
    StoredConfig.endless.routing.stickyExpiry 1750000000 = none := by
  refine ⟨by decide +kernel, ?_, ?_⟩
  · have hlate : ¬ (StoredConfig.endless.runtime.waitDeadline ⟨1, 0, by decide, by decide, by decide⟩).isSome = true := by
      unfold Config.waitDeadline
      rw [Instant.isSome_add]
      decide
    exact Option.not_isSome_iff_eq_none.mp hlate
  · have hlate : ¬ (StoredConfig.endless.routing.stickyExpiry 1750000000).isSome = true := by
      rw [RoutingCfg.isSome_stickyExpiry]
      decide
    exact Option.not_isSome_iff_eq_none.mp hlate

end Flock
