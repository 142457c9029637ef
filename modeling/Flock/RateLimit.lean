/-
# Flock.RateLimit — one token bucket per provider.

The model of `ratelimit.rs`.  Tokens, capacity and rate are `f64` in the source and rationals here; the rate
is in tokens per second, the stamps are nanoseconds of the monotone clock.
-/
import Mathlib.Algebra.Order.Field.Rat
import Mathlib.Data.List.Induction
import Mathlib.Logic.Function.Basic
import Mathlib.Tactic.Linarith
import Mathlib.Tactic.Ring
import Flock.Lib.SlidingWindow
import Flock.Providers

namespace Flock

open Lib (age)

/-- `TokenBucket`. -/
structure TokenBucket where
  tokens : ℚ
  capacity : ℚ
  rate : ℚ
  lastFill : ℤ
  deriving DecidableEq

namespace TokenBucket

/-- `TokenBucket::new`: full. -/
def new (ratePerSec capacity : ℚ) (now : ℤ) : TokenBucket := ⟨capacity, capacity, ratePerSec, now⟩

/-- `per_minute`. -/
def perMinute (rpm : ℚ) (now : ℤ) : TokenBucket := new (rpm / 60) (max rpm 1) now

/-- The tokens after the refill of `allow`. -/
def refilled (b : TokenBucket) (now : ℤ) : ℚ :=
  min (b.tokens + (age now b.lastFill : ℚ) / 1000000000 * b.rate) b.capacity

/-- `allow`: refill, then take one token if there is one. -/
def allow (b : TokenBucket) (now : ℤ) : Bool × TokenBucket :=
  if 1 ≤ b.refilled now then (true, { b with tokens := b.refilled now - 1, lastFill := now })
  else (false, { b with tokens := b.refilled now, lastFill := now })

variable {b : TokenBucket} {now t : ℤ}

theorem refilled_le (b : TokenBucket) (now : ℤ) : b.refilled now ≤ b.capacity := min_le_right _ _

theorem allow_eq_true_iff : (b.allow now).1 = true ↔ 1 ≤ b.refilled now := by
  unfold allow
  split <;> simp_all

@[simp] theorem capacity_allow (b : TokenBucket) (now : ℤ) : (b.allow now).2.capacity = b.capacity := by
  unfold allow
  split <;> rfl

@[simp] theorem rate_allow (b : TokenBucket) (now : ℤ) : (b.allow now).2.rate = b.rate := by
  unfold allow
  split <;> rfl

@[simp] theorem lastFill_allow (b : TokenBucket) (now : ℤ) : (b.allow now).2.lastFill = now := by
  unfold allow
  split <;> rfl

/-- A bucket that was just filled has its tokens, up to the capacity. -/
theorem refilled_of_lastFill (h : b.lastFill = now) : b.refilled now = min b.tokens b.capacity := by
  unfold refilled
  rw [h, Lib.age_self, Nat.cast_zero, zero_div, zero_mul, add_zero]

/-- **What `allow` leaves**: one token less, if it gave one. -/
theorem refilled_allow (b : TokenBucket) (now : ℤ) :
    (b.allow now).2.refilled now = b.refilled now - if (b.allow now).1 then 1 else 0 := by
  have hle := b.refilled_le now
  rw [refilled_of_lastFill (b.lastFill_allow now), capacity_allow]
  unfold allow
  split
  · apply min_eq_left
    show b.refilled now - 1 ≤ b.capacity
    linarith
  · show min (b.refilled now) b.capacity = b.refilled now - 0
    rw [min_eq_left hle, sub_zero]

/-- The refill between two instants is the rate times the time between them, at most. -/
theorem refilled_later (hrate : 0 ≤ b.rate) (hlast : b.lastFill ≤ now) (hle : now ≤ t) :
    b.refilled t ≤ b.refilled now + b.rate / 1000000000 * ((t - now : ℤ) : ℚ) := by
  have hnow : ((age now b.lastFill : ℕ) : ℚ) = ((now - b.lastFill : ℤ) : ℚ) := by
    exact_mod_cast Int.toNat_of_nonneg (sub_nonneg.mpr hlast)
  have ht : ((age t b.lastFill : ℕ) : ℚ) = ((t - b.lastFill : ℤ) : ℚ) := by
    exact_mod_cast Int.toNat_of_nonneg (sub_nonneg.mpr (le_trans hlast hle))
  have hsplit : b.tokens + ((t - b.lastFill : ℤ) : ℚ) / 1000000000 * b.rate =
      b.tokens + ((now - b.lastFill : ℤ) : ℚ) / 1000000000 * b.rate +
        b.rate / 1000000000 * ((t - now : ℤ) : ℚ) := by
    push_cast
    ring
  have hgrow : 0 ≤ b.rate / 1000000000 * ((t - now : ℤ) : ℚ) := by
    apply mul_nonneg (div_nonneg hrate (by norm_num))
    exact_mod_cast sub_nonneg.mpr hle
  unfold refilled
  rw [hnow, ht, hsplit]
  rcases le_total (b.tokens + ((now - b.lastFill : ℤ) : ℚ) / 1000000000 * b.rate) b.capacity with hlow | hhigh
  · rw [min_eq_left hlow]
    exact min_le_left _ _
  · rw [min_eq_right hhigh]
    apply le_trans (min_le_right _ _)
    linarith

/-- A new bucket is full, and stays it. -/
theorem refilled_perMinute (rpm : ℕ) (now t : ℤ) : (perMinute rpm now).refilled t = max (rpm : ℚ) 1 := by
  have hgrow : (0 : ℚ) ≤ (age t now : ℚ) / 1000000000 * ((rpm : ℚ) / 60) := by
    apply mul_nonneg
    · exact div_nonneg (Nat.cast_nonneg _) (by norm_num)
    · exact div_nonneg (Nat.cast_nonneg _) (by norm_num)
  show min (max (rpm : ℚ) 1 + (age t now : ℚ) / 1000000000 * ((rpm : ℚ) / 60)) (max (rpm : ℚ) 1) = _
  apply min_eq_right
  linarith

end TokenBucket

namespace ProviderDef

/-- The tightest explicit budget of an enabled key. -/
def tightest (p : ProviderDef) : Option ℕ :=
  ((p.keys.filter fun k => k.enabled && k.rpm > 0).map (·.rpm)).min?

/-- The budget of the provider's bucket: the tightest key, the provider's own, or the 10/60 rule. -/
def bucketRpm (p : ProviderDef) : ℕ :=
  match p.tightest with
  | some r => r
  | none => if p.defaultRpm > 0 then p.defaultRpm else if p.freeTier then 10 else 60

end ProviderDef

/-- `ProviderRateLimiter`. -/
structure ProviderRateLimiter where
  buckets : String → Option TokenBucket

namespace ProviderRateLimiter

/-- `ProviderRateLimiter::build`: every bucket is new, and full. -/
def build (providers : List ProviderDef) (now : ℤ) : ProviderRateLimiter where
  buckets := providers.foldl
    (fun buckets p => Function.update buckets p.name (some (.perMinute p.bucketRpm now))) fun _ => none

/-- The budget of the bucket of a name: that of the last record of the name. -/
def budgetOf (providers : List ProviderDef) (n : String) : Option ℕ :=
  ((providers.filter fun p => p.name == n).getLast?).map (·.bucketRpm)

/-- **What `build` builds**: the bucket of each name, full, from its budget. -/
theorem buckets_build (providers : List ProviderDef) (now : ℤ) (n : String) :
    (build providers now).buckets n =
      (budgetOf providers n).map fun rpm : ℕ => TokenBucket.perMinute rpm now := by
  induction providers using List.reverseRecOn with
  | nil => rfl
  | append_singleton providers p ih =>
      unfold build budgetOf at *
      simp only [List.foldl_append, List.foldl_cons, List.foldl_nil, List.filter_append]
      by_cases hname : p.name = n
      · subst hname
        simp
      · have hother : [p].filter (fun p => p.name == n) = [] := by simp [hname]
        rw [hother, List.append_nil, Function.update_of_ne (Ne.symm hname)]
        exact ih

/-- `ProviderRateLimiter::allow`: a provider the registry does not know is denied. -/
def allow (l : ProviderRateLimiter) (provider : String) (now : ℤ) : Bool × ProviderRateLimiter :=
  match l.buckets provider with
  | some b =>
      ((b.allow now).1, ⟨Function.update l.buckets provider (some (b.allow now).2)⟩)
  | none => (false, l)

end ProviderRateLimiter

end Flock
