/-
# Flock.RateLimit.Bound — what a bucket of `per_minute` lets through.

`Asked` is a bucket with the log of the calls it admitted; `asked` takes a whole list of calls.  The invariant is
`Lib.Metered`: since any instant, the admissions and the tokens left together are at most the capacity and the
refill since then.  What is refilled beyond the capacity is lost, which only helps.

The only caller of `per_minute` is `ProviderRateLimiter::build`, and the budgets it passes are positive
(`perMinute_of_build`).
-/
import Flock.Lib.Metered
import Flock.RateLimit

namespace Flock

open Lib (Metered age between)

namespace TokenBucket

/-- A bucket, and when it admitted a call, newest first. -/
structure Asked where
  bucket : TokenBucket
  admitted : List ℤ
  deriving DecidableEq

/-- One call of `allow`. -/
def Asked.call (s : Asked) (t : ℤ) : Asked where
  bucket := (s.bucket.allow t).2
  admitted := if (s.bucket.allow t).1 then t :: s.admitted else s.admitted

/-- A sequence of calls. -/
def asked (b : TokenBucket) (calls : List ℤ) : Asked := calls.foldl Asked.call ⟨b, []⟩

/-- A stretch of nanoseconds, in seconds. -/
def seconds (d : ℤ) : ℚ := (d : ℚ) / 1000000000

variable {b : TokenBucket} {s : Asked} {rpm : ℚ} {start now prev t : ℤ} {calls : List ℤ}

theorem asked_concat (b : TokenBucket) (calls : List ℤ) (t : ℤ) :
    asked b (calls ++ [t]) = (asked b calls).call t := by
  simp [asked]

/-- Tokens that are in range, and a rate that is not negative. -/
structure InRange (b : TokenBucket) : Prop where
  rate : 0 ≤ b.rate
  capacity : 1 ≤ b.capacity
  nonneg : 0 ≤ b.tokens
  full : b.tokens ≤ b.capacity

/-- A refill keeps what is there. -/
theorem InRange.tokens_le_refilled (h : b.InRange) (t : ℤ) : b.tokens ≤ b.refilled t := by
  have hgrow : 0 ≤ (age t b.lastFill : ℚ) / 1000000000 * b.rate := by
    apply mul_nonneg _ h.rate
    exact div_nonneg (Nat.cast_nonneg _) (by norm_num)
  apply le_min _ h.full
  linarith

theorem InRange.allow (h : b.InRange) (t : ℤ) : (b.allow t).2.InRange := by
  have hle := b.refilled_le t
  have hold := h.tokens_le_refilled t
  have hnonneg := h.nonneg
  refine ⟨by rw [rate_allow]; exact h.rate, by rw [capacity_allow]; exact h.capacity, ?_, ?_⟩
  · unfold TokenBucket.allow
    split
    · rename_i htoken
      show 0 ≤ b.refilled t - 1
      linarith
    · show 0 ≤ b.refilled t
      linarith
  · rw [capacity_allow]
    unfold TokenBucket.allow
    split
    · show b.refilled t - 1 ≤ b.capacity
      linarith
    · exact hle

theorem inRange_perMinute (hrpm : 0 ≤ rpm) (now : ℤ) : (perMinute rpm now).InRange where
  rate := div_nonneg hrpm (by norm_num)
  capacity := le_max_right _ _
  nonneg := le_trans zero_le_one (le_max_right rpm 1)
  full := le_refl _

/-- Whatever tokens are left, the time one token takes brings one. -/
theorem InRange.one_le_refilled (h : b.InRange) (hrate : 0 < b.rate)
    (hwait : 1 / b.rate ≤ seconds (t - b.lastFill)) : 1 ≤ b.refilled t := by
  have htoken : 1 ≤ seconds (t - b.lastFill) * b.rate := (div_le_iff₀ hrate).mp hwait
  have hage : seconds (t - b.lastFill) ≤ (age t b.lastFill : ℚ) / 1000000000 := by
    apply div_le_div_of_nonneg_right _ (by norm_num)
    exact_mod_cast Int.self_le_toNat (t - b.lastFill)
  have hmore := mul_le_mul_of_nonneg_right hage h.rate
  have hnonneg := h.nonneg
  apply le_min _ h.capacity
  linarith

/-- **`Sound cap rate now s`** — a bucket after its last call at `now`. -/
structure Sound (cap rate : ℚ) (now : ℤ) (s : Asked) : Prop where
  range : s.bucket.InRange
  capacity : s.bucket.capacity = cap
  refills : s.bucket.rate = rate
  last : s.bucket.lastFill = now
  metered : Metered cap (rate / 1000000000) s.admitted now (s.bucket.refilled now)

theorem sound_perMinute (hrpm : 0 ≤ rpm) (start : ℤ) :
    Sound (max rpm 1) (rpm / 60) start ⟨perMinute rpm start, []⟩ where
  range := inRange_perMinute hrpm start
  capacity := rfl
  refills := rfl
  last := rfl
  metered := by
    apply Metered.start
    · exact div_nonneg (div_nonneg hrpm (by norm_num)) (by norm_num)
    · exact le_trans zero_le_one (le_max_right _ _)
    · exact (perMinute rpm start).refilled_le start

/-- **One call keeps it so.** -/
theorem Sound.call {cap rate : ℚ} (h : Sound cap rate now s) (hle : now ≤ t) : Sound cap rate t (s.call t) := by
  obtain ⟨hrange, rfl, rfl, hlast, hmetered⟩ := h
  have hrate : 0 ≤ s.bucket.rate / 1000000000 := div_nonneg hrange.rate (by norm_num)
  have hlater := hmetered.later hrate hle (s.bucket.refilled_le t)
    (refilled_later hrange.rate (le_of_eq hlast) hle)
  refine ⟨hrange.allow t, capacity_allow _ _, rate_allow _ _, lastFill_allow _ _, ?_⟩
  show Metered _ _ (if (s.bucket.allow t).1 then t :: s.admitted else s.admitted) t
    ((s.bucket.allow t).2.refilled t)
  rw [refilled_allow]
  cases hallow : (s.bucket.allow t).1 with
  | true => exact hlater.take hrate (allow_eq_true_iff.mp hallow)
  | false =>
      show Metered _ _ s.admitted t (s.bucket.refilled t - 0)
      rw [sub_zero]
      exact hlater

/-- **Every sequence of calls, in the order of a monotone clock.** -/
theorem sound_asked (hrpm : 0 ≤ rpm) (hclock : (start :: calls).Pairwise (· ≤ ·)) :
    Sound (max rpm 1) (rpm / 60) ((start :: calls).getLast (List.cons_ne_nil _ _))
      (asked (perMinute rpm start) calls) := by
  induction calls using List.reverseRecOn with
  | nil => exact sound_perMinute hrpm start
  | append_singleton calls t ih =>
      rw [← List.cons_append, List.pairwise_append] at hclock
      obtain ⟨hbefore, -, hlast⟩ := hclock
      have hle := hlast _ (List.getLast_mem (List.cons_ne_nil start calls)) t (List.mem_singleton_self t)
      have hnow : (start :: (calls ++ [t])).getLast (List.cons_ne_nil _ _) = t := by
        rw [List.getLast_cons (by simp), List.getLast_concat]
      rw [asked_concat, hnow]
      exact (ih hbefore).call hle

/-- **A bucket of `per_minute` keeps to its budget.**  Whenever it is called, its tokens are from 0 to the
capacity; in a closed interval it admits no more calls than the capacity and what the rate refills in it; and a
call that comes the time of one token after the call before is admitted. -/
theorem perMinute_budget (rpm : ℚ) (start : ℤ) (calls : List ℤ) (hrpm : 0 ≤ rpm)
    (hclock : (start :: calls).Pairwise (· ≤ ·)) :
    (0 ≤ (asked (perMinute rpm start) calls).bucket.tokens ∧
      (asked (perMinute rpm start) calls).bucket.tokens ≤ (perMinute rpm start).capacity) ∧
    (∀ t₁ t₂, t₁ ≤ t₂ →
      (between t₁ t₂ (asked (perMinute rpm start) calls).admitted : ℚ) ≤
        (perMinute rpm start).capacity + (perMinute rpm start).rate * seconds (t₂ - t₁)) ∧
    ∀ prev ∈ (start :: calls).getLast?, ∀ t,
      0 < (perMinute rpm start).rate → 1 / (perMinute rpm start).rate ≤ seconds (t - prev) →
      ((asked (perMinute rpm start) calls).bucket.allow t).1 = true := by
  have h := sound_asked hrpm hclock
  refine ⟨⟨h.range.nonneg, ?_⟩, ?_, ?_⟩
  · have hfull := h.range.full
    rw [h.capacity] at hfull
    exact hfull
  · intro t₁ t₂ hle
    have hbound := h.metered.between t₁ t₂ hle
    have hticks : rpm / 60 / 1000000000 * ((t₂ - t₁ : ℤ) : ℚ) = rpm / 60 * seconds (t₂ - t₁) := by
      unfold seconds
      ring
    rw [hticks] at hbound
    exact hbound
  · intro prev hprev t hrate hwait
    obtain rfl : (start :: calls).getLast (List.cons_ne_nil _ _) = prev := by
      rw [List.getLast?_eq_some_getLast (List.cons_ne_nil start calls)] at hprev
      exact Option.some.inj hprev
    apply allow_eq_true_iff.mpr
    apply h.range.one_le_refilled
    · rw [h.refills]
      exact hrate
    · rw [h.refills, h.last]
      exact hwait

/-- Half a token a second: two calls at once are refused the second time, two seconds later one is admitted. -/
theorem perMinute_budget_thirty :
    (between 0 0 (asked (perMinute 30 0) [0, 0]).admitted : ℚ) ≤ 30 ∧
      ((asked (perMinute 30 0) [0, 0]).bucket.allow 2000000000).1 = true := by
  obtain ⟨-, hbetween, hadmits⟩ := perMinute_budget 30 0 [0, 0] (by norm_num) (by decide)
  constructor
  · have h := hbetween 0 0 (le_refl 0)
    norm_num [perMinute, new, seconds] at h ⊢
    exact h
  · apply hadmits 0 (by decide)
    · norm_num [perMinute, new]
    · norm_num [perMinute, new, seconds]

end TokenBucket

/-! ## The buckets of the providers -/

/-- The budget of a provider is never zero. -/
theorem ProviderDef.bucketRpm_pos (p : ProviderDef) : 0 < p.bucketRpm := by
  unfold bucketRpm
  split
  · rename_i r htight
    have hmem := List.min?_mem htight
    obtain ⟨k, hk, rfl⟩ := List.mem_map.mp hmem
    have hkey := (List.mem_filter.mp hk).2
    rw [Bool.and_eq_true, decide_eq_true_eq] at hkey
    exact hkey.2
  · split
    · assumption
    · split <;> decide

/-- Every bucket of the limiter is one of `per_minute`, for a positive budget. -/
theorem ProviderRateLimiter.perMinute_of_build {providers : List ProviderDef} {now : ℤ} {n : String}
    {b : TokenBucket} (h : (build providers now).buckets n = some b) :
    ∃ rpm : ℕ, 0 < rpm ∧ b = .perMinute rpm now := by
  rw [buckets_build, budgetOf, Option.map_map, Option.map_eq_some_iff] at h
  obtain ⟨p, -, rfl⟩ := h
  exact ⟨p.bucketRpm, p.bucketRpm_pos, rfl⟩

end Flock
