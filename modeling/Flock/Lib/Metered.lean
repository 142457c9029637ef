/-
# Flock.Lib.Metered — the law of a token bucket, over the log of what it let through.

A bucket of some capacity is refilled at a rate and gives one token to each event it lets through.
`Metered cap rate log now level` says what this means for the log: since any instant, events and tokens left
together are at most the capacity and the refill since then, and in any interval the events alone are.  The
lemmas are the moves of a bucket: time passes, and an event takes a token.

Times are integers (clock ticks), levels are in an ordered field, rates are per tick.
-/
import Mathlib.Algebra.Order.Field.Basic
import Mathlib.Algebra.Order.Ring.Cast
import Mathlib.Data.List.Count
import Mathlib.Tactic.Linarith
import Mathlib.Tactic.Ring

namespace Flock.Lib

variable {K : Type*} [Field K] [LinearOrder K] [IsStrictOrderedRing K]

/-- The events of a log from `t₁` on. -/
def since (t₁ : ℤ) (log : List ℤ) : ℕ := log.countP fun t => decide (t₁ ≤ t)

/-- The events of a log from `t₁` to `t₂`. -/
def between (t₁ t₂ : ℤ) (log : List ℤ) : ℕ := log.countP fun t => decide (t₁ ≤ t ∧ t ≤ t₂)

/-- **`Metered`** — a log, and the tokens left at `now`. -/
structure Metered (cap rate : K) (log : List ℤ) (now : ℤ) (level : K) : Prop where
  past : ∀ t ∈ log, t ≤ now
  full : level ≤ cap
  since : ∀ t₁ ≤ now, (since t₁ log : K) + level ≤ cap + rate * ((now - t₁ : ℤ) : K)
  between : ∀ t₁ t₂, t₁ ≤ t₂ → (between t₁ t₂ log : K) ≤ cap + rate * ((t₂ - t₁ : ℤ) : K)

variable {cap rate level level' : K} {log : List ℤ} {now t t₁ t₂ : ℤ}

theorem between_le_since (t₁ t₂ : ℤ) (log : List ℤ) : between t₁ t₂ log ≤ since t₁ log := by
  apply List.countP_mono_left
  intro t _ h
  simp only [decide_eq_true_eq] at h ⊢
  exact h.1

theorem since_eq_zero (h : ∀ t ∈ log, t < t₁) : since t₁ log = 0 := by
  apply List.countP_eq_zero.mpr
  intro t ht
  have hlt := h t ht
  simp only [decide_eq_true_eq]
  omega

/-- What a stretch of time refills is not negative. -/
theorem refill_nonneg (hrate : 0 ≤ rate) (h : t₁ ≤ t₂) : 0 ≤ rate * ((t₂ - t₁ : ℤ) : K) := by
  apply mul_nonneg hrate
  exact_mod_cast sub_nonneg.mpr h

/-- An empty log. -/
theorem Metered.start (hrate : 0 ≤ rate) (hcap : 0 ≤ cap) (hfull : level ≤ cap) :
    Metered cap rate [] now level where
  past t ht := by cases ht
  full := hfull
  since t₁ h := by
    have hrefill := refill_nonneg hrate h
    simp only [Lib.since, List.countP_nil, Nat.cast_zero]
    linarith
  between t₁ t₂ h := by
    have hrefill := refill_nonneg hrate h
    simp only [Lib.between, List.countP_nil, Nat.cast_zero]
    linarith

/-- Time passes, and the bucket is refilled. -/
theorem Metered.later (h : Metered cap rate log now level) (hrate : 0 ≤ rate) (hle : now ≤ t)
    (hfull : level' ≤ cap) (hrefill : level' ≤ level + rate * ((t - now : ℤ) : K)) :
    Metered cap rate log t level' where
  past x hx := le_trans (h.past x hx) hle
  full := hfull
  since t₁ ht₁ := by
    rcases le_or_gt t₁ now with hold | hnew
    · have hbefore := h.since t₁ hold
      have hsplit : rate * ((t - t₁ : ℤ) : K) =
          rate * ((now - t₁ : ℤ) : K) + rate * ((t - now : ℤ) : K) := by
        push_cast
        ring
      rw [hsplit]
      linarith
    · -- nothing has happened since `t₁`
      have hzero : Lib.since t₁ log = 0 := since_eq_zero fun x hx => lt_of_le_of_lt (h.past x hx) hnew
      have hpast := refill_nonneg hrate ht₁
      rw [hzero, Nat.cast_zero]
      linarith
  between := h.between

/-- An event takes a token. -/
theorem Metered.take (h : Metered cap rate log now level) (hrate : 0 ≤ rate) (hlevel : 1 ≤ level) :
    Metered cap rate (now :: log) now (level - 1) where
  past t ht := by
    rcases List.mem_cons.mp ht with rfl | hold
    · exact le_refl t
    · exact h.past t hold
  full := by
    have := h.full
    linarith
  since t₁ ht₁ := by
    have hbefore := h.since t₁ ht₁
    have hcount : Lib.since t₁ (now :: log) = Lib.since t₁ log + 1 :=
      List.countP_cons_of_pos (by simpa using ht₁)
    rw [hcount, Nat.cast_succ]
    linarith
  between t₁ t₂ ht := by
    by_cases hin : t₁ ≤ now ∧ now ≤ t₂
    · have hbefore := h.since t₁ hin.1
      have hcount : Lib.between t₁ t₂ (now :: log) = Lib.between t₁ t₂ log + 1 :=
        List.countP_cons_of_pos (by simpa using hin)
      have hle : (Lib.between t₁ t₂ log : K) ≤ (Lib.since t₁ log : K) := by
        exact_mod_cast between_le_since t₁ t₂ log
      have hmore : rate * ((now - t₁ : ℤ) : K) ≤ rate * ((t₂ - t₁ : ℤ) : K) := by
        apply mul_le_mul_of_nonneg_left _ hrate
        exact_mod_cast sub_le_sub_right hin.2 t₁
      rw [hcount, Nat.cast_succ]
      linarith
    · have hcount : Lib.between t₁ t₂ (now :: log) = Lib.between t₁ t₂ log :=
        List.countP_cons_of_neg (by simpa using hin)
      rw [hcount]
      exact h.between t₁ t₂ ht

end Flock.Lib
