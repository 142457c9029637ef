/-
# Flock.Dashboard.Quantile — the quantile of a histogram, as the dashboard estimates it.

A histogram is a list of cumulative buckets: how many observations were at most `le`.  `quantile` looks for the
first bucket whose count reaches the rank, and goes from the bound before it to its own in proportion.  The last
bucket has no bound; there the estimate stays at the bound before.

The script's numbers are rationals here, with `⊤` for `Infinity` and no value for `NaN`.
-/
import Mathlib.Algebra.Order.Field.Basic
import Mathlib.Algebra.Order.Field.Rat
import Mathlib.Data.List.Pairwise
import Mathlib.Order.WithBot
import Mathlib.Tactic.Linarith
import Mathlib.Tactic.Ring

namespace Flock.Dashboard

/-! ## The estimate -/

/-- `{ le, count }`. -/
structure Bucket where
  le : WithTop ℚ
  count : ℚ
  deriving DecidableEq

/-- What `prev` is before the first bucket. -/
def Bucket.origin : Bucket := ⟨(0 : ℚ), 0⟩

/-- `b.le === Infinity ? prev.le || 1 : b.le`, where `lo` is `prev.le`. -/
def upperBound (lo : ℚ) (b : Bucket) : ℚ := b.le.recTopCoe (if lo = 0 then 1 else lo) id

/-- The value returned for the bucket that was found. An infinite bound before it leaves `Infinity - Infinity`. -/
def interpolate (prev b : Bucket) (target : ℚ) : Option (WithTop ℚ) :=
  prev.le.recTopCoe none fun lo =>
    some ((lo + (upperBound lo b - lo) * (target - prev.count) / max 1 (b.count - prev.count) : ℚ) : WithTop ℚ)

/-- The loop of `quantile`. -/
def quantileLoop (target : ℚ) : Bucket → List Bucket → Option (WithTop ℚ)
  | prev, [] => some prev.le
  | prev, b :: rest => if target ≤ b.count then interpolate prev b target else quantileLoop target b rest

/-- `bs.length ? bs[bs.length-1].count : 0`. -/
def total (bs : List Bucket) : ℚ := (bs.getLast?.map Bucket.count).getD 0

/-- `quantile`. -/
def quantile (bs : List Bucket) (q : ℚ) : Option (WithTop ℚ) :=
  if total bs ≤ 0 then none else quantileLoop (total bs * q) .origin bs

/-! ## Cumulative buckets -/

/-- **`Cumulative bs`** — bounds from zero up to `+Inf`, and whole counts that never go down. -/
structure Cumulative (bs : List Bucket) : Prop where
  increasing : bs.Pairwise fun b c => b.le < c.le
  nonneg : ∀ b ∈ bs, 0 ≤ b.le
  overflow : bs.getLast?.map Bucket.le = some ⊤
  counts : bs.Pairwise fun b c => b.count ≤ c.count
  whole : ∀ b ∈ bs, ∃ n : ℕ, b.count = n

/-- What the loop needs of the bucket before and of those that are left. -/
structure Ahead (prev : Bucket) (bs : List Bucket) : Prop where
  finite : prev.le ≠ ⊤
  nonneg : 0 ≤ prev.le
  bounds : ∀ b ∈ bs, prev.le ≤ b.le
  increasing : bs.Pairwise fun b c => b.le < c.le
  whole : ∀ b ∈ prev :: bs, ∃ n : ℕ, b.count = n

variable {prev b : Bucket} {bs rest : List Bucket} {target target' q q' : ℚ}

theorem Cumulative.ahead (h : Cumulative bs) : Ahead .origin bs where
  finite := WithTop.coe_ne_top
  nonneg := le_refl _
  bounds := h.nonneg
  increasing := h.increasing
  whole := by
    intro b hb
    rcases List.mem_cons.mp hb with rfl | hb
    · exact ⟨0, by simp [Bucket.origin]⟩
    · exact h.whole b hb

/-- A bucket that is passed over takes the place of the one before. Only the last is infinite. -/
theorem Ahead.next (h : Ahead prev (b :: rest)) (hrest : rest ≠ []) : Ahead b rest := by
  obtain ⟨hlt, hincreasing⟩ := List.pairwise_cons.mp h.increasing
  obtain ⟨c, hc⟩ := List.exists_mem_of_ne_nil rest hrest
  exact {
    finite := ne_top_of_lt (hlt c hc)
    nonneg := h.nonneg.trans (h.bounds b List.mem_cons_self)
    bounds := fun c hc => le_of_lt (hlt c hc)
    increasing := hincreasing
    whole := fun c hc => h.whole c (List.mem_cons_of_mem prev hc) }

/-! ## One bucket -/

/-- How far into the bucket the rank lies. -/
def fraction (prev b : Bucket) (target : ℚ) : ℚ := (target - prev.count) / max 1 (b.count - prev.count)

/-- The estimate goes that far from one bound to the other. -/
theorem interpolate_eq {lo : ℚ} (hlo : prev.le = lo) :
    interpolate prev b target = some ((lo + (upperBound lo b - lo) * fraction prev b target : ℚ) : WithTop ℚ) := by
  unfold interpolate fraction
  rw [hlo, WithTop.recTopCoe_coe, mul_div_assoc]

/-- The count of the bucket that is found is a whole number above the one before, so the guard of the denominator
changes nothing. -/
theorem one_le_count_sub (hprev : ∃ n : ℕ, prev.count = n) (hb : ∃ n : ℕ, b.count = n)
    (hlt : prev.count < b.count) : 1 ≤ b.count - prev.count := by
  obtain ⟨m, hm⟩ := hprev
  obtain ⟨n, hn⟩ := hb
  rw [hm, hn] at hlt ⊢
  have hmn : m + 1 ≤ n := Nat.cast_lt.mp hlt
  have hcast : (m : ℚ) + 1 ≤ n := by exact_mod_cast hmn
  linarith

/-- **The fraction** is between zero and one. -/
theorem fraction_mem (hstep : 1 ≤ b.count - prev.count) (hlt : prev.count < target) (hle : target ≤ b.count) :
    0 ≤ fraction prev b target ∧ fraction prev b target ≤ 1 := by
  have hpos : 0 < b.count - prev.count := by linarith
  unfold fraction
  rw [max_eq_right hstep]
  exact ⟨div_nonneg (by linarith) hpos.le, (div_le_one hpos).mpr (by linarith)⟩

theorem fraction_mono (hle : target ≤ target') : fraction prev b target ≤ fraction prev b target' := by
  have hpos : (0 : ℚ) < max 1 (b.count - prev.count) := lt_of_lt_of_le one_pos (le_max_left 1 _)
  unfold fraction
  exact div_le_div_of_nonneg_right (by linarith) hpos.le

/-- The bound the estimate goes up to is not below the one it starts from, and not above the bucket's own. -/
theorem upperBound_mem {lo : ℚ} (_hnonneg : 0 ≤ lo) (hle : (lo : WithTop ℚ) ≤ b.le) :
    lo ≤ upperBound lo b ∧ (upperBound lo b : WithTop ℚ) ≤ b.le := by
  unfold upperBound
  induction hb : b.le using WithTop.recTopCoe with
  | top =>
      refine ⟨?_, le_top⟩
      show lo ≤ if lo = 0 then 1 else lo
      split <;> linarith
  | coe hi =>
      rw [hb] at hle
      exact ⟨WithTop.coe_le_coe.mp hle, le_refl _⟩

/-- The bound before a bucket is a number, and the estimate goes up from it. -/
theorem Ahead.exists_lo (h : Ahead prev (b :: rest)) :
    ∃ lo : ℚ, prev.le = lo ∧ lo ≤ upperBound lo b ∧ (upperBound lo b : WithTop ℚ) ≤ b.le := by
  obtain ⟨lo, hlo⟩ := WithTop.ne_top_iff_exists.mp h.finite
  have hnonneg : 0 ≤ lo := by
    have hprev := h.nonneg
    rw [← hlo] at hprev
    exact_mod_cast hprev
  have hbound : (lo : WithTop ℚ) ≤ b.le := by
    rw [hlo]
    exact h.bounds b List.mem_cons_self
  exact ⟨lo, hlo.symm, upperBound_mem hnonneg hbound⟩

/-- **The value of a bucket** is inside it, and in the overflow bucket it is the bound before, if that is positive. -/
theorem interpolate_mem (h : Ahead prev (b :: rest)) (hlt : prev.count < target) (hle : target ≤ b.count) :
    ∃ v : ℚ, interpolate prev b target = some v ∧ prev.le ≤ v ∧ (v : WithTop ℚ) ≤ b.le ∧
      (b.le = ⊤ → 0 < prev.le → prev.le = v) := by
  obtain ⟨lo, hlo, hup, hin⟩ := h.exists_lo
  have hstep := one_le_count_sub (h.whole prev List.mem_cons_self) (h.whole b (by simp)) (hlt.trans_le hle)
  obtain ⟨hzero, hone⟩ := fraction_mem hstep hlt hle
  have hgap : 0 ≤ upperBound lo b - lo := by linarith
  refine ⟨lo + (upperBound lo b - lo) * fraction prev b target, interpolate_eq hlo, ?_, ?_, ?_⟩
  · have hmul := mul_nonneg hgap hzero
    rw [hlo]
    exact WithTop.coe_le_coe.mpr (by linarith)
  · have hmul := mul_le_of_le_one_right hgap hone
    exact le_trans (WithTop.coe_le_coe.mpr (by linarith)) hin
  · intro htop hpos
    rw [hlo] at hpos ⊢
    have hlo' : lo ≠ 0 := (WithTop.coe_lt_coe.mp hpos).ne'
    have hstay : upperBound lo b = lo := by
      unfold upperBound
      rw [htop]
      exact if_neg hlo'
    rw [hstay, sub_self, zero_mul, add_zero]

/-- In one bucket the value does not go down with the rank. -/
theorem interpolate_mono (h : Ahead prev (b :: rest)) (hle : target ≤ target') {v v' : ℚ}
    (hv : interpolate prev b target = some v) (hv' : interpolate prev b target' = some v') : v ≤ v' := by
  obtain ⟨lo, hlo, hup, -⟩ := h.exists_lo
  rw [interpolate_eq hlo] at hv hv'
  have hval := WithTop.coe_inj.mp (Option.some.inj hv)
  have hval' := WithTop.coe_inj.mp (Option.some.inj hv')
  have hfraction : fraction prev b target ≤ fraction prev b target' := fraction_mono hle
  have hmul := mul_le_mul_of_nonneg_left hfraction (sub_nonneg.mpr hup)
  linarith

/-! ## The loop -/

/-- A bucket that does not reach the rank leaves it to the rest. -/
theorem reaches_rest (hreach : ∃ c ∈ b :: rest, target ≤ c.count) (hfound : ¬ target ≤ b.count) :
    rest ≠ [] ∧ ∃ c ∈ rest, target ≤ c.count := by
  obtain ⟨c, hc, hcount⟩ := hreach
  rcases List.mem_cons.mp hc with rfl | hc
  · exact absurd hcount hfound
  · exact ⟨List.ne_nil_of_mem hc, c, hc, hcount⟩

/-- What `quantileLoop` finds: the first bucket that reaches the rank, after those that do not. -/
theorem quantileLoop_spec (h : Ahead prev bs) (hlt : prev.count < target) (hreach : ∃ b ∈ bs, target ≤ b.count) :
    ∃ front b back, bs = front ++ b :: back ∧ (∀ c ∈ prev :: front, c.count < target) ∧ target ≤ b.count ∧
      Ahead (front.getLast?.getD prev) (b :: back) ∧ (∀ c ∈ prev :: front, c.le ≤ (front.getLast?.getD prev).le) ∧
      quantileLoop target prev bs = interpolate (front.getLast?.getD prev) b target := by
  induction bs generalizing prev with
  | nil =>
      obtain ⟨b, hb, -⟩ := hreach
      exact absurd hb List.not_mem_nil
  | cons b rest ih =>
      -- the first bucket that reaches the target is the one
      by_cases hfound : target ≤ b.count
      · refine ⟨[], b, rest, rfl, ?_, hfound, h, ?_, if_pos hfound⟩
        · intro c hc
          rw [List.mem_singleton.mp hc]
          exact hlt
        · intro c hc
          rw [List.mem_singleton.mp hc]
          exact le_refl _
      -- it is further back, and this one is in front of it
      · obtain ⟨hrest, hreach'⟩ := reaches_rest hreach hfound
        obtain ⟨front, found, back, hsplit, hbelow, hcount, hahead, hbounds, hloop⟩ :=
          ih (h.next hrest) (lt_of_not_ge hfound) hreach'
        have hlast : (b :: front).getLast?.getD prev = front.getLast?.getD b := by
          rw [List.getLast?_cons]
          rfl
        refine ⟨b :: front, found, back, by rw [hsplit, List.cons_append], ?_, hcount, hlast ▸ hahead, ?_, ?_⟩
        · intro c hc
          rcases List.mem_cons.mp hc with rfl | hc
          · exact hlt
          · exact hbelow c hc
        · intro c hc
          rw [hlast]
          rcases List.mem_cons.mp hc with rfl | hc
          · exact (h.bounds b List.mem_cons_self).trans (hbounds b List.mem_cons_self)
          · exact hbounds c hc
        · rw [hlast, ← hloop]
          exact if_neg hfound

theorem getD_getLast?_mem (front : List Bucket) : front.getLast?.getD prev ∈ prev :: front := by
  cases hlast : front.getLast? with
  | none => exact List.mem_cons_self
  | some c => exact List.mem_cons_of_mem prev (List.mem_of_getLast? hlast)

/-- The value is never below the bound the loop starts from. -/
theorem le_quantileLoop (h : Ahead prev bs) (hlt : prev.count < target) (hreach : ∃ b ∈ bs, target ≤ b.count) {v : ℚ}
    (hv : quantileLoop target prev bs = some v) : prev.le ≤ v := by
  obtain ⟨front, b, back, -, hbelow, hcount, hahead, hbounds, hloop⟩ := quantileLoop_spec h hlt hreach
  obtain ⟨w, hw, hlow, -⟩ := interpolate_mem hahead (hbelow _ (getD_getLast?_mem front)) hcount
  rw [hloop, hw] at hv
  rw [← Option.some.inj hv]
  exact (hbounds prev List.mem_cons_self).trans hlow

/-- **A higher rank** is not found in an earlier bucket, nor lower in the same one. -/
theorem quantileLoop_mono (h : Ahead prev bs) (hlt : prev.count < target) (hle : target ≤ target')
    (hreach : ∃ b ∈ bs, target' ≤ b.count) {v v' : ℚ} (hv : quantileLoop target prev bs = some v)
    (hv' : quantileLoop target' prev bs = some v') : v ≤ v' := by
  induction bs generalizing prev with
  | nil =>
      obtain ⟨b, hb, -⟩ := hreach
      exact absurd hb List.not_mem_nil
  | cons b rest ih =>
      unfold quantileLoop at hv hv'
      by_cases hfound' : target' ≤ b.count
      · rw [if_pos hfound'] at hv'
        rw [if_pos (hle.trans hfound')] at hv
        exact interpolate_mono h hle hv hv'
      · obtain ⟨hrest, hreach'⟩ := reaches_rest hreach hfound'
        rw [if_neg hfound'] at hv'
        by_cases hfound : target ≤ b.count
        · -- the bound of this bucket is between the two
          rw [if_pos hfound] at hv
          obtain ⟨w, hw, -, hup, -⟩ := interpolate_mem h hlt hfound
          have hlow := le_quantileLoop (h.next hrest) (lt_of_not_ge hfound') hreach' hv'
          rw [hw] at hv
          rw [Option.some.inj hv] at hup
          exact WithTop.coe_le_coe.mp (hup.trans hlow)
        · rw [if_neg hfound] at hv
          exact ih (h.next hrest) (lt_of_not_ge hfound) hreach' hv hv'

/-! ## `quantile` -/

/-- The last bucket has the total, and no bound. -/
theorem Cumulative.exists_last (h : Cumulative bs) : ∃ b ∈ bs, b.le = ⊤ ∧ total bs = b.count := by
  obtain ⟨b, hlast, htop⟩ := Option.map_eq_some_iff.mp h.overflow
  refine ⟨b, List.mem_of_getLast? hlast, htop, ?_⟩
  unfold total
  rw [hlast]
  rfl

/-- A share of the total is a rank that the loop comes to. -/
theorem Cumulative.rank (h : Cumulative bs) (hpos : 0 < total bs) (hq : 0 < q) (hle : q ≤ 1) :
    Bucket.origin.count < total bs * q ∧ ∃ b ∈ bs, total bs * q ≤ b.count := by
  obtain ⟨b, hb, -, htotal⟩ := h.exists_last
  refine ⟨mul_pos hpos hq, b, hb, ?_⟩
  rw [← htotal]
  exact mul_le_of_le_one_right hpos.le hle

theorem quantile_of_pos (hpos : 0 < total bs) : quantile bs q = quantileLoop (total bs * q) .origin bs :=
  if_neg (not_le.mpr hpos)

/-- After the infinite bucket there is none. -/
theorem Cumulative.mem_front {front back : List Bucket} (h : Cumulative bs) (hsplit : bs = front ++ b :: back)
    (htop : b.le = ⊤) {c : Bucket} (hc : c ∈ bs) (hfinite : c.le ≠ ⊤) : c ∈ front := by
  have hincreasing := h.increasing
  rw [hsplit] at hincreasing hc
  rcases List.mem_append.mp hc with hfront | hback
  · exact hfront
  · rcases List.mem_cons.mp hback with rfl | hback
    · exact absurd htop hfinite
    · have hlt := (List.pairwise_cons.mp (List.pairwise_append.mp hincreasing).2.1).1 c hback
      rw [htop] at hlt
      exact absurd hlt not_top_lt

/-- `v` is the largest finite bound. -/
def LargestBound (bs : List Bucket) (v : ℚ) : Prop := (∃ c ∈ bs, c.le = v) ∧ ∀ c ∈ bs, c.le ≠ ⊤ → c.le ≤ v

/-- **The quantile estimate.**  For a share `q` of the observations, the value is inside the bucket that holds the
rank: the buckets before do not reach it, the bucket does.  In the overflow bucket it is the largest finite bound, if
a positive one exists.  Nothing is divided by zero, the fraction of the bucket is between zero and one, and the value
does not go down as `q` goes up: the median is not above the 95th percentile. -/
theorem quantile_estimate (h : Cumulative bs) (hpos : 0 < total bs) :
    (∀ q, 0 < q → q ≤ 1 → ∃ front b back, ∃ v : ℚ, bs = front ++ b :: back ∧
      (∀ c ∈ front, c.count < total bs * q) ∧ total bs * q ≤ b.count ∧ quantile bs q = some v ∧
      (front.getLast?.getD .origin).le ≤ (v : WithTop ℚ) ∧ (v : WithTop ℚ) ≤ b.le ∧
      (b.le = ⊤ → (∃ c ∈ bs, 0 < c.le ∧ c.le ≠ ⊤) → LargestBound bs v) ∧
      max 1 (b.count - (front.getLast?.getD .origin).count) ≠ 0 ∧
      0 ≤ fraction (front.getLast?.getD .origin) b (total bs * q) ∧
      fraction (front.getLast?.getD .origin) b (total bs * q) ≤ 1) ∧
    (∀ q q', 0 < q → q ≤ q' → q' ≤ 1 → ∃ v v' : ℚ, quantile bs q = some v ∧ quantile bs q' = some v' ∧ v ≤ v') ∧
    ∃ p50 p95 : ℚ, quantile bs (1 / 2) = some p50 ∧ quantile bs (19 / 20) = some p95 ∧ p50 ≤ p95 := by
  -- a larger share is reached no earlier, and within one bucket further up
  have hmono : ∀ q q', 0 < q → q ≤ q' → q' ≤ 1 →
      ∃ v v' : ℚ, quantile bs q = some v ∧ quantile bs q' = some v' ∧ v ≤ v' := by
    intro q q' hq hqq' hq'
    have hvalue : ∀ r, 0 < r → r ≤ 1 → ∃ v : ℚ, quantileLoop (total bs * r) .origin bs = some v := by
      intro r hr hr'
      obtain ⟨hlt, hreach⟩ := h.rank hpos hr hr'
      obtain ⟨front, b, back, -, hbelow, hcount, hahead, -, hloop⟩ := quantileLoop_spec h.ahead hlt hreach
      obtain ⟨v, hv, -⟩ := interpolate_mem hahead (hbelow _ (getD_getLast?_mem front)) hcount
      exact ⟨v, hloop.trans hv⟩
    obtain ⟨v, hv⟩ := hvalue q hq (hqq'.trans hq')
    obtain ⟨v', hv'⟩ := hvalue q' (hq.trans_le hqq') hq'
    obtain ⟨hlt, -⟩ := h.rank hpos hq (hqq'.trans hq')
    obtain ⟨-, hreach⟩ := h.rank hpos (hq.trans_le hqq') hq'
    refine ⟨v, v', (quantile_of_pos hpos).trans hv, (quantile_of_pos hpos).trans hv', ?_⟩
    exact quantileLoop_mono h.ahead hlt (mul_le_mul_of_nonneg_left hqq' hpos.le) hreach hv hv'
  refine ⟨?_, hmono, hmono _ _ (by norm_num) (by norm_num) (by norm_num)⟩
  intro q hq hq'
  obtain ⟨hlt, hreach⟩ := h.rank hpos hq hq'
  -- the bucket that the share falls into, and the buckets before it
  obtain ⟨front, b, back, hsplit, hbelow, hcount, hahead, hbounds, hloop⟩ := quantileLoop_spec h.ahead hlt hreach
  have hprev := hbelow _ (getD_getLast?_mem front)
  obtain ⟨v, hv, hlow, hup, hstay⟩ := interpolate_mem hahead hprev hcount
  have hstep := one_le_count_sub (hahead.whole _ List.mem_cons_self) (hahead.whole b (by simp)) (hprev.trans_le hcount)
  refine ⟨front, b, back, v, hsplit, fun c hc => hbelow c (List.mem_cons_of_mem _ hc), hcount, ?_, hlow, hup, ?_, ?_,
    fraction_mem hstep hprev hcount⟩
  · rw [quantile_of_pos hpos, hloop, hv]
  -- beyond the last finite bound the estimate stays at that bound
  · rintro htop ⟨c, hc, hcpos, hcfinite⟩
    have hfront := h.mem_front hsplit htop hc hcfinite
    have hvalue := hstay htop (hcpos.trans_le (hbounds c (List.mem_cons_of_mem _ hfront)))
    refine ⟨⟨front.getLast?.getD .origin, ?_, hvalue⟩, fun d hd hdfinite => ?_⟩
    · have hne : front ≠ [] := List.ne_nil_of_mem hfront
      rw [List.getLast?_eq_some_getLast hne, hsplit]
      exact List.mem_append_left _ (List.getLast_mem hne)
    · rw [← hvalue]
      exact hbounds d (List.mem_cons_of_mem _ (h.mem_front hsplit htop hd hdfinite))
  · rw [max_eq_right hstep]
    linarith

/-- Four observations: two up to 1, one more up to 5/2, one above. -/
def fourObservations : List Bucket := [⟨(1 : ℚ), 2⟩, ⟨(5 / 2 : ℚ), 3⟩, ⟨⊤, 4⟩]

theorem cumulative_fourObservations : Cumulative fourObservations where
  increasing := by decide +kernel
  nonneg := by decide +kernel
  overflow := by decide
  counts := by decide +kernel
  whole := by
    intro b hb
    simp only [fourObservations, List.mem_cons, List.not_mem_nil, or_false] at hb
    rcases hb with rfl | rfl | rfl
    · exact ⟨2, by norm_num⟩
    · exact ⟨3, by norm_num⟩
    · exact ⟨4, by norm_num⟩

/-- The median is the bound of the first bucket; the 95th percentile is in the overflow. -/
theorem quantile_estimate_four : quantile fourObservations (1 / 2) = some (1 : ℚ) ∧
    quantile fourObservations (19 / 20) = some (5 / 2 : ℚ) ∧
    ∃ p50 p95 : ℚ, quantile fourObservations (1 / 2) = some p50 ∧
      quantile fourObservations (19 / 20) = some p95 ∧ p50 ≤ p95 :=
  ⟨by decide +kernel, by decide +kernel, (quantile_estimate cumulative_fourObservations (by decide)).2.2⟩

end Flock.Dashboard
