/-
# Flock.Lib.Binary64 — rounding to binary64.

A float is a rational number, an infinity, or no number; the sign of a zero is not kept.  A number is rounded to a
multiple of the unit in its last place, a half to the even one, and what reaches `2 ^ 1024` is infinite.

`le_nearest` and `nearest_le` say where a float begins: at the half below it, if its last place is even.
`nearest_mono` and `nearest_le_nearest` say that rounding keeps the order, and the floats.  So a sum of floats that
are not negative, rounded at each step, does not grow when some of them are left out (`sum_atMost_of_sublist`).
-/
import Mathlib.Algebra.Order.Floor.Ring
import Mathlib.Data.Int.Log
import Mathlib.Data.Rat.Floor
import Mathlib.Tactic.Linarith
import Mathlib.Tactic.NormNum
import Mathlib.Tactic.Positivity
import Mathlib.Tactic.Ring

namespace Flock.Lib

/-! ## Integers

Rounding to an integer is monotone and leaves integers where they are; everything about floats comes from that, scaled
by a power of two. -/

/-- The nearest integer, and the even one of two. -/
def roundEven (x : ℚ) : ℤ :=
  if x - ⌊x⌋ < 1 / 2 then ⌊x⌋
  else if 1 / 2 < x - ⌊x⌋ then ⌊x⌋ + 1
  else if ⌊x⌋ % 2 = 0 then ⌊x⌋ else ⌊x⌋ + 1

/-- One of the two integers around it. -/
theorem roundEven_eq_floor_or (x : ℚ) : roundEven x = ⌊x⌋ ∨ roundEven x = ⌊x⌋ + 1 ∧ 1 / 2 ≤ x - ⌊x⌋ := by
  unfold roundEven
  split
  · exact .inl rfl
  · rename_i hlow
    split
    · exact .inr ⟨rfl, not_lt.mp hlow⟩
    · split
      · exact .inl rfl
      · exact .inr ⟨rfl, not_lt.mp hlow⟩

theorem le_roundEven {x : ℚ} {M : ℤ} (h : (M : ℚ) ≤ x) : M ≤ roundEven x := by
  have hfloor : M ≤ ⌊x⌋ := Int.le_floor.mpr h
  rcases roundEven_eq_floor_or x with hround | ⟨hround, -⟩ <;> omega

theorem roundEven_le {x : ℚ} {M : ℤ} (h : x ≤ M) : roundEven x ≤ M := by
  rcases roundEven_eq_floor_or x with hround | ⟨hround, hhalf⟩
  · have hfloor : ⌊x⌋ ≤ M := by
      have hle := (Int.floor_le x).trans h
      exact_mod_cast hle
    omega
  · have hlt : (⌊x⌋ : ℚ) < M := by linarith
    have hfloor : ⌊x⌋ < M := by exact_mod_cast hlt
    omega

/-- **An even integer begins at the half below it.** -/
theorem le_roundEven_iff {x : ℚ} {M : ℤ} (heven : M % 2 = 0) : M ≤ roundEven x ↔ (M : ℚ) - 1 / 2 ≤ x := by
  constructor
  · intro h
    by_contra hlt
    have hbelow : x < M := by linarith
    have hfloor : ⌊x⌋ < M := Int.floor_lt.mpr hbelow
    rcases roundEven_eq_floor_or x with hround | ⟨hround, hhalf⟩
    · omega
    · have hM : ⌊x⌋ = M - 1 := by omega
      rw [hM] at hhalf
      push_cast at hhalf
      linarith
  · intro h
    by_cases hge : (M : ℚ) ≤ x
    · exact le_roundEven hge
    · have hfloor : ⌊x⌋ = M - 1 := by
        rw [Int.floor_eq_iff]
        push_cast
        constructor <;> linarith
      unfold roundEven
      rw [hfloor]
      push_cast
      -- a half goes up, because one less than `M` is odd
      rw [if_neg (by linarith), if_neg (by omega : ¬ (M - 1) % 2 = 0)]
      split <;> omega

/-- A half goes to the even one from both sides, so the order is kept. -/
theorem roundEven_mono {x y : ℚ} (h : x ≤ y) : roundEven x ≤ roundEven y := by
  rcases (Int.floor_mono h).eq_or_lt with heq | hlt
  · -- between the same two integers, the fractions decide
    have hfraction : x - ⌊x⌋ ≤ y - ⌊y⌋ := by
      rw [heq]
      linarith
    unfold roundEven
    rw [heq] at hfraction ⊢
    split_ifs <;> first | omega | linarith
  · have hx : roundEven x ≤ ⌊x⌋ + 1 := by
      rcases roundEven_eq_floor_or x with hround | ⟨hround, -⟩ <;> omega
    have hy : ⌊y⌋ ≤ roundEven y := le_roundEven (Int.floor_le y)
    omega

/-! ## Rounding

The unit in the last place is `2 ^ -52` of the leading power of two, and never less than that of the subnormal
numbers. Numbers with different units are on two sides of a power of two, which is a float in either unit. -/

/-- The exponent of the unit in the last place. -/
def ulpExponent (q : ℚ) : ℤ := max (Int.log 2 q - 52) (-1074)

/-- A number that is not negative, rounded to 53 bits. -/
def nearest (q : ℚ) : ℚ := roundEven (q / 2 ^ ulpExponent q) * 2 ^ ulpExponent q

theorem nearest_zero : nearest 0 = 0 := by
  unfold nearest
  have hround : roundEven 0 = 0 := by
    apply le_antisymm
    · exact roundEven_le (by norm_num)
    · exact le_roundEven (by norm_num)
  rw [zero_div, hround]
  norm_num

theorem two_zpow_pos (k : ℤ) : (0 : ℚ) < 2 ^ k := zpow_pos (by norm_num) k

theorem nearest_nonneg {q : ℚ} (h : 0 ≤ q) : 0 ≤ nearest q := by
  have hscaled : (0 : ℚ) ≤ q / 2 ^ ulpExponent q := div_nonneg h (two_zpow_pos _).le
  have hround : 0 ≤ roundEven (q / 2 ^ ulpExponent q) := le_roundEven (by exact_mod_cast hscaled)
  unfold nearest
  apply mul_nonneg
  · exact_mod_cast hround
  · exact (two_zpow_pos _).le

/-- The exponent of the greatest power of two that is not above a number. -/
theorem log_lt_iff {q : ℚ} {j : ℤ} (h : 0 < q) : Int.log 2 q < j ↔ q < 2 ^ j := by
  have hlog := (Int.lt_zpow_iff_log_lt (R := ℚ) (b := 2) (by norm_num) h (x := j)).symm
  exact_mod_cast hlog

theorem le_log_iff {q : ℚ} {j : ℤ} (h : 0 < q) : j ≤ Int.log 2 q ↔ 2 ^ j ≤ q := by
  rw [← not_lt, log_lt_iff h, not_lt]

/-- A power of two as a multiple of a smaller one. -/
theorem two_zpow_eq {j e : ℤ} (h : e ≤ j) : (2 : ℚ) ^ j = ((2 ^ (j - e).toNat : ℤ) : ℚ) * 2 ^ e := by
  have hsum : j = ((j - e).toNat : ℤ) + e := by omega
  push_cast
  rw [← zpow_natCast, ← zpow_add₀ (by norm_num), ← hsum]

/-- No number is rounded past a power of two above it. -/
theorem nearest_le_zpow {q : ℚ} {j : ℤ} (hpos : 0 < q) (h : q < 2 ^ j) (hj : -1074 ≤ j) : nearest q ≤ 2 ^ j := by
  have hlog : Int.log 2 q < j := (log_lt_iff hpos).mpr h
  have hexp : ulpExponent q ≤ j := max_le (by omega) hj
  have hunit := two_zpow_pos (ulpExponent q)
  unfold nearest
  rw [two_zpow_eq hexp] at h ⊢
  apply mul_le_mul_of_nonneg_right _ hunit.le
  have hround := roundEven_le ((div_lt_iff₀ hunit).mpr h).le
  exact_mod_cast hround

/-- Nor past one below it. -/
theorem zpow_le_nearest {q : ℚ} {j : ℤ} (h : 2 ^ j ≤ q) (hexp : ulpExponent q ≤ j) : 2 ^ j ≤ nearest q := by
  have hunit := two_zpow_pos (ulpExponent q)
  unfold nearest
  rw [two_zpow_eq hexp] at h ⊢
  apply mul_le_mul_of_nonneg_right _ hunit.le
  have hround := le_roundEven ((le_div_iff₀ hunit).mpr h)
  exact_mod_cast hround

/-- What is rounded in a finer unit lies below a power of two, and what is rounded in a coarser one above it. -/
theorem nearest_le_of_ulpExponent_lt {x y : ℚ} (hx : 0 ≤ x) (h : ulpExponent x < ulpExponent y) (hy : 0 < y) :
    nearest x ≤ nearest y := by
  have hlogEq : ulpExponent y = Int.log 2 y - 52 := by
    unfold ulpExponent at h ⊢
    omega
  have hpower : (2 : ℚ) ^ Int.log 2 y ≤ nearest y := zpow_le_nearest ((le_log_iff hy).mp le_rfl) (by omega)
  rcases hx.eq_or_lt with rfl | hpos
  · rw [nearest_zero]
    exact nearest_nonneg hy.le
  · have hlog : Int.log 2 x < Int.log 2 y := by
      unfold ulpExponent at h
      omega
    have hlow : -1074 ≤ Int.log 2 y := by
      unfold ulpExponent at h
      omega
    exact (nearest_le_zpow hpos ((log_lt_iff hpos).mp hlog) hlow).trans hpower

/-- **Rounding keeps the order.** -/
theorem nearest_mono {x y : ℚ} (hx : 0 ≤ x) (h : x ≤ y) : nearest x ≤ nearest y := by
  rcases hx.eq_or_lt with rfl | hpos
  · rw [nearest_zero]
    exact nearest_nonneg h
  · have hlog : Int.log 2 x ≤ Int.log 2 y := (le_log_iff (hpos.trans_le h)).mpr (((le_log_iff hpos).mp le_rfl).trans h)
    have hexp : ulpExponent x ≤ ulpExponent y := max_le_max_right _ (by omega)
    rcases hexp.eq_or_lt with heq | hlt
    · have hunit := two_zpow_pos (ulpExponent y)
      unfold nearest
      rw [heq]
      apply mul_le_mul_of_nonneg_right _ hunit.le
      have hround := roundEven_mono ((div_le_div_iff_of_pos_right hunit).mpr h)
      exact_mod_cast hround
    · exact nearest_le_of_ulpExponent_lt hx hlt (hpos.trans_le h)

/-- **A float stays**: what is not below it is not rounded to below it. -/
theorem nearest_le_nearest {x y : ℚ} (hx : 0 ≤ x) (h : nearest x ≤ y) : nearest x ≤ nearest y := by
  have hunit := two_zpow_pos (ulpExponent x)
  rcases (nearest_nonneg hx).eq_or_lt with hzero | hpos
  · rw [← hzero] at h ⊢
    exact nearest_nonneg h
  · have hy : 0 < y := hpos.trans_le h
    by_cases hexp : ulpExponent y ≤ ulpExponent x
    · -- in a unit that divides its own, the float is a whole number
      have hdivides : nearest x = ((roundEven (x / 2 ^ ulpExponent x) * 2 ^ (ulpExponent x - ulpExponent y).toNat : ℤ) : ℚ) *
          2 ^ ulpExponent y := by
        rw [nearest, two_zpow_eq hexp]
        push_cast
        ring
      have hunit' := two_zpow_pos (ulpExponent y)
      rw [hdivides] at h ⊢
      unfold nearest
      apply mul_le_mul_of_nonneg_right _ hunit'.le
      have hround := le_roundEven ((le_div_iff₀ hunit').mpr h)
      exact_mod_cast hround
    · exact nearest_le_of_ulpExponent_lt hx (not_le.mp hexp) hy

section Cut

variable {N k : ℤ} {q : ℚ}

/-- **Where a float begins.**  An even multiple of a unit is reached from the half below it on. -/
theorem le_nearest (heven : N % 2 = 0) (hlow : 2 ^ 52 < N) (hhigh : N ≤ 2 ^ 53) (hk : -1074 ≤ k)
    (h : ((N : ℚ) - 1 / 2) * 2 ^ k ≤ q) : N * 2 ^ k ≤ nearest q := by
  have hunit := two_zpow_pos k
  have hlowQ : (2 : ℚ) ^ 52 + 1 ≤ N := by exact_mod_cast hlow
  have hhighQ : (N : ℚ) ≤ 2 ^ 53 := by exact_mod_cast hhigh
  have hreach : (2 : ℚ) ^ (52 + k) ≤ q := by
    rw [zpow_add₀ (by norm_num)]
    refine le_trans (mul_le_mul_of_nonneg_right ?_ hunit.le) h
    norm_num at hlowQ ⊢
    linarith
  have hpos : 0 < q := lt_of_lt_of_le (two_zpow_pos _) hreach
  have hlog : 52 + k ≤ Int.log 2 q := (le_log_iff hpos).mpr hreach
  have hexp : k ≤ ulpExponent q := le_max_of_le_left (by omega)
  rcases hexp.eq_or_lt with heq | hgt
  · unfold nearest
    rw [← heq]
    apply mul_le_mul_of_nonneg_right _ hunit.le
    have hround := (le_roundEven_iff heven).mpr ((le_div_iff₀ hunit).mpr h)
    exact_mod_cast hround
  · -- the number is so large that its unit is coarser, and a power of two lies between
    have hlogEq : ulpExponent q = Int.log 2 q - 52 := by
      unfold ulpExponent at hgt ⊢
      omega
    have hpower : (2 : ℚ) ^ Int.log 2 q ≤ q := (le_log_iff hpos).mp le_rfl
    calc (N : ℚ) * 2 ^ k ≤ 2 ^ 53 * 2 ^ k := mul_le_mul_of_nonneg_right hhighQ hunit.le
      _ = 2 ^ (53 + k) := by rw [zpow_add₀ (by norm_num)]; norm_num
      _ ≤ 2 ^ Int.log 2 q := zpow_le_zpow_right₀ (by norm_num) (by omega)
      _ ≤ nearest q := zpow_le_nearest hpower (by omega)

/-- What lies below the half is rounded to the float before, or to one still smaller. -/
theorem nearest_le (heven : N % 2 = 0) (hlow : 2 ^ 52 < N) (hhigh : N ≤ 2 ^ 53) (hk : -1074 ≤ k)
    (hnonneg : 0 ≤ q) (h : q < ((N : ℚ) - 1 / 2) * 2 ^ k) : nearest q ≤ ((N : ℚ) - 1) * 2 ^ k := by
  have hunit := two_zpow_pos k
  have hlowQ : (2 : ℚ) ^ 52 ≤ N - 1 := by
    have hle : (2 : ℤ) ^ 52 ≤ N - 1 := by omega
    exact_mod_cast hle
  have hhighQ : (N : ℚ) ≤ 2 ^ 53 := by exact_mod_cast hhigh
  -- what is claimed of the nearest float holds of every power of two up to it
  have hpower : (2 : ℚ) ^ (52 + k) ≤ ((N : ℚ) - 1) * 2 ^ k := by
    rw [zpow_add₀ (by norm_num)]
    exact mul_le_mul_of_nonneg_right (by exact_mod_cast hlowQ) hunit.le
  rcases hnonneg.eq_or_lt with rfl | hpos
  · rw [nearest_zero]
    exact (two_zpow_pos _).le.trans hpower
  -- so the number has no coarser unit than `k`
  · have hbelow : q < 2 ^ (53 + k) := by
      rw [zpow_add₀ (by norm_num)]
      refine lt_of_lt_of_le h (mul_le_mul_of_nonneg_right ?_ hunit.le)
      norm_num at hhighQ ⊢
      linarith
    have hlog : Int.log 2 q < 53 + k := (log_lt_iff hpos).mpr hbelow
    have hexp : ulpExponent q ≤ k := max_le (by omega) hk
    rcases hexp.eq_or_lt with heq | hlt
    · -- in the same unit, the half decides
      unfold nearest
      rw [heq]
      apply mul_le_mul_of_nonneg_right _ hunit.le
      have hround : roundEven (q / 2 ^ k) < N := by
        by_contra hge
        have hhalf := (le_roundEven_iff heven).mp (not_lt.mp hge)
        rw [le_div_iff₀ hunit] at hhalf
        linarith
      have hle : roundEven (q / 2 ^ k) ≤ N - 1 := by omega
      exact_mod_cast hle
    · -- in a finer one, the number stays below a power of two
      have hlogLt : Int.log 2 q < 52 + k := by
        unfold ulpExponent at hlt
        omega
      have hsmall : q < 2 ^ (52 + k) := (log_lt_iff hpos).mp hlogLt
      exact (nearest_le_zpow hpos hsmall (by omega)).trans hpower

end Cut

/-! ## Floats

Arithmetic rounds the exact result once.  Infinities follow their signs, and what has no value is no number. -/

/-- A float. -/
inductive Binary64 where
  | finite (q : ℚ)
  | infinite (negative : Bool)
  | nan

namespace Binary64

/-- The float of a number. -/
def ofRat (q : ℚ) : Binary64 :=
  if 2 ^ (1024 : ℤ) ≤ nearest |q| then .infinite (decide (q < 0))
  else .finite (if q < 0 then -nearest |q| else nearest |q|)

/-- Zero times infinity is no number. -/
def mul : Binary64 → Binary64 → Binary64
  | finite a, finite b => ofRat (a * b)
  | infinite s, finite b => if b = 0 then nan else infinite (s != decide (b < 0))
  | finite a, infinite t => if a = 0 then nan else infinite (decide (a < 0) != t)
  | infinite s, infinite t => infinite (s != t)
  | nan, _ => nan
  | _, nan => nan

/-- The difference. -/
def sub : Binary64 → Binary64 → Binary64
  | finite a, finite b => ofRat (a - b)
  | infinite s, finite _ => infinite s
  | finite _, infinite t => infinite !t
  | infinite s, infinite t => if s = t then nan else infinite s
  | nan, _ => nan
  | _, nan => nan

/-- The sum; infinities of two signs have none. -/
def add : Binary64 → Binary64 → Binary64
  | finite a, finite b => ofRat (a + b)
  | infinite s, finite _ => infinite s
  | finite _, infinite t => infinite t
  | infinite s, infinite t => if s = t then infinite s else nan
  | nan, _ => nan
  | _, nan => nan

/-- The greater of two; no number gives way. -/
def max : Binary64 → Binary64 → Binary64
  | finite a, finite b => finite (Max.max a b)
  | infinite s, b => if s then b else infinite false
  | a, infinite t => if t then a else infinite false
  | nan, b => b
  | a, nan => a

/-- A sum, from the left. -/
def sum (xs : List Binary64) : Binary64 := xs.foldl add (finite 0)

def isFinite : Binary64 → Bool
  | finite _ => true
  | infinite _ | nan => false

/-- The comparison with zero; no number is not comparable. -/
def nonpos : Binary64 → Bool
  | finite q => decide (q ≤ 0)
  | infinite negative => negative
  | nan => false

@[simp] theorem add_finite (a b : ℚ) : (finite a).add (finite b) = ofRat (a + b) := rfl

@[simp] theorem mul_finite (a b : ℚ) : (finite a).mul (finite b) = ofRat (a * b) := rfl

@[simp] theorem sub_finite (a b : ℚ) : (finite a).sub (finite b) = ofRat (a - b) := rfl

theorem infinite_mul {s : Bool} {b : ℚ} (h : b ≠ 0) : (infinite s).mul (finite b) = infinite (s != decide (b < 0)) :=
  if_neg h

/-- The comparison with zero; no number is not comparable. -/
def nonneg : Binary64 → Bool
  | finite q => decide (0 ≤ q)
  | infinite negative => !negative
  | nan => false

/-- **What is infinite.**  The half below `2 ^ 1024` rounds up. -/
theorem infinite_iff {q : ℚ} (h : 0 ≤ q) : 2 ^ (1024 : ℤ) ≤ nearest q ↔ ((2 : ℚ) ^ 53 - 1 / 2) * 2 ^ (971 : ℤ) ≤ q := by
  have hunit := two_zpow_pos 971
  have htop : (2 : ℚ) ^ (1024 : ℤ) = 2 ^ 53 * 2 ^ (971 : ℤ) := by
    rw [show (1024 : ℤ) = 53 + 971 by norm_num, zpow_add₀ (by norm_num)]
    norm_num
  have hcast : (((2 ^ 53 : ℤ)) : ℚ) = 2 ^ 53 := by norm_num
  rw [htop, ← hcast]
  constructor
  · intro hreach
    by_contra hlt
    have hle : nearest q ≤ (((2 ^ 53 : ℤ) : ℚ) - 1) * 2 ^ (971 : ℤ) :=
      nearest_le (by norm_num) (by norm_num) le_rfl (by norm_num) h (not_le.mp hlt)
    have hstrict : (((2 ^ 53 : ℤ) : ℚ) - 1) * 2 ^ (971 : ℤ) < ((2 ^ 53 : ℤ) : ℚ) * 2 ^ (971 : ℤ) :=
      mul_lt_mul_of_pos_right (by norm_num) hunit
    exact absurd (hreach.trans hle) (not_le.mpr hstrict)
  · intro hhalf
    exact le_nearest (by norm_num) (by norm_num) le_rfl (by norm_num) hhalf

/-- From the half below `2 ^ 1024` on there is no float. -/
theorem ofRat_infinite {q : ℚ} (h : ((2 : ℚ) ^ 53 - 1 / 2) * 2 ^ (971 : ℤ) ≤ q) : ofRat q = infinite false := by
  have hpos : 0 ≤ q := le_trans (mul_nonneg (by norm_num) (two_zpow_pos _).le) h
  unfold ofRat
  rw [abs_of_nonneg hpos, if_pos ((infinite_iff hpos).mpr h), decide_eq_false hpos.not_gt]

theorem ofRat_finite {q : ℚ} (hpos : 0 ≤ q) (h : q < ((2 : ℚ) ^ 53 - 1 / 2) * 2 ^ (971 : ℤ)) :
    ofRat q = finite (nearest q) := by
  unfold ofRat
  rw [abs_of_nonneg hpos, if_neg (fun hreach => not_le.mpr h ((infinite_iff hpos).mp hreach)), if_neg hpos.not_gt]

theorem nonneg_ofRat {q : ℚ} (h : 0 ≤ q) : (ofRat q).nonneg = true := by
  by_cases hq : ((2 : ℚ) ^ 53 - 1 / 2) * 2 ^ (971 : ℤ) ≤ q
  · rw [ofRat_infinite hq]
    rfl
  · rw [ofRat_finite h (not_le.mp hq)]
    exact decide_eq_true (nearest_nonneg h)

/-- A number that is rounded to no less than zero, but is negative, is rounded to zero. -/
theorem ofRat_of_neg {q : ℚ} (h : q < 0) : (ofRat q).nonneg = false ∨ ofRat q = finite 0 := by
  unfold ofRat
  rw [if_pos h, decide_eq_true h]
  split
  · exact .inl rfl
  · rcases (nearest_nonneg (abs_nonneg q)).eq_or_lt with hzero | hpos
    · rw [← hzero, neg_zero]
      exact .inr rfl
    · exact .inl (decide_eq_false (by linarith))

/-- A number below a power of two has a float within it. -/
theorem ofRat_of_lt {q : ℚ} {j : ℤ} (h : |q| < 2 ^ j) (hlow : -1074 ≤ j) (hhigh : j < 1024) :
    ∃ r, ofRat q = finite r ∧ |r| ≤ 2 ^ j := by
  have hsmall : nearest |q| ≤ 2 ^ j := by
    rcases (abs_nonneg q).eq_or_lt with hzero | hpos
    · rw [← hzero, nearest_zero]
      exact (two_zpow_pos j).le
    · exact nearest_le_zpow hpos h hlow
  have hbelow : (2 : ℚ) ^ j < 2 ^ (1024 : ℤ) := zpow_lt_zpow_right₀ (by norm_num) hhigh
  have habs : |nearest (|q|)| ≤ 2 ^ j := by
    rw [abs_of_nonneg (nearest_nonneg (abs_nonneg q))]
    exact hsmall
  refine ⟨_, if_neg (not_le.mpr (hsmall.trans_lt hbelow)), ?_⟩
  split
  · rw [abs_neg]
    exact habs
  · exact habs

/-! ## Sums of floats that are not negative

A sum from the left is rounded at every step, so it is neither associative nor exact.  It is monotone in each of its
parts, which is enough to compare a list with one of its sublists. -/

/-- **`Rounded a`** — a float that is not negative. -/
inductive Rounded : Binary64 → Prop
  | finite {q : ℚ} (h : 0 ≤ q) : Rounded (finite (nearest q))
  | infinite : Rounded (infinite false)

theorem rounded_zero : Rounded (finite 0) := by
  rw [← nearest_zero]
  exact .finite le_rfl

theorem rounded_ofRat {q : ℚ} (h : 0 ≤ q) : Rounded (ofRat q) := by
  by_cases hq : ((2 : ℚ) ^ 53 - 1 / 2) * 2 ^ (971 : ℤ) ≤ q
  · rw [ofRat_infinite hq]
    exact .infinite
  · rw [ofRat_finite h (not_le.mp hq)]
    exact .finite h

/-- A sum of such floats is one of them. -/
theorem Rounded.add {a b : Binary64} (ha : Rounded a) (hb : Rounded b) : Rounded (a.add b) := by
  cases ha with
  | finite ha =>
      cases hb with
      | finite hb => exact rounded_ofRat (add_nonneg (nearest_nonneg ha) (nearest_nonneg hb))
      | infinite => exact .infinite
  | infinite =>
      cases hb with
      | finite hb => exact .infinite
      | infinite => exact .infinite

/-- Infinity absorbs what is added. -/
theorem infinite_add {w : Binary64} (hw : Rounded w) : (Binary64.infinite false).add w = .infinite false := by
  cases hw <;> rfl

/-- **`AtMost a b`** — the order of the floats that are not negative. -/
inductive AtMost : Binary64 → Binary64 → Prop
  | finite {p q : ℚ} (hp : 0 ≤ p) (h : p ≤ q) : AtMost (finite p) (finite q)
  | infinite {a : Binary64} (ha : Rounded a) : AtMost a (infinite false)

theorem Rounded.atMost_self {a : Binary64} (ha : Rounded a) : AtMost a a := by
  cases ha with
  | finite h => exact .finite (nearest_nonneg h) le_rfl
  | infinite => exact .infinite .infinite

/-- An order has to be transitive. -/
theorem AtMost.trans {a b c : Binary64} (ha : Rounded a) (hab : AtMost a b) (hbc : AtMost b c) : AtMost a c := by
  cases hbc with
  | finite hp h =>
      cases hab with
      | finite hp' h' => exact .finite hp' (h'.trans h)
  | infinite => exact .infinite ha

/-- What is at most a finite float is finite. -/
theorem AtMost.isFinite {a b : Binary64} (h : AtMost a b) (hb : b.isFinite = true) : a.isFinite = true := by
  cases h with
  | finite => rfl
  | infinite => cases hb

/-- Rounding keeps the order, up to infinity. -/
theorem ofRat_atMost {p q : ℚ} (hp : 0 ≤ p) (h : p ≤ q) : AtMost (ofRat p) (ofRat q) := by
  by_cases hq : ((2 : ℚ) ^ 53 - 1 / 2) * 2 ^ (971 : ℤ) ≤ q
  · rw [ofRat_infinite hq]
    exact .infinite (rounded_ofRat hp)
  · have hlt := not_le.mp hq
    rw [ofRat_finite (hp.trans h) hlt, ofRat_finite hp (h.trans_lt hlt)]
    exact .finite (nearest_nonneg hp) (nearest_mono hp h)

/-- Adding the same to both keeps the order. -/
theorem AtMost.add {a b w : Binary64} (h : AtMost a b) (hw : Rounded w) : AtMost (a.add w) (b.add w) := by
  cases h with
  | finite hp h =>
      cases hw with
      | finite hw =>
          have hnonneg := nearest_nonneg hw
          exact ofRat_atMost (by linarith) (by linarith)
      | infinite => exact .infinite .infinite
  | infinite ha =>
      rw [infinite_add hw]
      exact .infinite (ha.add hw)

/-- **A sum is no less than what it starts from.** -/
theorem Rounded.atMost_add {a w : Binary64} (ha : Rounded a) (hw : Rounded w) : AtMost a (a.add w) := by
  cases ha with
  | infinite =>
      rw [infinite_add hw]
      exact .infinite .infinite
  | @finite p hp =>
      cases hw with
      | infinite => exact .infinite (.finite hp)
      | @finite q hq =>
          have hle : nearest p ≤ nearest p + nearest q := by
            have hnonneg := nearest_nonneg hq
            linarith
          rw [add_finite]
          by_cases hbig : ((2 : ℚ) ^ 53 - 1 / 2) * 2 ^ (971 : ℤ) ≤ nearest p + nearest q
          · rw [ofRat_infinite hbig]
            exact .infinite (.finite hp)
          · rw [ofRat_finite ((nearest_nonneg hp).trans hle) (not_le.mp hbig)]
            exact .finite (nearest_nonneg hp) (nearest_le_nearest hp hle)

/-- Two lists, one a part of the other, from two starts in order. -/
theorem foldl_add_atMost {xs ys : List Binary64} (h : xs.Sublist ys) (hys : ∀ y ∈ ys, Rounded y) {a b : Binary64}
    (ha : Rounded a) (hb : Rounded b) (hab : AtMost a b) : AtMost (xs.foldl add a) (ys.foldl add b) := by
  induction h generalizing a b with
  | slnil => exact hab
  | @cons xs ys y _ ih =>
      have hy := hys y List.mem_cons_self
      exact ih (fun y' hy' => hys y' (List.mem_cons_of_mem _ hy')) ha (hb.add hy) (hab.trans ha (hb.atMost_add hy))
  | @cons_cons xs ys y _ ih =>
      have hy := hys y List.mem_cons_self
      exact ih (fun y' hy' => hys y' (List.mem_cons_of_mem _ hy')) (ha.add hy) (hb.add hy) (hab.add hy)

theorem rounded_sum {xs : List Binary64} (h : ∀ x ∈ xs, Rounded x) : Rounded (sum xs) := by
  suffices hfold : ∀ a, Rounded a → Rounded (xs.foldl add a) from hfold _ rounded_zero
  induction xs with
  | nil => exact fun a ha => ha
  | cons x rest ih =>
      intro a ha
      exact ih (fun y hy => h y (List.mem_cons_of_mem _ hy)) _ (ha.add (h x List.mem_cons_self))

/-- **A sum does not grow when some of its floats are left out.** -/
theorem sum_atMost_of_sublist {xs ys : List Binary64} (h : xs.Sublist ys) (hys : ∀ y ∈ ys, Rounded y) :
    AtMost (sum xs) (sum ys) :=
  foldl_add_atMost h hys rounded_zero rounded_zero rounded_zero.atMost_self

end Binary64

end Flock.Lib
