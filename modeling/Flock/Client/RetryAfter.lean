/-
# Flock.Client.RetryAfter — `parse_retry_after_ms` of the Python SDK.

The header is a number of seconds or a date.  The number goes through `float`, which takes infinities too, and through
`int`, which does not: an infinity raises `OverflowError`, and the handler catches `ValueError` only.  So does a number
of seconds whose milliseconds are no float any more (`tooLong`).

Digits are those of ASCII: a header is read as Latin-1, which has no others.
-/
import Flock.Client.KeyPool
import Flock.Lib.Binary64
import Flock.Text

namespace Flock.Client

open Lib (Binary64 nearest two_zpow_pos)
open Text (isAsciiDigit digitsValue lowerChar)

/-! ## `float`

What Python takes for a number: signs, underscores between digits, exponents, and the names of the infinities and of
no number. -/

/-- What the two conversions and the date parser raise. -/
inductive PyError where
  | valueError
  | typeError
  | overflowError
  deriving DecidableEq, Repr

/-- What a text denotes. -/
inductive Numeral where
  | decimal (q : ℚ)
  | infinity (negative : Bool)
  | nan

/-- Underscores stand between digits only, and are dropped; `prev` is the character before. -/
def dropUnderscores (prev : Char) : List Char → Option (List Char)
  | [] => if prev = '_' then none else some []
  | c :: cs =>
    if c = '_' then if isAsciiDigit prev then dropUnderscores c cs else none
    else if prev = '_' && !isAsciiDigit c then none
    else (dropUnderscores c cs).map (c :: ·)

/-- An optional sign; true is a minus. -/
def readSign : List Char → Bool × List Char
  | '-' :: cs => (true, cs)
  | '+' :: cs => (false, cs)
  | cs => (false, cs)

/-- The exponent of a decimal, up to the end of the text. -/
def readExponent : List Char → Option ℤ
  | [] => some 0
  | c :: cs =>
    if lowerChar c = 'e' then
      (digitsValue (readSign cs).2).map fun n => if (readSign cs).1 then -(n : ℤ) else n
    else none

/-- The fraction of a decimal, and what follows it. -/
def readFraction : List Char → List Char × List Char
  | '.' :: cs => (cs.takeWhile isAsciiDigit, cs.dropWhile isAsciiDigit)
  | cs => ([], cs)

/-- A decimal without a sign; one of its two runs of digits may be empty. -/
def readDecimal (cs : List Char) : Option ℚ :=
  let whole := cs.takeWhile isAsciiDigit
  let fraction := readFraction (cs.dropWhile isAsciiDigit)
  -- both runs make one integer, which the exponent puts in its place
  (digitsValue (whole ++ fraction.1)).bind fun mantissa =>
    (readExponent fraction.2).map fun exponent : ℤ => (mantissa : ℚ) * 10 ^ (exponent - (fraction.1.length : ℤ))

/-- A numeral behind its sign. -/
def readUnsigned (negative : Bool) (cs : List Char) : Option Numeral :=
  let word := cs.map lowerChar
  if word = ['i', 'n', 'f'] ∨ word = ['i', 'n', 'f', 'i', 'n', 'i', 't', 'y'] then some (.infinity negative)
  else if word = ['n', 'a', 'n'] then some .nan
  else (readDecimal cs).map fun q => .decimal (if negative then -q else q)

/-- The number a text denotes, if it does. -/
def readNumeral (cs : List Char) : Option Numeral :=
  (dropUnderscores '\x00' cs).bind fun plain => readUnsigned (readSign plain).1 (readSign plain).2

/-- The float that is nearest to it. -/
def Numeral.toFloat : Numeral → Binary64
  | decimal q => .ofRat q
  | infinity negative => .infinite negative
  | nan => .nan

@[simp] theorem Numeral.toFloat_decimal (q : ℚ) : (decimal q).toFloat = .ofRat q := rfl

@[simp] theorem Numeral.toFloat_infinity (negative : Bool) : (infinity negative).toFloat = .infinite negative := rfl

/-- `float`. -/
def float (value : String) : Except PyError Binary64 :=
  match readNumeral value.toList with
  | some numeral => .ok numeral.toFloat
  | none => .error .valueError

/-- `int` of a float, which cuts off the fraction. -/
def int : Binary64 → Except PyError ℤ
  | .finite q => .ok (if q < 0 then ⌈q⌉ else ⌊q⌋)
  | .infinite _ => .error .overflowError
  | .nan => .error .valueError

/-! ## The header

The number first; where the text is none, the date. -/

/-- Seconds since the epoch, as the date parser and the clock give them. -/
structure Stamp where
  seconds : ℚ
  bounded : |seconds| < 2 ^ (40 : ℤ)

/-- The stamp in milliseconds, as a float. -/
def Stamp.ms (stamp : Stamp) : Binary64 := (Binary64.finite stamp.seconds).mul (.finite 1000)

/-- What `parsedate_to_datetime` raises. -/
inductive DateError where
  | valueError
  | typeError

/-- As which exception it is raised. -/
def DateError.toPy : DateError → PyError
  | valueError => .valueError
  | typeError => .typeError

/-- `DEFAULT_RETRY_AFTER_MS`, an `int`. -/
def defaultMs : ℤ := 60000

/-- The body of the first `try`; none is a number that is no delay. -/
def secondsMs (value : String) : Except PyError (Option ℤ) := do
  let secs ← float value
  if secs.nonneg then some <$> int (secs.mul (.finite 1000)) else pure none

section Dates

variable (parsedateToDatetime : String → Except DateError Stamp) (time : Stamp)

/-- The body of the second `try`. -/
def dateMs (value : String) : Except PyError ℤ :=
  match parsedateToDatetime value with
  | .error e => .error e.toPy
  | .ok dt => (max 0 ·) <$> int (dt.ms.sub time.ms)

/-- The second `try`. -/
def parseDateMs (value : String) : Except PyError ℤ :=
  match dateMs parsedateToDatetime time value with
  | .ok ms => .ok ms
  | .error .valueError => .ok defaultMs
  | .error .typeError => .ok defaultMs
  | .error .overflowError => .error .overflowError

/-- `parse_retry_after_ms`. -/
def parseRetryAfterMs (value : Option String) : Except PyError ℤ :=
  match value with
  | none => .ok defaultMs
  | some value =>
    if value = "" then .ok defaultMs
    else
      match secondsMs (Sdk.python.trim value) with
      | .ok (some ms) => .ok ms
      | .ok none => parseDateMs parsedateToDatetime time (Sdk.python.trim value)
      | .error .valueError => parseDateMs parsedateToDatetime time (Sdk.python.trim value)
      -- nothing else is caught
      | .error e => .error e

end Dates

/-! ## Overflow

Seconds become milliseconds by a product of floats, and it is the product that is infinite first. -/

/-- The least number of seconds whose milliseconds are no float. -/
def tooLong : ℚ := 9223372036854775 * 2 ^ (961 : ℤ)

/-- The bound is a positive number. -/
theorem tooLong_pos : 0 < tooLong := mul_pos (by norm_num) (two_zpow_pos _)

/-- `int` raises on the milliseconds of the number. -/
def Numeral.Overflows : Numeral → Prop
  | decimal q => tooLong ≤ q
  | infinity negative => negative = false
  | nan => False

/-- Both cuts in one unit: where a number of seconds is too long, and where a float is infinite. -/
theorem tooLong_eq : tooLong = ((4611686018427388 : ℤ) - 1 / 2 : ℚ) * 2 ^ (962 : ℤ) := by
  unfold tooLong
  rw [show (962 : ℤ) = 1 + 961 by norm_num, zpow_add₀ (by norm_num), ← mul_assoc]
  norm_num

/-- The least number that rounds to an infinity, as a multiple of the largest step. -/
theorem infinite_eq : ((2 : ℚ) ^ 53 - 1 / 2) * 2 ^ (971 : ℤ) = 4611686018427387648 * 2 ^ (962 : ℤ) := by
  rw [show (971 : ℤ) = 9 + 962 by norm_num, zpow_add₀ (by norm_num), ← mul_assoc]
  norm_num

/-- The floats whose thousandfold is infinite begin at the float of `tooLong`. -/
theorem thousandfold_infinite_iff {q : ℚ} (h : 0 ≤ q) :
    ((2 : ℚ) ^ 53 - 1 / 2) * 2 ^ (971 : ℤ) ≤ nearest q * 1000 ↔ tooLong ≤ q := by
  have hunit := two_zpow_pos 962
  rw [infinite_eq, tooLong_eq]
  constructor
  · intro hreach
    by_contra hlt
    have hle := Lib.nearest_le (by norm_num) (by norm_num) (by norm_num) (by norm_num) h (not_le.mp hlt)
    generalize (2 : ℚ) ^ (962 : ℤ) = unit at *
    push_cast at hle
    linarith only [hunit, hreach, hle]
  · intro hreach
    have hle := Lib.le_nearest (by norm_num) (by norm_num) (by norm_num) (by norm_num) hreach
    generalize (2 : ℚ) ^ (962 : ℤ) = unit at *
    push_cast at hle
    linarith only [hunit, hle]

/-- A finite float is cut towards zero. -/
theorem int_finite (q : ℚ) : int (.finite q) = .ok (if q < 0 then ⌈q⌉ else ⌊q⌋) := rfl

/-- If it is not negative, to a natural number. -/
theorem int_of_nonneg {q : ℚ} (h : 0 ≤ q) : ∃ ms : ℕ, int (.finite q) = .ok (ms : ℤ) := by
  refine ⟨⌊q⌋.toNat, ?_⟩
  rw [int_finite, if_neg h.not_gt, Int.toNat_of_nonneg (Int.floor_nonneg.mpr h)]

theorem int_infinite_mul (negative : Bool) :
    int ((Binary64.infinite negative).mul (.finite 1000)) = .error .overflowError := by
  rw [Binary64.infinite_mul (by norm_num)]
  rfl

/-- Nor is a product that has become one. -/
theorem int_of_tooLong {q : ℚ} (h : tooLong ≤ q) :
    int ((Binary64.ofRat q).mul (.finite 1000)) = .error .overflowError := by
  have hpos : 0 ≤ q := tooLong_pos.le.trans h
  by_cases hq : ((2 : ℚ) ^ 53 - 1 / 2) * 2 ^ (971 : ℤ) ≤ q
  · rw [Binary64.ofRat_infinite hq]
    exact int_infinite_mul false
  · rw [Binary64.ofRat_finite hpos (not_le.mp hq), Binary64.mul_finite,
      Binary64.ofRat_infinite ((thousandfold_infinite_iff hpos).mpr h)]
    rfl

/-- Below the bound the float is finite. -/
theorem ofRat_of_not_tooLong {q : ℚ} (hpos : 0 ≤ q) (h : q < tooLong) : Binary64.ofRat q = .finite (nearest q) := by
  apply Binary64.ofRat_finite hpos
  have hunit := two_zpow_pos 962
  rw [tooLong_eq] at h
  rw [infinite_eq]
  generalize (2 : ℚ) ^ (962 : ℤ) = unit at *
  push_cast at h
  linarith only [hunit, h]

theorem int_of_not_tooLong {q : ℚ} (hpos : 0 ≤ q) (h : q < tooLong) :
    ∃ ms : ℕ, int ((Binary64.finite (nearest q)).mul (.finite 1000)) = .ok (ms : ℤ) := by
  have hthousand : 0 ≤ nearest q * 1000 := mul_nonneg (Lib.nearest_nonneg hpos) (by norm_num)
  have hlt := not_le.mp ((thousandfold_infinite_iff hpos).not.mpr (not_le.mpr h))
  rw [Binary64.mul_finite, Binary64.ofRat_finite hthousand hlt]
  exact int_of_nonneg (Lib.nearest_nonneg hthousand)

/-! ## Both handlers

The first handler catches what `float` raises on a text that is no number.  What `int` raises on an infinity it does
not catch. -/

/-- A numeral is read as its float. -/
theorem float_of_numeral {value : String} {numeral : Numeral} (h : readNumeral value.toList = some numeral) :
    float value = .ok numeral.toFloat := by
  unfold float
  rw [h]

/-- What the number of seconds becomes. -/
theorem secondsMs_of_float {value : String} {secs : Binary64} (h : float value = .ok secs) :
    secondsMs value = if secs.nonneg then some <$> int (secs.mul (.finite 1000)) else pure none := by
  unfold secondsMs
  rw [h]
  rfl

/-- **The first handler raises on an overflow**, and nothing else stops it. -/
theorem secondsMs_of_overflows {value : String} {numeral : Numeral} (h : readNumeral value.toList = some numeral)
    (hover : numeral.Overflows) : secondsMs value = .error .overflowError := by
  rw [secondsMs_of_float (float_of_numeral h)]
  cases numeral with
  | decimal q =>
      have hpos : 0 ≤ q := tooLong_pos.le.trans hover
      rw [Numeral.toFloat_decimal, if_pos (Binary64.nonneg_ofRat hpos), int_of_tooLong hover]
      rfl
  | infinity negative =>
      obtain rfl : negative = false := hover
      rw [Numeral.toFloat_infinity, int_infinite_mul]
      rfl
  | nan => exact hover.elim

/-- Without an overflow it becomes a number of milliseconds, or it is negative. -/
theorem secondsMs_of_not_overflows {value : String} {numeral : Numeral} (h : readNumeral value.toList = some numeral)
    (hover : ¬ numeral.Overflows) :
    secondsMs value = .ok none ∨ ∃ ms : ℕ, secondsMs value = .ok (some (ms : ℤ)) := by
  rw [secondsMs_of_float (float_of_numeral h)]
  cases numeral with
  | decimal q =>
      have hlt : q < tooLong := not_le.mp hover
      rw [Numeral.toFloat_decimal]
      by_cases hneg : q < 0
      -- a negative number that is rounded to zero is a delay of zero
      · rcases Binary64.ofRat_of_neg hneg with hbelow | hzero
        · exact .inl (if_neg (by simp [hbelow]))
        · obtain ⟨ms, hms⟩ := int_of_not_tooLong le_rfl tooLong_pos
          rw [Lib.nearest_zero] at hms
          rw [hzero, hms]
          exact .inr ⟨ms, rfl⟩
      · obtain ⟨ms, hms⟩ := int_of_not_tooLong (not_lt.mp hneg) hlt
        rw [if_pos (Binary64.nonneg_ofRat (not_lt.mp hneg)), ofRat_of_not_tooLong (not_lt.mp hneg) hlt, hms]
        exact .inr ⟨ms, rfl⟩
  | infinity negative =>
      cases negative with
      | false => exact absurd rfl hover
      | true => exact .inl rfl
  | nan => exact .inl rfl

/-- A text that is no number is handed to the other handler. -/
theorem secondsMs_of_none {value : String} (h : readNumeral value.toList = none) :
    secondsMs value = .error .valueError := by
  have hfloat : float value = .error .valueError := by
    unfold float
    rw [h]
  unfold secondsMs
  rw [hfloat]
  rfl

/-- The milliseconds of a date are a float, and not a great one. -/
theorem Stamp.ms_finite (stamp : Stamp) :
    ∃ r, stamp.ms = .finite r ∧ |r| ≤ 2 ^ (50 : ℤ) := by
  unfold Stamp.ms
  rw [Binary64.mul_finite]
  apply Binary64.ofRat_of_lt _ (by norm_num) (by norm_num)
  have hbound := stamp.bounded
  rw [abs_mul]
  norm_num at hbound ⊢
  linarith

section Dates

variable (parsedateToDatetime : String → Except DateError Stamp) (time : Stamp)

/-- A date becomes a number of milliseconds. -/
theorem dateMs_of_ok {value : String} {dt : Stamp} (h : parsedateToDatetime value = .ok dt) :
    ∃ ms : ℕ, dateMs parsedateToDatetime time value = .ok (ms : ℤ) := by
  obtain ⟨a, ha, habound⟩ := dt.ms_finite
  obtain ⟨b, hb, hbbound⟩ := time.ms_finite
  have hdiff : |a - b| < 2 ^ (52 : ℤ) := by
    have htriangle := abs_sub a b
    norm_num at habound hbbound ⊢
    linarith
  obtain ⟨r, hr, -⟩ := Binary64.ofRat_of_lt hdiff (by norm_num) (by norm_num)
  unfold dateMs
  rw [h]
  dsimp only
  rw [ha, hb, Binary64.sub_finite, hr, int_finite]
  refine ⟨(max 0 (if r < 0 then ⌈r⌉ else ⌊r⌋)).toNat, ?_⟩
  rw [Int.toNat_of_nonneg (le_max_left _ _)]
  rfl

/-- **The second handler catches what the first leaves.** -/
theorem parseDateMs_total (value : String) : ∃ ms : ℕ, parseDateMs parsedateToDatetime time value = .ok (ms : ℤ) := by
  unfold parseDateMs
  cases h : parsedateToDatetime value with
  | ok dt =>
      obtain ⟨ms, hms⟩ := dateMs_of_ok parsedateToDatetime time h
      rw [hms]
      exact ⟨ms, rfl⟩
  | error e =>
      have hdate : dateMs parsedateToDatetime time value = .error e.toPy := by
        unfold dateMs
        rw [h]
      rw [hdate]
      cases e with
      | valueError => exact ⟨60000, rfl⟩
      | typeError => exact ⟨60000, rfl⟩

theorem parseRetryAfterMs_of_overflows {header : String} {numeral : Numeral}
    (h : readNumeral (Sdk.python.trim header).toList = some numeral) (hover : numeral.Overflows) :
    parseRetryAfterMs parsedateToDatetime time (some header) = .error .overflowError := by
  have hne : header ≠ "" := by
    rintro rfl
    have hread : readNumeral (Sdk.python.trim "").toList = none := by rfl
    cases hread.symm.trans h
  unfold parseRetryAfterMs
  dsimp only
  rw [if_neg hne, secondsMs_of_overflows h hover]

/-- Without one the header always gives a number. -/
theorem parseRetryAfterMs_of_not_overflows {header : String}
    (h : ∀ numeral, readNumeral (Sdk.python.trim header).toList = some numeral → ¬ numeral.Overflows) :
    ∃ ms : ℕ, parseRetryAfterMs parsedateToDatetime time (some header) = .ok (ms : ℤ) := by
  have hdate := parseDateMs_total parsedateToDatetime time (Sdk.python.trim header)
  unfold parseRetryAfterMs
  dsimp only
  split
  · exact ⟨60000, rfl⟩
  · cases hread : readNumeral (Sdk.python.trim header).toList with
    | none =>
        rw [secondsMs_of_none hread]
        exact hdate
    | some numeral =>
        rcases secondsMs_of_not_overflows hread (h numeral hread) with hnone | ⟨ms, hms⟩
        · rw [hnone]
          exact hdate
        · rw [hms]
          exact ⟨ms, rfl⟩

/-- **When `parse_retry_after_ms` returns.** -/
theorem returns_parseRetryAfterMs_iff (value : Option String) :
    (∃ ms : ℕ, parseRetryAfterMs parsedateToDatetime time value = .ok (ms : ℤ)) ↔
      ∀ header ∈ value, ∀ numeral, readNumeral (Sdk.python.trim header).toList = some numeral → ¬ numeral.Overflows := by
  cases value with
  | none => exact ⟨fun _ => nofun, fun _ => ⟨60000, rfl⟩⟩
  | some header =>
      constructor
      · rintro ⟨ms, hms⟩ header' hheader numeral hread hover
        obtain rfl := Option.some.inj hheader
        rw [parseRetryAfterMs_of_overflows parsedateToDatetime time hread hover] at hms
        cases hms
      · intro h
        exact parseRetryAfterMs_of_not_overflows parsedateToDatetime time (h header rfl)

end Dates

/-- An infinity is a number for `float` and none for `int`. -/
theorem parse_raises :
    ¬ ∀ (parsedateToDatetime : String → Except DateError Stamp) (time : Stamp) (value : Option String),
      ∃ ms : ℕ, parseRetryAfterMs parsedateToDatetime time value = .ok (ms : ℤ) := by
  intro h
  obtain ⟨ms, hms⟩ := h (fun _ => .error .valueError) ⟨0, by norm_num⟩ (some "inf")
  have hread : readNumeral (Sdk.python.trim "inf").toList = some (.infinity false) := by rfl
  rw [parseRetryAfterMs_of_overflows _ _ hread rfl] at hms
  cases hms

end Flock.Client
