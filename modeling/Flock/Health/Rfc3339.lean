/-
# Flock.Health.Rfc3339 — the timestamps of a legacy database.

`parse_rfc3339_unix` splits a column of text at its separators, then the time at byte 8, and the digits of the zone at
byte 2.  The lengths are checked in bytes and the splits are not, so a character of several bytes can lie across either
of them: `returns_parseRfc3339Unix_iff` says exactly when none does.  The numbers are small enough for `i64` wherever
they come from.
-/
import Flock.Health.Persist
import Flock.Lib.Fallible
import Flock.Text.Slices

namespace Flock

open Lib (Fallible)
open Lib.Fallible (orAbsent orPanic)
open Text (parseI64 splitAt splitOnceP byteLen IsCharBoundary)

/-- What a timestamp can panic with. -/
inductive TimeFault where
  /-- a slice inside a character -/
  | charBoundary
  | overflow
  deriving DecidableEq, Repr

/-- The result of an operation on `i64`. -/
def i64 (x : ℤ) : Fallible TimeFault ℤ := if -2 ^ 63 ≤ x ∧ x < 2 ^ 63 then .value x else .panics .overflow

/-- What fits 64 bits is the value. -/
theorem i64_eq {x : ℤ} (hle : -2 ^ 63 ≤ x) (hlt : x < 2 ^ 63) : i64 x = .value x := if_pos ⟨hle, hlt⟩

theorem i64_eq_value_iff {x z : ℤ} : i64 x = .value z ↔ (-2 ^ 63 ≤ x ∧ x < 2 ^ 63) ∧ x = z := by
  unfold i64
  split <;> simp_all

/-! ## The parser

Each split may panic, each sum may overflow, and each digit may be none; `Outcome` keeps the three apart. -/

/-- `days_from_civil`. -/
def daysFromCivil (y m d : ℤ) : Fallible TimeFault ℕ :=
  if ¬ (2000 ≤ y ∧ y ≤ 2100) ∨ ¬ (1 ≤ m ∧ m ≤ 12) ∨ ¬ (1 ≤ d ∧ d ≤ 31) then .absent
  else do
    let y ← if m ≤ 2 then i64 (y - 1) else pure y
    let era := y / 400
    let yoe := y % 400
    let mp := (← i64 (m + 9)) % 12
    let doy ← i64 (153 * mp)
    let doy ← i64 (doy + 2)
    let doy ← i64 (doy.tdiv 5 + d)
    let doy ← i64 (doy - 1)
    let doe ← i64 (yoe * 365)
    let doe ← i64 (doe + yoe.tdiv 4)
    let doe ← i64 (doe - yoe.tdiv 100)
    let doe ← i64 (doe + doy)
    let days ← i64 (era * 146097)
    let days ← i64 (days + doe)
    let days ← i64 (days - 719468)
    pure (asU64 days)

/-- `parse_tz_offset`, after the sign: the colons are gone. -/
def zoneSeconds (sign : ℤ) (rest : List Char) : Fallible TimeFault ℤ :=
  if byteLen rest ≠ 4 then .absent
  else do
    let (hh, mm) ← orPanic .charBoundary (splitAt 2 rest)
    let hh ← orAbsent (parseI64 hh)
    let mm ← orAbsent (parseI64 mm)
    let hours ← i64 (hh * 3600)
    let minutes ← i64 (mm * 60)
    let offset ← i64 (hours + minutes)
    i64 (sign * offset)

/-- `parse_tz_offset`. -/
def parseTzOffset : List Char → Fallible TimeFault ℤ
  | [] => pure 0
  | ['Z'] => pure 0
  | c :: cs =>
      if c = '+' then zoneSeconds 1 (cs.filter (· != ':'))
      else if c = '-' then zoneSeconds (-1) (cs.filter (· != ':'))
      else .absent

/-- The six numbers of a timestamp. -/
structure CivilNumbers where
  y : ℤ
  mo : ℤ
  d : ℤ
  hh : ℤ
  mm : ℤ
  ss : ℤ

/-- The texts of the year, the month and the day, and the time: what is after the first `T`, or else the first
blank. -/
def stampParts (s : String) : Option ((List Char × List Char × List Char) × List Char) := do
  let s := (Text.trim s).toList
  let (date, time) ← (splitOnceP (· == 'T') s).or (splitOnceP (· == ' ') s)
  let (y, md) ← splitOnceP (· == '-') date
  let (mo, d) ← splitOnceP (· == '-') md
  pure ((y, mo, d), time)

/-- The numbers, of which the time is split at its colons. -/
def readNumbers (y mo d timePart : List Char) : Option CivilNumbers := do
  let y ← parseI64 y
  let mo ← parseI64 mo
  let d ← parseI64 d
  let ti := timePart.splitOn ':'
  let hh ← ti[0]?.bind parseI64
  let mm ← ti[1]?.bind parseI64
  let ss ← ti[2]?.bind parseI64
  pure ⟨y, mo, d, hh, mm, ss⟩

/-- The zone designator, past an optional fraction. -/
def zoneOf (tzPart : List Char) : List Char := tzPart.dropWhile fun c => !(c == '+' || c == '-' || c == 'Z')

/-- `(days * 86400 + hh * 3600 + mm * 60 + ss - off_secs) as u64`. -/
def unixSeconds (n : CivilNumbers) (offSecs : ℤ) : Fallible TimeFault ℕ := do
  let days ← daysFromCivil n.y n.mo n.d
  let days ← i64 (asI64 days * 86400)
  let hours ← i64 (n.hh * 3600)
  let total ← i64 (days + hours)
  let minutes ← i64 (n.mm * 60)
  let total ← i64 (total + minutes)
  let total ← i64 (total + n.ss)
  let total ← i64 (total - offSecs)
  pure (asU64 total)

/-- `parse_rfc3339_unix`. -/
def parseRfc3339Unix (s : String) : Fallible TimeFault ℕ := do
  let ((y, mo, d), time) ← orAbsent (stampParts s)
  if byteLen time < 8 then .absent
  else
    let (timePart, tzPart) ← orPanic .charBoundary (splitAt 8 time)
    let n ← orAbsent (readNumbers y mo d timePart)
    let offSecs ← parseTzOffset (zoneOf tzPart)
    unixSeconds n offSecs

/-! ## No sum leaves `i64`

The year is checked before anything is computed, and the time is read from eight bytes and the zone from four.  So no
product comes near the bound. -/

/-- The days of a date, in closed form: from the first of March of the year 0, less those before 1970. -/
def eraDays (y m d : ℤ) : ℤ :=
  let y := if m ≤ 2 then y - 1 else y
  y / 400 * 146097 + (y % 400 * 365 + y % 400 / 4 - y % 400 / 100 + ((153 * ((m + 9) % 12) + 2) / 5 + d - 1)) - 719468

/-- What `days_from_civil` computes. -/
theorem daysFromCivil_eq (y m d : ℤ) :
    daysFromCivil y m d =
      if (2000 ≤ y ∧ y ≤ 2100) ∧ (1 ≤ m ∧ m ≤ 12) ∧ 1 ≤ d ∧ d ≤ 31 then .value (asU64 (eraDays y m d)) else .absent := by
  unfold daysFromCivil eraDays
  by_cases hrange : (2000 ≤ y ∧ y ≤ 2100) ∧ (1 ≤ m ∧ m ≤ 12) ∧ 1 ≤ d ∧ d ≤ 31
  · rw [if_pos hrange]
    obtain ⟨⟨hy, hy'⟩, ⟨hm, hm'⟩, hd, hd'⟩ := hrange
    rw [if_neg (by omega)]
    by_cases hjan : m ≤ 2
    · simp (disch := omega) only [if_pos hjan, i64_eq, Fallible.value_bind, Fallible.pure_eq,
        Int.tdiv_eq_ediv_of_nonneg]
    · simp (disch := omega) only [if_neg hjan, i64_eq, Fallible.value_bind, Fallible.pure_eq,
        Int.tdiv_eq_ediv_of_nonneg]
  · rw [if_pos (by omega), if_neg hrange]

/-- A hundred years of days. -/
theorem eraDays_bounds {y m d : ℤ} (hy : 2000 ≤ y ∧ y ≤ 2100) (hd : 1 ≤ d ∧ d ≤ 31) :
    10000 ≤ eraDays y m d ∧ eraDays y m d ≤ 50000 := by
  unfold eraDays
  dsimp only
  split <;> omega

/-- The digits of a zone. -/
theorem returns_zoneSeconds_iff {sign : ℤ} (hsign : sign = 1 ∨ sign = -1) (rest : List Char) :
    (zoneSeconds sign rest).Returns ↔ (byteLen rest = 4 → IsCharBoundary 2 rest) := by
  unfold zoneSeconds
  by_cases hlen : byteLen rest = 4
  · rw [if_neg (not_not.mpr hlen), ← Text.isSome_splitAt_iff, Fallible.returns_bind_iff, Fallible.returns_orPanic_iff]
    refine ⟨fun h _ => h.1, fun h => ⟨h hlen, ?_⟩⟩
    rintro ⟨hh, mm⟩ hsplit
    obtain ⟨rfl, hfirst⟩ := Text.splitAt_eq_some_iff.mp (Fallible.orPanic_eq_value_iff.mp hsplit)
    have hsecond : mm.length ≤ 2 := by
      have hbytes := Text.length_le_byteLen mm
      rw [Text.byteLen_append] at hlen
      omega
    have hfirst' : hh.length ≤ 2 := by
      have hbytes := Text.length_le_byteLen hh
      omega
    -- two characters are a number below a hundred
    dsimp only
    cases hhours : parseI64 hh with
    | none => exact Fallible.returns_absent
    | some hours =>
        cases hminutes : parseI64 mm with
        | none => exact Fallible.returns_absent
        | some minutes =>
            have hhb := Text.parseI64_bounds hhours hfirst'
            have hmb := Text.parseI64_bounds hminutes hsecond
            have hproduct : -2 ^ 63 ≤ sign * (hours * 3600 + minutes * 60) ∧
                sign * (hours * 3600 + minutes * 60) < 2 ^ 63 := by
              rcases hsign with rfl | rfl <;> omega
            simp (disch := omega) only [Fallible.orAbsent_some, Fallible.value_bind, i64_eq]
            exact Fallible.returns_value _
  · rw [if_pos hlen]
    exact iff_of_true Fallible.returns_absent fun h => absurd h hlen

/-- An offset is below a hundred hours and a hundred minutes. -/
theorem zoneSeconds_bounds {sign z : ℤ} {rest : List Char} (hsign : sign = 1 ∨ sign = -1)
    (h : zoneSeconds sign rest = .value z) : -400000 < z ∧ z < 400000 := by
  unfold zoneSeconds at h
  split at h
  · cases h
  · rename_i hlen
    simp only [Fallible.bind_eq_value_iff, Fallible.orPanic_eq_value_iff, Fallible.orAbsent_eq_value_iff,
      not_not] at h hlen
    obtain ⟨⟨hh, mm⟩, hsplit, hours, hhours, minutes, hminutes, a, ha, b, hb, c, hc, hz⟩ := h
    obtain ⟨rfl, hfirst⟩ := Text.splitAt_eq_some_iff.mp hsplit
    have hhlen := Text.length_le_byteLen hh
    have hmlen := Text.length_le_byteLen mm
    rw [Text.byteLen_append] at hlen
    have hhb := @Text.parseI64_bounds hh hours 2 hhours (by omega)
    have hmb := @Text.parseI64_bounds mm minutes 2 hminutes (by omega)
    rw [i64_eq_value_iff] at ha hb hc hz
    rcases hsign with rfl | rfl <;> omega

/-- The zone can only panic at byte 2 of its digits. -/
theorem returns_parseTzOffset_iff (off : List Char) :
    (parseTzOffset off).Returns ↔ ∀ sign cs, off = sign :: cs → (sign = '+' ∨ sign = '-') →
      byteLen (cs.filter (· != ':')) = 4 → IsCharBoundary 2 (cs.filter (· != ':')) := by
  unfold parseTzOffset
  split
  · exact iff_of_true (Fallible.returns_value _) nofun
  · refine iff_of_true (Fallible.returns_value _) ?_
    rintro sign cs ⟨⟩ (h | h)
    · exact absurd h (by decide)
    · exact absurd h (by decide)
  · rename_i c cs _
    by_cases hplus : c = '+'
    · rw [if_pos hplus, returns_zoneSeconds_iff (.inl rfl)]
      exact ⟨fun h => by rintro sign cs' ⟨⟩ -; exact h, fun h => h c cs rfl (.inl hplus)⟩
    · rw [if_neg hplus]
      by_cases hminus : c = '-'
      · rw [if_pos hminus, returns_zoneSeconds_iff (.inr rfl)]
        exact ⟨fun h => by rintro sign cs' ⟨⟩ -; exact h, fun h => h c cs rfl (.inr hminus)⟩
      · rw [if_neg hminus]
        refine iff_of_true Fallible.returns_absent ?_
        rintro sign cs' ⟨⟩ (h | h)
        · exact absurd h hplus
        · exact absurd h hminus

/-- A zone is less than five days long. -/
theorem parseTzOffset_bounds {off : List Char} {z : ℤ} (h : parseTzOffset off = .value z) :
    -400000 < z ∧ z < 400000 := by
  unfold parseTzOffset at h
  split at h
  · cases h
    decide
  · cases h
    decide
  · split at h
    · exact zoneSeconds_bounds (.inl rfl) h
    · split at h
      · exact zoneSeconds_bounds (.inr rfl) h
      · cases h

/-- A timestamp within eight bytes, and the days of a hundred years. -/
theorem returns_unixSeconds {n : CivilNumbers} {offSecs : ℤ} (hhh : -10 ^ 8 < n.hh ∧ n.hh < 10 ^ 8)
    (hmm : -10 ^ 8 < n.mm ∧ n.mm < 10 ^ 8) (hss : -10 ^ 8 < n.ss ∧ n.ss < 10 ^ 8)
    (hoff : -400000 < offSecs ∧ offSecs < 400000) : (unixSeconds n offSecs).Returns := by
  unfold unixSeconds
  rw [daysFromCivil_eq]
  split
  · rename_i hrange
    have hdays := @eraDays_bounds n.y n.mo n.d hrange.1 hrange.2.2
    have hcast : asI64 (asU64 (eraDays n.y n.mo n.d)) = eraDays n.y n.mo n.d := by
      unfold asI64 asU64
      split <;> omega
    simp (disch := omega) only [Fallible.value_bind, hcast, i64_eq, Fallible.pure_eq, Fallible.returns_value]
  · exact Fallible.returns_absent

/-! ## When it returns

Each of the two splits is looked at by itself; that before it all went well is part of the condition. -/

/-- The numbers of the time are within its eight bytes. -/
theorem readNumbers_bounds {y mo d timePart : List Char} {n : CivilNumbers} (h : readNumbers y mo d timePart = some n)
    (hlen : timePart.length ≤ 8) : (-10 ^ 8 < n.hh ∧ n.hh < 10 ^ 8) ∧ (-10 ^ 8 < n.mm ∧ n.mm < 10 ^ 8) ∧
      (-10 ^ 8 < n.ss ∧ n.ss < 10 ^ 8) := by
  have hpiece : ∀ (i : ℕ) (x : ℤ), (timePart.splitOn ':')[i]?.bind parseI64 = some x → -10 ^ 8 < x ∧ x < 10 ^ 8 := by
    intro i x hx
    obtain ⟨piece, hpiece, hparse⟩ := Option.bind_eq_some_iff.mp hx
    exact Text.parseI64_bounds hparse ((Text.length_le_of_mem_splitOn (List.mem_of_getElem? hpiece)).trans hlen)
  unfold readNumbers at h
  simp only [Option.bind_eq_bind, Option.bind_eq_some_iff, Option.pure_def, Option.some.injEq] at h
  obtain ⟨_, -, _, -, _, -, hh, hhh, mm, hmm, ss, hss, rfl⟩ := h
  exact ⟨hpiece 0 hh (Option.bind_eq_some_iff.mpr hhh), hpiece 1 mm (Option.bind_eq_some_iff.mpr hmm),
    hpiece 2 ss (Option.bind_eq_some_iff.mpr hss)⟩

/-- **`Sliceable s`** — where the text has a date of three parts and a time of eight bytes or more, no character lies
across byte 8 of the time; and where the six numbers are numbers, and a signed zone has four bytes without its colons,
none lies across byte 2 of those. -/
structure Sliceable (s : String) : Prop where
  time : ∀ parts time, stampParts s = some (parts, time) → 8 ≤ byteLen time → IsCharBoundary 8 time
  zone : ∀ y mo d timePart tzPart sign cs, stampParts s = some ((y, mo, d), timePart ++ tzPart) →
    byteLen timePart = 8 → (readNumbers y mo d timePart).isSome = true →
    zoneOf tzPart = sign :: cs → (sign = '+' ∨ sign = '-') → byteLen (cs.filter (· != ':')) = 4 →
    IsCharBoundary 2 (cs.filter (· != ':'))

/-- Past byte 8, it is up to the zone. -/
theorem sliceable_iff {s : String} {y mo d timePart tzPart : List Char}
    (hparts : stampParts s = some ((y, mo, d), timePart ++ tzPart)) (htime : byteLen timePart = 8) :
    Sliceable s ↔ ((readNumbers y mo d timePart).isSome = true → (parseTzOffset (zoneOf tzPart)).Returns) := by
  constructor
  · intro h hnumbers
    exact (returns_parseTzOffset_iff _).mpr fun sign cs => h.zone y mo d timePart tzPart sign cs hparts htime hnumbers
  · intro h
    constructor
    · intro parts time hparts' _
      cases hparts.symm.trans hparts'
      exact ⟨timePart, tzPart, rfl, htime⟩
    · intro y' mo' d' timePart' tzPart' sign cs hparts' htime' hnumbers
      have heq := Option.some.inj (hparts.symm.trans hparts')
      have hsame : timePart ++ tzPart = timePart' ++ tzPart' := congrArg Prod.snd heq
      cases congrArg Prod.fst heq
      -- eight bytes can be taken off in one way
      have hcut := Text.splitAt_append timePart tzPart
      have hcut' := Text.splitAt_append timePart' tzPart'
      rw [htime] at hcut
      rw [htime', ← hsame, hcut] at hcut'
      cases hcut'
      exact (returns_parseTzOffset_iff _).mp (h hnumbers) sign cs

/-- **When a timestamp is parsed without a panic.** -/
theorem returns_parseRfc3339Unix_iff (s : String) : (parseRfc3339Unix s).Returns ↔ Sliceable s := by
  unfold parseRfc3339Unix
  cases hparts : stampParts s with
  | none => exact iff_of_true Fallible.returns_absent ⟨by simp [hparts], by simp [hparts]⟩
  | some parts =>
      obtain ⟨⟨y, mo, d⟩, time⟩ := parts
      simp only [Fallible.orAbsent_some, Fallible.value_bind]
      -- a time that is too short is no timestamp, and nothing is split
      by_cases hlen : byteLen time < 8
      · rw [if_pos hlen]
        refine iff_of_true Fallible.returns_absent ⟨?_, ?_⟩
        · rintro parts time' h hlen'
          cases hparts.symm.trans h
          omega
        · rintro y' mo' d' timePart tzPart sign cs h hlen'
          cases hparts.symm.trans h
          rw [Text.byteLen_append] at hlen
          omega
      · rw [if_neg hlen]
        cases hsplit : splitAt 8 time with
        -- the first split: at byte 8 of the time
        | none =>
            refine iff_of_false (Fallible.not_returns_panics _) fun h => ?_
            have hboundary := Text.isSome_splitAt_iff.mpr (h.time _ _ hparts (not_lt.mp hlen))
            rw [hsplit] at hboundary
            cases hboundary
        | some texts =>
            obtain ⟨timePart, tzPart⟩ := texts
            obtain ⟨rfl, htime⟩ := Text.splitAt_eq_some_iff.mp hsplit
            -- from here on it is the second one, in the zone
            simp only [Fallible.orPanic_some, Fallible.value_bind]
            rw [sliceable_iff hparts htime]
            cases hnumbers : readNumbers y mo d timePart with
            | none => exact iff_of_true Fallible.returns_absent nofun
            | some n =>
                have hbytes := Text.length_le_byteLen timePart
                obtain ⟨hhh, hmm, hss⟩ := readNumbers_bounds hnumbers (by omega)
                simp only [Fallible.orAbsent_some, Fallible.value_bind, Fallible.returns_bind_iff]
                constructor
                · exact fun h _ => h.1
                · exact fun h => ⟨h rfl, fun off hoff => returns_unixSeconds hhh hmm hss (parseTzOffset_bounds hoff)⟩

/-- A letter of two bytes across byte 8 of the time, and one across byte 2 of the zone. -/
theorem parse_panics :
    parseRfc3339Unix "2026-01-01T13:18:1é" = .panics .charBoundary ∧
    parseRfc3339Unix "2026-01-01T13:18:13+1é1" = .panics .charBoundary := by
  constructor
  · decide +kernel
  · decide +kernel

end Flock
