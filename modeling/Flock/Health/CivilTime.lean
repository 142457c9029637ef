/-
# Flock.Health.CivilTime — the instant of a timestamp.

A timestamp is a date of the Gregorian calendar, a time of day, and a zone, in one of the spellings that
`parse_rfc3339_unix` takes; its instant is a number of seconds from the first of January 1970.  The closed form of
`days_from_civil` counts from March, in eras of four hundred years, and so does `Lib.Date.dayNumber_eq_march`.

A leap second has the number of the second after it, as unix time has it.

A timestamp is modelled by its parts and by how each of them is written, so that its text is a function of it.  The
parser is then followed over this text: white space at the ends, the separator, the six numbers, the fraction, the
zone.
-/
import Flock.Health.Rfc3339
import Flock.Lib.Calendar

namespace Flock

open Lib (Date Fallible)
open Text (isAsciiDigit parseI64 splitAt splitOnceP byteLen)

/-! ## Decimal fields

The parser takes any number of digits that fits an `i64`; the format writes two or four. -/

/-- A decimal digit. -/
def digit (n : ℕ) : Char := Char.ofNat (0x30 + n)

/-- A field of two digits. -/
def two (n : ℕ) : List Char := [digit (n / 10), digit (n % 10)]

/-- A field of four digits. -/
def four (n : ℕ) : List Char := two (n / 100) ++ two (n % 100)

/-- A digit is one of ten characters. -/
theorem isAsciiDigit_digit {n : ℕ} (h : n < 10) : isAsciiDigit (digit n) = true := by
  interval_cases n <;> rfl

theorem toNat_digit {n : ℕ} (h : n < 10) : (digit n).toNat - 0x30 = n := by
  interval_cases n <;> rfl

theorem isAsciiDigit_of_mem_two {n : ℕ} (h : n < 100) : ∀ c ∈ two n, isAsciiDigit c = true := by
  intro c hc
  rcases List.mem_cons.mp hc with rfl | hc
  · exact isAsciiDigit_digit (by omega)
  · obtain rfl := List.mem_singleton.mp hc
    exact isAsciiDigit_digit (by omega)

theorem isAsciiDigit_of_mem_four {n : ℕ} (h : n < 10000) : ∀ c ∈ four n, isAsciiDigit c = true := by
  intro c hc
  rcases List.mem_append.mp hc with hc | hc
  · exact isAsciiDigit_of_mem_two (by omega) c hc
  · exact isAsciiDigit_of_mem_two (by omega) c hc

/-- Digits are read as the number they denote. -/
theorem digitsValue_of_digits {cs : List Char} (hne : cs ≠ []) (h : ∀ c ∈ cs, isAsciiDigit c = true) :
    Text.digitsValue cs = some (cs.foldl (fun n c => 10 * n + (c.toNat - 0x30)) 0) := by
  have hall : cs.all isAsciiDigit = true := List.all_eq_true.mpr h
  unfold Text.digitsValue
  rw [hall, List.isEmpty_eq_false_iff.mpr hne]
  rfl

/-- A field of two digits is read back. -/
theorem parseI64_two {n : ℕ} (h : n < 100) : parseI64 (two n) = some (n : ℤ) := by
  have hne : two n ≠ [] := List.cons_ne_nil _ _
  apply Text.parseI64_of_digitsValue _ (by omega)
  rw [digitsValue_of_digits hne (isAsciiDigit_of_mem_two h)]
  have h₁ := @toNat_digit (n / 10) (by omega)
  have h₂ := @toNat_digit (n % 10) (by omega)
  simp only [two, List.foldl_cons, List.foldl_nil, h₁, h₂]
  congr 1
  omega

/-- A field of four digits is read back. -/
theorem parseI64_four {n : ℕ} (h : n < 10000) : parseI64 (four n) = some (n : ℤ) := by
  have hne : four n ≠ [] := List.cons_ne_nil _ _
  apply Text.parseI64_of_digitsValue _ (by omega)
  rw [digitsValue_of_digits hne (isAsciiDigit_of_mem_four h)]
  have h₁ := @toNat_digit (n / 100 / 10) (by omega)
  have h₂ := @toNat_digit (n / 100 % 10) (by omega)
  have h₃ := @toNat_digit (n % 100 / 10) (by omega)
  have h₄ := @toNat_digit (n % 100 % 10) (by omega)
  simp only [four, two, List.cons_append, List.nil_append, List.foldl_cons, List.foldl_nil, h₁, h₂, h₃, h₄]
  congr 1
  omega

/-! ## Timestamps

`Zone` has the spellings that the parser knows, with and without a colon. -/

/-- How a zone is written; `west` is a minus sign. -/
inductive Zone where
  | absent
  | utc
  | signed (west colon : Bool) (hours : Fin 24) (minutes : Fin 60)

namespace Zone

def text : Zone → List Char
  | absent => []
  | utc => ['Z']
  | signed west colon hours minutes =>
      (if west then '-' else '+') :: (two hours ++ ((if colon then [':'] else []) ++ two minutes))

/-- Seconds east of Greenwich. -/
def seconds : Zone → ℤ
  | absent => 0
  | utc => 0
  | signed west _ hours minutes => (if west then -1 else 1) * (hours * 3600 + minutes * 60)

end Zone

/-- A timestamp, and how it is written. -/
structure Timestamp where
  date : Date
  hour : Fin 24
  minute : Fin 60
  second : Fin 61
  /-- a blank in the place of the `T` -/
  blank : Bool
  fraction : List (Fin 10)
  zone : Zone

namespace Timestamp

def dateText (t : Timestamp) : List Char := four t.date.year ++ '-' :: (two t.date.month ++ '-' :: two t.date.day)

def timeText (t : Timestamp) : List Char := two t.hour ++ ':' :: (two t.minute ++ ':' :: two t.second)

def fractionText (t : Timestamp) : List Char :=
  match t.fraction with
  | [] => []
  | digits => '.' :: digits.map fun n : Fin 10 => digit n

/-- What comes after the separator. -/
def rest (t : Timestamp) : List Char := t.timeText ++ (t.fractionText ++ t.zone.text)

def text (t : Timestamp) : String := String.ofList (t.dateText ++ (if t.blank then ' ' else 'T') :: t.rest)

/-- The first of January 1970. -/
def epoch : Date := ⟨1970, 1, 1, by decide, by decide, by decide, by decide⟩

/-- **The instant**, in seconds since the epoch. -/
def unixSecond (t : Timestamp) : ℤ :=
  (t.date.dayNumber - epoch.dayNumber) * 86400 + t.hour * 3600 + t.minute * 60 + t.second - t.zone.seconds

/-! ## What the texts are made of

The parser looks for a `T`, a blank, white space, a `Z`, and signs.  None of these can come from a field of digits, so
each is found where it was put. -/

/-- A character of a timestamp, other than the one between the date and the time. -/
def Plain (c : Char) : Prop := isAsciiDigit c = true ∨ c ∈ ['-', ':', '.', '+', 'Z']

/-- None of the characters that the parser looks for. -/
theorem plain_cases {c : Char} (h : Plain c) :
    c ≠ 'T' ∧ c ≠ ' ' ∧ Text.isWhitespace c = false ∧ c.toNat < 0x80 := by
  rcases h with h | h
  · have hrange : 0x30 ≤ c.toNat ∧ c.toNat ≤ 0x39 := by simpa [isAsciiDigit] using h
    refine ⟨?_, ?_, ?_, by omega⟩
    · rintro rfl
      exact absurd hrange (by decide)
    · rintro rfl
      exact absurd hrange (by decide)
    · unfold Text.isWhitespace
      simp only [Bool.or_eq_false_iff, Bool.and_eq_false_imp, decide_eq_true_eq, decide_eq_false_iff_not, beq_eq_false_iff_ne]
      omega
  · simp only [List.mem_cons, List.not_mem_nil, or_false] at h
    rcases h with rfl | rfl | rfl | rfl | rfl <;> decide

theorem ne_of_isAsciiDigit {c d : Char} (h : isAsciiDigit c = true) (hd : isAsciiDigit d = false) : c ≠ d := by
  rintro rfl
  rw [h] at hd
  cases hd

variable {t : Timestamp}

/-- A date of those years fits its fields. -/
theorem date_bounds (hyear : t.date.year ≤ 2100) : t.date.year < 10000 ∧ t.date.month < 100 ∧ t.date.day < 100 := by
  have hmonth := t.date.month_le
  have hday := t.date.day_le
  have hlength := Lib.monthLength_le t.date.year t.date.month
  omega

theorem plain_dateText (hyear : t.date.year ≤ 2100) : ∀ c ∈ t.dateText, Plain c := by
  obtain ⟨hy, hm, hd⟩ := date_bounds hyear
  intro c hc
  simp only [dateText, List.mem_append, List.mem_cons] at hc
  rcases hc with hc | rfl | hc | rfl | hc
  · exact .inl (isAsciiDigit_of_mem_four hy c hc)
  · exact .inr (by simp)
  · exact .inl (isAsciiDigit_of_mem_two hm c hc)
  · exact .inr (by simp)
  · exact .inl (isAsciiDigit_of_mem_two hd c hc)

theorem plain_timeText : ∀ c ∈ t.timeText, Plain c := by
  intro c hc
  simp only [timeText, List.mem_append, List.mem_cons] at hc
  rcases hc with hc | rfl | hc | rfl | hc
  · exact .inl (isAsciiDigit_of_mem_two (by omega) c hc)
  · exact .inr (by simp)
  · exact .inl (isAsciiDigit_of_mem_two (by omega) c hc)
  · exact .inr (by simp)
  · exact .inl (isAsciiDigit_of_mem_two (by omega) c hc)

theorem fractionText_cases {c : Char} (h : c ∈ t.fractionText) : c = '.' ∨ isAsciiDigit c = true := by
  unfold fractionText at h
  split at h
  · cases h
  · rcases List.mem_cons.mp h with rfl | h
    · exact .inl rfl
    · obtain ⟨n, -, rfl⟩ := List.mem_map.mp h
      exact .inr (isAsciiDigit_digit n.isLt)

/-- A zone is made of digits, a sign, a colon and a `Z`. -/
theorem plain_zone {z : Zone} : ∀ c ∈ z.text, Plain c := by
  intro c hc
  cases z with
  | absent => cases hc
  | utc => exact .inr (by simp_all [Zone.text])
  | signed west colon hours minutes =>
      simp only [Zone.text, List.mem_cons, List.mem_append] at hc
      rcases hc with rfl | hc | hc | hc
      · cases west <;> exact .inr (by simp)
      · exact .inl (isAsciiDigit_of_mem_two (by omega) c hc)
      · cases colon with
        | false => cases hc
        | true =>
            obtain rfl := List.mem_singleton.mp hc
            exact .inr (by simp)
      · exact .inl (isAsciiDigit_of_mem_two (by omega) c hc)

theorem plain_rest : ∀ c ∈ t.rest, Plain c := by
  intro c hc
  rcases List.mem_append.mp hc with hc | hc
  · exact plain_timeText c hc
  · rcases List.mem_append.mp hc with hc | hc
    · rcases fractionText_cases hc with rfl | hdigit
      · exact .inr (by simp)
      · exact .inl hdigit
    · exact plain_zone c hc

/-! ## How it is read

One lemma for each step of the parser, on the text of a timestamp. -/

theorem toList_trim_text (hyear : t.date.year ≤ 2100) :
    (Text.trim t.text).toList = t.dateText ++ (if t.blank then ' ' else 'T') :: t.rest := by
  have hne : t.rest ≠ [] := List.cons_ne_nil _ _
  have hplain : ∀ c ∈ t.rest, Text.isWhitespace c = false := fun c hc => (plain_cases (plain_rest c hc)).2.2.1
  have hfirst : ∀ c ∈ ((t.dateText ++ [if t.blank then ' ' else 'T']) ++ t.rest).head?, Text.isWhitespace c = false := by
    rintro c ⟨⟩
    exact (plain_cases (plain_dateText hyear _ List.mem_cons_self)).2.2.1
  have htrim := Text.toList_trim_append hfirst hplain hne
  rw [List.append_assoc] at htrim
  exact htrim

/-- The text is split at the separator of date and time, which is the first of its kind. -/
theorem stampParts_text (hyear : t.date.year ≤ 2100) :
    stampParts t.text = some ((four t.date.year, two t.date.month, two t.date.day), t.rest) := by
  obtain ⟨hy, hm, hd⟩ := date_bounds hyear
  have hdate : ∀ c ∈ t.dateText, c ≠ 'T' ∧ c ≠ ' ' := fun c hc =>
    ⟨(plain_cases (plain_dateText hyear c hc)).1, (plain_cases (plain_dateText hyear c hc)).2.1⟩
  have hsplit : (splitOnceP (· == 'T') (t.dateText ++ (if t.blank then ' ' else 'T') :: t.rest)).or
      (splitOnceP (· == ' ') (t.dateText ++ (if t.blank then ' ' else 'T') :: t.rest)) = some (t.dateText, t.rest) := by
    cases t.blank with
    | false =>
        rw [if_neg (by decide), Text.splitOnceP_append (fun c hc => beq_eq_false_iff_ne.mpr (hdate c hc).1) rfl]
        rfl
    | true =>
        have hnone : ∀ c ∈ t.dateText ++ ' ' :: t.rest, (c == 'T') = false := by
          intro c hc
          rcases List.mem_append.mp hc with hc | hc
          · exact beq_eq_false_iff_ne.mpr (hdate c hc).1
          · rcases List.mem_cons.mp hc with rfl | hc
            · rfl
            · exact beq_eq_false_iff_ne.mpr (plain_cases (plain_rest c hc)).1
        rw [if_pos rfl, Text.splitOnceP_eq_none hnone,
          Text.splitOnceP_append (fun c hc => beq_eq_false_iff_ne.mpr (hdate c hc).2) rfl]
        rfl
  have hhyphen : ∀ {cs : List Char}, (∀ c ∈ cs, isAsciiDigit c = true) → ∀ c ∈ cs, (c == '-') = false :=
    fun h c hc => beq_eq_false_iff_ne.mpr (ne_of_isAsciiDigit (h c hc) (by decide))
  have hyearPart := Text.splitOnceP_append (c := '-') (hhyphen (isAsciiDigit_of_mem_four hy)) rfl
    (two t.date.month ++ '-' :: two t.date.day)
  have hmonthPart := Text.splitOnceP_append (c := '-') (hhyphen (isAsciiDigit_of_mem_two hm)) rfl (two t.date.day)
  unfold stampParts
  rw [toList_trim_text hyear]
  simp only [Option.bind_eq_bind, Option.pure_def, hsplit, Option.bind_some]
  rw [dateText, hyearPart, Option.bind_some]
  dsimp only
  rw [hmonthPart, Option.bind_some]

/-- Eight characters, of a byte each. -/
theorem byteLen_timeText : byteLen t.timeText = 8 := by
  rw [Text.byteLen_of_ascii fun c hc => (plain_cases (plain_timeText c hc)).2.2.2]
  rfl

theorem readNumbers_text (hyear : t.date.year ≤ 2100) :
    readNumbers (four t.date.year) (two t.date.month) (two t.date.day) t.timeText =
      some ⟨t.date.year, t.date.month, t.date.day, t.hour, t.minute, t.second⟩ := by
  obtain ⟨hy, hm, hd⟩ := date_bounds hyear
  have hcolon : ∀ n < 100, ':' ∉ two n := fun n hn hmem =>
    ne_of_isAsciiDigit (isAsciiDigit_of_mem_two hn _ hmem) (by decide) rfl
  have hpieces : t.timeText.splitOn ':' = [two t.hour, two t.minute, two t.second] := by
    unfold timeText
    rw [List.splitOn_append_cons_self_of_not_mem (hcolon _ (by omega)),
      List.splitOn_append_cons_self_of_not_mem (hcolon _ (by omega)), List.splitOn_eq_singleton (hcolon _ (by omega))]
  unfold readNumbers
  rw [hpieces, parseI64_four hy, parseI64_two hm, parseI64_two hd]
  show (do
    let hh ← parseI64 (two t.hour)
    let mm ← parseI64 (two t.minute)
    let ss ← parseI64 (two t.second)
    pure (⟨t.date.year, t.date.month, t.date.day, hh, mm, ss⟩ : CivilNumbers)) = _
  rw [parseI64_two (by omega), parseI64_two (by omega), parseI64_two (by omega)]
  rfl

/-- The fraction has no sign, and no `Z`. -/
theorem zoneOf_text : zoneOf (t.fractionText ++ t.zone.text) = t.zone.text := by
  have hfraction : ∀ c ∈ t.fractionText, (!(c == '+' || c == '-' || c == 'Z')) = true := by
    intro c hc
    rcases fractionText_cases hc with rfl | hdigit
    · rfl
    · simp [ne_of_isAsciiDigit hdigit (d := '+') (by decide), ne_of_isAsciiDigit hdigit (d := '-') (by decide),
        ne_of_isAsciiDigit hdigit (d := 'Z') (by decide)]
  unfold zoneOf
  rw [List.dropWhile_append_of_pos hfraction]
  cases t.zone with
  | absent => rfl
  | utc => rfl
  | signed west colon hours minutes => cases west <;> rfl

end Timestamp

/-- A field of two digits is two bytes. -/
theorem byteLen_two {n : ℕ} (h : n < 100) : byteLen (two n) = 2 := by
  rw [Text.byteLen_of_ascii fun c hc => (Timestamp.plain_cases (.inl (isAsciiDigit_of_mem_two h c hc))).2.2.2]
  rfl

/-- And has no colon to filter out. -/
theorem filter_colon_two {n : ℕ} (h : n < 100) : (two n).filter (· != ':') = two n :=
  List.filter_eq_self.mpr fun c hc =>
    bne_iff_ne.mpr (Timestamp.ne_of_isAsciiDigit (isAsciiDigit_of_mem_two h c hc) (by decide))

/-- The four digits of a zone, with the colon taken out. -/
theorem zoneSeconds_two {sign : ℤ} (hsign : sign = 1 ∨ sign = -1) {hours minutes : ℕ} (hhours : hours < 100)
    (hminutes : minutes < 100) :
    zoneSeconds sign (two hours ++ two minutes) = .value (sign * ((hours : ℤ) * 3600 + (minutes : ℤ) * 60)) := by
  have hbounds : -2 ^ 63 ≤ sign * ((hours : ℤ) * 3600 + (minutes : ℤ) * 60) ∧
      sign * ((hours : ℤ) * 3600 + (minutes : ℤ) * 60) < 2 ^ 63 := by
    rcases hsign with rfl | rfl <;> omega
  have hsplit := Text.splitAt_append (two hours) (two minutes)
  rw [byteLen_two hhours] at hsplit
  unfold zoneSeconds
  rw [Text.byteLen_append, byteLen_two hhours, byteLen_two hminutes, if_neg (by decide), hsplit,
    Fallible.orPanic_some, Fallible.value_bind]
  dsimp only
  rw [parseI64_two hhours, Fallible.orAbsent_some, Fallible.value_bind, parseI64_two hminutes, Fallible.orAbsent_some,
    Fallible.value_bind, i64_eq (by omega) (by omega), Fallible.value_bind, i64_eq (by omega) (by omega), Fallible.value_bind,
    i64_eq (by omega) (by omega), Fallible.value_bind, i64_eq (by omega) (by omega)]

/-- A sign sends the parser to the digits behind it. -/
theorem parseTzOffset_signed (west : Bool) (cs : List Char) :
    parseTzOffset ((if west then '-' else '+') :: cs) =
      zoneSeconds (if west then -1 else 1) (cs.filter (· != ':')) := by
  cases west with
  | false => simp [parseTzOffset]
  | true => simp [parseTzOffset]

/-- **A zone is read as its offset.** -/
theorem parseTzOffset_text (z : Zone) : parseTzOffset z.text = .value z.seconds := by
  cases z with
  | absent => rfl
  | utc => rfl
  | signed west colon hours minutes =>
      have hhours : (hours : ℕ) < 100 := by omega
      have hminutes : (minutes : ℕ) < 100 := by omega
      have hcolons : (two hours ++ ((if colon then [':'] else []) ++ two minutes)).filter (· != ':') =
          two hours ++ two minutes := by
        rw [List.filter_append, List.filter_append, filter_colon_two hhours, filter_colon_two hminutes]
        cases colon <;> rfl
      have hunit : (if west then -1 else 1 : ℤ) = 1 ∨ (if west then -1 else 1 : ℤ) = -1 := by
        cases west <;> decide
      rw [Zone.text, parseTzOffset_signed, hcolons, zoneSeconds_two hunit hhours hminutes, Zone.seconds]

/-! ## The instant

What is left is arithmetic: the closed form of `days_from_civil` against the count of the calendar, and the zone. -/

/-- The eras of `days_from_civil` count the days of the calendar. -/
theorem eraDays_eq (d : Date) : eraDays d.year d.month d.day = d.dayNumber - Timestamp.epoch.dayNumber := by
  have hepoch : Timestamp.epoch.dayNumber = 719528 := by
    have hmarch := Timestamp.epoch.dayNumber_eq_march
    have hyear : Timestamp.epoch.marchYear = 1969 := rfl
    have hmonth : (Timestamp.epoch.month : ℤ) = 1 := rfl
    have hday : (Timestamp.epoch.day : ℤ) = 1 := rfl
    rw [hyear, hmonth, hday] at hmarch
    omega
  have hyear : (if (d.month : ℤ) ≤ 2 then (d.year : ℤ) - 1 else d.year) = d.marchYear := by
    unfold Date.marchYear
    split
    · rw [if_pos (by omega)]
    · rw [if_neg (by omega)]
  unfold eraDays
  rw [hyear, hepoch, d.dayNumber_eq_march]
  dsimp only
  generalize d.marchYear = y
  have hfour : y / 4 = 100 * (y / 400) + y % 400 / 4 := by omega
  have hhundred : y / 100 = 4 * (y / 400) + y % 400 / 100 := by omega
  push_cast
  omega

/-- A sum that is neither negative nor too large is cast as it is. -/
theorem asU64_of_nonneg {z : ℤ} (hle : 0 ≤ z) (hlt : z < 2 ^ 64) : (asU64 z : ℤ) = z := by
  unfold asU64
  omega

/-- A date of those years is in range. -/
theorem inRange_date (d : Date) (hyear : 2000 ≤ d.year ∧ d.year ≤ 2100) :
    (2000 ≤ (d.year : ℤ) ∧ (d.year : ℤ) ≤ 2100) ∧ (1 ≤ (d.month : ℤ) ∧ (d.month : ℤ) ≤ 12) ∧
      1 ≤ (d.day : ℤ) ∧ (d.day : ℤ) ≤ 31 := by
  have hmonth := d.month_pos
  have hmonth' := d.month_le
  have hday := d.day_pos
  have hday' := d.day_le.trans (Lib.monthLength_le d.year d.month)
  omega

/-- **`days_from_civil` counts the days of the calendar**, in the years that it takes. -/
theorem daysFromCivil_date (d : Date) (hyear : 2000 ≤ d.year ∧ d.year ≤ 2100) :
    ∃ n : ℕ, daysFromCivil d.year d.month d.day = .value n ∧ (n : ℤ) = d.dayNumber - Timestamp.epoch.dayNumber ∧
      n ≤ 50000 ∧ 10000 ≤ n := by
  have hrange := inRange_date d hyear
  have hbounds := @eraDays_bounds d.year d.month d.day hrange.1 hrange.2.2
  have hcast : (asU64 (eraDays d.year d.month d.day) : ℤ) = eraDays d.year d.month d.day :=
    asU64_of_nonneg (by omega) (by omega)
  refine ⟨asU64 (eraDays d.year d.month d.day), ?_, ?_, by omega, by omega⟩
  · rw [daysFromCivil_eq, if_pos hrange]
  · rw [hcast, eraDays_eq]

/-- **A timestamp is parsed as its instant**, in the years from 2000 to 2100. -/
theorem parseRfc3339Unix_text (t : Timestamp) (hyear : 2000 ≤ t.date.year ∧ t.date.year ≤ 2100) :
    ∃ n : ℕ, parseRfc3339Unix t.text = .value n ∧ (n : ℤ) = t.unixSecond := by
  obtain ⟨days, hdays, hcount, hle, hge⟩ := daysFromCivil_date t.date hyear
  -- both splits are between characters
  have hlen : ¬ byteLen t.rest < 8 := by
    unfold Timestamp.rest
    rw [Text.byteLen_append, Timestamp.byteLen_timeText]
    omega
  have hsplit : splitAt 8 t.rest = some (t.timeText, t.fractionText ++ t.zone.text) := by
    have happend := Text.splitAt_append t.timeText (t.fractionText ++ t.zone.text)
    rw [Timestamp.byteLen_timeText] at happend
    exact happend
  have hzone := parseTzOffset_bounds (parseTzOffset_text t.zone)
  have hcast : asI64 days = days := by
    unfold asI64
    rw [if_pos (by omega)]
  -- the text is parsed into the parts it was written from
  have hparse : parseRfc3339Unix t.text =
      unixSeconds ⟨t.date.year, t.date.month, t.date.day, t.hour, t.minute, t.second⟩ t.zone.seconds := by
    unfold parseRfc3339Unix
    rw [Timestamp.stampParts_text hyear.2, Fallible.orAbsent_some, Fallible.value_bind]
    dsimp only
    rw [if_neg hlen, hsplit, Fallible.orPanic_some, Fallible.value_bind]
    dsimp only
    rw [Timestamp.readNumbers_text hyear.2, Fallible.orAbsent_some, Fallible.value_bind, Timestamp.zoneOf_text,
      parseTzOffset_text, Fallible.value_bind]
  have hinstant : t.unixSecond = days * 86400 + t.hour * 3600 + t.minute * 60 + t.second - t.zone.seconds := by
    unfold Timestamp.unixSecond
    rw [hcount]
  -- and the arithmetic stays far within `i64`
  refine ⟨asU64 t.unixSecond, ?_, ?_⟩
  · rw [hparse, unixSeconds]
    dsimp only
    rw [hdays, Fallible.value_bind, hcast, i64_eq (by omega) (by omega), Fallible.value_bind,
      i64_eq (by omega) (by omega), Fallible.value_bind, i64_eq (by omega) (by omega), Fallible.value_bind,
      i64_eq (by omega) (by omega), Fallible.value_bind, i64_eq (by omega) (by omega), Fallible.value_bind,
      i64_eq (by omega) (by omega), Fallible.value_bind, i64_eq (by omega) (by omega), Fallible.value_bind,
      Fallible.pure_eq, hinstant]
  · exact asU64_of_nonneg (by omega) (by omega)

/-- An afternoon in September 2026, six hours west of Greenwich. -/
def Timestamp.afternoon : Timestamp where
  date := ⟨2026, 9, 17, by decide, by decide, by decide, by decide⟩
  hour := 13
  minute := 18
  second := 13
  blank := false
  fraction := [1, 2, 3]
  zone := .signed true true 6 0

theorem parseRfc3339Unix_text_afternoon :
    parseRfc3339Unix "2026-09-17T13:18:13.123-06:00" = .value 1789672693 := by
  have htext : Timestamp.afternoon.text = "2026-09-17T13:18:13.123-06:00" := by decide +kernel
  have hinstant : Timestamp.afternoon.unixSecond = 1789672693 := by decide +kernel
  obtain ⟨n, hparse, hn⟩ := parseRfc3339Unix_text Timestamp.afternoon (by decide)
  rw [hinstant] at hn
  obtain rfl : n = 1789672693 := by exact_mod_cast hn
  rw [← htext]
  exact hparse

end Flock
