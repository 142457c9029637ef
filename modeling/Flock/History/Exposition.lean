/-
# Flock.History.Exposition — metric series, and the reader of the Prometheus text.

A `BTreeMap` is the extensional tree map of the standard library: iteration is in key order, and two
maps with the same entries are equal.  Strings compare by scalar value, which for UTF-8 is the byte
order of the source.

Metric values are `f64` in the source.  Everything the history does with one is in the class `F64`, so
the model runs at any type that has these operations; the instance for exact rationals is below.
-/
import Mathlib.Algebra.Order.Ring.Rat
import Mathlib.Data.Rat.Defs
import Flock.Text

namespace Flock.History

open Std (ExtTreeMap OrientedCmp TransCmp TransOrd LawfulEqOrd LawfulEqCmp)

/-- `u64`, and `usize` on the 64-bit targets. -/
abbrev U64 := Fin (2 ^ 64)

/-- Literals are below the bound. -/
instance neZero_u64 : NeZero (2 ^ 64) := ⟨by decide⟩

/-- A map may have numbers as keys. -/
instance transCmp_u64 : TransCmp (compare : U64 → U64 → Ordering) := inferInstance

/-- `u64::MAX`. -/
def u64Max : U64 := Fin.last _

/-! ## Metric values -/

/-- The operations of `f64` that the history uses. -/
class F64 (ν : Type) where
  /-- `str::parse::<f64>`. -/
  parse : List Char → Option ν
  isFinite : ν → Bool
  sub : ν → ν → ν
  lt : ν → ν → Bool
  le : ν → ν → Bool
  zero : ν
  /-- `-f64::EPSILON`. -/
  negEpsilon : ν

/-- `Sign?` in front of a number: its factor and what follows. -/
def signed : List Char → ℚ × List Char
  | '-' :: rest => (-1, rest)
  | '+' :: rest => (1, rest)
  | cs => (1, cs)

/-- `('e' | 'E') Sign? Digit+`, or nothing. -/
def exponent : List Char → Option ℤ
  | [] => some 0
  | c :: rest =>
      if c = 'e' ∨ c = 'E' then
        let sign := signed rest
        (Text.digitsValue sign.2).map fun n => if sign.1 < 0 then -(n : ℤ) else n
      else none

/-- `Digit* ('.' Digit*)? Exp?` with at least one digit, as an exact rational. -/
def decimal (cs : List Char) : Option ℚ :=
  let whole := cs.takeWhile Text.isAsciiDigit
  let afterWhole := cs.dropWhile Text.isAsciiDigit
  let fraction := match afterWhole with
    | '.' :: rest => rest.takeWhile Text.isAsciiDigit
    | _ => []
  let afterFraction := match afterWhole with
    | '.' :: rest => rest.dropWhile Text.isAsciiDigit
    | _ => afterWhole
  match Text.digitsValue (whole ++ fraction), exponent afterFraction with
  | some mantissa, some e => some (mantissa * (10 : ℚ) ^ (e - (fraction.length : ℤ)))
  | _, _ => none

/-- From this magnitude on, the nearest `f64` is an infinity. -/
def f64Overflow : ℚ := 2 ^ 1024 - 2 ^ 970

/-- Exact rationals in place of `f64`.  `inf`, `nan` and a number that rounds to an infinity have no
rational; the source refuses them as not finite, right after it refuses what does not parse. -/
instance : F64 ℚ where
  parse cs :=
    let sign := signed cs
    ((decimal sign.2).map (sign.1 * ·)).filter fun v => decide (-f64Overflow < v ∧ v < f64Overflow)
  isFinite _ := true
  sub := (· - ·)
  lt a b := decide (a < b)
  le a b := decide (a ≤ b)
  zero := 0
  negEpsilon := -(1 / 2 ^ 52)

/-! ## Series -/

/-- `BTreeMap<String, String>`. -/
abbrev Labels := ExtTreeMap String String

/-- The order of a map's entries: by key, then by value. -/
def compareEntry : String × String → String × String → Ordering :=
  compareLex (compareOn Prod.fst) (compareOn Prod.snd)

/-- The derived order of a `BTreeMap`: its entries, in key order, lexicographically. -/
def compareLabels (a b : Labels) : Ordering := List.compareLex compareEntry a.toList b.toList

/-- `MetricKey`: a metric and its labels. -/
structure MetricKey where
  metric : String
  labels : Labels
  deriving DecidableEq

instance : Ord MetricKey where
  compare := compareLex (compareOn MetricKey.metric) fun a b => compareLabels a.labels b.labels

instance : TransCmp compareEntry := inferInstanceAs (TransCmp (compareLex _ _))

instance : LawfulEqCmp compareEntry where
  eq_of_compare {a b} h := by
    simp only [compareEntry, compareLex, compareOn, Ordering.then_eq_eq] at h
    exact Prod.ext (LawfulEqOrd.eq_of_compare h.1) (LawfulEqOrd.eq_of_compare h.2)

instance : TransCmp compareLabels where
  eq_swap {a b} := OrientedCmp.eq_swap (a := a.toList) (b := b.toList)
  isLE_trans {a b c} := TransCmp.isLE_trans (a := a.toList) (b := b.toList) (c := c.toList)

instance : LawfulEqCmp compareLabels where
  eq_of_compare {_ _} h := ExtTreeMap.toList_inj.mp (LawfulEqCmp.eq_of_compare h)

instance : TransCmp fun a b : MetricKey => compareLabels a.labels b.labels where
  eq_swap {a b} := OrientedCmp.eq_swap (a := a.labels) (b := b.labels)
  isLE_trans {a b c} := TransCmp.isLE_trans (a := a.labels) (b := b.labels) (c := c.labels)

instance : TransOrd MetricKey := inferInstanceAs (TransCmp (compareLex _ _))

instance : LawfulEqOrd MetricKey where
  eq_of_compare {a b} h := by
    simp only [compare, compareLex, compareOn, Ordering.then_eq_eq] at h
    cases a
    cases b
    simp only [MetricKey.mk.injEq]
    exact ⟨LawfulEqOrd.eq_of_compare h.1, LawfulEqCmp.eq_of_compare h.2⟩

/-- One value for each series. -/
abbrev SeriesMap (ν : Type) := ExtTreeMap MetricKey ν

/-- `ParsedSnapshot`. -/
structure ParsedSnapshot (ν : Type) where
  counters : SeriesMap ν := ∅
  gauges : SeriesMap ν := ∅
  skippedLines : ℕ := 0

/-! ## Names and labels -/

/-- A first character `start` admits, then characters `rest` admits. -/
def validName (start rest : Char → Bool) : List Char → Bool
  | [] => false
  | c :: cs => start c && cs.all rest

/-- `valid_metric_name`. -/
def validMetricName : List Char → Bool :=
  validName (fun c => Text.isAsciiAlphabetic c || c == '_' || c == ':')
    fun c => Text.isAsciiAlphanumeric c || c == '_' || c == ':'

/-- `valid_label_name`. -/
def validLabelName : List Char → Bool :=
  validName (fun c => Text.isAsciiAlphabetic c || c == '_')
    fun c => Text.isAsciiAlphanumeric c || c == '_'

/-- `chars.next_if(is_whitespace)` until it answers `None`. -/
def skipWhitespace (cs : List Char) : List Char := cs.dropWhile Text.isWhitespace

/-- The characters a label's name is read from. -/
def labelNameChar (c : Char) : Bool := Text.isAsciiAlphanumeric c || c == '_'

/-- The inner loop of `parse_labels`: the value up to its closing quote, and what follows it. -/
def labelValue (acc : List Char) : List Char → Option (List Char × List Char)
  | [] => none
  | '"' :: rest => some (acc.reverse, rest)
  | ['\\'] => none
  | '\\' :: c :: rest =>
      if c = '"' then labelValue ('"' :: acc) rest
      else if c = '\\' then labelValue ('\\' :: acc) rest
      else if c = 'n' then labelValue ('\n' :: acc) rest
      else none
  | c :: rest => labelValue (c :: acc) rest

/-- One round of the loop of `parse_labels`, from its name on: `name = "value"`, and what follows. -/
def labelPair (cs : List Char) : Option (List Char × List Char × List Char) :=
  let name := cs.takeWhile labelNameChar
  if validLabelName name then
    match skipWhitespace (cs.dropWhile labelNameChar) with
    | '=' :: afterEq =>
        match skipWhitespace afterEq with
        | '"' :: quoted => (labelValue [] quoted).map fun (value, rest) => (name, value, rest)
        | _ => none
    | _ => none
  else none

theorem length_skipWhitespace_le (cs : List Char) : (skipWhitespace cs).length ≤ cs.length :=
  (List.dropWhile_sublist _).length_le

theorem length_labelValue_lt {acc cs value rest : List Char}
    (h : labelValue acc cs = some (value, rest)) : rest.length < cs.length := by
  fun_induction labelValue acc cs <;> grind

theorem length_labelPair_lt {cs name value rest : List Char}
    (h : labelPair cs = some (name, value, rest)) : rest.length < cs.length := by
  simp only [labelPair] at h
  split at h
  · split at h
    · rename_i afterEq heq
      split at h
      · rename_i quoted hquoted
        obtain ⟨⟨v, r⟩, hv, hr⟩ := Option.map_eq_some_iff.mp h
        obtain ⟨rfl, rfl, rfl⟩ : _ = name ∧ v = value ∧ r = rest := by simpa using hr
        have h₁ := length_labelValue_lt hv
        have h₂ := length_skipWhitespace_le afterEq
        have h₃ := length_skipWhitespace_le (cs.dropWhile labelNameChar)
        have h₄ := (List.dropWhile_sublist labelNameChar (l := cs)).length_le
        rw [hquoted, List.length_cons] at h₂
        rw [heq, List.length_cons] at h₃
        omega
      · cases h
    · cases h
  · cases h

/-- A round of `parse_labels` that goes on to another one leaves a shorter input. -/
theorem length_label_lt {input cs name value rest more : List Char} (hcs : skipWhitespace input = cs)
    (hpair : labelPair cs = some (name, value, rest)) (hrest : skipWhitespace rest = ',' :: more) :
    more.length < input.length := by
  have h₁ := length_skipWhitespace_le input
  have h₂ := length_labelPair_lt hpair
  have h₃ := length_skipWhitespace_le rest
  rw [hcs] at h₁
  rw [hrest, List.length_cons] at h₃
  omega

/-- `parse_labels`, with the labels read so far. -/
def parseLabels (labels : Labels) (input : List Char) : Option Labels :=
  match hinput : skipWhitespace input with
  | [] => some labels
  | c :: cs =>
      match hpair : labelPair (c :: cs) with
      | none => none
      | some (name, value, rest) =>
          -- a name given twice refuses the whole series
          if labels.contains (String.ofList name) then none
          else
            let labels := labels.insert (String.ofList name) (String.ofList value)
            match hrest : skipWhitespace rest with
            | [] => some labels
            | ',' :: more =>
                have : more.length < input.length := length_label_lt hinput hpair hrest
                parseLabels labels more
            | _ :: _ => none
termination_by input.length

/-- `parse_metric_key`. -/
def parseMetricKey (series : List Char) : Option MetricKey :=
  match series.span (· != '\x7b') with
  | (_, []) =>
      if validMetricName series then some ⟨String.ofList series, ∅⟩ else none
  | (metric, _ :: inside) =>
      match inside.getLast? with
      | some '\x7d' =>
          if validMetricName metric then
            (parseLabels ∅ inside.dropLast).map fun labels => ⟨String.ofList metric, labels⟩
          else none
      | _ => none

/-! ## The reader -/

/-- `PrometheusType`. -/
inductive PrometheusType where
  | counter
  | gauge
  | histogram
  deriving DecidableEq, Repr

/-- `is_counter_like`: by its declared type, by a histogram it belongs to, or by its name. -/
def isCounterLike (metric : List Char) (types : ExtTreeMap String PrometheusType) : Bool :=
  match types[String.ofList metric]? with
  | some kind => kind == .counter || kind == .histogram
  | none =>
      let ofHistogram := ["_bucket", "_count", "_sum"].any fun suffix =>
        match Text.stripEnd suffix.toList metric with
        | some base => types[String.ofList base]? == some PrometheusType.histogram
        | none => false
      ofHistogram || ["_total", "_bucket", "_count", "_sum"].any fun suffix =>
        suffix.toList.isSuffixOf metric

/-- `MAX_EXPOSITION_LINE_BYTES`. -/
def maxExpositionLineBytes : ℕ := 1024 * 1024

/-- `MAX_EXPOSITION_SERIES`. -/
def maxExpositionSeries : ℕ := 100000

/-- What the loop of `parse_exposition` carries. -/
structure Reading (ν : Type) where
  parsed : ParsedSnapshot ν := {}
  types : ExtTreeMap String PrometheusType := ∅
  series : ℕ := 0

/-- A line that is counted as skipped. -/
def Reading.skip {ν : Type} (r : Reading ν) : Reading ν :=
  { r with parsed := { r.parsed with skippedLines := r.parsed.skippedLines + 1 } }

/-- A `# TYPE` line, without the marker. -/
def Reading.declare {ν : Type} (r : Reading ν) (metadata : List Char) : Reading ν :=
  match Text.splitWhitespace metadata with
  | [name, kind] =>
      let kind :=
        if kind = "counter".toList then some PrometheusType.counter
        else if kind = "gauge".toList then some .gauge
        else if kind = "histogram".toList then some .histogram
        else none
      match kind with
      | some kind =>
          if validMetricName name then
            if r.types.size < maxExpositionSeries ∨ String.ofList name ∈ r.types then
              { r with types := r.types.insert (String.ofList name) kind }
            else r.skip
          else r
      | none => r
  | _ => r

section Reader

variable {ν : Type} [F64 ν]

/-- The series and the value of a sample line: split after the last brace, or at the first white space
if there is none.  What stands between the brace and the white space is dropped. -/
def seriesAndValue (line : List Char) : Option (List Char × List Char) :=
  match Text.splitAfterLast '\x7d' line with
  | none => Text.splitOnceP Text.isWhitespace line
  | some (series, rest) =>
      (Text.splitOnceP Text.isWhitespace rest).map fun (_, value) => (series, value)

/-- A sample line, parsed: its key and its finite value. -/
def parseSample (line : List Char) : Option (MetricKey × ν) := do
  let (series, valueText) ← seriesAndValue line
  let valueText := skipWhitespace valueText
  if valueText.isEmpty || valueText.any Text.isWhitespace then none
  let value ← F64.parse valueText
  if !F64.isFinite value then none
  let key ← parseMetricKey series
  some (key, value)

/-- A sample of the exposition. -/
def Reading.sample (r : Reading ν) (key : MetricKey) (value : ν) : Reading ν :=
  let parsed :=
    if isCounterLike key.metric.toList r.types then
      { r.parsed with counters := r.parsed.counters.insert key value }
    else { r.parsed with gauges := r.parsed.gauges.insert key value }
  { r with parsed := parsed, series := r.series + 1 }

/-- One line of `parse_exposition`. -/
def Reading.line (r : Reading ν) (line : List Char) : Reading ν :=
  if maxExpositionLineBytes < Text.byteLen line then r.skip
  else if line.isEmpty then r
  else if "# TYPE ".toList.isPrefixOf line then r.declare (line.drop 7)
  else if line.head? = some '#' then r
  else if maxExpositionSeries ≤ r.series then r.skip
  else
    match parseSample line with
    | some (key, value) => r.sample key value
    | none => r.skip

/-- `parse_exposition`. -/
def parseExposition (exposition : List Char) : ParsedSnapshot ν :=
  ((Text.lines exposition).foldl Reading.line {}).parsed

/-! ## Only finite values -/

/-- Every value of a map is finite. -/
def AllFinite (m : SeriesMap ν) : Prop :=
  ∀ (key : MetricKey) (value : ν), m[key]? = some value → F64.isFinite value = true

/-- Every value of a snapshot is finite. -/
structure ParsedSnapshot.Finite (p : ParsedSnapshot ν) : Prop where
  counters : AllFinite p.counters
  gauges : AllFinite p.gauges

theorem allFinite_empty : AllFinite (∅ : SeriesMap ν) := by
  intro key value h
  simp at h

theorem isFinite_of_parseSample {line : List Char} {key : MetricKey} {value : ν}
    (h : parseSample line = some (key, value)) : F64.isFinite value = true := by
  obtain ⟨⟨series, valueText⟩, -, h⟩ := Option.bind_eq_some_iff.mp h
  dsimp only at h
  split at h
  · cases h
  · obtain ⟨v, -, h⟩ := Option.bind_eq_some_iff.mp h
    split at h
    · cases h
    · rename_i hfin
      obtain ⟨k, -, h⟩ := Option.bind_eq_some_iff.mp h
      obtain ⟨-, rfl⟩ : k = key ∧ v = value := by simpa using h
      simpa using hfin

theorem AllFinite.insert {m : SeriesMap ν} (hm : AllFinite m) (key : MetricKey) {value : ν}
    (hv : F64.isFinite value = true) : AllFinite (m.insert key value) := by
  intro k v h
  rw [ExtTreeMap.getElem?_insert] at h
  split at h
  · obtain rfl := Option.some.inj h
    exact hv
  · exact hm k v h

theorem Reading.finite_line {r : Reading ν} (h : r.parsed.Finite) (line : List Char) :
    (r.line line).parsed.Finite := by
  have hskip : r.skip.parsed.Finite := ⟨h.counters, h.gauges⟩
  rw [Reading.line]
  split
  · exact hskip
  split
  · exact h
  split
  · -- a type line touches no value
    rw [Reading.declare]
    repeat' split
    all_goals first | exact h | exact hskip
  split
  · exact h
  split
  · exact hskip
  · cases hline : parseSample (ν := ν) line with
    | none => exact hskip
    | some sample =>
        have hfin := isFinite_of_parseSample hline
        simp only [Reading.sample]
        split
        · exact ⟨h.counters.insert _ hfin, h.gauges⟩
        · exact ⟨h.counters, h.gauges.insert _ hfin⟩

/-- **Whatever the text, the reader keeps only finite values.** -/
theorem finite_parseExposition (exposition : List Char) :
    (parseExposition exposition : ParsedSnapshot ν).Finite := by
  have key : ∀ (lines : List (List Char)) (r : Reading ν), r.parsed.Finite →
      (lines.foldl Reading.line r).parsed.Finite := by
    intro lines
    induction lines with
    | nil => exact fun _ h => h
    | cons line rest ih => exact fun r h => ih _ (r.finite_line h line)
  exact key _ {} ⟨allFinite_empty, allFinite_empty⟩

end Reader

end Flock.History
