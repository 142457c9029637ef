/-
# Flock.Dashboard.Samples — the dashboard's series, from what the history reports.

The history reports a range as buckets, totals and the latest gauges, and what came after it as a tail.  The panels
want cumulative counters.  `rangeSamples` adds the buckets up again, puts the totals in the place of the last sum and
adds the tail to them.

The order in which label names are sorted is the browser's; it is a parameter, as is all that depends on it.
-/
import Mathlib.Algebra.Order.BigOperators.Group.List
import Mathlib.Data.List.Sort
import Flock.Lib.InsertionMap
import Flock.Lib.TreeMap
import Flock.History.Exposition

namespace Flock.Dashboard

open Flock.History (Labels MetricKey)
open Flock.Lib (InsertionMap entrySum)

/-! ## What is reported -/

/-- A value of a series. -/
structure Row where
  metric : String
  labels : Option Labels := none
  value : ℚ

/-- `r.labels || {}`. -/
def Row.labelSet (r : Row) : Labels := r.labels.getD ∅

/-- The series of a row. -/
def Row.series (r : Row) : MetricKey := ⟨r.metric, r.labelSet⟩

/-- `{ metric: r.metric, labels: r.labels || {}, value }`. -/
def Row.withValue (r : Row) (value : ℚ) : Row := ⟨r.metric, some r.labelSet, value⟩

/-- A bucket of the range, up to `to`. -/
structure Point where
  stop : ℚ
  values : Option (List Row) := none

/-- `point.values || []`. -/
def Point.rows (p : Point) : List Row := p.values.getD []

/-- The window of a range. -/
structure Window where
  effectiveFrom : Option ℚ := none
  requestedFrom : ℚ

/-- A range. -/
structure Range where
  window : Window
  totals : Option (List Row) := none
  latest : Option (List Row) := none
  points : Option (List Point) := none
  historyRevision : ℕ

namespace Range

/-- `range.totals || []`. -/
def totalRows (range : Range) : List Row := range.totals.getD []

/-- `range.latest || []`. -/
def latestRows (range : Range) : List Row := range.latest.getD []

/-- `range.points || []`. -/
def pointList (range : Range) : List Point := range.points.getD []

/-- `range.window.effective_from ?? range.window.requested_from`. -/
def baseline (range : Range) : ℚ := range.window.effectiveFrom.getD range.window.requestedFrom

end Range

/-- A tail, up to `to`. -/
structure Tail where
  baseHistoryRevision : ℕ
  stop : ℚ
  totals : Option (List Row) := none

/-- `tail.totals || []`. -/
def Tail.rows (t : Tail) : List Row := t.totals.getD []

/-! ## What is shown -/

/-- A row of a sample. -/
structure SampleRow where
  name : String
  labels : Labels
  value : ℚ
  deriving DecidableEq

/-- `asRow`. -/
def asRow (r : Row) : SampleRow := ⟨r.metric, r.labelSet, r.value⟩

/-- The series of a row. -/
def SampleRow.series (r : SampleRow) : MetricKey := ⟨r.name, r.labels⟩

/-- `{ t, rows }`. -/
structure Sample where
  t : ℚ
  rows : List SampleRow

/-- The values that a sample shows of a series. -/
def Sample.values (s : MetricKey) (x : Sample) : List ℚ := (x.rows.filter fun r => r.series = s).map SampleRow.value

/-- The value of a series, as the panels read it: what the rows say, zero if there is none. -/
def Sample.value (s : MetricKey) (x : Sample) : ℚ := (x.values s).sum

/-! ## The samples -/

section Build

/- `a.localeCompare(b) <= 0`. -/
variable (le : String → String → Bool)

/-- `rowKey`: the metric and the labels, sorted by their names. -/
def rowKey (s : MetricKey) : String :=
  let labels := s.labels.toList.insertionSort fun a b => le a.1 b.1 = true
  s.metric ++ "\x00" ++ "\x00".intercalate (labels.map fun l => l.1 ++ "=" ++ l.2)

/-- `counters` and `gauges`. -/
abbrev Rows := InsertionMap String Row

/-- `seedCounter`. -/
def seedCounter (gaugeKeys : List String) (counters : Rows) (r : Row) : Rows :=
  let key := rowKey le r.series
  if key ∉ gaugeKeys ∧ counters.has key = false then counters.set key (r.withValue 0) else counters

/-- The row of a counter with a value added to it. -/
def addCounter (counters : Rows) (r : Row) : Rows :=
  let key := rowKey le r.series
  let current := (counters.get? key).getD (r.withValue 0)
  counters.set key { current with value := current.value + r.value }

/-- The row of a gauge, replaced. -/
def setGauge (gauges : Rows) (r : Row) : Rows := gauges.set (rowKey le r.series) (r.withValue r.value)

/-- What `rangeSamples` keeps. -/
structure Build where
  counters : Rows
  gauges : Rows := .empty
  out : List Sample := []

/-- `rows()`. -/
def Build.rows (b : Build) : List SampleRow := (b.counters.values ++ b.gauges.values).map asRow

/-- `out.push({ t, rows: rows() })`. -/
def Build.push (b : Build) (t : ℚ) : Build := { b with out := b.out ++ [⟨t, b.rows⟩] }

/-- A value of a bucket. -/
def Build.row (gaugeKeys : List String) (b : Build) (r : Row) : Build :=
  if rowKey le r.series ∈ gaugeKeys then { b with gauges := setGauge le b.gauges r }
  else { b with counters := addCounter le b.counters r }

/-- A bucket. -/
def Build.point (gaugeKeys : List String) (b : Build) (p : Point) : Build :=
  (p.rows.foldl (Build.row le gaugeKeys) b).push (p.stop * 1000)

/-- `gaugeKeys`. -/
def Range.gaugeKeys (range : Range) : List String := range.latestRows.map fun r => rowKey le r.series

/-- `points`: the buckets, sorted. -/
def Range.sorted (range : Range) : List Point := range.pointList.insertionSort fun a b => a.stop ≤ b.stop

/-- The counters, at zero, and the first sample. -/
def Range.seeded (range : Range) : Build :=
  let seed := seedCounter le (range.gaugeKeys le)
  let counters := range.totalRows.foldl seed .empty
  let counters := (range.pointList.flatMap Point.rows).foldl seed counters
  ({ counters := counters } : Build).push (range.baseline * 1000)

/-- The last sample, overwritten: `counters` are the totals, and `gauges` have the latest values. -/
def Range.overwrite (range : Range) (b : Build) : Build :=
  let counters : Rows := InsertionMap.empty.setAll
    (range.totalRows.map fun r => (rowKey le r.series, r.withValue r.value))
  let b : Build := { b with counters := counters, gauges := range.latestRows.foldl (setGauge le) b.gauges }
  if 1 < b.out.length then { b with out := b.out.modify (b.out.length - 1) fun x => { x with rows := b.rows } } else b

/-- `rangeSamples`. -/
def rangeSamples (range : Range) (tail : Option Tail) : List Sample :=
  let b := range.overwrite le (range.sorted.foldl (Build.point le (range.gaugeKeys le)) (range.seeded le))
  match tail with
  | some tail =>
      if tail.baseHistoryRevision = range.historyRevision then
        let b := { b with counters := tail.rows.foldl (addCounter le) b.counters }
        (b.push (tail.stop * 1000)).out
      else b.out
  | none => b.out

end Build

/-! ## One value -/

section Keys

variable {le : String → String → Bool} {m : Rows} {r : Row} {rows : List Row} {k : String}

/-- Values, under the keys of their rows. -/
def keyed (le : String → String → Bool) (rows : List Row) : List (String × ℚ) :=
  rows.map fun r => (rowKey le r.series, r.value)

/-- The value under a key. -/
def shownAt (k : String) (m : Rows) : Option ℚ := (m.get? k).map Row.value

theorem keyed_append (rows rows' : List Row) : keyed le (rows ++ rows') = keyed le rows ++ keyed le rows' :=
  List.map_append

theorem shownAt_set (m : Rows) (k k' : String) (r : Row) :
    shownAt k' (m.set k r) = if k = k' then some r.value else shownAt k' m := by
  unfold shownAt
  rw [InsertionMap.get?_set]
  split <;> rfl

/-- A value is added to its key. -/
theorem shownAt_addCounter (m : Rows) (r : Row) (k : String) :
    shownAt k (addCounter le m r) =
      if rowKey le r.series = k then some ((shownAt k m).getD 0 + r.value) else shownAt k m := by
  unfold addCounter
  rw [shownAt_set]
  split
  · rename_i heq
    subst heq
    unfold shownAt
    cases m.get? (rowKey le r.series) <;> rfl
  · rfl

theorem shownAt_setGauge (m : Rows) (r : Row) (k : String) :
    shownAt k (setGauge le m r) = if rowKey le r.series = k then some r.value else shownAt k m := shownAt_set ..

/-- **Values are added up**, key by key. -/
theorem shownAt_foldl_addCounter (rows : List Row) (m : Rows) (k : String) :
    (shownAt k (rows.foldl (addCounter le) m)).getD 0 = (shownAt k m).getD 0 + entrySum k (keyed le rows) := by
  induction rows generalizing m with
  | nil => exact (add_zero _).symm
  | cons r rows ih =>
      rw [List.foldl_cons, ih, shownAt_addCounter]
      unfold keyed
      rw [List.map_cons, Lib.entrySum_cons]
      by_cases hk : rowKey le r.series = k
      · rw [if_pos hk, if_pos hk, Option.getD_some, add_assoc]
      · rw [if_neg hk, if_neg hk, zero_add]

theorem shownAt_foldl_addCounter_of_ne (h : ∀ r ∈ rows, rowKey le r.series ≠ k) :
    shownAt k (rows.foldl (addCounter le) m) = shownAt k m := by
  induction rows generalizing m with
  | nil => rfl
  | cons r rows ih =>
      rw [List.foldl_cons, ih fun r' hr' => h r' (List.mem_cons_of_mem _ hr'), shownAt_addCounter,
        if_neg (h r List.mem_cons_self)]

/-- **Values are replaced**, key by key. -/
theorem shownAt_foldl_setGauge (rows : List Row) (m : Rows) (k : String) :
    shownAt k (rows.foldl (setGauge le) m) = (InsertionMap.lastEntry k (keyed le rows)).or (shownAt k m) := by
  induction rows using List.reverseRecOn with
  | nil => rfl
  | append_singleton rows r ih =>
      have hlast := InsertionMap.lastEntry_concat k (keyed le rows) (rowKey le r.series, r.value)
      rw [List.foldl_concat, shownAt_setGauge, ih, keyed_append]
      show _ = (InsertionMap.lastEntry k (keyed le rows ++ [(rowKey le r.series, r.value)])).or _
      rw [hlast]
      split <;> rfl

/-- What is shown once stays shown. -/
theorem isSome_foldl_addCounter (rows : List Row) (h : (shownAt k m).isSome) :
    (shownAt k (rows.foldl (addCounter le) m)).isSome := by
  induction rows generalizing m with
  | nil => exact h
  | cons r rows ih =>
      apply ih
      rw [shownAt_addCounter]
      split
      · rfl
      · exact h

/-- **`Stored le present m`** — every row stands under its own key, and its series is one of those present. -/
def Stored (le : String → String → Bool) (present : List MetricKey) (m : Rows) : Prop :=
  ∀ e ∈ m.entries, e.1 = rowKey le e.2.series ∧ e.2.series ∈ present

variable {present : List MetricKey}

theorem stored_empty : Stored le present InsertionMap.empty := fun _ he => absurd he List.not_mem_nil

theorem Stored.set (h : Stored le present m) (hr : r.series ∈ present) : Stored le present (m.set (rowKey le r.series) r) := by
  intro e he
  rcases InsertionMap.mem_entries_set he with rfl | hold
  · exact ⟨rfl, hr⟩
  · exact h e hold

theorem Stored.addCounter (h : Stored le present m) (hr : r.series ∈ present) :
    Stored le present (addCounter le m r) := by
  unfold Dashboard.addCounter
  dsimp only
  cases hget : m.get? (rowKey le r.series) with
  | none => exact Stored.set (r := r.withValue (0 + r.value)) h hr
  | some current =>
      obtain ⟨hkey, hpresent⟩ := h _ (InsertionMap.mem_of_get? hget)
      show Stored le present (m.set (rowKey le r.series) { current with value := current.value + r.value })
      rw [show rowKey le r.series = rowKey le current.series from hkey]
      exact Stored.set (r := { current with value := current.value + r.value }) h hpresent

theorem Stored.foldl {f : Rows → Row → Rows} (hf : ∀ m, ∀ r ∈ rows, Stored le present m → Stored le present (f m r))
    (h : Stored le present m) : Stored le present (rows.foldl f m) := by
  induction rows generalizing m with
  | nil => exact h
  | cons r rows ih =>
      exact ih (fun m r' hr' => hf m r' (List.mem_cons_of_mem _ hr')) (hf m r List.mem_cons_self h)

/-- **What a sample shows of a series**: what the two maps have under its key. -/
theorem values_rows {b : Build} {t : ℚ} {s : MetricKey} (hcounters : Stored le present b.counters)
    (hgauges : Stored le present b.gauges) (hs : s ∈ present)
    (hkeys : Set.InjOn (rowKey le) {s | s ∈ present}) :
    Sample.values s ⟨t, b.rows⟩ = (shownAt (rowKey le s) b.counters).toList ++ (shownAt (rowKey le s) b.gauges).toList := by
  have hpart {m : Rows} (hm : Stored le present m) :
      ((m.values.map asRow).filter fun r => r.series = s).map SampleRow.value = (shownAt (rowKey le s) m).toList := by
    have hfilter : (m.values.filter fun r => r.series = s) = m.values.filter fun r => rowKey le r.series = rowKey le s := by
      apply List.filter_congr
      intro r hr
      obtain ⟨e, he, rfl⟩ := List.mem_map.mp hr
      simp only [decide_eq_decide]
      exact ⟨congrArg _, hkeys (hm e he).2 hs⟩
    have hvalues := InsertionMap.filter_values (f := fun r : Row => rowKey le r.series) (fun e he => (hm e he).1.symm) (rowKey le s)
    rw [List.filter_map, List.map_map]
    show (m.values.filter fun r => r.series = s).map Row.value = _
    rw [hfilter, hvalues]
    unfold shownAt
    cases m.get? (rowKey le s) <;> rfl
  unfold Sample.values Build.rows
  rw [List.map_append, List.filter_append, List.map_append, hpart hcounters, hpart hgauges]

end Keys

/-! ## The loop over the buckets -/

section Loop

variable {le : String → String → Bool} {gaugeKeys seeds : List String} {present : List MetricKey} {r : Row}
  {rows rows' : List Row} {b : Build}

/-- A series that is no gauge is shown from the start. -/
theorem shownAt_seedCounter (m : Rows) (r : Row) (k : String) :
    shownAt k (seedCounter le gaugeKeys m r) =
      (shownAt k m).or (if rowKey le r.series = k ∧ k ∉ gaugeKeys then some 0 else none) := by
  have hhas : m.has k = (shownAt k m).isSome := by
    unfold InsertionMap.has shownAt
    rw [Option.isSome_map]
  unfold seedCounter
  dsimp only
  by_cases hk : rowKey le r.series = k
  · subst hk
    rw [hhas]
    by_cases hgauge : rowKey le r.series ∈ gaugeKeys
    · rw [if_neg fun h => h.1 hgauge, if_neg fun h => h.2 hgauge, Option.or_none]
    · rw [if_pos (⟨rfl, hgauge⟩ : rowKey le r.series = rowKey le r.series ∧ rowKey le r.series ∉ gaugeKeys)]
      cases hshown : shownAt (rowKey le r.series) m with
      | none =>
          rw [if_pos ⟨hgauge, rfl⟩, shownAt_set, if_pos rfl]
          rfl
      | some value =>
          rw [if_neg fun h => absurd h.2 (by simp), hshown]
          rfl
  · have hnone : (if rowKey le r.series = k ∧ k ∉ gaugeKeys then some (0 : ℚ) else none) = none :=
      if_neg fun h => hk h.1
    rw [hnone, Option.or_none]
    split
    · rw [shownAt_set, if_neg hk]
    · rfl

/-- **The counters before the first bucket**: zero, for every series that is no gauge. -/
theorem shownAt_foldl_seedCounter (rows : List Row) (m : Rows) (k : String) :
    shownAt k (rows.foldl (seedCounter le gaugeKeys) m) =
      (shownAt k m).or (if (∃ r ∈ rows, rowKey le r.series = k) ∧ k ∉ gaugeKeys then some 0 else none) := by
  induction rows generalizing m with
  | nil => simp
  | cons r rows ih =>
      rw [List.foldl_cons, ih, shownAt_seedCounter, Option.or_assoc]
      by_cases hgauge : k ∈ gaugeKeys
      · simp [hgauge]
      · by_cases hk : rowKey le r.series = k
        · simp [hgauge, hk]
        · simp [hgauge, hk]

/-- **`Tracks rows b`** — the counters have added the values up, and the gauges have the last ones. -/
structure Build.Tracks (le : String → String → Bool) (gaugeKeys seeds : List String) (present : List MetricKey)
    (rows : List Row) (b : Build) : Prop where
  counter : ∀ k ∉ gaugeKeys, (shownAt k b.counters).getD 0 = entrySum k (keyed le rows)
  noGauge : ∀ k ∉ gaugeKeys, shownAt k b.gauges = none
  gauge : ∀ k ∈ gaugeKeys, shownAt k b.gauges = InsertionMap.lastEntry k (keyed le rows)
  noCounter : ∀ k ∈ gaugeKeys, shownAt k b.counters = none
  seeded : ∀ k ∈ seeds, (shownAt k b.counters).isSome
  storedCounters : Stored le present b.counters
  storedGauges : Stored le present b.gauges

/-- **One value** keeps the account. -/
theorem Build.Tracks.row (h : b.Tracks le gaugeKeys seeds present rows) (hr : r.series ∈ present) :
    (b.row le gaugeKeys r).Tracks le gaugeKeys seeds present (rows ++ [r]) := by
  have hsum (k : String) : entrySum k (keyed le (rows ++ [r])) =
      entrySum k (keyed le rows) + if rowKey le r.series = k then r.value else 0 := by
    rw [keyed_append, Lib.entrySum_append]
    unfold keyed
    rw [List.map_singleton, Lib.entrySum_cons, Lib.entrySum_nil, add_zero]
  have hlast (k : String) : InsertionMap.lastEntry k (keyed le (rows ++ [r])) =
      if rowKey le r.series = k then some r.value else InsertionMap.lastEntry k (keyed le rows) := by
    rw [keyed_append]
    exact InsertionMap.lastEntry_concat k _ (rowKey le r.series, r.value)
  unfold Build.row
  split
  · rename_i hgauge
    -- a gauge: no counter has its key
    have hother {k : String} (hk : k ∉ gaugeKeys) : rowKey le r.series ≠ k := fun heq => hk (heq ▸ hgauge)
    exact {
      counter := fun k hk => by rw [hsum, if_neg (hother hk), add_zero, h.counter k hk]
      noGauge := fun k hk => by rw [shownAt_setGauge, if_neg (hother hk), h.noGauge k hk]
      gauge := fun k hk => by rw [shownAt_setGauge, hlast, h.gauge k hk]
      noCounter := h.noCounter
      seeded := h.seeded
      storedCounters := h.storedCounters
      storedGauges := Stored.set (r := r.withValue r.value) h.storedGauges hr }
  · rename_i hcounter
    have hother {k : String} (hk : k ∈ gaugeKeys) : rowKey le r.series ≠ k := fun heq => hcounter (heq ▸ hk)
    exact {
      counter := fun k hk => by
        rw [shownAt_addCounter, hsum, ← h.counter k hk]
        split
        · rfl
        · exact (add_zero _).symm
      noGauge := h.noGauge
      gauge := fun k hk => by rw [hlast, if_neg (hother hk), h.gauge k hk]
      noCounter := fun k hk => by rw [shownAt_addCounter, if_neg (hother hk), h.noCounter k hk]
      seeded := fun k hk => isSome_foldl_addCounter [r] (h.seeded k hk)
      storedCounters := h.storedCounters.addCounter hr
      storedGauges := h.storedGauges }

/-- **A bucket** keeps the account. -/
theorem Build.Tracks.point {p : Point} (h : b.Tracks le gaugeKeys seeds present rows)
    (hp : ∀ r ∈ p.rows, r.series ∈ present) :
    (b.point le gaugeKeys p).Tracks le gaugeKeys seeds present (rows ++ p.rows) := by
  have hfold : ∀ (rs : List Row) (b : Build) (rows : List Row), (∀ r ∈ rs, r.series ∈ present) →
      b.Tracks le gaugeKeys seeds present rows →
      (rs.foldl (Build.row le gaugeKeys) b).Tracks le gaugeKeys seeds present (rows ++ rs) := by
    intro rs
    induction rs with
    | nil =>
        intro b rows _ h
        rwa [List.append_nil]
    | cons r rs ih =>
        intro b rows hrs h
        have hrest := ih (b.row le gaugeKeys r) (rows ++ [r]) (fun r' hr' => hrs r' (List.mem_cons_of_mem _ hr'))
          (h.row (hrs r List.mem_cons_self))
        rwa [List.append_assoc] at hrest
  obtain ⟨hcounter, hnoGauge, hgauge, hnoCounter, hseeded, hstored, hstored'⟩ := hfold p.rows b rows hp h
  exact ⟨hcounter, hnoGauge, hgauge, hnoCounter, hseeded, hstored, hstored'⟩

variable {range : Range} {pts : List Point}

/-- What is kept behind some of the buckets. -/
def Range.after (le : String → String → Bool) (range : Range) (pts : List Point) : Build :=
  pts.foldl (Build.point le (range.gaugeKeys le)) (range.seeded le)

theorem after_concat (pts : List Point) (p : Point) :
    range.after le (pts ++ [p]) = (range.after le pts).point le (range.gaugeKeys le) p := List.foldl_concat ..

theorem out_point (b : Build) (p : Point) :
    (b.point le gaugeKeys p).out = b.out ++ [⟨p.stop * 1000, (b.point le gaugeKeys p).rows⟩] := by
  have hout : ∀ (rs : List Row) (b : Build), (rs.foldl (Build.row le gaugeKeys) b).out = b.out := by
    intro rs
    induction rs with
    | nil => exact fun _ => rfl
    | cons r rs ih =>
        intro b
        rw [List.foldl_cons, ih]
        unfold Build.row
        split <;> rfl
  unfold Build.point Build.push
  rw [hout]
  rfl

theorem length_out_after (pts : List Point) : (range.after le pts).out.length = pts.length + 1 := by
  induction pts using List.reverseRecOn with
  | nil => rfl
  | append_singleton pts p ih => rw [after_concat, out_point, List.length_append, ih, List.length_append]; rfl

/-- **The samples of the loop**: each shows what was kept behind its bucket. -/
theorem out_after (pts : List Point) {i : ℕ} (hi : i ≤ pts.length) :
    ∃ t, (range.after le pts).out[i]? = some ⟨t, (range.after le (pts.take i)).rows⟩ := by
  induction pts using List.reverseRecOn with
  | nil =>
      obtain rfl : i = 0 := by simpa using hi
      exact ⟨range.baseline * 1000, rfl⟩
  | append_singleton pts p ih =>
      rw [after_concat, out_point]
      rw [List.length_append, List.length_singleton] at hi
      by_cases hlast : i = pts.length + 1
      · subst hlast
        refine ⟨p.stop * 1000, ?_⟩
        rw [← length_out_after, List.getElem?_concat_length, length_out_after, List.take_of_length_le (by simp),
          after_concat]
      · obtain ⟨t, ht⟩ := ih (by omega)
        refine ⟨t, ?_⟩
        rw [List.getElem?_append_left (by rw [length_out_after]; omega), ht, List.take_append_of_le_length (by omega)]

end Loop

end Flock.Dashboard
