/-
# Flock.Dashboard.FromHistory — the history's answer, as the dashboard gets it.

What `rollup` reports is a consistent range, so what a panel shows of a counter is what the history counted in the
window, and what came after it.

The numbers of the range are those of the history; the dashboard only draws them.  So `Range.Consistent`, which the
panels ask for, is not an assumption about the server but a theorem about `rollup`, and a reset in the window has been
counted there already.
-/
import Flock.History.Windows
import Flock.History.Telescope
import Flock.Dashboard.Reconstruction

namespace Flock.Dashboard

open Flock.History (MetricKey MetricValue SeriesMap HistoryInner IndexedPoint Rollup RollupPoint U64 Nonneg rollup
  seriesTotal seriesValue metricValues)
open Flock.Lib (InsertionMap)
open Std (ExtTreeMap)

/-! ## The answer

The rows of an answer, as JSON would give them back: one row for each series of a map. -/

/-- A value, as it is sent. -/
def Row.ofMetric (v : MetricValue ℚ) : Row := { metric := v.metric, labels := some v.labels, value := v.value }

/-- A bucket, as it is sent. -/
def Point.ofRollup (y : RollupPoint ℚ) : Point :=
  { stop := (y.stop.val : ℚ), values := some (y.values.map Row.ofMetric) }

/-- A range, as it is sent. -/
def Range.ofRollup (start : U64) (data : Rollup ℚ) : Range where
  window := { effectiveFrom := data.effectiveFrom.map fun t => (t.val : ℚ), requestedFrom := (start.val : ℚ) }
  totals := some (data.totals.map Row.ofMetric)
  latest := some (data.latest.map Row.ofMetric)
  points := some (data.points.map Point.ofRollup)
  historyRevision := data.historyRevision.val

section Values

variable {s key : MetricKey} {m : SeriesMap ℚ}

/-- The sum over the rows of a series is the sum over its values. -/
theorem sumOf_ofMetric (s : MetricKey) (vs : List (MetricValue ℚ)) :
    sumOf s (vs.map Row.ofMetric) = seriesTotal s vs := by
  unfold sumOf bySeries seriesTotal Lib.entrySum
  rw [List.map_map, List.filter_map, List.map_map]
  rfl

/-- A map that is sent and read again is the map. -/
theorem bySeries_metricValues (m : SeriesMap ℚ) : bySeries ((metricValues m).map Row.ofMetric) = m.toList := by
  unfold bySeries metricValues
  rw [List.map_map, List.map_map]
  exact List.map_id _

/-- A map that is sent has its values. -/
theorem lastOf_metricValues (s : MetricKey) (m : SeriesMap ℚ) : lastOf s ((metricValues m).map Row.ofMetric) = m[s]? := by
  unfold lastOf
  rw [bySeries_metricValues]
  cases hget : m[s]? with
  | none => exact InsertionMap.lastEntry_eq_none.mpr (Lib.notMem_of_getElem?_eq_none hget)
  | some value =>
      exact InsertionMap.lastEntry_of_mem (Lib.distinct_toList m) (ExtTreeMap.mem_toList_iff_getElem?_eq_some.mpr hget)

/-- A series has a row just when the map has it. -/
theorem exists_row_metricValues : (∃ r ∈ (metricValues m).map Row.ofMetric, r.series = s) ↔ s ∈ m := by
  rw [← isSome_lastOf, lastOf_metricValues, ExtTreeMap.mem_iff_isSome_getElem?]

end Values

/-! ## The answer is consistent

In order, counted upwards, and every counter of a bucket is one of the totals. -/

section Window

open Flock.History (InWindow BucketAccumulator addMetrics extend mem_addMetrics mem_extend inWindow_within last_before_le
  reported within_eq_filter clampedBudget clampedBudget_mem rollup_of_points values_finish seriesValue_bucket
  seriesValue_of_getElem? point_mem_of_bucketSpans seriesTotal_rollup sum_reported)

variable {inner : HistoryInner ℚ} {start stop : U64} {points : ℕ} {s : MetricKey}

/-- **`Counted inner`** — the points are in order, nothing was counted down, and no series is a counter and a gauge. -/
structure Counted (inner : HistoryInner ℚ) : Prop where
  sorted : inner.points.Pairwise fun p q => p.t ≤ q.t
  nonneg : ∀ p ∈ inner.points, Nonneg p.deltas
  kinds : ∀ p ∈ inner.points, ∀ q ∈ inner.points, ∀ key ∈ p.deltas, key ∉ q.gauges

/-- A gauge is in the fold when a point of the window has it. -/
theorem mem_foldl_gauges (window : List (IndexedPoint ℚ)) (m : SeriesMap ℚ) :
    s ∈ window.foldl (fun m p => extend m p.gauges) m ↔ s ∈ m ∨ ∃ p ∈ window, s ∈ p.gauges := by
  induction window generalizing m with
  | nil => simp
  | cons p window ih =>
      rw [List.foldl_cons, ih, mem_extend]
      simp only [List.mem_cons, exists_eq_or_imp, or_assoc]

/-- A counter is in the fold when a point of the window has a difference of it. -/
theorem mem_foldl_deltas (window : List (IndexedPoint ℚ)) (m : SeriesMap ℚ) :
    s ∈ window.foldl (fun m p => addMetrics m p.deltas) m ↔ s ∈ m ∨ ∃ p ∈ window, s ∈ p.deltas := by
  induction window generalizing m with
  | nil => simp
  | cons p window ih =>
      rw [List.foldl_cons, ih, mem_addMetrics]
      simp only [List.mem_cons, exists_eq_or_imp, or_assoc]

/-- A series that is missing counts as zero, so a map that nothing was counted down in has no negative value. -/
theorem seriesValue_nonneg {m : SeriesMap ℚ} (h : Nonneg m) (s : MetricKey) : 0 ≤ seriesValue s m := by
  unfold seriesValue
  rw [ExtTreeMap.getD_eq_getD_getElem?]
  cases hget : m[s]? with
  | none => exact le_refl _
  | some value => exact h s value hget

/-- The window is a part of the points. -/
theorem mem_points_of_within {p : IndexedPoint ℚ} (hp : p ∈ inner.within start stop) : p ∈ inner.points :=
  List.mem_of_mem_take (List.mem_of_mem_drop hp)

section Points

variable (hlt : start < stop) (hne : inner.within start stop ≠ [])

include hlt hne

/-- The gauges of the range are those of the window. -/
theorem isGauge_ofRollup : (Range.ofRollup start (rollup inner start stop points).data).IsGauge s ↔
    ∃ p ∈ inner.within start stop, s ∈ p.gauges := by
  rw [rollup_of_points hlt hne]
  show (∃ r ∈ (metricValues (inner.rolled start stop points).latest).map Row.ofMetric, r.series = s) ↔ _
  rw [exists_row_metricValues, HistoryInner.rolled, Flock.History.Rolling.addAll_eq]
  exact (mem_foldl_gauges _ _).trans (or_iff_right ExtTreeMap.not_mem_empty)

/-- The counters of the range are those of the window. -/
theorem exists_total_ofRollup :
    (∃ r ∈ (Range.ofRollup start (rollup inner start stop points).data).totalRows, r.series = s) ↔
      ∃ p ∈ inner.within start stop, s ∈ p.deltas := by
  rw [rollup_of_points hlt hne]
  show (∃ r ∈ (metricValues (inner.rolled start stop points).totals).map Row.ofMetric, r.series = s) ↔ _
  rw [exists_row_metricValues, HistoryInner.rolled, Flock.History.Rolling.addAll_eq]
  exact (mem_foldl_deltas _ _).trans (or_iff_right ExtTreeMap.not_mem_empty)

/-- The total of a series is what the history reports for it. -/
theorem total_ofRollup : (Range.ofRollup start (rollup inner start stop points).data).total s =
    seriesTotal s (rollup inner start stop points).data.totals := by
  rw [rollup_of_points hlt hne]
  show (lastOf s ((metricValues (inner.rolled start stop points).totals).map Row.ofMetric)).getD 0 = _
  rw [lastOf_metricValues, Flock.History.seriesTotal_metricValues, seriesValue, ExtTreeMap.getD_eq_getD_getElem?]

/-- The buckets of the range are those reported. -/
theorem pointList_ofRollup : (Range.ofRollup start (rollup inner start stop points).data).pointList =
    (reported start stop (clampedBudget points) (inner.before start).getLast? (inner.within start stop)).map
      Point.ofRollup := by
  rw [rollup_of_points hlt hne]
  show ((inner.rolled start stop points).buckets.filterMap BucketAccumulator.finish).map Point.ofRollup = _
  rw [HistoryInner.rolled, Flock.History.Rolling.filterMap_finish]

end Points

/-- A bucket does not count down. -/
theorem value_nonneg_of_bucket (h : Counted inner) {p : Point}
    (hp : p ∈ (Range.ofRollup start (rollup inner start stop points).data).pointList) {r : Row} (hr : r ∈ p.rows)
    (hlt : start < stop) (hne : inner.within start stop ≠ [])
    (hnever : ∀ q ∈ inner.within start stop, r.series ∉ q.gauges) : 0 ≤ r.value := by
  have hin := inWindow_within h.sorted hlt.le
  have hfirst : (inner.within start stop).head? = some _ := List.head?_eq_some_head hne
  rw [pointList_ofRollup hlt hne] at hp
  obtain ⟨y, hy, rfl⟩ := List.mem_map.mp hp
  obtain ⟨group, hgroup, hfinish⟩ := List.mem_filterMap.mp hy
  obtain ⟨v, hv, rfl⟩ := List.mem_map.mp (show r ∈ y.values.map Row.ofMetric from hr)
  rw [values_finish hin last_before_le hfirst (clampedBudget_mem points).1 hgroup hfinish] at hv
  obtain ⟨e, he, rfl⟩ := List.mem_map.mp hv
  have hvalue := seriesValue_of_getElem? (ExtTreeMap.mem_toList_iff_getElem?_eq_some.mp he)
  have hnever : ∀ q ∈ inner.within start stop, e.1 ∉ q.gauges := hnever
  rw [seriesValue_bucket hgroup hnever] at hvalue
  show 0 ≤ e.2
  rw [← hvalue]
  apply List.sum_nonneg
  intro value hmem
  obtain ⟨x, hx, rfl⟩ := List.mem_map.mp hmem
  exact seriesValue_nonneg (h.nonneg _ (mem_points_of_within (point_mem_of_bucketSpans hgroup hx))) _

/-- **What `rollup` reports is consistent.** -/
theorem consistent_ofRollup (h : Counted inner) (hlt : start < stop) (hne : inner.within start stop ≠ []) :
    (Range.ofRollup start (rollup inner start stop points).data).Consistent where
  nonneg := by
    intro p hp r hr hcounter
    apply value_nonneg_of_bucket h hp hr hlt hne
    exact fun q hq hmem => hcounter ((isGauge_ofRollup hlt hne).mpr ⟨q, hq, hmem⟩)
  sums := by
    intro s hcounter
    have hnever : ∀ q ∈ inner.within start stop, s ∉ q.gauges :=
      fun q hq hmem => hcounter ((isGauge_ofRollup hlt hne).mpr ⟨q, hq, hmem⟩)
    have hin := inWindow_within h.sorted hlt.le
    have hfirst : (inner.within start stop).head? = some _ := List.head?_eq_some_head hne
    rw [total_ofRollup hlt hne, seriesTotal_rollup h.sorted, ← within_eq_filter h.sorted hlt.le,
      pointList_ofRollup hlt hne, ← sum_reported hin last_before_le hfirst (clampedBudget_mem points).1 hnever, List.map_map]
    congr 1
    apply List.map_congr_left
    exact fun y _ => sumOf_ofMetric s y.values
  disjoint := by
    intro r hr hgauge
    obtain ⟨q, hq, hmem⟩ := (isGauge_ofRollup hlt hne).mp hgauge
    obtain ⟨p, hp, hdelta⟩ := (exists_total_ofRollup hlt hne).mp ⟨r, hr, rfl⟩
    exact h.kinds p (mem_points_of_within hp) q (mem_points_of_within hq) _ hdelta hmem

/-- **What a panel shows of a counter is what the history counted** in the window, and what came after it. -/
theorem panel_of_history (h : Counted inner) (hlt : start < stop) (hpoint : ∃ p ∈ inner.points, start < p.t ∧ p.t ≤ stop)
    {le : String → String → Bool} {tail : Option Tail}
    (hkeys : Set.InjOn (rowKey le)
      {s | s ∈ (Range.ofRollup start (rollup inner start stop points).data).present tail})
    (htail : ∀ t ∈ (Range.ofRollup start (rollup inner start stop points).data).followed tail,
      t.Fits (Range.ofRollup start (rollup inner start stop points).data))
    (hs : s ∈ (Range.ofRollup start (rollup inner start stop points).data).present tail)
    (hnever : ∀ p ∈ inner.points, s ∉ p.gauges) :
    windowed (Sample.value s) (rangeSamples le (Range.ofRollup start (rollup inner start stop points).data) tail) =
      ((inner.points.filter fun p => decide (start < p.t ∧ p.t ≤ stop)).map fun p => seriesValue s p.deltas).sum +
        (((Range.ofRollup start (rollup inner start stop points).data).followed tail).map (Tail.total s)).getD 0 := by
  have hne : inner.within start stop ≠ [] := by
    obtain ⟨p, hp, hbounds⟩ := hpoint
    rw [within_eq_filter h.sorted hlt.le]
    exact List.ne_nil_of_mem (List.mem_filter.mpr ⟨hp, decide_eq_true hbounds⟩)
  have hcounter : ¬ (Range.ofRollup start (rollup inner start stop points).data).IsGauge s := by
    rw [isGauge_ofRollup hlt hne]
    rintro ⟨p, hp, hmem⟩
    exact hnever p (mem_points_of_within hp) hmem
  rw [windowed_value hkeys (consistent_ofRollup h hlt hne) htail hs hcounter, total_ofRollup hlt hne,
    seriesTotal_rollup h.sorted]

end Window

end Flock.Dashboard
