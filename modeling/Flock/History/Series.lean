/-
# Flock.History.Series — the value of one series, in the maps of the history and in its answers.

Values are exact rationals.  A series that is missing has the value zero, so adding maps up adds up the values of
each series.
-/
import Mathlib.Algebra.Order.Field.Rat
import Flock.History.Rollup
import Flock.Lib.TreeMap

namespace Flock.History

open Std (ExtTreeMap)

variable {ν : Type} {key : MetricKey} {m : SeriesMap ℚ}

/-! ## Maps -/

/-- The value of a series in a map. -/
def seriesValue (key : MetricKey) (m : SeriesMap ℚ) : ℚ := m.getD key 0

theorem seriesValue_congr {m' : SeriesMap ℚ} (h : m[key]? = m'[key]?) : seriesValue key m = seriesValue key m' := by
  unfold seriesValue
  rw [ExtTreeMap.getD_eq_getD_getElem?, ExtTreeMap.getD_eq_getD_getElem?, h]

theorem seriesValue_of_getElem? {value : ℚ} (h : m[key]? = some value) : seriesValue key m = value := by
  unfold seriesValue
  rw [ExtTreeMap.getD_eq_getD_getElem?, h, Option.getD_some]

/-- **`add_metrics` adds up each series.** -/
theorem seriesValue_addMetrics (key : MetricKey) (m values : SeriesMap ℚ) :
    seriesValue key (addMetrics m values) = seriesValue key m + seriesValue key values := by
  unfold seriesValue
  rw [← Lib.entrySum_toList key values]
  exact Lib.getD_foldl_add values.toList m

/-- A series that the second map does not have is left as it is. -/
theorem getElem?_extend_of_notMem {m values : SeriesMap ν} (h : key ∉ values) :
    (extend m values)[key]? = m[key]? := by
  apply Lib.getElem?_insertAll_of_notMem
  exact fun e he heq => h (Lib.exists_mem_toList_iff.mp ⟨e, he, heq⟩)

theorem mem_extend {m values : SeriesMap ν} : key ∈ extend m values ↔ key ∈ m ∨ key ∈ values := by
  unfold extend
  rw [Lib.mem_foldl_insert, Lib.exists_mem_toList_iff]

theorem mem_addMetrics [F64Sums ν] {m values : SeriesMap ν} : key ∈ addMetrics m values ↔ key ∈ m ∨ key ∈ values := by
  unfold addMetrics
  rw [Lib.mem_foldl_insert, Lib.exists_mem_toList_iff]

/-! ## Answers -/

/-- The series of a value. -/
def MetricValue.series (v : MetricValue ν) : MetricKey := ⟨v.metric, v.labels⟩

/-- What an answer says of a series: the sum of its values. -/
def seriesTotal (key : MetricKey) (vs : List (MetricValue ℚ)) : ℚ :=
  ((vs.filter fun v => v.series = key).map MetricValue.value).sum

/-- **An answer has the values of the map it is made from.** -/
@[simp] theorem seriesTotal_metricValues (key : MetricKey) (m : SeriesMap ℚ) :
    seriesTotal key (metricValues m) = seriesValue key m := by
  unfold seriesValue
  rw [← Lib.entrySum_toList]
  unfold seriesTotal metricValues Lib.entrySum
  rw [List.filter_map, List.map_map]
  rfl

end Flock.History
