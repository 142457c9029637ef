/-
# Flock.History.Rollup — what the index answers about a window of time.

`rollup` cuts the points in `(start, stop]` into buckets, adds up their deltas, keeps their last gauges,
and weighs the capacity by time.  Beside the data it says whether the window is COMPLETE: it holds points,
and no recovery gap overlaps it.  The diagnostics are those of all events up to `stop`.

Durations are sums of `u64`; they stay below `stop - start` and are kept as naturals.
-/
import Flock.History.Store

namespace Flock.History

open Std (ExtTreeMap)

variable {ν : Type}

/-- The arithmetic of `f64` that a rollup uses on top of `F64`. -/
class F64Sums (ν : Type) extends F64 ν where
  add : ν → ν → ν
  mul : ν → ν → ν
  div : ν → ν → ν
  /-- `as f64` on an unsigned integer. -/
  ofNat : ℕ → ν

instance : F64Sums ℚ where
  add := (· + ·)
  mul := (· * ·)
  div := (· / ·)
  ofNat n := n

/-! ## Diagnostics -/

/-- `diagnostics_at`. -/
def diagnosticsAt (inner : HistoryInner ν) (stop : U64) : HistoryDiagnostics :=
  if inner.recoveryEventsComplete then
    (inner.recoveryEvents.filter fun event => event.time ≤ stop).foldl
      (fun total event => total.add event.diagnostics) {}
  else inner.diagnostics

/-! ## The answer -/

/-- `MetricValue`. -/
structure MetricValue (ν : Type) where
  labels : Labels
  metric : String
  value : ν

/-- `CapacityRollup`. -/
structure CapacityRollup (ν : Type) where
  averageRpm : ν
  latestRpms : List U64

/-- `RollupPoint`. -/
structure RollupPoint (ν : Type) where
  capacity : Option (CapacityRollup ν)
  durationSeconds : ℕ
  start : U64
  stop : U64
  values : List (MetricValue ν)

/-- `Rollup`. -/
structure Rollup (ν : Type) where
  availableFrom : Option U64
  availableTo : Option U64
  effectiveFrom : Option U64
  effectiveTo : Option U64
  totals : List (MetricValue ν)
  latest : List (MetricValue ν)
  points : List (RollupPoint ν)
  diagnostics : HistoryDiagnostics
  historyRevision : U64

/-- `HistoryWindow`. -/
structure HistoryWindow (α : Type) where
  complete : Bool
  data : α
  diagnostics : HistoryDiagnostics

/-- `metric_values`. -/
def metricValues (values : SeriesMap ν) : List (MetricValue ν) :=
  values.toList.map fun e => ⟨e.1.labels, e.1.metric, e.2⟩

/-- `BTreeMap::extend`. -/
def extend (m values : SeriesMap ν) : SeriesMap ν :=
  values.toList.foldl (fun m e => m.insert e.1 e.2) m

/-! ## Buckets -/

/-- `BucketAccumulator`. -/
structure BucketAccumulator (ν : Type) where
  deltas : SeriesMap ν := ∅
  gauges : SeriesMap ν := ∅
  start : Option U64 := none
  stop : Option U64 := none
  durationSeconds : ℕ := 0
  capacityWeight : ν
  capacityDuration : ℕ := 0
  knownCapacityDuration : ℕ := 0
  latestRpms : List U64 := []

section Buckets

variable [F64Sums ν]

/-- `add_metrics`. -/
def addMetrics (totals values : SeriesMap ν) : SeriesMap ν :=
  values.toList.foldl
    (fun totals e => totals.insert e.1 (F64Sums.add (totals.getD e.1 F64.zero) e.2)) totals

namespace BucketAccumulator

/-- `BucketAccumulator::finish`. -/
def finish (bucket : BucketAccumulator ν) : Option (RollupPoint ν) :=
  match bucket.start, bucket.stop with
  | some start, some stop =>
      let capacity :=
        if 0 < bucket.capacityDuration ∧ bucket.knownCapacityDuration = bucket.capacityDuration then
          some ⟨F64Sums.div bucket.capacityWeight (F64Sums.ofNat bucket.capacityDuration),
            bucket.latestRpms⟩
        else none
      some ⟨capacity, bucket.durationSeconds, start, stop,
        metricValues (extend bucket.deltas bucket.gauges)⟩
  | _, _ => none

/-- One point of the window, which accounts for the time from `intervalStart` to `intervalEnd`. -/
def addPoint (bucket : BucketAccumulator ν) (point : IndexedPoint ν) (intervalStart intervalEnd : U64) :
    BucketAccumulator ν :=
  let duration := intervalEnd.val - intervalStart.val
  let bucket := { bucket with
    deltas := addMetrics bucket.deltas point.deltas
    gauges := extend bucket.gauges point.gauges
    start := some (match bucket.start with
      | some current => min current intervalStart
      | none => intervalStart)
    stop := some (match bucket.stop with
      | some current => max current intervalEnd
      | none => intervalEnd)
    durationSeconds := bucket.durationSeconds + duration
    capacityDuration := bucket.capacityDuration + duration }
  match point.capacity with
  | some capacity =>
      { bucket with
        capacityWeight := F64Sums.add bucket.capacityWeight
          (F64Sums.mul (F64Sums.ofNat capacity.capacityRpm.val) (F64Sums.ofNat duration))
        knownCapacityDuration := bucket.knownCapacityDuration + duration
        latestRpms := capacity.rpms }
  | none => bucket

end BucketAccumulator

/-- What the loop of `rollup` carries. -/
structure Rolling (ν : Type) where
  totals : SeriesMap ν := ∅
  latest : SeriesMap ν := ∅
  buckets : List (BucketAccumulator ν)

/-- One round of the loop: the point, and the one before it in the index. The first point of the index
says nothing about the time before it. -/
def Rolling.add (start stop : U64) (pointBudget : ℕ) (rolling : Rolling ν)
    (previous : Option (IndexedPoint ν)) (point : IndexedPoint ν) : Rolling ν :=
  let offset := point.t.val - start.val
  let width := stop.val - start.val
  let bucketIndex := min (offset * pointBudget / width) (pointBudget - 1)
  let intervalStart := match previous with
    | none => max point.t start
    | some previous => max previous.t start
  let intervalEnd := min point.t stop
  { totals := addMetrics rolling.totals point.deltas
    latest := extend rolling.latest point.gauges
    buckets := rolling.buckets.modify bucketIndex fun bucket =>
      bucket.addPoint point intervalStart intervalEnd }

/-- The loop, over the points of the window. -/
def Rolling.addAll (start stop : U64) (pointBudget : ℕ) (rolling : Rolling ν) :
    Option (IndexedPoint ν) → List (IndexedPoint ν) → Rolling ν
  | _, [] => rolling
  | previous, point :: rest =>
      Rolling.addAll start stop pointBudget (rolling.add start stop pointBudget previous point) (some point)
        rest

end Buckets

/-! ## `rollup` -/

/-- `partition_point` for points up to a time, on points in order of time. -/
def partitionPoint (points : List (IndexedPoint ν)) (time : U64) : ℕ :=
  (points.takeWhile fun point => point.t ≤ time).length

/-- A gap overlaps the window. -/
def RecoveryGap.overlaps (gap : RecoveryGap) (start stop : U64) : Bool :=
  decide (gap.start < stop) && decide (start < gap.stop)

/-- The closure `incomplete` of `rollup`. -/
def incomplete (inner : HistoryInner ν) (start stop : U64) : Bool :=
  decide (stop ≤ start) || inner.points.isEmpty ||
    inner.recoveryGaps.any fun gap => gap.overlaps start stop

/-- The closure `empty` of `rollup`. -/
def emptyRollup (inner : HistoryInner ν) (diagnostics : HistoryDiagnostics) : Rollup ν where
  availableFrom := inner.availableFrom
  availableTo := inner.availableTo
  effectiveFrom := none
  effectiveTo := none
  totals := []
  latest := []
  points := []
  diagnostics := diagnostics
  historyRevision := inner.revision

/-- `History::rollup`, under the index lock. -/
def rollup [F64Sums ν] (inner : HistoryInner ν) (start stop : U64) (points : ℕ) :
    HistoryWindow (Rollup ν) :=
  let diagnostics := diagnosticsAt inner stop
  if stop ≤ start then ⟨false, emptyRollup inner diagnostics, diagnostics⟩
  else
    let first := partitionPoint inner.points start
    let stopIndex := partitionPoint inner.points stop
    if first = stopIndex then ⟨false, emptyRollup inner diagnostics, diagnostics⟩
    else
      -- `points.clamp(2, 1000)`
      let pointBudget := max 2 (min points 1000)
      let window := (inner.points.take stopIndex).drop first
      let previous := (inner.points.take first).getLast?
      let rolling := Rolling.addAll start stop pointBudget
        { buckets := List.replicate pointBudget { capacityWeight := F64.zero } } previous window
      let data : Rollup ν :=
        { availableFrom := inner.availableFrom
          availableTo := inner.availableTo
          effectiveFrom := match previous with
            | none => window.head?.map IndexedPoint.t
            | some previous => some (max start previous.t)
          effectiveTo := window.getLast?.map IndexedPoint.t
          totals := metricValues rolling.totals
          latest := metricValues rolling.latest
          points := rolling.buckets.filterMap BucketAccumulator.finish
          diagnostics := diagnostics
          historyRevision := inner.revision }
      ⟨!incomplete inner start stop, data, diagnostics⟩

variable [F64Sums ν]

@[simp] theorem diagnostics_rollup (inner : HistoryInner ν) (start stop : U64) (points : ℕ) :
    (rollup inner start stop points).diagnostics = diagnosticsAt inner stop := by
  unfold rollup
  dsimp only
  split
  · rfl
  · split <;> rfl

@[simp] theorem historyRevision_rollup (inner : HistoryInner ν) (start stop : U64) (points : ℕ) :
    (rollup inner start stop points).data.historyRevision = inner.revision := by
  unfold rollup
  dsimp only
  split
  · rfl
  · split <;> rfl

@[simp] theorem availableTo_rollup (inner : HistoryInner ν) (start stop : U64) (points : ℕ) :
    (rollup inner start stop points).data.availableTo = inner.availableTo := by
  unfold rollup
  dsimp only
  split
  · rfl
  · split <;> rfl

/-- **A complete window** is not empty, and no gap overlaps it. -/
theorem complete_rollup {inner : HistoryInner ν} {start stop : U64} {points : ℕ}
    (h : (rollup inner start stop points).complete = true) :
    start < stop ∧ ∀ gap ∈ inner.recoveryGaps, stop ≤ gap.start ∨ gap.stop ≤ start := by
  unfold rollup at h
  dsimp only at h
  split at h
  · cases h
  · rename_i hlt
    split at h
    · cases h
    · refine ⟨not_le.mp hlt, fun gap hgap => ?_⟩
      simp only [incomplete, Bool.not_eq_true', Bool.or_eq_false_iff, List.any_eq_false] at h
      have hoverlap := h.2 gap hgap
      simp only [RecoveryGap.overlaps, Bool.and_eq_true, decide_eq_true_eq, not_and_or, not_lt] at hoverlap
      exact hoverlap

end Flock.History
