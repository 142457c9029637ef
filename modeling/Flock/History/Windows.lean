/-
# Flock.History.Windows — what `rollup` answers about a window, for any points in order.

Each point of the window stands for the time since the point before it.  These spans lie end to end, and the index
of the bucket does not go down along them, so the buckets lie end to end too and share the deltas out.

Values are exact rationals.  The durations are `u64` in the source; that the sums stay in range is part of the result.
-/
import Flock.History.Order
import Flock.History.Series
import Flock.Lib.Tiling

namespace Flock.History

open Lib (Tiles tiles_append)
open Std (ExtTreeMap)

variable {ν : Type}

/-! ## Spans

A point tells what happened since the point before it, so the time it stands for begins there, or where the window
does. -/

/-- A point of the window, and the interval it accounts for. -/
structure Span (ν : Type) where
  point : IndexedPoint ν
  start : U64
  stop : U64

/-- Where the interval of a point starts. -/
def intervalStart (start : U64) (previous : Option (IndexedPoint ν)) (point : IndexedPoint ν) : U64 :=
  match previous with
  | none => max point.t start
  | some previous => max previous.t start

/-- The spans of a window, given the point before it. -/
def spans (start stop : U64) : Option (IndexedPoint ν) → List (IndexedPoint ν) → List (Span ν)
  | _, [] => []
  | previous, point :: rest =>
      ⟨point, intervalStart start previous point, min point.t stop⟩ :: spans start stop (some point) rest

/-- The bucket of a point. -/
def bucketIndex (start stop : U64) (pointBudget : ℕ) (point : IndexedPoint ν) : ℕ :=
  min ((point.t.val - start.val) * pointBudget / (stop.val - start.val)) (pointBudget - 1)

variable {start stop : U64} {pointBudget : ℕ} {previous : Option (IndexedPoint ν)} {window : List (IndexedPoint ν)}

theorem map_point_spans : (spans start stop previous window).map Span.point = window := by
  induction window generalizing previous with
  | nil => rfl
  | cons point rest ih => rw [spans, List.map_cons, ih]

theorem mem_spans {x : Span ν} (h : x ∈ spans start stop previous window) :
    x.point ∈ window ∧ x.stop = min x.point.t stop := by
  induction window generalizing previous with
  | nil => exact absurd h List.not_mem_nil
  | cons point rest ih =>
      rcases List.mem_cons.mp h with rfl | h
      · exact ⟨List.mem_cons_self, rfl⟩
      · obtain ⟨hpoint, hstop⟩ := ih h
        exact ⟨List.mem_cons_of_mem point hpoint, hstop⟩

/-- The loop of `rollup`: totals and gauges from the points, buckets from the spans. -/
theorem Rolling.addAll_eq [F64Sums ν] (rolling : Rolling ν) :
    Rolling.addAll start stop pointBudget rolling previous window =
      { totals := window.foldl (fun m point => addMetrics m point.deltas) rolling.totals
        latest := window.foldl (fun m point => extend m point.gauges) rolling.latest
        buckets := (spans start stop previous window).foldl (fun buckets s =>
          buckets.modify (bucketIndex start stop pointBudget s.point) fun bucket =>
            bucket.addPoint s.point s.start s.stop) rolling.buckets } := by
  induction window generalizing rolling previous with
  | nil => rfl
  | cons point rest ih =>
      rw [Rolling.addAll, ih]
      cases previous <;> rfl

/-- A later point has no earlier bucket. -/
theorem bucketIndex_mono {p q : IndexedPoint ν} (h : p.t ≤ q.t) :
    bucketIndex start stop pointBudget p ≤ bucketIndex start stop pointBudget q := by
  have hval : p.t.val - start.val ≤ q.t.val - start.val := Nat.sub_le_sub_right h _
  exact min_le_min_right _ (Nat.div_le_div_right (Nat.mul_le_mul_right pointBudget hval))

/-- The last bucket takes in the end of the window. -/
theorem bucketIndex_lt (hbudget : 0 < pointBudget) (p : IndexedPoint ν) :
    bucketIndex start stop pointBudget p < pointBudget :=
  lt_of_le_of_lt (min_le_right _ _) (Nat.sub_lt hbudget Nat.one_pos)

/-! ## The spans lie end to end

Nothing of the window between the first span and the last is left out, and nothing is counted twice.  That is `Tiles`,
from `Lib.Tiling`, at these spans. -/

/-- The points of a window, in order. -/
structure InWindow (start stop : U64) (window : List (IndexedPoint ν)) : Prop where
  sorted : window.Pairwise fun p q => p.t ≤ q.t
  bounds : ∀ p ∈ window, start < p.t ∧ p.t ≤ stop

theorem InWindow.tail {p : IndexedPoint ν} (h : InWindow start stop (p :: window)) : InWindow start stop window :=
  ⟨(List.pairwise_cons.mp h.sorted).2, fun q hq => h.bounds q (List.mem_cons_of_mem p hq)⟩

/-- The time of the last point, or `t` if there is none. -/
def lastTime (t : U64) (window : List (IndexedPoint ν)) : U64 := (window.getLast?.map IndexedPoint.t).getD t

theorem lastTime_cons (t : U64) (p : IndexedPoint ν) : lastTime t (p :: window) = lastTime p.t window := by
  unfold lastTime
  rw [List.getLast?_cons]
  cases window.getLast? <;> rfl

/-- After a point, the spans go on from its time, or from the start of the window. -/
theorem tiles_spans_some (h : InWindow start stop window) {p : IndexedPoint ν} (hp : ∀ q ∈ window, p.t ≤ q.t) :
    Tiles (fun s : Span ν => s.start.val) (fun s => s.stop.val) (max p.t start).val
      (spans start stop (some p) window) (lastTime (max p.t start) window).val := by
  induction window generalizing p with
  | nil => exact rfl
  | cons q rest ih =>
      obtain ⟨hafter, hbefore⟩ := h.bounds q List.mem_cons_self
      have hq : max q.t start = q.t := max_eq_left hafter.le
      have hend : min q.t stop = q.t := min_eq_left hbefore
      have hrest := ih h.tail (List.pairwise_cons.mp h.sorted).1
      rw [hq] at hrest
      rw [lastTime_cons]
      refine ⟨rfl, ?_, ?_⟩
      · show (max p.t start).val ≤ (min q.t stop).val
        rw [hend]
        exact max_le (hp q List.mem_cons_self) hafter.le
      · show Tiles _ _ (min q.t stop).val _ _
        rw [hend]
        exact hrest

/-- **The spans of a window** lie end to end, up to its last point. -/
theorem tiles_spans (h : InWindow start stop window) (hprevious : ∀ p ∈ previous, p.t ≤ start)
    {first : IndexedPoint ν} (hfirst : window.head? = some first) :
    Tiles (fun s : Span ν => s.start.val) (fun s => s.stop.val) (intervalStart start previous first).val
      (spans start stop previous window) (lastTime start window).val := by
  obtain ⟨rest, rfl⟩ := List.head?_eq_some_iff.mp hfirst
  obtain ⟨hafter, hbefore⟩ := h.bounds first List.mem_cons_self
  cases previous with
  | none =>
      have hq : max first.t start = first.t := max_eq_left hafter.le
      have hend : min first.t stop = first.t := min_eq_left hbefore
      have hrest := tiles_spans_some h.tail (List.pairwise_cons.mp h.sorted).1
      rw [hq] at hrest
      rw [lastTime_cons]
      refine ⟨rfl, ?_, ?_⟩
      · show (max first.t start).val ≤ (min first.t stop).val
        rw [hq, hend]
      · show Tiles _ _ (min first.t stop).val _ _
        rw [hend]
        exact hrest
  | some p =>
      have hp := hprevious p rfl
      have htiles := tiles_spans_some h (p := p) fun q hq => hp.trans (h.bounds q hq).1.le
      rw [lastTime_cons] at htiles ⊢
      exact htiles

/-! ## One bucket

A bucket joins the spans it is given.  If these lie end to end, it covers an interval, and its duration is the length
of it; the known capacity is for a part of that at most. -/

namespace BucketAccumulator

/-- **`bucket.Covers s b`** — the bucket accounts for the time from `s` to `b`. -/
structure Covers (bucket : BucketAccumulator ν) (s b : ℕ) : Prop where
  start : bucket.start.map Fin.val = some s
  stop : bucket.stop.map Fin.val = some b
  le : s ≤ b
  durationSeconds : bucket.durationSeconds = b - s

variable [F64Sums ν] (bucket : BucketAccumulator ν) (point : IndexedPoint ν) (s e : U64)

@[simp] theorem addPoint_deltas : (bucket.addPoint point s e).deltas = addMetrics bucket.deltas point.deltas := by
  unfold addPoint
  cases point.capacity <;> rfl

@[simp] theorem addPoint_gauges : (bucket.addPoint point s e).gauges = extend bucket.gauges point.gauges := by
  unfold addPoint
  cases point.capacity <;> rfl

theorem addPoint_start : (bucket.addPoint point s e).start = some (bucket.start.elim s (min · s)) := by
  unfold addPoint
  cases bucket.start <;> cases point.capacity <;> rfl

theorem addPoint_stop : (bucket.addPoint point s e).stop = some (bucket.stop.elim e (max · e)) := by
  unfold addPoint
  cases bucket.stop <;> cases point.capacity <;> rfl

theorem addPoint_durationSeconds :
    (bucket.addPoint point s e).durationSeconds = bucket.durationSeconds + (e.val - s.val) := by
  unfold addPoint
  cases point.capacity <;> rfl

theorem addPoint_capacityDuration :
    (bucket.addPoint point s e).capacityDuration = bucket.capacityDuration + (e.val - s.val) := by
  unfold addPoint
  cases point.capacity <;> rfl

theorem addPoint_knownCapacityDuration : (bucket.addPoint point s e).knownCapacityDuration ≤
    bucket.knownCapacityDuration + (e.val - s.val) := by
  unfold addPoint
  cases point.capacity with
  | some capacity => exact le_refl _
  | none => exact Nat.le_add_right _ _

variable {bucket point s e}

/-- A span joined to what the bucket covers. -/
theorem Covers.addPoint {a : ℕ} (h : bucket.Covers a s.val) (hle : s.val ≤ e.val) :
    (bucket.addPoint point s e).Covers a e.val := by
  obtain ⟨first, hfirst, hfirstVal⟩ := Option.map_eq_some_iff.mp h.start
  obtain ⟨last, hlast, hlastVal⟩ := Option.map_eq_some_iff.mp h.stop
  have hstart := h.le
  have hle' : last ≤ e := by
    show last.val ≤ e.val
    omega
  have hge : first ≤ s := by
    show first.val ≤ s.val
    omega
  refine ⟨?_, ?_, hstart.trans hle, ?_⟩
  · rw [addPoint_start, hfirst, Option.elim_some, min_eq_left hge, Option.map_some, hfirstVal]
  · rw [addPoint_stop, hlast, Option.elim_some, max_eq_right hle', Option.map_some]
  · rw [addPoint_durationSeconds, h.durationSeconds]
    omega

/-- The first span of a bucket. -/
theorem covers_addPoint (hempty : bucket.start = none ∧ bucket.stop = none ∧ bucket.durationSeconds = 0)
    (hle : s.val ≤ e.val) : (bucket.addPoint point s e).Covers s.val e.val := by
  obtain ⟨hstart, hstop, hduration⟩ := hempty
  refine ⟨?_, ?_, hle, ?_⟩
  · rw [addPoint_start, hstart]
    rfl
  · rw [addPoint_stop, hstop]
    rfl
  · rw [addPoint_durationSeconds, hduration, zero_add]

/-- The bucket of a list of spans. -/
def ofSpans (bucket : BucketAccumulator ν) (group : List (Span ν)) : BucketAccumulator ν :=
  group.foldl (fun bucket x => bucket.addPoint x.point x.start x.stop) bucket

/-- Spans end to end, joined to an interval. -/
theorem Covers.ofSpans {group : List (Span ν)} {a b c : ℕ} (h : bucket.Covers a b)
    (htiles : Tiles (fun x : Span ν => x.start.val) (fun x => x.stop.val) b group c) :
    (bucket.ofSpans group).Covers a c := by
  induction group generalizing bucket b with
  | nil =>
      obtain rfl : b = c := htiles
      exact h
  | cons x group ih =>
      obtain ⟨rfl, hle, hrest⟩ := htiles
      exact ih (h.addPoint hle) hrest

end BucketAccumulator

section Buckets

variable [F64Sums ν]

/-- A bucket before any point. -/
def emptyBucket : BucketAccumulator ν := { capacityWeight := F64.zero }

/-- **A bucket of spans end to end** is reported over the same interval, with its length. -/
theorem finish_ofSpans {group : List (Span ν)} (hne : group ≠ []) {a b : ℕ}
    (htiles : Tiles (fun x : Span ν => x.start.val) (fun x => x.stop.val) a group b) :
    ∃ y, (emptyBucket.ofSpans group).finish = some y ∧ y.start.val = a ∧ y.stop.val = b ∧
      y.durationSeconds = b - a ∧
      y.values = metricValues (extend (emptyBucket.ofSpans group).deltas (emptyBucket.ofSpans group).gauges) := by
  obtain ⟨x, rest, rfl⟩ := List.exists_cons_of_ne_nil hne
  obtain ⟨rfl, hle, hrest⟩ := htiles
  have hfirst : (emptyBucket.addPoint x.point x.start x.stop).Covers x.start.val x.stop.val :=
    BucketAccumulator.covers_addPoint ⟨rfl, rfl, rfl⟩ hle
  have hcovers : (emptyBucket.ofSpans (x :: rest)).Covers x.start.val b := hfirst.ofSpans hrest
  obtain ⟨s, hs, hsval⟩ := Option.map_eq_some_iff.mp hcovers.start
  obtain ⟨e, he, heval⟩ := Option.map_eq_some_iff.mp hcovers.stop
  unfold BucketAccumulator.finish
  rw [hs, he]
  exact ⟨_, rfl, hsval, heval, hcovers.durationSeconds, rfl⟩

theorem finish_ofSpans_nil : (emptyBucket.ofSpans ([] : List (Span ν))).finish = none := rfl

/-- A bucket that is not reported has no point. -/
theorem finish_ofSpans_eq_none {group : List (Span ν)} {a b : ℕ}
    (htiles : Tiles (fun x : Span ν => x.start.val) (fun x => x.stop.val) a group b)
    (hnone : (emptyBucket.ofSpans group).finish = none) : group = [] := by
  by_contra hne
  obtain ⟨y, hy, -⟩ := finish_ofSpans hne htiles
  rw [hnone] at hy
  cases hy

/-! ## The loop, over a whole window

The loop of `rollup` puts each point into the bucket of its index.  As the index does not go down, the buckets cut the
list of spans into pieces, some of them empty. -/

/-- The spans of each bucket. -/
def bucketSpans (start stop : U64) (pointBudget : ℕ) (xs : List (Span ν)) : List (List (Span ν)) :=
  (List.range pointBudget).map fun j => xs.filter fun x => bucketIndex start stop pointBudget x.point = j

omit [F64Sums ν] in
/-- What is in a bucket was in the window. -/
theorem point_mem_of_bucketSpans {group : List (Span ν)}
    (h : group ∈ bucketSpans start stop pointBudget (spans start stop previous window)) {x : Span ν} (hx : x ∈ group) :
    x.point ∈ window := by
  obtain ⟨j, -, rfl⟩ := List.mem_map.mp h
  exact (mem_spans (List.mem_of_mem_filter hx)).1

/-- What the loop starts from. -/
def Rolling.begin (pointBudget : ℕ) : Rolling ν := { buckets := List.replicate pointBudget emptyBucket }

/-- The accumulators are those pieces, joined. -/
theorem Rolling.buckets_addAll : (Rolling.addAll start stop pointBudget (.begin pointBudget) previous window).buckets =
    (bucketSpans start stop pointBudget (spans start stop previous window)).map emptyBucket.ofSpans := by
  rw [Rolling.addAll_eq]
  show (spans start stop previous window).foldl _ (List.replicate pointBudget emptyBucket) = _
  rw [Lib.foldl_modify_replicate]
  unfold bucketSpans
  rw [List.map_map]
  rfl

omit [F64Sums ν] in
/-- The buckets hold the spans of the window, in order. -/
theorem flatten_bucketSpans (h : InWindow start stop window) (hbudget : 0 < pointBudget) :
    (bucketSpans start stop pointBudget (spans start stop previous window)).flatten =
      spans start stop previous window := by
  have hsorted : (spans start stop previous window).Pairwise fun x y =>
      bucketIndex start stop pointBudget x.point ≤ bucketIndex start stop pointBudget y.point := by
    have hpoints : ((spans start stop previous window).map Span.point).Pairwise fun p q => p.t ≤ q.t := by
      rw [map_point_spans]
      exact h.sorted
    exact (List.pairwise_map.mp hpoints).imp bucketIndex_mono
  exact Lib.flatMap_filter_index _ hsorted fun x _ => bucketIndex_lt hbudget x.point

/-- The points that are reported. -/
def reported (start stop : U64) (pointBudget : ℕ) (previous : Option (IndexedPoint ν))
    (window : List (IndexedPoint ν)) : List (RollupPoint ν) :=
  (bucketSpans start stop pointBudget (spans start stop previous window)).filterMap fun group =>
    (emptyBucket.ofSpans group).finish

/-- The ones with a point are reported. -/
theorem Rolling.filterMap_finish :
    (Rolling.addAll start stop pointBudget (.begin pointBudget) previous window).buckets.filterMap
        BucketAccumulator.finish = reported start stop pointBudget previous window := by
  rw [Rolling.buckets_addAll, List.filterMap_map]
  rfl

/-- There are no more than the budget allows. -/
theorem length_reported_le : (reported start stop pointBudget previous window).length ≤ pointBudget := by
  refine (List.length_filterMap_le _ _).trans ?_
  unfold bucketSpans
  rw [List.length_map, List.length_range]

section Reported

variable (h : InWindow start stop window) (hprevious : ∀ p ∈ previous, p.t ≤ start) {first : IndexedPoint ν}
  (hfirst : window.head? = some first) (hbudget : 0 < pointBudget)

include h hprevious hfirst hbudget

omit [F64Sums ν] in
/-- Each bucket covers an interval. -/
theorem tiles_bucketSpans {group : List (Span ν)}
    (hgroup : group ∈ bucketSpans start stop pointBudget (spans start stop previous window)) :
    ∃ a b, Tiles (fun x : Span ν => x.start.val) (fun x => x.stop.val) a group b := by
  have htiles := tiles_spans h hprevious hfirst
  rw [← flatten_bucketSpans h hbudget] at htiles
  exact htiles.of_mem_groups hgroup

/-- **The reported buckets lie end to end**, over the interval of the spans. -/
theorem tiles_reported : Tiles (fun y : RollupPoint ν => y.start.val) (fun y => y.stop.val)
    (intervalStart start previous first).val (reported start stop pointBudget previous window)
    (lastTime start window).val := by
  have htiles := tiles_spans h hprevious hfirst
  rw [← flatten_bucketSpans h hbudget] at htiles
  refine htiles.groups finish_ofSpans_nil ?_
  intro group a b hne hgroup
  obtain ⟨y, hy, hstart, hstop, -⟩ := finish_ofSpans hne hgroup
  exact ⟨y, hy, hstart, hstop⟩

/-- Each reported bucket is as long as its interval. -/
theorem durationSeconds_reported {y : RollupPoint ν}
    (hy : y ∈ reported start stop pointBudget previous window) : y.durationSeconds = y.stop.val - y.start.val := by
  obtain ⟨group, hgroup, hfinish⟩ := List.mem_filterMap.mp hy
  obtain ⟨a, b, htiles⟩ := tiles_bucketSpans h hprevious hfirst hbudget hgroup
  by_cases hne : group = []
  · subst hne
    cases hfinish
  · obtain ⟨y', hy', hstart, hstop, hduration, -⟩ := finish_ofSpans hne htiles
    obtain rfl : y' = y := Option.some.inj (hy'.symm.trans hfinish)
    rw [hduration, hstart, hstop]

/-- A bucket ends at a point that was sorted into it. -/
theorem stop_reported {j : ℕ} (hj : j < pointBudget) {y : RollupPoint ν}
    (hy : (emptyBucket.ofSpans ((spans start stop previous window).filter fun x =>
      bucketIndex start stop pointBudget x.point = j)).finish = some y) :
    ∃ p ∈ window, y.stop = p.t ∧ bucketIndex start stop pointBudget p = j := by
  have hgroup := List.mem_map_of_mem (f := fun j => (spans start stop previous window).filter fun x =>
    bucketIndex start stop pointBudget x.point = j) (List.mem_range.mpr hj)
  obtain ⟨a, b, htiles⟩ := tiles_bucketSpans h hprevious hfirst hbudget hgroup
  by_cases hne : (spans start stop previous window).filter
      (fun x => bucketIndex start stop pointBudget x.point = j) = []
  · rw [hne] at hy
    cases hy
  · obtain ⟨y', hy', -, hstop, -⟩ := finish_ofSpans hne htiles
    obtain rfl : y' = y := Option.some.inj (hy'.symm.trans hy)
    have hlast := htiles.last _ (List.getLast?_eq_some_getLast hne)
    obtain ⟨hmem, hindex⟩ := List.mem_filter.mp (List.getLast_mem hne)
    obtain ⟨hpoint, hend⟩ := mem_spans hmem
    refine ⟨_, hpoint, ?_, of_decide_eq_true hindex⟩
    rw [min_eq_left (h.bounds _ hpoint).2] at hend
    rw [← hend]
    exact Fin.ext (hstop.trans hlast.symm)

/-- **The reported buckets are in increasing order.** -/
theorem increasing_reported :
    (reported start stop pointBudget previous window).Pairwise fun y z => y.stop < z.stop := by
  unfold reported bucketSpans
  rw [List.pairwise_filterMap, List.pairwise_map]
  refine List.pairwise_lt_range.imp_of_mem ?_
  intro i j hi hj hij y hy z hz
  obtain ⟨p, hp, hyp, hpi⟩ := stop_reported h hprevious hfirst hbudget (List.mem_range.mp hi) hy
  obtain ⟨q, hq, hzq, hqj⟩ := stop_reported h hprevious hfirst hbudget (List.mem_range.mp hj) hz
  rw [hyp, hzq]
  by_contra hle
  have hmono : bucketIndex start stop pointBudget q ≤ bucketIndex start stop pointBudget p :=
    bucketIndex_mono (not_lt.mp hle)
  omega

/-- A window with points has a bucket. -/
theorem reported_ne_nil : reported start stop pointBudget previous window ≠ [] := by
  intro hempty
  have hnone : ∀ group ∈ bucketSpans start stop pointBudget (spans start stop previous window), group = [] := by
    intro group hgroup
    obtain ⟨a, b, htiles⟩ := tiles_bucketSpans h hprevious hfirst hbudget hgroup
    exact finish_ofSpans_eq_none htiles (List.filterMap_eq_nil_iff.mp hempty group hgroup)
  have hspans : (bucketSpans start stop pointBudget (spans start stop previous window)).flatten =
      spans start stop previous window := flatten_bucketSpans h hbudget
  have hwindow : (spans start stop previous window).map Span.point = window := map_point_spans
  rw [← hspans, List.flatten_eq_nil_iff.mpr hnone, List.map_nil] at hwindow
  rw [← hwindow] at hfirst
  cases hfirst

end Reported

end Buckets

/-! ## The deltas are shared out

A delta belongs to a point, and each point to one bucket; so the deltas of a series are the same, added up by buckets
or all together. -/

section Values

variable {key : MetricKey}

/-- A series that no point has as a gauge is no gauge of the bucket. -/
theorem notMem_gauges_ofSpans [F64Sums ν] {group : List (Span ν)} (hnever : ∀ x ∈ group, key ∉ x.point.gauges)
    {bucket : BucketAccumulator ν} (h : key ∉ bucket.gauges) : key ∉ (bucket.ofSpans group).gauges := by
  induction group generalizing bucket with
  | nil => exact h
  | cons x group ih =>
      apply ih fun y hy => hnever y (List.mem_cons_of_mem x hy)
      rw [BucketAccumulator.addPoint_gauges, mem_extend, not_or]
      exact ⟨h, hnever x List.mem_cons_self⟩

/-- The sum of the deltas of some points. -/
theorem seriesValue_foldl_addMetrics (points : List (IndexedPoint ℚ)) (m : SeriesMap ℚ) :
    seriesValue key (points.foldl (fun m point => addMetrics m point.deltas) m) =
      seriesValue key m + (points.map fun point => seriesValue key point.deltas).sum := by
  induction points generalizing m with
  | nil => exact (add_zero _).symm
  | cons point rest ih =>
      rw [List.foldl_cons, ih, seriesValue_addMetrics, List.map_cons, List.sum_cons, add_assoc]

/-- The deltas of a bucket are those of its points. -/
theorem seriesValue_ofSpans (group : List (Span ℚ)) (bucket : BucketAccumulator ℚ) :
    seriesValue key (bucket.ofSpans group).deltas =
      seriesValue key bucket.deltas + (group.map fun x => seriesValue key x.point.deltas).sum := by
  induction group generalizing bucket with
  | nil => exact (add_zero _).symm
  | cons x group ih =>
      show seriesValue key ((bucket.addPoint x.point x.start x.stop).ofSpans group).deltas = _
      rw [ih, BucketAccumulator.addPoint_deltas, seriesValue_addMetrics, List.map_cons, List.sum_cons, add_assoc]

/-- What is reported of the points of a bucket. -/
theorem values_finish {previous : Option (IndexedPoint ℚ)} {window : List (IndexedPoint ℚ)}
    (h : InWindow start stop window) (hprevious : ∀ p ∈ previous, p.t ≤ start) {first : IndexedPoint ℚ}
    (hfirst : window.head? = some first) (hbudget : 0 < pointBudget) {group : List (Span ℚ)}
    (hgroup : group ∈ bucketSpans start stop pointBudget (spans start stop previous window)) {y : RollupPoint ℚ}
    (hy : (emptyBucket.ofSpans group).finish = some y) :
    y.values = metricValues (extend (emptyBucket.ofSpans group).deltas (emptyBucket.ofSpans group).gauges) := by
  obtain ⟨a, b, htiles⟩ := tiles_bucketSpans h hprevious hfirst hbudget hgroup
  have hne : group ≠ [] := by
    rintro rfl
    cases hy
  obtain ⟨y', hy', -, -, -, hvalues⟩ := finish_ofSpans hne htiles
  obtain rfl : y' = y := Option.some.inj (hy'.symm.trans hy)
  exact hvalues

/-- Of a series that is never a gauge: the deltas of the bucket's points. -/
theorem seriesValue_bucket {previous : Option (IndexedPoint ℚ)} {window : List (IndexedPoint ℚ)}
    {group : List (Span ℚ)} (hgroup : group ∈ bucketSpans start stop pointBudget (spans start stop previous window))
    (hnever : ∀ p ∈ window, key ∉ p.gauges) :
    seriesValue key (extend (emptyBucket.ofSpans group).deltas (emptyBucket.ofSpans group).gauges) =
      (group.map fun x => seriesValue key x.point.deltas).sum := by
  have hgauges : key ∉ (emptyBucket.ofSpans group).gauges := by
    refine notMem_gauges_ofSpans (fun x hx => hnever x.point ?_) ExtTreeMap.not_mem_empty
    exact point_mem_of_bucketSpans hgroup hx
  rw [seriesValue_congr (getElem?_extend_of_notMem hgauges), seriesValue_ofSpans]
  exact zero_add _

/-- **The buckets of a series that is never a gauge add up to the deltas of the window.** -/
theorem sum_reported {previous : Option (IndexedPoint ℚ)} {window : List (IndexedPoint ℚ)}
    (h : InWindow start stop window) (hprevious : ∀ p ∈ previous, p.t ≤ start) {first : IndexedPoint ℚ}
    (hfirst : window.head? = some first) (hbudget : 0 < pointBudget) (hnever : ∀ p ∈ window, key ∉ p.gauges) :
    ((reported start stop pointBudget previous window).map fun y => seriesTotal key y.values).sum =
      (window.map fun p => seriesValue key p.deltas).sum := by
  have hspans : (window.map fun p => seriesValue key p.deltas).sum =
      ((bucketSpans start stop pointBudget (spans start stop previous window)).flatten.map fun x =>
        seriesValue key x.point.deltas).sum := by
    have hwindow : (spans start stop previous window).map Span.point = window := map_point_spans
    rw [flatten_bucketSpans h hbudget]
    conv_lhs => rw [← hwindow]
    rw [List.map_map]
    rfl
  rw [hspans]
  apply Lib.sum_groups
  · intro group hgroup hnone
    obtain ⟨a, b, htiles⟩ := tiles_bucketSpans h hprevious hfirst hbudget hgroup
    exact finish_ofSpans_eq_none htiles hnone
  · intro group hgroup y hy
    rw [values_finish h hprevious hfirst hbudget hgroup hy, seriesTotal_metricValues, seriesValue_bucket hgroup hnever]

end Values

/-! ## The arithmetic stays in range

The products and sums of the loop are in `u64`, some of them unchecked.  A bucket counts no more seconds than the
window has, and the budget is at most a thousand. -/

section Range

variable [F64Sums ν]

/-- **`Fits`** — one round of the loop divides by no zero, and its products, quotients and sums are in the range of
`u128`, `usize` and `u64`. -/
structure Rolling.Fits (start stop : U64) (pointBudget : ℕ) (rolling : Rolling ν)
    (previous : Option (IndexedPoint ν)) (point : IndexedPoint ν) : Prop where
  width : stop.val - start.val ≠ 0
  product : (point.t.val - start.val) * pointBudget < 2 ^ 128
  quotient : (point.t.val - start.val) * pointBudget / (stop.val - start.val) < 2 ^ 64
  bucket : bucketIndex start stop pointBudget point < rolling.buckets.length
  sums : ∀ b ∈ (rolling.add start stop pointBudget previous point).buckets,
    b.durationSeconds < 2 ^ 64 ∧ b.capacityDuration < 2 ^ 64 ∧ b.knownCapacityDuration < 2 ^ 64

/-- Every round of the loop fits. -/
def Rolling.AllFit (start stop : U64) (pointBudget : ℕ) (rolling : Rolling ν) :
    Option (IndexedPoint ν) → List (IndexedPoint ν) → Prop
  | _, [] => True
  | previous, point :: rest => rolling.Fits start stop pointBudget previous point ∧
      Rolling.AllFit start stop pointBudget (rolling.add start stop pointBudget previous point) (some point) rest

/-- No bucket has counted more than `d` seconds. -/
def Rolling.Within (rolling : Rolling ν) (d : ℕ) : Prop :=
  ∀ b ∈ rolling.buckets, b.durationSeconds ≤ d ∧ b.capacityDuration ≤ d ∧ b.knownCapacityDuration ≤ d

/-- How far into the window the loop has come. -/
def elapsed (start : U64) (previous : Option (IndexedPoint ν)) : ℕ :=
  previous.elim 0 fun p => (max p.t start).val - start.val

omit [F64Sums ν] in
theorem mem_modify {β : Type*} {l : List β} {i : ℕ} {f : β → β} {b : β} (h : b ∈ l.modify i f) :
    b ∈ l ∨ ∃ b' ∈ l, b = f b' := by
  obtain ⟨j, hj⟩ := List.mem_iff_getElem?.mp h
  rw [List.getElem?_modify] at hj
  obtain ⟨b', hb', heq⟩ := Option.map_eq_some_iff.mp hj
  have hmem := List.mem_of_getElem? hb'
  by_cases hij : i = j
  · exact .inr ⟨b', hmem, by rw [← heq, if_pos hij]⟩
  · exact .inl (by rw [← heq, if_neg hij]; exact hmem)

/-- One round adds the time since the point before. -/
theorem Rolling.Within.add {rolling : Rolling ν} {point : IndexedPoint ν}
    (h : rolling.Within (elapsed start previous)) (hin : start < point.t ∧ point.t ≤ stop)
    (hle : ∀ p ∈ previous, p.t ≤ point.t) :
    (rolling.add start stop pointBudget previous point).Within (elapsed start (some point)) := by
  have helapsed : elapsed start (some point) = point.t.val - start.val := by
    show (max point.t start).val - start.val = _
    rw [max_eq_left hin.1.le]
  -- the interval of the point starts where the previous one ended
  have hduration : elapsed start previous + ((min point.t stop).val - (intervalStart start previous point).val) ≤
      point.t.val - start.val := by
    rw [min_eq_left hin.2]
    cases previous with
    | none =>
        show 0 + (point.t.val - (max point.t start).val) ≤ _
        rw [max_eq_left hin.1.le]
        omega
    | some p =>
        show (max p.t start).val - start.val + (point.t.val - (max p.t start).val) ≤ _
        have hstart : start.val ≤ (max p.t start).val := le_max_right p.t start
        have hstop : (max p.t start).val ≤ point.t.val := max_le (hle p rfl) hin.1.le
        omega
  have hbuckets : (rolling.add start stop pointBudget previous point).buckets =
      rolling.buckets.modify (bucketIndex start stop pointBudget point) fun bucket =>
        bucket.addPoint point (intervalStart start previous point) (min point.t stop) := by
    cases previous <;> rfl
  rw [helapsed]
  intro b hb
  rw [hbuckets] at hb
  -- a bucket that gets no point stays below the bound, and the one that gets it grows by its interval
  rcases mem_modify hb with hb | ⟨b', hb', rfl⟩
  · obtain ⟨h₁, h₂, h₃⟩ := h b hb
    omega
  · obtain ⟨h₁, h₂, h₃⟩ := h b' hb'
    have hknown := b'.addPoint_knownCapacityDuration point (intervalStart start previous point) (min point.t stop)
    rw [BucketAccumulator.addPoint_durationSeconds, BucketAccumulator.addPoint_capacityDuration]
    omega

theorem Rolling.allFit (h : InWindow start stop window) (hle : ∀ p ∈ previous, ∀ q ∈ window, p.t ≤ q.t)
    (hbudget : 0 < pointBudget ∧ pointBudget ≤ 1000) {rolling : Rolling ν}
    (hlength : rolling.buckets.length = pointBudget) (hwithin : rolling.Within (elapsed start previous)) :
    rolling.AllFit start stop pointBudget previous window := by
  induction window generalizing rolling previous with
  | nil => trivial
  | cons point rest ih =>
      have hin := h.bounds point List.mem_cons_self
      have hnext : (rolling.add start stop pointBudget previous point).Within (elapsed start (some point)) :=
        hwithin.add hin fun p hp => hle p hp point List.mem_cons_self
      have hstart : start.val < point.t.val := hin.1
      have hstop : point.t.val ≤ stop.val := hin.2
      refine ⟨?_, ih h.tail ?_ ?_ hnext⟩
      -- the difference, the product, the quotient, the index and the three sums, one after the other
      · refine ⟨by omega, ?_, ?_, ?_, ?_⟩
        · have hproduct : (point.t.val - start.val) * pointBudget ≤ 2 ^ 64 * 1000 :=
            Nat.mul_le_mul (by omega) hbudget.2
          omega
        · have hquotient : (point.t.val - start.val) * pointBudget / (stop.val - start.val) ≤ pointBudget :=
            Nat.div_le_of_le_mul (Nat.mul_le_mul_right _ (by omega))
          omega
        · rw [hlength]
          exact bucketIndex_lt hbudget.1 point
        · intro b hb
          have helapsed : elapsed start (some point) ≤ point.t.val := by
            show (max point.t start).val - start.val ≤ _
            rw [max_eq_left hin.1.le]
            omega
          obtain ⟨h₁, h₂, h₃⟩ := hnext b hb
          omega
      · rintro p hp q hq
        obtain rfl : point = p := Option.some.inj hp
        exact (List.pairwise_cons.mp h.sorted).1 q hq
      · show (rolling.buckets.modify _ _).length = pointBudget
        rw [List.length_modify, hlength]

end Range

/-! ## `rollup`

`rollup` looks up the points of the window in the list of all points, by time.  What it finds is the list of points
after the start, up to the end; the last one before it tells where the first span begins. -/

section Window

variable (inner : HistoryInner ν)

/-- The points up to the start of a window. -/
def HistoryInner.before (start : U64) : List (IndexedPoint ν) :=
  inner.points.take (partitionPoint inner.points start)

/-- The points of a window. -/
def HistoryInner.within (start stop : U64) : List (IndexedPoint ν) :=
  (inner.points.take (partitionPoint inner.points stop)).drop (partitionPoint inner.points start)

/-- `points.clamp(2, 1000)`. -/
def clampedBudget (points : ℕ) : ℕ := max 2 (min points 1000)

theorem clampedBudget_mem (points : ℕ) : 0 < clampedBudget points ∧ clampedBudget points ≤ 1000 := by
  unfold clampedBudget
  omega

/-- The loop of `rollup` over this window. -/
def HistoryInner.rolled [F64Sums ν] (start stop : U64) (points : ℕ) : Rolling ν :=
  Rolling.addAll start stop (clampedBudget points) (.begin (clampedBudget points)) (inner.before start).getLast?
    (inner.within start stop)

/-- All of its arithmetic stays in range. -/
def HistoryInner.RollupFits [F64Sums ν] (start stop : U64) (points : ℕ) : Prop :=
  (Rolling.begin (clampedBudget points)).AllFit start stop (clampedBudget points) (inner.before start).getLast?
    (inner.within start stop)

variable {inner}

theorem before_le : ∀ p ∈ inner.before start, p.t ≤ start := by
  intro p hp
  have hprefix := List.takeWhile_prefix (l := inner.points) fun point => decide (point.t ≤ start)
  have htake : inner.before start = inner.points.takeWhile fun point => decide (point.t ≤ start) :=
    (List.prefix_iff_eq_take.mp hprefix).symm
  rw [htake] at hp
  exact of_decide_eq_true (List.mem_takeWhile_imp (p := fun point : IndexedPoint ν => decide (point.t ≤ start)) hp)

theorem last_before_le : ∀ p ∈ (inner.before start).getLast?, p.t ≤ start :=
  fun p hp => before_le p (List.mem_of_getLast? hp)

/-- The lookup is a filter, for points in order. -/
theorem within_eq_filter (hsorted : inner.points.Pairwise fun p q => p.t ≤ q.t) (hle : start ≤ stop) :
    inner.within start stop = inner.points.filter fun p => decide (start < p.t ∧ p.t ≤ stop) := by
  unfold HistoryInner.within
  rw [← searched_eq_partitionPoint hsorted, ← searched_eq_partitionPoint hsorted]
  exact between_searches hsorted hle

theorem inWindow_within (hsorted : inner.points.Pairwise fun p q => p.t ≤ q.t) (hle : start ≤ stop) :
    InWindow start stop (inner.within start stop) := by
  rw [within_eq_filter hsorted hle]
  refine ⟨hsorted.sublist List.filter_sublist, fun p hp => ?_⟩
  exact of_decide_eq_true (List.mem_filter.mp hp).2

variable [F64Sums ν]

/-- What `rollup` answers about a window with points. -/
theorem rollup_of_points {points : ℕ} (hlt : start < stop) (hne : inner.within start stop ≠ []) :
    (rollup inner start stop points).data =
      { availableFrom := inner.availableFrom
        availableTo := inner.availableTo
        effectiveFrom := match (inner.before start).getLast? with
          | none => (inner.within start stop).head?.map IndexedPoint.t
          | some previous => some (max start previous.t)
        effectiveTo := (inner.within start stop).getLast?.map IndexedPoint.t
        totals := metricValues (inner.rolled start stop points).totals
        latest := metricValues (inner.rolled start stop points).latest
        points := (inner.rolled start stop points).buckets.filterMap BucketAccumulator.finish
        diagnostics := diagnosticsAt inner stop
        historyRevision := inner.revision } := by
  have hbounds : partitionPoint inner.points start ≠ partitionPoint inner.points stop := by
    intro heq
    apply hne
    unfold HistoryInner.within
    rw [heq]
    exact List.drop_eq_nil_of_le (List.length_take_le _ _)
  unfold rollup
  dsimp only
  rw [if_neg (not_le.mpr hlt), if_neg hbounds]
  rfl

/-- The window begins where its first span does. -/
theorem effectiveFrom_rollup {points : ℕ} (hlt : start < stop) (hin : InWindow start stop (inner.within start stop))
    {first : IndexedPoint ν} (hfirst : (inner.within start stop).head? = some first) :
    (rollup inner start stop points).data.effectiveFrom =
      some (intervalStart start (inner.before start).getLast? first) := by
  have hne : inner.within start stop ≠ [] := by
    intro hempty
    rw [hempty] at hfirst
    cases hfirst
  rw [rollup_of_points hlt hne]
  show (match (inner.before start).getLast? with
    | none => (inner.within start stop).head?.map IndexedPoint.t
    | some previous => some (max start previous.t)) = _
  cases (inner.before start).getLast? with
  | none =>
      rw [hfirst]
      exact congrArg some (max_eq_left (hin.bounds first (List.mem_of_mem_head? hfirst)).1.le).symm
  | some p => exact congrArg some (max_comm start p.t)

theorem effectiveTo_rollup {points : ℕ} (hlt : start < stop) (hne : inner.within start stop ≠ []) :
    (rollup inner start stop points).data.effectiveTo = some (lastTime start (inner.within start stop)) := by
  rw [rollup_of_points hlt hne]
  show (inner.within start stop).getLast?.map IndexedPoint.t = _
  unfold lastTime
  rw [List.getLast?_eq_some_getLast hne]
  rfl

/-- A window without points has no totals. -/
theorem totals_rollup_of_empty {points : ℕ} (hempty : inner.within start stop = []) :
    (rollup inner start stop points).data.totals = [] := by
  unfold rollup
  dsimp only
  split
  · rfl
  · split
    · rfl
    · show metricValues (Rolling.addAll start stop _ _ _ (inner.within start stop)).totals = []
      rw [hempty]
      rfl

end Window

/-- **The total of a series** in a window is the sum of its deltas there. -/
theorem seriesTotal_rollup {inner : HistoryInner ℚ} (hsorted : inner.points.Pairwise fun p q => p.t ≤ q.t)
    (key : MetricKey) (start stop : U64) (points : ℕ) :
    seriesTotal key (rollup inner start stop points).data.totals =
      ((inner.points.filter fun p => decide (start < p.t ∧ p.t ≤ stop)).map fun p => seriesValue key p.deltas).sum := by
  by_cases hlt : start < stop
  · rw [← within_eq_filter hsorted hlt.le]
    by_cases hempty : inner.within start stop = []
    · rw [totals_rollup_of_empty hempty, hempty]
      rfl
    · rw [rollup_of_points hlt hempty, seriesTotal_metricValues, HistoryInner.rolled, Rolling.addAll_eq]
      show seriesValue key ((inner.within start stop).foldl _ ∅) = _
      rw [seriesValue_foldl_addMetrics]
      exact zero_add _
  · have hnone : (inner.points.filter fun p => decide (start < p.t ∧ p.t ≤ stop)) = [] := by
      apply List.filter_eq_nil_iff.mpr
      intro p _ hin
      obtain ⟨hafter, hbefore⟩ := of_decide_eq_true hin
      exact hlt (hafter.trans_le hbefore)
    have htotals : (rollup inner start stop points).data.totals = [] := by
      unfold rollup
      dsimp only
      rw [if_pos (not_lt.mp hlt)]
      rfl
    rw [htotals, hnone]
    rfl

/-- **A rollup partitions its window.**  For points in order and a window with at least one of them: there are no
more buckets than asked for (between 2 and 1000) and they are in increasing order; the first starts at
`effective_from`, each next one where the one before ends, and the last ends at `effective_to`; each is as long as
its interval; the buckets of a series that is never a gauge add up to its total; and the arithmetic stays in range. -/
theorem rollup_partitions {inner : HistoryInner ℚ} (hsorted : inner.points.Pairwise fun p q => p.t ≤ q.t)
    {start stop : U64} (hlt : start < stop) (hpoint : ∃ p ∈ inner.points, start < p.t ∧ p.t ≤ stop) (points : ℕ) :
    let data := (rollup inner start stop points).data
    (data.points ≠ [] ∧ data.points.length ≤ max 2 (min points 1000)) ∧
      data.points.Pairwise (fun y z => y.stop < z.stop) ∧
      data.effectiveFrom = data.points.head?.map RollupPoint.start ∧
      data.points.IsChain (fun y z => y.stop = z.start) ∧
      data.effectiveTo = data.points.getLast?.map RollupPoint.stop ∧
      (∀ y ∈ data.points, y.start ≤ y.stop ∧ y.durationSeconds = y.stop.val - y.start.val) ∧
      (∀ key, (∀ p ∈ inner.points, key ∉ p.gauges) →
        (data.points.map fun y => seriesTotal key y.values).sum = seriesTotal key data.totals) ∧
      inner.RollupFits start stop points := by
  have hin := inWindow_within hsorted hlt.le
  have hprevious : ∀ p ∈ (inner.before start).getLast?, p.t ≤ start := last_before_le
  obtain ⟨hbudget, hbudget'⟩ := clampedBudget_mem points
  -- the window is not empty, so neither is what is reported of it
  have hne : inner.within start stop ≠ [] := by
    obtain ⟨p, hp, hbounds⟩ := hpoint
    rw [within_eq_filter hsorted hlt.le]
    exact List.ne_nil_of_mem (List.mem_filter.mpr ⟨hp, decide_eq_true hbounds⟩)
  have hfirst : (inner.within start stop).head? = some _ := List.head?_eq_some_head hne
  have hsome := reported_ne_nil hin hprevious hfirst hbudget
  have htiles := tiles_reported hin hprevious hfirst hbudget
  have hreported : (rollup inner start stop points).data.points =
      reported start stop (clampedBudget points) (inner.before start).getLast? (inner.within start stop) := by
    rw [rollup_of_points hlt hne]
    exact Rolling.filterMap_finish
  dsimp only
  rw [hreported]
  -- of the eight parts, four are read off the tiling of the window by the reported buckets
  refine ⟨⟨hsome, length_reported_le⟩, increasing_reported hin hprevious hfirst hbudget, ?_, ?_, ?_, ?_, ?_, ?_⟩
  · rw [effectiveFrom_rollup hlt hin hfirst]
    obtain ⟨y, rest, hcons⟩ := List.exists_cons_of_ne_nil hsome
    rw [hcons] at htiles ⊢
    exact congrArg some (Fin.ext htiles.1).symm
  · exact htiles.isChain.imp fun _ _ h => Fin.ext h
  · rw [effectiveTo_rollup hlt hne]
    have hlast := List.getLast?_eq_some_getLast hsome
    rw [hlast]
    exact congrArg some (Fin.ext (htiles.last _ hlast)).symm
  · intro y hy
    exact ⟨htiles.le_of_mem hy, durationSeconds_reported hin hprevious hfirst hbudget hy⟩
  · intro key hnever
    rw [seriesTotal_rollup hsorted, ← within_eq_filter hsorted hlt.le]
    apply sum_reported hin hprevious hfirst hbudget
    intro p hp
    rw [within_eq_filter hsorted hlt.le] at hp
    exact hnever p (List.mem_of_mem_filter hp)
  -- no bucket and no running sum leaves its word
  · apply Rolling.allFit hin
    · intro p hp q hq
      exact (hprevious p hp).trans (hin.bounds q hq).1.le
    · exact ⟨hbudget, hbudget'⟩
    · exact List.length_replicate
    · intro b hb
      rw [List.eq_of_mem_replicate hb]
      exact ⟨Nat.zero_le _, Nat.zero_le _, Nat.zero_le _⟩

/-- Points at 10, 20, 20 and 30; each counted one request. -/
def fourPoints : HistoryInner ℚ where
  points := [10, 20, 20, 30].map fun t =>
    ⟨t, (∅ : SeriesMap ℚ).insert ⟨"flock_requests_total", ∅⟩ 1, ∅, some ⟨1, [40], 40⟩⟩

/-- Two buckets over the last 20 seconds: one from 10 to 20, one from there to 30. -/
theorem rollup_partitions_four :
    ((rollup fourPoints 5 30 2).data.points.map fun y => (y.start, y.stop, y.durationSeconds)) =
      [(10, 10, 0), (10, 30, 20)] ∧
    (rollup fourPoints 5 30 2).data.points.Pairwise (fun y z => y.stop < z.stop) :=
  ⟨by decide +kernel, (rollup_partitions (by decide) (by decide) ⟨_, List.mem_cons_self, by decide⟩ 2).2.1⟩

/-- The points of a window are those of its two parts. -/
theorem sum_window_split {start mid stop : U64} (hmid : start < mid) (hstop : mid < stop)
    (points : List (IndexedPoint ν)) (f : IndexedPoint ν → ℚ) :
    ((points.filter fun p => decide (start < p.t ∧ p.t ≤ stop)).map f).sum =
      ((points.filter fun p => decide (start < p.t ∧ p.t ≤ mid)).map f).sum +
        ((points.filter fun p => decide (mid < p.t ∧ p.t ≤ stop)).map f).sum := by
  induction points with
  | nil => exact (add_zero 0).symm
  | cons p rest ih =>
      -- a point is in one of the parts, or in none
      by_cases hfirst : start < p.t ∧ p.t ≤ mid
      · have hwhole : start < p.t ∧ p.t ≤ stop := ⟨hfirst.1, hfirst.2.trans hstop.le⟩
        have hsecond : ¬ (mid < p.t ∧ p.t ≤ stop) := fun hin => absurd hfirst.2 (not_le.mpr hin.1)
        rw [List.filter_cons_of_pos (by simpa using hwhole), List.filter_cons_of_pos (by simpa using hfirst),
          List.filter_cons_of_neg (by simpa using hsecond), List.map_cons, List.sum_cons, List.map_cons, List.sum_cons,
          ih, add_assoc]
      · by_cases hsecond : mid < p.t ∧ p.t ≤ stop
        · have hwhole : start < p.t ∧ p.t ≤ stop := ⟨hmid.trans hsecond.1, hsecond.2⟩
          rw [List.filter_cons_of_pos (by simpa using hwhole), List.filter_cons_of_neg (by simpa using hfirst),
            List.filter_cons_of_pos (by simpa using hsecond), List.map_cons, List.sum_cons, List.map_cons,
            List.sum_cons, ih]
          exact add_left_comm _ _ _
        · have hwhole : ¬ (start < p.t ∧ p.t ≤ stop) := by
            rintro ⟨hafter, hbefore⟩
            rcases le_or_gt p.t mid with hle | hgt
            · exact hfirst ⟨hafter, hle⟩
            · exact hsecond ⟨hgt, hbefore⟩
          rw [List.filter_cons_of_neg (by simpa using hwhole), List.filter_cons_of_neg (by simpa using hfirst),
            List.filter_cons_of_neg (by simpa using hsecond), ih]

/-- **Totals are additive.**  Of every history, from any boot through any calls: the total of a series in a window is
the sum of its totals in the two parts of the window, whatever the three budgets. -/
theorem totals_additive {S : Serde ℚ} {x : LiveIndex ℚ} (h : (indexSystem S).Reachable x) {start mid stop : U64}
    (hmid : start < mid) (hstop : mid < stop) (key : MetricKey) (points points₁ points₂ : ℕ) :
    seriesTotal key (rollup x.inner start stop points).data.totals =
      seriesTotal key (rollup x.inner start mid points₁).data.totals +
        seriesTotal key (rollup x.inner mid stop points₂).data.totals := by
  have hsorted := (index_in_order h).1
  rw [seriesTotal_rollup hsorted, seriesTotal_rollup hsorted, seriesTotal_rollup hsorted]
  exact sum_window_split hmid hstop _ _

/-- The window of a process whose clock was set back. -/
theorem totals_additive_setBack : seriesTotal ⟨"flock_requests_total", ∅⟩ (rollup setBack.inner 50 200 9).data.totals =
    seriesTotal ⟨"flock_requests_total", ∅⟩ (rollup setBack.inner 50 100 2).data.totals +
      seriesTotal ⟨"flock_requests_total", ∅⟩ (rollup setBack.inner 100 200 3).data.totals :=
  totals_additive setBack_reachable (by decide) (by decide) _ 9 2 3

end Flock.History
