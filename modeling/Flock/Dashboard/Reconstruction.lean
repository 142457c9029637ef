/-
# Flock.Dashboard.Reconstruction — what the samples show of a series.

A counter is at zero, gains each bucket's value with the bucket, is at the total of the range with the last of them and
gains the tail after that.  A gauge has its latest value, and its values are never added up.

Rows are told apart by their keys, so two series that are present must not share one.
-/
import Flock.Dashboard.Samples

namespace Flock.Dashboard

open Flock.History (Labels MetricKey)
open Flock.Lib (InsertionMap entrySum)

/-! ## What the rows say of a series

A row carries a value for a series; what the rows say of a series is their sum, for a counter, and the last of them,
for a gauge. -/

section Rows

variable {le : String → String → Bool} {rows rows' : List Row} {s : MetricKey}

/-- Values, under their series. -/
def bySeries (rows : List Row) : List (MetricKey × ℚ) := rows.map fun r => (r.series, r.value)

/-- The sum of the values of a series. -/
def sumOf (s : MetricKey) (rows : List Row) : ℚ := entrySum s (bySeries rows)

/-- The last value of a series. -/
def lastOf (s : MetricKey) (rows : List Row) : Option ℚ := InsertionMap.lastEntry s (bySeries rows)

/-- Rows are added up in any grouping. -/
theorem sumOf_append (s : MetricKey) (rows rows' : List Row) : sumOf s (rows ++ rows') = sumOf s rows + sumOf s rows' := by
  unfold sumOf bySeries
  rw [List.map_append, Lib.entrySum_append]

theorem sumOf_perm (h : rows.Perm rows') : sumOf s rows = sumOf s rows' := Lib.entrySum_perm (h.map _)

theorem sumOf_nonneg (h : ∀ r ∈ rows, r.series = s → 0 ≤ r.value) : 0 ≤ sumOf s rows := by
  apply List.sum_nonneg
  intro v hv
  obtain ⟨e, he, rfl⟩ := List.mem_map.mp hv
  obtain ⟨hmem, hkey⟩ := List.mem_filter.mp he
  obtain ⟨r, hr, rfl⟩ := List.mem_map.mp hmem
  exact h r hr (by simpa using hkey)

theorem isSome_lastOf : (lastOf s rows).isSome ↔ ∃ r ∈ rows, r.series = s := by
  rw [Option.isSome_iff_ne_none, ne_eq, lastOf, InsertionMap.lastEntry_eq_none]
  simp [bySeries]

/-- The keys say what the series say, if no other series shares the key. -/
theorem keyed_eq (le : String → String → Bool) (rows : List Row) :
    keyed le rows = (bySeries rows).map fun e => (rowKey le e.1, e.2) := by
  unfold keyed bySeries
  rw [List.map_map]
  rfl

/-- Where no other series shares its key, the sum under the key is that of the series. -/
theorem entrySum_keyed (h : ∀ r ∈ rows, rowKey le r.series = rowKey le s → r.series = s) :
    entrySum (rowKey le s) (keyed le rows) = sumOf s rows := by
  rw [keyed_eq]
  apply Lib.entrySum_map_key
  intro e he
  obtain ⟨r, hr, rfl⟩ := List.mem_map.mp he
  exact h r hr

theorem lastEntry_keyed (h : ∀ r ∈ rows, rowKey le r.series = rowKey le s → r.series = s) :
    InsertionMap.lastEntry (rowKey le s) (keyed le rows) = lastOf s rows := by
  rw [keyed_eq]
  apply InsertionMap.lastEntry_map_key
  intro e he
  obtain ⟨r, hr, rfl⟩ := List.mem_map.mp he
  exact h r hr

end Rows

/-! ## Ranges and tails

The API answers with a range, in buckets, and in between with tails, which tell what came after it.  A tail is shown
only if its revision is that of the range. -/

/-- The value of a bucket. -/
def Point.value (s : MetricKey) (p : Point) : ℚ := sumOf s p.rows

/-- The total of a tail. -/
def Tail.total (s : MetricKey) (t : Tail) : ℚ := sumOf s t.rows

namespace Range

variable (range : Range)

/-- The total of a range: the entry of the series. -/
def total (s : MetricKey) : ℚ := (lastOf s range.totalRows).getD 0

/-- The gauges are the series with a latest value. -/
def IsGauge (s : MetricKey) : Prop := ∃ r ∈ range.latestRows, r.series = s

/-- The tail, when the revisions match. -/
def followed (tail : Option Tail) : Option Tail := tail.filter fun t => t.baseHistoryRevision = range.historyRevision

/-- Every series of the range and of the tail. -/
def present (tail : Option Tail) : List MetricKey :=
  (range.totalRows ++ (range.latestRows ++ (range.pointList.flatMap Point.rows ++
    ((range.followed tail).map Tail.rows).getD []))).map Row.series

/-- **`range.Consistent`** — the buckets of a counter are not negative and sum to its total, and no gauge has one. -/
structure Consistent : Prop where
  nonneg : ∀ p ∈ range.pointList, ∀ r ∈ p.rows, ¬ range.IsGauge r.series → 0 ≤ r.value
  sums : ∀ s, ¬ range.IsGauge s → (range.pointList.map (Point.value s)).sum = range.total s
  disjoint : ∀ r ∈ range.totalRows, ¬ range.IsGauge r.series

end Range

/-- **`t.Fits range`** — the totals of the tail are not negative, and none is of a gauge. -/
structure Tail.Fits (range : Range) (t : Tail) : Prop where
  nonneg : ∀ r ∈ t.rows, 0 ≤ r.value
  counter : ∀ r ∈ t.rows, ¬ range.IsGauge r.series

/-- The sample at a place shows the value. -/
def Shows (s : MetricKey) (samples : List Sample) (i : ℕ) (v : ℚ) : Prop :=
  ∃ x, samples[i]? = some x ∧ x.value s = v

/-- **`CounterSeries range tail s samples`** — what a counter does. -/
structure CounterSeries (range : Range) (tail : Option Tail) (s : MetricKey) (samples : List Sample) : Prop where
  starts : Shows s samples 0 0
  rises : ∀ i p, range.sorted[i]? = some p → ∃ v, Shows s samples i v ∧ Shows s samples (i + 1) (v + p.value s)
  neverDecreases : (samples.map (Sample.value s)).Pairwise (· ≤ ·)
  historical : Shows s samples range.sorted.length (range.total s)
  live : ∀ t ∈ range.followed tail, Shows s samples (range.sorted.length + 1) (range.total s + t.total s)
  once : ∀ x ∈ samples, x.values s = [x.value s] ∨ x.values s = [] ∧ ∀ r ∈ range.totalRows, r.series ≠ s

/-- **`GaugeSeries range s samples`** — what a gauge does: the latest value of the buckets so far, and with the last
bucket the latest of the range. -/
structure GaugeSeries (range : Range) (s : MetricKey) (samples : List Sample) : Prop where
  seen : ∀ i x, i = 0 ∨ i < range.sorted.length → samples[i]? = some x →
    x.values s = (lastOf s ((range.sorted.take i).flatMap Point.rows)).toList
  latest : ∀ i x, i ≠ 0 → range.sorted.length ≤ i → samples[i]? = some x →
    x.values s = (lastOf s range.latestRows).toList

/-! ## Every sample shows one of the states

`rangeSamples` makes one sample at zero, one for each bucket, overwrites the last one with the totals, and adds one
for the tail.  `SampleAt` says for each place what was kept when it was made. -/

section Samples

variable {le : String → String → Bool} {range : Range} {tail : Option Tail} {i : ℕ} {x : Sample}

/-- What is kept when the last sample has been overwritten. -/
def Range.overwritten (le : String → String → Bool) (range : Range) : Build :=
  range.overwrite le (range.after le range.sorted)

/-- What is kept when the tail has been added. -/
def Range.live (le : String → String → Bool) (range : Range) (t : Tail) : Build :=
  { range.overwritten le with counters := t.rows.foldl (addCounter le) (range.overwritten le).counters }

/-- The last sample shows the totals, whatever the buckets added up to. -/
theorem counters_overwritten : (range.overwritten le).counters = range.totalRows.foldl (setGauge le) .empty := by
  have hmap : InsertionMap.empty.setAll (range.totalRows.map fun r => (rowKey le r.series, r.withValue r.value)) =
      range.totalRows.foldl (setGauge le) .empty := List.foldl_map
  unfold Range.overwritten Range.overwrite
  dsimp only
  rw [hmap]
  split <;> rfl

theorem gauges_overwritten : (range.overwritten le).gauges =
    range.latestRows.foldl (setGauge le) (range.after le range.sorted).gauges := by
  unfold Range.overwritten Range.overwrite
  dsimp only
  split <;> rfl

theorem length_out_overwritten : (range.overwritten le).out.length = range.sorted.length + 1 := by
  have hlength : (range.after le range.sorted).out.length = range.sorted.length + 1 := length_out_after _
  unfold Range.overwritten Range.overwrite
  dsimp only
  split
  · rw [List.length_modify, hlength]
  · exact hlength

/-- A tail adds one sample behind all of them. -/
theorem rangeSamples_eq : rangeSamples le range tail = (range.overwritten le).out ++
    ((range.followed tail).map fun t => (⟨t.stop * 1000, (range.live le t).rows⟩ : Sample)).toList := by
  unfold rangeSamples Range.followed
  cases tail with
  | none => exact (List.append_nil _).symm
  | some t =>
      by_cases hrevision : t.baseHistoryRevision = range.historyRevision
      · simp only [hrevision, if_true, Option.filter_some, decide_true]
        rfl
      · simp only [hrevision, if_false, Option.filter_some, decide_false]
        exact (List.append_nil _).symm

theorem length_rangeSamples : (rangeSamples le range tail).length =
    range.sorted.length + 1 + (range.followed tail).toList.length := by
  rw [rangeSamples_eq, List.length_append, length_out_overwritten]
  cases range.followed tail <;> rfl

/-- **`SampleAt le range tail i x`** — the sample shows what was kept when it was made. -/
inductive SampleAt (le : String → String → Bool) (range : Range) (tail : Option Tail) : ℕ → Sample → Prop
  | bucket {i : ℕ} {t : ℚ} (h : i = 0 ∨ i < range.sorted.length) :
      SampleAt le range tail i ⟨t, (range.after le (range.sorted.take i)).rows⟩
  | last {t : ℚ} (h : range.sorted.length ≠ 0) :
      SampleAt le range tail range.sorted.length ⟨t, (range.overwritten le).rows⟩
  | live {t : Tail} (h : t ∈ range.followed tail) :
      SampleAt le range tail (range.sorted.length + 1) ⟨t.stop * 1000, (range.live le t).rows⟩

theorem sampleAt_overwritten (hx : (range.overwritten le).out[i]? = some x) : SampleAt le range tail i x := by
  have hlength : (range.after le range.sorted).out.length = range.sorted.length + 1 := length_out_after _
  have hi : i < (range.overwritten le).out.length := (List.getElem?_eq_some_iff.mp hx).1
  rw [length_out_overwritten] at hi
  obtain ⟨t, ht⟩ : ∃ t, (range.after le range.sorted).out[i]? =
      some ⟨t, (range.after le (range.sorted.take i)).rows⟩ := out_after _ (by omega)
  have hrows : (range.overwritten le).out = if 1 < (range.after le range.sorted).out.length then
      (range.after le range.sorted).out.modify ((range.after le range.sorted).out.length - 1) fun x =>
        { x with rows := (range.overwritten le).rows } else (range.after le range.sorted).out := by
    unfold Range.overwritten Range.overwrite
    dsimp only
    split <;> rfl
  rw [hrows] at hx
  split at hx
  · rename_i hmany
    rw [List.getElem?_modify, ht, hlength] at hx
    by_cases hlast : i = range.sorted.length
    · subst hlast
      obtain rfl : _ = x := by simpa using hx
      exact .last (by omega)
    · have hother : ¬ range.sorted.length = i := fun heq => hlast heq.symm
      have hsample : (⟨t, (range.after le (range.sorted.take i)).rows⟩ : Sample) = x := by simpa [hother] using hx
      rw [← hsample]
      exact .bucket (.inr (by omega))
  · rw [ht] at hx
    obtain rfl := Option.some.inj hx
    exact .bucket (.inl (by omega))

theorem sampleAt_of_getElem? (hx : (rangeSamples le range tail)[i]? = some x) : SampleAt le range tail i x := by
  rw [rangeSamples_eq, List.getElem?_append, length_out_overwritten] at hx
  split at hx
  · exact sampleAt_overwritten hx
  · rename_i hbeyond
    cases hfollowed : range.followed tail with
    | none =>
        rw [hfollowed] at hx
        cases hx
    | some t =>
        rw [hfollowed] at hx
        have hzero : i - (range.sorted.length + 1) = 0 := by
          have hlt := (List.getElem?_eq_some_iff.mp hx).1
          simpa using hlt
        rw [hzero] at hx
        obtain rfl := Option.some.inj hx
        obtain rfl : i = range.sorted.length + 1 := by omega
        exact .live hfollowed

end Samples

/-! ## Series by series

The rows that are kept are a map under keys.  As long as two series that are present have two keys, the map can be
read series by series. -/

section Account

variable {le : String → String → Bool} {range : Range} {tail : Option Tail} {s : MetricKey} {i : ℕ} {x : Sample} {r : Row}
  {t : Tail}

/-- A series of the totals is present, and so are those of the latest values, of the buckets and of the tail. -/
theorem present_of_totals (hr : r ∈ range.totalRows) : r.series ∈ range.present tail :=
  List.mem_map.mpr ⟨r, List.mem_append_left _ hr, rfl⟩

theorem present_of_latest (hr : r ∈ range.latestRows) : r.series ∈ range.present tail :=
  List.mem_map.mpr ⟨r, List.mem_append_right _ (List.mem_append_left _ hr), rfl⟩

theorem present_of_points {p : Point} (hp : p ∈ range.pointList) (hr : r ∈ p.rows) : r.series ∈ range.present tail := by
  have hmem : r ∈ range.pointList.flatMap Point.rows := List.mem_flatMap.mpr ⟨p, hp, hr⟩
  exact List.mem_map.mpr
    ⟨r, List.mem_append_right _ (List.mem_append_right _ (List.mem_append_left _ hmem)), rfl⟩

theorem present_of_tail (ht : t ∈ range.followed tail) (hr : r ∈ t.rows) : r.series ∈ range.present tail := by
  have hmem : r ∈ ((range.followed tail).map Tail.rows).getD [] := by
    rw [Option.mem_def.mp ht]
    exact hr
  exact List.mem_map.mpr
    ⟨r, List.mem_append_right _ (List.mem_append_right _ (List.mem_append_right _ hmem)), rfl⟩

theorem mem_sorted {p : Point} : p ∈ range.sorted ↔ p ∈ range.pointList := List.mem_insertionSort _

/-- Seeding keeps the map readable. -/
theorem stored_seedCounter {gaugeKeys : List String} {m : Rows} {present : List MetricKey} (h : Stored le present m)
    (hr : r.series ∈ present) : Stored le present (seedCounter le gaugeKeys m r) := by
  unfold seedCounter
  dsimp only
  split
  · exact Stored.set (r := r.withValue 0) h hr
  · exact h

theorem stored_setGauge {m : Rows} {present : List MetricKey} (h : Stored le present m) (hr : r.series ∈ present) :
    Stored le present (setGauge le m r) := Stored.set (r := r.withValue r.value) h hr

variable (hkeys : Set.InjOn (rowKey le) {s | s ∈ range.present tail})

include hkeys

/-- The keys of the gauges. -/
theorem mem_gaugeKeys (hs : s ∈ range.present tail) : rowKey le s ∈ range.gaugeKeys le ↔ range.IsGauge s := by
  constructor
  · intro hmem
    obtain ⟨r, hr, hkey⟩ := List.mem_map.mp hmem
    exact ⟨r, hr, hkeys (present_of_latest hr) hs hkey⟩
  · rintro ⟨r, hr, rfl⟩
    exact List.mem_map.mpr ⟨r, hr, rfl⟩

/-- Before the first bucket. -/
theorem tracks_seeded (hrange : range.Consistent) :
    (range.seeded le).Tracks le (range.gaugeKeys le) (range.totalRows.map fun r => rowKey le r.series)
      (range.present tail) [] := by
  have hcounters : (range.seeded le).counters =
      (range.totalRows ++ range.pointList.flatMap Point.rows).foldl (seedCounter le (range.gaugeKeys le)) .empty := by
    rw [List.foldl_append]
    rfl
  -- seeding writes a zero under every key that is not a gauge's
  have hshown (k : String) : shownAt k (range.seeded le).counters =
      if (∃ r ∈ range.totalRows ++ range.pointList.flatMap Point.rows, rowKey le r.series = k) ∧
        k ∉ range.gaugeKeys le then some 0 else none := by
    rw [hcounters, shownAt_foldl_seedCounter]
    rfl
  exact {
    counter := fun k _ => by
      rw [hshown]
      split <;> rfl
    noGauge := fun _ _ => rfl
    gauge := fun _ _ => rfl
    noCounter := fun k hk => by rw [hshown, if_neg fun h => h.2 hk]
    seeded := fun k hk => by
      obtain ⟨r, hr, rfl⟩ := List.mem_map.mp hk
      have hcounter := mt (mem_gaugeKeys hkeys (present_of_totals hr)).mp (hrange.disjoint r hr)
      rw [hshown, if_pos ⟨⟨r, List.mem_append_left _ hr, rfl⟩, hcounter⟩]
      rfl
    storedCounters := by
      rw [hcounters]
      apply Stored.foldl _ stored_empty
      intro m r hr hm
      apply stored_seedCounter hm
      rcases List.mem_append.mp hr with htotal | hpoint
      · exact present_of_totals htotal
      · obtain ⟨p, hp, hrow⟩ := List.mem_flatMap.mp hpoint
        exact present_of_points hp hrow
    storedGauges := stored_empty }

/-- **Behind some of the buckets.** -/
theorem tracks_after (hrange : range.Consistent) {pts : List Point} (hpts : ∀ p ∈ pts, p ∈ range.pointList) :
    (range.after le pts).Tracks le (range.gaugeKeys le) (range.totalRows.map fun r => rowKey le r.series)
      (range.present tail) (pts.flatMap Point.rows) := by
  induction pts using List.reverseRecOn with
  | nil => exact tracks_seeded hkeys hrange
  | append_singleton pts p ih =>
      have hp : p ∈ range.pointList := hpts p (List.mem_append_right _ List.mem_cons_self)
      have hbefore := ih fun q hq => hpts q (List.mem_append_left _ hq)
      have hpoint := hbefore.point fun r hr => present_of_points hp hr
      rw [after_concat, List.flatMap_append, List.flatMap_singleton]
      exact hpoint

/-- With all of them, in their order. -/
theorem tracks_take (hrange : range.Consistent) (i : ℕ) :
    (range.after le (range.sorted.take i)).Tracks le (range.gaugeKeys le)
      (range.totalRows.map fun r => rowKey le r.series) (range.present tail)
      ((range.sorted.take i).flatMap Point.rows) :=
  tracks_after hkeys hrange fun _ hp => mem_sorted.mp (List.mem_of_mem_take hp)

theorem stored_overwritten (hrange : range.Consistent) : Stored le (range.present tail) (range.overwritten le).counters ∧
    Stored le (range.present tail) (range.overwritten le).gauges := by
  have hall := tracks_after hkeys hrange fun p (hp : p ∈ range.sorted) => mem_sorted.mp hp
  constructor
  · rw [counters_overwritten]
    exact Stored.foldl (fun m r hr hm => stored_setGauge hm (present_of_totals hr)) stored_empty
  · rw [gauges_overwritten]
    exact Stored.foldl (fun m r hr hm => stored_setGauge hm (present_of_latest hr)) hall.storedGauges

theorem stored_live (hrange : range.Consistent) (ht : t ∈ range.followed tail) :
    Stored le (range.present tail) (range.live le t).counters :=
  Stored.foldl (fun _ _ hr hm => hm.addCounter (present_of_tail ht hr)) (stored_overwritten hkeys hrange).1

/-- No other series of the buckets has the key. -/
theorem series_of_take (hs : s ∈ range.present tail) (i : ℕ) :
    ∀ r ∈ (range.sorted.take i).flatMap Point.rows, rowKey le r.series = rowKey le s → r.series = s := by
  intro r hr heq
  obtain ⟨p, hp, hrow⟩ := List.mem_flatMap.mp hr
  exact hkeys (present_of_points (mem_sorted.mp (List.mem_of_mem_take hp)) hrow) hs heq

/-- **The counters, overwritten**, are the totals. -/
theorem shownAt_counters_overwritten (hs : s ∈ range.present tail) :
    shownAt (rowKey le s) (range.overwritten le).counters = lastOf s range.totalRows := by
  rw [counters_overwritten, shownAt_foldl_setGauge, lastEntry_keyed]
  · exact Option.or_none
  · exact fun r hr hkey => hkeys (present_of_totals hr) hs hkey

/-- **The gauges, overwritten**, have the latest values. -/
theorem shownAt_gauges_overwritten (hrange : range.Consistent) (hs : s ∈ range.present tail) :
    shownAt (rowKey le s) (range.overwritten le).gauges = lastOf s range.latestRows := by
  have hall := tracks_after hkeys hrange fun p (hp : p ∈ range.sorted) => mem_sorted.mp hp
  rw [gauges_overwritten, shownAt_foldl_setGauge,
    lastEntry_keyed fun r hr hkey => hkeys (present_of_latest hr) hs hkey]
  by_cases hgauge : range.IsGauge s
  · obtain ⟨value, hvalue⟩ := Option.isSome_iff_exists.mp (isSome_lastOf.mpr hgauge)
    rw [hvalue]
    rfl
  · have hnone := hall.noGauge _ (mt (mem_gaugeKeys hkeys hs).mp hgauge)
    rw [hnone, Option.or_none]

/-- **The value of a counter**: the buckets so far, and behind the last one the total and the tail. -/
def expected (range : Range) (tail : Option Tail) (s : MetricKey) (i : ℕ) : ℚ :=
  if i ≤ range.sorted.length then sumOf s ((range.sorted.take i).flatMap Point.rows)
  else range.total s + ((range.followed tail).map (Tail.total s)).getD 0

omit hkeys in
/-- The buckets of a series, added up. -/
theorem sumOf_flatMap (s : MetricKey) (pts : List Point) :
    sumOf s (pts.flatMap Point.rows) = (pts.map (Point.value s)).sum := by
  induction pts with
  | nil => rfl
  | cons p pts ih =>
      rw [List.flatMap_cons, sumOf_append, ih, List.map_cons, List.sum_cons]
      rfl

omit hkeys in
/-- All the buckets have the total. -/
theorem expected_sorted (hrange : range.Consistent) (hcounter : ¬ range.IsGauge s) :
    expected range tail s range.sorted.length = range.total s := by
  have hperm : range.sorted.Perm range.pointList := List.perm_insertionSort _ _
  unfold expected
  rw [if_pos (le_refl _), List.take_length, sumOf_perm (hperm.flatMap_right _), sumOf_flatMap, hrange.sums s hcounter]

/-- **A counter**, in every sample. -/
theorem counter_at (hrange : range.Consistent) (hs : s ∈ range.present tail) (hcounter : ¬ range.IsGauge s) (hx : SampleAt le range tail i x) :
    ∃ o : Option ℚ, x.values s = o.toList ∧ ((∃ r ∈ range.totalRows, r.series = s) → o.isSome) ∧
      o.getD 0 = expected range tail s i := by
  -- the key of a counter is not that of a gauge, so nothing else writes under it
  have hkey : rowKey le s ∉ range.gaugeKeys le := mt (mem_gaugeKeys hkeys hs).mp hcounter
  have hstored := stored_overwritten hkeys hrange
  have htotals := shownAt_counters_overwritten hkeys hs
  have hgauges : shownAt (rowKey le s) (range.overwritten le).gauges = none := by
    rw [shownAt_gauges_overwritten hkeys hrange hs, ← Option.not_isSome_iff_eq_none]
    exact mt isSome_lastOf.mp hcounter
  cases hx with
  -- behind some of the buckets it is the sum of those
  | bucket hi =>
      have htracks := tracks_take hkeys hrange i
      refine ⟨shownAt (rowKey le s) (range.after le (range.sorted.take i)).counters, ?_, ?_, ?_⟩
      · rw [values_rows htracks.storedCounters htracks.storedGauges hs hkeys, htracks.noGauge _ hkey]
        exact List.append_nil _
      · rintro ⟨r, hr, rfl⟩
        exact htracks.seeded _ (List.mem_map.mpr ⟨r, hr, rfl⟩)
      · unfold expected
        rw [htracks.counter _ hkey, entrySum_keyed (series_of_take hkeys hs i), if_pos (by omega)]
  -- with all of them it is overwritten by the total
  | last hne =>
      refine ⟨lastOf s range.totalRows, ?_, isSome_lastOf.mpr, ?_⟩
      · rw [values_rows hstored.1 hstored.2 hs hkeys, htotals, hgauges]
        exact List.append_nil _
      · rw [expected_sorted hrange hcounter]
        rfl
  -- and the tail is added to that
  | @live t ht =>
      have hlive := stored_live hkeys hrange ht
      refine ⟨shownAt (rowKey le s) (range.live le t).counters, ?_, fun hnamed => ?_, ?_⟩
      · rw [values_rows (b := range.live le t) hlive hstored.2 hs hkeys]
        show _ ++ (shownAt (rowKey le s) (range.overwritten le).gauges).toList = _
        rw [hgauges]
        exact List.append_nil _
      · apply isSome_foldl_addCounter
        rw [htotals]
        exact isSome_lastOf.mpr hnamed
      · have hsum : (shownAt (rowKey le s) (range.live le t).counters).getD 0 = _ := shownAt_foldl_addCounter ..
        rw [htotals, entrySum_keyed fun r hr heq => hkeys (present_of_tail ht hr) hs heq] at hsum
        unfold expected
        rw [if_neg (by omega), Option.mem_def.mp ht]
        exact hsum

/-- **A gauge**, in every sample. -/
theorem gauge_at (hrange : range.Consistent) (htail : ∀ t ∈ range.followed tail, t.Fits range)
    (hs : s ∈ range.present tail) (hgauge : range.IsGauge s) (hx : SampleAt le range tail i x) :
    x.values s = (if i = 0 ∨ i < range.sorted.length then lastOf s ((range.sorted.take i).flatMap Point.rows)
      else lastOf s range.latestRows).toList := by
  have hkey : rowKey le s ∈ range.gaugeKeys le := (mem_gaugeKeys hkeys hs).mpr hgauge
  have hstored := stored_overwritten hkeys hrange
  have hgauges := shownAt_gauges_overwritten hkeys hrange hs
  have htotals : shownAt (rowKey le s) (range.overwritten le).counters = none := by
    rw [shownAt_counters_overwritten hkeys hs, ← Option.not_isSome_iff_eq_none, isSome_lastOf]
    rintro ⟨r, hr, rfl⟩
    exact hrange.disjoint r hr hgauge
  cases hx with
  | bucket hi =>
      have htracks := tracks_take hkeys hrange i
      rw [values_rows htracks.storedCounters htracks.storedGauges hs hkeys, htracks.noCounter _ hkey,
        htracks.gauge _ hkey, if_pos hi, lastEntry_keyed (series_of_take hkeys hs i)]
      rfl
  | last hne =>
      rw [values_rows hstored.1 hstored.2 hs hkeys, htotals, hgauges, if_neg (by omega)]
      rfl
  | @live t ht =>
      have hlive := stored_live hkeys hrange ht
      have hnone : shownAt (rowKey le s) (range.live le t).counters = none := by
        show shownAt _ (t.rows.foldl (addCounter le) _) = none
        rw [shownAt_foldl_addCounter_of_ne, htotals]
        intro r hr heq
        exact (htail t ht).counter r hr (hkeys (present_of_tail ht hr) hs heq ▸ hgauge)
      rw [values_rows (b := range.live le t) hlive hstored.2 hs hkeys, hnone, if_neg (by omega)]
      show [] ++ (shownAt (rowKey le s) (range.overwritten le).gauges).toList = _
      rw [hgauges]
      rfl

omit hkeys in
theorem expected_succ {p : Point} (hp : range.sorted[i]? = some p) :
    expected range tail s (i + 1) = expected range tail s i + p.value s := by
  have hi : i < range.sorted.length := (List.getElem?_eq_some_iff.mp hp).1
  unfold expected
  rw [if_pos (by omega), if_pos (by omega), List.take_add_one, hp, List.flatMap_append, sumOf_append]
  show _ + sumOf s ([p].flatMap Point.rows) = _
  rw [List.flatMap_singleton]
  rfl

omit hkeys in
/-- **What a counter shows never decreases.** -/
theorem expected_mono (hrange : range.Consistent) (htail : ∀ t ∈ range.followed tail, t.Fits range)
    (hcounter : ¬ range.IsGauge s) : Monotone (expected range tail s) := by
  apply monotone_nat_of_le_succ
  intro i
  by_cases hi : i < range.sorted.length
  · have hp : range.sorted[i]? = some range.sorted[i] := List.getElem?_eq_getElem hi
    have hvalue : 0 ≤ (range.sorted[i]).value s := by
      apply sumOf_nonneg
      rintro r hr rfl
      exact hrange.nonneg _ (mem_sorted.mp (List.getElem_mem hi)) r hr hcounter
    rw [expected_succ hp]
    exact le_add_of_nonneg_right hvalue
  · have htotal : 0 ≤ ((range.followed tail).map (Tail.total s)).getD 0 := by
      cases hfollowed : range.followed tail with
      | none => exact le_refl _
      | some t => exact sumOf_nonneg fun r hr _ => (htail t hfollowed).nonneg r hr
    have hnext : expected range tail s (i + 1) = range.total s + ((range.followed tail).map (Tail.total s)).getD 0 :=
      if_neg (by omega)
    rw [hnext]
    by_cases hlast : i = range.sorted.length
    · rw [hlast, expected_sorted hrange hcounter]
      exact le_add_of_nonneg_right htotal
    · unfold expected
      rw [if_neg (by omega)]

/-- What a counter shows in a sample. -/
theorem value_of_getElem? (hrange : range.Consistent) (hs : s ∈ range.present tail) (hcounter : ¬ range.IsGauge s)
    (hx : (rangeSamples le range tail)[i]? = some x) : x.value s = expected range tail s i := by
  obtain ⟨o, hvalues, -, hexpected⟩ := counter_at hkeys hrange hs hcounter (sampleAt_of_getElem? hx)
  unfold Sample.value
  rw [hvalues, ← hexpected]
  cases o with
  | none => rfl
  | some v => exact List.sum_singleton

/-- A sample of a counter shows what is expected there. -/
theorem shows_expected (hrange : range.Consistent) (hs : s ∈ range.present tail) (hcounter : ¬ range.IsGauge s)
    (hi : i < (rangeSamples le range tail).length) :
    Shows s (rangeSamples le range tail) i (expected range tail s i) := by
  have hx := List.getElem?_eq_getElem hi
  exact ⟨_, hx, value_of_getElem? hkeys hrange hs hcounter hx⟩

omit hkeys in
theorem expected_zero : expected range tail s 0 = 0 := rfl

omit hkeys in
theorem expected_live (ht : t ∈ range.followed tail) :
    expected range tail s (range.sorted.length + 1) = range.total s + t.total s := by
  unfold expected
  rw [if_neg (by omega), Option.mem_def.mp ht]
  rfl

/-- **The samples rebuild the series.** -/
theorem series_rebuilt (hrange : range.Consistent) (htail : ∀ t ∈ range.followed tail, t.Fits range) :
    (rangeSamples le range tail).length = range.sorted.length + 1 + (range.followed tail).toList.length ∧
      ∀ s ∈ range.present tail,
        (¬ range.IsGauge s → CounterSeries range tail s (rangeSamples le range tail)) ∧
          (range.IsGauge s → GaugeSeries range s (rangeSamples le range tail)) := by
  have hlength : (rangeSamples le range tail).length = _ := length_rangeSamples
  refine ⟨hlength, fun s hs => ⟨fun hcounter => ?_, fun hgauge => ?_⟩⟩
  -- sample by sample, a counter shows what is expected of it
  · have hshows {i : ℕ} (hi : i < (rangeSamples le range tail).length) := shows_expected hkeys hrange hs hcounter hi
    exact {
      starts := by
        rw [← expected_zero]
        exact hshows (by omega)
      rises := fun i p hp => by
        have hi : i < range.sorted.length := (List.getElem?_eq_some_iff.mp hp).1
        refine ⟨expected range tail s i, hshows (by omega), ?_⟩
        rw [← expected_succ hp]
        exact hshows (by omega)
      -- what is expected does not fall
      neverDecreases := by
        rw [List.pairwise_iff_getElem]
        intro i j hi hj hij
        have hvalue {i : ℕ} (hi : i < (rangeSamples le range tail).length) :=
          value_of_getElem? hkeys hrange hs hcounter (List.getElem?_eq_getElem hi)
        rw [List.getElem_map, List.getElem_map, hvalue, hvalue]
        exact expected_mono hrange htail hcounter hij.le
      historical := by
        rw [← expected_sorted hrange hcounter]
        exact hshows (by omega)
      live := fun t ht => by
        rw [← expected_live ht]
        apply hshows
        rw [hlength, Option.mem_def.mp ht]
        exact Nat.lt_succ_self _
      -- a row whose value cannot be shown is not in the sample at all
      once := fun x hx => by
        obtain ⟨i, hi⟩ := List.mem_iff_getElem?.mp hx
        obtain ⟨o, hvalues, hnamed, -⟩ := counter_at hkeys hrange hs hcounter (sampleAt_of_getElem? hi)
        cases o with
        | none => exact .inr ⟨hvalues, fun r hr heq => absurd (hnamed ⟨r, hr, heq⟩) (by simp)⟩
        | some v =>
            left
            unfold Sample.value
            rw [hvalues]
            simp }
  · exact {
      seen := fun i x hi hx => by
        rw [gauge_at hkeys hrange htail hs hgauge (sampleAt_of_getElem? hx), if_pos hi]
      latest := fun i x hne hi hx => by
        rw [gauge_at hkeys hrange htail hs hgauge (sampleAt_of_getElem? hx), if_neg (by omega)] }

/-- `windowed`: from the first sample to the last. -/
def windowed (get : Sample → ℚ) (samples : List Sample) : ℚ :=
  if samples.length < 2 then 0
  else max 0 ((samples.getLast?.map get).getD 0 - (samples.head?.map get).getD 0)

/-- **What a panel shows of a counter** is the total of the range and of the tail. -/
theorem windowed_value (hrange : range.Consistent) (htail : ∀ t ∈ range.followed tail, t.Fits range)
    (hs : s ∈ range.present tail) (hcounter : ¬ range.IsGauge s) :
    windowed (Sample.value s) (rangeSamples le range tail) =
      range.total s + ((range.followed tail).map (Tail.total s)).getD 0 := by
  have hlength : (rangeSamples le range tail).length = _ := length_rangeSamples
  have hlast : expected range tail s ((rangeSamples le range tail).length - 1) =
      range.total s + ((range.followed tail).map (Tail.total s)).getD 0 := by
    rw [hlength]
    cases hfollowed : range.followed tail with
    | none => exact (expected_sorted hrange hcounter).trans (add_zero _).symm
    | some t => exact expected_live hfollowed
  have hmono := expected_mono hrange htail hcounter
  obtain ⟨first, hfirst, hzero⟩ := shows_expected hkeys hrange hs hcounter (show 0 < _ by omega)
  obtain ⟨last, hend, hvalue⟩ := shows_expected hkeys hrange hs hcounter
    (show (rangeSamples le range tail).length - 1 < _ by omega)
  unfold windowed
  split
  · rename_i hfew
    rw [← hlast, show (rangeSamples le range tail).length - 1 = 0 by omega, expected_zero]
  · rw [List.getLast?_eq_getElem?, List.head?_eq_getElem?, hend, hfirst, Option.map_some, Option.map_some,
      Option.getD_some, Option.getD_some, hzero, hvalue, hlast, expected_zero, sub_zero, max_eq_right]
    rw [← hlast]
    exact hmono (Nat.zero_le _)

end Account

/-! ## A range, and tails

Two buckets of a counter and a gauge, with a tail that fits and one that does not. -/

/-- Names in their order. -/
def byteOrder (a b : String) : Bool := compare a b != .gt

/-- A series without labels. -/
def plain (metric : String) : MetricKey := ⟨metric, ∅⟩

/-- Requests, a counter. -/
def requests (value : ℚ) : Row := { metric := "flock_requests_total", value := value }

/-- Active requests, a gauge. -/
def active (value : ℚ) : Row := { metric := "flock_active_requests", value := value }

/-- Two buckets. -/
def twoBuckets : Range where
  window := { requestedFrom := 0 }
  totals := some [requests 5]
  latest := some [active 2]
  points := some [{ stop := 20, values := some [requests 3, active 2] },
    { stop := 10, values := some [requests 2, active 4] }]
  historyRevision := 7

/-- A tail of some rows. -/
def tailOf (rows : List Row) : Option Tail := some { baseHistoryRevision := 7, stop := 25, totals := some rows }

theorem isGauge_twoBuckets {s : MetricKey} : twoBuckets.IsGauge s ↔ plain "flock_active_requests" = s := by
  constructor
  · rintro ⟨r, hr, rfl⟩
    rw [List.mem_singleton.mp hr]
    rfl
  · intro heq
    exact ⟨active 2, List.mem_cons_self, heq⟩

theorem not_isGauge_requests (value : ℚ) : ¬ twoBuckets.IsGauge (requests value).series := by
  rw [isGauge_twoBuckets]
  show ¬ plain "flock_active_requests" = plain "flock_requests_total"
  decide

theorem consistent_twoBuckets : twoBuckets.Consistent where
  nonneg := by
    have hall : ∀ p ∈ twoBuckets.pointList, ∀ r ∈ p.rows, 0 ≤ r.value := by decide +kernel
    exact fun p hp r hr _ => hall p hp r hr
  sums := by
    intro s hs
    rw [isGauge_twoBuckets] at hs
    by_cases hrequests : plain "flock_requests_total" = s
    · subst hrequests
      decide +kernel
    · have hnone : ∀ rows : List Row, (∀ r ∈ rows, r.series = plain "flock_requests_total" ∨
          r.series = plain "flock_active_requests") → sumOf s rows = 0 ∧ lastOf s rows = none := by
        intro rows hrows
        have hne : ∀ e ∈ bySeries rows, e.1 ≠ s := by
          intro e he heq
          obtain ⟨r, hr, rfl⟩ := List.mem_map.mp he
          rcases hrows r hr with hr | hr
          · exact hrequests (hr.symm.trans heq)
          · exact hs (hr.symm.trans heq)
        exact ⟨Lib.entrySum_eq_zero hne, InsertionMap.lastEntry_eq_none.mpr hne⟩
      have hrows : ∀ r ∈ twoBuckets.totalRows ++ twoBuckets.pointList.flatMap Point.rows,
          r.series = plain "flock_requests_total" ∨ r.series = plain "flock_active_requests" := by decide +kernel
      rw [← sumOf_flatMap, (hnone _ fun r hr => hrows r (List.mem_append_right _ hr)).1, Range.total,
        (hnone _ fun r hr => hrows r (List.mem_append_left _ hr)).2]
      rfl
  disjoint := by
    intro r hr
    rw [List.mem_singleton.mp hr]
    exact not_isGauge_requests 5

theorem injOn_twoBuckets {rows : List Row} (hrows : ∀ r ∈ rows, r.series = plain "flock_requests_total" ∨
    r.series = plain "flock_active_requests") :
    Set.InjOn (rowKey byteOrder) {s | s ∈ twoBuckets.present (tailOf rows)} := by
  have hpresent : ∀ s ∈ twoBuckets.present (tailOf rows),
      s = plain "flock_requests_total" ∨ s = plain "flock_active_requests" := by
    intro s hs
    obtain ⟨r, hr, rfl⟩ := List.mem_map.mp hs
    have hrange : ∀ r ∈ twoBuckets.totalRows ++ (twoBuckets.latestRows ++ twoBuckets.pointList.flatMap Point.rows),
        r.series = plain "flock_requests_total" ∨ r.series = plain "flock_active_requests" := by decide +kernel
    rw [← List.append_assoc, ← List.append_assoc] at hr
    rcases List.mem_append.mp hr with hold | htail
    · exact hrange r (by rwa [← List.append_assoc])
    · exact hrows r htail
  have hne : rowKey byteOrder (plain "flock_requests_total") ≠ rowKey byteOrder (plain "flock_active_requests") := by
    decide +kernel
  intro s hs s' hs' heq
  rcases hpresent s hs with rfl | rfl
  · rcases hpresent s' hs' with rfl | rfl
    · rfl
    · exact absurd heq hne
  · rcases hpresent s' hs' with rfl | rfl
    · exact absurd heq.symm hne
    · rfl

theorem series_rebuilt_twoBuckets :
    CounterSeries twoBuckets (tailOf [requests 1]) (plain "flock_requests_total")
        (rangeSamples byteOrder twoBuckets (tailOf [requests 1])) ∧
      GaugeSeries twoBuckets (plain "flock_active_requests")
        (rangeSamples byteOrder twoBuckets (tailOf [requests 1])) := by
  have hfits : ∀ t ∈ twoBuckets.followed (tailOf [requests 1]), t.Fits twoBuckets := by
    rintro t ⟨⟩
    constructor
    · decide +kernel
    · intro r hr
      rw [List.mem_singleton.mp hr]
      exact not_isGauge_requests 1
  have hrebuilt := (series_rebuilt (injOn_twoBuckets (by decide +kernel)) consistent_twoBuckets hfits).2
  refine ⟨(hrebuilt _ (by decide +kernel)).1 (not_isGauge_requests 1), (hrebuilt _ (by decide +kernel)).2 ?_⟩
  exact isGauge_twoBuckets.mpr rfl

/-- **Not every tail will do**: with a negative one a counter goes down, and one of a gauge is shown beside it. -/
theorem not_series_rebuilt_stray : twoBuckets.Consistent ∧
    (Set.InjOn (rowKey byteOrder) {s | s ∈ twoBuckets.present (tailOf [requests (-1)])} ∧
      ¬ CounterSeries twoBuckets (tailOf [requests (-1)]) (plain "flock_requests_total")
        (rangeSamples byteOrder twoBuckets (tailOf [requests (-1)]))) ∧
    Set.InjOn (rowKey byteOrder) {s | s ∈ twoBuckets.present (tailOf [active 1])} ∧
      ¬ GaugeSeries twoBuckets (plain "flock_active_requests")
        (rangeSamples byteOrder twoBuckets (tailOf [active 1])) := by
  refine ⟨consistent_twoBuckets, ⟨injOn_twoBuckets (by decide +kernel), fun hcounter => ?_⟩,
    injOn_twoBuckets (by decide +kernel), fun hgauge => ?_⟩
  · have hdown : ¬ ((rangeSamples byteOrder twoBuckets (tailOf [requests (-1)])).map
        (Sample.value (plain "flock_requests_total"))).Pairwise (· ≤ ·) := by decide +kernel
    exact hdown hcounter.neverDecreases
  · have hshown : ((rangeSamples byteOrder twoBuckets (tailOf [active 1]))[3]?).map
        (Sample.values (plain "flock_active_requests")) = some [1, 2] := by decide +kernel
    obtain ⟨x, hx, hvalues⟩ := Option.map_eq_some_iff.mp hshown
    have hlatest := hgauge.latest 3 x (by decide) (by decide +kernel) hx
    rw [hvalues] at hlatest
    revert hlatest
    decide +kernel

end Flock.Dashboard
