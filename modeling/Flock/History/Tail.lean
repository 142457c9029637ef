/-
# Flock.History.Tail — the live tail goes on where the history ends.

`current` answers what was counted since the last sample.  The dashboard adds that tail to the totals of a range it
fetched before, or after, if both name the same revision of the history.  A revision stands for the points and for the
sample the next deltas are taken from: every call that changes one of them changes it.

Values are exact rationals.
-/
import Flock.History.Windows

namespace Flock.History

open Lib (System)

variable {ν : Type}

/-! ## `current` -/

/-- `Tail`. -/
structure Tail (ν : Type) where
  baseHistoryRevision : U64
  start : Option U64
  stop : U64
  totals : List (MetricValue ν)

/-- `CurrentMetrics`. -/
structure CurrentMetrics (ν : Type) where
  availableFrom : Option U64
  availableTo : Option U64
  metrics : List (MetricValue ν)
  tail : Tail ν

/-- `History::current`, under the index lock; `rendered` is what `render` returns. -/
def LiveIndex.current [F64 ν] (x : LiveIndex ν) (t : U64) (rendered : List Char) : CurrentMetrics ν :=
  let current : ParsedSnapshot ν := parseExposition rendered
  let reset := x.inner.lastParsed.isSome && x.inner.lastSampleBoot != some x.bootId
  let normalized := normalize x.inner.lastParsed current reset
  { availableFrom := x.inner.availableFrom
    availableTo := x.inner.availableTo
    metrics := metricValues (extend current.counters current.gauges)
    tail := ⟨x.inner.revision, x.inner.availableTo, t, metricValues normalized.deltas⟩ }

/-- The time `append` gives to a sample: never before the last one. -/
def LiveIndex.appendTime (x : LiveIndex ν) (t : U64) (canonicalLast : Option U64) : U64 :=
  (x.inner.availableTo.toList ++ canonicalLast.toList).foldl max t

/-! ## What a revision stands for -/

/-- Two states have the same points, and take the next deltas from the same sample. -/
structure SameBase (x y : LiveIndex ν) : Prop where
  points : x.inner.points = y.inner.points
  availableTo : x.inner.availableTo = y.inner.availableTo
  lastParsed : x.inner.lastParsed = y.inner.lastParsed
  lastSampleBoot : x.inner.lastSampleBoot = y.inner.lastSampleBoot
  bootId : x.bootId = y.bootId

theorem SameBase.refl (x : LiveIndex ν) : SameBase x x := ⟨rfl, rfl, rfl, rfl, rfl⟩

theorem SameBase.symm {x y : LiveIndex ν} (h : SameBase x y) : SameBase y x :=
  ⟨h.points.symm, h.availableTo.symm, h.lastParsed.symm, h.lastSampleBoot.symm, h.bootId.symm⟩

theorem SameBase.trans {x y z : LiveIndex ν} (h : SameBase x y) (h' : SameBase y z) : SameBase x z :=
  ⟨h.points.trans h'.points, h.availableTo.trans h'.availableTo, h.lastParsed.trans h'.lastParsed,
    h.lastSampleBoot.trans h'.lastSampleBoot, h.bootId.trans h'.bootId⟩

/-- **`Revised x y`** — the revision moved on, or the base is as it was. -/
def Revised (x y : LiveIndex ν) : Prop :=
  y.inner.revision = x.inner.revision + 1 ∨ y.inner.revision = x.inner.revision ∧ SameBase x y

theorem revised_reconfigureRetention {x : LiveIndex ν}
    (h : x.inner.availableTo = x.inner.points.getLast?.map IndexedPoint.t) (days now : U64) :
    Revised x (x.reconfigureRetention days now) := by
  unfold LiveIndex.reconfigureRetention
  split
  · exact .inr ⟨rfl, rfl, rfl, rfl, rfl, rfl⟩
  · by_cases hdropped : (x.inner.points.filter fun point => satSub now (satMul days 86400) ≤ point.t).length <
        x.inner.points.length
    · exact .inl (if_pos hdropped)
    · -- nothing was dropped
      have hsame : x.inner.points.filter (fun point => satSub now (satMul days 86400) ≤ point.t) = x.inner.points :=
        List.filter_sublist.eq_of_length_le (not_lt.mp hdropped)
      refine .inr ⟨if_neg hdropped, hsame.symm, ?_, rfl, rfl, rfl⟩
      show x.inner.availableTo = Option.map _ (List.getLast? (List.filter _ _))
      rw [hsame]
      exact h

theorem revised_installReplay [F64 ν] (x : LiveIndex ν) (replay : Replay ν) (expectedRevision : U64)
    (cutoff : Option U64) : Revised x (x.installReplay replay expectedRevision cutoff) := by
  unfold LiveIndex.installReplay
  split
  · exact .inr ⟨rfl, SameBase.refl x⟩
  · exact .inl rfl

/-- **One call** moves the revision on, or leaves the base as it was. -/
theorem revised_act [F64 ν] {x : LiveIndex ν} (h : x.inner.availableTo = x.inner.points.getLast?.map IndexedPoint.t)
    (e : IndexEvent ν) : Revised x (x.act e) := by
  cases e with
  | append t canonicalLast snapshot capacity => exact .inl rfl
  | reconfigureRetention days now => exact revised_reconfigureRetention h days now
  | installReplay replay expectedRevision cutoff => exact revised_installReplay x replay expectedRevision cutoff

section Runs

variable [F64 ν] [DecidableEq ν] {S : Serde ν} {x y : LiveIndex ν}

/-- The revision has a next one. -/
def RevisionLeft (x : LiveIndex ν) (_ : IndexEvent ν) : Prop := x.inner.revision.val + 1 < 2 ^ 64

theorem inOrder_of_reachable (h : (indexSystem S).Reachable x) : InOrder x.inner := by
  obtain ⟨hsorted, hfrom, hto, -⟩ := index_in_order h
  exact ⟨hsorted, hfrom, hto⟩

theorem Run.unrestricted {es : List (IndexEvent ν)} (h : ((indexSystem S).restrict RevisionLeft).Run x es y) :
    (indexSystem S).Run x es y := by
  induction h with
  | nil => exact .nil _
  | snoc _ hstep ih => exact .snoc ih hstep.1

/-- **A run that comes back to a revision** has never left it, and the base is the same. -/
theorem sameBase_of_revision (hreach : (indexSystem S).Reachable x) {es : List (IndexEvent ν)}
    (hrun : ((indexSystem S).restrict RevisionLeft).Run x es y) (hrevision : x.inner.revision = y.inner.revision) :
    SameBase x y := by
  let I : LiveIndex ν → Prop := fun z => (indexSystem S).Reachable z ∧
    x.inner.revision.val ≤ z.inner.revision.val ∧ (x.inner.revision = z.inner.revision → SameBase x z)
  have hkeep : ∀ {z e z'}, I z → ((indexSystem S).restrict RevisionLeft).step z e z' → I z' := by
    rintro z e z' ⟨hz, hle, hsame⟩ ⟨hstep, hleft⟩
    have hz' := hz.run (.single hstep)
    obtain rfl : z' = z.act e := hstep
    refine ⟨hz', ?_⟩
    rcases revised_act (inOrder_of_reachable hz).availableTo e with hnext | ⟨heq, hbase⟩
    · have hval : (z.act e).inner.revision.val = z.inner.revision.val + 1 := by
        rw [hnext]
        exact Nat.mod_eq_of_lt hleft
      refine ⟨by omega, fun hback => ?_⟩
      rw [← hback] at hval
      omega
    · rw [heq]
      exact ⟨hle, fun hback => (hsame hback).trans hbase⟩
  have hend : I y := hrun.preserves hkeep ⟨hreach, le_refl _, fun _ => SameBase.refl x⟩
  exact hend.2.2 hrevision

end Runs

/-! ## The tail and the totals -/

variable {S : Serde ℚ} {r c : LiveIndex ℚ}

/-- **`TailJoins`** — the total of a range read at `r` and the tail read at `c` add up to the total of the same
range, extended to the new point, after what `c` rendered is appended there. -/
def TailJoins (r c : LiveIndex ℚ) (start stop : U64) (points points' : ℕ) (t : U64) (canonicalLast : Option U64)
    (rendered : List Char) (capacity : CapacitySnapshot) (key : MetricKey) : Prop :=
  seriesTotal key (rollup r.inner start stop points).data.totals +
      seriesTotal key (c.current t rendered).tail.totals =
    seriesTotal key (rollup (c.append t canonicalLast rendered capacity).inner start
      (max stop (c.appendTime t canonicalLast)) points').data.totals

/-- Without a retention, a sample is added to the points; its deltas are the tail. -/
theorem append_points (hdays : c.days = 0) (t : U64) (canonicalLast : Option U64) (rendered : List Char)
    (capacity : CapacitySnapshot) : ∃ p : IndexedPoint ℚ,
    (c.append t canonicalLast rendered capacity).inner.points = c.inner.points ++ [p] ∧
      p.t = c.appendTime t canonicalLast ∧
      ∀ key, seriesValue key p.deltas = seriesTotal key (c.current t rendered).tail.totals := by
  let normalized : NormalizedMetrics ℚ := normalize c.inner.lastParsed (parseExposition rendered)
    (c.inner.lastParsed.isSome && c.inner.lastSampleBoot != some c.bootId)
  refine ⟨⟨c.appendTime t canonicalLast, normalized.deltas, normalized.gauges, some capacity⟩, ?_, rfl,
    fun key => (seriesTotal_metricValues key normalized.deltas).symm⟩
  have hkeep : retentionCutoff c.days (c.appendTime t canonicalLast) = none := by
    rw [hdays]
    rfl
  unfold LiveIndex.appendTime at hkeep
  simp only [LiveIndex.append, HistoryInner.withPoints, hkeep]
  rfl

/-- From the same base, the two join, if the new point is in the extended range. -/
theorem SameBase.tailJoins (h : SameBase r c) (hr : InOrder r.inner) (hc : InOrder c.inner) (hdays : c.days = 0)
    {start stop : U64} (hstop : ∀ last ∈ r.inner.availableTo, last ≤ stop) {t : U64} {canonicalLast : Option U64}
    (hstart : start < c.appendTime t canonicalLast) (points points' : ℕ) (rendered : List Char)
    (capacity : CapacitySnapshot) (key : MetricKey) :
    TailJoins r c start stop points points' t canonicalLast rendered capacity key := by
  obtain ⟨p, hpoints, htime, hdeltas⟩ := append_points hdays t canonicalLast rendered capacity
  have hsorted := (inOrder_append hc t canonicalLast rendered capacity).sorted
  unfold TailJoins
  rw [seriesTotal_rollup hr.sorted, seriesTotal_rollup hsorted, hpoints, List.filter_append, List.map_append,
    List.sum_append, ← hdeltas key, ← h.points]
  have hnew : ([p].filter fun q => decide (start < q.t ∧ q.t ≤ max stop (c.appendTime t canonicalLast))) = [p] := by
    apply List.filter_eq_self.mpr
    intro q hq
    rw [List.mem_singleton.mp hq, decide_eq_true_eq, htime]
    exact ⟨hstart, le_max_right _ _⟩
  have hold : (r.inner.points.filter fun q => decide (start < q.t ∧ q.t ≤ max stop (c.appendTime t canonicalLast))) =
      r.inner.points.filter fun q => decide (start < q.t ∧ q.t ≤ stop) := by
    apply List.filter_congr
    intro q hq
    have hle := hr.le_availableTo hstop q hq
    exact decide_eq_decide.mpr ⟨fun hin => ⟨hin.1, hle⟩, fun hin => ⟨hin.1, hle.trans (le_max_left _ _)⟩⟩
  rw [hnew, hold, List.map_singleton, List.sum_singleton]

/-- **History and live tail join without gap or overlap.**  Two reads, a rollup and a tail in either order, with any
calls between them that leave the revision a next one: if both report the same revision, the range reaches the last
point and starts before the new one, and no retention is set, then for every series the two totals add up to what
the range, extended to the new point, would report had the rendered text been appended there. -/
theorem tail_joins {x y : LiveIndex ℚ} (hreach : (indexSystem S).Reachable x) {es : List (IndexEvent ℚ)}
    (hrun : ((indexSystem S).restrict RevisionLeft).Run x es y) (hreads : r = x ∧ c = y ∨ r = y ∧ c = x)
    {start stop t : U64} {points : ℕ} {rendered : List Char}
    (hrevision : (rollup r.inner start stop points).data.historyRevision =
      (c.current t rendered).tail.baseHistoryRevision)
    (hstop : ∀ last ∈ (rollup r.inner start stop points).data.availableTo, last ≤ stop) (hdays : c.days = 0)
    {canonicalLast : Option U64} (hstart : start < c.appendTime t canonicalLast) (points' : ℕ)
    (capacity : CapacitySnapshot) (key : MetricKey) :
    TailJoins r c start stop points points' t canonicalLast rendered capacity key := by
  have hreach' := hreach.run (Run.unrestricted hrun)
  rw [historyRevision_rollup] at hrevision
  rw [availableTo_rollup] at hstop
  rcases hreads with ⟨rfl, rfl⟩ | ⟨rfl, rfl⟩
  · exact (sameBase_of_revision hreach hrun hrevision).tailJoins (inOrder_of_reachable hreach)
      (inOrder_of_reachable hreach') hdays hstop hstart points points' rendered capacity key
  · exact (sameBase_of_revision hreach hrun hrevision.symm).symm.tailJoins (inOrder_of_reachable hreach')
      (inOrder_of_reachable hreach) hdays hstop hstart points points' rendered capacity key

/-- A history with one empty sample, at 100. -/
def onePoint : LiveIndex ℚ := (load [] 0 100 "a" : LiveIndex ℚ).append 100 none [] ⟨1, [40], 40⟩

theorem onePoint_reachable : (indexSystem json).Reachable onePoint :=
  ⟨_, [.append 100 none [] ⟨1, [40], 40⟩], .loaded [] 0 100 "a", .single rfl⟩

theorem availableTo_onePoint {start stop : U64} {points : ℕ} {last : U64}
    (h : last ∈ (rollup onePoint.inner start stop points).data.availableTo) : last = 100 := by
  rw [availableTo_rollup] at h
  exact (Option.some.inj h).symm

/-- A minute later, a range that starts before it. -/
theorem tail_joins_onePoint : TailJoins onePoint onePoint 50 100 2 2 160 none "flock_requests_total 5".toList
    ⟨1, [40], 40⟩ ⟨"flock_requests_total", ∅⟩ :=
  tail_joins onePoint_reachable (.nil _) (.inl ⟨rfl, rfl⟩) rfl
    (fun _ hlast => (availableTo_onePoint hlast).le) rfl (by decide +kernel) 2 _ _

/-- A range that starts at 100 does not hold a sample added in the same second, yet the tail counts it. -/
theorem not_tail_joins_onePoint : (indexSystem json).Reachable onePoint ∧ onePoint.days = 0 ∧
    (rollup onePoint.inner 100 160 2).data.historyRevision =
      (onePoint.current 100 "flock_requests_total 5".toList).tail.baseHistoryRevision ∧
    (∀ last ∈ (rollup onePoint.inner 100 160 2).data.availableTo, last ≤ 160) ∧
    ¬ TailJoins onePoint onePoint 100 160 2 2 100 none "flock_requests_total 5".toList ⟨1, [40], 40⟩
      ⟨"flock_requests_total", ∅⟩ := by
  refine ⟨onePoint_reachable, rfl, rfl, ?_, ?_⟩
  · intro last hlast
    rw [availableTo_onePoint hlast]
    decide
  unfold TailJoins
  decide +kernel

end Flock.History
