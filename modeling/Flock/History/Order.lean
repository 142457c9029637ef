/-
# Flock.History.Order — the points of the index are in the order of their times.

`HistoryInner` is written on four paths: a boot builds it (`open` from the canonical store, `load` from the legacy
file), `append` adds a point at a clock that may have gone back, `reconfigure_retention` expires points at any
cutoff, and a compaction installs the diagnostics of its replay.  `LiveIndex` is the part of a `History` that these
read; its runs are all interleavings of the three that come after the boot, with any readings.

`rollup` finds a window by two binary searches.  They find what lies in the window because the points are in order.
-/
import Mathlib.Data.List.Sort
import Flock.History.Replayed
import Flock.History.Rollup
import Flock.Lib.BinarySearch
import Flock.Lib.Transition

namespace Flock.History

open Lib (Partitioned System partitionIndex)

variable {ν : Type}

/-! ## The legacy file

The lines of the legacy file can be in any order.  `load` sorts them by their times first, and then goes through them
once. -/

/-- `RawPoint`. -/
structure RawPoint where
  t : U64
  m : List Char
  boot : Option String
  capacity : Option CapacitySnapshot

/-- `LoadedRecord`. -/
inductive LoadedRecord where
  | boot (t : U64)
  | sample (point : RawPoint)

/-- `LoadedRecord::timestamp`. -/
def LoadedRecord.timestamp : LoadedRecord → U64
  | .boot t => t
  | .sample point => point.t

/-- What the loop of `load` carries. -/
structure Loading (ν : Type) where
  points : List (IndexedPoint ν) := []
  lastParsed : Option (ParsedSnapshot ν) := none
  lastSampleBoot : Option String := none
  diagnostics : HistoryDiagnostics

/-- The part of a `History` that the index depends on. -/
structure LiveIndex (ν : Type) where
  inner : HistoryInner ν
  days : U64
  bootId : String

section Operations

variable [F64 ν]

/-- One sample of the legacy file; one before the cutoff only counts. -/
def Loading.sample (cutoff : Option U64) (l : Loading ν) (point : RawPoint) : Loading ν :=
  let current : ParsedSnapshot ν := parseExposition point.m
  let explicitReset := l.lastParsed.isSome && point.boot != l.lastSampleBoot
  let legacyEmptyReset := !explicitReset && point.boot.isNone && l.lastSampleBoot.isNone &&
    (l.lastParsed.any fun previous => previous.counters.isEmpty) && !current.counters.isEmpty
  let normalized := normalize l.lastParsed current (explicitReset || legacyEmptyReset)
  let inferredReset := legacyEmptyReset || normalized.inferredReset
  { points :=
      if cutoff.all (· ≤ point.t) then
        l.points ++ [⟨point.t, normalized.deltas, normalized.gauges, point.capacity⟩]
      else l.points
    lastParsed := some current
    lastSampleBoot := point.boot
    diagnostics := { l.diagnostics with
      validSamples := l.diagnostics.validSamples + 1
      inferredResets := l.diagnostics.inferredResets + inferredReset.toNat
      skippedMetricLines := l.diagnostics.skippedMetricLines + current.skippedLines
      normalizedSeries :=
        l.diagnostics.normalizedSeries + (normalized.deltas.size + normalized.gauges.size) } }

/-- One record. -/
def Loading.record (cutoff : Option U64) (l : Loading ν) : LoadedRecord → Loading ν
  | .boot _ => l
  | .sample point => l.sample cutoff point

/-- `History::load` at `bootT`, from what each line of the legacy file decodes to. -/
def load (lines : List (Option LoadedRecord)) (days bootT : U64) (bootId : String) : LiveIndex ν :=
  let cutoff := retentionCutoff days bootT
  let records := (lines.filterMap id).insertionSort fun r r' => r.timestamp ≤ r'.timestamp
  let excluded := lines.countP Option.isNone
  let l := records.foldl (Loading.record cutoff) { diagnostics := { excludedRecords := excluded } }
  { inner :=
      { points := l.points
        revision := Fin.ofNat (2 ^ 64) l.diagnostics.validSamples
        availableFrom := l.points.head?.map IndexedPoint.t
        availableTo := l.points.getLast?.map IndexedPoint.t
        diagnostics := l.diagnostics
        lastParsed := l.lastParsed
        lastSampleBoot := l.lastSampleBoot }
    days := days
    bootId := bootId }

/-! ## The operations

Each operation reads a clock of its own.  A clock that has gone back is lifted to the time of the last point. -/

/-- The index after points were dropped or added. -/
def HistoryInner.withPoints (inner : HistoryInner ν) (points : List (IndexedPoint ν)) : HistoryInner ν :=
  { inner with
    points := points
    availableFrom := points.head?.map IndexedPoint.t
    availableTo := points.getLast?.map IndexedPoint.t }

/-- `History::append`, under the index lock; `canonicalLast` was read before it. -/
def LiveIndex.append (x : LiveIndex ν) (t : U64) (canonicalLast : Option U64) (snapshot : List Char)
    (capacity : CapacitySnapshot) : LiveIndex ν :=
  let current : ParsedSnapshot ν := parseExposition snapshot
  let t := (x.inner.availableTo.toList ++ canonicalLast.toList).foldl max t
  let explicitReset := x.inner.lastParsed.isSome && x.inner.lastSampleBoot != some x.bootId
  let normalized := normalize x.inner.lastParsed current explicitReset
  let diagnostics : HistoryDiagnostics := {
    inferredResets := normalized.inferredReset.toNat
    normalizedSeries := normalized.deltas.size + normalized.gauges.size
    skippedMetricLines := current.skippedLines
    validSamples := 1 }
  let kept := match retentionCutoff x.days t with
    | some cutoff => x.inner.points.filter fun point => cutoff ≤ point.t
    | none => x.inner.points
  let point : IndexedPoint ν := ⟨t, normalized.deltas, normalized.gauges, some capacity⟩
  { x with
    inner := { x.inner.withPoints (kept ++ [point]) with
      revision := x.inner.revision + 1
      diagnostics := x.inner.diagnostics.add diagnostics
      lastParsed := some current
      lastSampleBoot := some x.bootId
      recoveryEvents :=
        if x.inner.recoveryEventsComplete then x.inner.recoveryEvents ++ [⟨t, diagnostics⟩]
        else x.inner.recoveryEvents } }

/-- `History::reconfigure_retention`, without the compaction it asks for. -/
def LiveIndex.reconfigureRetention (x : LiveIndex ν) (days now : U64) : LiveIndex ν :=
  if days = 0 then { x with days := 0 }
  else
    let cutoff := satSub now (satMul days 86400)
    let points := x.inner.points.filter fun point => cutoff ≤ point.t
    let revision := if points.length < x.inner.points.length then x.inner.revision + 1 else x.inner.revision
    { x with
      inner := { x.inner.withPoints points with revision }
      days := days }

/-- `install_canonical_replay_if_unchanged`: the replay is indexed apart, for its diagnostics. -/
def LiveIndex.installReplay (x : LiveIndex ν) (replay : Replay ν) (expectedRevision : U64) (cutoff : Option U64) :
    LiveIndex ν :=
  if x.inner.revision ≠ expectedRevision then x
  else
    let (replay, _) := enrichCanonicalReplay replay {} replay.records cutoff
    { x with
      inner := { x.inner with
        diagnostics := replay.diagnostics
        recoveryGaps := replay.gaps
        recoveryEvents := replay.diagnosticEvents
        recoveryEventsComplete := true
        revision := x.inner.revision + 1 } }

/-- The part of an opened history. -/
def live [DecidableEq ν] (history : Flock.History ν) : LiveIndex ν := ⟨history.inner, history.days, history.bootId⟩

/-- What writes to the index of a running process. -/
inductive IndexEvent (ν : Type) where
  | append (t : U64) (canonicalLast : Option U64) (snapshot : List Char) (capacity : CapacitySnapshot)
  | reconfigureRetention (days now : U64)
  | installReplay (replay : Replay ν) (expectedRevision : U64) (cutoff : Option U64)

/-- One event. -/
def LiveIndex.act (x : LiveIndex ν) : IndexEvent ν → LiveIndex ν
  | .append t canonicalLast snapshot capacity => x.append t canonicalLast snapshot capacity
  | .reconfigureRetention days now => x.reconfigureRetention days now
  | .installReplay replay expectedRevision cutoff => x.installReplay replay expectedRevision cutoff

/-- A boot: `open` on any directory, or `load` of any legacy file. -/
inductive Booted [DecidableEq ν] (S : Serde ν) : LiveIndex ν → Prop
  | opened {disk : Option Bytes} {days timestamp : U64} {initialCapacity : CapacitySnapshot} {bootId : String}
      {history : Flock.History ν} {file : Bytes}
      (hopen : History.open S disk days timestamp initialCapacity bootId = .ok (history, file)) :
      Booted S (live history)
  | loaded (lines : List (Option LoadedRecord)) (days bootT : U64) (bootId : String) :
      Booted S (load lines days bootT bootId)

/-- Every order of the writes to one index. -/
def indexSystem [DecidableEq ν] (S : Serde ν) : System (LiveIndex ν) (IndexEvent ν) where
  init := Booted S
  step x e x' := x' = x.act e

/-- An `append` of an opened history is one of these. -/
theorem live_append [DecidableEq ν] (S : Serde ν) (history : Flock.History ν) (file : Bytes) (t : U64)
    (snapshot : List Char) (capacity : CapacitySnapshot) :
    live (history.append S file t snapshot capacity).1 =
      (live history).append t history.canonical.lastTimestamp snapshot capacity := rfl

/-! ## The order

Only `append` adds a point, at the end.  The others drop points from the front or leave them all. -/

/-- **`InOrder inner`** — the points are in the order of their times, and the first and the last are the ones that
are reported. -/
structure InOrder (inner : HistoryInner ν) : Prop where
  sorted : inner.points.Pairwise fun p q => p.t ≤ q.t
  availableFrom : inner.availableFrom = inner.points.head?.map IndexedPoint.t
  availableTo : inner.availableTo = inner.points.getLast?.map IndexedPoint.t

omit [F64 ν] in
/-- In order, no point is later than the last. -/
theorem InOrder.le_availableTo {inner : HistoryInner ν} (h : InOrder inner) {t : U64}
    (ht : ∀ last ∈ inner.availableTo, last ≤ t) : ∀ p ∈ inner.points, p.t ≤ t := by
  intro p hp
  obtain ⟨front, last, hsplit⟩ : ∃ front last, inner.points = front ++ [last] :=
    ⟨_, _, (List.dropLast_append_getLast (List.ne_nil_of_mem hp)).symm⟩
  have hlast : last.t ≤ t := by
    apply ht
    rw [h.availableTo, hsplit, List.getLast?_concat]
    rfl
  have hsorted := h.sorted
  rw [hsplit] at hp hsorted
  rcases List.mem_append.mp hp with hfront | hend
  · exact le_trans ((List.pairwise_append.mp hsorted).2.2 p hfront last (List.mem_singleton_self last)) hlast
  · rw [List.mem_singleton.mp hend]
    exact hlast

/-- The clamp never goes back. -/
theorem le_foldl_max (ts : List U64) (t : U64) : t ≤ ts.foldl max t ∧ ∀ s ∈ ts, s ≤ ts.foldl max t := by
  induction ts generalizing t with
  | nil => exact ⟨le_rfl, fun s hs => by cases hs⟩
  | cons s ts ih =>
      obtain ⟨hfirst, hrest⟩ := ih (max t s)
      refine ⟨(le_max_left t s).trans hfirst, fun r hr => ?_⟩
      rcases List.mem_cons.mp hr with rfl | hr
      · exact (le_max_right t r).trans hfirst
      · exact hrest r hr

/-- An append puts its point behind all others. -/
theorem inOrder_append {x : LiveIndex ν} (h : InOrder x.inner) (t : U64) (canonicalLast : Option U64)
    (snapshot : List Char) (capacity : CapacitySnapshot) :
    InOrder (x.append t canonicalLast snapshot capacity).inner := by
  -- the time the point gets is not before the last one
  obtain ⟨-, hclamp⟩ := le_foldl_max (x.inner.availableTo.toList ++ canonicalLast.toList) t
  have hle := h.le_availableTo fun last hlast =>
    hclamp last (List.mem_append_left _ (Option.mem_toList.mpr hlast))
  refine ⟨?_, rfl, rfl⟩
  show (List.Pairwise _ (_ ++ [_]))
  refine List.pairwise_append.mpr ⟨?_, List.pairwise_singleton _ _, ?_⟩
  · split
    · exact h.sorted.sublist List.filter_sublist
    · exact h.sorted
  · intro p hp q hq
    obtain rfl := List.mem_singleton.mp hq
    apply hle
    split at hp
    · exact List.mem_of_mem_filter hp
    · exact hp

omit [F64 ν] in
/-- What retention leaves is a part of the points, in their order. -/
theorem inOrder_reconfigureRetention {x : LiveIndex ν} (h : InOrder x.inner) (days now : U64) :
    InOrder (x.reconfigureRetention days now).inner := by
  unfold LiveIndex.reconfigureRetention
  split
  · exact h
  · exact ⟨h.sorted.sublist List.filter_sublist, rfl, rfl⟩

/-- The diagnostics of a replay are no points. -/
theorem inOrder_installReplay {x : LiveIndex ν} (h : InOrder x.inner) (replay : Replay ν) (expectedRevision : U64)
    (cutoff : Option U64) : InOrder (x.installReplay replay expectedRevision cutoff).inner := by
  unfold LiveIndex.installReplay
  split
  · exact h
  · exact ⟨h.sorted, h.availableFrom, h.availableTo⟩

/-! ## Boots

A boot fills an empty index, from either file. -/

/-- The points of the legacy file are among its sorted records. -/
theorem times_load (cutoff : Option U64) (records : List LoadedRecord) :
    ∀ l : Loading ν, ∃ ts : List U64, ts.Sublist (records.map LoadedRecord.timestamp) ∧
      (records.foldl (Loading.record cutoff) l).points.map IndexedPoint.t = l.points.map IndexedPoint.t ++ ts := by
  induction records with
  | nil => exact fun l => ⟨[], List.Sublist.refl _, by simp⟩
  | cons r rest ih =>
      intro l
      obtain ⟨ts, hsub, hpoints⟩ := ih (l.record cutoff r)
      rw [List.foldl_cons, hpoints, List.map_cons]
      cases r with
      | boot t => exact ⟨ts, hsub.cons _, rfl⟩
      | sample point =>
          cases hkept : cutoff.all (· ≤ point.t) with
          | true =>
              refine ⟨point.t :: ts, hsub.cons_cons _, ?_⟩
              simp [Loading.record, Loading.sample, hkept]
          | false =>
              refine ⟨ts, hsub.cons _, ?_⟩
              simp [Loading.record, Loading.sample, hkept]

theorem inOrder_load (lines : List (Option LoadedRecord)) (days bootT : U64) (bootId : String) :
    InOrder (load lines days bootT bootId : LiveIndex ν).inner := by
  refine ⟨?_, rfl, rfl⟩
  have hsorted : ((lines.filterMap id).insertionSort fun r r' => r.timestamp ≤ r'.timestamp).Pairwise
      fun r r' => r.timestamp ≤ r'.timestamp := by
    have htotal : Std.Total fun r r' : LoadedRecord => r.timestamp ≤ r'.timestamp :=
      ⟨fun r r' => le_total r.timestamp r'.timestamp⟩
    have htrans : IsTrans LoadedRecord fun r r' => r.timestamp ≤ r'.timestamp :=
      ⟨fun _ _ _ => le_trans⟩
    exact List.pairwise_insertionSort _ _
  obtain ⟨ts, hsub, hpoints⟩ := times_load (ν := ν) (retentionCutoff days bootT)
    ((lines.filterMap id).insertionSort fun r r' => r.timestamp ≤ r'.timestamp)
    { diagnostics := { excludedRecords := lines.countP Option.isNone } }
  have htimes : (load lines days bootT bootId : LiveIndex ν).inner.points.map IndexedPoint.t = ts := hpoints
  refine List.Pairwise.of_map IndexedPoint.t (fun _ _ hle => hle) ?_
  rw [htimes]
  exact (List.pairwise_map.mpr hsorted).sublist hsub

omit [F64 ν] in
/-- Observations have the times of their records. -/
theorem times_observations (rs : List (Record ν)) : ∀ f : Fill ν,
    ((observations f rs).map Observation.timestamp).Sublist (rs.map Record.timestamp) := by
  induction rs with
  | nil => exact fun f => List.Sublist.refl _
  | cons r rest ih =>
      intro f
      rw [observations, List.map_append, List.map_cons]
      have hhead : ((f.observe r).toList.map Observation.timestamp).Sublist [r.timestamp] := by
        cases r with
        | boot b => exact List.nil_sublist _
        | sample s => exact List.Sublist.refl _
        | checkpoint c =>
            unfold Fill.observe
            dsimp only
            split
            · cases f.state with
              | none => exact List.nil_sublist _
              | some state => exact List.Sublist.refl _
            · exact List.nil_sublist _
      exact hhead.append (ih _)

/-- The times of the points are some of the times of the observations. -/
theorem times_pointsAfter (cutoff : Option U64) (os : List (Observation ν)) : ∀ previous,
    ((pointsAfter cutoff previous os).map IndexedPoint.t).Sublist (os.map Observation.timestamp) := by
  induction os with
  | nil => exact fun previous => List.Sublist.refl _
  | cons o rest ih =>
      intro previous
      rw [pointsAfter, List.map_append, List.map_cons]
      have hhead : ((if cutoff.all (· ≤ o.timestamp) then [o.point previous] else []).map IndexedPoint.t).Sublist
          [o.timestamp] := by
        split
        · exact List.Sublist.refl _
        · exact List.nil_sublist _
      exact hhead.append (ih _)

variable [DecidableEq ν] {S : Serde ν}

omit [DecidableEq ν] in
/-- A store that was opened hands out records in order, up to the new boot. -/
theorem HistoryStore.open_chronological {disk : Option Bytes} {timestamp : U64} {capacity : Capacity}
    {bootId : String} {store : HistoryStore ν} {file : Bytes}
    (h : HistoryStore.open S disk timestamp capacity bootId = .ok (store, file)) :
    ∃ rs boot, store.replay.records = rs ++ [.boot boot] ∧ Chronological rs := by
  unfold HistoryStore.open at h
  dsimp only at h
  split at h
  · split at h
    · cases h
    · rename_i replay hvalid
      split at h
      · split at h
        · cases h
        · cases h
          exact ⟨replay.records, _, congrArg Prod.fst (Replay.log_closeOpenGap _ timestamp),
            (validateCanonical_epochs hvalid).2.1⟩
      · cases h
  · split at h
    · cases h
    · cases h
      exact ⟨[], _, rfl, List.Pairwise.nil⟩

theorem inOrder_open {disk : Option Bytes} {days timestamp : U64} {initialCapacity : CapacitySnapshot}
    {bootId : String} {history : Flock.History ν} {file : Bytes}
    (h : History.open S disk days timestamp initialCapacity bootId = .ok (history, file)) :
    InOrder history.inner := by
  unfold History.open at h
  split at h
  · cases h
  · rename_i canonical written hstore
    cases h
    obtain ⟨rs, boot, hrecords, hchron⟩ := HistoryStore.open_chronological hstore
    obtain ⟨-, hpoints⟩ := enrichCanonicalReplay_after canonical.replay canonical.replay.records
      (retentionCutoff days timestamp)
    refine ⟨?_, rfl, rfl⟩
    show (enrichCanonicalReplay canonical.replay {} canonical.replay.records
      (retentionCutoff days timestamp)).2.points.Pairwise _
    -- the boot at the end is no observation
    have hobservations : observations {} canonical.replay.records = observations {} rs := by
      rw [hrecords, observations_append]
      simp [observations, Fill.observe]
    rw [hpoints, hobservations]
    refine List.Pairwise.of_map IndexedPoint.t (fun _ _ hle => hle) ?_
    have htimes : (rs.map Record.timestamp).Pairwise (· ≤ ·) := List.pairwise_map.mpr hchron
    exact htimes.sublist ((times_pointsAfter _ _ none).trans (times_observations rs {}))

/-! ## Windows

Of points in order the two searches find where the window begins and where it ends. -/

omit [F64 ν] [DecidableEq ν] in
/-- A time cuts points in order in two. -/
theorem partitioned_time {points : List (IndexedPoint ν)} (h : points.Pairwise fun p q => p.t ≤ q.t) (time : U64) :
    Partitioned (fun point => decide (point.t ≤ time)) points :=
  h.imp fun hle hbefore => decide_eq_true (hle.trans (of_decide_eq_true hbefore))

/-- What `partition_point` returns for a time. -/
def searched (points : List (IndexedPoint ν)) (time : U64) : ℕ :=
  partitionIndex (fun point => decide (point.t ≤ time)) points

/-- The points `rollup` adds up: none where the window is empty, else those between two searches. -/
def HistoryInner.visible (inner : HistoryInner ν) (start stop : U64) : List (IndexedPoint ν) :=
  if stop ≤ start then [] else (inner.points.take (searched inner.points stop)).drop (searched inner.points start)

omit [F64 ν] [DecidableEq ν] in
/-- Between the searches for two times lie the points after the first and up to the second. -/
theorem between_searches {points : List (IndexedPoint ν)} (h : points.Pairwise fun p q => p.t ≤ q.t)
    {start stop : U64} (hle : start ≤ stop) :
    (points.take (searched points stop)).drop (searched points start) =
      points.filter fun point => decide (start < point.t ∧ point.t ≤ stop) := by
  have hsub : ∀ point : IndexedPoint ν, decide (point.t ≤ start) = true → decide (point.t ≤ stop) = true :=
    fun point hstart => decide_eq_true ((of_decide_eq_true hstart).trans hle)
  rw [searched, searched, (partitioned_time h start).window_eq (partitioned_time h stop) hsub]
  congr 1
  funext point
  rw [Bool.decide_and, ← decide_not, decide_eq_decide.mpr not_le]

omit [F64 ν] [DecidableEq ν] in
theorem InOrder.visible_eq {inner : HistoryInner ν} (h : InOrder inner) (start stop : U64) :
    inner.visible start stop = inner.points.filter fun point => decide (start < point.t ∧ point.t ≤ stop) := by
  unfold HistoryInner.visible
  split
  · rename_i hempty
    symm
    apply List.filter_eq_nil_iff.mpr
    intro point _ hin
    obtain ⟨hafter, hbefore⟩ := of_decide_eq_true hin
    exact absurd (hbefore.trans hempty) (not_le.mpr hafter)
  · rename_i hwindow
    exact between_searches h.sorted (le_of_not_ge hwindow)

omit [F64 ν] [DecidableEq ν] in
/-- `rollup` is written with the number of points up to a time; on points in order the search finds it. -/
theorem searched_eq_partitionPoint {points : List (IndexedPoint ν)} (h : points.Pairwise fun p q => p.t ≤ q.t)
    (time : U64) : searched points time = partitionPoint points time :=
  (partitioned_time h time).partitionIndex_eq

omit [F64 ν] [DecidableEq ν] in
/-- The search of the source is the border. -/
theorem InOrder.searched_eq {inner : HistoryInner ν} (h : InOrder inner) (time : U64) :
    searched inner.points time = partitionPoint inner.points time :=
  searched_eq_partitionPoint h.sorted time

/-- **The order invariant.**  In every state of every process, from `open` or `load`, through appends at any
readings, changes of the retention and compaction replays: the points are in the order of their times, the times
reported are those of the first and the last (none exactly where there is no point), and `rollup` sees, for any
window, exactly the points after its start and up to its end. -/
theorem index_in_order {x : LiveIndex ν} (h : (indexSystem S).Reachable x) :
    (x.inner.points.Pairwise fun p q => p.t ≤ q.t) ∧
      x.inner.availableFrom = x.inner.points.head?.map IndexedPoint.t ∧
      x.inner.availableTo = x.inner.points.getLast?.map IndexedPoint.t ∧
      (x.inner.availableFrom = none ↔ x.inner.points = []) ∧
      (x.inner.availableTo = none ↔ x.inner.points = []) ∧
      (∀ time, searched x.inner.points time = partitionPoint x.inner.points time) ∧
      ∀ start stop, x.inner.visible start stop =
        x.inner.points.filter fun point => decide (start < point.t ∧ point.t ≤ stop) := by
  have hinner : InOrder x.inner := by
    refine System.Reachable.invariant (I := fun x => InOrder x.inner) ?_ ?_ h
    · rintro x (hopen | ⟨lines, days, bootT, bootId⟩)
      · exact inOrder_open hopen
      · exact inOrder_load lines days bootT bootId
    · rintro x e x' hbefore rfl
      cases e with
      | append t canonicalLast snapshot capacity => exact inOrder_append hbefore t canonicalLast snapshot capacity
      | reconfigureRetention days now => exact inOrder_reconfigureRetention hbefore days now
      | installReplay replay expectedRevision cutoff =>
          exact inOrder_installReplay hbefore replay expectedRevision cutoff
  refine ⟨hinner.sorted, hinner.availableFrom, hinner.availableTo, ?_, ?_, hinner.searched_eq, hinner.visible_eq⟩
  · rw [hinner.availableFrom, Option.map_eq_none_iff, List.head?_eq_none_iff]
  · rw [hinner.availableTo, Option.map_eq_none_iff, List.getLast?_eq_none_iff]

end Operations

/-- A process that appends at 100 and then, its clock set back, at 50. -/
def setBack : LiveIndex ℚ :=
  ((load [] 0 100 "a").append 100 none [] ⟨1, [40], 40⟩).append 50 none [] ⟨1, [40], 40⟩

/-- The clock is set back by the run. -/
theorem setBack_reachable : (indexSystem json).Reachable setBack :=
  ⟨_, [.append 100 none [] ⟨1, [40], 40⟩, .append 50 none [] ⟨1, [40], 40⟩], .loaded [] 0 100 "a",
    .snoc (.single rfl) rfl⟩

/-- Both points are at 100. -/
theorem index_in_order_setBack : setBack.inner.points.map IndexedPoint.t = [100, 100] ∧
    setBack.inner.visible 99 100 =
      setBack.inner.points.filter fun point => decide (99 < point.t ∧ point.t ≤ 100) :=
  ⟨by decide, (index_in_order setBack_reachable).2.2.2.2.2.2 99 100⟩

end Flock.History
