/-
# Flock.History.Index — counter normalisation and the in-memory index.

The index holds one point for each observation: the deltas of its counters since the observation before
it, its gauges and its capacity.  It is filled on two paths, `append` (from the text just scraped) and
`enrich_canonical_replay` (from the records of the file, a checkpoint standing for the state of the last
sample).  Both are folds of one step over a list of OBSERVATIONS, and what the points are is a function
of that list: `pointsAfter`.
-/
import Mathlib.Order.Fin.Basic
import Flock.Lib.TreeMap
import Flock.History.Codec

namespace Flock.History

open Std (ExtTreeMap)

variable {ν : Type}

/-! ## Records of the index -/

/-- `CapacitySnapshot`. -/
structure CapacitySnapshot where
  enabledLanes : U64
  rpms : List U64
  capacityRpm : U64
  deriving DecidableEq, Repr

/-- `canonical_capacity`. -/
def canonicalCapacity (c : CapacitySnapshot) : Capacity := ⟨c.capacityRpm, c.enabledLanes, c.rpms⟩

/-- The snapshot a stored capacity is indexed as. -/
def Capacity.snapshot (c : Capacity) : CapacitySnapshot := ⟨c.enabledKeys, c.keyRpms, c.capacityRpm⟩

@[simp] theorem snapshot_canonicalCapacity (c : CapacitySnapshot) :
    (canonicalCapacity c).snapshot = c := rfl

/-- `HistoryDiagnostics`. -/
structure HistoryDiagnostics where
  excludedEpochs : ℕ := 0
  excludedRecords : ℕ := 0
  inferredResets : ℕ := 0
  normalizedSeries : ℕ := 0
  skippedMetricLines : ℕ := 0
  validCheckpoints : ℕ := 0
  validSamples : ℕ := 0
  deriving DecidableEq, Repr

/-- `add_diagnostics`. -/
def HistoryDiagnostics.add (total delta : HistoryDiagnostics) : HistoryDiagnostics where
  excludedEpochs := total.excludedEpochs + delta.excludedEpochs
  excludedRecords := total.excludedRecords + delta.excludedRecords
  inferredResets := total.inferredResets + delta.inferredResets
  normalizedSeries := total.normalizedSeries + delta.normalizedSeries
  skippedMetricLines := total.skippedMetricLines + delta.skippedMetricLines
  validCheckpoints := total.validCheckpoints + delta.validCheckpoints
  validSamples := total.validSamples + delta.validSamples

/-- `DiagnosticEvent`. -/
structure DiagnosticEvent where
  time : U64
  diagnostics : HistoryDiagnostics
  deriving DecidableEq, Repr

/-- `RecoveryGap`. -/
structure RecoveryGap where
  start : U64
  stop : U64
  deriving DecidableEq, Repr

/-- `store::Replay`. -/
structure Replay (ν : Type) where
  records : List (Record ν) := []
  diagnostics : HistoryDiagnostics := {}
  diagnosticEvents : List DiagnosticEvent := []
  gaps : List RecoveryGap := []
  orderingBound : Option U64 := none
  needsSeparator : Bool := false

/-- `IndexedPoint`. -/
structure IndexedPoint (ν : Type) where
  t : U64
  deltas : SeriesMap ν
  gauges : SeriesMap ν
  capacity : Option CapacitySnapshot
  deriving DecidableEq

/-- `HistoryInner`. -/
structure HistoryInner (ν : Type) where
  points : List (IndexedPoint ν) := []
  revision : U64 := 0
  availableFrom : Option U64 := none
  availableTo : Option U64 := none
  diagnostics : HistoryDiagnostics := {}
  lastParsed : Option (ParsedSnapshot ν) := none
  lastSampleBoot : Option String := none
  recoveryGaps : List RecoveryGap := []
  recoveryEvents : List DiagnosticEvent := []
  recoveryEventsComplete : Bool := false

/-! ## Normalisation -/

/-- `NormalizedMetrics`. -/
structure NormalizedMetrics (ν : Type) where
  deltas : SeriesMap ν
  gauges : SeriesMap ν
  inferredReset : Bool

section Normalize

variable [F64 ν]

/-- The delta of one counter against the snapshot before: rounding just below zero is no change, and a
counter that was not there counts from zero. -/
def counterDelta (previous : Option (ParsedSnapshot ν)) (key : MetricKey) (current : ν) : ν :=
  match previous.bind fun snapshot => snapshot.counters[key]? with
  | none => current
  | some before =>
      let delta := F64.sub current before
      if F64.le F64.negEpsilon delta && F64.lt delta F64.zero then F64.zero else delta

/-- Some counter went down. -/
def wentDown (previous current : ParsedSnapshot ν) : Bool :=
  current.counters.any fun key value =>
    match previous.counters[key]? with
    | some before => F64.lt (F64.sub value before) F64.negEpsilon
    | none => false

/-- `normalize`. -/
def normalize (previous : Option (ParsedSnapshot ν)) (current : ParsedSnapshot ν) (reset : Bool) :
    NormalizedMetrics ν :=
  let inferredReset := !reset && previous.any fun previous => wentDown previous current
  { deltas := current.counters.map fun key value =>
      if reset || inferredReset then value else counterDelta previous key value
    gauges := current.gauges
    inferredReset := inferredReset }

end Normalize

/-! ## States -/

/-- The entries of one kind, in key order. -/
def kindEntries (kind : StateKind) (m : SeriesMap ν) : List (StateEntry ν) :=
  m.toList.map fun e => ⟨kind, e.1.metric, e.1.labels, e.2⟩

/-- `canonical_state`: the counters, then the gauges. -/
def canonicalState (snapshot : ParsedSnapshot ν) : List (StateEntry ν) :=
  kindEntries .counter snapshot.counters ++ kindEntries .gauge snapshot.gauges

/-- Change the series of one kind. -/
def ParsedSnapshot.over (parsed : ParsedSnapshot ν) (kind : StateKind)
    (f : SeriesMap ν → SeriesMap ν) : ParsedSnapshot ν :=
  match kind with
  | .counter => { parsed with counters := f parsed.counters }
  | .gauge => { parsed with gauges := f parsed.gauges }

/-- One round of `parsed_canonical_state`. -/
def ParsedSnapshot.insertEntry (parsed : ParsedSnapshot ν) (entry : StateEntry ν) : ParsedSnapshot ν :=
  parsed.over entry.kind fun m => m.insert ⟨entry.metric, entry.labels⟩ entry.value

/-- `parsed_canonical_state`. -/
def parsedCanonicalState (state : List (StateEntry ν)) : ParsedSnapshot ν :=
  state.foldl ParsedSnapshot.insertEntry {}

/-- What is indexed: the arguments of `ingest_canonical_sample`. -/
structure Observation (ν : Type) where
  timestamp : U64
  bootId : String
  capacity : Capacity
  current : ParsedSnapshot ν

/-! ## The observations of a list of records -/

/-- What a record list carries from record to record: the boot and the state a checkpoint repeats. -/
structure Fill (ν : Type) where
  boot : Option String := none
  state : Option (List (StateEntry ν)) := none

/-- What the next record is read against. -/
def Fill.next (f : Fill ν) : Record ν → Fill ν
  | .boot b => ⟨some b.bootId, none⟩
  | .sample s => ⟨some s.bootId, some s.state⟩
  | .checkpoint _ => f

/-- The observation a record stands for. -/
def Fill.observe (f : Fill ν) : Record ν → Option (Observation ν)
  | .boot _ => none
  | .sample s => some ⟨s.timestamp, s.bootId, s.capacity, parsedCanonicalState s.state⟩
  | .checkpoint c =>
      if f.boot = some c.bootId then
        f.state.map fun state => ⟨c.timestamp, c.bootId, c.capacity, parsedCanonicalState state⟩
      else none

/-- The observations a list of records stands for, checkpoints filled forward. -/
def observations (f : Fill ν) : List (Record ν) → List (Observation ν)
  | [] => []
  | r :: rest => (f.observe r).toList ++ observations (f.next r) rest

theorem observations_append (f : Fill ν) (xs ys : List (Record ν)) :
    observations f (xs ++ ys) = observations f xs ++ observations (xs.foldl Fill.next f) ys := by
  induction xs generalizing f with
  | nil => rfl
  | cons r rest ih => simp only [List.cons_append, observations, ih, List.foldl_cons, List.append_assoc]

/-- The counters an observation of the boot `bootId` is measured against: those of the observation
before it, if that is of the same boot. -/
def basis (bootId : String) (previous : Option (Observation ν)) : Option (SeriesMap ν) :=
  (previous.filter fun p => p.bootId == bootId).map fun p => p.current.counters

theorem basis_of_ne {bootId : String} {p : Observation ν} (h : p.bootId ≠ bootId) :
    basis bootId (some p) = none := by
  simp [basis, h]

theorem basis_of_eq {bootId : String} {p : Observation ν} (h : p.bootId = bootId) :
    basis bootId (some p) = some p.current.counters := by
  simp [basis, h]

/-! ## Ingestion -/

section Ingest

variable [F64 ν]

/-- `ingest_canonical_sample`. -/
def ingestCanonicalSample (cutoff : Option U64) (inner : HistoryInner ν) (o : Observation ν) :
    HistoryInner ν :=
  let reset := inner.lastParsed.isSome && inner.lastSampleBoot != some o.bootId
  let normalized := normalize inner.lastParsed o.current reset
  let diagnostics := { inner.diagnostics with
    validSamples := inner.diagnostics.validSamples + 1
    inferredResets := inner.diagnostics.inferredResets + normalized.inferredReset.toNat
    normalizedSeries :=
      inner.diagnostics.normalizedSeries + (normalized.deltas.size + normalized.gauges.size) }
  let point : IndexedPoint ν :=
    ⟨o.timestamp, normalized.deltas, normalized.gauges, some o.capacity.snapshot⟩
  { inner with
    diagnostics := diagnostics
    points := if cutoff.all (· ≤ o.timestamp) then inner.points ++ [point] else inner.points
    revision := inner.revision + 1
    lastParsed := some o.current
    lastSampleBoot := some o.bootId }

/-- What the loop of `enrich_canonical_replay` carries. -/
structure Enriching (ν : Type) where
  inner : HistoryInner ν
  currentBoot : Option String := none
  currentState : Option (List (StateEntry ν)) := none
  inferredResets : ExtTreeMap U64 ℕ := ∅

/-- Index one observation, and count the reset it shows at its time. -/
def Enriching.ingest (cutoff : Option U64) (e : Enriching ν) (o : Observation ν) : Enriching ν :=
  let inner := ingestCanonicalSample cutoff e.inner o
  let count := inner.diagnostics.inferredResets - e.inner.diagnostics.inferredResets
  { e with
    inner := inner
    inferredResets :=
      if 0 < count then
        e.inferredResets.insert o.timestamp (e.inferredResets.getD o.timestamp 0 + count)
      else e.inferredResets }

/-- The resets counted up to `stop`. -/
def resetsIn (stop : U64) (resets : ExtTreeMap U64 ℕ) : ℕ :=
  ((resets.toList.filter fun reset => reset.1 ≤ stop).map Prod.snd).sum

/-- One round of the loop of `enrich_canonical_replay`. -/
def Enriching.step (cutoff : Option U64) (e : Enriching ν) : Record ν → Enriching ν
  | .boot boot => { e with currentBoot := some boot.bootId, currentState := none }
  | .sample s =>
      let e := e.ingest cutoff ⟨s.timestamp, s.bootId, s.capacity, parsedCanonicalState s.state⟩
      { e with currentBoot := some s.bootId, currentState := some s.state }
  | .checkpoint c =>
      if e.currentBoot = some c.bootId then
        match e.currentState with
        | some state => e.ingest cutoff ⟨c.timestamp, c.bootId, c.capacity, parsedCanonicalState state⟩
        | none => e
      else e

/-- The resets found, as events of the replay. -/
def Replay.noteResets (replay : Replay ν) (resets : ExtTreeMap U64 ℕ) : Replay ν :=
  resets.toList.foldl (fun replay reset =>
    { replay with
      diagnosticEvents := replay.diagnosticEvents ++ [⟨reset.1, { inferredResets := reset.2 }⟩]
      diagnostics := { replay.diagnostics with
        inferredResets := replay.diagnostics.inferredResets + reset.2 } }) replay

/-- `enrich_canonical_replay`. -/
def enrichCanonicalReplay (replay : Replay ν) (inner : HistoryInner ν) (records : List (Record ν))
    (cutoff : Option U64) : Replay ν × HistoryInner ν :=
  let e := records.foldl (Enriching.step cutoff) { inner := inner }
  (replay.noteResets e.inferredResets,
    { e.inner with
      availableFrom := e.inner.points.head?.map IndexedPoint.t
      availableTo := e.inner.points.getLast?.map IndexedPoint.t })

/-! ## The index as a function of the observations -/

/-- What the loop of `enrich_canonical_replay` knows of the records before. -/
def Enriching.fill (e : Enriching ν) : Fill ν := ⟨e.currentBoot, e.currentState⟩

theorem Enriching.fill_step (cutoff : Option U64) (e : Enriching ν) (r : Record ν) :
    (e.step cutoff r).fill = e.fill.next r := by
  cases r with
  | boot b => rfl
  | sample s => rfl
  | checkpoint c =>
      simp only [Enriching.step, Fill.next]
      split
      · split <;> rfl
      · rfl

theorem Enriching.inner_step (cutoff : Option U64) (e : Enriching ν) (r : Record ν) :
    (e.step cutoff r).inner =
      (e.fill.observe r).toList.foldl (ingestCanonicalSample cutoff) e.inner := by
  cases r with
  | boot b => rfl
  | sample s => rfl
  | checkpoint c =>
      by_cases hboot : e.currentBoot = some c.bootId
      · cases hstate : e.currentState with
        | none => simp [Enriching.step, Fill.observe, Enriching.fill, hboot, hstate]
        | some state =>
            simp [Enriching.step, Fill.observe, Enriching.fill, hboot, hstate, Enriching.ingest]
      · simp [Enriching.step, Fill.observe, Enriching.fill, hboot]

/-- **The replay is a fold over the observations.** -/
theorem Enriching.inner_foldl_step (cutoff : Option U64) (records : List (Record ν)) :
    ∀ e : Enriching ν, (records.foldl (Enriching.step cutoff) e).inner =
      (observations e.fill records).foldl (ingestCanonicalSample cutoff) e.inner := by
  induction records with
  | nil => intro e; rfl
  | cons r rest ih =>
      intro e
      rw [List.foldl_cons, ih, Enriching.fill_step, Enriching.inner_step, observations,
        List.foldl_append]

/-- The point of an observation, given the observation before it. -/
def Observation.point (previous : Option (Observation ν)) (o : Observation ν) : IndexedPoint ν :=
  let reset := previous.any fun p => p.bootId != o.bootId
  let normalized := normalize (previous.map Observation.current) o.current reset
  ⟨o.timestamp, normalized.deltas, normalized.gauges, some o.capacity.snapshot⟩

/-- The points of a list of observations that come after `previous`. -/
def pointsAfter (cutoff : Option U64) :
    Option (Observation ν) → List (Observation ν) → List (IndexedPoint ν)
  | _, [] => []
  | previous, o :: rest =>
      (if cutoff.all (· ≤ o.timestamp) then [o.point previous] else []) ++
        pointsAfter cutoff (some o) rest

/-- The index has just taken in `previous`: its boot, and its counters. -/
structure HistoryInner.After (inner : HistoryInner ν) (previous : Option (Observation ν)) : Prop where
  counters : inner.lastParsed.map ParsedSnapshot.counters = previous.map fun p => p.current.counters
  lastSampleBoot : inner.lastSampleBoot = previous.map Observation.bootId

/-- Of the snapshot before, only the counters matter. -/
theorem normalize_congr {p p' : Option (ParsedSnapshot ν)}
    (h : p.map ParsedSnapshot.counters = p'.map ParsedSnapshot.counters) (current : ParsedSnapshot ν)
    (reset : Bool) : normalize p current reset = normalize p' current reset := by
  match p, p', h with
  | none, none, _ => rfl
  | some ⟨c, g, n⟩, some ⟨c', g', n'⟩, h =>
      obtain rfl : c = c' := Option.some.inj h
      rfl

/-- What is computed for a new observation of `bootId`, on both paths into the index. -/
theorem HistoryInner.After.normalize_eq {inner : HistoryInner ν} {previous : Option (Observation ν)}
    (h : inner.After previous) (bootId : String) (current : ParsedSnapshot ν) :
    normalize inner.lastParsed current
        (inner.lastParsed.isSome && inner.lastSampleBoot != some bootId) =
      normalize (previous.map Observation.current) current
        (previous.any fun p => p.bootId != bootId) := by
  have hreset : (inner.lastParsed.isSome && inner.lastSampleBoot != some bootId) =
      previous.any fun p => p.bootId != bootId := by
    have hsome : inner.lastParsed.isSome = previous.isSome := by
      simpa using congrArg Option.isSome h.counters
    rw [hsome, h.lastSampleBoot]
    cases previous with
    | none => rfl
    | some p => simp [bne]
  rw [hreset]
  apply normalize_congr
  rw [h.counters, Option.map_map]
  rfl

theorem HistoryInner.After.ingest {inner : HistoryInner ν} {previous : Option (Observation ν)}
    (h : inner.After previous) (cutoff : Option U64) (o : Observation ν) :
    (ingestCanonicalSample cutoff inner o).After (some o) ∧
      (ingestCanonicalSample cutoff inner o).points =
        inner.points ++ pointsAfter cutoff previous [o] := by
  refine ⟨⟨rfl, rfl⟩, ?_⟩
  simp only [ingestCanonicalSample, h.normalize_eq, pointsAfter, Observation.point]
  split <;> simp

/-- **The points are a function of the observations.** -/
theorem HistoryInner.After.foldl_ingest {cutoff : Option U64} {os : List (Observation ν)} :
    ∀ {inner : HistoryInner ν} {previous : Option (Observation ν)}, inner.After previous →
      (os.foldl (ingestCanonicalSample cutoff) inner).After (os.getLast?.or previous) ∧
        (os.foldl (ingestCanonicalSample cutoff) inner).points =
          inner.points ++ pointsAfter cutoff previous os := by
  induction os with
  | nil =>
      intro inner previous h
      exact ⟨h, by simp [pointsAfter]⟩
  | cons o rest ih =>
      intro inner previous h
      obtain ⟨hafter, hpoints⟩ := h.ingest cutoff o
      obtain ⟨hafter', hpoints'⟩ := ih hafter
      refine ⟨?_, ?_⟩
      · cases hlast : rest.getLast? <;> simpa [List.getLast?_cons, hlast] using hafter'
      · rw [List.foldl_cons, hpoints', hpoints]
        simp [pointsAfter]

/-- The index a replay builds from nothing. -/
theorem enrichCanonicalReplay_after (replay : Replay ν) (records : List (Record ν))
    (cutoff : Option U64) :
    (enrichCanonicalReplay replay {} records cutoff).2.After (observations {} records).getLast? ∧
      (enrichCanonicalReplay replay {} records cutoff).2.points =
        pointsAfter cutoff none (observations {} records) := by
  have hempty : ({} : HistoryInner ν).After none := ⟨rfl, rfl⟩
  have hinner : (records.foldl (Enriching.step cutoff) { inner := {} }).inner =
      (observations {} records).foldl (ingestCanonicalSample cutoff) {} :=
    Enriching.inner_foldl_step cutoff records { inner := {} }
  obtain ⟨hafter, hpoints⟩ := hempty.foldl_ingest
  rw [← hinner, Option.or_none] at hafter
  rw [← hinner] at hpoints
  exact ⟨⟨hafter.counters, hafter.lastSampleBoot⟩, hpoints⟩

/-! ## What a point depends on -/

/-- A point is measured against its basis and nothing else: another boot before it counts as no
observation before it. -/
theorem Observation.point_eq (previous : Option (Observation ν)) (o : Observation ν) :
    o.point previous =
      ⟨o.timestamp,
        (normalize ((basis o.bootId previous).map fun counters => { counters := counters })
          o.current false).deltas,
        o.current.gauges, some o.capacity.snapshot⟩ := by
  cases previous with
  | none => rfl
  | some p =>
      by_cases hboot : p.bootId = o.bootId
      · simp only [Observation.point, basis_of_eq hboot, Option.any_some, hboot, bne_self_eq_false,
          Option.map_some]
        rfl
      · simp only [Observation.point, basis_of_ne hboot, Option.any_some, Option.map_some,
          Option.map_none, normalize, IndexedPoint.mk.injEq, true_and, and_true]
        simp [hboot, counterDelta]

theorem pointsAfter_congr {cutoff : Option U64} {previous previous' : Option (Observation ν)}
    {os : List (Observation ν)}
    (h : ∀ o ∈ os.head?, basis o.bootId previous = basis o.bootId previous') :
    pointsAfter cutoff previous os = pointsAfter cutoff previous' os := by
  cases os with
  | nil => rfl
  | cons o rest =>
      have hbasis := h o rfl
      simp only [pointsAfter, Observation.point_eq, hbasis]

theorem pointsAfter_append (cutoff : Option U64) (xs ys : List (Observation ν)) :
    ∀ previous, pointsAfter cutoff previous (xs ++ ys) =
      pointsAfter cutoff previous xs ++ pointsAfter cutoff (xs.getLast?.or previous) ys := by
  induction xs with
  | nil => intro previous; rfl
  | cons o rest ih =>
      intro previous
      rw [List.cons_append, pointsAfter, ih, pointsAfter, List.append_assoc]
      congr 2
      cases hlast : rest.getLast? <;> simp [List.getLast?_cons, hlast]

/-- Observations before the cutoff leave no point. -/
theorem pointsAfter_expired {c : U64} {os : List (Observation ν)} (h : ∀ o ∈ os, o.timestamp < c) :
    ∀ previous, pointsAfter (some c) previous os = [] := by
  induction os with
  | nil => intro previous; rfl
  | cons o rest ih =>
      intro previous
      have ho : ¬c ≤ o.timestamp := not_le.mpr (h o List.mem_cons_self)
      have hrest := ih (fun o' ho' => h o' (List.mem_cons_of_mem _ ho'))
      simp [pointsAfter, ho, hrest]

end Ingest

/-! ## The canonical state of a snapshot -/

theorem foldl_insertEntry (kind : StateKind) (entries : List (MetricKey × ν)) :
    ∀ parsed : ParsedSnapshot ν,
      (entries.map fun e => (⟨kind, e.1.metric, e.1.labels, e.2⟩ : StateEntry ν)).foldl
          ParsedSnapshot.insertEntry parsed =
        parsed.over kind fun m => Lib.insertAll m entries := by
  induction entries with
  | nil =>
      intro parsed
      cases kind <;> rfl
  | cons e rest ih =>
      intro parsed
      rw [List.map_cons, List.foldl_cons, ih]
      cases kind <;> rfl

/-- **The canonical state forgets only the count of skipped lines.** -/
theorem parsedCanonicalState_canonicalState (snapshot : ParsedSnapshot ν) :
    parsedCanonicalState (canonicalState snapshot) = { snapshot with skippedLines := 0 } := by
  rw [parsedCanonicalState, canonicalState, List.foldl_append, kindEntries, kindEntries,
    foldl_insertEntry, foldl_insertEntry]
  simp only [ParsedSnapshot.over, Lib.insertAll_toList]

theorem nodup_seriesId_kindEntries (kind : StateKind) (m : SeriesMap ν) :
    ((kindEntries kind m).map StateEntry.seriesId).Nodup := by
  rw [kindEntries, List.map_map]
  refine List.pairwise_map.mpr (ExtTreeMap.distinct_keys_toList.imp ?_)
  intro a b hne heq
  simp only [Function.comp_apply, StateEntry.seriesId, Prod.mk.injEq] at heq
  have hkey : a.1 = b.1 := by
    cases ha : a.1
    cases hb : b.1
    simp_all
  exact hne (by rw [hkey]; exact Std.ReflCmp.compare_self)

/-- The canonical state of a finite snapshot can be encoded. -/
theorem stateOk_canonicalState [F64 ν] {p : ParsedSnapshot ν} (h : p.Finite) :
    StateOk [] (canonicalState p) := by
  refine ⟨?_, ?_, by simp⟩
  · intro entry hentry
    rcases List.mem_append.mp hentry with hc | hg
    · obtain ⟨e, he, rfl⟩ := List.mem_map.mp hc
      exact h.counters e.1 e.2 (ExtTreeMap.mem_toList_iff_getElem?_eq_some.mp he)
    · obtain ⟨e, he, rfl⟩ := List.mem_map.mp hg
      exact h.gauges e.1 e.2 (ExtTreeMap.mem_toList_iff_getElem?_eq_some.mp he)
  · rw [canonicalState, List.map_append]
    refine List.nodup_append.mpr
      ⟨nodup_seriesId_kindEntries _ _, nodup_seriesId_kindEntries _ _, ?_⟩
    -- a counter and a gauge differ in their kind
    intro id hid id' hid' heq
    obtain ⟨entry, hentry, rfl⟩ := List.mem_map.mp hid
    obtain ⟨entry', hentry', rfl⟩ := List.mem_map.mp hid'
    obtain ⟨_, _, rfl⟩ := List.mem_map.mp hentry
    obtain ⟨_, _, rfl⟩ := List.mem_map.mp hentry'
    simp [StateEntry.seriesId] at heq

end Flock.History
