/-
# Flock.History.Store — the durable store, and the history that owns it.

`HistoryStore` appends one line for each record to the canonical file; `History` keeps the index in
memory and hands every sample to the store.  The file is a byte string, absent before the first boot.
File operations succeed here; what can still fail is what the code itself refuses: a file that does not
validate, a time that regresses, a record that does not encode.

`unix_now` and `new_boot_id` are arguments.  The legacy `history.jsonl` is not read by `open` and has no
part here; a compaction that an append asks for is an output (`History.Protocol` runs them).
-/
import Flock.History.Compaction
import Flock.History.Scanner

namespace Flock

namespace History

variable {ν : Type}

/-! ## `HistoryStore` -/

/-- `WriteError`, without I/O failures. -/
inductive WriteError where
  | encode
  | poisoned
  | timestampRegression
  deriving DecidableEq, Repr

/-- `HistoryStore`, without its file handle and path. -/
structure HistoryStore (ν : Type) where
  bootId : String
  lastState : Option (List (StateEntry ν)) := none
  replay : Replay ν
  lastTimestamp : Option U64
  poisoned : Bool := false

section Store

variable [F64 ν] [DecidableEq ν]

/-- `append_record`: the line and its line feed, flushed and synced. -/
def appendRecord (S : Serde ν) (file : Bytes) (r : Record ν) : Except WriteError Bytes :=
  match encodeRecord S r with
  | .ok line => .ok (file ++ line ++ [newline])
  | .error _ => .error .encode

/-- `ensure_open_timestamp` and `ensure_runtime_timestamp`: the new record is not older than the last. -/
def notOlder (last : Option U64) (r : Record ν) : Bool := !last.any (r.timestamp < ·)

/-- `HistoryStore::open`: on an existing file, its replay and then the boot record; on an empty data
directory, a file that holds the boot record alone. -/
def HistoryStore.open (S : Serde ν) (disk : Option Bytes) (timestamp : U64) (capacity : Capacity)
    (bootId : String) : Except OpenError (HistoryStore ν × Bytes) :=
  let boot : Record ν := .boot ⟨timestamp, bootId, capacity⟩
  match disk with
  | some file =>
      match validateCanonical S file with
      | .error error => .error error
      | .ok replay =>
          if notOlder replay.orderingBound boot then
            -- `append_recovery_separator`
            let file := if replay.needsSeparator then file ++ [newline] else file
            match appendRecord S file boot with
            | .error _ => .error (.io "canonical history encode failure")
            | .ok file =>
                let replay := { replay with records := replay.records ++ [boot] }
                let replay := replay.closeOpenGap timestamp
                let lastTimestamp := replay.records.getLast?.map Record.timestamp
                .ok ({ bootId := bootId, replay := replay, lastTimestamp := lastTimestamp }, file)
          else .error (.invalidStream 0 "timestamp regresses")
  | none =>
      match appendRecord S [] boot with
      | .error _ => .error (.io "canonical history encode failure")
      | .ok file =>
          .ok ({ bootId := bootId, replay := { records := [boot] }, lastTimestamp := some timestamp },
            file)

/-- The end of `append_sample_inner` and of `checkpoint_inner`: the record is written, or the store is
poisoned. -/
def HistoryStore.write (S : Serde ν) (store : HistoryStore ν) (file : Bytes) (r : Record ν)
    (written : HistoryStore ν → HistoryStore ν) : HistoryStore ν × Bytes × Except WriteError Unit :=
  if notOlder store.lastTimestamp r then
    match appendRecord S file r with
    | .error error => ({ store with poisoned := true }, file, .error error)
    | .ok file => (written { store with lastTimestamp := some r.timestamp }, file, .ok ())
  else (store, file, .error .timestampRegression)

/-- `checkpoint_inner`. -/
def HistoryStore.checkpoint (S : Serde ν) (store : HistoryStore ν) (file : Bytes) (timestamp : U64)
    (capacity : Capacity) : HistoryStore ν × Bytes × Except WriteError Unit :=
  if store.poisoned then (store, file, .error .poisoned)
  else store.write S file (.checkpoint ⟨timestamp, store.bootId, capacity⟩) id

/-- `append_sample_inner`: a state equal to the last one is a checkpoint. -/
def HistoryStore.appendSample (S : Serde ν) (store : HistoryStore ν) (file : Bytes) (timestamp : U64)
    (capacity : Capacity) (state : List (StateEntry ν)) :
    HistoryStore ν × Bytes × Except WriteError Unit :=
  if store.poisoned then (store, file, .error .poisoned)
  else if store.lastState = some state then store.checkpoint S file timestamp capacity
  else
    store.write S file (.sample ⟨timestamp, store.bootId, capacity, state⟩)
      fun store => { store with lastState := some state }

/-- `compaction_needed`. -/
def HistoryStore.compactionNeeded (store : HistoryStore ν) (cutoff : U64) : Bool :=
  if !store.replay.gaps.isEmpty || store.replay.needsSeparator ||
      store.replay.diagnostics.excludedEpochs != 0 || store.replay.diagnostics.excludedRecords != 0 then
    true
  else
    match store.replay.records.getLast? with
    | some (.boot boot) =>
        if boot.bootId = store.bootId ∧ store.lastState = none then
          decide (retainedCompactionRecords cutoff store.bootId false store.replay.records.dropLast ++
            [.boot boot] ≠ store.replay.records)
        else
          decide (retainedCompactionRecords cutoff store.bootId false store.replay.records ≠
            store.replay.records)
    | _ =>
        decide (retainedCompactionRecords cutoff store.bootId false store.replay.records ≠
          store.replay.records)

end Store

/-! ## `History` -/

/-- `u64::saturating_mul`. -/
def satMul (a b : U64) : U64 := ⟨min (a.val * b.val) u64Max.val, by simp [u64Max]⟩

/-- `u64::saturating_sub`. -/
def satSub (a b : U64) : U64 := ⟨a.val - b.val, by omega⟩

/-- The cutoff of a retention of `days` days at time `t`; 0 days keep everything. -/
def retentionCutoff (days t : U64) : Option U64 :=
  if 0 < days then some (satSub t (satMul days 86400)) else none

/-- `COMPACT_AFTER_EXPIRED_SAMPLES`. -/
def compactAfterExpiredSamples : ℕ := 288

end History

/-- `History`, opened on a canonical store. -/
structure History (ν : Type) where
  inner : History.HistoryInner ν
  days : History.U64
  droppedSinceCompact : ℕ := 0
  compactionPending : Bool
  compactionCutoff : History.U64
  compactionGeneration : History.U64
  bootId : String
  bootT : History.U64
  initialCapacity : History.CapacitySnapshot
  canonical : History.HistoryStore ν

namespace History

section History

variable {ν : Type} [F64 ν] [DecidableEq ν]

/-- The rest of `History::open` once the store is open: the index is what the replay builds, and the
replay leaves the store. -/
def ofStore (days timestamp : U64) (initialCapacity : CapacitySnapshot) (canonical : HistoryStore ν) :
    History ν :=
  let cutoff := retentionCutoff days timestamp
  let compactionPending := cutoff.any canonical.compactionNeeded
  let (replay, inner) := enrichCanonicalReplay canonical.replay {} canonical.replay.records cutoff
  { inner := { inner with
      diagnostics := replay.diagnostics
      recoveryGaps := replay.gaps
      recoveryEvents := replay.diagnosticEvents
      recoveryEventsComplete := true }
    days := days
    compactionPending := compactionPending
    compactionCutoff := cutoff.getD 0
    compactionGeneration := if compactionPending then 1 else 0
    bootId := canonical.bootId
    bootT := timestamp
    initialCapacity := initialCapacity
    canonical := { canonical with replay := {} } }

/-- `History::open`. -/
def «open» (S : Serde ν) (disk : Option Bytes) (days timestamp : U64)
    (initialCapacity : CapacitySnapshot) (bootId : String) : Except OpenError (History ν × Bytes) :=
  match HistoryStore.open S disk timestamp (canonicalCapacity initialCapacity) bootId with
  | .error error => .error error
  | .ok (canonical, file) => .ok (ofStore days timestamp initialCapacity canonical, file)

/-- The part of `append` under the index lock: the point at the time `t` it was clamped to, after the
points that retention expires. -/
def appendInner (history : History ν) (t : U64) (current : ParsedSnapshot ν)
    (capacity : CapacitySnapshot) : HistoryInner ν × ℕ :=
  let inner := history.inner
  let explicitReset := inner.lastParsed.isSome && inner.lastSampleBoot != some history.bootId
  let normalized := normalize inner.lastParsed current explicitReset
  let diagnostics : HistoryDiagnostics := {
    inferredResets := normalized.inferredReset.toNat
    normalizedSeries := normalized.deltas.size + normalized.gauges.size
    skippedMetricLines := current.skippedLines
    validSamples := 1 }
  let kept := match retentionCutoff history.days t with
    | some cutoff => inner.points.filter fun point => cutoff ≤ point.t
    | none => inner.points
  let points := kept ++ [⟨t, normalized.deltas, normalized.gauges, some capacity⟩]
  let events :=
    if inner.recoveryEventsComplete then inner.recoveryEvents ++ [⟨t, diagnostics⟩]
    else inner.recoveryEvents
  ({ inner with
    points := points
    revision := inner.revision + 1
    availableFrom := points.head?.map IndexedPoint.t
    availableTo := points.getLast?.map IndexedPoint.t
    diagnostics := inner.diagnostics.add diagnostics
    lastParsed := some current
    lastSampleBoot := some history.bootId
    recoveryEvents := events }, inner.points.length - kept.length)

/-- The time a sample gets: never before the last point or the last record. -/
def clamp (history : History ν) (t : U64) : U64 :=
  (history.inner.availableTo.toList ++ history.canonical.lastTimestamp.toList).foldl max t

/-- `History::append`: the index, then the store.  The last component is the cutoff of a compaction it
asks for. -/
def append (S : Serde ν) (history : History ν) (file : Bytes) (t : U64) (snapshot : List Char)
    (capacity : CapacitySnapshot) : History ν × Bytes × Option U64 :=
  let current : ParsedSnapshot ν := parseExposition snapshot
  let t := history.clamp t
  let (inner, dropped) := history.appendInner t current capacity
  let (canonical, file, _) :=
    history.canonical.appendSample S file t (canonicalCapacity capacity) (canonicalState current)
  let droppedSinceCompact := history.droppedSinceCompact + dropped
  let request :=
    if history.compactionPending || compactAfterExpiredSamples < droppedSinceCompact then
      retentionCutoff history.days t
    else none
  ({ history with
    inner := inner
    droppedSinceCompact := droppedSinceCompact
    canonical := canonical }, file, request)

end History

end History

end Flock
