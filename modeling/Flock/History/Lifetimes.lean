/-
# Flock.History.Lifetimes — the index in memory is the index a restart would build.

A data directory is used by one process after another: each opens the history and appends to it.  The
live index is filled from the texts that were scraped, through `append`; a restart fills it from the file,
through the scanner and `enrich_canonical_replay`, where an unchanged state is only a checkpoint and a
boot without a sample leaves no trace.  The two agree point for point at every moment.

The invariant ties the process to the SCAN of the records written so far: the epoch the scanner is
reading is the epoch of the process, what a checkpoint would repeat is the state the store compares with,
and the observations of the records read are those the index took in.
-/
import Flock.Lib.Transition
import Flock.History.Json
import Flock.History.Lines
import Flock.History.Store

namespace Flock.History

open Lib (System)

variable {ν : Type}

/-! ## The scan of a file in use

A restart closes the last epoch, a running process keeps it open.  The observations are the same either way. -/

namespace Scan

/-- Ending the epoch being read drops a boot without a sample, and no observation with it. -/
theorem observations_closeEpoch {sc : Scan ν} {bootId : String}
    {lastState : Option (List (StateEntry ν))} (hreading : sc.Reading bootId lastState) :
    observations {} sc.closeEpoch.records = observations {} sc.allRecords := by
  have hrecords : sc.closeEpoch.records = sc.replay.records ++ sc.committed :=
    congrArg Prod.fst sc.log_closeEpoch
  rw [hrecords, allRecords, observations_append, observations_append]
  cases hreading with
  | booted boot hstate hid => simp [committed, hstate, Epoch.new, observations, Fill.observe]
  | sampled epoch state hstate hid => simp [committed, hstate]

/-- A boot adds no observation, and neither did an epoch that it ended without a sample. -/
theorem observations_next_boot {sc : Scan ν} {bootId : String} {lastState : Option (List (StateEntry ν))}
    (hreading : sc.Reading bootId lastState) {boot : BootRecord}
    (hbound : sc.replay.orderingBound.any (boot.timestamp < ·) = false) :
    observations {} (sc.next (.boot boot)).allRecords = observations {} sc.allRecords := by
  obtain ⟨-, hall, -⟩ := next_boot hbound
  rw [hall, observations_append, observations_closeEpoch hreading]
  simp [observations, Fill.observe]

end Scan

/-! ## One append, one open

One call of each kind, on both paths: from the text that was scraped into the index, and through the record into the
file and back. -/

/-- A sample is never older than the last record. -/
theorem le_clamp (history : History ν) (t : U64) :
    history.canonical.lastTimestamp.any (history.clamp t < ·) = false := by
  rw [clamp]
  cases hlast : history.canonical.lastTimestamp with
  | none => rfl
  | some last => simp [List.foldl_append]

section RecordOf

variable [DecidableEq ν]

/-- The record a sample is written as. -/
def HistoryStore.recordOf (store : HistoryStore ν) (timestamp : U64) (capacity : Capacity)
    (state : List (StateEntry ν)) : Record ν :=
  if store.lastState = some state then .checkpoint ⟨timestamp, store.bootId, capacity⟩
  else .sample ⟨timestamp, store.bootId, capacity, state⟩

/-- **The replay path.** The record the store writes stands for the same observation, and carries the
same state on. -/
theorem observe_recordOf {store : HistoryStore ν} {f : Fill ν} (hboot : f.boot = some store.bootId)
    (hstate : f.state = store.lastState) (t : U64) (capacity : Capacity)
    (state : List (StateEntry ν)) :
    f.observe (store.recordOf t capacity state) =
        some ⟨t, store.bootId, capacity, parsedCanonicalState state⟩ ∧
      f.next (store.recordOf t capacity state) = ⟨some store.bootId, some state⟩ := by
  rw [HistoryStore.recordOf]
  split
  · rename_i hsame
    obtain ⟨boot, st⟩ := f
    obtain rfl : boot = _ := hboot
    obtain rfl : st = _ := hstate
    simp [Fill.observe, Fill.next, hsame]
  · exact ⟨rfl, rfl⟩

/-- The record has the time it was made for. -/
theorem HistoryStore.timestamp_recordOf (store : HistoryStore ν) (t : U64) (capacity : Capacity)
    (state : List (StateEntry ν)) : (store.recordOf t capacity state).timestamp = t := by
  rw [recordOf]
  split <;> rfl

theorem HistoryStore.bootId_recordOf (store : HistoryStore ν) (t : U64) (capacity : Capacity)
    (state : List (StateEntry ν)) : (store.recordOf t capacity state).bootId = store.bootId := by
  rw [recordOf]
  split <;> rfl

/-- A checkpoint is only written once there is a sample. -/
theorem HistoryStore.kind_recordOf (store : HistoryStore ν) (t : U64) (capacity : Capacity)
    (state : List (StateEntry ν)) :
    (∃ s, store.recordOf t capacity state = .sample s) ∨
      (∃ c, store.recordOf t capacity state = .checkpoint c) ∧ store.lastState.isSome := by
  rw [recordOf]
  split
  · rename_i hsame
    exact .inr ⟨⟨_, rfl⟩, by simp [hsame]⟩
  · exact .inl ⟨_, rfl⟩

/-- A store writes no boot record after its first. -/
theorem HistoryStore.isBoot_recordOf (store : HistoryStore ν) (t : U64) (capacity : Capacity)
    (state : List (StateEntry ν)) : (store.recordOf t capacity state).isBoot = false := by
  rw [recordOf]
  split <;> rfl

end RecordOf

section Steps

variable [F64 ν]

/-- A record that can be encoded is appended as its line. -/
theorem appendRecord_of_encodable {S : Serde ν} (hS : S.Plain) (file : Bytes) {r : Record ν}
    (hr : r.Encodable) : appendRecord S file r = .ok (file ++ recordLine S r) := by
  obtain ⟨line, hline, -⟩ := line_of_encodable hS hr
  simp [appendRecord, recordLine, hline]

/-- A record in order is written. -/
theorem HistoryStore.write_eq {S : Serde ν} (hS : S.Plain) {store : HistoryStore ν} (file : Bytes)
    {r : Record ν} (hr : r.Encodable) (htime : store.lastTimestamp.any (r.timestamp < ·) = false)
    (written : HistoryStore ν → HistoryStore ν) :
    store.write S file r written =
      (written { store with lastTimestamp := some r.timestamp }, file ++ recordLine S r, .ok ()) := by
  simp [HistoryStore.write, notOlder, htime, appendRecord_of_encodable hS file hr]

/-- The observation an append makes of what it scraped. -/
def observed (history : History ν) (t : U64) (current : ParsedSnapshot ν)
    (capacity : CapacitySnapshot) : Observation ν :=
  ⟨t, history.bootId, canonicalCapacity capacity, parsedCanonicalState (canonicalState current)⟩

/-- **The live path.** With nothing expiring, an append adds the point of its observation. -/
theorem appendInner_eq {history : History ν} (hdays : history.days = 0)
    {previous : Option (Observation ν)} (hafter : history.inner.After previous) (t : U64)
    (current : ParsedSnapshot ν) (capacity : CapacitySnapshot) :
    (history.appendInner t current capacity).1.After (some (history.observed t current capacity)) ∧
      (history.appendInner t current capacity).1.points =
        history.inner.points ++ [(history.observed t current capacity).point previous] := by
  have hkeep : retentionCutoff history.days t = none := by simp [retentionCutoff, hdays]
  refine ⟨⟨?_, rfl⟩, ?_⟩
  · simp [appendInner, observed, parsedCanonicalState_canonicalState]
  · simp only [appendInner, hkeep, hafter.normalize_eq, Observation.point, observed,
      parsedCanonicalState_canonicalState, snapshot_canonicalCapacity]
    rfl

/-- A store opened on a file that validates: the boot record goes to the file, on a line of its own, and
to the replay. -/
theorem HistoryStore.open_existing {S : Serde ν} (hS : S.Plain) {file : Bytes} {replay : Replay ν}
    (hvalid : validateCanonical S file = .ok replay) {t : U64}
    (hbound : replay.orderingBound.any (t < ·) = false) (capacity : Capacity) (bootId : String) :
    HistoryStore.open S (some file) t capacity bootId =
      .ok ({ bootId := bootId
             replay := ({ replay with
               records := replay.records ++ [.boot ⟨t, bootId, capacity⟩] } : Replay ν).closeOpenGap t
             lastTimestamp := some t },
        (if replay.needsSeparator then file ++ [newline] else file) ++
          recordLine S (.boot ⟨t, bootId, capacity⟩)) := by
  have hboot : (Record.boot ⟨t, bootId, capacity⟩ : Record ν).Encodable := trivial
  have hold : notOlder replay.orderingBound (.boot ⟨t, bootId, capacity⟩ : Record ν) = true :=
    congrArg not hbound
  have hrecords := congrArg Prod.fst (Replay.log_closeOpenGap ({ replay with
    records := replay.records ++ [.boot ⟨t, bootId, capacity⟩] } : Replay ν) t)
  simp only [Replay.log] at hrecords
  simp only [HistoryStore.open, hvalid]
  rw [if_pos hold, appendRecord_of_encodable hS _ hboot]
  simp [hrecords]

variable [DecidableEq ν]

/-- The record of a state in order can be encoded. -/
theorem HistoryStore.encodable_recordOf {state : List (StateEntry ν)} (hstate : StateOk [] state)
    (store : HistoryStore ν) (timestamp : U64) (capacity : Capacity) :
    (store.recordOf timestamp capacity state).Encodable := by
  rw [recordOf]
  split
  · trivial
  · exact hstate

/-- The record of a call is read back if its state is. -/
theorem HistoryStore.restores_recordOf {S : Serde ν} (hS : S.Plain) (store : HistoryStore ν)
    {state : List (StateEntry ν)} (h : S.ReadsBack state) (timestamp : U64) (capacity : Capacity) :
    S.Restores (store.recordOf timestamp capacity state) := by
  rw [recordOf]
  split
  · exact hS.restores_checkpoint _
  · exact h _ _ _

/-- **A sample is written**, as a checkpoint or in full, and the store compares with it from then on. -/
theorem HistoryStore.appendSample_eq {S : Serde ν} (hS : S.Plain) {store : HistoryStore ν}
    (hsound : store.poisoned = false) (file : Bytes) {timestamp : U64} {capacity : Capacity}
    {state : List (StateEntry ν)} (hr : (store.recordOf timestamp capacity state).Encodable)
    (htime : store.lastTimestamp.any (timestamp < ·) = false) :
    store.appendSample S file timestamp capacity state =
      ({ store with lastTimestamp := some timestamp, lastState := some state },
        file ++ recordLine S (store.recordOf timestamp capacity state), .ok ()) := by
  by_cases hsame : store.lastState = some state
  · rw [recordOf, if_pos hsame] at hr ⊢
    have happend : store.appendSample S file timestamp capacity state =
        store.write S file (.checkpoint ⟨timestamp, store.bootId, capacity⟩) id := by
      simp [appendSample, checkpoint, hsound, hsame]
    rw [happend, HistoryStore.write_eq hS file hr htime, ← hsame]
    rfl
  · rw [recordOf, if_neg hsame] at hr ⊢
    have happend : store.appendSample S file timestamp capacity state =
        store.write S file (.sample ⟨timestamp, store.bootId, capacity, state⟩)
          fun store => { store with lastState := some state } := by
      simp [appendSample, hsound, hsame]
    rw [happend, HistoryStore.write_eq hS file hr htime]
    rfl

/-- The process and the scan of the records it and its predecessors wrote. -/
structure Recorded (sc : Scan ν) (history : History ν) : Prop where
  keepsAll : history.days = 0
  sound : history.canonical.poisoned = false
  bootId : history.canonical.bootId = history.bootId
  reading : sc.Reading history.bootId history.canonical.lastState
  separator : sc.replay.needsSeparator = false
  bound : sc.replay.orderingBound = history.canonical.lastTimestamp
  fill : sc.allRecords.foldl Fill.next {} = ⟨some history.bootId, history.canonical.lastState⟩
  after : history.inner.After (observations {} sc.allRecords).getLast?
  points : history.inner.points = pointsAfter none none (observations {} sc.allRecords)

/-- The record that an append writes. -/
def written (history : History ν) (t : U64) (snapshot : List Char) (capacity : CapacitySnapshot) :
    Record ν :=
  history.canonical.recordOf (history.clamp t) (canonicalCapacity capacity)
    (canonicalState (parseExposition snapshot))

/-- The record an append writes stands for the observation the index takes in. -/
theorem Recorded.observations_written {sc : Scan ν} {history : History ν} (h : Recorded sc history) (t : U64)
    (snapshot : List Char) (capacity : CapacitySnapshot) :
    observations {} (sc.next (history.written t snapshot capacity)).allRecords =
      observations {} sc.allRecords ++
        [history.observed (history.clamp t) (parseExposition snapshot) capacity] := by
  have hold : sc.replay.orderingBound.any
      ((history.written t snapshot capacity).timestamp < ·) = false := by
    rw [written, history.canonical.timestamp_recordOf, h.bound]
    exact history.le_clamp t
  obtain ⟨-, hall, -, -⟩ := Scan.next_of_reading h.reading
    ((history.canonical.bootId_recordOf _ _ _).trans h.bootId) hold (history.canonical.kind_recordOf _ _ _)
  obtain ⟨hobserve, -⟩ := observe_recordOf (f := ⟨some history.bootId, history.canonical.lastState⟩)
    (congrArg some h.bootId.symm) rfl (history.clamp t) (canonicalCapacity capacity)
    (canonicalState (parseExposition snapshot))
  rw [written, hall, observations_append, h.fill]
  simp only [observations, hobserve, observed, h.bootId]
  rfl

/-- **An append** writes one record, and the scan of the file goes on to match the process. -/
theorem Recorded.append {S : Serde ν} (hS : S.Plain) {sc : Scan ν} {history : History ν}
    (h : Recorded sc history) (file : Bytes) (t : U64) (snapshot : List Char)
    (capacity : CapacitySnapshot) :
    (history.append S file t snapshot capacity).2.1 =
        file ++ recordLine S (history.written t snapshot capacity) ∧
      Recorded (sc.next (history.written t snapshot capacity))
        (history.append S file t snapshot capacity).1 := by
  unfold written
  let current : ParsedSnapshot ν := parseExposition snapshot
  let time := history.clamp t
  let r := history.canonical.recordOf time (canonicalCapacity capacity) (canonicalState current)
  have hstate : StateOk [] (canonicalState current) :=
    stateOk_canonicalState (finite_parseExposition snapshot)
  -- the file: one line more, since the record can be encoded and is not of an earlier time
  have hwritten := HistoryStore.appendSample_eq hS h.sound file
    (history.canonical.encodable_recordOf hstate time (canonicalCapacity capacity)) (history.le_clamp t)
  have happend : (history.append S file t snapshot capacity).1 =
      { history with
        inner := (history.appendInner time current capacity).1
        droppedSinceCompact := history.droppedSinceCompact + (history.appendInner time current capacity).2
        canonical := { history.canonical with
          lastTimestamp := some time
          lastState := some (canonicalState current) } } := by
    simp only [History.append, hwritten, time, current]
  -- the scan: it reads the epoch on, and takes the record
  obtain ⟨⟨epoch, hepoch, hid⟩, hall, hbound, hreplay⟩ :=
    Scan.next_of_reading h.reading ((history.canonical.bootId_recordOf _ _ _).trans h.bootId)
      (r := r) (by rw [history.canonical.timestamp_recordOf, h.bound]; exact history.le_clamp t)
      (history.canonical.kind_recordOf _ _ _)
  -- the replay: the record stands for the observation of what was scraped
  obtain ⟨-, hfill⟩ := observe_recordOf (f := ⟨some history.bootId, history.canonical.lastState⟩)
    (congrArg some h.bootId.symm) rfl time (canonicalCapacity capacity) (canonicalState current)
  have hobs : observations {} (sc.next r).allRecords =
      observations {} sc.allRecords ++ [history.observed time current capacity] :=
    h.observations_written t snapshot capacity
  -- the index: it gets the point of the same observation
  obtain ⟨hafter, hpoints⟩ := appendInner_eq h.keepsAll h.after time current capacity
  refine ⟨?_, ?_⟩
  · simp only [History.append, hwritten, time, current]
  · rw [happend]
    exact {
      keepsAll := h.keepsAll
      sound := h.sound
      bootId := h.bootId
      reading := .sampled epoch _ hepoch hid
      separator := by
        rw [hreplay]
        exact h.separator
      bound := by rw [hbound, history.canonical.timestamp_recordOf]
      fill := by
        rw [hall, List.foldl_append, h.fill]
        simpa [r, h.bootId] using hfill
      after := by
        rw [hobs, List.getLast?_concat]
        exact hafter
      points := by
        rw [hobs, pointsAfter_append, ← h.points, Option.or_none]
        exact hpoints }

/-- A store that was just opened, and the history made of it. -/
theorem recorded_ofStore {sc : Scan ν} {canonical : HistoryStore ν} (timestamp : U64)
    (capacity : CapacitySnapshot) (hsound : canonical.poisoned = false)
    (hnone : canonical.lastState = none) (hreading : sc.Reading canonical.bootId none)
    (hseparator : sc.replay.needsSeparator = false)
    (hbound : sc.replay.orderingBound = canonical.lastTimestamp)
    {old : List (Record ν)} {boot : BootRecord} (hid : boot.bootId = canonical.bootId)
    (hreplay : canonical.replay.records = old ++ [.boot boot])
    (hall : sc.allRecords = old ++ [.boot boot]) :
    Recorded sc (ofStore 0 timestamp capacity canonical) := by
  obtain ⟨hafter, hpoints⟩ := enrichCanonicalReplay_after canonical.replay (old ++ [.boot boot]) none
  rw [← hall, ← hreplay.trans hall.symm] at hafter hpoints
  exact {
    keepsAll := rfl
    sound := hsound
    bootId := rfl
    reading := hnone ▸ hreading
    separator := hseparator
    bound := hbound
    fill := by
      rw [hall, List.foldl_append]
      simp [Fill.next, ofStore, hid, hnone]
    after := by
      rw [← hreplay.trans hall.symm]
      exact ⟨hafter.counters, hafter.lastSampleBoot⟩
    points := by
      rw [← hreplay.trans hall.symm]
      exact hpoints }

/-- The history that `History::open` builds in an empty data directory. -/
def openedFresh (timestamp : U64) (initialCapacity : CapacitySnapshot) (bootId : String) : History ν :=
  ofStore 0 timestamp initialCapacity
    { bootId := bootId
      replay := { records := [.boot ⟨timestamp, bootId, canonicalCapacity initialCapacity⟩] }
      lastTimestamp := some timestamp }

/-- The history that `History::open` builds on a file of records. -/
def openedOn (rs : List (Record ν)) (days timestamp : U64) (initialCapacity : CapacitySnapshot)
    (bootId : String) : History ν :=
  let replay := (rs.foldl Scan.next {}).closeEpoch
  let boot : Record ν := .boot ⟨timestamp, bootId, canonicalCapacity initialCapacity⟩
  ofStore days timestamp initialCapacity
    { bootId := bootId
      replay := ({ replay with records := replay.records ++ [boot] } : Replay ν).closeOpenGap timestamp
      lastTimestamp := some timestamp }

/-- **The first boot**, in an empty data directory. -/
theorem open_first {S : Serde ν} (hS : S.Plain) (t : U64) (capacity : CapacitySnapshot)
    (bootId : String) :
    History.open S none 0 t capacity bootId =
        .ok (openedFresh t capacity bootId, fileOf S [.boot ⟨t, bootId, canonicalCapacity capacity⟩]) ∧
      Recorded (({} : Scan ν).next (.boot ⟨t, bootId, canonicalCapacity capacity⟩))
        (openedFresh t capacity bootId) := by
  let boot : BootRecord := ⟨t, bootId, canonicalCapacity capacity⟩
  let canonical : HistoryStore ν :=
    { bootId := bootId, replay := { records := [.boot boot] }, lastTimestamp := some t }
  have hstore : HistoryStore.open S none t (canonicalCapacity capacity) bootId =
      .ok (canonical, fileOf S [.boot boot]) := by
    have hboot : (Record.boot boot : Record ν).Encodable := trivial
    simp only [HistoryStore.open, appendRecord_of_encodable hS [] hboot, boot]
    simp [fileOf, canonical, boot]
  have hempty : ({} : Scan ν).replay.orderingBound.any (boot.timestamp < ·) = false := rfl
  obtain ⟨hreading, hall, hbound, hseparator, -⟩ := Scan.next_boot hempty
  have hreplay : canonical.replay.records = ({} : Scan ν).closeEpoch.records ++ [.boot boot] := rfl
  refine ⟨by simp only [«open», hstore, boot, openedFresh, canonical], ?_⟩
  exact recorded_ofStore t capacity rfl rfl hreading hseparator hbound rfl hreplay hall

/-- A file that is read as these records and needs no separator is opened on them. -/
theorem open_of_validate {S : Serde ν} (hS : S.Plain) {file : Bytes} {rs : List (Record ν)}
    (hvalid : validateCanonical S file = .ok (rs.foldl Scan.next {}).closeEpoch)
    (hseparator : (rs.foldl Scan.next {}).replay.needsSeparator = false) {t : U64}
    (hbound : (rs.foldl Scan.next {}).replay.orderingBound.any (t < ·) = false)
    (capacity : CapacitySnapshot) (bootId : String) :
    History.open S (some file) 0 t capacity bootId =
      .ok (openedOn rs 0 t capacity bootId,
        file ++ recordLine S (.boot ⟨t, bootId, canonicalCapacity capacity⟩)) := by
  have hlog := (rs.foldl Scan.next {}).log_closeEpoch
  simp only [Replay.log, Prod.mk.injEq] at hlog
  have hstore := HistoryStore.open_existing hS hvalid (t := t) (by rw [hlog.2.1]; exact hbound)
    (canonicalCapacity capacity) bootId
  rw [if_neg (by simp [hlog.2.2, hseparator])] at hstore
  simp only [«open», hstore, openedOn]

/-- **A restart** on a file in use: whoever wrote it, the index is the same. -/
theorem Recorded.reopen {S : Serde ν} (hS : S.Plain) {rs : List (Record ν)} (hne : rs ≠ [])
    (hrs : ∀ r ∈ rs, S.Restores r) {history : History ν} (h : Recorded (rs.foldl Scan.next {}) history)
    {t : U64} (hbound : (rs.foldl Scan.next {}).replay.orderingBound.any (t < ·) = false)
    (capacity : CapacitySnapshot) (bootId : String) :
    History.open S (some (fileOf S rs)) 0 t capacity bootId =
        .ok (openedOn rs 0 t capacity bootId,
          fileOf S (rs ++ [.boot ⟨t, bootId, canonicalCapacity capacity⟩])) ∧
      Recorded ((rs.foldl Scan.next {}).next (.boot ⟨t, bootId, canonicalCapacity capacity⟩))
        (openedOn rs 0 t capacity bootId) ∧
      (openedOn rs 0 t capacity bootId).inner.points = history.inner.points := by
  let sc := rs.foldl Scan.next {}
  let boot : BootRecord := ⟨t, bootId, canonicalCapacity capacity⟩
  let replay := ({ sc.closeEpoch with
    records := sc.closeEpoch.records ++ [.boot boot] } : Replay ν).closeOpenGap t
  let canonical : HistoryStore ν := { bootId := bootId, replay := replay, lastTimestamp := some t }
  have hreplay : replay.records = sc.closeEpoch.records ++ [.boot boot] :=
    congrArg Prod.fst (Replay.log_closeOpenGap _ t)
  have hopen := open_of_validate hS (validateCanonical_fileOf hne hrs) h.separator hbound capacity bootId
  have hboot : sc.replay.orderingBound.any (boot.timestamp < ·) = false := hbound
  obtain ⟨hreading, hall, hnext, hseparator, -⟩ := Scan.next_boot hboot
  have hrecorded : Recorded (sc.next (.boot boot)) (ofStore 0 t capacity canonical) :=
    recorded_ofStore t capacity rfl rfl hreading (hseparator.trans h.separator) hnext rfl hreplay hall
  refine ⟨?_, hrecorded, ?_⟩
  · rw [hopen, fileOf_append]
    simp [fileOf]
  have hobs : observations {} (sc.next (.boot boot)).allRecords = observations {} sc.allRecords :=
    Scan.observations_next_boot h.reading hboot
  rw [h.points, ← hobs]
  exact hrecorded.points

/-! ## Every run

A run is any sequence of starts and appends.  A start ends the process before it; it is the only thing that reads the
file. -/

/-- The data directory and the process that has it open. -/
structure World (ν : Type) where
  disk : Option Bytes := none
  process : Option (History ν) := none

/-- A process starts, ending the one before it, or the running one takes a sample. -/
inductive Event where
  | start (timestamp : U64) (capacity : CapacitySnapshot) (bootId : String)
  | append (t : U64) (snapshot : List Char) (capacity : CapacitySnapshot)

/-- One call; a start that `open` refuses leaves no process, and is no step. -/
def World.step (S : Serde ν) (w : World ν) : Event → Option (World ν)
  | .start timestamp capacity bootId =>
      match History.open S w.disk 0 timestamp capacity bootId with
      | .ok (history, file) => some ⟨some file, some history⟩
      | .error _ => none
  | .append t snapshot capacity =>
      match w.disk, w.process with
      | some file, some history =>
          let (history, file, _) := history.append S file t snapshot capacity
          some ⟨some file, some history⟩
      | _, _ => none

/-- Lifetimes on one data directory, empty at first, with retention off. -/
def lifetimes (S : Serde ν) : System (World ν) Event := .ofStep (· = {}) (World.step S)

/-- An append whose state, should it be written as a sample, is read back digit for digit. -/
def Event.ReadsBack (S : Serde ν) : Event → Prop
  | .start _ _ _ => True
  | .append _ snapshot _ => S.ReadsBack (canonicalState (parseExposition snapshot))

omit [DecidableEq ν] in
/-- To an exact codec every append is one. -/
theorem Serde.Faithful.event {S : Serde ν} (hS : S.Faithful) (e : Event) : e.ReadsBack S := by
  cases e with
  | start t capacity bootId => trivial
  | append t snapshot capacity => exact hS.readsBack (stateOk_canonicalState (finite_parseExposition snapshot))

/-- An empty directory, or a file of records that are all read back, whose scan matches the process. -/
def World.Consistent (S : Serde ν) (w : World ν) : Prop :=
  w = {} ∨ ∃ rs history, w = ⟨some (fileOf S rs), some history⟩ ∧ rs ≠ [] ∧
    (∀ r ∈ rs, S.Restores r) ∧ Recorded (rs.foldl Scan.next {}) history

omit [DecidableEq ν] in
/-- One record more in the file, and the scan in step with the index. -/
theorem World.Consistent.write {S : Serde ν} {rs : List (Record ν)} (hrs : ∀ r ∈ rs, S.Restores r)
    {r : Record ν} (hr : S.Restores r) {history : History ν}
    (h : Recorded ((rs.foldl Scan.next {}).next r) history) :
    World.Consistent S ⟨some (fileOf S (rs ++ [r])), some history⟩ := by
  refine .inr ⟨rs ++ [r], history, rfl, by simp, ?_, ?_⟩
  · intro r' hr'
    rcases List.mem_append.mp hr' with hold | hnew
    · exact hrs r' hold
    · obtain rfl := List.mem_singleton.mp hnew
      exact hr
  · rw [List.foldl_append]
    exact h

/-- `open` refuses a clock that is behind the file. -/
theorem not_behind_of_open {S : Serde ν} {file : Bytes} {replay : Replay ν}
    (hvalid : validateCanonical S file = .ok replay) {days t : U64} {capacity : CapacitySnapshot}
    {bootId : String} {out : History ν × Bytes}
    (hopen : History.open S (some file) days t capacity bootId = .ok out) :
    replay.orderingBound.any (t < ·) = false := by
  cases hbound : replay.orderingBound.any (t < ·) with
  | false => rfl
  | true =>
      have hold : notOlder replay.orderingBound
          (.boot ⟨t, bootId, canonicalCapacity capacity⟩ : Record ν) = false := congrArg not hbound
      simp [«open», HistoryStore.open, hvalid, hold] at hopen

/-- The file is not ahead of the clock. -/
def World.NotBehind (S : Serde ν) (w : World ν) (t : U64) : Prop :=
  ∀ file ∈ w.disk, ∀ replay, validateCanonical S file = .ok replay →
    ∀ bound ∈ replay.orderingBound, bound ≤ t

omit [DecidableEq ν] in
/-- The clock is not behind the bound of the scan. -/
theorem World.NotBehind.bound {S : Serde ν} {rs : List (Record ν)} (hne : rs ≠ [])
    (hrs : ∀ r ∈ rs, S.Restores r) {process : Option (History ν)} {t : U64}
    (h : World.NotBehind S ⟨some (fileOf S rs), process⟩ t) :
    (rs.foldl Scan.next {}).replay.orderingBound.any (t < ·) = false := by
  have hlog := (rs.foldl Scan.next {}).log_closeEpoch
  simp only [Replay.log, Prod.mk.injEq] at hlog
  rw [← hlog.2.1]
  cases hlast : (rs.foldl Scan.next {}).closeEpoch.orderingBound with
  | none => rfl
  | some bound => simpa using h _ rfl _ (validateCanonical_fileOf hne hrs) bound hlast

/-- **A start on a consistent directory** succeeds if the clock is not behind the file; the directory is
consistent again, and the new index is the old one. -/
theorem World.Consistent.start {S : Serde ν} (hS : S.Plain) {w : World ν} (h : w.Consistent S)
    {t : U64} (hbound : w.NotBehind S t) (capacity : CapacitySnapshot) (bootId : String) :
    ∃ reopened file, History.open S w.disk 0 t capacity bootId = .ok (reopened, file) ∧
      ∀ history ∈ w.process, reopened.inner.points = history.inner.points := by
  rcases h with rfl | ⟨rs, history, rfl, hne, hrs, hrec⟩
  · obtain ⟨hopen, -⟩ := open_first hS t capacity bootId
    exact ⟨_, _, hopen, by simp⟩
  · obtain ⟨hopen, -, hpoints⟩ := hrec.reopen hS hne hrs (hbound.bound hne hrs) capacity bootId
    refine ⟨_, _, hopen, ?_⟩
    rintro _ ⟨⟩
    exact hpoints

/-- **A step from the empty directory** is the first boot. -/
theorem World.step_empty {S : Serde ν} (hS : S.Plain) {w' : World ν} {e : Event}
    (hstep : World.step S {} e = some w') :
    ∃ t capacity bootId, w' = ⟨some (fileOf S [.boot ⟨t, bootId, canonicalCapacity capacity⟩]),
      some (openedFresh t capacity bootId)⟩ := by
  cases e with
  | start t capacity bootId =>
      rw [World.step, (open_first hS t capacity bootId).1] at hstep
      exact ⟨t, capacity, bootId, (Option.some.inj hstep).symm⟩
  | append t snapshot capacity => cases hstep

/-- **A step on a file of records** writes one more: the boot of a process that starts on it, with a clock
that is not behind, or the sample of an append. -/
theorem World.step_records {S : Serde ν} (hS : S.Plain) {rs : List (Record ν)} (hne : rs ≠ [])
    (hrs : ∀ r ∈ rs, S.Restores r) {history : History ν} (h : Recorded (rs.foldl Scan.next {}) history)
    {w' : World ν} {e : Event} (he : e.ReadsBack S)
    (hstep : World.step S ⟨some (fileOf S rs), some history⟩ e = some w') :
    (∃ t capacity bootId, (rs.foldl Scan.next {}).replay.orderingBound.any (t < ·) = false ∧
      w' = ⟨some (fileOf S (rs ++ [.boot ⟨t, bootId, canonicalCapacity capacity⟩])),
        some (openedOn rs 0 t capacity bootId)⟩) ∨
    ∃ t snapshot capacity, S.Restores (history.written t snapshot capacity) ∧
      w' = ⟨some (fileOf S (rs ++ [history.written t snapshot capacity])),
        some (history.append S (fileOf S rs) t snapshot capacity).1⟩ := by
  cases e with
  | start t capacity bootId =>
      rw [World.step] at hstep
      cases hopen : History.open S (some (fileOf S rs)) 0 t capacity bootId with
      | error error => simp [hopen] at hstep
      | ok out =>
          have hclosed := not_behind_of_open (validateCanonical_fileOf hne hrs) hopen
          have hlog := (rs.foldl Scan.next {}).log_closeEpoch
          simp only [Replay.log, Prod.mk.injEq] at hlog
          rw [hlog.2.1] at hclosed
          rw [(h.reopen hS hne hrs hclosed capacity bootId).1] at hstep
          exact .inl ⟨t, capacity, bootId, hclosed, (Option.some.inj hstep).symm⟩
  | append t snapshot capacity =>
      obtain ⟨hfile, -⟩ := h.append hS (fileOf S rs) t snapshot capacity
      have hfile' : (history.append S (fileOf S rs) t snapshot capacity).2.1 =
          fileOf S (rs ++ [history.written t snapshot capacity]) := by
        rw [hfile, fileOf_append]
        simp [fileOf]
      refine .inr ⟨t, snapshot, capacity, history.canonical.restores_recordOf hS he _ _, ?_⟩
      rw [← hfile']
      exact (Option.some.inj hstep).symm

/-- **Every call keeps the directory consistent.** -/
theorem World.Consistent.step {S : Serde ν} (hS : S.Plain) {w w' : World ν} {e : Event}
    (h : w.Consistent S) (he : e.ReadsBack S) (hstep : w.step S e = some w') : w'.Consistent S := by
  rcases h with rfl | ⟨rs, history, rfl, hne, hrs, hrec⟩
  · obtain ⟨t, capacity, bootId, rfl⟩ := World.step_empty hS hstep
    exact .inr ⟨_, _, rfl, by simp, by simpa using hS.restores_boot _, (open_first hS t capacity bootId).2⟩
  · rcases World.step_records hS hne hrs hrec he hstep with
      ⟨t, capacity, bootId, hbound, rfl⟩ | ⟨t, snapshot, capacity, hr, rfl⟩
    · exact World.Consistent.write hrs (hS.restores_boot _)
        (hrec.reopen hS hne hrs hbound capacity bootId).2.1
    · obtain ⟨-, hrec'⟩ := hrec.append hS (fileOf S rs) t snapshot capacity
      exact World.Consistent.write hrs hr hrec'

/-- **The live index is the replayed index.** At every moment of every run of lifetimes, opening the file
again, with a clock that is not behind it and any boot id, succeeds and rebuilds the points in memory. -/
theorem open_points_of_reachable {S : Serde ν} (hS : S.Faithful) {w : World ν}
    (hw : (lifetimes S).Reachable w) {t : U64} (hbound : w.NotBehind S t) (capacity : CapacitySnapshot)
    (bootId : String) :
    ∃ reopened file, History.open S w.disk 0 t capacity bootId = .ok (reopened, file) ∧
      ∀ history ∈ w.process, reopened.inner.points = history.inner.points := by
  have hcons : w.Consistent S := hw.invariant (fun h => .inl h) fun {_ e _} h hstep =>
    h.step hS.plain (hS.event e) hstep
  exact hcons.start hS.plain hbound capacity bootId

end Steps

/-- A scrape of one counter. -/
def scraped (value : Char) : List Char :=
  "# TYPE flock_requests_total counter\nflock_requests_total\x7bmodel=\"m\"\x7d ".toList ++
    [value, '\n']

/-- A process boots, scrapes a counter twice with nothing between, and a third time with its clock set
back. -/
def firstLifetime : List Event :=
  [.start 10 ⟨1, [40], 40⟩ "a", .append 20 (scraped '5') ⟨1, [40], 40⟩,
   .append 30 (scraped '5') ⟨1, [40], 40⟩, .append 25 (scraped '7') ⟨1, [40], 40⟩]

/-- Its points, which a restart reads back from a boot, a sample, a checkpoint and a sample. -/
theorem open_points_of_firstLifetime :
    ∃ w history, (lifetimes json).Reachable w ∧ w.process = some history ∧
      history.inner.points.map (fun p => (p.t, p.deltas.values)) = [(20, [5]), (30, [0]), (30, [2])] ∧
      ∃ reopened file, History.open json w.disk 0 u64Max ⟨1, [40], 40⟩ "b" = .ok (reopened, file) ∧
        reopened.inner.points = history.inner.points := by
  let ended (w : World ℚ) : Bool := w.process.any fun history =>
    history.inner.points.map (fun p => (p.t, p.deltas.values)) == [(20, [5]), (30, [0]), (30, [2])]
  have hrun : (System.exec (World.step json) {} firstLifetime).any ended = true := by decide +kernel
  obtain ⟨w, hw, hended⟩ : ∃ w, (lifetimes json).Reachable w ∧ ended w = true :=
    System.reachable_of_exec rfl hrun
  obtain ⟨history, hhistory, hpoints⟩ := Option.any_eq_true _ _ |>.mp hended
  obtain ⟨reopened, file, hopen, hsame⟩ :=
    open_points_of_reachable json_faithful hw (t := u64Max) (fun _ _ _ _ bound _ => Fin.le_last bound)
      ⟨1, [40], 40⟩ "b"
  exact ⟨w, history, hw, hhistory, by simpa using hpoints, reopened, file, hopen,
    hsame history hhistory⟩

end Flock.History
