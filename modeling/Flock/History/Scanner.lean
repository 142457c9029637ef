/-
# Flock.History.Scanner — reading the canonical file back.

`validate_canonical` reads the file line by line.  Records are held back until their epoch is known to be
usable: a boot opens an epoch, a sample of the same boot makes it usable, and anything out of place (a
line that does not decode, a time that regresses, another boot's record, a checkpoint before any sample)
excludes the whole epoch and opens a recovery gap that the next boot closes.

The scan is split as the source is: bytes to lines, a line to a record or an error, and one transition of
the scanner for each.  `scanRecord` is the transition for a line that decodes.
-/
import Flock.History.Index

namespace Flock.History

variable {ν : Type}

/-! ## Errors and lines -/

/-- `OpenError`; an I/O error carries its text. -/
inductive OpenError where
  | io (text : String)
  | emptyCanonical
  | invalidCanonical (line : ℕ) (error : DecodeError)
  | unterminatedRecord
  | invalidStream (line : ℕ) (reason : String)
  deriving DecidableEq, Repr

/-- `u8::is_ascii_whitespace`. -/
def isAsciiWhitespace (b : UInt8) : Bool := b == 32 || b == 9 || b == 10 || b == 12 || b == 13

/-- A line of white space. -/
def isBlank (line : Bytes) : Bool := line.all isAsciiWhitespace

/-- `read_until(b'\n')` to the end of the file: the terminated lines, without their line feed, and what
follows the last of them. -/
def readLines : Bytes → List Bytes × Bytes
  | [] => ([], [])
  | b :: rest =>
      let (lines, tail) := readLines rest
      if b = newline then ([] :: lines, tail)
      else
        match lines with
        | [] => ([], b :: tail)
        | line :: lines => ((b :: line) :: lines, tail)

/-! ## The scanner -/

/-- `Epoch`: an epoch being read. -/
structure Epoch (ν : Type) where
  bootId : String
  start : U64
  records : List (Record ν)
  state : Option (List (StateEntry ν)) := none
  diagnosticEvents : List DiagnosticEvent := []

/-- `Epoch::new`. -/
def Epoch.new (boot : BootRecord) : Epoch ν where
  bootId := boot.bootId
  start := boot.timestamp
  records := [.boot boot]

/-- `ScannerState`. -/
inductive ScannerState (ν : Type) where
  | awaitBoot
  | awaitSample (epoch : Epoch ν)
  | usable (epoch : Epoch ν)
  | invalidEpoch

namespace Replay

/-- `add_diagnostics` to the totals, and the event to the log. -/
def note (replay : Replay ν) (event : DiagnosticEvent) : Replay ν :=
  { replay with
    diagnostics := replay.diagnostics.add event.diagnostics
    diagnosticEvents := replay.diagnosticEvents ++ [event] }

/-- `exclude_record`. -/
def excludeRecord (replay : Replay ν) (time : U64) : Replay ν :=
  replay.note ⟨time, { excludedRecords := 1 }⟩

/-- `open_gap`: the gap that is still open reaches back, or a new one opens. -/
def openGap (replay : Replay ν) (start : U64) : Replay ν :=
  match replay.gaps.getLast?.filter fun gap => gap.stop == u64Max with
  | some gap =>
      { replay with gaps := replay.gaps.dropLast ++ [{ gap with start := min gap.start start }] }
  | none => { replay with gaps := replay.gaps ++ [⟨start, u64Max⟩] }

/-- `close_open_gap`: the last gap that is open ends here. -/
def closeOpenGap (replay : Replay ν) (time : U64) : Replay ν :=
  match replay.gaps.reverse.findIdx? fun gap => gap.stop == u64Max with
  | some i =>
      { replay with
        gaps := (replay.gaps.reverse.modify i fun gap => { gap with stop := time }).reverse }
  | none => replay

/-- `exclude_epoch`. -/
def excludeEpoch (replay : Replay ν) (epoch : Epoch ν) (damagingTimestamp : Option U64) : Replay ν :=
  let replay := replay.note ⟨epoch.start, { excludedEpochs := 1 }⟩
  let replay := epoch.records.foldl (fun replay r => replay.excludeRecord r.timestamp) replay
  let replay := damagingTimestamp.toList.foldl excludeRecord replay
  replay.openGap epoch.start

/-- `commit_epoch`. -/
def commitEpoch (replay : Replay ν) (epoch : Epoch ν) : Replay ν :=
  let replay := epoch.diagnosticEvents.foldl note replay
  { replay with records := replay.records ++ epoch.records }

/-- `advance_ordering_bound`. -/
def advanceOrderingBound (replay : Replay ν) (time : U64) : Replay ν :=
  { replay with
    orderingBound := some (match replay.orderingBound with
      | some previous => max previous time
      | none => time) }

end Replay

/-- `add_sample`. -/
def Epoch.addSample (epoch : Epoch ν) (s : SampleRecord ν) : Epoch ν :=
  { epoch with
    state := some s.state
    diagnosticEvents := epoch.diagnosticEvents ++
      [⟨s.timestamp, { normalizedSeries := s.state.length, validSamples := 1 }⟩]
    records := epoch.records ++ [.sample s] }

/-- `add_checkpoint`. -/
def Epoch.addCheckpoint (epoch : Epoch ν) (c : CheckpointRecord) : Epoch ν :=
  { epoch with
    diagnosticEvents := epoch.diagnosticEvents ++
      [⟨c.timestamp,
        { normalizedSeries := (epoch.state.map List.length).getD 0, validCheckpoints := 1 }⟩]
    records := epoch.records ++ [.checkpoint c] }

/-- What the loop of `validate_canonical` carries. -/
structure Scan (ν : Type) where
  state : ScannerState ν := .awaitBoot
  replay : Replay ν := {}
  sawNonblank : Bool := false

namespace Scan

/-- `invalidate`. -/
def invalidate (sc : Scan ν) (time : U64) : Scan ν :=
  let replay := match sc.state with
    | .awaitSample epoch => sc.replay.excludeEpoch epoch (some time)
    | .usable epoch => sc.replay.excludeEpoch epoch (some time)
    | .awaitBoot => (sc.replay.excludeRecord time).openGap time
    | .invalidEpoch => (sc.replay.excludeRecord time).openGap time
  { sc with state := .invalidEpoch, replay := replay }

/-- The end of an epoch: committed if usable, excluded if no sample came. -/
def closeEpoch (sc : Scan ν) : Replay ν :=
  match sc.state with
  | .awaitSample epoch => sc.replay.excludeEpoch epoch none
  | .usable epoch => sc.replay.commitEpoch epoch
  | .awaitBoot => sc.replay
  | .invalidEpoch => sc.replay

/-- `start_boot`. -/
def startBoot (sc : Scan ν) (boot : BootRecord) : Scan ν :=
  { sc with
    state := .awaitSample (Epoch.new boot)
    replay := sc.closeEpoch.closeOpenGap boot.timestamp }

/-- `ingest_record` for a sample.  A sample of another boot, or outside an epoch, does what `invalidate`
does. -/
def ingestSample (sc : Scan ν) (s : SampleRecord ν) : Scan ν :=
  match sc.state with
  | .awaitSample epoch =>
      if epoch.bootId = s.bootId then { sc with state := .usable (epoch.addSample s) }
      else sc.invalidate s.timestamp
  | .usable epoch =>
      if epoch.bootId = s.bootId then { sc with state := .usable (epoch.addSample s) }
      else sc.invalidate s.timestamp
  | .awaitBoot => sc.invalidate s.timestamp
  | .invalidEpoch => sc.invalidate s.timestamp

/-- `ingest_record` for a checkpoint: a checkpoint before any sample damages the epoch. -/
def ingestCheckpoint (sc : Scan ν) (c : CheckpointRecord) : Scan ν :=
  match sc.state with
  | .usable epoch =>
      if epoch.bootId = c.bootId then { sc with state := .usable (epoch.addCheckpoint c) }
      else sc.invalidate c.timestamp
  | .awaitSample _ => sc.invalidate c.timestamp
  | .awaitBoot => sc.invalidate c.timestamp
  | .invalidEpoch => sc.invalidate c.timestamp

/-- A line that decodes. -/
def scanRecord (sc : Scan ν) (r : Record ν) : Scan ν :=
  if sc.replay.orderingBound.any (r.timestamp < ·) then sc.invalidate r.timestamp
  else
    let sc := { sc with replay := sc.replay.advanceOrderingBound r.timestamp }
    match r with
    | .boot b => sc.startBoot b
    | .sample s => sc.ingestSample s
    | .checkpoint c => sc.ingestCheckpoint c

/-- A line that does not decode: its time, if it has one that can be trusted, still counts for the
order. -/
def scanDamage (S : Serde ν) (sc : Scan ν) (line : Bytes) : Scan ν :=
  let time := S.trustworthyTimestamp line
  let sc := { sc with replay := time.toList.foldl Replay.advanceOrderingBound sc.replay }
  sc.invalidate ((time.or sc.replay.orderingBound).getD 0)

variable [F64 ν]

/-- One terminated line of the file, the `index`-th. -/
def scanLine (S : Serde ν) (index : ℕ) (line : Bytes) (sc : Scan ν) : Except OpenError (Scan ν) :=
  if isBlank line then .ok sc
  else
    let sc := { sc with sawNonblank := true }
    match decodeRecord S line with
    | .ok record => .ok (sc.scanRecord record)
    | .error .unsupportedFormat => .error (.invalidCanonical index .unsupportedFormat)
    | .error .unsupportedVersion => .error (.invalidCanonical index .unsupportedVersion)
    | .error _ => .ok (sc.scanDamage S line)

/-- The terminated lines of the file. -/
def scanLines (S : Serde ν) (index : ℕ) (sc : Scan ν) : List Bytes → Except OpenError (Scan ν)
  | [] => .ok sc
  | line :: rest =>
      match sc.scanLine S index line with
      | .ok sc => scanLines S (index + 1) sc rest
      | .error error => .error error

/-- What follows the last line feed, if anything does. -/
def scanTail (S : Serde ν) (index : ℕ) (line : Bytes) (sc : Scan ν) : Except OpenError (Scan ν) :=
  if line.isEmpty then .ok sc
  else
    match decodeRecord S line with
    | .error .unsupportedFormat => .error (.invalidCanonical index .unsupportedFormat)
    | .error .unsupportedVersion => .error (.invalidCanonical index .unsupportedVersion)
    | .ok _ | .error _ =>
        let sc := { sc with
          sawNonblank := sc.sawNonblank || !isBlank line
          replay := { sc.replay with needsSeparator := !isBlank line } }
        .ok (sc.scanDamage S line)

end Scan

/-- `validate_canonical`. -/
def validateCanonical [F64 ν] (S : Serde ν) (file : Bytes) : Except OpenError (Replay ν) :=
  let (lines, tail) := readLines file
  match Scan.scanLines S 1 {} lines with
  | .error error => .error error
  | .ok sc =>
      match sc.scanTail S (lines.length + 1) tail with
      | .error error => .error error
      | .ok sc => if sc.sawNonblank then .ok sc.closeEpoch else .error .emptyCanonical

/-! ## What a transition leaves alone

Diagnostics and gaps are kept beside the log proper: the records, the bound and the separator flag. -/

namespace Replay

/-- The records, the ordering bound, and whether a separator is due. -/
def log (replay : Replay ν) : List (Record ν) × Option U64 × Bool :=
  (replay.records, replay.orderingBound, replay.needsSeparator)

theorem log_note (replay : Replay ν) (event : DiagnosticEvent) :
    (replay.note event).log = replay.log := rfl

theorem log_excludeRecord (replay : Replay ν) (time : U64) :
    (replay.excludeRecord time).log = replay.log := rfl

theorem log_openGap (replay : Replay ν) (start : U64) : (replay.openGap start).log = replay.log := by
  rw [openGap]
  split <;> rfl

theorem log_closeOpenGap (replay : Replay ν) (time : U64) :
    (replay.closeOpenGap time).log = replay.log := by
  rw [closeOpenGap]
  split <;> rfl

/-- A fold whose steps leave the log alone leaves it alone. -/
theorem log_foldl {α : Type} {f : Replay ν → α → Replay ν}
    (h : ∀ replay a, (f replay a).log = replay.log) (xs : List α) :
    ∀ replay, (xs.foldl f replay).log = replay.log := by
  induction xs with
  | nil => intro replay; rfl
  | cons x rest ih =>
      intro replay
      rw [List.foldl_cons, ih, h]

theorem log_excludeEpoch (replay : Replay ν) (epoch : Epoch ν) (time : Option U64) :
    (replay.excludeEpoch epoch time).log = replay.log := by
  rw [excludeEpoch, log_openGap, log_foldl log_excludeRecord,
    log_foldl fun replay r => log_excludeRecord replay _, log_note]

theorem log_commitEpoch (replay : Replay ν) (epoch : Epoch ν) :
    (replay.commitEpoch epoch).log =
      (replay.records ++ epoch.records, replay.orderingBound, replay.needsSeparator) := by
  have hlog : (epoch.diagnosticEvents.foldl note replay).log = replay.log :=
    log_foldl log_note _ _
  simp only [log, Prod.mk.injEq] at hlog
  simp only [commitEpoch, log, hlog]

end Replay

namespace Scan

/-- The records an epoch is committed with when it ends here. -/
def committed (sc : Scan ν) : List (Record ν) :=
  match sc.state with
  | .usable epoch => epoch.records
  | .awaitSample _ => []
  | .awaitBoot => []
  | .invalidEpoch => []

/-- The records read so far, the epoch being read included. -/
def allRecords (sc : Scan ν) : List (Record ν) :=
  sc.replay.records ++ match sc.state with
    | .awaitSample epoch => epoch.records
    | .usable epoch => epoch.records
    | .awaitBoot => []
    | .invalidEpoch => []

theorem log_closeEpoch (sc : Scan ν) :
    sc.closeEpoch.log =
      (sc.replay.records ++ sc.committed, sc.replay.orderingBound, sc.replay.needsSeparator) := by
  obtain ⟨state, replay, sawNonblank⟩ := sc
  cases state with
  | awaitBoot => simp [closeEpoch, committed, Replay.log]
  | awaitSample epoch =>
      simp only [closeEpoch, committed, Replay.log_excludeEpoch, List.append_nil]
      rfl
  | usable epoch => simp [closeEpoch, committed, Replay.log_commitEpoch]
  | invalidEpoch => simp [closeEpoch, committed, Replay.log]

theorem sawNonblank_scanRecord (sc : Scan ν) (r : Record ν) :
    (sc.scanRecord r).sawNonblank = sc.sawNonblank := by
  rw [scanRecord]
  split
  · rfl
  · cases r with
    | boot b => rfl
    | sample s =>
        simp only [ingestSample]
        repeat' split
        all_goals rfl
    | checkpoint c =>
        simp only [ingestCheckpoint]
        repeat' split
        all_goals rfl

end Scan

/-! ## Reading back what was written -/

theorem readLines_cons {line rest : Bytes} (h : newline ∉ line) :
    readLines (line ++ newline :: rest) = (line :: (readLines rest).1, (readLines rest).2) := by
  induction line with
  | nil => rfl
  | cons b line ih =>
      obtain ⟨hb, hline⟩ := not_or.mp (mt List.mem_cons.mpr h)
      rw [List.cons_append, readLines, ih hline]
      simp [Ne.symm hb]

/-- A line that starts with a brace is not blank. -/
theorem isBlank_of_head {line : Bytes} (h : line.head? = some 0x7b) : isBlank line = false := by
  cases line with
  | nil => cases h
  | cons b rest =>
      obtain rfl : b = 0x7b := by simpa using h
      rfl

/-- A record that was written, as the scanner meets it. -/
def Scan.next (sc : Scan ν) (r : Record ν) : Scan ν := { sc with sawNonblank := true }.scanRecord r

theorem Scan.sawNonblank_foldl_next {rs : List (Record ν)} (hne : rs ≠ []) :
    ∀ sc : Scan ν, (rs.foldl Scan.next sc).sawNonblank = true := by
  induction rs with
  | nil => exact absurd rfl hne
  | cons r rest ih =>
      intro sc
      cases rest with
      | nil => simp [Scan.next, Scan.sawNonblank_scanRecord]
      | cons r' rest' => exact ih (by simp) _

section Written

variable [F64 ν]

/-- A record as it is appended to the file. -/
def recordLine (S : Serde ν) (r : Record ν) : Bytes :=
  match encodeRecord S r with
  | .ok line => line ++ [newline]
  | .error _ => []

/-- The file of a list of records. -/
def fileOf (S : Serde ν) (rs : List (Record ν)) : Bytes := rs.flatMap (recordLine S)

theorem fileOf_append (S : Serde ν) (rs rs' : List (Record ν)) :
    fileOf S (rs ++ rs') = fileOf S rs ++ fileOf S rs' := List.flatMap_append

theorem Scan.scanLine_of_decode {S : Serde ν} {line : Bytes} {r : Record ν}
    (hhead : line.head? = some 0x7b) (hdecode : decodeRecord S line = .ok r) (index : ℕ)
    (sc : Scan ν) : sc.scanLine S index line = .ok (sc.next r) := by
  simp [Scan.scanLine, isBlank_of_head hhead, hdecode, Scan.next]

/-- **The file of a list of records is read back as that list.** -/
theorem scanLines_fileOf {S : Serde ν} {rs : List (Record ν)} (hrs : ∀ r ∈ rs, S.Restores r) :
    (readLines (fileOf S rs)).2 = [] ∧
      ∀ index sc, Scan.scanLines S index sc (readLines (fileOf S rs)).1 = .ok (rs.foldl Scan.next sc) := by
  induction rs with
  | nil => exact ⟨rfl, fun _ _ => rfl⟩
  | cons r rest ih =>
      obtain ⟨htail, hlines⟩ := ih fun r' hr' => hrs r' (List.mem_cons_of_mem _ hr')
      obtain ⟨line, hencode, hnl, hhead, hdecode⟩ := hrs r List.mem_cons_self
      have hfile : fileOf S (r :: rest) = line ++ newline :: fileOf S rest := by
        simp [fileOf, recordLine, hencode]
      rw [hfile, readLines_cons hnl]
      refine ⟨htail, fun index sc => ?_⟩
      simp only [Scan.scanLines, Scan.scanLine_of_decode hhead hdecode, hlines, List.foldl_cons]

/-- **Replaying a file of records** scans the records. -/
theorem validateCanonical_fileOf {S : Serde ν} {rs : List (Record ν)} (hne : rs ≠ [])
    (hrs : ∀ r ∈ rs, S.Restores r) :
    validateCanonical S (fileOf S rs) = .ok (rs.foldl Scan.next {}).closeEpoch := by
  obtain ⟨htail, hlines⟩ := scanLines_fileOf hrs
  simp only [validateCanonical, hlines, htail]
  simp [Scan.scanTail, Scan.sawNonblank_foldl_next hne]

end Written

end Flock.History
