/-
# Flock.History.Stability — does a second restart read what the first one showed?

`open` replays a file, appends its boot record and, with the first sample, an epoch.  A second restart
scans the same bytes again, but the tail of the first scan is a line by now.  If it was damage as a tail
and is damage as a line, the two readings agree, in the records and in what they count as excluded.  They
disagree in three cases: a tail that is a record lacking only its line feed was counted as damage and is
taken as a line; a tail of white space was counted as damage and is no line of its own; and a tail that is
read as a record of a later time only once it is a line puts the bound past the new boot.  And the new epoch
itself is what the first restart showed only if the number of its sample is read back to the last digit.
-/
import Flock.History.Recovery

namespace Flock.History

variable {ν : Type}

/-! ## What is counted as excluded

What is compared in the two readings is a pair of numbers besides the records: epochs and records excluded.  Each
operation of the scan is followed on this pair. -/

/-- The epochs and records a replay excluded. -/
def Replay.excluded (replay : Replay ν) : ℕ × ℕ :=
  (replay.diagnostics.excludedEpochs, replay.diagnostics.excludedRecords)

/-- The other counts of a replay do not matter here. -/
theorem Replay.excluded_of_counts {replay replay' : Replay ν} {n m : ℕ} {rest : ℕ × ℕ}
    (h : replay'.counts = replay.counts + (n, m, rest)) :
    replay'.excluded = replay.excluded + (n, m) := by
  obtain ⟨hepochs, hrecords⟩ := Prod.mk.inj h
  exact Prod.ext hepochs (Prod.mk.inj hrecords).1

namespace Scan

/-- The epoch being read, if it has no sample: it is excluded when it ends. -/
def unsampled (sc : Scan ν) : Option (Epoch ν) :=
  match sc.state with
  | .awaitSample epoch => some epoch
  | .usable _ => none
  | .awaitBoot => none
  | .invalidEpoch => none

/-- Damage excludes the epoch being read, the records that wait for a sample, and the line itself. -/
theorem excluded_damaged (sc : Scan ν) (time : Option U64) :
    (sc.damaged time).replay.excluded =
      sc.replay.excluded + (sc.epoch?.toList.length, sc.pending.length + 1) :=
  Replay.excluded_of_counts (sc.counts_damaged time)

/-- A tail, whatever it is, excludes the epoch being read and counts as a record. -/
theorem excluded_torn {S : Serde ν} (sc : Scan ν) (tail : Bytes) :
    (sc.torn S tail).replay.excluded =
      sc.replay.excluded + (sc.epoch?.toList.length, sc.pending.length + 1) :=
  (sc.unterminated tail).excluded_damaged (S.trustworthyTimestamp tail)

/-- The bound only grows, so a clock that is not behind it now was not behind it before. -/
theorem any_of_any_damaged {sc : Scan ν} {time : Option U64} {t : U64}
    (h : (sc.damaged time).replay.orderingBound.any (t < ·) = false) :
    sc.replay.orderingBound.any (t < ·) = false := by
  cases hbound : sc.replay.orderingBound with
  | none => rfl
  | some bound =>
      obtain ⟨later, hlater, hle⟩ := exists_bound_damaged ⟨bound, hbound, le_rfl⟩ time
      rw [Option.mem_def.mp hlater] at h
      have hlater' : later ≤ t := by simpa using h
      simpa using hle.trans hlater'

/-- Damage at a time moves the bound up to that time. -/
theorem any_damaged_some (sc : Scan ν) (time t : U64) :
    (sc.damaged (some time)).replay.orderingBound.any (t < ·) =
      (sc.replay.orderingBound.any (t < ·) || decide (t < time)) := by
  rw [orderingBound_damaged]
  cases hbound : sc.replay.orderingBound with
  | none => simp [Replay.advanceOrderingBound, hbound]
  | some bound => simp [Replay.advanceOrderingBound, hbound]

/-- **The end of an epoch** excludes it only if it has no sample. -/
theorem excluded_closeEpoch {sc : Scan ν} (h : ∀ epoch ∈ sc.epoch?, epoch.Tallied) :
    sc.closeEpoch.excluded = sc.replay.excluded +
      (sc.unsampled.toList.length, (sc.unsampled.map fun epoch => epoch.records.length).getD 0) := by
  obtain ⟨state, replay, sawNonblank⟩ := sc
  cases state with
  | awaitBoot => rfl
  | invalidEpoch => rfl
  | awaitSample epoch => exact Replay.excluded_of_counts (replay.counts_excludeEpoch epoch none)
  | usable epoch => exact Replay.excluded_of_counts (replay.counts_commitEpoch (h epoch rfl))

/-- A boot that no sample follows is an excluded epoch of one record. -/
theorem closeEpoch_startBoot (sc : Scan ν) (boot : BootRecord) :
    (sc.startBoot boot).closeEpoch.records = sc.closeEpoch.records ∧
      (sc.startBoot boot).closeEpoch.excluded = sc.closeEpoch.excluded + (1, 1) := by
  let closed := sc.closeEpoch.closeOpenGap boot.timestamp
  have hrecords := congrArg Prod.fst (closed.log_excludeEpoch (Epoch.new boot) none)
  have hgap := congrArg Prod.fst (sc.closeEpoch.log_closeOpenGap boot.timestamp)
  have hcounts := closed.counts_excludeEpoch (Epoch.new boot) none
  rw [Replay.counts_closeOpenGap] at hcounts
  exact ⟨hrecords.trans hgap, Replay.excluded_of_counts hcounts⟩

/-- Where the epoch is invalid already, nothing is left to close. -/
theorem closeEpoch_of_invalidEpoch {sc : Scan ν} (h : sc.state = .invalidEpoch) :
    sc.closeEpoch = sc.replay := by
  rw [closeEpoch, h]

/-- A record that the scan would take ends or extends the epoch being read, where as a tail it excluded
that epoch. -/
theorem Takes.ne_torn {sc sc' : Scan ν} {r : Record ν} (h : sc.Takes r sc')
    (hwell : sc.WellFormed) (htallied : ∀ epoch ∈ sc.epoch?, epoch.Tallied)
    (hrecords : sc'.closeEpoch.records = sc.replay.records) :
    sc'.closeEpoch.excluded ≠
      sc.replay.excluded + (sc.epoch?.toList.length, sc.pending.length + 1) := by
  intro hexcluded
  cases hboot : r.isBoot with
  | false =>
      rw [h.closeEpoch_records hboot] at hrecords
      have hlength := congrArg List.length hrecords
      simp at hlength
  | true =>
      cases h with
      | first epoch s hstate hid => cases hboot
      | sample epoch s hstate hid => cases hboot
      | checkpoint epoch c hstate hid => cases hboot
      | boot b =>
          -- the boot has no sample yet, so its epoch would be excluded, and one more with it if that
          -- was waiting for a sample too
          obtain ⟨hsame, hboot⟩ := (sc.advance b.timestamp).closeEpoch_startBoot b
          have hadvance := @excluded_closeEpoch _ (sc.advance b.timestamp) htallied
          have hlog : (sc.advance b.timestamp).closeEpoch.records = sc.replay.records ++ sc.committed :=
            congrArg Prod.fst (sc.advance b.timestamp).log_closeEpoch
          rw [hboot, hadvance] at hexcluded
          have hfirst := congrArg Prod.fst hexcluded
          rw [hsame, hlog] at hrecords
          have hnone : sc.committed = [] := by simpa using hrecords
          have hreading := hwell.reading
          obtain ⟨state, replay, sawNonblank⟩ := sc
          cases state with
          | awaitBoot => simp [unsampled, epoch?, advance, Replay.excluded,
              Replay.advanceOrderingBound] at hfirst
          | invalidEpoch => simp [unsampled, epoch?, advance, Replay.excluded,
              Replay.advanceOrderingBound] at hfirst
          | awaitSample epoch => simp [unsampled, epoch?, advance, Replay.excluded,
              Replay.advanceOrderingBound, add_assoc] at hfirst
          | usable epoch =>
              cases hreading with
              | usable _ w hrecords' hid =>
                  have hempty : epoch.records = [] := hnone
                  rw [hrecords'] at hempty
                  cases hempty

end Scan

section Files

variable [F64 ν] [DecidableEq ν] {S : Serde ν}

/-! ## The first epoch after a restart

The second scan reads the boot and the sample that the first restart wrote.  They are an epoch of two records, unless
the bound is ahead of the boot or the boot is no line of its own. -/

omit [DecidableEq ν] in
theorem Scanned.tallied {file : Bytes} {sc : Scan ν} (h : Scanned S file sc) :
    ∀ epoch ∈ sc.epoch?, epoch.Tallied := (Scan.balanced_of_scanLines h.lines).tallied

/-- A boot and a sample after some lines: the next scan reads them as an epoch, and excludes what it would
have excluded without them. -/
theorem Scanned.validate_sampled {sc : Scan ν}
    (htallied : ∀ epoch ∈ sc.epoch?, epoch.Tallied) {t : U64}
    (hbound : sc.replay.orderingBound.any (t < ·) = false) {capacity : Capacity}
    {store : HistoryStore ν} (hstate : store.lastState = none) (htime : store.lastTimestamp = some t)
    {booted : Bytes} (hbooted : Scanned S booted (sc.next (.boot ⟨t, store.bootId, capacity⟩)))
    {call : SampleCall ν} (hcall : store.lastTimestamp.any (call.timestamp < ·) = false)
    (hr : S.Restores (store.recordOf call.timestamp call.capacity call.state)) :
    ∃ later,
      validateCanonical S (booted ++ recordLine S (store.recordOf call.timestamp call.capacity call.state)) =
        .ok later ∧
      later.records = sc.closeEpoch.records ++ [.boot ⟨t, store.bootId, capacity⟩,
        store.recordOf call.timestamp call.capacity call.state] ∧
      later.excluded = sc.closeEpoch.excluded := by
  let boot : BootRecord := ⟨t, store.bootId, capacity⟩
  have hold : sc.replay.orderingBound.any (boot.timestamp < ·) = false := hbound
  -- the boot ends the epoch of before and is not older than its records
  obtain ⟨hfollows, hall⟩ := follows_boot hbound capacity hstate htime
  obtain ⟨-, hall', hdiagnostics, epoch, hepoch⟩ := @Follows.next _ _ _ _ hfollows call hcall
  have hsampled := hbooted.record hr
  refine ⟨_, hsampled.validate (Scan.sawNonblank_scanRecord _ _), ?_, ?_⟩
  · rw [Scan.closeEpoch_records_of_usable hepoch, hall', hall]
    simp
  -- what the boot excluded is what closing the epoch would have excluded
  · have hnone : ((sc.next (.boot boot)).next
        (store.recordOf call.timestamp call.capacity call.state)).unsampled = none := by
      rw [Scan.unsampled, hepoch]
    obtain ⟨-, -, -, -, hreplay⟩ := Scan.next_boot hold
    have hgap := (Replay.diagnostics_closeOpenGap (sc.advance t).closeEpoch t).1
    have hexcluded : ((sc.next (.boot boot)).next
        (store.recordOf call.timestamp call.capacity call.state)).replay.excluded =
          (sc.advance t).closeEpoch.excluded := by
      rw [Replay.excluded, hdiagnostics, hreplay, hgap]
      rfl
    rw [Scan.excluded_closeEpoch hsampled.tallied, hnone, hexcluded,
      Scan.excluded_closeEpoch htallied]
    exact @Scan.excluded_closeEpoch _ (sc.advance t) htallied

omit [DecidableEq ν] in
/-- **A store that was opened** on a file: the file validates, and is not ahead of the clock. -/
theorem HistoryStore.open_ok (hS : S.Plain) {file file₁ : Bytes} {t : U64} {capacity : Capacity}
    {bootId : String} {store : HistoryStore ν}
    (h : HistoryStore.open S (some file) t capacity bootId = .ok (store, file₁)) :
    ∃ replay, validateCanonical S file = .ok replay ∧ replay.orderingBound.any (t < ·) = false ∧
      store.bootId = bootId ∧ store.lastState = none ∧ store.lastTimestamp = some t ∧
      store.replay.records = replay.records ++ [.boot ⟨t, bootId, capacity⟩] ∧
      store.replay.excluded = replay.excluded ∧
      file₁ = (if replay.needsSeparator then file ++ [newline] else file) ++
        recordLine S (.boot ⟨t, bootId, capacity⟩) := by
  cases hvalid : validateCanonical S file with
  | error error => simp [HistoryStore.open, hvalid] at h
  | ok replay =>
      cases hold : replay.orderingBound.any (t < ·) with
      | true =>
          have hnot : notOlder replay.orderingBound (.boot ⟨t, bootId, capacity⟩ : Record ν) = false :=
            congrArg not hold
          simp [HistoryStore.open, hvalid, hnot] at h
      | false =>
          rw [HistoryStore.open_existing hS hvalid hold] at h
          obtain ⟨rfl, rfl⟩ := Prod.mk.inj (Except.ok.inj h)
          let booted : Replay ν :=
            { replay with records := replay.records ++ [.boot ⟨t, bootId, capacity⟩] }
          have hgap := (booted.diagnostics_closeOpenGap t).1
          refine ⟨replay, rfl, hold, rfl, rfl, rfl, congrArg Prod.fst (booted.log_closeOpenGap t), ?_, rfl⟩
          rw [Replay.excluded, hgap]
          rfl

omit [DecidableEq ν] in
/-- The bound that a tail leaves as a line is not ahead of a clock that was not behind the tail, if no record
in it is. -/
theorem Scan.any_tail_of_torn {sc : Scan ν} {tail : Bytes} {t : U64}
    (hbound : (sc.torn S tail).replay.orderingBound.any (t < ·) = false)
    (htime : ∀ r, decodeRecord S tail = .ok r → r.timestamp ≤ t) :
    (sc.seen.damaged (parseableTimestamp S tail)).replay.orderingBound.any (t < ·) = false := by
  have hlines : sc.replay.orderingBound.any (t < ·) = false :=
    @Scan.any_of_any_damaged _ (sc.unterminated tail) (S.trustworthyTimestamp tail) t hbound
  rw [Scan.orderingBound_torn] at hbound
  rw [parseableTimestamp]
  cases hdecode : decodeRecord S tail with
  | error error => exact hbound
  | ok r =>
      rw [Scan.any_damaged_some]
      exact Bool.or_eq_false_iff.mpr ⟨hlines, decide_eq_false (not_lt.mpr (htime r hdecode))⟩

omit [DecidableEq ν] in
/-- The bound that a record of a later time leaves. -/
theorem Scan.any_tail_of_late (sc : Scan ν) {tail : Bytes} {t : U64} {late : Record ν}
    (hlate : decodeRecord S tail = .ok late) (htime : t < late.timestamp) :
    (sc.seen.damaged (parseableTimestamp S tail)).replay.orderingBound.any (t < ·) = true := by
  rw [parseableTimestamp, hlate, Scan.any_damaged_some]
  exact Bool.or_eq_true_iff.mpr (.inr (decide_eq_true htime))

omit [DecidableEq ν] in
/-- White space in front of a record's line: the record, or no record at all. -/
theorem decodeRecord_space (hL : S.Lexical) {space line : Bytes} {r : Record ν}
    (hspace : isBlank space = true) (h : decodeRecord S line = .ok r) :
    decodeRecord S (space ++ line) = .ok r ∨
      ∃ error, decodeRecord S (space ++ line) = .error error ∧ error ≠ .unsupportedFormat ∧
        error ≠ .unsupportedVersion := by
  obtain ⟨raw, hraw, hutf⟩ : ∃ raw, S.fromSlice line = .ok raw ∧ validUtf8 line = true := by
    cases hutf : validUtf8 line with
    | false => simp [decodeRecord, hutf] at h
    | true =>
        cases hslice : S.fromSlice line with
        | ok raw => exact ⟨raw, rfl, rfl⟩
        | error error =>
            obtain ⟨error', hdecode, -⟩ := decodeRecord_of_fromSlice_error hslice
            simp [h] at hdecode
  rcases hL.fromSlice_space space line raw hspace hraw with hsame | ⟨error, herror⟩
  · cases hutf' : validUtf8 (space ++ line) with
    | false => exact .inr ⟨.invalidUtf8, by simp [decodeRecord, hutf'], by simp, by simp⟩
    | true =>
        refine .inl (Eq.trans ?_ h)
        simp only [decodeRecord, hutf, hutf', hsame, hraw]
  · exact .inr (decodeRecord_of_fromSlice_error herror)

omit [DecidableEq ν] in
/-- A record appended to a tail of white space is read through it, or lost with it. -/
theorem Scanned.space_record (hL : S.Lexical) {whole tail : Bytes} {sc : Scan ν}
    (h : Scanned S whole sc) (hnl : newline ∉ tail) (hblank : isBlank tail = true) {r : Record ν}
    (hr : S.Restores r) :
    Scanned S (whole ++ tail ++ recordLine S r) (sc.next r) ∨
      (∃ time, Scanned S (whole ++ tail ++ recordLine S r) (sc.seen.damaged time)) ∧
        ∀ line, encodeRecord S r = .ok line → ∃ error, decodeRecord S (tail ++ line) = .error error := by
  obtain ⟨line, hencode, hnl', hhead, hdecode⟩ := hr
  have hfile : whole ++ tail ++ recordLine S r = whole ++ (tail ++ line ++ [newline]) := by
    simp [recordLine, hencode]
  have hmet : isBlank (tail ++ line) = false := by
    have hline : line.all isAsciiWhitespace = false := isBlank_of_head hhead
    rw [isBlank, List.all_append, hline, Bool.and_false]
  have hnl'' : newline ∉ tail ++ line := by simp [hnl, hnl']
  rw [hfile]
  rcases decodeRecord_space hL hblank hdecode with hsame | ⟨error, herror, hformat, hversion⟩
  · have hread : ∀ index, sc.scanLine S index (tail ++ line) = .ok (sc.next r) := by
      intro index
      rw [Scan.scanLine, if_neg (by simp [hmet]), hsame]
      rfl
    exact .inl (h.line hnl'' hread)
  · have hread : ∀ index, sc.scanLine S index (tail ++ line) =
        .ok (sc.seen.damaged (S.trustworthyTimestamp (tail ++ line))) := by
      intro index
      rw [Scan.scanLine, if_neg (by simp [hmet]), herror]
      cases error <;> first | rfl | exact absurd rfl hformat | exact absurd rfl hversion
    refine .inr ⟨⟨_, h.line hnl'' hread⟩, ?_⟩
    intro line' hline'
    obtain rfl : line = line' := Except.ok.inj (hencode.symm.trans hline')
    exact ⟨error, herror⟩

/-! ## The two readings

The bytes after the restart are the file, a line feed or not, the boot and the sample.  So the second scan does the
lines of the first one, then the tail as a line or with the boot, and the two are compared from there. -/

/-- **`Fresh`** — no record that can be read in the file is of this boot.  `new_boot_id` is sixteen bytes of
the random generator of the operating system. -/
def Fresh (S : Serde ν) (file : Bytes) (bootId : String) : Prop :=
  ∀ line ∈ linesOf file, ∀ r, decodeRecord S line = .ok r → r.bootId ≠ bootId

omit [DecidableEq ν] in
/-- What can be read of a file, line by line. -/
theorem mem_decoded {lines : List Bytes} {r : Record ν} :
    r ∈ decoded S lines ↔ ∃ line ∈ lines, decodeRecord S line = .ok r := by
  simp only [decoded, List.mem_filterMap]
  refine exists_congr fun line => and_congr_right fun _ => ?_
  cases decodeRecord S line <;> simp [Except.toOption]

/-- **`Stable`** — after an `open` that gave this store, and one sample, the next scan returns what the
`open` replayed and the new epoch, and excludes as much. -/
def HistoryStore.Stable (S : Serde ν) (store : HistoryStore ν) (r : Record ν) (file : Bytes) : Prop :=
  ∃ later, validateCanonical S file = .ok later ∧ later.records = store.replay.records ++ [r] ∧
    later.diagnostics.excludedEpochs = store.replay.diagnostics.excludedEpochs ∧
    later.diagnostics.excludedRecords = store.replay.diagnostics.excludedRecords

omit [DecidableEq ν] in
/-- A reading of the file decides. -/
theorem HistoryStore.stable_iff {store : HistoryStore ν} {r : Record ν} {file : Bytes}
    {later : Replay ν} (h : validateCanonical S file = .ok later) :
    store.Stable S r file ↔
      later.records = store.replay.records ++ [r] ∧ later.excluded = store.replay.excluded := by
  simp [Stable, h, Replay.excluded]

/-- **`Restart`** — an `open` that succeeded on the lines of `whole` and a tail, and a sample after it. -/
structure Restart (S : Serde ν) (whole tail : Bytes) (sc : Scan ν) (replay : Replay ν) (t : U64)
    (capacity : Capacity) (store : HistoryStore ν) (call : SampleCall ν) : Prop where
  scanned : Scanned S whole sc
  notMem : newline ∉ tail
  valid : validateCanonical S (whole ++ tail) = .ok replay
  bound : replay.orderingBound.any (t < ·) = false
  lastState : store.lastState = none
  lastTimestamp : store.lastTimestamp = some t
  records : store.replay.records = replay.records ++ [.boot ⟨t, store.bootId, capacity⟩]
  excluded : store.replay.excluded = replay.excluded
  clock : store.lastTimestamp.any (call.timestamp < ·) = false
  encodable : (store.recordOf call.timestamp call.capacity call.state).Encodable

namespace Restart

variable {whole tail : Bytes} {sc : Scan ν} {replay : Replay ν} {t : U64} {capacity : Capacity}
  {store : HistoryStore ν} {call : SampleCall ν}

/-- The file after the sample. -/
def file (S : Serde ν) (whole tail : Bytes) (replay : Replay ν) (t : U64) (capacity : Capacity)
    (store : HistoryStore ν) (call : SampleCall ν) : Bytes :=
  (if replay.needsSeparator then whole ++ tail ++ [newline] else whole ++ tail) ++
    recordLine S (.boot ⟨t, store.bootId, capacity⟩) ++
    recordLine S (store.recordOf call.timestamp call.capacity call.state)

/-- The readings agree if the lines that the file holds by now are read as the first scan read them. -/
theorem stable_iff_of_scanned (h : Restart S whole tail sc replay t capacity store call)
    (hr : S.Restores (store.recordOf call.timestamp call.capacity call.state)) {sc' : Scan ν} (htallied : ∀ epoch ∈ sc'.epoch?, epoch.Tallied)
    (hbound : sc'.replay.orderingBound.any (t < ·) = false) {booted : Bytes}
    (hbooted : Scanned S booted (sc'.next (.boot ⟨t, store.bootId, capacity⟩))) :
    store.Stable S (store.recordOf call.timestamp call.capacity call.state)
        (booted ++ recordLine S (store.recordOf call.timestamp call.capacity call.state)) ↔
      sc'.closeEpoch.records = replay.records ∧ sc'.closeEpoch.excluded = replay.excluded := by
  obtain ⟨later, hlater, hrecords, hexcluded⟩ := Scanned.validate_sampled htallied hbound
    h.lastState h.lastTimestamp hbooted h.clock hr
  rw [HistoryStore.stable_iff hlater, hrecords, hexcluded, h.records, h.excluded]
  simp

/-- The lines of the file and its tail, as the first scan found them. -/
theorem readLines_eq (h : Restart S whole tail sc replay t capacity store call) :
    readLines (whole ++ tail) = ((readLines whole).1, tail) :=
  readLines_append_of_notMem h.scanned.terminated h.notMem

/-- The lines of the file that `open` found are not of the new boot. -/
theorem ne_of_fresh (h : Restart S whole tail sc replay t capacity store call)
    (hfresh : Fresh S (whole ++ tail) store.bootId) {line : Bytes}
    (hline : line ∈ (readLines whole).1 ∨ (tail ≠ [] ∧ line = tail)) {r : Record ν}
    (hdecode : decodeRecord S line = .ok r) : r.bootId ≠ store.bootId := by
  refine hfresh line ?_ r hdecode
  rw [linesOf, h.readLines_eq]
  rcases hline with hline | ⟨hne, rfl⟩
  · split
    · exact hline
    · exact List.mem_append_left _ hline
  · rw [if_neg hne]
    exact List.mem_append_right _ (List.mem_singleton_self _)

/-- What the first scan made of the tail. -/
theorem replay_cases (h : Restart S whole tail sc replay t capacity store call) :
    (tail = [] ∧ sc.sawNonblank = true ∧ replay = sc.closeEpoch) ∨
      (tail ≠ [] ∧ replay = (sc.torn S tail).replay) := by
  obtain ⟨sc₀, hscan, hend⟩ := validateCanonical_cases h.valid
  rw [h.readLines_eq] at hscan hend
  obtain rfl : sc = sc₀ := Except.ok.inj (h.scanned.lines.symm.trans hscan)
  rcases hend with ⟨hnil, hmet, hreplay⟩ | ⟨hne, -, hreplay⟩
  · exact .inl ⟨hnil, hmet, hreplay⟩
  · exact .inr ⟨hne, hreplay⟩

/-- The tail is given a line feed unless it is white space. -/
theorem needsSeparator (h : Restart S whole tail sc replay t capacity store call) :
    replay.needsSeparator = !isBlank tail := by
  obtain ⟨rfl, -, rfl⟩ | ⟨-, rfl⟩ := h.replay_cases
  · have hlog := sc.log_closeEpoch
    simp only [Replay.log, Prod.mk.injEq] at hlog
    exact hlog.2.2.trans h.scanned.needsSeparator
  · rw [Scan.torn, Scan.needsSeparator_damaged]
    rfl

/-- The lines after the sample: those of the file, the tail, which the boot line joins if it is blank, and the
line of the sample. -/
theorem readLines_file (h : Restart S whole tail sc replay t capacity store call) {boot sample : Bytes}
    (hboot : encodeRecord S (.boot ⟨t, store.bootId, capacity⟩ : Record ν) = .ok boot)
    (hnl : newline ∉ boot)
    (hsample : encodeRecord S (store.recordOf call.timestamp call.capacity call.state) = .ok sample)
    (hnl' : newline ∉ sample) :
    (readLines (file S whole tail replay t capacity store call)).1 =
      (readLines whole).1 ++ (if isBlank tail then [tail ++ boot] else [tail, boot]) ++ [sample] := by
  have hwhole := h.scanned.terminated
  cases hblank : isBlank tail with
  | true =>
      have hjoined : newline ∉ tail ++ boot := by simp [h.notMem, hnl]
      have hfirst := readLines_append_line hwhole hjoined
      have hsecond := readLines_append_line (by rw [hfirst]) hnl'
      rw [hfirst] at hsecond
      have hfile : file S whole tail replay t capacity store call =
          whole ++ (tail ++ boot ++ [newline]) ++ (sample ++ [newline]) := by
        simp [file, h.needsSeparator, hblank, recordLine, hboot, hsample]
      rw [hfile, hsecond]
      simp
  | false =>
      have hfirst := readLines_append_line hwhole h.notMem
      have hsecond := readLines_append_line (by rw [hfirst]) hnl
      have hthird := readLines_append_line (by rw [hsecond]) hnl'
      rw [hsecond, hfirst] at hthird
      have hfile : file S whole tail replay t capacity store call =
          whole ++ (tail ++ [newline]) ++ (boot ++ [newline]) ++ (sample ++ [newline]) := by
        simp [file, h.needsSeparator, hblank, recordLine, hboot, hsample]
      rw [hfile, hthird]
      simp

/-- **The sample is read back** if the readings agree: no other line can stand for it. -/
theorem restores_of_stable (h : Restart S whole tail sc replay t capacity store call) (hS : S.Plain)
    (hL : S.Lexical) (hfresh : Fresh S (whole ++ tail) store.bootId)
    (hstable : store.Stable S (store.recordOf call.timestamp call.capacity call.state)
      (file S whole tail replay t capacity store call)) :
    S.Restores (store.recordOf call.timestamp call.capacity call.state) := by
  let r := store.recordOf call.timestamp call.capacity call.state
  obtain ⟨boot, hboot, hnl, -, hread⟩ := hS.restores_boot (ν := ν) ⟨t, store.bootId, capacity⟩
  obtain ⟨sample, hsample, hnl', -⟩ := line_of_encodable hS h.encodable
  obtain ⟨later, hlater, hrecords, -⟩ := hstable
  obtain ⟨-, -, hsub⟩ := validateCanonical_epochs hlater
  -- the record of the call is one of the records that the next start reads
  have hmem : r ∈ later.records := by
    rw [hrecords]
    exact List.mem_append_right _ (List.mem_singleton_self r)
  obtain ⟨line, hline, hdecode⟩ := mem_decoded.mp (hsub.mem hmem)
  -- so it stands on some line of the file, and that is not the boot line
  have hnotBoot : r ≠ .boot ⟨t, store.bootId, capacity⟩ := by
    intro heq
    have hkind : r.isBoot = false := store.isBoot_recordOf _ _ _
    rw [heq] at hkind
    cases hkind
  have hid : r.bootId = store.bootId := store.bootId_recordOf _ _ _
  rw [h.readLines_file hboot hnl hsample hnl'] at hline
  -- nor is it a line of before, as no line is of this boot; so it is the line of the record itself
  rcases List.mem_append.mp hline with hold | hlast
  · exfalso
    rcases List.mem_append.mp hold with hold | hnew
    · exact h.ne_of_fresh hfresh (.inl hold) hdecode hid
    · cases hblank : isBlank tail with
      | true =>
          obtain rfl : line = tail ++ boot := by simpa [hblank] using hnew
          rcases decodeRecord_space hL hblank hread with hsame | ⟨error, herror, -⟩
          · exact hnotBoot (Except.ok.inj (hdecode.symm.trans hsame))
          · rw [herror] at hdecode
            cases hdecode
      | false =>
          have hne : tail ≠ [] := by
            rintro rfl
            cases hblank
          rw [hblank] at hnew
          rcases List.mem_cons.mp hnew with rfl | hnew
          · exact h.ne_of_fresh hfresh (.inr ⟨hne, rfl⟩) hdecode hid
          · obtain rfl := List.mem_singleton.mp hnew
            exact hnotBoot (Except.ok.inj (hdecode.symm.trans hread))
  · obtain rfl := List.mem_singleton.mp hlast
    exact (hS.restores_iff h.encodable).mpr ⟨line, hsample, hdecode⟩

/-- **No tail**: the two readings agree. -/
theorem stable_of_terminated (h : Restart S whole [] sc replay t capacity store call) (hS : S.Plain)
    (hr : S.Restores (store.recordOf call.timestamp call.capacity call.state)) :
    store.Stable S (store.recordOf call.timestamp call.capacity call.state)
      (file S whole [] replay t capacity store call) := by
  obtain ⟨-, -, rfl⟩ | ⟨hne, -⟩ := h.replay_cases
  · have hlog := sc.log_closeEpoch
    simp only [Replay.log, Prod.mk.injEq] at hlog
    have hseparator : sc.closeEpoch.needsSeparator = false := hlog.2.2.trans h.scanned.needsSeparator
    have hfile : file S whole [] sc.closeEpoch t capacity store call =
        whole ++ recordLine S (.boot ⟨t, store.bootId, capacity⟩) ++
          recordLine S (store.recordOf call.timestamp call.capacity call.state) := by
      simp [file, hseparator]
    have hbound : sc.replay.orderingBound.any (t < ·) = false := hlog.2.1 ▸ h.bound
    rw [hfile, h.stable_iff_of_scanned hr h.scanned.tallied hbound (h.scanned.record (hS.restores_boot _))]
    exact ⟨rfl, rfl⟩
  · exact absurd rfl hne

/-- The file after the sample, when the tail became a line. -/
theorem file_of_nonblank {S : Serde ν} (hblank : isBlank tail = false) :
    file S whole tail (sc.torn S tail).replay t capacity store call =
      whole ++ (tail ++ [newline]) ++ recordLine S (.boot ⟨t, store.bootId, capacity⟩) ++
        recordLine S (store.recordOf call.timestamp call.capacity call.state) := by
  have hseparator : (sc.torn S tail).replay.needsSeparator = true := by
    rw [Scan.torn, Scan.needsSeparator_damaged]
    simp [Scan.unterminated, hblank]
  simp [file, hseparator]

/-- **A tail that is not blank** and leaves the bound where the new boot may follow: they agree unless it is a
record that the scan would take. -/
theorem stable_iff_of_nonblank (h : Restart S whole tail sc (sc.torn S tail).replay t capacity store call)
    (hS : S.Plain) (hr : S.Restores (store.recordOf call.timestamp call.capacity call.state))
    (hblank : isBlank tail = false) (htime : ∀ r, decodeRecord S tail = .ok r → r.timestamp ≤ t) :
    store.Stable S (store.recordOf call.timestamp call.capacity call.state)
        (file S whole tail (sc.torn S tail).replay t capacity store call) ↔
      ∀ r, decodeRecord S tail = .ok r → sc.takes r = false := by
  have hne : tail ≠ [] := by
    rintro rfl
    cases hblank
  obtain ⟨hformat, hversion⟩ := h.scanned.supported h.notMem hne h.valid
  obtain ⟨sc', hscanned, hsame, hline⟩ := h.scanned.tail h.notMem hblank hformat hversion
  have hbound : sc'.replay.orderingBound.any (t < ·) = false := by
    rw [hsame]
    exact Scan.any_tail_of_torn h.bound htime
  have hrecords : (sc.torn S tail).replay.records = sc.replay.records := (Scan.records_damaged _ _).1
  rw [file_of_nonblank hblank, h.stable_iff_of_scanned hr hscanned.tallied hbound
    (hscanned.record (hS.restores_boot _)), hrecords, Scan.excluded_torn]
  rcases hline with ⟨r, hdecode, htakes, hstep⟩ | ⟨hnot, rfl⟩
  · constructor
    · rintro ⟨hlater, hlater'⟩
      have hwell := (Scan.wellFormed_of_scanLines h.scanned.lines).1.seen
      exact absurd hlater' (hstep.ne_torn hwell h.scanned.tallied hlater)
    · intro hnot
      rw [hnot r hdecode] at htakes
      cases htakes
  · refine ⟨fun _ => hnot, fun _ => ?_⟩
    obtain ⟨hsame', hstate⟩ := Scan.records_damaged sc.seen (parseableTimestamp S tail)
    rw [Scan.closeEpoch_of_invalidEpoch hstate]
    exact ⟨hsame', sc.seen.excluded_damaged _⟩

/-- **A tail that turns out to be of a later time.** The new boot is older than the bound by then, and no
record of the next scan is of the new epoch. -/
theorem not_stable_of_late (h : Restart S whole tail sc (sc.torn S tail).replay t capacity store call)
    (hS : S.Plain) (hr : S.Restores (store.recordOf call.timestamp call.capacity call.state))
    (hblank : isBlank tail = false) {late : Record ν} (hlate : decodeRecord S tail = .ok late)
    (htime : t < late.timestamp) (hfresh : Fresh S (whole ++ tail) store.bootId) :
    ¬store.Stable S (store.recordOf call.timestamp call.capacity call.state)
      (file S whole tail (sc.torn S tail).replay t capacity store call) := by
  let boot : BootRecord := ⟨t, store.bootId, capacity⟩
  let r := store.recordOf call.timestamp call.capacity call.state
  have hne : tail ≠ [] := by
    rintro rfl
    cases hblank
  obtain ⟨hformat, hversion⟩ := h.scanned.supported h.notMem hne h.valid
  obtain ⟨sc', hscanned, hsame, -⟩ := h.scanned.tail h.notMem hblank hformat hversion
  -- the boot is damage, and the sample behind it
  have hbehind : sc'.replay.orderingBound.any (t < ·) = true := by
    rw [hsame]
    exact sc.any_tail_of_late hlate htime
  have hboot : sc'.next (.boot boot) = sc'.seen.damaged (some t) :=
    Scan.scanRecord_of_not_takes (Scan.takes_of_older hbehind)
  have hstate : (sc'.next (.boot boot)).seen.state = .invalidEpoch := by
    rw [hboot]
    exact (Scan.records_damaged _ _).2
  have hsample : (sc'.next (.boot boot)).next r = (sc'.next (.boot boot)).seen.damaged (some r.timestamp) :=
    Scan.scanRecord_of_not_takes (Scan.takes_of_invalidEpoch hstate (store.isBoot_recordOf _ _ _))
  have hlast := (hscanned.record (hS.restores_boot boot)).record hr
  rw [file_of_nonblank hblank]
  rintro ⟨later, hlater, hrecords, -⟩
  obtain rfl := hlast.validate_eq hlater
  have hkept : ((sc'.next (.boot boot)).next r).closeEpoch.records = sc'.replay.records := by
    obtain ⟨hsample', hstate⟩ := Scan.records_damaged (sc'.next (.boot boot)).seen (some r.timestamp)
    rw [hsample, Scan.closeEpoch_of_invalidEpoch hstate, hsample', hboot]
    exact (Scan.records_damaged _ _).1
  -- so its record would be one of the lines before
  have hmem : r ∈ sc'.replay.records := by
    rw [← hkept, hrecords]
    exact List.mem_append_right _ (List.mem_singleton_self r)
  have hdecoded := ((sc'.records_sublist_allRecords).trans (Scan.wellFormed_of_scanLines hscanned.lines).2).mem hmem
  obtain ⟨line, hline, hdecode⟩ := mem_decoded.mp hdecoded
  have hlines : line ∈ (readLines whole).1 ∨ (tail ≠ [] ∧ line = tail) := by
    have hread : readLines (tail ++ [newline]) = ([tail], []) := by
      have := @readLines_cons tail [] h.notMem
      simpa [readLines] using this
    rw [readLines_append_of_terminated h.scanned.terminated, hread] at hline
    rcases List.mem_append.mp hline with hline | hline
    · exact .inl hline
    · exact .inr ⟨hne, List.mem_singleton.mp hline⟩
  exact h.ne_of_fresh hfresh hlines hdecode (store.bootId_recordOf _ _ _)

/-- The boot record is read through the white space in front of it, which is counted no more. -/
theorem not_stable_of_read (h : Restart S whole tail sc (sc.torn S tail).replay t capacity store call)
    (hr : S.Restores (store.recordOf call.timestamp call.capacity call.state)) {booted : Bytes}
    (hbooted : Scanned S booted (sc.next (.boot ⟨t, store.bootId, capacity⟩))) :
    ¬store.Stable S (store.recordOf call.timestamp call.capacity call.state)
      (booted ++ recordLine S (store.recordOf call.timestamp call.capacity call.state)) := by
  have hbound : sc.replay.orderingBound.any (t < ·) = false :=
    @Scan.any_of_any_damaged _ (sc.unterminated tail) (S.trustworthyTimestamp tail) t h.bound
  rw [h.stable_iff_of_scanned hr h.scanned.tallied hbound hbooted, Scan.excluded_torn,
    Scan.excluded_closeEpoch h.scanned.tallied]
  rintro ⟨-, hsame⟩
  have hsecond := congrArg Prod.snd (add_left_cancel hsame)
  obtain ⟨state, replay, sawNonblank⟩ := sc
  cases state <;> simp [Scan.unsampled, Scan.pending, Scan.epoch?] at hsecond

/-- The boot record is lost with the white space in front of it, and the sample has no epoch. -/
theorem not_stable_of_lost (h : Restart S whole tail sc (sc.torn S tail).replay t capacity store call)
    (hr : S.Restores (store.recordOf call.timestamp call.capacity call.state)) {booted : Bytes} {time : Option U64}
    (hbooted : Scanned S booted (sc.seen.damaged time)) :
    ¬store.Stable S (store.recordOf call.timestamp call.capacity call.state)
      (booted ++ recordLine S (store.recordOf call.timestamp call.capacity call.state)) := by
  let sc₁ := sc.seen.damaged time
  let r := store.recordOf call.timestamp call.capacity call.state
  have hnot : sc₁.seen.takes r = false := Scan.takes_of_invalidEpoch rfl (store.isBoot_recordOf _ _ _)
  have hnext : sc₁.next r = sc₁.seen.damaged (some r.timestamp) := Scan.scanRecord_of_not_takes hnot
  have hlater : (sc₁.next r).closeEpoch.excluded = sc.replay.excluded +
      (sc.epoch?.toList.length, sc.pending.length + 1) + (0, 1) := by
    rw [hnext, Scan.closeEpoch_of_invalidEpoch rfl, Scan.excluded_damaged]
    exact congrArg (· + (0, 1)) (sc.seen.excluded_damaged _)
  have hlost := hbooted.record hr
  rw [HistoryStore.stable_iff (hlost.validate (Scan.sawNonblank_scanRecord _ _)), h.excluded,
    Scan.excluded_torn]
  rintro ⟨-, hsame⟩
  have hsecond := congrArg Prod.snd (hlater.symm.trans hsame)
  simp at hsecond

/-- **A tail of white space**: they do not agree. -/
theorem not_stable_of_blank (h : Restart S whole tail sc replay t capacity store call)
    (hS : S.Plain) (hL : S.Lexical)
    (hr : S.Restores (store.recordOf call.timestamp call.capacity call.state)) (hne : tail ≠ [])
    (hblank : isBlank tail = true) :
    ¬store.Stable S (store.recordOf call.timestamp call.capacity call.state)
        (file S whole tail replay t capacity store call) := by
  obtain ⟨hnil, -⟩ | ⟨-, rfl⟩ := h.replay_cases
  · exact absurd hnil hne
  have hseparator : (sc.torn S tail).replay.needsSeparator = false := by
    rw [Scan.torn, Scan.needsSeparator_damaged]
    simp [Scan.unterminated, hblank]
  rw [file, if_neg (by simp [hseparator])]
  rcases h.scanned.space_record hL h.notMem hblank (hS.restores_boot _) with hread | ⟨⟨time, hlost⟩, -⟩
  · exact h.not_stable_of_read hr hread
  · exact h.not_stable_of_lost hr hlost

end Restart

/-- **When recovery is stable.** After an `open` on an existing file, under a boot id that no record of it has,
and one sample: the next scan returns what the `open` replayed and the new epoch, and excludes as much,
exactly if the sample is read back as it was written, and the file ended in a line feed or in a tail that is
not white space, not a record that the scan of the lines before it would take, and not one of a time after
the new boot. -/
theorem open_stable_iff (hS : S.Plain) (hL : S.Lexical) {file file₁ file₂ : Bytes} {t : U64}
    {capacity : Capacity} {bootId : String} {store store' : HistoryStore ν}
    (hopen : HistoryStore.open S (some file) t capacity bootId = .ok (store, file₁))
    {call : SampleCall ν}
    (hcall : store.appendSample S file₁ call.timestamp call.capacity call.state = (store', file₂, .ok ()))
    (hfresh : Fresh S file bootId) {sc : Scan ν}
    (hscan : Scan.scanLines S 1 {} (readLines file).1 = .ok sc) :
    store.Stable S (.sample ⟨call.timestamp, bootId, call.capacity, call.state⟩) file₂ ↔
      S.Restores (.sample ⟨call.timestamp, bootId, call.capacity, call.state⟩) ∧
        ((readLines file).2 = [] ∨
          (isBlank (readLines file).2 = false ∧
            ∀ r, decodeRecord S (readLines file).2 = .ok r → sc.takes r = false ∧ r.timestamp ≤ t)) := by
  obtain ⟨whole, hfile, hwhole, hnl⟩ := exists_terminated file
  obtain ⟨replay, hvalid, hbound, rfl, hstate, htime, hrecords, hexcluded, rfl⟩ :=
    HistoryStore.open_ok hS hopen
  obtain ⟨hr, hclock, -, rfl⟩ := HistoryStore.appendSample_ok hcall
  have hrecord : store.recordOf call.timestamp call.capacity call.state =
      .sample ⟨call.timestamp, store.bootId, call.capacity, call.state⟩ := by
    rw [HistoryStore.recordOf, if_neg (by simp [hstate])]
  -- what `open` and the call did, gathered in one place
  have hrestart : Restart S whole (readLines file).2 sc replay t capacity store call := {
    scanned := ⟨by rw [hwhole], by rw [hwhole]; exact hscan⟩
    notMem := hnl
    valid := hfile ▸ hvalid
    bound := hbound
    lastState := hstate
    lastTimestamp := htime
    records := hrecords
    excluded := hexcluded
    clock := hclock
    encodable := hr }
  have hfile₂ : (if replay.needsSeparator then file ++ [newline] else file) ++
      recordLine S (.boot ⟨t, store.bootId, capacity⟩) ++
        recordLine S (store.recordOf call.timestamp call.capacity call.state) =
      Restart.file S whole (readLines file).2 replay t capacity store call := by
    rw [Restart.file, ← hfile]
  rw [← hrecord, hfile₂]
  -- the condition on the tail, once the record is one that is restored
  have hfresh' : Fresh S (whole ++ (readLines file).2) store.bootId := hfile ▸ hfresh
  have htail : S.Restores (store.recordOf call.timestamp call.capacity call.state) →
      (store.Stable S (store.recordOf call.timestamp call.capacity call.state)
          (Restart.file S whole (readLines file).2 replay t capacity store call) ↔
        (readLines file).2 = [] ∨ (isBlank (readLines file).2 = false ∧
          ∀ r, decodeRecord S (readLines file).2 = .ok r → sc.takes r = false ∧ r.timestamp ≤ t)) := by
    intro hr
    cases hblank : isBlank (readLines file).2 with
    | false =>
        have hne : (readLines file).2 ≠ [] := by
          intro hnil
          rw [hnil] at hblank
          cases hblank
        obtain ⟨hnil, -⟩ | ⟨-, rfl⟩ := hrestart.replay_cases
        · exact absurd hnil hne
        -- read as a line, the tail may be a record of a time after the boot
        by_cases hlate : ∀ r, decodeRecord S (readLines file).2 = .ok r → r.timestamp ≤ t
        · rw [hrestart.stable_iff_of_nonblank hS hr hblank hlate]
          simp only [hne, false_or, true_and]
          exact forall_congr' fun r => imp_congr_right fun hdecode => (and_iff_left (hlate r hdecode)).symm
        · obtain ⟨late, hlate⟩ := not_forall.mp hlate
          obtain ⟨hdecode, hlate⟩ := Classical.not_imp.mp hlate
          refine iff_of_false (hrestart.not_stable_of_late hS hr hblank hdecode (not_le.mp hlate) hfresh') ?_
          rintro (hnil | ⟨-, hall⟩)
          · exact hne hnil
          · exact hlate (hall late hdecode).2
    -- white space is not separated from the boot line, so that the boot may be lost
    | true =>
        by_cases hnil : (readLines file).2 = []
        · rw [hnil] at hrestart ⊢
          exact iff_of_true (hrestart.stable_of_terminated hS hr) (.inl rfl)
        · refine iff_of_false (hrestart.not_stable_of_blank hS hL hr hnil hblank) ?_
          simp [hnil]
  -- a stable record is restored, and then the two conditions are the one on the tail
  constructor
  · intro hstable
    have hr := hrestart.restores_of_stable hS hL hfresh' hstable
    exact ⟨hr, (htail hr).mp hstable⟩
  · rintro ⟨hr, hcondition⟩
    exact (htail hr).mpr hcondition

/-- With the latest clock there is, `open` and a first sample succeed on every file that validates. -/
theorem HistoryStore.open_latest (hS : S.Plain) {file : Bytes} {replay : Replay ν}
    (hvalid : validateCanonical S file = .ok replay) (capacity : Capacity) (bootId : String) :
    ∃ store store' : HistoryStore ν, ∃ file₁ file₂,
      HistoryStore.open S (some file) u64Max capacity bootId = .ok (store, file₁) ∧
      store.appendSample S file₁ u64Max capacity [] = (store', file₂, .ok ()) ∧
      store.replay.records = replay.records ++ [.boot ⟨u64Max, bootId, capacity⟩] ∧
      file₂ = (if replay.needsSeparator then file ++ [newline] else file) ++
        recordLine S (.boot ⟨u64Max, bootId, capacity⟩) ++
        recordLine S (.sample ⟨u64Max, bootId, capacity, []⟩) := by
  have hclock : replay.orderingBound.any (u64Max < ·) = false := by
    cases replay.orderingBound with
    | none => rfl
    | some bound => exact decide_eq_false (not_lt.mpr (Fin.le_last bound))
  have hopen := HistoryStore.open_existing hS hvalid hclock capacity bootId
  let booted : Replay ν :=
    { replay with records := replay.records ++ [.boot ⟨u64Max, bootId, capacity⟩] }
  let store : HistoryStore ν :=
    { bootId := bootId, replay := booted.closeOpenGap u64Max, lastTimestamp := some u64Max }
  have hsound : store.poisoned = false := rfl
  have hlast : store.lastTimestamp.any (u64Max < ·) = false := decide_eq_false (lt_irrefl u64Max)
  have happend := HistoryStore.appendSample_eq hS hsound
    ((if replay.needsSeparator then file ++ [newline] else file) ++
      recordLine S (.boot ⟨u64Max, bootId, capacity⟩))
    (store.encodable_recordOf (stateOk_nil []) u64Max capacity) hlast
  have hrecord : store.recordOf u64Max capacity [] = .sample ⟨u64Max, bootId, capacity, []⟩ := by
    rw [recordOf, if_neg (by simp [store])]
  rw [hrecord] at happend
  exact ⟨store, _, _, _, hopen, happend, congrArg Prod.fst (booted.log_closeOpenGap u64Max), rfl⟩

end Files

/-- A tail that is no record: the second restart shows what the first one did. -/
theorem open_stable_iff_garbage :
    ∃ store store' : HistoryStore ℚ, ∃ file₁ file₂,
      HistoryStore.open json (some (fileOf json crashedRecords ++ [0x78])) u64Max ⟨40, 1, [40]⟩ "b" =
        .ok (store, file₁) ∧
      store.appendSample json file₁ u64Max ⟨40, 1, [40]⟩ [] = (store', file₂, .ok ()) ∧
      store.Stable json (.sample ⟨u64Max, "b", ⟨40, 1, [40]⟩, []⟩) file₂ := by
  have hgarbage : decodeRecord json [0x78] = .error .invalidJson := by decide +kernel
  have hnl : newline ∉ ([0x78] : Bytes) := by decide
  have hvalid := scanned_crashedRecords.validate_torn hnl (by decide) (.inr rfl) (by simp [hgarbage])
    (by simp [hgarbage])
  obtain ⟨store, store', file₁, file₂, hopen, hcall, -⟩ :=
    HistoryStore.open_latest json_faithful.plain hvalid ⟨40, 1, [40]⟩ "b"
  have hread := readLines_append_of_notMem scanned_crashedRecords.terminated hnl
  have hscan := scanned_crashedRecords.lines_torn hnl
  let call : SampleCall ℚ := ⟨u64Max, ⟨40, 1, [40]⟩, []⟩
  have hcall' : store.appendSample json file₁ call.timestamp call.capacity call.state =
      (store', file₂, .ok ()) := hcall
  have hfresh : Fresh json (fileOf json crashedRecords ++ [0x78]) "b" := by
    have hlines : (linesOf (fileOf json crashedRecords ++ [0x78])).all
        (fun line => (decodeRecord json line).toOption.all (·.bootId != "b")) = true := by decide +kernel
    intro line hline r hdecode
    have hbootId := List.all_eq_true.mp hlines line hline
    simpa [hdecode, Except.toOption] using hbootId
  have hiff := open_stable_iff json_faithful.plain json_lexical hopen hcall' hfresh hscan
  rw [hread] at hiff
  have hnone : ∀ r, decodeRecord json [0x78] = .ok r →
      (crashedRecords.foldl Scan.next ({} : Scan ℚ)).takes r = false ∧ r.timestamp ≤ u64Max := by
    intro r hr
    rw [hgarbage] at hr
    cases hr
  exact ⟨store, store', file₁, file₂, hopen, hcall, hiff.mpr
    ⟨json_faithful.plain.readsBack_nil _ _ _, .inr ⟨rfl, hnone⟩⟩⟩

/-- A checkpoint that lacks only its line feed: the first restart shows no epoch of the process that died,
the second shows it with the checkpoint. -/
theorem open_unstable :
    ∃ store store' : HistoryStore ℚ, ∃ file₁ file₂ later,
      HistoryStore.open json (some (fileOf json crashedRecords ++ (recordLine json tornRecord).dropLast))
        u64Max ⟨40, 1, [40]⟩ "b" = .ok (store, file₁) ∧
      store.appendSample json file₁ u64Max ⟨40, 1, [40]⟩ [] = (store', file₂, .ok ()) ∧
      validateCanonical json file₂ = .ok later ∧
      store.replay.records.map Record.bootId = ["b"] ∧
      later.records.map Record.bootId = ["a", "a", "a", "b", "b"] ∧
      ¬store.Stable json (.sample ⟨u64Max, "b", ⟨40, 1, [40]⟩, []⟩) file₂ := by
  have htorn : json.Restores tornRecord := json_faithful.plain.restores_checkpoint _
  obtain ⟨line, hencode, hnl, hhead, hdecode⟩ := htorn
  have hline : recordLine json tornRecord = line ++ [newline] := by simp [recordLine, hencode]
  have hcut : (recordLine json tornRecord).dropLast = line := by rw [hline, List.dropLast_concat]
  have hne : line ≠ [] := by
    rintro rfl
    cases hhead
  -- the first process replays the file without its last epoch, whose checkpoint is torn
  have hvalid := scanned_crashedRecords.validate_torn hnl hne (.inl rfl) (by simp [hdecode])
    (by simp [hdecode])
  rw [hcut]
  obtain ⟨store, store', file₁, file₂, hopen, hcall, hrecords, hfile₂⟩ :=
    HistoryStore.open_latest json_faithful.plain hvalid ⟨40, 1, [40]⟩ "b"
  -- with the separator behind it the checkpoint is a record, and the file one of five records
  let rs : List (Record ℚ) := crashedRecords ++ [tornRecord, .boot ⟨u64Max, "b", ⟨40, 1, [40]⟩⟩,
    .sample ⟨u64Max, "b", ⟨40, 1, [40]⟩, []⟩]
  have hrs : ∀ r ∈ rs, json.Restores r := by
    intro r hr
    rcases List.mem_append.mp hr with hr | hr
    · exact restores_crashedRecords json_faithful.plain r hr
    · simp only [List.mem_cons, List.not_mem_nil, or_false] at hr
      rcases hr with rfl | rfl | rfl
      · exact json_faithful.plain.restores_checkpoint _
      · exact json_faithful.plain.restores_boot _
      · exact json_faithful.plain.readsBack_nil _ _ _
  have hseparator : ((crashedRecords.foldl Scan.next {}).torn json line).replay.needsSeparator = true := by
    rw [Scan.torn, Scan.needsSeparator_damaged]
    simp [Scan.unterminated, isBlank_of_head hhead]
  have hwhole : file₂ = fileOf json rs := by
    rw [hfile₂, if_pos hseparator, fileOf_append]
    simp [fileOf, hline]
  have hlater := validateCanonical_fileOf (by simp [rs] : rs ≠ []) hrs
  have hshown : ((crashedRecords.foldl Scan.next {}).torn json line).replay.records = [] :=
    (Scan.records_damaged _ _).1
  rw [hshown] at hrecords
  -- so the next process replays the epoch of "a" again, which is not what this one began with
  have hagain : (rs.foldl Scan.next {}).closeEpoch.records.map Record.bootId =
      ["a", "a", "a", "b", "b"] := by decide
  refine ⟨store, store', file₁, file₂, _, hopen, hcall, hwhole ▸ hlater, by rw [hrecords]; rfl, hagain, ?_⟩
  rw [hwhole, HistoryStore.stable_iff hlater, hrecords]
  rintro ⟨hsame, -⟩
  rw [hsame] at hagain
  exact absurd hagain (by decide)

end Flock.History
