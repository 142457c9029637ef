/-
# Flock.History.Recovery — what a restart makes of an unterminated tail.

A crash leaves a file that does not end in a line feed.  The scan counts what follows the last line feed
as damage, whatever it is, and `open` then ends it with a line feed of its own, unless it is white space,
before it writes the boot record.  From then on the tail is a LINE: the next scan reads it like any other,
and if it was a whole record that only lacked its line feed, takes it.

So a torn append costs at most the epoch it belongs to, and the boot record is on a line of its own; but
what the next restart reads is what this one read only if the tail is no record that the scan would take,
and is not white space.
-/
import Flock.History.Damage

namespace Flock.History

variable {ν : Type}

/-! ## What a line leaves alone

The scan looks at a line in one of two ways: as damage, or as a record that it takes.  Neither touches what was said
about the tail. -/

namespace Scan

/-- A damaged line asks for no separator. -/
theorem needsSeparator_damaged (sc : Scan ν) (time : Option U64) :
    (sc.damaged time).replay.needsSeparator = sc.replay.needsSeparator := by
  have hlog := congrArg (fun log => log.2.2) (log_invalidate
    { sc with replay := time.toList.foldl Replay.advanceOrderingBound sc.replay }
    ((time.or (time.toList.foldl Replay.advanceOrderingBound sc.replay).orderingBound).getD 0))
  refine Eq.trans hlog ?_
  cases time <;> rfl

/-- Nor does a record that is taken. -/
theorem Takes.needsSeparator {sc sc' : Scan ν} {r : Record ν} (h : sc.Takes r sc') :
    sc'.replay.needsSeparator = sc.replay.needsSeparator := by
  cases h with
  | boot b =>
      have hlog := congrArg (fun log => log.2.2) (sc.advance b.timestamp).log_closeEpoch
      have hclose := congrArg (fun log => log.2.2)
        (Replay.log_closeOpenGap (sc.advance b.timestamp).closeEpoch b.timestamp)
      exact hclose.trans hlog
  | first epoch s hstate hid => rfl
  | sample epoch s hstate hid => rfl
  | checkpoint epoch c hstate hid => rfl

/-- A record that is not a boot, taken: it ends the epoch being read, which is usable from then on. -/
theorem Takes.closeEpoch_records {sc sc' : Scan ν} {r : Record ν} (h : sc.Takes r sc')
    (hboot : r.isBoot = false) : sc'.closeEpoch.records = sc.replay.records ++ (sc.pending ++ [r]) := by
  have hlog : sc'.closeEpoch.records = sc'.replay.records ++ sc'.committed :=
    congrArg Prod.fst sc'.log_closeEpoch
  rw [hlog]
  cases h with
  | boot b => cases hboot
  | first epoch s hstate hid => simp [pending, epoch?, hstate, join, committed,
      advance, Epoch.addSample, Replay.advanceOrderingBound]
  | sample epoch s hstate hid => simp [pending, epoch?, hstate, join, committed,
      advance, Epoch.addSample, Replay.advanceOrderingBound]
  | checkpoint epoch c hstate hid => simp [pending, epoch?, hstate, join, committed,
      advance, Epoch.addCheckpoint, Replay.advanceOrderingBound]

/-- What is committed lies before the epoch being read. -/
theorem committed_of_epoch {sc : Scan ν} {epoch : Epoch ν} (h : sc.epoch? = some epoch) :
    sc.committed = [] ∨ sc.committed = epoch.records := by
  cases hstate : sc.state with
  | awaitBoot => simp [epoch?, hstate] at h
  | invalidEpoch => simp [epoch?, hstate] at h
  | awaitSample e => simp [committed, hstate]
  | usable e =>
      obtain rfl : e = epoch := by simpa [epoch?, hstate] using h
      simp [committed, hstate]

end Scan

section Files

variable [F64 ν] {S : Serde ν}

/-- Only the tail asks for a separator. -/
theorem Scanned.needsSeparator {file : Bytes} {sc : Scan ν} (h : Scanned S file sc) :
    sc.replay.needsSeparator = false := by
  let I (_ : List Bytes) (sc : Scan ν) : Prop := sc.replay.needsSeparator = false
  have h₀ : I [] {} := rfl
  have hrun : I ([] ++ (readLines file).1) sc := by
    refine Scan.scanLines_induction ?_ ?_ ?_ h₀ h.lines
    · intro _ _ _ _ hI
      exact hI
    · intro _ _ sc time _ hI
      exact (Scan.needsSeparator_damaged _ time).trans hI
    · intro _ _ _ _ _ _ _ _ htakes hI
      exact htakes.needsSeparator.trans hI
  exact hrun

/-! ## The tail as a line

With a line feed behind it the tail is scanned like any line.  The damage that the first scan counted is then counted
by the second one, or the record is taken after all. -/

/-- The two readings of a line that was written agree on its time. -/
theorem parseableTimestamp_of_encodeRecord (hL : S.Lexical) {r : Record ν} {line : Bytes}
    (hline : encodeRecord S r = .ok line) : parseableTimestamp S line = S.trustworthyTimestamp line := by
  rw [parseableTimestamp]
  cases hdecode : decodeRecord S line with
  | error error => rfl
  | ok r' =>
      obtain ⟨-, raw, hslice, htime⟩ := decodeRecord_eq_ok hdecode
      have htrusted := hL.trustworthyTimestamp_of_toVec _ line raw (toVec_of_encodeRecord hline) hslice
      rw [htrusted, htime]

/-- A line that does not read is no other format and no other version. -/
theorem decodeRecord_of_fromSlice_error {line : Bytes} {error : SerdeError}
    (h : S.fromSlice line = .error error) :
    ∃ error', decodeRecord S line = .error error' ∧ error' ≠ .unsupportedFormat ∧
      error' ≠ .unsupportedVersion := by
  rw [decodeRecord]
  split
  · exact ⟨_, rfl, by simp, by simp⟩
  · simp only [h]
    split
    · exact ⟨_, rfl, by simp, by simp⟩
    · exact ⟨_, rfl, by simp, by simp⟩

omit [F64 ν] in
/-- What a tail does to the bound. -/
theorem Scan.orderingBound_torn (sc : Scan ν) (tail : Bytes) :
    (sc.torn S tail).replay.orderingBound =
      (sc.seen.damaged (S.trustworthyTimestamp tail)).replay.orderingBound := by
  rw [Scan.torn, Scan.orderingBound_damaged, Scan.orderingBound_damaged]
  cases S.trustworthyTimestamp tail <;> rfl

/-- **The tail as a line.** Ended by a line feed, the tail is a record that is taken, or damage once more, at
the time a line is read at. -/
theorem Scanned.tail {file tail : Bytes} {sc : Scan ν} (h : Scanned S file sc) (hnl : newline ∉ tail)
    (hblank : isBlank tail = false) (hformat : decodeRecord S tail ≠ .error .unsupportedFormat)
    (hversion : decodeRecord S tail ≠ .error .unsupportedVersion) :
    ∃ sc', Scanned S (file ++ (tail ++ [newline])) sc' ∧
      sc'.replay.orderingBound = (sc.seen.damaged (parseableTimestamp S tail)).replay.orderingBound ∧
      ((∃ r, decodeRecord S tail = .ok r ∧ sc.takes r = true ∧ sc.seen.Takes r sc') ∨
        ((∀ r, decodeRecord S tail = .ok r → sc.takes r = false) ∧
          sc' = sc.seen.damaged (parseableTimestamp S tail))) := by
  rw [parseableTimestamp]
  cases hdecode : decodeRecord S tail with
  | ok r =>
      have hline : ∀ index, sc.scanLine S index tail = .ok (sc.seen.scanRecord r) := by
        intro index
        rw [Scan.scanLine, if_neg (by simp [hblank]), hdecode]
        rfl
      rcases sc.seen.scanRecord_cases r with ⟨htakes, hstep⟩ | ⟨hnot, hdamaged⟩
      · have hold := Scan.not_older_of_takes htakes
        refine ⟨_, h.line hnl hline, ?_, .inl ⟨r, rfl, htakes, hstep⟩⟩
        rw [hstep.orderingBound hold, Scan.orderingBound_damaged]
        exact (Scan.orderingBound_advance hold).symm
      · refine ⟨_, h.line hnl hline, by rw [hdamaged], .inr ⟨?_, hdamaged⟩⟩
        rintro _ ⟨⟩
        exact hnot
  | error error =>
      have hline : ∀ index, sc.scanLine S index tail =
          .ok (sc.seen.damaged (S.trustworthyTimestamp tail)) := by
        intro index
        rw [Scan.scanLine, if_neg (by simp [hblank]), hdecode]
        cases error <;> first | rfl | exact absurd hdecode hformat | exact absurd hdecode hversion
      exact ⟨_, h.line hnl hline, rfl, .inr ⟨by simp, rfl⟩⟩

/-- **A torn append** leaves nothing, or a tail that is not blank, that both readings give the same time, and
that is the whole line if it decodes. -/
theorem cut_cases (hS : S.Plain) (hL : S.Lexical) {r : Record ν} (hr : r.Encodable) {cut : Bytes}
    (hcut : cut <+: recordLine S r) (hne : cut ≠ recordLine S r) :
    cut = [] ∨ (newline ∉ cut ∧ isBlank cut = false ∧
      (decodeRecord S cut ≠ .error .unsupportedFormat ∧
        decodeRecord S cut ≠ .error .unsupportedVersion) ∧
      parseableTimestamp S cut = S.trustworthyTimestamp cut ∧
      ∀ r', decodeRecord S cut = .ok r' → encodeRecord S r = .ok cut) := by
  obtain ⟨line, hencode, hnl, hhead, hvec⟩ := line_of_encodable hS hr
  have hline : recordLine S r = line ++ [newline] := by simp [recordLine, hencode]
  rw [hline] at hcut hne
  have hshort : cut <+: line := (List.prefix_concat_iff.mp hcut).resolve_left hne
  cases cut with
  | nil => exact .inl rfl
  | cons b rest =>
      have hblank : isBlank (b :: rest) = false := by
        refine isBlank_of_head ?_
        obtain ⟨more, rfl⟩ := hshort
        exact hhead
      refine .inr ⟨fun hmem => hnl (hshort.subset hmem), hblank, ?_⟩
      by_cases hwhole : b :: rest = line
      · rw [hwhole]
        exact ⟨hS.supported hencode, parseableTimestamp_of_encodeRecord hL hencode, fun _ _ => hencode⟩
      · obtain ⟨error, herror⟩ := hL.fromSlice_of_prefix _ line _ hvec hshort hwhole
        obtain ⟨error', hdecode', hformat, hversion⟩ := decodeRecord_of_fromSlice_error herror
        rw [parseableTimestamp, hdecode']
        exact ⟨⟨by simpa using hformat, by simpa using hversion⟩, rfl, by simp⟩

/-! ## The store that is opened on it

The process that died had appended some records whole; what is cut is the record of its last call, whatever part of
its line is in the file. -/

variable [DecidableEq ν]

/-- **The epoch of a process**, from its boot record to the last call that succeeded, is read back after
what the file held. -/
theorem Scanned.validate_appendAll (hS : S.Plain) {whole : Bytes} {sc : Scan ν}
    (hfile : Scanned S whole sc) {t : U64} (hbound : sc.replay.orderingBound.any (t < ·) = false)
    (capacity : Capacity) {store store' : HistoryStore ν} (hstate : store.lastState = none)
    (htime : store.lastTimestamp = some t) {calls : List (SampleCall ν)}
    (hreads : ∀ r ∈ store.recordsOf calls, S.Restores r) {file : Bytes}
    (hcalls : store.appendAll S (whole ++ recordLine S (.boot ⟨t, store.bootId, capacity⟩)) calls =
      some (store', file)) :
    ∃ later, validateCanonical S file = .ok later ∧
      later.records = sc.closeEpoch.records ++
        (if calls.isEmpty then [] else .boot ⟨t, store.bootId, capacity⟩ :: store.recordsOf calls) := by
  let boot : BootRecord := ⟨t, store.bootId, capacity⟩
  have hold : sc.replay.orderingBound.any (boot.timestamp < ·) = false := hbound
  obtain ⟨hboot, hrecords⟩ := Scan.next_boot_state hold
  obtain ⟨hfollows, hall⟩ := follows_boot hbound capacity hstate htime
  have hbooted : Scanned S (whole ++ recordLine S (.boot boot)) (sc.next (.boot boot)) :=
    hfile.record (hS.restores_boot boot)
  obtain ⟨hscanned, -, hall', -, husable⟩ := hfollows.appendAll hbooted hreads hcalls
  have hmet : (sc.next (.boot boot)).sawNonblank = true := Scan.sawNonblank_scanRecord _ _
  refine ⟨_, hscanned.validate (Scan.sawNonblank_foldl_next_of_met hmet _), ?_⟩
  cases calls with
  | nil =>
      have hclose : (sc.next (.boot boot)).closeEpoch.records =
          (sc.next (.boot boot)).replay.records ++ (sc.next (.boot boot)).committed :=
        congrArg Prod.fst (sc.next (.boot boot)).log_closeEpoch
      have hnone : (sc.next (.boot boot)).committed = [] := by rw [Scan.committed, hboot]
      simpa [HistoryStore.recordsOf, hnone, hrecords] using hclose
  | cons call rest =>
      obtain ⟨epoch, hepoch⟩ := husable (by simp)
      rw [Scan.closeEpoch_records_of_usable hepoch, hall', hall]
      simp

omit [DecidableEq ν] in
/-- What `open` replays of a file with a torn append, and the scan of the lines the file holds once the
tail is one of them. -/
theorem scanned_torn_append (hS : S.Plain) (hL : S.Lexical) {file : Bytes} {sc : Scan ν}
    (hfile : Scanned S file sc) (hmet : sc.sawNonblank = true) {epoch : Epoch ν}
    (hepoch : sc.epoch? = some epoch) {r : Record ν} (hr : S.Restores r) (hkind : r.isBoot = false)
    {cut : Bytes} (hcut : cut <+: recordLine S r) (hne : cut ≠ recordLine S r) :
    ∃ replay whole sc', validateCanonical S (file ++ cut) = .ok replay ∧
      whole = (if replay.needsSeparator then file ++ cut ++ [newline] else file ++ cut) ∧
      Scanned S whole sc' ∧ sc'.replay.orderingBound = replay.orderingBound ∧
      (∃ last, replay.records = sc.replay.records ++ last ∧ (last = [] ∨ last = epoch.records)) ∧
      ∃ last, sc'.closeEpoch.records = sc.replay.records ++ last ∧
        (last = [] ∨ last = epoch.records ∨ last = epoch.records ++ [r]) := by
  have hlog := sc.log_closeEpoch
  simp only [Replay.log, Prod.mk.injEq] at hlog
  have hpending : sc.pending = epoch.records := by simp [Scan.pending, hepoch]
  rcases cut_cases hS hL hr.encodable hcut hne with rfl | ⟨hnl, hblank, ⟨hformat, hversion⟩, htime, hwhole⟩
  -- nothing was written: the file is the one of before
  · have hcommitted := Scan.committed_of_epoch hepoch
    refine ⟨sc.closeEpoch, file, sc, by simpa using hfile.validate hmet, ?_, hfile, hlog.2.1.symm,
      ⟨_, hlog.1, hcommitted⟩, _, hlog.1, hcommitted.imp id .inl⟩
    simp [hlog.2.2, hfile.needsSeparator]
  -- a piece of the line was written; it is damage now, and a line of its own later
  · have hempty : cut ≠ [] := by
      rintro rfl
      cases hblank
    have hvalid := hfile.validate_torn hnl hempty (.inr hblank) hformat hversion
    have hrecords : (sc.torn S cut).replay.records = sc.replay.records := (Scan.records_damaged _ _).1
    have hseparator : (sc.torn S cut).replay.needsSeparator = true := by
      rw [Scan.torn, Scan.needsSeparator_damaged]
      simp [Scan.unterminated, hblank]
    obtain ⟨sc', hscanned, hbound, hline⟩ := hfile.tail hnl hblank hformat hversion
    rw [htime, ← Scan.orderingBound_torn] at hbound
    refine ⟨_, _, sc', hvalid, rfl, ?_, hbound, ⟨[], by simpa using hrecords, .inl rfl⟩, ?_⟩
    · rw [if_pos hseparator, List.append_assoc]
      exact hscanned
    · rcases hline with ⟨r', hdecode, -, htakes⟩ | ⟨-, rfl⟩
      · -- the record lacked only its line feed: the epoch comes back with it
        obtain rfl : r = r' :=
          Except.ok.inj ((decodeRecord_of_restores hr (hwhole r' hdecode)).symm.trans hdecode)
        refine ⟨epoch.records ++ [r], ?_, .inr (.inr rfl)⟩
        rw [htakes.closeEpoch_records hkind, ← hpending]
        rfl
      -- the piece is no record, so the next scan counts it as damage too
      · refine ⟨[], ?_, .inl rfl⟩
        obtain ⟨hsame, hstate⟩ := Scan.records_damaged sc.seen (parseableTimestamp S cut)
        rw [Scan.closeEpoch, hstate, List.append_nil]
        exact hsame

/-- **A torn append is recovered from.** On a file that ends in a line feed and then holds any proper part
of a record's line, `open` succeeds with a clock that is not behind the file.  The epochs before the last
one are replayed; the boot record has a line of its own; and after any calls of `append_sample` that
succeed, those epochs and the new one are read back, with what is left of the last one between them.  Exact
reading is asked of the torn record and of what those calls write, and of nothing else in the file. -/
theorem open_torn_append (hS : S.Plain) (hL : S.Lexical) {file : Bytes} {sc : Scan ν}
    (hfile : Scanned S file sc) (hmet : sc.sawNonblank = true) {epoch : Epoch ν}
    (hepoch : sc.epoch? = some epoch) {r : Record ν} (hr : S.Restores r) (hkind : r.isBoot = false)
    {cut : Bytes} (hcut : cut <+: recordLine S r) (hne : cut ≠ recordLine S r) :
    ∃ replay, validateCanonical S (file ++ cut) = .ok replay ∧
      ∀ t, replay.orderingBound.any (t < ·) = false → ∀ capacity bootId,
        ∃ store whole,
          HistoryStore.open S (some (file ++ cut)) t capacity bootId =
            .ok (store, whole ++ recordLine S (.boot ⟨t, bootId, capacity⟩)) ∧
          (readLines whole).2 = [] ∧
          (∃ last, store.replay.records = sc.replay.records ++ last ++ [.boot ⟨t, bootId, capacity⟩] ∧
            (last = [] ∨ last = epoch.records)) ∧
          ∀ calls store' file', (∀ r' ∈ store.recordsOf calls, S.Restores r') →
            store.appendAll S (whole ++ recordLine S (.boot ⟨t, bootId, capacity⟩)) calls =
              some (store', file') →
            ∃ later last, validateCanonical S file' = .ok later ∧
              later.records = sc.replay.records ++ last ++
                (if calls.isEmpty then [] else .boot ⟨t, bootId, capacity⟩ :: store.recordsOf calls) ∧
              (last = [] ∨ last = epoch.records ∨ last = epoch.records ++ [r]) := by
  obtain ⟨replay, whole, sc', hvalid, hwhole, hscanned, hbound, hlast, hlast'⟩ :=
    scanned_torn_append hS hL hfile hmet hepoch hr hkind hcut hne
  refine ⟨replay, hvalid, fun t ht capacity bootId => ?_⟩
  have hopen := HistoryStore.open_existing hS hvalid ht capacity bootId
  rw [← hwhole] at hopen
  refine ⟨_, whole, hopen, hscanned.terminated, ?_, ?_⟩
  -- the first process replays what the first scan found, and its own boot
  · obtain ⟨last, hrecords, hlast⟩ := hlast
    refine ⟨last, ?_, hlast⟩
    have hgap := congrArg Prod.fst (Replay.log_closeOpenGap ({ replay with
      records := replay.records ++ [.boot ⟨t, bootId, capacity⟩] } : Replay ν) t)
    exact hgap.trans (by rw [← hrecords]; rfl)
  -- and after its calls the file is that of the second scan, with them behind it
  · intro calls store' file' hreads hcalls
    obtain ⟨later, hlater, hrecords⟩ := hscanned.validate_appendAll hS (by rw [hbound]; exact ht) capacity
      rfl rfl hreads hcalls
    obtain ⟨last, hclose, hlast⟩ := hlast'
    exact ⟨later, last, hlater, by rw [hrecords, hclose], hlast⟩

end Files

/-- A boot and a sample; then the process dies in a checkpoint. -/
def crashedRecords : List (Record ℚ) :=
  [.boot ⟨10, "a", ⟨40, 1, [40]⟩⟩, .sample ⟨20, "a", ⟨40, 1, [40]⟩, []⟩]

/-- The checkpoint. -/
def tornRecord : Record ℚ := .checkpoint ⟨30, "a", ⟨40, 1, [40]⟩⟩

/-- They hold no number, and are read back by any JSON. -/
theorem restores_crashedRecords {S : Serde ℚ} (hS : S.Plain) : ∀ r ∈ crashedRecords, S.Restores r := by
  intro r hr
  simp only [crashedRecords, List.mem_cons, List.not_mem_nil, or_false] at hr
  rcases hr with rfl | rfl
  · exact hS.restores_boot _
  · exact hS.readsBack_nil _ _ _

/-- Whatever reads and writes JSON, they are restored: they hold no number. -/
theorem restores_tornRecords {S : Serde ℚ} (hS : S.Plain) :
    ∀ r ∈ crashedRecords ++ [tornRecord], S.Restores r := by
  intro r hr
  rcases List.mem_append.mp hr with hr | hr
  · exact restores_crashedRecords hS r hr
  · obtain rfl := List.mem_singleton.mp hr
    exact hS.restores_checkpoint _

/-- The file of the process is scanned as its records. -/
theorem scanned_crashedRecords :
    Scanned json (fileOf json crashedRecords) (crashedRecords.foldl Scan.next {}) :=
  scanned_nil.fileOf (restores_crashedRecords json_faithful.plain)

/-- The checkpoint is cut at its line feed: the next process starts, on a line of its own. -/
theorem open_torn_append_checkpoint :
    ∃ store whole,
      HistoryStore.open json (some (fileOf json crashedRecords ++ (recordLine json tornRecord).dropLast))
          u64Max ⟨40, 1, [40]⟩ "b" =
        .ok (store, whole ++ recordLine json (.boot ⟨u64Max, "b", ⟨40, 1, [40]⟩⟩)) ∧
      (readLines whole).2 = [] ∧
      ∃ last, store.replay.records =
        (crashedRecords.foldl Scan.next ({} : Scan ℚ)).replay.records ++ last ++
          [.boot ⟨u64Max, "b", ⟨40, 1, [40]⟩⟩] := by
  have htorn : json.Restores tornRecord := json_faithful.plain.restores_checkpoint _
  have hshort : (recordLine json tornRecord).dropLast ≠ recordLine json tornRecord := by
    intro h
    have hlength := congrArg List.length h
    obtain ⟨line, hencode, -⟩ := htorn
    simp [recordLine, hencode] at hlength
  obtain ⟨replay, -, hopen⟩ := open_torn_append json_faithful.plain json_lexical scanned_crashedRecords
    rfl rfl htorn rfl (List.dropLast_prefix _) hshort
  have hclock : replay.orderingBound.any (u64Max < ·) = false := by
    cases replay.orderingBound with
    | none => rfl
    | some bound => exact decide_eq_false (not_lt.mpr (Fin.le_last bound))
  obtain ⟨store, whole, hstore, hwhole, ⟨last, hrecords, -⟩, -⟩ := hopen u64Max hclock ⟨40, 1, [40]⟩ "b"
  exact ⟨store, whole, hstore, hwhole, last, hrecords⟩

end Flock.History
