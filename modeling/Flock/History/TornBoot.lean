/-
# Flock.History.TornBoot — a restart that dies in its boot line.

A process that dies while `open` appends its boot record leaves a part of the line at the end of the file.
The scanner takes such a tail for damage to the epoch it is reading, which is the last epoch of the file if
that has a sample; the boot in the tail would have ended that epoch, but a torn line is not read as a boot.
So the last epoch is excluded.  The epochs before it are committed by then, and stay so: nothing that a
later `open` or append writes can reach them.

What is left is followed through the whole life of the data directory: `Later` is the state of the file after any
number of further processes, each with any number of appends, and any of them may die in its own boot line.
-/
import Flock.History.Gaps
import Flock.History.Passes
import Flock.History.Stability

namespace Flock.History

variable {ν : Type}

/-! ## What is committed stays

A record is committed with its epoch, and the scanner never takes an epoch back. -/

namespace Scan

/-- A record that is taken can commit the epoch being read. -/
theorem Takes.records_prefix {sc sc' : Scan ν} {r : Record ν} (h : sc.Takes r sc') :
    sc.replay.records <+: sc'.replay.records := by
  cases h with
  | boot b =>
      have hlog := congrArg Prod.fst (sc.advance b.timestamp).log_closeEpoch
      have hclosed := (congrArg Prod.fst (Replay.log_closeOpenGap
        (sc.advance b.timestamp).closeEpoch b.timestamp)).trans hlog
      exact ⟨_, hclosed.symm⟩
  | first epoch s hstate hid => exact List.prefix_refl _
  | sample epoch s hstate hid => exact List.prefix_refl _
  | checkpoint epoch c hstate hid => exact List.prefix_refl _

/-- No record takes anything back. -/
theorem records_prefix_next (sc : Scan ν) (r : Record ν) :
    sc.replay.records <+: (sc.next r).replay.records := by
  rcases sc.seen.scanRecord_cases r with ⟨-, hstep⟩ | ⟨-, hdamaged⟩
  · exact hstep.records_prefix
  · have hnext : sc.next r = sc.seen.damaged (some r.timestamp) := hdamaged
    rw [hnext, (sc.seen.records_damaged _).1]
    exact List.prefix_refl _

/-- Ending the epoch only adds to what is committed. -/
theorem records_prefix_closeEpoch (sc : Scan ν) : sc.replay.records <+: sc.closeEpoch.records := by
  have hlog : sc.closeEpoch.records = sc.replay.records ++ sc.committed :=
    congrArg Prod.fst sc.log_closeEpoch
  exact ⟨_, hlog.symm⟩

/-- **The epochs of a scan**: those that are committed, and the one being read if it has a sample. -/
theorem WellFormed.split {sc : Scan ν} (h : sc.WellFormed) :
    ∃ (epochs : List (WellFormedEpoch ν)) (last : Option (WellFormedEpoch ν)),
      sc.replay.records = joined epochs ∧ sc.committed = joined last.toList ∧
        (last.isSome = true ↔ ∃ epoch, sc.state = .usable epoch) := by
  obtain ⟨epochs, hepochs⟩ := h.committed
  have hreading := h.reading
  cases hstate : sc.state with
  | awaitBoot => exact ⟨epochs, none, hepochs, by simp [Scan.committed, hstate, joined], by simp⟩
  | awaitSample epoch => exact ⟨epochs, none, hepochs, by simp [Scan.committed, hstate, joined], by simp⟩
  | invalidEpoch => exact ⟨epochs, none, hepochs, by simp [Scan.committed, hstate, joined], by simp⟩
  | usable epoch =>
      rw [hstate] at hreading
      cases hreading with
      | usable _ w hw hboot => exact ⟨epochs, some w, hepochs, by simp [Scan.committed, hstate, hw, joined], by simp⟩

end Scan

section Files

variable [F64 ν] [DecidableEq ν] {S : Serde ν}

/-! ## Later files

Each later process either reads the file and appends to it, or dies in its first write. -/

/-- **`Later`** — what becomes of a file: one process after another opens it and makes calls of
`append_sample` that succeed. -/
inductive Later (S : Serde ν) (file : Bytes) : Bytes → Prop
  | first : Later S file file
  | lifetime {whole opened file' : Bytes} {t : U64} {capacity : Capacity} {bootId : String}
      {store store' : HistoryStore ν} {calls : List (SampleCall ν)} (before : Later S file whole)
      (hopen : HistoryStore.open S (some whole) t capacity bootId = .ok (store, opened))
      (hcalls : store.appendAll S opened calls = some (store', file')) : Later S file file'

/-- `open` succeeds on the file with a clock that is not behind it, and replays these records first. -/
def Replays (S : Serde ν) (whole : Bytes) (records : List (Record ν)) : Prop :=
  ∃ replay, validateCanonical S whole = .ok replay ∧ records <+: replay.records ∧
    ∀ t, replay.orderingBound.any (t < ·) = false → ∀ capacity bootId, ∃ store file,
      HistoryStore.open S (some whole) t capacity bootId = .ok (store, file) ∧
        store.replay.records = replay.records ++ [.boot ⟨t, bootId, capacity⟩]

omit [DecidableEq ν] in
/-- A file that validates with these records, and maybe more, is one that replays them. -/
theorem replays_of_validate (hS : S.Plain) {whole : Bytes} {replay : Replay ν} {records : List (Record ν)}
    (hvalid : validateCanonical S whole = .ok replay) (hrecords : records <+: replay.records) :
    Replays S whole records := by
  refine ⟨replay, hvalid, hrecords, fun t hbound capacity bootId => ?_⟩
  have hopen := HistoryStore.open_existing hS hvalid hbound capacity bootId
  obtain ⟨replay', hvalid', -, -, -, -, hstore, -⟩ := HistoryStore.open_ok hS hopen
  obtain rfl := Except.ok.inj (hvalid.symm.trans hvalid')
  exact ⟨_, _, hopen, hstore⟩

omit [DecidableEq ν] in
/-- A line that was written, whatever its numbers are read as, stops no scan and takes nothing back. -/
theorem Scanned.written (hS : S.Plain) {file : Bytes} {sc : Scan ν} (h : Scanned S file sc) {r : Record ν}
    (hr : r.Encodable) :
    ∃ sc', Scanned S (file ++ recordLine S r) sc' ∧ sc'.sawNonblank = true ∧
      sc.replay.records <+: sc'.replay.records := by
  obtain ⟨line, hencode, hnl, hhead, -⟩ := line_of_encodable hS hr
  have hline : recordLine S r = line ++ [newline] := by simp [recordLine, hencode]
  rw [hline]
  cases hdecode : decodeRecord S line with
  | ok r' =>
      exact ⟨_, h.line hnl fun index => Scan.scanLine_of_decode hhead hdecode index sc,
        Scan.sawNonblank_scanRecord _ _, sc.records_prefix_next r'⟩
  | error error =>
      obtain ⟨hformat, hversion⟩ := hS.supported hencode
      have hscan : ∀ index, sc.scanLine S index line = .ok (sc.seen.damaged (S.trustworthyTimestamp line)) := by
        intro index
        rw [Scan.scanLine, if_neg (by simp [isBlank_of_head hhead]), hdecode]
        cases error <;> first | rfl | exact absurd hdecode hformat | exact absurd hdecode hversion
      refine ⟨_, h.line hnl hscan, rfl, ?_⟩
      rw [(Scan.records_damaged _ _).1]
      exact List.prefix_refl _

/-- The calls of a process leave a file that is scanned, with everything still there. -/
theorem Scanned.prefix_appendAll (hS : S.Plain) {opened file' : Bytes} {sc : Scan ν}
    (h : Scanned S opened sc) (hmet : sc.sawNonblank = true) {store store' : HistoryStore ν}
    {calls : List (SampleCall ν)} (hcalls : store.appendAll S opened calls = some (store', file')) :
    ∃ sc', Scanned S file' sc' ∧ sc'.sawNonblank = true ∧ sc.replay.records <+: sc'.replay.records := by
  induction calls generalizing store opened sc with
  | nil =>
      obtain ⟨-, rfl⟩ := Prod.mk.inj (Option.some.inj hcalls)
      exact ⟨sc, h, hmet, List.prefix_refl _⟩
  | cons call rest ih =>
      rw [HistoryStore.appendAll] at hcalls
      split at hcalls
      · rename_i next nextFile hcall
        obtain ⟨hr, -, rfl, rfl⟩ := HistoryStore.appendSample_ok hcall
        obtain ⟨sc₁, hscanned₁, hmet₁, hheld₁⟩ := h.written hS hr
        obtain ⟨sc', hscanned, hmet', hheld⟩ := ih hscanned₁ hmet₁ hcalls
        exact ⟨sc', hscanned, hmet', hheld₁.trans hheld⟩
      · cases hcalls

/-- **A lifetime** after lines that were scanned keeps what they hold. -/
theorem Scanned.prefix_lifetime (hS : S.Plain) {whole file' : Bytes} {sc : Scan ν} (h : Scanned S whole sc)
    {boot : BootRecord} (hbound : sc.replay.orderingBound.any (boot.timestamp < ·) = false)
    {store store' : HistoryStore ν} {calls : List (SampleCall ν)}
    (hcalls : store.appendAll S (whole ++ recordLine S (.boot boot)) calls = some (store', file')) :
    ∃ sc', Scanned S file' sc' ∧ sc'.sawNonblank = true ∧
      sc.closeEpoch.records <+: sc'.replay.records := by
  obtain ⟨-, hcommitted⟩ := Scan.next_boot_state hbound
  have hbooted : Scanned S (whole ++ recordLine S (.boot boot)) (sc.next (.boot boot)) :=
    h.record (hS.restores_boot boot)
  obtain ⟨sc', hscanned, hmet', hheld⟩ :=
    hbooted.prefix_appendAll hS (Scan.sawNonblank_scanRecord _ _) hcalls
  rw [hcommitted] at hheld
  exact ⟨sc', hscanned, hmet', hheld⟩

omit [DecidableEq ν] in
/-- What `open` appends to a file that ends in a line feed. -/
theorem Scanned.open_terminated (hS : S.Plain) {whole opened : Bytes} {sc : Scan ν} (h : Scanned S whole sc)
    (hmet : sc.sawNonblank = true) {t : U64} {capacity : Capacity} {bootId : String} {store : HistoryStore ν}
    (hopen : HistoryStore.open S (some whole) t capacity bootId = .ok (store, opened)) :
    sc.replay.orderingBound.any (t < ·) = false ∧
      opened = whole ++ recordLine S (.boot ⟨t, bootId, capacity⟩) := by
  obtain ⟨replay, hvalid, hbound, -, -, -, -, -, rfl⟩ := HistoryStore.open_ok hS hopen
  obtain rfl := Except.ok.inj ((h.validate hmet).symm.trans hvalid)
  have hlog := sc.log_closeEpoch
  simp only [Replay.log, Prod.mk.injEq] at hlog
  rw [hlog.2.1] at hbound
  exact ⟨hbound, by rw [if_neg (by simp [hlog.2.2, h.needsSeparator])]⟩

omit [DecidableEq ν] in
/-- What `open` appends to a file with a torn line: first a line feed, and the lines are scanned on. -/
theorem Scanned.open_torn (hS : S.Plain) {file cut opened : Bytes} {sc : Scan ν}
    (h : Scanned S file sc) (hnl : newline ∉ cut) (hblank : isBlank cut = false)
    (hformat : decodeRecord S cut ≠ .error .unsupportedFormat)
    (hversion : decodeRecord S cut ≠ .error .unsupportedVersion)
    (htime : parseableTimestamp S cut = S.trustworthyTimestamp cut) {t : U64} {capacity : Capacity}
    {bootId : String} {store : HistoryStore ν}
    (hopen : HistoryStore.open S (some (file ++ cut)) t capacity bootId = .ok (store, opened)) :
    ∃ whole sc', Scanned S whole sc' ∧ sc.replay.records <+: sc'.replay.records ∧
      sc'.replay.orderingBound.any (t < ·) = false ∧
      opened = whole ++ recordLine S (.boot ⟨t, bootId, capacity⟩) := by
  have hempty : cut ≠ [] := by
    rintro rfl
    cases hblank
  obtain ⟨replay, hvalid, hbound, -, -, -, -, -, rfl⟩ := HistoryStore.open_ok hS hopen
  have htorn := h.validate_torn hnl hempty (.inr hblank) hformat hversion
  obtain rfl := Except.ok.inj (htorn.symm.trans hvalid)
  have hseparator : (sc.torn S cut).replay.needsSeparator = true := by
    rw [Scan.torn, Scan.needsSeparator_damaged]
    simp [Scan.unterminated, hblank]
  obtain ⟨sc', hscanned, hsame, hline⟩ := h.tail hnl hblank hformat hversion
  rw [htime, ← Scan.orderingBound_torn] at hsame
  refine ⟨_, sc', hscanned, ?_, by rw [hsame]; exact hbound, ?_⟩
  · rcases hline with ⟨r, -, -, hstep⟩ | ⟨-, rfl⟩
    · exact hstep.records_prefix
    · rw [(sc.seen.records_damaged _).1]
      exact List.prefix_refl _
  · rw [if_pos hseparator, List.append_assoc file]

/-! ## Every later restart

The first restart decides what becomes of the last epoch; the later ones find it settled. -/

/-- The epochs of a file, when a part of a boot line follows it: without the last one, if it is being read
and the part is not empty. -/
def leftBy (cut : Bytes) (epochs : List (WellFormedEpoch ν)) (last : Option (WellFormedEpoch ν)) :
    List (WellFormedEpoch ν) :=
  epochs ++ if cut = [] then last.toList else []

/-- **Later files** end in a line feed and hold what the first restart replayed, but for the file it found. -/
theorem Later.scanned (hS : S.Plain) (hL : S.Lexical) {file : Bytes} {sc : Scan ν} (h : Scanned S file sc)
    (hmet : sc.sawNonblank = true) {boot : BootRecord} {cut : Bytes} (hcut : cut <+: recordLine S (.boot boot))
    (hne : cut ≠ recordLine S (.boot boot)) {epochs : List (WellFormedEpoch ν)}
    {last : Option (WellFormedEpoch ν)} (hrecords : sc.replay.records = joined epochs)
    (hcommitted : sc.committed = joined last.toList) {whole : Bytes} (hlater : Later S (file ++ cut) whole) :
    whole = file ++ cut ∨ ∃ sc', Scanned S whole sc' ∧ sc'.sawNonblank = true ∧
      joined (leftBy cut epochs last) <+: sc'.replay.records := by
  have hboot : (Record.boot boot : Record ν).Encodable := trivial
  induction hlater with
  | first => exact .inl rfl
  | lifetime before hopen hcalls ih =>
      refine .inr ?_
      rcases ih with rfl | ⟨sc', hscanned, hmet', hheld⟩
      · rcases cut_cases hS hL hboot hcut hne with rfl | ⟨hnl, hblank, ⟨hformat, hversion⟩, htime, -⟩
        · -- nothing was written
          rw [List.append_nil] at hopen
          obtain ⟨hbound, rfl⟩ := h.open_terminated hS hmet hopen
          obtain ⟨sc', hscanned, hmet', hheld⟩ := h.prefix_lifetime hS hbound hcalls
          refine ⟨sc', hscanned, hmet', ?_⟩
          have hlog : sc.closeEpoch.records = sc.replay.records ++ sc.committed :=
            congrArg Prod.fst sc.log_closeEpoch
          rw [hlog, hrecords, hcommitted, ← joined_append] at hheld
          exact hheld
        -- the piece is ended by a line feed first, and the epoch it broke off is gone
        · obtain ⟨whole, sc₁, hscanned₁, hheld₁, hbound, rfl⟩ :=
            h.open_torn hS hnl hblank hformat hversion htime hopen
          obtain ⟨sc', hscanned, hmet', hheld⟩ := hscanned₁.prefix_lifetime hS hbound hcalls
          have hempty : cut ≠ [] := by
            rintro rfl
            cases hblank
          refine ⟨sc', hscanned, hmet', ?_⟩
          rw [leftBy, if_neg hempty, List.append_nil, ← hrecords]
          exact (hheld₁.trans sc₁.records_prefix_closeEpoch).trans hheld
      -- a file that ends in a line feed is only added to
      · obtain ⟨hbound, rfl⟩ := hscanned.open_terminated hS hmet' hopen
        obtain ⟨sc'', hscanned', hmet'', hheld'⟩ := hscanned.prefix_lifetime hS hbound hcalls
        exact ⟨sc'', hscanned', hmet'', (hheld.trans sc'.records_prefix_closeEpoch).trans hheld'⟩

/-- **A restart that dies in its boot line** loses at most the epoch that was being read. Of a file that ends
in a line feed, and then holds a proper part of a boot line, the next restart replays every epoch, except
the last one if it has a sample, no boot after it, and the part is not empty; and whatever processes come
after, every later restart replays these too. -/
theorem open_torn_boot (hS : S.Plain) (hL : S.Lexical) {file : Bytes} {replay : Replay ν} {sc : Scan ν}
    (hfile : (readLines file).2 = []) (hvalid : validateCanonical S file = .ok replay)
    (hscan : Scan.scanLines S 1 {} (readLines file).1 = .ok sc) {boot : BootRecord} {cut : Bytes}
    (hcut : cut <+: recordLine S (.boot boot)) (hne : cut ≠ recordLine S (.boot boot)) :
    ∃ (epochs : List (WellFormedEpoch ν)) (last : Option (WellFormedEpoch ν)),
      replay.records = joined (epochs ++ last.toList) ∧
      (last.isSome = true ↔ ∃ epoch, sc.state = .usable epoch) ∧
      (∃ torn, validateCanonical S (file ++ cut) = .ok torn ∧
        torn.records = joined (leftBy cut epochs last)) ∧
      ∀ whole, Later S (file ++ cut) whole → Replays S whole (joined (leftBy cut epochs last)) := by
  have h : Scanned S file sc := ⟨hfile, hscan⟩
  obtain rfl := h.validate_eq hvalid
  have hmet : sc.sawNonblank = true := by
    by_contra hblank
    simp [validateCanonical, hscan, hfile, Scan.scanTail, hblank] at hvalid
  have hlog : sc.closeEpoch.records = sc.replay.records ++ sc.committed :=
    congrArg Prod.fst sc.log_closeEpoch
  -- the epochs that are committed, and the one being read
  obtain ⟨epochs, last, hrecords, hcommitted, hlast⟩ := (Scan.wellFormed_of_scanLines hscan).1.split
  have hboot : (Record.boot boot : Record ν).Encodable := trivial
  have hfirst : ∃ torn, validateCanonical S (file ++ cut) = .ok torn ∧
      torn.records = joined (leftBy cut epochs last) := by
    -- not a byte was written, and the last epoch is replayed
    rcases cut_cases hS hL hboot hcut hne with rfl | ⟨hnl, hblank, ⟨hformat, hversion⟩, -⟩
    · refine ⟨sc.closeEpoch, by rw [List.append_nil]; exact h.validate hmet, ?_⟩
      rw [hlog, hrecords, hcommitted, ← joined_append]
      rfl
    -- a piece of the line is damage, and takes the last epoch along
    · have hempty : cut ≠ [] := by
        rintro rfl
        cases hblank
      refine ⟨_, h.validate_torn hnl hempty (.inr hblank) hformat hversion, ?_⟩
      rw [leftBy, if_neg hempty, List.append_nil, ← hrecords]
      exact (Scan.records_damaged _ _).1
  refine ⟨epochs, last, by rw [hlog, hrecords, hcommitted, ← joined_append], hlast, hfirst, ?_⟩
  intro whole hlater
  -- a later file is the one of the crash, or one that was scanned on from there
  rcases hlater.scanned hS hL h hmet hcut hne hrecords hcommitted with rfl | ⟨sc', hscanned, hmet', hheld⟩
  · obtain ⟨torn, htorn, hsame⟩ := hfirst
    have hheld : joined (leftBy cut epochs last) <+: torn.records := hsame ▸ List.prefix_refl _
    exact replays_of_validate hS htorn hheld
  · exact replays_of_validate hS (hscanned.validate hmet') (hheld.trans sc'.records_prefix_closeEpoch)

end Files

/-- The boot of a process that dies in its first byte. -/
def tornBoot : BootRecord := ⟨40, "b", ⟨40, 1, [40]⟩⟩

/-- One byte of the boot line is a torn line. -/
theorem prefix_tornBoot : [0x7b] <+: recordLine json (.boot tornBoot) ∧
    [0x7b] ≠ recordLine json (.boot tornBoot) := by
  obtain ⟨line, hencode, -, hhead, -⟩ := json_faithful.plain.restores_boot tornBoot
  obtain ⟨rest, rfl⟩ : ∃ rest, line = 0x7b :: rest := by
    cases line with
    | nil => cases hhead
    | cons b rest => exact ⟨rest, by rw [Option.some.inj hhead]⟩
  have hline : recordLine json (.boot tornBoot) = 0x7b :: (rest ++ [newline]) := by
    simp [recordLine, hencode]
  rw [hline]
  exact ⟨⟨rest ++ [newline], rfl⟩, by simp⟩

/-- A file whose last process had not taken a sample yet: the restart that died cost nothing. -/
theorem open_torn_boot_unsampled :
    ∃ (replay : Replay ℚ) (epochs : List (WellFormedEpoch ℚ)) (last : Option (WellFormedEpoch ℚ)),
      validateCanonical json (fileOf json bootOnlyRecords) = .ok replay ∧
      replay.records = joined (epochs ++ last.toList) ∧ last = none ∧
      (∃ torn, validateCanonical json (fileOf json bootOnlyRecords ++ [0x7b]) = .ok torn ∧
        torn.records = joined (leftBy [0x7b] epochs last)) ∧
      ∀ whole, Later json (fileOf json bootOnlyRecords ++ [0x7b]) whole →
        Replays json whole (joined (leftBy [0x7b] epochs last)) := by
  have hscanned := scanned_nil.fileOf restores_bootOnlyRecords
  have hvalid := validateCanonical_fileOf (by decide : bootOnlyRecords ≠ []) restores_bootOnlyRecords
  obtain ⟨epochs, last, hrecords, hlast, hfirst, hlater⟩ := open_torn_boot json_faithful.plain json_lexical
    hscanned.terminated hvalid hscanned.lines prefix_tornBoot.1 prefix_tornBoot.2
  have hnone : last = none := by
    cases hsome : last with
    | none => rfl
    | some w =>
        obtain ⟨epoch, hstate⟩ := hlast.mp (by rw [hsome]; rfl)
        cases hstate
  exact ⟨_, epochs, last, hvalid, hrecords, hnone, hfirst, hlater⟩

/-- **A torn boot line excludes the last epoch.** The epoch had ended when the restart began. -/
theorem torn_boot_loses_epoch :
    ∃ replay torn : Replay ℚ, validateCanonical json (fileOf json crashedRecords) = .ok replay ∧
      replay.records = crashedRecords ∧
      ([0x7b] <+: recordLine json (.boot tornBoot) ∧ [0x7b] ≠ recordLine json (.boot tornBoot)) ∧
      validateCanonical json (fileOf json crashedRecords ++ [0x7b]) = .ok torn ∧ torn.records = [] := by
  have hvalid := validateCanonical_fileOf (by decide : crashedRecords ≠ [])
    (restores_crashedRecords json_faithful.plain)
  have htorn : validateCanonical json (fileOf json crashedRecords ++ [0x7b]) =
      .ok (Scan.torn json (crashedRecords.foldl Scan.next {}) [0x7b]).replay :=
    scanned_crashedRecords.validate_torn (by decide) (by simp) (.inl rfl) (by decide +kernel)
      (by decide +kernel)
  exact ⟨_, _, hvalid, by decide +kernel, prefix_tornBoot, htorn, by decide +kernel⟩

end Flock.History
