/-
# Flock.History.Conservation — every line of the file is counted once.

A line that is not blank is one of the records that come back, or one of the excluded ones, or it belongs
to the epoch still being read: the three add up at every moment of the scan (`Balanced`), wherever an
epoch is committed, excluded, or damaged.  The totals are kept beside the log of their events, and are
its sums field by field.
-/
import Mathlib.Algebra.Group.Prod
import Flock.History.Replayed

namespace Flock.History

variable {ν : Type}

/-! ## Sums of diagnostics

The totals and the log of events are written side by side, by `note`.  A sum of counts goes along with the events, so
the totals are the sums of the log. -/

namespace HistoryDiagnostics

/-- The fields. -/
def fields : List (HistoryDiagnostics → ℕ) :=
  [excludedEpochs, excludedRecords, inferredResets, normalizedSeries, skippedMetricLines,
    validCheckpoints, validSamples]

/-- What `add_diagnostics` does to each. -/
theorem add_field {f : HistoryDiagnostics → ℕ} (hf : f ∈ fields) (d d' : HistoryDiagnostics) :
    f (d.add d') = f d + f d' := by
  simp only [fields, List.mem_cons, List.not_mem_nil, or_false] at hf
  rcases hf with rfl | rfl | rfl | rfl | rfl | rfl | rfl <;> rfl

theorem empty_field {f : HistoryDiagnostics → ℕ} (hf : f ∈ fields) : f {} = 0 := by
  simp only [fields, List.mem_cons, List.not_mem_nil, or_false] at hf
  rcases hf with rfl | rfl | rfl | rfl | rfl | rfl | rfl <;> rfl

end HistoryDiagnostics

/-- A field, summed over events. -/
def summed (f : HistoryDiagnostics → ℕ) (events : List DiagnosticEvent) : ℕ :=
  (events.map fun event => f event.diagnostics).sum

theorem summed_concat (f : HistoryDiagnostics → ℕ) (events : List DiagnosticEvent)
    (event : DiagnosticEvent) :
    summed f (events ++ [event]) = summed f events + f event.diagnostics := by
  simp [summed]

namespace Replay

/-- The totals are the sums of the events. -/
def Summed (replay : Replay ν) : Prop :=
  ∀ f ∈ HistoryDiagnostics.fields, f replay.diagnostics = summed f replay.diagnosticEvents

/-- A note is an event, and is added to the totals. -/
theorem Summed.note {replay : Replay ν} (h : replay.Summed) (event : DiagnosticEvent) :
    (replay.note event).Summed := by
  intro f hf
  simp only [Replay.note, HistoryDiagnostics.add_field hf, summed_concat, h f hf]

/-- The totals after a list of events. -/
theorem diagnostics_foldl_note {f : HistoryDiagnostics → ℕ} (hf : f ∈ HistoryDiagnostics.fields)
    (events : List DiagnosticEvent) (replay : Replay ν) :
    f (events.foldl note replay).diagnostics = f replay.diagnostics + summed f events := by
  induction events generalizing replay with
  | nil => simp [summed]
  | cons event rest ih =>
      rw [List.foldl_cons, ih]
      simp only [note, HistoryDiagnostics.add_field hf, summed, List.map_cons, List.sum_cons]
      omega

/-- What keeps them in step, keeps them so over a list. -/
theorem Summed.foldl {α : Type} {g : Replay ν → α → Replay ν}
    (hg : ∀ {replay a}, replay.Summed → (g replay a).Summed) (xs : List α) {replay : Replay ν}
    (h : replay.Summed) : (xs.foldl g replay).Summed := by
  induction xs generalizing replay with
  | nil => exact h
  | cons x rest ih => exact ih (hg h)

theorem Summed.excludeRecord {replay : Replay ν} (h : replay.Summed) (time : U64) :
    (replay.excludeRecord time).Summed := h.note _

theorem diagnostics_openGap (replay : Replay ν) (start : U64) :
    (replay.openGap start).diagnostics = replay.diagnostics ∧
      (replay.openGap start).diagnosticEvents = replay.diagnosticEvents := by
  rw [openGap]
  split <;> exact ⟨rfl, rfl⟩

theorem diagnostics_closeOpenGap (replay : Replay ν) (time : U64) :
    (replay.closeOpenGap time).diagnostics = replay.diagnostics ∧
      (replay.closeOpenGap time).diagnosticEvents = replay.diagnosticEvents := by
  rw [closeOpenGap]
  split <;> exact ⟨rfl, rfl⟩

theorem Summed.openGap {replay : Replay ν} (h : replay.Summed) (start : U64) :
    (replay.openGap start).Summed := by
  intro f hf
  rw [(replay.diagnostics_openGap start).1, (replay.diagnostics_openGap start).2]
  exact h f hf

theorem Summed.closeOpenGap {replay : Replay ν} (h : replay.Summed) (time : U64) :
    (replay.closeOpenGap time).Summed := by
  intro f hf
  rw [(replay.diagnostics_closeOpenGap time).1, (replay.diagnostics_closeOpenGap time).2]
  exact h f hf

/-- An excluded epoch is noted once for itself and once for each of its records. -/
theorem Summed.excludeEpoch {replay : Replay ν} (h : replay.Summed) (epoch : Epoch ν)
    (time : Option U64) : (replay.excludeEpoch epoch time).Summed := by
  rw [Replay.excludeEpoch]
  refine Summed.openGap ?_ _
  refine Summed.foldl (fun h => h.excludeRecord _) _ ?_
  refine Summed.foldl (fun h => h.excludeRecord _) _ ?_
  exact h.note _

/-- The events of an epoch that is committed are noted one by one. -/
theorem Summed.commitEpoch {replay : Replay ν} (h : replay.Summed) (epoch : Epoch ν) :
    (replay.commitEpoch epoch).Summed := by
  intro f hf
  exact Summed.foldl (fun h => h.note _) _ h f hf

/-! ## What an exclusion counts

Four numbers are enough for the balance: epochs and records excluded, samples and checkpoints accepted. -/

/-- The records and epochs excluded, and the samples and checkpoints accepted. -/
def counts (replay : Replay ν) : ℕ × ℕ × ℕ × ℕ :=
  (replay.diagnostics.excludedEpochs, replay.diagnostics.excludedRecords,
    replay.diagnostics.validSamples, replay.diagnostics.validCheckpoints)

theorem counts_excludeRecord (replay : Replay ν) (time : U64) :
    (replay.excludeRecord time).counts = replay.counts + (0, 1, 0, 0) := rfl

/-- A fold that excludes one record at each step. -/
theorem counts_foldl_excludeRecord {α : Type} (g : α → U64) (xs : List α) (replay : Replay ν) :
    (xs.foldl (fun replay x => replay.excludeRecord (g x)) replay).counts =
      replay.counts + (0, xs.length, 0, 0) := by
  induction xs generalizing replay with
  | nil => rfl
  | cons x rest ih =>
      rw [List.foldl_cons, ih, counts_excludeRecord, add_assoc]
      simp [add_comm]

theorem counts_openGap (replay : Replay ν) (start : U64) :
    (replay.openGap start).counts = replay.counts := by
  simp only [counts, (replay.diagnostics_openGap start).1]

theorem counts_closeOpenGap (replay : Replay ν) (time : U64) :
    (replay.closeOpenGap time).counts = replay.counts := by
  simp only [counts, (replay.diagnostics_closeOpenGap time).1]

/-- **Excluding an epoch** counts the epoch, its records, and the record that damaged it. -/
theorem counts_excludeEpoch (replay : Replay ν) (epoch : Epoch ν) (time : Option U64) :
    (replay.excludeEpoch epoch time).counts =
      replay.counts + (1, epoch.records.length + time.toList.length, 0, 0) := by
  have hrecords := counts_foldl_excludeRecord (fun r : Record ν => r.timestamp) epoch.records
    (replay.note ⟨epoch.start, { excludedEpochs := 1 }⟩)
  have hnote : (replay.note ⟨epoch.start, { excludedEpochs := 1 }⟩).counts = replay.counts + (1, 0, 0, 0) :=
    rfl
  have hdamage := counts_foldl_excludeRecord (ν := ν) id time.toList
  simp only [id_eq] at hdamage
  rw [excludeEpoch, counts_openGap, hdamage, hrecords, hnote, add_assoc, add_assoc]
  simp

end Replay

/-- `matches!(record, Record::Sample(_))`. -/
def Record.isSample : Record ν → Bool
  | .sample _ => true
  | .boot _ => false
  | .checkpoint _ => false

/-- `matches!(record, Record::Checkpoint(_))`. -/
def Record.isCheckpoint : Record ν → Bool
  | .checkpoint _ => true
  | .boot _ => false
  | .sample _ => false

/-- The events of an epoch being read count its samples and checkpoints, and exclude nothing. -/
structure Epoch.Tallied (epoch : Epoch ν) : Prop where
  excludedEpochs : summed HistoryDiagnostics.excludedEpochs epoch.diagnosticEvents = 0
  excludedRecords : summed HistoryDiagnostics.excludedRecords epoch.diagnosticEvents = 0
  samples : summed HistoryDiagnostics.validSamples epoch.diagnosticEvents =
    epoch.records.countP Record.isSample
  checkpoints : summed HistoryDiagnostics.validCheckpoints epoch.diagnosticEvents =
    epoch.records.countP Record.isCheckpoint

theorem Epoch.tallied_new (boot : BootRecord) : (Epoch.new boot : Epoch ν).Tallied := ⟨rfl, rfl, rfl, rfl⟩

theorem Epoch.Tallied.addSample {epoch : Epoch ν} (h : epoch.Tallied) (s : SampleRecord ν) :
    (epoch.addSample s).Tallied where
  excludedEpochs := by simp [Epoch.addSample, summed_concat, h.excludedEpochs]
  excludedRecords := by simp [Epoch.addSample, summed_concat, h.excludedRecords]
  samples := by simp [Epoch.addSample, summed_concat, h.samples, Record.isSample]
  checkpoints := by simp [Epoch.addSample, summed_concat, h.checkpoints, Record.isCheckpoint]

theorem Epoch.Tallied.addCheckpoint {epoch : Epoch ν} (h : epoch.Tallied) (c : CheckpointRecord) :
    (epoch.addCheckpoint c).Tallied where
  excludedEpochs := by simp [Epoch.addCheckpoint, summed_concat, h.excludedEpochs]
  excludedRecords := by simp [Epoch.addCheckpoint, summed_concat, h.excludedRecords]
  samples := by simp [Epoch.addCheckpoint, summed_concat, h.samples, Record.isSample]
  checkpoints := by
    simp [Epoch.addCheckpoint, summed_concat, h.checkpoints, Record.isCheckpoint]

/-- **Committing an epoch** counts its samples and checkpoints. -/
theorem Replay.counts_commitEpoch (replay : Replay ν) {epoch : Epoch ν} (h : epoch.Tallied) :
    (replay.commitEpoch epoch).counts = replay.counts +
      (0, 0, epoch.records.countP Record.isSample, epoch.records.countP Record.isCheckpoint) := by
  have hfield : ∀ f ∈ HistoryDiagnostics.fields,
      f (replay.commitEpoch epoch).diagnostics = f replay.diagnostics + summed f epoch.diagnosticEvents :=
    fun f hf => diagnostics_foldl_note hf _ _
  simp only [counts, hfield _ (show HistoryDiagnostics.excludedEpochs ∈ _ by simp [HistoryDiagnostics.fields]),
    hfield _ (show HistoryDiagnostics.excludedRecords ∈ _ by simp [HistoryDiagnostics.fields]),
    hfield _ (show HistoryDiagnostics.validSamples ∈ _ by simp [HistoryDiagnostics.fields]),
    hfield _ (show HistoryDiagnostics.validCheckpoints ∈ _ by simp [HistoryDiagnostics.fields]),
    h.excludedEpochs, h.excludedRecords, h.samples, h.checkpoints]
  rfl

/-! ## The balance of the scan

A line joins the epoch being read, which is not counted yet, or is excluded, with or without that epoch.  When the
epoch ends, its records move from the third term to the first or the second. -/

namespace Scan

/-- The epoch being read. -/
def epoch? (sc : Scan ν) : Option (Epoch ν) :=
  match sc.state with
  | .awaitSample epoch => some epoch
  | .usable epoch => some epoch
  | .awaitBoot => none
  | .invalidEpoch => none

/-- Its records. -/
def pending (sc : Scan ν) : List (Record ν) := (sc.epoch?.map Epoch.records).getD []

/-- **Damage** excludes the epoch being read, its records and the damaging one. -/
theorem counts_damaged (sc : Scan ν) (time : Option U64) :
    (sc.damaged time).replay.counts =
      sc.replay.counts + (sc.epoch?.toList.length, sc.pending.length + 1, 0, 0) := by
  have hadvance : (time.toList.foldl Replay.advanceOrderingBound sc.replay).counts = sc.replay.counts := by
    cases time <;> rfl
  obtain ⟨state, replay, sawNonblank⟩ := sc
  cases state with
  | awaitBoot =>
      simp only [damaged, invalidate, Replay.counts_openGap, Replay.counts_excludeRecord, hadvance]
      rfl
  | invalidEpoch =>
      simp only [damaged, invalidate, Replay.counts_openGap, Replay.counts_excludeRecord, hadvance]
      rfl
  | awaitSample epoch =>
      simp only [damaged, invalidate, Replay.counts_excludeEpoch, hadvance]
      rfl
  | usable epoch =>
      simp only [damaged, invalidate, Replay.counts_excludeEpoch, hadvance]
      rfl

theorem summed_damaged {sc : Scan ν} (h : sc.replay.Summed) (time : Option U64) :
    (sc.damaged time).replay.Summed := by
  have hadvance : (time.toList.foldl Replay.advanceOrderingBound sc.replay).Summed := by
    cases time with
    | none => exact h
    | some t => exact h
  obtain ⟨state, replay, sawNonblank⟩ := sc
  cases state with
  | awaitBoot => exact (hadvance.excludeRecord _).openGap _
  | invalidEpoch => exact (hadvance.excludeRecord _).openGap _
  | awaitSample epoch => exact hadvance.excludeEpoch _ _
  | usable epoch => exact hadvance.excludeEpoch _ _

/-- **`Balanced`** — so many lines were not blank, and each is a record, an excluded record, or a record of
the epoch being read. -/
structure Balanced (nonblank : ℕ) (sc : Scan ν) : Prop where
  summed : sc.replay.Summed
  lines : nonblank = sc.replay.records.length + sc.replay.diagnostics.excludedRecords + sc.pending.length
  samples : sc.replay.diagnostics.validSamples = sc.replay.records.countP Record.isSample
  checkpoints : sc.replay.diagnostics.validCheckpoints = sc.replay.records.countP Record.isCheckpoint
  tallied : ∀ epoch ∈ sc.epoch?, epoch.Tallied

theorem balanced_empty : Balanced 0 ({} : Scan ν) where
  summed := by
    intro f hf
    exact HistoryDiagnostics.empty_field hf
  lines := rfl
  samples := rfl
  checkpoints := rfl
  tallied := by rintro _ ⟨⟩

variable {n : ℕ} {sc sc' : Scan ν}

theorem Balanced.seen (h : Balanced n sc) : Balanced n sc.seen :=
  ⟨h.summed, h.lines, h.samples, h.checkpoints, h.tallied⟩

/-- Damage moves the epoch being read to the excluded ones, with the line. -/
theorem Balanced.damaged (h : Balanced n sc) (time : Option U64) :
    Balanced (n + 1) (sc.damaged time) := by
  have hcounts := sc.counts_damaged time
  simp only [Replay.counts, Prod.mk_add_mk, Prod.mk.injEq] at hcounts
  obtain ⟨hrecords, hstate⟩ := sc.records_damaged time
  have hnone : (sc.damaged time).epoch? = none := by rw [epoch?, hstate]
  have hpending : (sc.damaged time).pending = [] := by rw [pending, hnone]; rfl
  have hlines := h.lines
  refine ⟨summed_damaged h.summed time, ?_, ?_, ?_, ?_⟩
  · rw [hrecords, hcounts.2.1, hpending, List.length_nil]
    omega
  · rw [hrecords, hcounts.2.2.1]
    exact h.samples
  · rw [hrecords, hcounts.2.2.2]
    exact h.checkpoints
  · rw [hnone]
    rintro _ ⟨⟩

/-- The end of the epoch being read: its records are committed or excluded. -/
theorem Balanced.closeEpoch (h : Balanced n sc) :
    Balanced n { sc with state := .awaitBoot, replay := sc.closeEpoch } := by
  have htallied := h.tallied
  have hlines := h.lines
  obtain ⟨state, replay, sawNonblank⟩ := sc
  cases state with
  | awaitBoot => exact h
  | invalidEpoch => exact ⟨h.summed, h.lines, h.samples, h.checkpoints, h.tallied⟩
  -- without a sample the epoch is dropped, and its one record counted as excluded
  | awaitSample epoch =>
      have hrecords : (replay.excludeEpoch epoch none).records = replay.records :=
        congrArg Prod.fst (replay.log_excludeEpoch epoch none)
      have hcounts := replay.counts_excludeEpoch epoch none
      simp only [Replay.counts, Prod.mk_add_mk, Prod.mk.injEq] at hcounts
      refine ⟨h.summed.excludeEpoch epoch none, ?_, ?_, ?_, by rintro _ ⟨⟩⟩
      · simp only [Scan.closeEpoch, hrecords, hcounts.2.1]
        simp only [pending, epoch?, Option.map_some, Option.getD_some, Option.map_none,
          Option.getD_none, Option.toList_none, List.length_nil] at hlines ⊢
        omega
      · simp only [Scan.closeEpoch, hrecords, hcounts.2.2.1]
        exact h.samples
      · simp only [Scan.closeEpoch, hrecords, hcounts.2.2.2]
        exact h.checkpoints
  -- with one it is committed, and its records are counted already
  | usable epoch =>
      have hrecords : (replay.commitEpoch epoch).records = replay.records ++ epoch.records :=
        congrArg Prod.fst (replay.log_commitEpoch epoch)
      have hcounts := replay.counts_commitEpoch (htallied epoch rfl)
      simp only [Replay.counts, Prod.mk_add_mk, Prod.mk.injEq] at hcounts
      refine ⟨h.summed.commitEpoch epoch, ?_, ?_, ?_, by rintro _ ⟨⟩⟩
      · simp only [Scan.closeEpoch, hrecords, hcounts.2.1, List.length_append]
        simp only [pending, epoch?, Option.map_some, Option.getD_some, Option.map_none,
          Option.getD_none, List.length_nil] at hlines ⊢
        omega
      · simp only [Scan.closeEpoch, hrecords, hcounts.2.2.1, List.countP_append]
        exact congrArg (· + _) h.samples
      · simp only [Scan.closeEpoch, hrecords, hcounts.2.2.2, List.countP_append]
        exact congrArg (· + _) h.checkpoints

/-- A record joins the epoch being read. -/
theorem Balanced.join (h : Balanced n sc) {epoch epoch' : Epoch ν} (hepoch : sc.epoch? = some epoch)
    (htallied : epoch'.Tallied) (hlength : epoch'.records.length = epoch.records.length + 1) (time : U64) :
    Balanced (n + 1) (sc.join epoch' time) where
  summed := h.summed
  lines := by
    have hlines := h.lines
    simp only [pending, hepoch, Option.map_some, Option.getD_some] at hlines
    show n + 1 = sc.replay.records.length + sc.replay.diagnostics.excludedRecords + epoch'.records.length
    omega
  samples := h.samples
  checkpoints := h.checkpoints
  tallied := by
    rintro _ ⟨⟩
    exact htallied

/-- **A record that is taken** is counted with the epoch it joins or starts. -/
theorem Balanced.takes {r : Record ν} (h : Balanced n sc) (hstep : sc.Takes r sc') :
    Balanced (n + 1) sc' := by
  cases hstep with
  | boot b =>
      have hclose : Balanced n { sc.advance b.timestamp with
          state := .awaitBoot, replay := (sc.advance b.timestamp).closeEpoch } :=
        Balanced.closeEpoch ⟨h.summed, h.lines, h.samples, h.checkpoints, h.tallied⟩
      have hrecords : ((sc.advance b.timestamp).startBoot b).replay.records =
          (sc.advance b.timestamp).closeEpoch.records := congrArg Prod.fst (Replay.log_closeOpenGap _ _)
      have hdiagnostics : ((sc.advance b.timestamp).startBoot b).replay.diagnostics =
          (sc.advance b.timestamp).closeEpoch.diagnostics := (Replay.diagnostics_closeOpenGap _ _).1
      refine ⟨hclose.summed.closeOpenGap _, ?_, ?_, ?_, ?_⟩
      · rw [hrecords, hdiagnostics]
        exact congrArg (· + 1) hclose.lines
      · rw [hrecords, hdiagnostics]
        exact hclose.samples
      · rw [hrecords, hdiagnostics]
        exact hclose.checkpoints
      · rintro _ ⟨⟩
        exact Epoch.tallied_new b
  | first epoch s hstate hid =>
      have hepoch : sc.epoch? = some epoch := by rw [epoch?, hstate]
      exact h.join hepoch ((h.tallied epoch hepoch).addSample s) (by simp [Epoch.addSample]) _
  | sample epoch s hstate hid =>
      have hepoch : sc.epoch? = some epoch := by rw [epoch?, hstate]
      exact h.join hepoch ((h.tallied epoch hepoch).addSample s) (by simp [Epoch.addSample]) _
  | checkpoint epoch c hstate hid =>
      have hepoch : sc.epoch? = some epoch := by rw [epoch?, hstate]
      exact h.join hepoch ((h.tallied epoch hepoch).addCheckpoint c) (by simp [Epoch.addCheckpoint]) _

end Scan

section Files

variable [F64 ν] {S : Serde ν}

/-- How many of these lines are not blank. -/
def nonblank (lines : List Bytes) : ℕ := lines.countP fun line => !isBlank line

/-- The lines of a file; what follows the last line feed is one, if anything does. -/
def linesOf (file : Bytes) : List Bytes :=
  if (readLines file).2 = [] then (readLines file).1 else (readLines file).1 ++ [(readLines file).2]

/-- Every prefix of the lines is balanced. -/
theorem Scan.balanced_of_scanLines {lines : List Bytes} {sc : Scan ν}
    (h : scanLines S 1 {} lines = .ok sc) : Balanced (nonblank lines) sc := by
  have hrun : Balanced (nonblank ([] ++ lines)) sc := by
    refine scanLines_induction (I := fun done sc => Balanced (nonblank done) sc) ?_ ?_ ?_
      balanced_empty h
    · intro done line sc hb hI
      simpa [nonblank, hb] using hI
    · intro done line sc time hb hI
      simpa [nonblank, hb] using hI.seen.damaged time
    · intro done line sc r sc' hb _ _ hstep hI
      simpa [nonblank, hb] using hI.seen.takes hstep
  simpa using hrun

/-- **Record conservation.** In a file that validates, whose tail is not only white space, every line that
is not blank is one of the records that come back or one of those excluded; the samples and checkpoints
counted are those that come back; and every total is the sum of its events. -/
theorem validateCanonical_conserves {file : Bytes} {replay : Replay ν}
    (h : validateCanonical S file = .ok replay)
    (htail : (readLines file).2 ≠ [] → isBlank (readLines file).2 = false) :
    nonblank (linesOf file) = replay.records.length + replay.diagnostics.excludedRecords ∧
      replay.diagnostics.validSamples = replay.records.countP Record.isSample ∧
      replay.diagnostics.validCheckpoints = replay.records.countP Record.isCheckpoint ∧
      ∀ f ∈ HistoryDiagnostics.fields,
        f replay.diagnostics = (replay.diagnosticEvents.map fun event => f event.diagnostics).sum := by
  obtain ⟨sc, hscan, hend⟩ := validateCanonical_cases h
  have hbalanced := Scan.balanced_of_scanLines hscan
  rcases hend with ⟨hnil, -, rfl⟩ | ⟨hne, -, rfl⟩
  · have hclose := hbalanced.closeEpoch
    rw [linesOf, if_pos hnil]
    exact ⟨hclose.lines, hclose.samples, hclose.checkpoints, hclose.summed⟩
  · have hmet : Scan.Balanced (nonblank (readLines file).1) (sc.unterminated (readLines file).2) :=
      ⟨hbalanced.summed, hbalanced.lines, hbalanced.samples, hbalanced.checkpoints, hbalanced.tallied⟩
    have hdamaged := hmet.damaged (S.trustworthyTimestamp (readLines file).2)
    have hcount : nonblank (linesOf file) = nonblank (readLines file).1 + 1 := by
      rw [linesOf, if_neg hne]
      simp [nonblank, htail hne]
    rw [hcount]
    exact ⟨hdamaged.lines, hdamaged.samples, hdamaged.checkpoints, hdamaged.summed⟩

end Files

/-- Nine lines: three come back, six are excluded with the three epochs they are of. -/
theorem validateCanonical_conserves_patched :
    ∃ replay, validateCanonical json (fileOf json patchedRecords) = .ok replay ∧
      replay.records.length = 3 ∧ replay.diagnostics.excludedRecords = 6 ∧
      nonblank (linesOf (fileOf json patchedRecords)) =
        replay.records.length + replay.diagnostics.excludedRecords := by
  have hvalid := validateCanonical_fileOf (by decide : patchedRecords ≠ []) restores_patchedRecords
  obtain ⟨htail, -⟩ := scanLines_fileOf restores_patchedRecords
  have hcount := (validateCanonical_conserves hvalid fun hne => absurd htail hne).1
  exact ⟨_, hvalid, by decide, by decide, hcount⟩

end Flock.History
