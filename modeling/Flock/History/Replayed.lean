/-
# Flock.History.Replayed — what a file that validates is read as.

Whatever the bytes, the records that come back are whole epochs in the order of their lines, and no
record is older than the one before it.  Every line that is not blank is accounted for once: it is one of
the records that come back, or one of those counted as excluded; and the totals of the diagnostics are
the sums of their events.

Both are invariants of the scan.  The epoch being read counts with the records for the first and is the
third term of the balance for the second.
-/
import Flock.History.Compaction
import Flock.History.Json
import Flock.History.Lines

namespace Flock.History

variable {ν : Type}

/-! ## Whole epochs, in order

The invariant of the scan: committed records make whole epochs; what is being read is an epoch that waits for a
sample, or has one; and all of it is in the order of its times. -/

namespace WellFormedEpoch

/-- One more record of the epoch. -/
def snoc (w : WellFormedEpoch ν) (r : Record ν) (hboot : r.isBoot = false) (hid : r.bootId = w.boot.bootId)
    (hsorted : (w.records ++ [r]).Pairwise fun r r' => r.timestamp ≤ r'.timestamp) :
    WellFormedEpoch ν where
  boot := w.boot
  sample := w.sample
  rest := w.rest ++ [r]
  bootId_sample := w.bootId_sample
  bootId_rest := by
    intro r' hr'
    rcases List.mem_append.mp hr' with h | h
    · exact w.bootId_rest r' h
    · obtain rfl := List.mem_singleton.mp h
      exact hid
  isBoot_rest := by
    intro r' hr'
    rcases List.mem_append.mp hr' with h | h
    · exact w.isBoot_rest r' h
    · obtain rfl := List.mem_singleton.mp h
      exact hboot
  sorted := hsorted

end WellFormedEpoch

/-- What the scanner knows of the epoch being read. -/
inductive ScannerState.EpochOk : ScannerState ν → Prop
  | awaitBoot : EpochOk .awaitBoot
  | awaitSample (boot : BootRecord) : EpochOk (.awaitSample (Epoch.new boot))
  | usable (epoch : Epoch ν) (w : WellFormedEpoch ν) (hrecords : epoch.records = w.records)
      (hid : epoch.bootId = w.boot.bootId) : EpochOk (.usable epoch)
  | invalidEpoch : EpochOk .invalidEpoch

/-- The records of some lines, in their order. -/
def decoded [F64 ν] (S : Serde ν) (lines : List Bytes) : List (Record ν) :=
  lines.filterMap fun line => (decodeRecord S line).toOption

/-- No record is older than the one before it. -/
def Chronological (rs : List (Record ν)) : Prop := rs.Pairwise fun r r' => r.timestamp ≤ r'.timestamp

namespace Scan

/-- **`WellFormed`** — committed epochs, one that may become one, and every record within the bound. -/
structure WellFormed (sc : Scan ν) : Prop where
  committed : ∃ epochs : List (WellFormedEpoch ν), sc.replay.records = joined epochs
  reading : sc.state.EpochOk
  chronological : Chronological sc.allRecords
  bounded : ∀ r ∈ sc.allRecords, ∃ bound ∈ sc.replay.orderingBound, r.timestamp ≤ bound

theorem wellFormed_empty : ({} : Scan ν).WellFormed where
  committed := ⟨[], rfl⟩
  reading := .awaitBoot
  chronological := .nil
  bounded := by simp [allRecords]

theorem WellFormed.seen {sc : Scan ν} (h : sc.WellFormed) : sc.seen.WellFormed :=
  ⟨h.committed, h.reading, h.chronological, h.bounded⟩

theorem records_sublist_allRecords (sc : Scan ν) : sc.replay.records.Sublist sc.allRecords :=
  List.sublist_append_left _ _

theorem committed_sublist_allRecords (sc : Scan ν) :
    (sc.replay.records ++ sc.committed).Sublist sc.allRecords := by
  rw [allRecords]
  refine List.Sublist.append (List.Sublist.refl _) ?_
  rw [Scan.committed]
  cases sc.state <;> simp

/-- The ordering bound only grows. -/
theorem exists_bound_damaged {sc : Scan ν} {x : U64}
    (h : ∃ bound ∈ sc.replay.orderingBound, x ≤ bound) (time : Option U64) :
    ∃ bound ∈ (sc.damaged time).replay.orderingBound, x ≤ bound := by
  obtain ⟨bound, hbound, hle⟩ := h
  rw [orderingBound_damaged]
  cases time with
  | none => exact ⟨bound, hbound, hle⟩
  | some t =>
      refine ⟨max bound t, ?_, hle.trans (le_max_left _ _)⟩
      simp [Replay.advanceOrderingBound, Option.mem_def.mp hbound]

/-- Damage leaves what was committed. -/
theorem allRecords_damaged (sc : Scan ν) (time : Option U64) :
    (sc.damaged time).allRecords = sc.replay.records := by
  simp [allRecords, sc.records_damaged time]

/-- Damage drops the epoch being read. -/
theorem WellFormed.damaged {sc : Scan ν} (h : sc.WellFormed) (time : Option U64) :
    (sc.damaged time).WellFormed where
  committed := by
    rw [(sc.records_damaged time).1]
    exact h.committed
  reading := by
    rw [(sc.records_damaged time).2]
    exact .invalidEpoch
  chronological := by
    rw [allRecords_damaged]
    exact h.chronological.sublist sc.records_sublist_allRecords
  bounded := by
    rw [allRecords_damaged]
    intro r hr
    exact exists_bound_damaged (h.bounded r (sc.records_sublist_allRecords.mem hr)) time

/-- A record that is taken comes last, and nothing comes before it that was not there. -/
theorem Takes.allRecords_sublist {sc sc' : Scan ν} {r : Record ν} (h : sc.Takes r sc') :
    sc'.allRecords.Sublist (sc.allRecords ++ [r]) := by
  cases h with
  | boot b =>
      have hlog := congrArg Prod.fst (sc.advance b.timestamp).log_closeEpoch
      have hrecords : ((sc.advance b.timestamp).startBoot b).replay.records =
          sc.replay.records ++ sc.committed :=
        (congrArg Prod.fst (Replay.log_closeOpenGap _ _)).trans hlog
      rw [allRecords, hrecords]
      exact sc.committed_sublist_allRecords.append (List.Sublist.refl _)
  | first epoch s hstate hid => simp [allRecords, join, advance, hstate, Epoch.addSample,
      Replay.advanceOrderingBound]
  | sample epoch s hstate hid => simp [allRecords, join, advance, hstate, Epoch.addSample,
      Replay.advanceOrderingBound]
  | checkpoint epoch c hstate hid => simp [allRecords, join, advance, hstate, Epoch.addCheckpoint,
      Replay.advanceOrderingBound]

/-- The bound is the time of the record that was taken last. -/
theorem Takes.orderingBound {sc sc' : Scan ν} {r : Record ν} (h : sc.Takes r sc')
    (hold : sc.replay.orderingBound.any (r.timestamp < ·) = false) :
    sc'.replay.orderingBound = some r.timestamp := by
  cases h with
  | boot b =>
      have hlog := congrArg (fun log => log.2.1) (sc.advance b.timestamp).log_closeEpoch
      have hclose := congrArg (fun log => log.2.1)
        (Replay.log_closeOpenGap (sc.advance b.timestamp).closeEpoch b.timestamp)
      exact (hclose.trans hlog).trans (orderingBound_advance hold)
  | first epoch s hstate hid => exact orderingBound_advance hold
  | sample epoch s hstate hid => exact orderingBound_advance hold
  | checkpoint epoch c hstate hid => exact orderingBound_advance hold

/-- A record within the bound is not older than anything read so far. -/
theorem WellFormed.le_of_not_older {sc : Scan ν} (h : sc.WellFormed) {r : Record ν}
    (hold : sc.replay.orderingBound.any (r.timestamp < ·) = false) :
    ∀ r' ∈ sc.allRecords, r'.timestamp ≤ r.timestamp := by
  intro r' hr'
  obtain ⟨bound, hbound, hle⟩ := h.bounded r' hr'
  rw [Option.mem_def.mp hbound] at hold
  exact hle.trans (by simpa using hold)

/-- A record within the bound goes to the end. -/
theorem WellFormed.chronological_append {sc : Scan ν} (h : sc.WellFormed) {r : Record ν}
    (hold : sc.replay.orderingBound.any (r.timestamp < ·) = false) :
    Chronological (sc.allRecords ++ [r]) := by
  refine List.pairwise_append.mpr ⟨h.chronological, List.pairwise_singleton _ _, ?_⟩
  intro r' hr' r'' hr''
  obtain rfl := List.mem_singleton.mp hr''
  exact h.le_of_not_older hold r' hr'

/-- The epochs that are committed when the epoch being read ends. -/
theorem WellFormed.exists_epochs {sc : Scan ν} (h : sc.WellFormed) :
    ∃ epochs : List (WellFormedEpoch ν), sc.replay.records ++ sc.committed = joined epochs := by
  obtain ⟨epochs, hepochs⟩ := h.committed
  have hreading := h.reading
  cases hstate : sc.state with
  | awaitBoot => exact ⟨epochs, by simp [Scan.committed, hstate, hepochs]⟩
  | awaitSample epoch => exact ⟨epochs, by simp [Scan.committed, hstate, hepochs]⟩
  | invalidEpoch => exact ⟨epochs, by simp [Scan.committed, hstate, hepochs]⟩
  | usable epoch =>
      rw [hstate] at hreading
      cases hreading with
      | usable _ w hrecords hid =>
          exact ⟨epochs ++ [w], by simp [Scan.committed, hstate, hepochs, hrecords, joined]⟩

/-- The epoch being read is in the order of its times, with the record that joins it. -/
theorem WellFormed.chronological_epoch {sc : Scan ν} (h : sc.WellFormed) {r : Record ν}
    (hold : sc.replay.orderingBound.any (r.timestamp < ·) = false) {epoch : Epoch ν}
    (hstate : sc.state = .awaitSample epoch ∨ sc.state = .usable epoch) :
    Chronological (epoch.records ++ [r]) := by
  have hall : sc.allRecords = sc.replay.records ++ epoch.records := by
    rcases hstate with hs | hs <;> simp [allRecords, hs]
  have hchron := h.chronological_append hold
  rw [hall, List.append_assoc] at hchron
  exact hchron.sublist (List.sublist_append_right _ _)

/-- **A record that is taken** keeps the scan well formed. -/
theorem WellFormed.takes {sc sc' : Scan ν} {r : Record ν} (h : sc.WellFormed)
    (hold : sc.replay.orderingBound.any (r.timestamp < ·) = false) (hstep : sc.Takes r sc') :
    sc'.WellFormed := by
  -- a record that is taken is not older than the bound, and becomes the bound
  have hbounded : ∀ r' ∈ sc'.allRecords, ∃ bound ∈ sc'.replay.orderingBound, r'.timestamp ≤ bound := by
    intro r' hr'
    refine ⟨r.timestamp, hstep.orderingBound hold, ?_⟩
    rcases List.mem_append.mp (hstep.allRecords_sublist.mem hr') with hmem | hmem
    · exact h.le_of_not_older hold r' hmem
    · obtain rfl := List.mem_singleton.mp hmem
      exact le_rfl
  -- so time does not go back in the records
  have hchron := (h.chronological_append hold).sublist hstep.allRecords_sublist
  have hreading := h.reading
  cases hstep with
  -- a boot closes the epoch, which adds it to the committed ones or drops it
  | boot b =>
      refine ⟨?_, .awaitSample b, hchron, hbounded⟩
      obtain ⟨epochs, hepochs⟩ := h.exists_epochs
      refine ⟨epochs, ?_⟩
      have hlog := congrArg Prod.fst (sc.advance b.timestamp).log_closeEpoch
      exact ((congrArg Prod.fst (Replay.log_closeOpenGap _ _)).trans hlog).trans hepochs
  -- the first sample makes the epoch a usable one
  | first epoch s hstate hid =>
      have hsorted := h.chronological_epoch hold (.inl hstate)
      rw [hstate] at hreading
      cases hreading with
      | awaitSample boot =>
          let w : WellFormedEpoch ν := {
            boot := boot
            sample := s
            rest := []
            bootId_sample := hid.symm
            bootId_rest := by simp
            isBoot_rest := by simp
            sorted := hsorted }
          exact ⟨h.committed, .usable _ w rfl rfl, hchron, hbounded⟩
  | sample epoch s hstate hid =>
      have hsorted := h.chronological_epoch hold (.inr hstate)
      rw [hstate] at hreading
      cases hreading with
      | usable _ w hrecords hboot =>
          refine ⟨h.committed, .usable _ (w.snoc (.sample s) rfl (hid.symm.trans hboot) ?_) ?_ hboot,
            hchron, hbounded⟩
          · rw [← hrecords]
            exact hsorted
          · exact congrArg (· ++ [Record.sample s]) hrecords
  | checkpoint epoch c hstate hid =>
      have hsorted := h.chronological_epoch hold (.inr hstate)
      rw [hstate] at hreading
      cases hreading with
      | usable _ w hrecords hboot =>
          refine ⟨h.committed, .usable _ (w.snoc (.checkpoint c) rfl (hid.symm.trans hboot) ?_) ?_ hboot,
            hchron, hbounded⟩
          · rw [← hrecords]
            exact hsorted
          · exact congrArg (· ++ [Record.checkpoint c]) hrecords

end Scan

section Files

variable [F64 ν] {S : Serde ν}

/-- **The scan of some lines** is well formed, and what it holds is a subsequence of their records. -/
theorem Scan.wellFormed_of_scanLines {lines : List Bytes} {sc : Scan ν}
    (h : scanLines S 1 {} lines = .ok sc) :
    sc.WellFormed ∧ sc.allRecords.Sublist (decoded S lines) := by
  let I (done : List Bytes) (sc : Scan ν) : Prop :=
    sc.WellFormed ∧ sc.allRecords.Sublist (decoded S done)
  have hsnoc : ∀ done line, (decoded S done).Sublist (decoded S (done ++ [line])) := by
    intro done line
    rw [decoded, decoded, List.filterMap_append]
    exact List.sublist_append_left _ _
  have h₀ : I [] {} := ⟨wellFormed_empty, by simp [allRecords]⟩
  have hrun : I ([] ++ lines) sc := by
    refine scanLines_induction ?_ ?_ ?_ h₀ h
    · intro done line sc _ hI
      exact ⟨hI.1, hI.2.trans (hsnoc done line)⟩
    · intro done line sc time _ hI
      refine ⟨hI.1.seen.damaged time, ?_⟩
      rw [allRecords_damaged]
      exact (sc.records_sublist_allRecords.trans hI.2).trans (hsnoc done line)
    · intro done line sc r sc' _ hdecode htakes hstep hI
      refine ⟨hI.1.seen.takes (not_older_of_takes htakes) hstep, ?_⟩
      have hline : decoded S (done ++ [line]) = decoded S done ++ [r] := by
        simp [decoded, hdecode, Except.toOption]
      rw [hline]
      exact hstep.allRecords_sublist.trans (hI.2.append (List.Sublist.refl _))
  exact hrun

/-- **Replay yields whole epochs.** Whatever the file, the records that come back are a concatenation of
well-formed epochs, in the order of their times, and in the order of their lines. -/
theorem validateCanonical_epochs {file : Bytes} {replay : Replay ν}
    (h : validateCanonical S file = .ok replay) :
    (∃ epochs : List (WellFormedEpoch ν), replay.records = joined epochs) ∧
      Chronological replay.records ∧ replay.records.Sublist (decoded S (readLines file).1) := by
  obtain ⟨sc, hscan, hend⟩ := validateCanonical_cases h
  obtain ⟨hwell, horder⟩ := Scan.wellFormed_of_scanLines hscan
  rcases hend with ⟨-, -, rfl⟩ | ⟨-, -, rfl⟩
  · have hrecords : sc.closeEpoch.records = sc.replay.records ++ sc.committed :=
      congrArg Prod.fst sc.log_closeEpoch
    rw [hrecords]
    exact ⟨hwell.exists_epochs, hwell.chronological.sublist sc.committed_sublist_allRecords,
      sc.committed_sublist_allRecords.trans horder⟩
  · have hrecords : (sc.torn S (readLines file).2).replay.records = sc.replay.records :=
      (Scan.records_damaged _ _).1
    rw [hrecords]
    exact ⟨hwell.committed, hwell.chronological.sublist sc.records_sublist_allRecords,
      sc.records_sublist_allRecords.trans horder⟩

end Files

/-- Four boots: one never sampled but checkpointed, a sound one, one with a sample of another boot in its
epoch, and one that is still without a sample. -/
def patchedRecords : List (Record ℚ) :=
  [.boot ⟨10, "a", ⟨40, 1, [40]⟩⟩, .checkpoint ⟨20, "a", ⟨40, 1, [40]⟩⟩,
   .boot ⟨30, "b", ⟨40, 1, [40]⟩⟩, .sample ⟨30, "b", ⟨40, 1, [40]⟩, []⟩, .checkpoint ⟨40, "b", ⟨40, 1, [40]⟩⟩,
   .boot ⟨50, "c", ⟨40, 1, [40]⟩⟩, .sample ⟨60, "c", ⟨40, 1, [40]⟩, []⟩, .sample ⟨70, "b", ⟨40, 1, [40]⟩, []⟩,
   .boot ⟨80, "d", ⟨40, 1, [40]⟩⟩]

/-- They can be written and read back. -/
theorem restores_patchedRecords : ∀ r ∈ patchedRecords, json.Restores r := by
  refine json_faithful.restores_all fun r hr => ?_
  simp only [patchedRecords, List.mem_cons, List.not_mem_nil, or_false] at hr
  rcases hr with rfl | rfl | rfl | rfl | rfl | rfl | rfl | rfl | rfl
  all_goals first | trivial | exact stateOk_nil []

/-- Only the sound epoch comes back. -/
theorem validateCanonical_epochs_patched :
    ∃ replay, validateCanonical json (fileOf json patchedRecords) = .ok replay ∧
      replay.records.map (fun r => (r.timestamp, r.bootId)) = [(30, "b"), (30, "b"), (40, "b")] ∧
      (∃ epochs : List (WellFormedEpoch ℚ), replay.records = joined epochs) ∧
      Chronological replay.records := by
  have hvalid := validateCanonical_fileOf (by decide : patchedRecords ≠ []) restores_patchedRecords
  obtain ⟨hepochs, hchron, -⟩ := validateCanonical_epochs hvalid
  exact ⟨_, hvalid, by decide, hepochs, hchron⟩

end Flock.History
