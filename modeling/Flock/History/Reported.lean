/-
# Flock.History.Reported — what the diagnostics of a window say after a restart.

The diagnostics of a window are sums over a log of events, which is written in two places.  `append` notes
what it does with a scrape; the scanner notes what it makes of the records, and `enrich_canonical_replay`
adds the resets it sees between them.  A restart throws the first log away and builds the second.

Counted over the events up to any time, the two agree on the resets, on the series, and on the samples and
checkpoints together.  They differ by design in two ways: lines that could not be read are evidence about
the text that was scraped, and no record keeps it; and a process that has not taken a sample yet is, for the
next one, a boot without a sample, which is excluded.

A third difference is no design: the process compares the values it scraped, the next one those it reads back, so a
reset between two values that are read alike is lost with the restart.  The results are about runs in which every
state is read back as it was written.
-/
import Mathlib.Algebra.BigOperators.Group.List.Basic
import Flock.History.Damage
import Flock.History.Gaps
import Flock.History.Rereading

namespace Flock.History

open Std (ExtTreeMap)
open Lib (System)

variable {ν : Type}

/-! ## Tallies

A count of the diagnostics is a sum over events, so it is computed piece by piece along a log.  `tally` is that sum up
to a time, for any count that adds up. -/

/-- A count that adds up. -/
structure HistoryDiagnostics.Additive (f : HistoryDiagnostics → ℕ) : Prop where
  empty : f {} = 0
  add : ∀ d d', f (d.add d') = f d + f d'

theorem HistoryDiagnostics.additive_of_mem {f : HistoryDiagnostics → ℕ} (hf : f ∈ fields) :
    Additive f := ⟨empty_field hf, add_field hf⟩

/-- The samples and checkpoints accepted. -/
def HistoryDiagnostics.accepted (d : HistoryDiagnostics) : ℕ := d.validSamples + d.validCheckpoints

theorem HistoryDiagnostics.additive_accepted : Additive accepted where
  empty := rfl
  add d d' := by
    simp only [accepted, HistoryDiagnostics.add]
    omega

/-- A count over the events up to `stop`. -/
def tally (f : HistoryDiagnostics → ℕ) (stop : U64) (events : List DiagnosticEvent) : ℕ :=
  ((events.filter fun event => event.time ≤ stop).map fun event => f event.diagnostics).sum

variable {f : HistoryDiagnostics → ℕ} {stop : U64}

theorem tally_append (f : HistoryDiagnostics → ℕ) (stop : U64) (xs ys : List DiagnosticEvent) :
    tally f stop (xs ++ ys) = tally f stop xs + tally f stop ys := by
  simp [tally]

theorem tally_single (f : HistoryDiagnostics → ℕ) (stop : U64) (event : DiagnosticEvent) :
    tally f stop [event] = if event.time ≤ stop then f event.diagnostics else 0 := by
  unfold tally
  split <;> simp_all

theorem tally_eq_zero {events : List DiagnosticEvent}
    (h : ∀ event ∈ events, f event.diagnostics = 0) : tally f stop events = 0 := by
  induction events with
  | nil => rfl
  | cons event rest ih =>
      have hrest := ih fun e he => h e (List.mem_cons_of_mem _ he)
      have hfirst := h event List.mem_cons_self
      rw [← List.singleton_append, tally_append, tally_single, hrest, hfirst, ite_self]

/-- **The diagnostics of a window** are the tallies of the log. -/
theorem diagnosticsAt_eq_tally (hf : HistoryDiagnostics.Additive f) {inner : HistoryInner ν}
    (hcomplete : inner.recoveryEventsComplete = true) :
    f (diagnosticsAt inner stop) = tally f stop inner.recoveryEvents := by
  have hfold : ∀ (events : List DiagnosticEvent) (total : HistoryDiagnostics),
      f (events.foldl (fun total event => total.add event.diagnostics) total) =
        f total + (events.map fun event => f event.diagnostics).sum := by
    intro events
    induction events with
    | nil => intro total; simp
    | cons event rest ih =>
        intro total
        rw [List.foldl_cons, ih, hf.add, List.map_cons, List.sum_cons, Nat.add_assoc]
  rw [diagnosticsAt, if_pos hcomplete, hfold, hf.empty, Nat.zero_add]
  rfl

/-! ## Resets

The resets of a replay are not in its events: `enrich_canonical_replay` finds them, by comparing neighbouring
observations, and keeps them in a map by time.  They are a function of the list of observations, which the live path
sees in the same order. -/

section Resets

theorem nodup_toList (m : ExtTreeMap U64 ℕ) : m.toList.Nodup := by
  have hdistinct := m.distinct_keys_toList
  refine hdistinct.imp ?_
  rintro a b hne rfl
  simp at hne

/-- The entries of a map, with the one of this time in front if there is one. -/
theorem toList_perm (m : ExtTreeMap U64 ℕ) (time : U64) :
    m.toList.Perm ((m[time]?).toList.map (fun v => (time, v)) ++
      m.toList.filter fun reset => decide (reset.1 ≠ time)) := by
  have hothers : (m.toList.filter fun reset => decide (reset.1 ≠ time)).Nodup := (nodup_toList m).filter _
  refine (List.perm_ext_iff_of_nodup (nodup_toList m) ?_).mpr ?_
  · cases hfound : m[time]? with
    | none => simpa using hothers
    | some v =>
        refine List.nodup_cons.mpr ⟨?_, hothers⟩
        simp
  · rintro ⟨k, v⟩
    simp only [ExtTreeMap.mem_toList_iff_getElem?_eq_some, List.mem_append, List.mem_map,
      Option.mem_toList, List.mem_filter, Prod.mk.injEq, decide_eq_true_eq, ne_eq]
    by_cases hk : k = time
    · subst hk
      simp
    · simp [hk, Ne.symm hk]

/-- One more at a time. -/
theorem resetsIn_insert (stop : U64) (m : ExtTreeMap U64 ℕ) (time : U64) (count : ℕ) :
    resetsIn stop (m.insert time (m.getD time 0 + count)) =
      resetsIn stop m + if time ≤ stop then count else 0 := by
  have hsum : ∀ m' : ExtTreeMap U64 ℕ, resetsIn stop m' =
      (if time ≤ stop then m'.getD time 0 else 0) +
        (((m'.toList.filter fun reset => decide (reset.1 ≠ time)).filter
          fun reset => reset.1 ≤ stop).map Prod.snd).sum := by
    intro m'
    have hperm := ((toList_perm m' time).filter fun reset => reset.1 ≤ stop).map Prod.snd
    rw [resetsIn, hperm.sum_eq, List.filter_append, List.map_append, List.sum_append,
      ExtTreeMap.getD_eq_getD_getElem?]
    congr 1
    cases m'[time]? with
    | none => simp
    | some v => by_cases hle : time ≤ stop <;> simp [hle]
  have hothers : ((m.insert time (m.getD time 0 + count)).toList.filter
      fun reset => decide (reset.1 ≠ time)).Perm (m.toList.filter fun reset => decide (reset.1 ≠ time)) := by
    refine (List.perm_ext_iff_of_nodup ((nodup_toList _).filter _) ((nodup_toList _).filter _)).mpr ?_
    rintro ⟨k, v⟩
    simp only [List.mem_filter, ExtTreeMap.mem_toList_iff_getElem?_eq_some, ExtTreeMap.getElem?_insert,
      decide_eq_true_eq, ne_eq]
    by_cases hk : k = time
    · simp [hk]
    · simp [hk, Ne.symm hk]
  have hrest := ((hothers.filter fun reset : U64 × ℕ => reset.1 ≤ stop).map Prod.snd).sum_eq
  rw [hsum, hsum m, hrest, ExtTreeMap.getD_insert_self]
  split <;> omega

variable [F64 ν]

/-- The observation shows a reset that no boot announced. -/
def Observation.resets (previous : Option (Observation ν)) (o : Observation ν) : Bool :=
  (normalize (previous.map Observation.current) o.current
    (previous.any fun p => p.bootId != o.bootId)).inferredReset

/-- The resets that a list of observations after `previous` shows up to `stop`. -/
def resetsAfter (stop : U64) : Option (Observation ν) → List (Observation ν) → ℕ
  | _, [] => 0
  | previous, o :: rest =>
      (if o.timestamp ≤ stop then (o.resets previous).toNat else 0) + resetsAfter stop (some o) rest

/-- More observations see more resets; the first of them is compared with the last one before. -/
theorem resetsAfter_append (stop : U64) (xs ys : List (Observation ν)) :
    ∀ previous, resetsAfter stop previous (xs ++ ys) =
      resetsAfter stop previous xs + resetsAfter stop (xs.getLast?.or previous) ys := by
  induction xs with
  | nil =>
      intro previous
      simp [resetsAfter]
  | cons o rest ih =>
      intro previous
      have hlast : (o :: rest).getLast?.or previous = rest.getLast?.or (some o) := by
        cases hrest : rest.getLast? <;> simp [List.getLast?_cons, hrest]
      rw [List.cons_append, resetsAfter, ih, resetsAfter, hlast, Nat.add_assoc]

/-- Indexing an observation counts the reset it shows. -/
theorem Enriching.resetsIn_ingest {e : Enriching ν} {previous : Option (Observation ν)}
    (h : e.inner.After previous) (cutoff : Option U64) (o : Observation ν) :
    resetsIn stop (e.ingest cutoff o).inferredResets =
      resetsIn stop e.inferredResets + resetsAfter stop previous [o] := by
  have hcount : (ingestCanonicalSample cutoff e.inner o).diagnostics.inferredResets -
      e.inner.diagnostics.inferredResets = (o.resets previous).toNat := by
    simp only [ingestCanonicalSample, h.normalize_eq, Observation.resets]
    omega
  simp only [Enriching.ingest, hcount, resetsAfter, Nat.add_zero]
  by_cases hpos : 0 < (o.resets previous).toNat
  · rw [if_pos hpos, resetsIn_insert]
  · have hzero : (o.resets previous).toNat = 0 := Nat.eq_zero_of_not_pos hpos
    rw [if_neg hpos, hzero, ite_self, Nat.add_zero]

/-- One record: the resets are those of the observation it stands for. -/
theorem Enriching.resetsIn_step {e : Enriching ν} {previous : Option (Observation ν)}
    (h : e.inner.After previous) (cutoff : Option U64) (r : Record ν) :
    resetsIn stop (e.step cutoff r).inferredResets =
      resetsIn stop e.inferredResets + resetsAfter stop previous (e.fill.observe r).toList := by
  cases r with
  | boot b => simp [Enriching.step, Fill.observe, resetsAfter]
  | sample s => exact Enriching.resetsIn_ingest h cutoff _
  | checkpoint c =>
      by_cases hboot : e.currentBoot = some c.bootId
      · cases hstate : e.currentState with
        | none => simp [Enriching.step, Fill.observe, Enriching.fill, hboot, hstate, resetsAfter]
        | some state =>
            let o : Observation ν := ⟨c.timestamp, c.bootId, c.capacity, parsedCanonicalState state⟩
            have hingest : resetsIn stop (e.ingest cutoff o).inferredResets =
                resetsIn stop e.inferredResets + resetsAfter stop previous [o] :=
              Enriching.resetsIn_ingest h cutoff o
            simpa [Enriching.step, Fill.observe, Enriching.fill, hboot, hstate, o] using hingest
      · simp [Enriching.step, Fill.observe, Enriching.fill, hboot, resetsAfter]

/-- **The resets of a replay are a function of the observations.** -/
theorem Enriching.resetsIn_foldl {cutoff : Option U64} (records : List (Record ν)) :
    ∀ {e : Enriching ν} {previous : Option (Observation ν)}, e.inner.After previous →
      resetsIn stop (records.foldl (Enriching.step cutoff) e).inferredResets =
        resetsIn stop e.inferredResets + resetsAfter stop previous (observations e.fill records) := by
  induction records with
  | nil =>
      intro e previous h
      simp [observations, resetsAfter]
  | cons r rest ih =>
      intro e previous h
      have hafter : (e.step cutoff r).inner.After ((e.fill.observe r).toList.getLast?.or previous) := by
        rw [Enriching.inner_step]
        exact h.foldl_ingest.1
      rw [List.foldl_cons, ih hafter, Enriching.resetsIn_step h, Enriching.fill_step, observations,
        resetsAfter_append, Nat.add_assoc]

end Resets

/-! ## The log of a history that was just opened

What `History::open` adds to the log of the scanner: one event for each time with resets. -/

theorem events_noteResets (replay : Replay ν) (resets : ExtTreeMap U64 ℕ) :
    (replay.noteResets resets).diagnosticEvents = replay.diagnosticEvents ++
      resets.toList.map fun reset => ⟨reset.1, { inferredResets := reset.2 }⟩ := by
  unfold Replay.noteResets
  induction resets.toList generalizing replay with
  | nil => simp
  | cons reset rest ih =>
      rw [List.foldl_cons, ih]
      simp

/-- The resets found, as events: they are tallied as resets and as nothing else. -/
theorem tally_resets (resets : ExtTreeMap U64 ℕ) :
    tally HistoryDiagnostics.inferredResets stop
        (resets.toList.map fun reset => ⟨reset.1, { inferredResets := reset.2 }⟩) =
      resetsIn stop resets := by
  simp [tally, resetsIn, List.filter_map, Function.comp_def]

/-! ## The log of the scanner

The scanner notes an epoch when it ends, so the log has to be read together with the epoch being read (`events`). -/

namespace Replay

theorem events_foldl_excludeRecord {α : Type} (g : α → U64) (xs : List α) (replay : Replay ν) :
    (xs.foldl (fun replay x => replay.excludeRecord (g x)) replay).diagnosticEvents =
      replay.diagnosticEvents ++ xs.map fun x => ⟨g x, { excludedRecords := 1 }⟩ := by
  induction xs generalizing replay with
  | nil => simp
  | cons x rest ih =>
      rw [List.foldl_cons, ih]
      simp [excludeRecord, note]

/-- An epoch is excluded: one event for it, and one for each of its records. -/
theorem events_excludeEpoch (replay : Replay ν) (epoch : Epoch ν) :
    (replay.excludeEpoch epoch none).diagnosticEvents = replay.diagnosticEvents ++
      ⟨epoch.start, { excludedEpochs := 1 }⟩ ::
        epoch.records.map fun r => ⟨r.timestamp, { excludedRecords := 1 }⟩ := by
  have hrecords := events_foldl_excludeRecord Record.timestamp epoch.records
    (replay.note ⟨epoch.start, { excludedEpochs := 1 }⟩)
  simp only [excludeEpoch, (diagnostics_openGap _ _).2]
  refine hrecords.trans ?_
  simp [note]

/-- Events that are noted go to the end of the log. -/
theorem events_foldl_note (events : List DiagnosticEvent) (replay : Replay ν) :
    (events.foldl note replay).diagnosticEvents = replay.diagnosticEvents ++ events := by
  induction events generalizing replay with
  | nil => simp
  | cons event rest ih => simp [ih, note]

end Replay

namespace Scan

/-- The events noted so far, those of the epoch being read included. -/
def events (sc : Scan ν) : List DiagnosticEvent :=
  sc.replay.diagnosticEvents ++ (sc.epoch?.map Epoch.diagnosticEvents).getD []

/-- **The end of the epoch being read**: a boot without a sample is excluded with its one record, and what
was noted of any other epoch stands. -/
theorem events_closeEpoch {sc : Scan ν} {bootId : String} {lastState : Option (List (StateEntry ν))}
    (hreading : sc.Reading bootId lastState) :
    (lastState = none ∧ ∃ boot : BootRecord, sc.state = .awaitSample (Epoch.new boot) ∧
      sc.closeEpoch.diagnosticEvents = sc.events ++
        [⟨boot.timestamp, { excludedEpochs := 1 }⟩, ⟨boot.timestamp, { excludedRecords := 1 }⟩]) ∨
    (lastState ≠ none ∧ sc.closeEpoch.diagnosticEvents = sc.events) := by
  obtain ⟨state, replay, sawNonblank⟩ := sc
  cases hreading with
  | booted boot hstate hid =>
      obtain rfl : state = _ := hstate
      refine .inl ⟨rfl, boot, rfl, ?_⟩
      simp only [closeEpoch, Replay.events_excludeEpoch]
      simp [events, epoch?, Epoch.new, Record.timestamp]
  | sampled epoch st hstate hid =>
      obtain rfl : state = _ := hstate
      refine .inr ⟨by simp, ?_⟩
      simp only [closeEpoch, Replay.commitEpoch, Replay.events_foldl_note]
      rfl

/-- The bound has no part in what is noted at the end of an epoch. -/
theorem events_closeEpoch_advance (sc : Scan ν) (time : U64) :
    (sc.advance time).closeEpoch.diagnosticEvents = sc.closeEpoch.diagnosticEvents := by
  obtain ⟨state, replay, sawNonblank⟩ := sc
  cases state with
  | awaitBoot | invalidEpoch => rfl
  | awaitSample epoch =>
      simp only [advance, closeEpoch, Replay.events_excludeEpoch]
      rfl
  | usable epoch =>
      simp only [advance, closeEpoch, Replay.commitEpoch, Replay.events_foldl_note]
      rfl

/-- A boot: the log is that of the end of the epoch before it. -/
theorem events_next_boot {sc : Scan ν} {boot : BootRecord}
    (hbound : sc.replay.orderingBound.any (boot.timestamp < ·) = false) :
    (sc.next (.boot boot)).state = .awaitSample (Epoch.new boot) ∧
      (sc.next (.boot boot)).events = sc.closeEpoch.diagnosticEvents := by
  obtain ⟨-, -, -, -, hreplay⟩ := next_boot hbound
  obtain ⟨hstate, -⟩ := @next_boot_state _ boot sc hbound
  refine ⟨hstate, ?_⟩
  rw [events, hreplay, (Replay.diagnostics_closeOpenGap _ _).2, events_closeEpoch_advance, epoch?, hstate]
  simp [Epoch.new]

section Written

variable [DecidableEq ν]

/-- What the scanner notes of the record that a sample is written as. -/
theorem events_next_recordOf {sc : Scan ν} {store : HistoryStore ν}
    (hreading : sc.Reading store.bootId store.lastState)
    (hlast : ∀ epoch ∈ sc.epoch?, epoch.state = store.lastState) {t : U64}
    (hbound : sc.replay.orderingBound.any (t < ·) = false) (capacity : Capacity)
    (state : List (StateEntry ν)) :
    (∃ d : HistoryDiagnostics, (sc.next (store.recordOf t capacity state)).events = sc.events ++ [⟨t, d⟩] ∧
      d.accepted = 1 ∧ d.normalizedSeries = state.length ∧ d.excludedEpochs = 0 ∧
      d.excludedRecords = 0 ∧ d.inferredResets = 0 ∧ d.skippedMetricLines = 0) ∧
    ∃ epoch, (sc.next (store.recordOf t capacity state)).state = .usable epoch ∧
      epoch.state = some state := by
  -- the record is not older than the bound
  have htimes : ∀ r : Record ν, r.timestamp = t → ¬ sc.replay.orderingBound.any (r.timestamp < ·) = true := by
    intro r hr
    rw [hr, hbound]
    exact Bool.false_ne_true
  unfold HistoryStore.recordOf
  generalize store.lastState = last at hreading hlast
  obtain ⟨scState, replay, sawNonblank⟩ := sc
  -- the store's own epoch, before its first sample and after it
  cases hreading with
  | booted boot hstate hid =>
      obtain rfl : scState = _ := hstate
      rw [if_neg (by simp), Scan.next, scanRecord, if_neg (htimes _ rfl)]
      simp only [ingestSample, show (Epoch.new boot : Epoch ν).bootId = store.bootId from hid, if_true]
      refine ⟨⟨{ normalizedSeries := state.length, validSamples := 1 }, ?_, rfl, rfl, rfl, rfl, rfl, rfl⟩,
        _, rfl, rfl⟩
      simp [events, epoch?, Epoch.addSample, Epoch.new, Replay.advanceOrderingBound]
  | sampled epoch st hstate hid =>
      obtain rfl : scState = _ := hstate
      have hepoch : epoch.state = some st := hlast epoch rfl
      split
      · -- the state is that of the last sample
        rename_i hsame
        obtain rfl : st = state := Option.some.inj hsame
        rw [Scan.next, scanRecord, if_neg (htimes _ rfl)]
        simp only [ingestCheckpoint, hid, if_true]
        refine ⟨⟨{ normalizedSeries := (epoch.state.map List.length).getD 0, validCheckpoints := 1 }, ?_, rfl,
          ?_, rfl, rfl, rfl, rfl⟩, _, rfl, hepoch⟩
        · simp [events, epoch?, Epoch.addCheckpoint, Replay.advanceOrderingBound]
        · simp [hepoch]
      · rw [Scan.next, scanRecord, if_neg (htimes _ rfl)]
        simp only [ingestSample, hid, if_true]
        refine ⟨⟨{ normalizedSeries := state.length, validSamples := 1 }, ?_, rfl, rfl, rfl, rfl, rfl, rfl⟩,
          _, rfl, rfl⟩
        simp [events, epoch?, Epoch.addSample, Replay.advanceOrderingBound]

end Written

end Scan

/-! ## The two logs

Both logs, along one run: the live path notes an event for each append, and the scanner, had it read the file by then,
one for the record.  Field by field they are compared in `Counted`. -/

/-- The counts on which the two logs agree event by event. -/
def HistoryDiagnostics.shared : List (HistoryDiagnostics → ℕ) :=
  [excludedEpochs, excludedRecords, normalizedSeries, accepted]

theorem HistoryDiagnostics.additive_of_shared {f : HistoryDiagnostics → ℕ} (hf : f ∈ shared) :
    Additive f := by
  simp only [shared, List.mem_cons, List.not_mem_nil, or_false] at hf
  rcases hf with rfl | rfl | rfl | rfl
  · exact additive_of_mem (by simp [fields])
  · exact additive_of_mem (by simp [fields])
  · exact additive_of_mem (by simp [fields])
  · exact additive_accepted

/-- Resets are counted as nothing else. -/
theorem HistoryDiagnostics.shared_resets {f : HistoryDiagnostics → ℕ} (hf : f ∈ shared) (n : ℕ) :
    f { inferredResets := n } = 0 := by
  simp only [shared, List.mem_cons, List.not_mem_nil, or_false] at hf
  rcases hf with rfl | rfl | rfl | rfl <;> rfl

section Counted

variable [F64 ν]

/-- **`Counted`** — the log of the process says what the scan of its records says: the shared counts are
those the scanner noted, and the resets are those of the observations. -/
structure Counted (sc : Scan ν) (history : History ν) : Prop where
  complete : history.inner.recoveryEventsComplete = true
  boot : ∀ boot, sc.state = .awaitSample (Epoch.new boot) → boot.timestamp = history.bootT
  lastState : ∀ epoch ∈ sc.epoch?, epoch.state = history.canonical.lastState
  plain : ∀ event ∈ sc.events,
    event.diagnostics.inferredResets = 0 ∧ event.diagnostics.skippedMetricLines = 0
  shared : ∀ f ∈ HistoryDiagnostics.shared, ∀ stop,
    tally f stop history.inner.recoveryEvents = tally f stop sc.events
  resets : ∀ stop, tally HistoryDiagnostics.inferredResets stop history.inner.recoveryEvents =
    resetsAfter stop none (observations {} sc.allRecords)

omit [F64 ν] in
/-- The state of a scrape has its counters and its gauges. -/
theorem size_canonicalState (snapshot : ParsedSnapshot ν) :
    (canonicalState snapshot).length = snapshot.counters.size + snapshot.gauges.size := by
  simp [canonicalState, kindEntries]

variable [DecidableEq ν]

/-- **An append** notes one event, and so does the scanner for the record it writes. -/
theorem Counted.append {S : Serde ν} (hS : S.Plain) {sc : Scan ν} {history : History ν}
    (h : Counted sc history) (hrec : Recorded sc history) (file : Bytes) (t : U64) (snapshot : List Char)
    (capacity : CapacitySnapshot) :
    Counted (sc.next (history.written t snapshot capacity))
      (history.append S file t snapshot capacity).1 := by
  let current : ParsedSnapshot ν := parseExposition snapshot
  let time := history.clamp t
  have hstate : StateOk [] (canonicalState current) :=
    stateOk_canonicalState (finite_parseExposition snapshot)
  have hwritten := HistoryStore.appendSample_eq hS hrec.sound file
    (history.canonical.encodable_recordOf hstate time (canonicalCapacity capacity)) (history.le_clamp t)
  have hbound : sc.replay.orderingBound.any (time < ·) = false := by
    rw [hrec.bound]
    exact history.le_clamp t
  have hreading : sc.Reading history.canonical.bootId history.canonical.lastState := by
    rw [hrec.bootId]
    exact hrec.reading
  obtain ⟨⟨d, hevents, haccepted, hseries, hepochs, hrecords, hresets, hskipped⟩, epoch, hepoch, hlast⟩ :=
    Scan.events_next_recordOf hreading h.lastState hbound (canonicalCapacity capacity)
      (canonicalState current)
  -- the event of the live path
  let o := history.observed time current capacity
  let live : HistoryDiagnostics :=
    { inferredResets := (o.resets (observations {} sc.allRecords).getLast?).toNat
      normalizedSeries := current.counters.size + current.gauges.size
      skippedMetricLines := current.skippedLines
      validSamples := 1 }
  have hlive : (history.append S file t snapshot capacity).1.inner.recoveryEvents =
      history.inner.recoveryEvents ++ [⟨time, live⟩] := by
    simp only [History.append, appendInner, h.complete, if_true, hrec.after.normalize_eq, live, o, time, current,
      Observation.resets, observed, parsedCanonicalState_canonicalState]
    simp only [normalize, ExtTreeMap.size_map]
    rfl
  have hfields : ∀ f ∈ HistoryDiagnostics.shared, f live = f d := by
    intro f hf
    simp only [HistoryDiagnostics.shared, List.mem_cons, List.not_mem_nil, or_false] at hf
    rcases hf with rfl | rfl | rfl | rfl
    · exact hepochs.symm
    · exact hrecords.symm
    · rw [hseries, size_canonicalState]
    · exact haccepted.symm
  exact {
    complete := by simpa [History.append, appendInner] using h.complete
    boot := by
      intro boot hboot
      rw [written, hepoch] at hboot
      cases hboot
    lastState := by
      intro epoch' hepoch'
      rw [written, Scan.epoch?, hepoch] at hepoch'
      obtain rfl := Option.some.inj hepoch'
      simp only [History.append, hwritten, time, current, hlast]
    plain := by
      intro event hevent
      rw [written, hevents] at hevent
      rcases List.mem_append.mp hevent with hold | hnew
      · exact h.plain event hold
      · obtain rfl := List.mem_singleton.mp hnew
        exact ⟨hresets, hskipped⟩
    shared := by
      intro f hf stop
      rw [hlive, written, hevents, tally_append, tally_append, h.shared f hf, tally_single, tally_single,
        hfields f hf]
    resets := by
      intro stop
      rw [hlive, hrec.observations_written, tally_append, h.resets, tally_single, resetsAfter_append,
        Option.or_none]
      rfl }

/-- A store that was just opened: its log is the one of the scan, and the resets of the replay. -/
theorem counted_ofStore {sc : Scan ν} {canonical : HistoryStore ν} (capacity : CapacitySnapshot)
    {boot : BootRecord} (hstate : sc.state = .awaitSample (Epoch.new boot))
    (hnone : canonical.lastState = none) (hevents : canonical.replay.diagnosticEvents = sc.events)
    (hrecords : canonical.replay.records = sc.allRecords)
    (hplain : ∀ event ∈ sc.events,
      event.diagnostics.inferredResets = 0 ∧ event.diagnostics.skippedMetricLines = 0) :
    Counted sc (ofStore 0 boot.timestamp capacity canonical) ∧
      ∀ stop, tally HistoryDiagnostics.skippedMetricLines stop
        (ofStore 0 boot.timestamp capacity canonical).inner.recoveryEvents = 0 := by
  let found := (canonical.replay.records.foldl (Enriching.step none) { inner := {} }).inferredResets
  let noted : List DiagnosticEvent := found.toList.map fun reset => ⟨reset.1, { inferredResets := reset.2 }⟩
  have hlog : (ofStore 0 boot.timestamp capacity canonical).inner.recoveryEvents = sc.events ++ noted := by
    rw [← hevents]
    exact events_noteResets canonical.replay found
  have hfound : ∀ stop, resetsIn stop found = resetsAfter stop none (observations {} sc.allRecords) := by
    intro stop
    have hempty : ({} : HistoryInner ν).After none := ⟨rfl, rfl⟩
    have hresets := @Enriching.resetsIn_foldl ν stop _ none canonical.replay.records { inner := {} } none hempty
    have hzero : resetsIn stop ∅ = 0 := rfl
    rw [hzero, Nat.zero_add, hrecords] at hresets
    simp only [found, hrecords]
    exact hresets
  refine ⟨⟨rfl, ?_, ?_, hplain, ?_, ?_⟩, ?_⟩
  -- the epoch being read is that of the boot, and has no sample yet
  · intro boot' hboot'
    rw [hstate] at hboot'
    simp only [ScannerState.awaitSample.injEq] at hboot'
    exact (congrArg Epoch.start hboot').symm
  · intro epoch hepoch
    rw [Scan.epoch?, hstate] at hepoch
    obtain rfl := Option.some.inj hepoch
    exact hnone.symm
  -- resets are no diagnostics of the scanner
  · intro f hf stop
    have hnoted : tally f stop noted = 0 := by
      apply tally_eq_zero
      intro event hevent
      obtain ⟨reset, -, rfl⟩ := List.mem_map.mp hevent
      exact HistoryDiagnostics.shared_resets hf reset.2
    rw [hlog, tally_append, hnoted, Nat.add_zero]
  -- and the scanner notes no resets; the enrichment does
  · intro stop
    have hscanned : tally HistoryDiagnostics.inferredResets stop sc.events = 0 :=
      tally_eq_zero fun event hevent => (hplain event hevent).1
    rw [hlog, tally_append, hscanned, tally_resets, hfound, Nat.zero_add]
  · intro stop
    apply tally_eq_zero
    intro event hevent
    rw [hlog] at hevent
    rcases List.mem_append.mp hevent with hold | hnew
    · exact (hplain event hold).2
    · obtain ⟨reset, -, rfl⟩ := List.mem_map.mp hnew
      rfl

/-- **The first boot.** -/
theorem counted_openedFresh (t : U64) (capacity : CapacitySnapshot) (bootId : String) :
    Counted (({} : Scan ν).next (.boot ⟨t, bootId, canonicalCapacity capacity⟩))
      (openedFresh t capacity bootId) := by
  let boot : BootRecord := ⟨t, bootId, canonicalCapacity capacity⟩
  have hempty : ({} : Scan ν).replay.orderingBound.any (boot.timestamp < ·) = false := rfl
  obtain ⟨-, hall, -⟩ := Scan.next_boot hempty
  obtain ⟨hstate, hevents⟩ := Scan.events_next_boot hempty
  refine (counted_ofStore capacity hstate rfl hevents.symm hall.symm ?_).1
  simp [hevents, Scan.closeEpoch]

/-- The boots that are excluded, up to `stop`, if the process stops now: its own, unless it took a sample. -/
def unsampledBoots (history : History ν) (stop : U64) : ℕ :=
  if history.canonical.lastState = none ∧ history.bootT ≤ stop then 1 else 0

/-- **A restart**: the new log is complete, and what it counts differs from the old one by the boot of a
process that took no sample. -/
theorem Counted.reopen {rs : List (Record ν)} {history : History ν}
    (h : Counted (rs.foldl Scan.next {}) history) (hrec : Recorded (rs.foldl Scan.next {}) history)
    {t : U64} (hbound : (rs.foldl Scan.next {}).replay.orderingBound.any (t < ·) = false)
    (capacity : CapacitySnapshot) (bootId : String) :
    Counted ((rs.foldl Scan.next {}).next (.boot ⟨t, bootId, canonicalCapacity capacity⟩))
        (openedOn rs 0 t capacity bootId) ∧
      (∀ stop, tally HistoryDiagnostics.skippedMetricLines stop
        (openedOn rs 0 t capacity bootId).inner.recoveryEvents = 0) ∧
      ∀ f ∈ HistoryDiagnostics.shared, ∀ stop,
        tally f stop (openedOn rs 0 t capacity bootId).inner.recoveryEvents =
          tally f stop history.inner.recoveryEvents +
            (f { excludedEpochs := 1 } + f { excludedRecords := 1 }) * history.unsampledBoots stop := by
  let boot : BootRecord := ⟨t, bootId, canonicalCapacity capacity⟩
  let sc := rs.foldl Scan.next {}
  let replay : Replay ν := { sc.closeEpoch with records := sc.closeEpoch.records ++ [.boot boot] }
  have hboot : sc.replay.orderingBound.any (boot.timestamp < ·) = false := hbound
  -- `open` does to the scan what the boot record would do to it as a line
  obtain ⟨-, hall, -⟩ := Scan.next_boot hboot
  obtain ⟨hstate, hevents⟩ := Scan.events_next_boot hboot
  have hnoted : (replay.closeOpenGap t).diagnosticEvents = (sc.next (.boot boot)).events := by
    rw [(Replay.diagnostics_closeOpenGap _ _).2, hevents]
  have hrecords : (replay.closeOpenGap t).records = (sc.next (.boot boot)).allRecords := by
    rw [hall]
    exact congrArg Prod.fst (Replay.log_closeOpenGap replay t)
  have hclosed := Scan.events_closeEpoch hrec.reading
  have hplain : ∀ event ∈ (sc.next (.boot boot)).events,
      event.diagnostics.inferredResets = 0 ∧ event.diagnostics.skippedMetricLines = 0 := by
    intro event hevent
    rw [hevents] at hevent
    -- an epoch without a sample is noted as excluded, with its boot record
    rcases hclosed with ⟨-, b, -, hlog⟩ | ⟨-, hlog⟩
    · rw [hlog] at hevent
      rcases List.mem_append.mp hevent with hold | hnew
      · exact h.plain event hold
      · simp only [List.mem_cons, List.not_mem_nil, or_false] at hnew
        rcases hnew with rfl | rfl <;> exact ⟨rfl, rfl⟩
    · rw [hlog] at hevent
      exact h.plain event hevent
  let canonical : HistoryStore ν :=
    { bootId := bootId, replay := replay.closeOpenGap t, lastTimestamp := some t }
  have hnone : canonical.lastState = none := rfl
  obtain ⟨hcounted, hskipped⟩ := counted_ofStore capacity hstate hnone hnoted hrecords hplain
  refine ⟨hcounted, hskipped, ?_⟩
  intro f hf stop
  refine (hcounted.shared f hf stop).trans ?_
  rw [hevents, h.shared f hf]
  -- so two diagnostics are new if the last process took no sample, and none otherwise
  rcases hclosed with ⟨hnone, b, hb, hlog⟩ | ⟨hsome, hlog⟩
  · have hzero : f {} = 0 := (HistoryDiagnostics.additive_of_shared hf).empty
    have htime : b.timestamp = history.bootT := h.boot b hb
    rw [hlog, tally_append, ← List.singleton_append, tally_append, tally_single, tally_single, unsampledBoots,
      htime]
    by_cases hle : history.bootT ≤ stop <;> simp [hle, hnone]
  · rw [hlog, unsampledBoots, if_neg (fun hc => hsome hc.1), Nat.mul_zero, Nat.add_zero]

/-! ## Every run

From the boot of a process on its log is in step with the file, and a restart replaces the one by the other. -/

/-- An empty directory, or a file of records whose scan matches the process and its log. -/
def World.Counted (S : Serde ν) (w : World ν) : Prop :=
  w = {} ∨ ∃ rs history, w = ⟨some (fileOf S rs), some history⟩ ∧ rs ≠ [] ∧ (∀ r ∈ rs, S.Restores r) ∧
    Recorded (rs.foldl Scan.next {}) history ∧ History.Counted (rs.foldl Scan.next {}) history

omit [DecidableEq ν] in
/-- A record that is written keeps them in step. -/
theorem World.Counted.write {S : Serde ν} {rs : List (Record ν)} (hrs : ∀ r ∈ rs, S.Restores r)
    {r : Record ν} (hr : S.Restores r) {history : History ν}
    (hrec : Recorded ((rs.foldl Scan.next {}).next r) history)
    (h : History.Counted ((rs.foldl Scan.next {}).next r) history) :
    World.Counted S ⟨some (fileOf S (rs ++ [r])), some history⟩ := by
  have hall : ∀ r' ∈ rs ++ [r], S.Restores r' := by
    intro r' hr'
    rcases List.mem_append.mp hr' with hold | hnew
    · exact hrs r' hold
    · obtain rfl := List.mem_singleton.mp hnew
      exact hr
  refine .inr ⟨rs ++ [r], history, rfl, by simp, hall, ?_, ?_⟩
  · rw [List.foldl_append]
    exact hrec
  · rw [List.foldl_append]
    exact h

/-- **Every call keeps the log in step with the file.** -/
theorem World.Counted.step {S : Serde ν} (hS : S.Plain) {w w' : World ν} {e : Event}
    (h : w.Counted S) (he : e.ReadsBack S) (hstep : w.step S e = some w') : w'.Counted S := by
  rcases h with rfl | ⟨rs, history, rfl, hne, hrs, hrec, hcounted⟩
  · obtain ⟨t, capacity, bootId, rfl⟩ := World.step_empty hS hstep
    exact .inr ⟨_, _, rfl, by simp, by simpa using hS.restores_boot _, (open_first hS t capacity bootId).2,
      counted_openedFresh t capacity bootId⟩
  · rcases World.step_records hS hne hrs hrec he hstep with
      ⟨t, capacity, bootId, hbound, rfl⟩ | ⟨t, snapshot, capacity, hr, rfl⟩
    · exact World.Counted.write hrs (hS.restores_boot _) (hrec.reopen hS hne hrs hbound capacity bootId).2.1
        (hcounted.reopen hrec hbound capacity bootId).1
    · obtain ⟨-, hrec'⟩ := hrec.append hS (fileOf S rs) t snapshot capacity
      exact World.Counted.write hrs hr hrec' (hcounted.append hS hrec (fileOf S rs) t snapshot capacity)

/-- So they are in every reachable world. -/
theorem World.counted_of_reachable {S : Serde ν} (hS : S.Plain) {w : World ν}
    (hw : ((lifetimes S).restrict fun _ e => e.ReadsBack S).Reachable w) : w.Counted S := by
  refine hw.invariant (fun h => .inl h) ?_
  rintro s e s' h ⟨hstep, he⟩
  exact h.step hS he hstep

end Counted

/-- **`Carried`** — what a restart makes of the diagnostics of a window: the resets, the series and the
accepted samples and checkpoints stay, each boot without a sample is excluded with its record, and lines
that could not be read are not known any more. -/
structure Carried (unsampled : ℕ) (before after : HistoryDiagnostics) : Prop where
  inferredResets : after.inferredResets = before.inferredResets
  normalizedSeries : after.normalizedSeries = before.normalizedSeries
  accepted : after.validSamples + after.validCheckpoints = before.validSamples + before.validCheckpoints
  skippedMetricLines : after.skippedMetricLines = 0
  excludedEpochs : after.excludedEpochs = before.excludedEpochs + unsampled
  excludedRecords : after.excludedRecords = before.excludedRecords + unsampled

section Restart

variable [F64Sums ν] [DecidableEq ν]

/-- What a restart makes of the diagnostics, from the two logs. -/
theorem Counted.carried {rs : List (Record ν)} {history : History ν}
    (h : Counted (rs.foldl Scan.next {}) history) (hrec : Recorded (rs.foldl Scan.next {}) history)
    {t : U64} (hbound : (rs.foldl Scan.next {}).replay.orderingBound.any (t < ·) = false)
    (capacity : CapacitySnapshot) (bootId : String) (stop : U64) :
    Carried (history.unsampledBoots stop) (diagnosticsAt history.inner stop)
      (diagnosticsAt (openedOn rs 0 t capacity bootId).inner stop) := by
  obtain ⟨hafter, hskipped, hshared⟩ := h.reopen hrec hbound capacity bootId
  -- the shared counts are sums over one log, on both sides
  have hcount : ∀ f ∈ HistoryDiagnostics.shared,
      f (diagnosticsAt (openedOn rs 0 t capacity bootId).inner stop) =
        f (diagnosticsAt history.inner stop) +
          (f { excludedEpochs := 1 } + f { excludedRecords := 1 }) * history.unsampledBoots stop := by
    intro f hf
    have hadd := HistoryDiagnostics.additive_of_shared hf
    rw [diagnosticsAt_eq_tally hadd hafter.complete, diagnosticsAt_eq_tally hadd h.complete]
    exact hshared f hf stop
  exact {
    inferredResets := by
      -- resets are counted from the observations, and those are the same
      have hadd : HistoryDiagnostics.Additive HistoryDiagnostics.inferredResets :=
        HistoryDiagnostics.additive_of_mem (by simp [HistoryDiagnostics.fields])
      rw [diagnosticsAt_eq_tally hadd hafter.complete, diagnosticsAt_eq_tally hadd h.complete, hafter.resets,
        h.resets, Scan.observations_next_boot hrec.reading hbound]
    normalizedSeries := by
      simpa using hcount HistoryDiagnostics.normalizedSeries (by simp [HistoryDiagnostics.shared])
    accepted := by
      simpa [HistoryDiagnostics.accepted] using
        hcount HistoryDiagnostics.accepted (by simp [HistoryDiagnostics.shared])
    skippedMetricLines := by
      have hadd : HistoryDiagnostics.Additive HistoryDiagnostics.skippedMetricLines :=
        HistoryDiagnostics.additive_of_mem (by simp [HistoryDiagnostics.fields])
      rw [diagnosticsAt_eq_tally hadd hafter.complete, hskipped]
    excludedEpochs := by
      simpa using hcount HistoryDiagnostics.excludedEpochs (by simp [HistoryDiagnostics.shared])
    excludedRecords := by
      simpa using hcount HistoryDiagnostics.excludedRecords (by simp [HistoryDiagnostics.shared]) }

/-- A start with a clock that is not behind carries the diagnostics on. -/
theorem World.Counted.carried {S : Serde ν} (hS : S.Plain) {w : World ν} (h : w.Counted S) {t : U64}
    (hbound : w.NotBehind S t) (capacity : CapacitySnapshot) (bootId : String) :
    ∃ reopened file, History.open S w.disk 0 t capacity bootId = .ok (reopened, file) ∧
      ∀ history ∈ w.process, ∀ (start stop : U64) (points : ℕ),
        Carried (history.unsampledBoots stop) (rollup history.inner start stop points).diagnostics
          (rollup reopened.inner start stop points).diagnostics := by
  rcases h with rfl | ⟨rs, history, rfl, hne, hrs, hrec, hcounted⟩
  · obtain ⟨hopen, -⟩ := open_first hS t capacity bootId
    exact ⟨_, _, hopen, by simp⟩
  · have hclock := hbound.bound hne hrs
    obtain ⟨hopen, -⟩ := hrec.reopen hS hne hrs hclock capacity bootId
    refine ⟨_, _, hopen, ?_⟩
    rintro _ ⟨⟩ start stop points
    simp only [diagnostics_rollup]
    exact hcounted.carried hrec hclock capacity bootId stop

/-- **The diagnostics after a restart.** At every moment of every run of lifetimes whose scraped states are
read back from their lines, opening the file again reports, for every window, the resets, the series, and the
samples and checkpoints together that the process reports; it reports no lines that could not be read, and
excludes the boot of a process that took no sample. -/
theorem diagnostics_carried_over {S : Serde ν} (hS : S.Plain) {w : World ν}
    (hw : ((lifetimes S).restrict fun _ e => e.ReadsBack S).Reachable w) {t : U64}
    (hbound : w.NotBehind S t) (capacity : CapacitySnapshot) (bootId : String) :
    ∃ reopened file, History.open S w.disk 0 t capacity bootId = .ok (reopened, file) ∧
      ∀ history ∈ w.process, ∀ (start stop : U64) (points : ℕ),
        Carried (history.unsampledBoots stop) (rollup history.inner start stop points).diagnostics
          (rollup reopened.inner start stop points).diagnostics :=
  (World.counted_of_reachable hS hw).carried hS hbound capacity bootId

end Restart

/-- A process that scrapes a counter, then the same with a line it cannot read, then a lower value. -/
def noisyLifetime : List Event :=
  [.start 10 ⟨1, [40], 40⟩ "a", .append 20 (scraped '5') ⟨1, [40], 40⟩,
   .append 30 (scraped '5' ++ "?\n".toList) ⟨1, [40], 40⟩, .append 40 (scraped '3') ⟨1, [40], 40⟩]

/-- Three samples with one series each, a reset, and a line that could not be read: a restart keeps the
first three counts. -/
theorem diagnostics_carried_over_noise :
    ∃ w history reopened file, (lifetimes json).Reachable w ∧ w.process = some history ∧
      (rollup history.inner 0 50 2).diagnostics =
        { inferredResets := 1, normalizedSeries := 3, skippedMetricLines := 1, validSamples := 3 } ∧
      History.open json w.disk 0 u64Max ⟨1, [40], 40⟩ "b" = .ok (reopened, file) ∧
      Carried 0 (rollup history.inner 0 50 2).diagnostics (rollup reopened.inner 0 50 2).diagnostics := by
  let ended (w : World ℚ) : Bool := w.process.any fun history =>
    (rollup history.inner 0 50 2).diagnostics ==
        { inferredResets := 1, normalizedSeries := 3, skippedMetricLines := 1, validSamples := 3 } &&
      history.unsampledBoots 50 == 0
  have hrun : (System.exec (World.step json) {} noisyLifetime).any ended = true := by decide +kernel
  obtain ⟨w, hw, hended⟩ : ∃ w, (lifetimes json).Reachable w ∧ ended w = true :=
    System.reachable_of_exec rfl hrun
  obtain ⟨history, hhistory, hends⟩ := Option.any_eq_true _ _ |>.mp hended
  obtain ⟨hdiagnostics, hsampled⟩ := (Bool.and_eq_true _ _).mp hends
  obtain ⟨reopened, file, hopen, hcarried⟩ :=
    diagnostics_carried_over json_faithful.plain (hw.restrict fun _ e => json_faithful.event e)
      (t := u64Max) (fun _ _ _ _ bound _ => Fin.le_last bound) ⟨1, [40], 40⟩ "b"
  have hwindow := hcarried history hhistory 0 50 2
  rw [beq_iff_eq.mp hsampled] at hwindow
  exact ⟨w, history, reopened, file, hw, hhistory, by simpa using hdiagnostics, hopen, hwindow⟩

/-- Some run of lifetimes, after which a restart changes this count from `before` to `after`. -/
def RestartChanges (S : Serde ℚ) (f : HistoryDiagnostics → ℕ) (before after : ℕ) : Prop :=
  ∃ (w : World ℚ) (history reopened : History ℚ) (file : Bytes), (lifetimes S).Reachable w ∧
    w.process = some history ∧ History.open S w.disk 0 u64Max ⟨1, [40], 40⟩ "b" = .ok (reopened, file) ∧
    f (rollup history.inner 0 50 2).diagnostics = before ∧ f (rollup reopened.inner 0 50 2).diagnostics = after

/-- After a run of these events, the process reports `before`. -/
theorem restartChanges_of_run (events : List Event) {f : HistoryDiagnostics → ℕ} {before after : ℕ}
    (hrun : (System.exec (World.step json) {} events).any
      (fun w => w.process.any fun history => f (diagnosticsAt history.inner 50) == before &&
        history.unsampledBoots 50 == after - before) = true)
    (hcarried : ∀ {unsampled d d'}, Carried unsampled d d' → f d = before → unsampled = after - before →
      f d' = after) :
    RestartChanges json f before after := by
  obtain ⟨w, hw, hended⟩ : ∃ w, (lifetimes json).Reachable w ∧ w.process.any (fun history =>
      f (diagnosticsAt history.inner 50) == before && history.unsampledBoots 50 == after - before) = true :=
    System.reachable_of_exec rfl hrun
  obtain ⟨history, hhistory, hends⟩ := Option.any_eq_true _ _ |>.mp hended
  obtain ⟨hbefore, hsampled⟩ := (Bool.and_eq_true _ _).mp hends
  have hcounted := World.counted_of_reachable json_faithful.plain (hw.restrict fun _ e => json_faithful.event e)
  obtain ⟨reopened, file, hopen, hafter⟩ := hcounted.carried json_faithful.plain
    (t := u64Max) (fun _ _ _ _ bound _ => Fin.le_last bound) ⟨1, [40], 40⟩ "b"
  have hbefore' : f (rollup history.inner 0 50 2).diagnostics = before := by
    rw [diagnostics_rollup]
    exact beq_iff_eq.mp hbefore
  exact ⟨w, history, reopened, file, hw, hhistory, hopen, hbefore',
    hcarried (hafter history hhistory 0 50 2) hbefore' (beq_iff_eq.mp hsampled)⟩

/-- A scrape of the counter with these digits. -/
def scrapedDigits (digits : String) : List Char :=
  "# TYPE flock_requests_total counter\nflock_requests_total\x7bmodel=\"m\"\x7d ".toList ++
    digits.toList ++ ['\n']

/-- A process whose counter starts again, one float below where it was. -/
def fallingLifetime : List Event :=
  [.start 10 ⟨1, [40], 40⟩ "a", .append 20 (scrapedDigits "31.24527019143944") ⟨1, [40], 40⟩,
   .append 30 (scrapedDigits "31.245270191439438") ⟨1, [40], 40⟩]

/-- The records it writes. -/
def fallingRecords : List (Record ℚ) :=
  [.boot ⟨10, "a", ⟨40, 1, [40]⟩⟩,
   .sample ⟨20, "a", ⟨40, 1, [40]⟩, canonicalState (parseExposition (scrapedDigits "31.24527019143944"))⟩,
   .sample ⟨30, "a", ⟨40, 1, [40]⟩, canonicalState (parseExposition (scrapedDigits "31.245270191439438"))⟩]

theorem encodable_fallingRecords : ∀ r ∈ fallingRecords, r.Encodable := by
  intro r hr
  simp only [fallingRecords, List.mem_cons, List.not_mem_nil, or_false] at hr
  rcases hr with rfl | rfl | rfl
  · trivial
  · exact stateOk_canonicalState (finite_parseExposition _)
  · exact stateOk_canonicalState (finite_parseExposition _)

/-- The process sees the reset.  In the file both samples are read with sixteen digits, and there is none. -/
theorem restartChanges_falling : RestartChanges rereadingJson HistoryDiagnostics.inferredResets 1 0 := by
  let ended (w : World ℚ) : Bool := w.disk == some (fileOf rereadingJson fallingRecords) &&
    w.process.any fun history => HistoryDiagnostics.inferredResets (diagnosticsAt history.inner 50) == 1
  have hrun : (System.exec (World.step rereadingJson) {} fallingLifetime).any ended = true := by decide +kernel
  obtain ⟨w, hw, hended⟩ : ∃ w, (lifetimes rereadingJson).Reachable w ∧ ended w = true :=
    System.reachable_of_exec rfl hrun
  obtain ⟨hdisk, hprocess⟩ := (Bool.and_eq_true _ _).mp hended
  obtain ⟨history, hhistory, hresets⟩ := Option.any_eq_true _ _ |>.mp hprocess
  have hopen := open_of_validate rereadingJson_plain
    (validateCanonical_rereadingJson (by simp [fallingRecords]) encodable_fallingRecords)
    (by decide +kernel) (t := u64Max) (by decide +kernel) ⟨1, [40], 40⟩ "b"
  refine ⟨w, history, _, _, hw, hhistory, by rw [beq_iff_eq.mp hdisk, hopen], ?_, ?_⟩
  · rw [diagnostics_rollup]
    exact beq_iff_eq.mp hresets
  · rw [diagnostics_rollup]
    decide +kernel

/-- **A restart changes the diagnostics**: a process that took no sample was not excluded while it ran, the
line that could not be read is forgotten, and a reset between two numbers that are read alike is not seen. -/
theorem restart_changes_diagnostics :
    RestartChanges json HistoryDiagnostics.excludedEpochs 0 1 ∧
      RestartChanges json HistoryDiagnostics.skippedMetricLines 1 0 ∧
      RestartChanges rereadingJson HistoryDiagnostics.inferredResets 1 0 := by
  refine ⟨?_, ?_, restartChanges_falling⟩
  · refine restartChanges_of_run (noisyLifetime.take 1) (by decide +kernel) ?_
    intro unsampled d d' h hbefore hunsampled
    rw [h.excludedEpochs, hbefore, hunsampled]
  · refine restartChanges_of_run noisyLifetime (by decide +kernel) ?_
    intro unsampled d d' h hbefore hunsampled
    exact h.skippedMetricLines

end Flock.History
