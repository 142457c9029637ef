/-
# Flock.History.Gaps — does a complete window hide an exclusion?

An exclusion opens a recovery gap, or reaches the open one back, and the next boot closes it.  What is
excluded lies in a gap: an epoch in the gap that its boot opens, damage outside an epoch in the gap that it
opens itself, and nothing is later than the boot that closes it.  Two cases are left:

* a line that damages an epoch and is dated before the boot of that epoch (a regression, or a time found in
  a line that does not decode): the exclusion goes by the time of the line, the gap by the time of the boot;
* a gap that begins at the end of the window: the window takes in its end, the overlap test does not.

A complete window hides nothing exactly if it meets neither (`complete_hides_nothing_iff`).
-/
import Flock.History.Conservation
import Flock.History.Lifetimes
import Flock.History.Rollup

namespace Flock.History

variable {ν : Type}

namespace Replay

/-! ## Excluded times and gaps

Two records of the same damage: the events, which count what was excluded and when, and the gaps, which say from when
to when nothing is known.  The theorem compares them, so both are followed through every operation of the replay. -/

/-- The times at which a record was excluded. -/
def excludedTimes (replay : Replay ν) : List U64 :=
  (replay.diagnosticEvents.filter fun event => 0 < event.diagnostics.excludedRecords).map
    DiagnosticEvent.time

/-- A gap holds this time. -/
def Covers (replay : Replay ν) (time : U64) : Prop :=
  ∃ gap ∈ replay.gaps, gap.start ≤ time ∧ time ≤ gap.stop

variable {replay : Replay ν} {t : U64}

/-- An excluded time is that of an event which excludes records. -/
theorem mem_excludedTimes : t ∈ replay.excludedTimes ↔
    ∃ event ∈ replay.diagnosticEvents, 0 < event.diagnostics.excludedRecords ∧ event.time = t := by
  simp [excludedTimes, and_assoc]

theorem excludedTimes_excludeRecord (replay : Replay ν) (time : U64) :
    (replay.excludeRecord time).excludedTimes = replay.excludedTimes ++ [time] := by
  simp [excludedTimes, excludeRecord, note]

/-- The records of a list are excluded one by one. -/
theorem excludedTimes_foldl_excludeRecord {α : Type} (f : α → U64) (xs : List α) (replay : Replay ν) :
    (xs.foldl (fun replay x => replay.excludeRecord (f x)) replay).excludedTimes =
      replay.excludedTimes ++ xs.map f := by
  induction xs generalizing replay with
  | nil => simp
  | cons x rest ih => simp [ih, excludedTimes_excludeRecord]

/-- Events that exclude no record. -/
theorem excludedTimes_foldl_note {events : List DiagnosticEvent}
    (h : ∀ event ∈ events, event.diagnostics.excludedRecords = 0) (replay : Replay ν) :
    (events.foldl note replay).excludedTimes = replay.excludedTimes := by
  induction events generalizing replay with
  | nil => rfl
  | cons event rest ih =>
      have hzero := h event List.mem_cons_self
      rw [List.foldl_cons, ih fun e he => h e (List.mem_cons_of_mem _ he)]
      simp [excludedTimes, note, hzero]

theorem excludedTimes_openGap (replay : Replay ν) (start : U64) :
    (replay.openGap start).excludedTimes = replay.excludedTimes := by
  rw [excludedTimes, (replay.diagnostics_openGap start).2, excludedTimes]

theorem excludedTimes_closeOpenGap (replay : Replay ν) (time : U64) :
    (replay.closeOpenGap time).excludedTimes = replay.excludedTimes := by
  rw [excludedTimes, (replay.diagnostics_closeOpenGap time).2, excludedTimes]

/-- An epoch that is excluded takes the times of its records with it, and that of the line which damaged it. -/
theorem excludedTimes_excludeEpoch (replay : Replay ν) (epoch : Epoch ν) (time : Option U64) :
    (replay.excludeEpoch epoch time).excludedTimes =
      replay.excludedTimes ++ epoch.records.map Record.timestamp ++ time.toList := by
  have hnote : (replay.note ⟨epoch.start, { excludedEpochs := 1 }⟩).excludedTimes =
      replay.excludedTimes := by
    simp [excludedTimes, note]
  have hrecords := excludedTimes_foldl_excludeRecord Record.timestamp epoch.records
    (replay.note ⟨epoch.start, { excludedEpochs := 1 }⟩)
  have htime := excludedTimes_foldl_excludeRecord (fun t : U64 => t) time.toList
    (epoch.records.foldl (fun replay r => replay.excludeRecord r.timestamp)
      (replay.note ⟨epoch.start, { excludedEpochs := 1 }⟩))
  rw [hrecords, hnote, List.map_id'] at htime
  rw [excludeEpoch, excludedTimes_openGap]
  exact htime

/-! ## Opening and closing

What an operation does to the gaps does not depend on the events, and the other way round. -/

theorem gaps_foldl_excludeRecord {α : Type} (f : α → U64) (xs : List α) (replay : Replay ν) :
    (xs.foldl (fun replay x => replay.excludeRecord (f x)) replay).gaps = replay.gaps := by
  induction xs generalizing replay with
  | nil => rfl
  | cons x rest ih =>
      rw [List.foldl_cons, ih]
      rfl

theorem gaps_openGap_congr {replay' : Replay ν} (h : replay'.gaps = replay.gaps) (start : U64) :
    (replay'.openGap start).gaps = (replay.openGap start).gaps := by
  unfold openGap
  rw [h]
  split <;> rfl

theorem gaps_closeOpenGap_congr {replay' : Replay ν} (h : replay'.gaps = replay.gaps) (time : U64) :
    (replay'.closeOpenGap time).gaps = (replay.closeOpenGap time).gaps := by
  unfold closeOpenGap
  rw [h]
  split
  · rfl
  · exact h

/-- The gap of an excluded epoch begins with its boot. -/
theorem gaps_excludeEpoch (replay : Replay ν) (epoch : Epoch ν) (time : Option U64) :
    (replay.excludeEpoch epoch time).gaps = (replay.openGap epoch.start).gaps := by
  apply gaps_openGap_congr
  have hrecords := gaps_foldl_excludeRecord Record.timestamp epoch.records
    (replay.note ⟨epoch.start, { excludedEpochs := 1 }⟩)
  have htime := gaps_foldl_excludeRecord (fun t : U64 => t) time.toList
    (epoch.records.foldl (fun replay r => replay.excludeRecord r.timestamp)
      (replay.note ⟨epoch.start, { excludedEpochs := 1 }⟩))
  exact htime.trans hrecords

theorem gaps_foldl_note (events : List DiagnosticEvent) (replay : Replay ν) :
    (events.foldl note replay).gaps = replay.gaps := by
  induction events generalizing replay with
  | nil => rfl
  | cons event rest ih =>
      rw [List.foldl_cons, ih]
      rfl

/-- **Opening a gap** covers what was covered, and everything from its start on; and its start is new or
one of the old ones. -/
theorem openGap_spec (replay : Replay ν) (start : U64) :
    (∀ t, replay.Covers t ∨ start ≤ t → (replay.openGap start).Covers t) ∧
      ∀ gap ∈ (replay.openGap start).gaps,
        gap.start = start ∨ ∃ old ∈ replay.gaps, gap.start = old.start := by
  unfold openGap
  split
  -- the last gap is open: it begins earlier, or stays
  · rename_i last hlast
    obtain ⟨hlast, hopen⟩ := Option.filter_eq_some_iff.mp hlast
    have hstop : last.stop = u64Max := by simpa using hopen
    have hgaps : replay.gaps = replay.gaps.dropLast ++ [last] :=
      (List.dropLast_append_getLast? last hlast).symm
    constructor
    · intro t ht
      have hcover : last.start ≤ t ∨ start ≤ t →
          min last.start start ≤ t ∧ t ≤ last.stop := by
        intro h
        rw [hstop]
        exact ⟨min_le_iff.mpr h, Fin.le_last t⟩
      rcases ht with ⟨gap, hgap, hle, hge⟩ | hstart
      · rw [hgaps] at hgap
        rcases List.mem_append.mp hgap with hgap | hgap
        · exact ⟨gap, List.mem_append_left _ hgap, hle, hge⟩
        · rw [List.mem_singleton.mp hgap] at hle
          exact ⟨_, List.mem_append_right _ (List.mem_singleton_self _), hcover (.inl hle)⟩
      · exact ⟨_, List.mem_append_right _ (List.mem_singleton_self _), hcover (.inr hstart)⟩
    · intro gap hgap
      rcases List.mem_append.mp hgap with hgap | hgap
      · exact .inr ⟨gap, List.dropLast_subset _ hgap, rfl⟩
      · rw [List.mem_singleton.mp hgap]
        rcases min_choice last.start start with hmin | hmin
        · exact .inr ⟨last, List.mem_of_getLast? hlast, hmin⟩
        · exact .inl hmin
  -- all gaps are closed: a new one is opened
  · constructor
    · rintro t (⟨gap, hgap, hcover⟩ | hstart)
      · exact ⟨gap, List.mem_append_left _ hgap, hcover⟩
      · exact ⟨_, List.mem_append_right _ (List.mem_singleton_self _), hstart, Fin.le_last t⟩
    · intro gap hgap
      rcases List.mem_append.mp hgap with hgap | hgap
      · exact .inr ⟨gap, hgap, rfl⟩
      · rw [List.mem_singleton.mp hgap]
        exact .inl rfl

/-- **Closing the open gap** covers what was covered up to the time of the closing, and moves no start. -/
theorem closeOpenGap_spec (replay : Replay ν) (time : U64) :
    (∀ t, replay.Covers t → t ≤ time → (replay.closeOpenGap time).Covers t) ∧
      ∀ gap ∈ (replay.closeOpenGap time).gaps, ∃ old ∈ replay.gaps, gap.start = old.start := by
  unfold closeOpenGap
  split
  · rename_i i hi
    constructor
    · rintro t ⟨gap, hgap, hle, hge⟩ htime
      obtain ⟨j, hj⟩ := List.getElem?_of_mem (List.mem_reverse.mpr hgap)
      have hget : (replay.gaps.reverse.modify i fun gap => { gap with stop := time })[j]? =
          some (if i = j then { gap with stop := time } else gap) := by
        rw [List.getElem?_modify, hj]
        rfl
      refine ⟨_, List.mem_reverse.mpr (List.mem_of_getElem? hget), ?_⟩
      split
      · exact ⟨hle, htime⟩
      · exact ⟨hle, hge⟩
    · intro gap hgap
      obtain ⟨j, hj⟩ := List.getElem?_of_mem (List.mem_reverse.mp hgap)
      rw [List.getElem?_modify] at hj
      obtain ⟨old, hold, heq⟩ := Option.map_eq_some_iff.mp hj
      refine ⟨old, List.mem_reverse.mp (List.mem_of_getElem? hold), ?_⟩
      rw [← heq]
      split <;> rfl
  · exact ⟨fun t hcover _ => hcover, fun gap hgap => ⟨gap, hgap, rfl⟩⟩

/-! ## What is excluded lies in a gap -/

/-- The time that nothing read so far goes beyond. -/
def latest (replay : Replay ν) : U64 := replay.orderingBound.getD 0

theorem latest_le_advance (replay : Replay ν) (time : U64) :
    replay.latest ≤ (replay.advanceOrderingBound time).latest := by
  unfold latest advanceOrderingBound
  cases hbound : replay.orderingBound with
  | none => exact Fin.zero_le _
  | some bound => exact le_max_left bound time

theorem le_latest_advance (replay : Replay ν) (time : U64) :
    time ≤ (replay.advanceOrderingBound time).latest := by
  unfold latest advanceOrderingBound
  cases hbound : replay.orderingBound with
  | none => exact le_refl _
  | some bound => exact le_max_right bound time

/-- A record that is not older than the bound is not older than anything read. -/
theorem latest_le_of_not_older {time : U64} (h : replay.orderingBound.any (time < ·) = false) :
    replay.latest ≤ time := by
  unfold latest
  cases hbound : replay.orderingBound with
  | none => exact Fin.zero_le _
  | some bound =>
      rw [hbound] at h
      simpa using h

/-- **`Covered`** — the excluded times lie in the gaps, but for the strays; nothing excluded is later than
what was read; and every gap begins with an exclusion. -/
structure Covered (strays : List U64) (replay : Replay ν) : Prop where
  bounded : ∀ t ∈ replay.excludedTimes, t ≤ replay.latest
  covered : ∀ t ∈ replay.excludedTimes, t ∈ strays ∨ replay.Covers t
  starts : ∀ gap ∈ replay.gaps, gap.start ∈ replay.excludedTimes
  excluded : ∀ t ∈ strays, t ∈ replay.excludedTimes

variable {strays : List U64}

theorem Covered.advance (h : replay.Covered strays) (time : U64) :
    (replay.advanceOrderingBound time).Covered strays where
  bounded t ht := le_trans (h.bounded t ht) (replay.latest_le_advance time)
  covered := h.covered
  starts := h.starts
  excluded := h.excluded

/-- More exclusions, and a gap that opens at one of them. -/
theorem Covered.openGap (h : replay.Covered strays) {replay' : Replay ν} {start : U64} {times more : List U64}
    (htimes : replay'.excludedTimes = replay.excludedTimes ++ times)
    (hgaps : replay'.gaps = (replay.openGap start).gaps) (hlatest : replay'.latest = replay.latest)
    (hstart : start ∈ times) (hbound : ∀ t ∈ times, t ≤ replay.latest)
    (hmore : ∀ t, t ∈ more ↔ t ∈ times ∧ t < start) : replay'.Covered (strays ++ more) := by
  obtain ⟨hcovers, hstarts⟩ := replay.openGap_spec start
  have hcovers' : ∀ t, replay.Covers t ∨ start ≤ t → replay'.Covers t := by
    intro t ht
    obtain ⟨gap, hgap, hcover⟩ := hcovers t ht
    exact ⟨gap, hgaps ▸ hgap, hcover⟩
  -- the times are bounded, each is covered or a stray, each gap starts at one, and each stray is one
  refine ⟨fun t ht => ?_, fun t ht => ?_, fun gap hgap => ?_, fun t ht => ?_⟩
  · rw [htimes] at ht
    rw [hlatest]
    rcases List.mem_append.mp ht with ht | ht
    · exact h.bounded t ht
    · exact hbound t ht
  · rw [htimes] at ht
    rcases List.mem_append.mp ht with ht | ht
    · rcases h.covered t ht with hstray | hcover
      · exact .inl (List.mem_append_left _ hstray)
      · exact .inr (hcovers' t (.inl hcover))
    -- a time before the start of the gap is a stray, and the others the gap holds
    · rcases lt_or_ge t start with hlt | hge
      · exact .inl (List.mem_append_right _ ((hmore t).mpr ⟨ht, hlt⟩))
      · exact .inr (hcovers' t (.inr hge))
  · rw [htimes]
    rw [hgaps] at hgap
    rcases hstarts gap hgap with heq | ⟨old, hold, heq⟩
    · rw [heq]
      exact List.mem_append_right _ hstart
    · rw [heq]
      exact List.mem_append_left _ (h.starts old hold)
  · rw [htimes]
    rcases List.mem_append.mp ht with ht | ht
    · exact List.mem_append_left _ (h.excluded t ht)
    · exact List.mem_append_right _ ((hmore t).mp ht).1

theorem Covered.closeOpenGap (h : replay.Covered strays) {time : U64} (htime : replay.latest ≤ time) :
    (replay.closeOpenGap time).Covered strays := by
  obtain ⟨hcovers, hstarts⟩ := replay.closeOpenGap_spec time
  have htimes := replay.excludedTimes_closeOpenGap time
  have hlatest : (replay.closeOpenGap time).latest = replay.latest := by
    have hlog := congrArg (fun log => log.2.1) (replay.log_closeOpenGap time)
    exact congrArg (Option.getD · 0) hlog
  refine ⟨fun t ht => ?_, fun t ht => ?_, fun gap hgap => ?_, fun t ht => ?_⟩
  · rw [hlatest]
    exact h.bounded t (htimes ▸ ht)
  · rw [htimes] at ht
    rcases h.covered t ht with hstray | hcover
    · exact .inl hstray
    · exact .inr (hcovers t hcover (le_trans (h.bounded t ht) htime))
  · obtain ⟨old, hold, heq⟩ := hstarts gap hgap
    rw [htimes, heq]
    exact h.starts old hold
  · rw [htimes]
    exact h.excluded t ht

end Replay

/-- An epoch being read: it begins with its boot, and holds no time before that nor after `latest`. -/
structure Epoch.Spans (latest : U64) (epoch : Epoch ν) : Prop where
  start : ∃ r ∈ epoch.records, r.timestamp = epoch.start
  records : ∀ r ∈ epoch.records, epoch.start ≤ r.timestamp ∧ r.timestamp ≤ latest
  events : ∀ event ∈ epoch.diagnosticEvents, event.diagnostics.excludedRecords = 0

namespace Replay

variable {replay : Replay ν} {strays : List U64} {epoch : Epoch ν}

/-- **An epoch is excluded.** Only the line that damaged it may be dated before it. -/
theorem Covered.excludeEpoch (h : replay.Covered strays) (hepoch : epoch.Spans replay.latest)
    {time : Option U64} (htime : ∀ t ∈ time, t ≤ replay.latest) :
    (replay.excludeEpoch epoch time).Covered
      (strays ++ (time.filter fun t => t < epoch.start).toList) := by
  have hlatest : (replay.excludeEpoch epoch time).latest = replay.latest := by
    have hlog := congrArg (fun log => log.2.1) (replay.log_excludeEpoch epoch time)
    exact congrArg (Option.getD · 0) hlog
  have htimes := replay.excludedTimes_excludeEpoch epoch time
  rw [List.append_assoc] at htimes
  refine h.openGap htimes (replay.gaps_excludeEpoch epoch time) hlatest ?_ ?_ ?_
  · obtain ⟨r, hr, heq⟩ := hepoch.start
    rw [← heq]
    exact List.mem_append_left _ (List.mem_map_of_mem hr)
  · intro t ht
    rcases List.mem_append.mp ht with ht | ht
    · obtain ⟨r, hr, rfl⟩ := List.mem_map.mp ht
      exact (hepoch.records r hr).2
    · exact htime t (Option.mem_toList.mp ht)
  · intro t
    have hown : t ∈ epoch.records.map Record.timestamp → ¬ t < epoch.start := by
      intro ht
      obtain ⟨r, hr, rfl⟩ := List.mem_map.mp ht
      exact not_lt.mpr (hepoch.records r hr).1
    simp only [Option.mem_toList, Option.filter_eq_some_iff, decide_eq_true_eq, List.mem_append]
    constructor
    · rintro ⟨ht, hlt⟩
      exact ⟨.inr ht, hlt⟩
    · rintro ⟨ht | ht, hlt⟩
      · exact absurd hlt (hown ht)
      · exact ⟨ht, hlt⟩

/-- **A record outside an epoch is excluded**: the gap reaches back to it. -/
theorem Covered.excludeOutside (h : replay.Covered strays) {time : U64} (htime : time ≤ replay.latest) :
    ((replay.excludeRecord time).openGap time).Covered strays := by
  have hlatest : ((replay.excludeRecord time).openGap time).latest = replay.latest := by
    have hlog := congrArg (fun log => log.2.1) ((replay.excludeRecord time).log_openGap time)
    exact congrArg (Option.getD · 0) hlog
  have htimes : ((replay.excludeRecord time).openGap time).excludedTimes =
      replay.excludedTimes ++ [time] := by
    rw [excludedTimes_openGap, excludedTimes_excludeRecord]
  have hsame : (replay.excludeRecord time).gaps = replay.gaps := rfl
  have hcovered : ((replay.excludeRecord time).openGap time).Covered (strays ++ []) :=
    h.openGap htimes (gaps_openGap_congr hsame time) hlatest (List.mem_singleton_self time)
      (by simpa using htime) (by simp +contextual)
  simpa using hcovered

theorem Covered.commitEpoch (h : replay.Covered strays) (hepoch : epoch.Spans replay.latest) :
    (replay.commitEpoch epoch).Covered strays := by
  have htimes : (replay.commitEpoch epoch).excludedTimes = replay.excludedTimes :=
    excludedTimes_foldl_note hepoch.events replay
  have hgaps : (replay.commitEpoch epoch).gaps = replay.gaps := gaps_foldl_note _ replay
  have hlatest : (replay.commitEpoch epoch).latest = replay.latest := by
    have hlog := congrArg (fun log => log.2.1) (replay.log_commitEpoch epoch)
    exact congrArg (Option.getD · 0) hlog
  refine ⟨fun t ht => ?_, fun t ht => ?_, fun gap hgap => ?_, fun t ht => ?_⟩
  · rw [hlatest]
    exact h.bounded t (htimes ▸ ht)
  · rcases h.covered t (htimes ▸ ht) with hstray | ⟨gap, hgap, hcover⟩
    · exact .inl hstray
    · exact .inr ⟨gap, hgaps ▸ hgap, hcover⟩
  · rw [htimes]
    exact h.starts gap (hgaps ▸ hgap)
  · rw [htimes]
    exact h.excluded t ht

end Replay

/-! ## Strays

A stray is damage that goes by a time before the boot of the epoch it damages.  The gap begins at the boot, so nothing
covers the stray. -/

namespace Scan

/-- Damage at this time, if it goes before the boot of the epoch being read. -/
def strayTime (sc : Scan ν) (time : Option U64) : Option U64 :=
  time.filter fun t => sc.epoch?.any fun epoch => t < epoch.start

/-- **`Covered`** for the scan: the replay is, and the epoch being read holds no time before its boot. -/
structure Covered (strays : List U64) (sc : Scan ν) : Prop where
  replay : sc.replay.Covered strays
  epoch : ∀ epoch ∈ sc.epoch?, epoch.Spans sc.replay.latest

variable {sc sc' : Scan ν} {strays : List U64}

/-- Before the first line there is nothing to cover. -/
theorem covered_empty : ({} : Scan ν).Covered [] where
  replay := ⟨by rintro t ⟨⟩, by rintro t ⟨⟩, by rintro gap ⟨⟩, by rintro t ⟨⟩⟩
  epoch := by rintro epoch ⟨⟩

/-- The ordering bound covers nothing. -/
theorem Covered.advance (h : sc.Covered strays) (time : U64) : (sc.advance time).Covered strays := by
  refine ⟨h.replay.advance time, fun epoch hepoch => ?_⟩
  obtain ⟨hstart, hrecords, hevents⟩ := h.epoch epoch hepoch
  have hmore := sc.replay.latest_le_advance time
  exact ⟨hstart, fun r hr => ⟨(hrecords r hr).1, le_trans (hrecords r hr).2 hmore⟩, hevents⟩

/-- What is not older than what was read is no stray. -/
theorem Covered.strayTime_of_latest_le (h : sc.Covered strays) {time : U64}
    (htime : sc.replay.latest ≤ time) : sc.strayTime (some time) = none := by
  rw [strayTime, Option.filter_eq_none_iff]
  rintro t ⟨⟩
  rw [Bool.not_eq_true, Option.any_eq_false]
  intro epoch hepoch
  obtain ⟨r, hr, heq⟩ := (h.epoch epoch hepoch).start
  have hle := (h.epoch epoch hepoch).records r hr
  simpa using le_trans hle.1 (le_trans hle.2 htime)

/-- Damage at a time within what was read. -/
theorem Covered.invalidate (h : sc.Covered strays) {time : U64} (htime : time ≤ sc.replay.latest) :
    (sc.invalidate time).Covered (strays ++ (sc.strayTime (some time)).toList) := by
  have hbound : ∀ t ∈ some time, t ≤ sc.replay.latest := by
    rintro t ⟨⟩
    exact htime
  refine ⟨?_, by rintro epoch ⟨⟩⟩
  obtain ⟨state, replay, sawNonblank⟩ := sc
  cases state with
  | awaitBoot | invalidEpoch =>
      have houtside := h.replay.excludeOutside htime
      rw [show (strayTime _ (some time)).toList = [] from rfl, List.append_nil]
      exact houtside
  | awaitSample epoch | usable epoch => exact h.replay.excludeEpoch (h.epoch epoch rfl) hbound

/-- **Damage.** Without a time of its own it goes by the bound, which is not before the epoch. -/
theorem Covered.damaged (h : sc.Covered strays) (time : Option U64) :
    (sc.damaged time).Covered (strays ++ (sc.strayTime time).toList) := by
  cases time with
  | none =>
      have hstray := h.strayTime_of_latest_le (le_refl sc.replay.latest)
      have hinvalid := h.invalidate (le_refl sc.replay.latest)
      rw [hstray] at hinvalid
      exact hinvalid
  | some t =>
      exact (h.advance t).invalidate (sc.replay.le_latest_advance t)

/-- The end of the epoch being read. -/
theorem Covered.closeEpoch (h : sc.Covered strays) : sc.closeEpoch.Covered strays := by
  obtain ⟨state, replay, sawNonblank⟩ := sc
  cases state with
  | awaitBoot | invalidEpoch => exact h.replay
  | awaitSample epoch =>
      have hnone : ∀ t ∈ (none : Option U64), t ≤ replay.latest := by rintro t ⟨⟩
      have hexcluded := h.replay.excludeEpoch (h.epoch epoch rfl) hnone
      simp only [Option.filter_none, Option.toList_none, List.append_nil] at hexcluded
      exact hexcluded
  | usable epoch => exact h.replay.commitEpoch (h.epoch epoch rfl)

/-- A record joins the epoch being read. -/
theorem Covered.join (h : sc.Covered strays) {epoch epoch' : Epoch ν} {r : Record ν} {event : DiagnosticEvent}
    (hepoch : sc.epoch? = some epoch) (hlatest : sc.replay.latest ≤ r.timestamp)
    (hstart : epoch'.start = epoch.start) (hrecords : epoch'.records = epoch.records ++ [r])
    (hevents : epoch'.diagnosticEvents = epoch.diagnosticEvents ++ [event])
    (hevent : event.diagnostics.excludedRecords = 0) : (sc.join epoch' r.timestamp).Covered strays := by
  have hspans := h.epoch epoch hepoch
  obtain ⟨boot, hboot, heq⟩ := hspans.start
  have hle := hspans.records boot hboot
  refine ⟨h.replay.advance _, ?_⟩
  rintro _ ⟨⟩
  refine ⟨⟨boot, ?_, heq.trans hstart.symm⟩, fun r' hr' => ?_, fun e he => ?_⟩
  · rw [hrecords]
    exact List.mem_append_left _ hboot
  · rw [hrecords] at hr'
    rw [hstart]
    rcases List.mem_append.mp hr' with hr' | hr'
    · have hold := hspans.records r' hr'
      exact ⟨hold.1, le_trans hold.2 (sc.replay.latest_le_advance _)⟩
    · rw [List.mem_singleton.mp hr']
      exact ⟨le_trans hle.1 (le_trans hle.2 hlatest), sc.replay.le_latest_advance _⟩
  · rw [hevents] at he
    rcases List.mem_append.mp he with he | he
    · exact hspans.events e he
    · rw [List.mem_singleton.mp he]
      exact hevent

/-- **A record that is taken.** A boot closes the open gap, and is not older than anything in it. -/
theorem Covered.takes {r : Record ν} (h : sc.Covered strays) (htakes : sc.takes r = true)
    (hstep : sc.Takes r sc') : sc'.Covered strays := by
  have hnot := not_older_of_takes htakes
  have hlatest := Replay.latest_le_of_not_older hnot
  cases hstep with
  -- a boot closes the epoch and the open gap, and may be excluded later with its own time
  | boot b =>
      have hbound : ((sc.advance b.timestamp).closeEpoch).latest = b.timestamp := by
        have hlog := congrArg (fun log => log.2.1) (sc.advance b.timestamp).log_closeEpoch
        have heq : (sc.advance b.timestamp).closeEpoch.orderingBound = some b.timestamp :=
          hlog.trans (orderingBound_advance hnot)
        rw [Replay.latest, heq]
        rfl
      have hclosed := (h.advance b.timestamp).closeEpoch.closeOpenGap (le_of_eq hbound)
      refine ⟨hclosed, ?_⟩
      rintro _ ⟨⟩
      have hlast : ((sc.advance b.timestamp).startBoot b).replay.latest = b.timestamp := by
        have hlog := congrArg (fun log => log.2.1)
          ((sc.advance b.timestamp).closeEpoch.log_closeOpenGap b.timestamp)
        have hsame : ((sc.advance b.timestamp).startBoot b).replay.orderingBound =
            (sc.advance b.timestamp).closeEpoch.orderingBound := hlog
        rw [Replay.latest, hsame]
        exact hbound
      refine ⟨⟨.boot b, List.mem_singleton_self _, rfl⟩, fun r hr => ?_, by rintro event ⟨⟩⟩
      rw [List.mem_singleton.mp hr, hlast]
      exact ⟨le_refl _, le_refl _⟩
  -- any other record joins the epoch being read
  | first epoch s hstate hid =>
      have hepoch : sc.epoch? = some epoch := by rw [epoch?, hstate]
      exact h.join hepoch hlatest rfl rfl rfl rfl
  | sample epoch s hstate hid =>
      have hepoch : sc.epoch? = some epoch := by rw [epoch?, hstate]
      exact h.join hepoch hlatest rfl rfl rfl rfl
  | checkpoint epoch c hstate hid =>
      have hepoch : sc.epoch? = some epoch := by rw [epoch?, hstate]
      exact h.join hepoch hlatest rfl rfl rfl rfl

end Scan

section Files

variable [F64 ν] {S : Serde ν}

/-- The time a line goes by when it does damage. -/
def lineTime (S : Serde ν) (line : Bytes) : Option U64 :=
  match decodeRecord S line with
  | .ok r => some r.timestamp
  | .error _ => S.trustworthyTimestamp line

/-- The strays among these lines: what damages an epoch and is dated before its boot. -/
def strayTimes (S : Serde ν) (index : ℕ) (sc : Scan ν) : List Bytes → List U64
  | [] => []
  | line :: rest =>
      (if isBlank line then [] else (sc.strayTime (lineTime S line)).toList) ++
        match sc.scanLine S index line with
        | .ok sc => strayTimes S (index + 1) sc rest
        | .error _ => []

/-- The strays of a file, what follows its last line feed included. -/
def fileStrays (S : Serde ν) (file : Bytes) : List U64 :=
  let (lines, tail) := readLines file
  strayTimes S 1 {} lines ++
    match Scan.scanLines S 1 {} lines with
    | .ok sc => if tail.isEmpty then [] else (sc.strayTime (S.trustworthyTimestamp tail)).toList
    | .error _ => []

namespace Scan

variable {sc sc' : Scan ν} {strays : List U64}

/-- **One line.** -/
theorem Covered.scanLine (h : sc.Covered strays) {index : ℕ} {line : Bytes}
    (hline : sc.scanLine S index line = .ok sc') :
    sc'.Covered (strays ++ if isBlank line then [] else (sc.strayTime (lineTime S line)).toList) := by
  have hseen : sc.seen.Covered strays := ⟨h.replay, h.epoch⟩
  rcases scanLine_cases hline with ⟨hb, rfl⟩ | ⟨hb, time, rfl, htime⟩ | ⟨hb, r, hd, ht, hs⟩
  · rw [if_pos hb, List.append_nil]
    exact h
  · rw [if_neg (by simp [hb])]
    have hsame : lineTime S line = time := by
      rw [htime]
      rfl
    rw [hsame]
    exact hseen.damaged time
  · rw [if_neg (by simp [hb])]
    have htime : lineTime S line = some r.timestamp := by simp [lineTime, hd]
    have hlatest := Replay.latest_le_of_not_older (not_older_of_takes ht)
    rw [htime, show sc.strayTime (some r.timestamp) = none from hseen.strayTime_of_latest_le hlatest,
      Option.toList_none, List.append_nil]
    exact hseen.takes ht hs

/-- **All lines.** -/
theorem Covered.scanLines {lines : List Bytes} (h : sc.Covered strays) {index : ℕ}
    (hlines : scanLines S index sc lines = .ok sc') :
    sc'.Covered (strays ++ strayTimes S index sc lines) := by
  induction lines generalizing index sc strays with
  | nil =>
      obtain rfl := Except.ok.inj hlines
      rw [strayTimes, List.append_nil]
      exact h
  | cons line rest ih =>
      rw [Scan.scanLines] at hlines
      rw [strayTimes]
      cases hline : sc.scanLine S index line with
      | error error => simp [hline] at hlines
      | ok next =>
          simp only [hline] at hlines ⊢
          rw [← List.append_assoc]
          exact ih (h.scanLine hline) hlines

end Scan

/-- **What a file excludes lies in its gaps**, but for the strays. -/
theorem covered_of_validateCanonical {file : Bytes} {replay : Replay ν}
    (h : validateCanonical S file = .ok replay) : replay.Covered (fileStrays S file) := by
  obtain ⟨sc, hscan, hend⟩ := validateCanonical_cases h
  have hcovered : sc.Covered (strayTimes S 1 {} (readLines file).1) := by
    have hlines := Scan.covered_empty.scanLines hscan
    rwa [List.nil_append] at hlines
  rcases hend with ⟨hnil, -, rfl⟩ | ⟨hne, -, rfl⟩
  · have hstrays : fileStrays S file = strayTimes S 1 {} (readLines file).1 := by
      simp [fileStrays, hscan, hnil]
    rw [hstrays]
    exact hcovered.closeEpoch
  · have hstrays : fileStrays S file = strayTimes S 1 {} (readLines file).1 ++
        (sc.strayTime (S.trustworthyTimestamp (readLines file).2)).toList := by
      simp [fileStrays, hscan, hne]
    have hmet : (sc.unterminated (readLines file).2).Covered (strayTimes S 1 {} (readLines file).1) := by
      obtain ⟨hreplay, hepoch⟩ := hcovered
      exact ⟨⟨hreplay.bounded, hreplay.covered, hreplay.starts, hreplay.excluded⟩, hepoch⟩
    rw [hstrays]
    exact (hmet.damaged (S.trustworthyTimestamp (readLines file).2)).replay

end Files

/-! ## Complete windows

The window is complete if it overlaps no gap; a time that lies in the window and in a gap makes them overlap, but for
a gap that begins where the window ends. -/

/-- Counter resets are noted as events that exclude nothing. -/
theorem gaps_noteResets (replay : Replay ν) (resets : Std.ExtTreeMap U64 ℕ) :
    (replay.noteResets resets).gaps = replay.gaps := by
  unfold Replay.noteResets
  induction resets.toList generalizing replay with
  | nil => rfl
  | cons reset rest ih =>
      rw [List.foldl_cons, ih]

variable [F64Sums ν] [DecidableEq ν] {S : Serde ν}

/-- The gaps after `History::open`: those of the file, with the open one closed at the new boot, which is
not older than anything read. -/
theorem recoveryGaps_open {file file' : Bytes} {days timestamp : U64} {initialCapacity : CapacitySnapshot}
    {bootId : String} {history : Flock.History ν} {replay : Replay ν}
    (hvalid : validateCanonical S file = .ok replay)
    (hopen : History.open S (some file) days timestamp initialCapacity bootId = .ok (history, file')) :
    replay.latest ≤ timestamp ∧ history.inner.recoveryGaps = (replay.closeOpenGap timestamp).gaps := by
  unfold History.open HistoryStore.open at hopen
  simp only [hvalid] at hopen
  split at hopen
  · cases hopen
  · rename_i canonical whole hstore
    cases hopen
    split at hstore
    · rename_i hnotOlder
      split at hstore
      · cases hstore
      · simp only [Except.ok.injEq, Prod.mk.injEq] at hstore
        obtain ⟨rfl, -⟩ := hstore
        have hnot : replay.orderingBound.any (timestamp < ·) = false :=
          (Bool.not_eq_true' _).mp hnotOlder
        refine ⟨Replay.latest_le_of_not_older hnot, ?_⟩
        simp only [ofStore, enrichCanonicalReplay, gaps_noteResets]
        apply Replay.gaps_closeOpenGap_congr
        rfl
    · cases hstore

/-- **When a complete window hides nothing.** In a complete window no record was excluded, exactly if none
of the lines that damage an epoch and are dated before its boot falls into the window, and no recovery gap
begins at its end. -/
theorem complete_hides_nothing_iff {file file' : Bytes} {days timestamp : U64}
    {initialCapacity : CapacitySnapshot} {bootId : String} {history : Flock.History ν} {replay : Replay ν}
    (hvalid : validateCanonical S file = .ok replay)
    (hopen : History.open S (some file) days timestamp initialCapacity bootId = .ok (history, file'))
    (start stop : U64) (points : ℕ)
    (hcomplete : (rollup history.inner start stop points).complete = true) :
    (∀ event ∈ replay.diagnosticEvents, 0 < event.diagnostics.excludedRecords →
        ¬ (start < event.time ∧ event.time ≤ stop)) ↔
      (∀ time ∈ fileStrays S file, ¬ (start < time ∧ time ≤ stop)) ∧
        ∀ gap ∈ history.inner.recoveryGaps, gap.start ≠ stop := by
  obtain ⟨hlatest, hgaps⟩ := recoveryGaps_open hvalid hopen
  have hcovered := (covered_of_validateCanonical hvalid).closeOpenGap hlatest
  obtain ⟨hlt, hclear⟩ := complete_rollup hcomplete
  have htimes := replay.excludedTimes_closeOpenGap timestamp
  rw [hgaps] at hclear ⊢
  constructor
  -- what a complete window leaves out is no excluded time
  · intro hnone
    have hnone' : ∀ t ∈ (replay.closeOpenGap timestamp).excludedTimes, ¬ (start < t ∧ t ≤ stop) := by
      intro t ht
      rw [htimes] at ht
      obtain ⟨event, hevent, hpos, rfl⟩ := Replay.mem_excludedTimes.mp ht
      exact hnone event hevent hpos
    refine ⟨fun t ht => hnone' t (hcovered.excluded t ht), fun gap hgap heq => ?_⟩
    have hexcluded := hnone' gap.start (hcovered.starts gap hgap)
    rw [heq] at hexcluded
    exact hexcluded ⟨hlt, le_refl stop⟩
  -- an excluded time is a stray, or it is in a gap
  · rintro ⟨hstrays, hstarts⟩ event hevent hpos ⟨hafter, hbefore⟩
    have hmem : event.time ∈ (replay.closeOpenGap timestamp).excludedTimes := by
      rw [htimes]
      exact Replay.mem_excludedTimes.mpr ⟨event, hevent, hpos, rfl⟩
    rcases hcovered.covered event.time hmem with hstray | ⟨gap, hgap, hle, hge⟩
    · exact hstrays event.time hstray ⟨hafter, hbefore⟩
    · -- a gap that holds the time overlaps the window, unless it begins at its end
      rcases hclear gap hgap with hlate | hearly
      · exact hstarts gap hgap (le_antisymm (le_trans hle hbefore) hlate)
      · exact absurd (lt_of_lt_of_le hafter (le_trans hge hearly)) (lt_irrefl start)

/-- A file whose records are read back opens, and shows these records. -/
theorem open_fileOf (hS : S.Plain) {rs : List (Record ν)} (hne : rs ≠ [])
    (hrs : ∀ r ∈ rs, S.Restores r) (days timestamp : U64)
    (hclock : (rs.foldl Scan.next {}).closeEpoch.orderingBound.any (timestamp < ·) = false)
    (initialCapacity : CapacitySnapshot) (bootId : String) :
    ∃ file, History.open S (some (fileOf S rs)) days timestamp initialCapacity bootId =
      .ok (openedOn rs days timestamp initialCapacity bootId, file) := by
  have hstore := HistoryStore.open_existing hS (validateCanonical_fileOf hne hrs) hclock
    (canonicalCapacity initialCapacity) bootId
  unfold History.open
  rw [hstore]
  exact ⟨_, rfl⟩

/-- A process that took a sample, and one that stopped before it took any. -/
def bootOnlyRecords : List (Record ℚ) :=
  [.boot ⟨10, "a", ⟨40, 1, [40]⟩⟩, .sample ⟨20, "a", ⟨40, 1, [40]⟩, []⟩, .boot ⟨30, "b", ⟨40, 1, [40]⟩⟩]

/-- A process that took two samples, the second at a time long before its boot. -/
def regressingRecords : List (Record ℚ) :=
  [.boot ⟨10, "a", ⟨40, 1, [40]⟩⟩, .sample ⟨55, "a", ⟨40, 1, [40]⟩, []⟩,
    .boot ⟨100, "b", ⟨40, 1, [40]⟩⟩, .sample ⟨110, "b", ⟨40, 1, [40]⟩, []⟩,
    .sample ⟨50, "b", ⟨40, 1, [40]⟩, []⟩]

/-- The sample records are read back by the codec of the examples. -/
theorem restores_bootOnlyRecords : ∀ r ∈ bootOnlyRecords, json.Restores r := by
  refine json_faithful.restores_all fun r hr => ?_
  simp only [bootOnlyRecords, List.mem_cons, List.not_mem_nil, or_false] at hr
  rcases hr with rfl | rfl | rfl
  all_goals first | trivial | exact stateOk_nil []

theorem restores_regressingRecords : ∀ r ∈ regressingRecords, json.Restores r := by
  refine json_faithful.restores_all fun r hr => ?_
  simp only [regressingRecords, List.mem_cons, List.not_mem_nil, or_false] at hr
  rcases hr with rfl | rfl | rfl | rfl | rfl
  all_goals first | trivial | exact stateOk_nil []

/-- A window that ends before the second process starts is complete, and nothing in it was excluded. -/
theorem complete_hides_nothing_before_boot :
    ∃ (history : Flock.History ℚ) (file' : Bytes) (replay : Replay ℚ),
      validateCanonical json (fileOf json bootOnlyRecords) = .ok replay ∧
      History.open json (some (fileOf json bootOnlyRecords)) 0 40 ⟨1, [40], 40⟩ "c" =
        .ok (history, file') ∧
      (rollup history.inner 10 25 2).complete = true ∧
      (∀ event ∈ replay.diagnosticEvents, 0 < event.diagnostics.excludedRecords →
        ¬ (10 < event.time ∧ event.time ≤ 25)) ∧
      (∀ time ∈ fileStrays json (fileOf json bootOnlyRecords), ¬ (10 < time ∧ time ≤ 25)) ∧
        ∀ gap ∈ history.inner.recoveryGaps, gap.start ≠ 25 := by
  have hvalid := validateCanonical_fileOf (by decide : bootOnlyRecords ≠ []) restores_bootOnlyRecords
  obtain ⟨file', hopen⟩ := open_fileOf json_faithful.plain (by decide : bootOnlyRecords ≠ [])
    restores_bootOnlyRecords 0 40 (by decide +kernel) ⟨1, [40], 40⟩ "c"
  have hcomplete : (rollup (openedOn bootOnlyRecords 0 40 ⟨1, [40], 40⟩ "c").inner 10 25 2).complete =
      true := by decide +kernel
  have hnone : ∀ event ∈ (bootOnlyRecords.foldl Scan.next {}).closeEpoch.diagnosticEvents,
      0 < event.diagnostics.excludedRecords → ¬ (10 < event.time ∧ event.time ≤ 25) := by
    decide +kernel
  have hcondition := (complete_hides_nothing_iff hvalid hopen 10 25 2 hcomplete).mp hnone
  exact ⟨_, file', _, hvalid, hopen, hcomplete, hnone, hcondition⟩

/-- The window is complete on the file of these records, and a record was excluded in it. -/
def HidesExclusion (rs : List (Record ℚ)) (start stop timestamp : U64) : Prop :=
  ∃ (history : Flock.History ℚ) (file' : Bytes) (replay : Replay ℚ),
    validateCanonical json (fileOf json rs) = .ok replay ∧
    History.open json (some (fileOf json rs)) 0 timestamp ⟨1, [40], 40⟩ "c" = .ok (history, file') ∧
    (rollup history.inner start stop 2).complete = true ∧
    ∃ event ∈ replay.diagnosticEvents, 0 < event.diagnostics.excludedRecords ∧
      start < event.time ∧ event.time ≤ stop

/-- How the two examples are evaluated: from the records, without the bytes. -/
theorem hidesExclusion_of_records {rs : List (Record ℚ)} {start stop timestamp : U64} (hne : rs ≠ [])
    (hrs : ∀ r ∈ rs, json.Restores r)
    (hclock : (rs.foldl Scan.next {}).closeEpoch.orderingBound.any (timestamp < ·) = false)
    (hcomplete : (rollup (openedOn rs 0 timestamp ⟨1, [40], 40⟩ "c").inner start stop 2).complete = true)
    (hevent : ∃ event ∈ (rs.foldl Scan.next {}).closeEpoch.diagnosticEvents,
      0 < event.diagnostics.excludedRecords ∧ start < event.time ∧ event.time ≤ stop) :
    HidesExclusion rs start stop timestamp := by
  have hvalid := validateCanonical_fileOf hne hrs
  obtain ⟨file', hopen⟩ := open_fileOf json_faithful.plain hne hrs 0 timestamp hclock ⟨1, [40], 40⟩ "c"
  exact ⟨_, file', _, hvalid, hopen, hcomplete, hevent⟩

/-- **A complete window hides exclusions**: those at its end, where the gap begins, and those of a line that
is dated before the boot of the epoch it damages. -/
theorem complete_hides_exclusions :
    HidesExclusion bootOnlyRecords 10 30 40 ∧ HidesExclusion regressingRecords 40 60 120 := by
  constructor
  · apply hidesExclusion_of_records (by decide) restores_bootOnlyRecords
    all_goals decide +kernel
  · apply hidesExclusion_of_records (by decide) restores_regressingRecords
    all_goals decide +kernel

end Flock.History
