/-
# Flock.History.LiveStore — a store through appends and compactions.

The store decides between a sample and a checkpoint by the state it wrote last.  A compaction sets that
state again from the replacement, so a later checkpoint must find the sample it repeats there.  It does:
the last sample of the live epoch is kept, as a record from the cutoff on or as the baseline.

The invariant over every run of one process: as long as no append failed, the scan of the canonical file
reads the live epoch, with the store's state as that of its last sample (`Live`); or the boot record itself
was lost behind white space, the scan ends in an open gap, and every compaction is deferred (`Lost`).

The last consequence of a compaction that commits is about floats: the state is set again as the replacement is READ.
The store goes on as it would have exactly if that is the state it had (`compaction_all_or_nothing`), and over runs
whose appended states are read back it always does.
-/
import Flock.History.Passes
import Flock.History.Replacement
import Flock.History.Rereading

namespace Flock.History

open Lib (System)

variable {ν : Type}

/-! ## The state of the last sample

The state that a list of records leaves a boot with is that of its last sample in the list. -/

theorem lastLiveState_append (id : String) (xs ys : List (Record ν)) :
    lastLiveState id (xs ++ ys) = (lastLiveState id ys).or (lastLiveState id xs) := by
  rw [lastLiveState, List.reverse_append, List.findSome?_append]
  rfl

/-- A sample of the boot has its state. -/
theorem lastLiveState_sample {id : String} {s : SampleRecord ν} (h : s.bootId = id) :
    lastLiveState id [.sample s] = some s.state := by
  simp [lastLiveState, h]

/-- A walk over records of the live boot carries the state of the last sample. -/
theorem state_foldl_next {id : String} {rs : List (Record ν)} (hids : ∀ r ∈ rs, r.bootId = id)
    (hboots : ∀ r ∈ rs, r.isBoot = false) (f : Fill ν) :
    (rs.foldl Fill.next f).state = (lastLiveState id rs).or f.state := by
  induction rs using List.reverseRecOn with
  | nil => rfl
  | append_singleton xs r ih =>
      have hxs := ih (fun r' hr' => hids r' (List.mem_append_left _ hr'))
        fun r' hr' => hboots r' (List.mem_append_left _ hr')
      rw [List.foldl_append, lastLiveState_append]
      cases r with
      | boot b => exact absurd (hboots (.boot b) (by simp)) (by simp)
      | sample s =>
          have hs : s.bootId = id := hids (.sample s) (by simp)
          rw [lastLiveState_sample hs]
          rfl
      | checkpoint c => exact hxs

theorem lastLiveState_boot_cons (id : String) (b : BootRecord) (rs : List (Record ν)) :
    lastLiveState id (.boot b :: rs) = lastLiveState id rs := by
  have happend := lastLiveState_append id [.boot b] rs
  rw [List.singleton_append] at happend
  rw [happend]
  exact Option.or_none

/-- **The last sample of an epoch is kept.** -/
theorem WellFormedEpoch.lastLiveState_kept (e : WellFormedEpoch ν) (c : U64) :
    lastLiveState e.boot.bootId (e.kept c).records = lastLiveState e.boot.bootId e.records := by
  rw [records, records, lastLiveState_boot_cons, lastLiveState_boot_cons]
  have hids : ∀ r ∈ (e.kept c).body, r.bootId = e.boot.bootId :=
    fun r hr => e.bootId_body r ((e.body_kept_sublist c).mem hr)
  have hboots : ∀ r ∈ (e.kept c).body, r.isBoot = false :=
    fun r hr => e.isBoot_body r ((e.body_kept_sublist c).mem hr)
  have hwhole := state_foldl_next e.bootId_body e.isBoot_body {}
  have hkept := state_foldl_next hids hboots {}
  have hsame : e.body.foldl Fill.next {} = (e.kept c).body.foldl Fill.next {} := by
    have hexpired : ∀ r ∈ e.expired c, r.isBoot = false := by
      intro r hr
      refine e.isBoot_body r ?_
      rw [e.body_eq c]
      exact List.mem_append_left _ hr
    rw [body_kept, e.body_eq c, List.foldl_append, List.foldl_append,
      foldl_next_expired {} (e.expired c) (e.expired_lt c) hexpired]
  rw [hsame, hkept] at hwhole
  simpa using hwhole

/-- Records of other boots have no state of this one. -/
theorem lastLiveState_eq_none {id : String} {rs : List (Record ν)} (h : ∀ r ∈ rs, r.bootId ≠ id) :
    lastLiveState id rs = none := by
  rw [lastLiveState, List.findSome?_eq_none_iff]
  intro r hr
  have hid := h r (List.mem_reverse.mp hr)
  cases r with
  | boot b => rfl
  | sample s => exact if_neg hid
  | checkpoint c => rfl

/-- **The last sample of a boot survives every compaction of that boot's own process.** -/
theorem lastLiveState_retained (c : U64) (live : String) (epochs : List (WellFormedEpoch ν)) :
    lastLiveState live (retainedCompactionRecords c live true (joined epochs)) =
      lastLiveState live (joined epochs) := by
  rw [retained_eq_joined]
  induction epochs with
  | nil => rfl
  | cons e rest ih =>
      have hjoined : joined (e :: rest) = e.records ++ joined rest := rfl
      rw [keptEpochs_cons, joined_append, hjoined, lastLiveState_append, lastLiveState_append, ih]
      congr 1
      by_cases hid : e.boot.bootId = live
      · subst hid
        have hlive : e.survives c e.boot.bootId true = true := by
          simp [WellFormedEpoch.survives, isLiveEpoch, WellFormedEpoch.records]
        have hkept : joined [e.kept c] = (e.kept c).records := List.append_nil _
        rw [if_pos hlive, hkept, e.lastLiveState_kept c]
      · -- an epoch of another boot has nothing to say, kept or not
        have hother : ∀ r ∈ e.records, r.bootId ≠ live := by
          rintro r (_ | ⟨_, hr⟩)
          · exact hid
          · rw [e.bootId_body r hr]
            exact hid
        have hkept : ∀ r ∈ joined (if e.survives c live true then [e.kept c] else []), r.bootId ≠ live := by
          split
          · intro r hr
            have hmem : r ∈ (e.kept c).records := by simpa [joined] using hr
            exact hother r ((e.records_kept_sublist c).mem hmem)
          · simp [joined]
        rw [lastLiveState_eq_none hother, lastLiveState_eq_none hkept]

/-- An epoch has a sample. -/
theorem WellFormedEpoch.isSome_lastLiveState (e : WellFormedEpoch ν) :
    (lastLiveState e.boot.bootId e.records).isSome = true := by
  have hsplit : e.records = [.boot e.boot, .sample e.sample] ++ e.rest := rfl
  have hsample : lastLiveState e.boot.bootId [.boot e.boot, .sample e.sample] = some e.sample.state := by
    rw [lastLiveState_boot_cons, lastLiveState_sample e.bootId_sample]
  rw [hsplit, lastLiveState_append, hsample, Option.isSome_or]
  simp

/-! ## The store and the scan of its file

The store keeps the boot it was opened with, the last timestamp and the last state.  The scan of its file has the same
three, in the epoch being read. -/

/-- **`Live`** — the store follows the scan of its file, and the last sample of the epoch being read has the
state the store compares with. -/
structure Live (sc : Scan ν) (store : HistoryStore ν) : Prop extends Follows sc store where
  live : lastLiveState store.bootId sc.pending = store.lastState

/-- A store that has just been opened. -/
theorem live_boot {sc : Scan ν} {t : U64} (hbound : sc.replay.orderingBound.any (t < ·) = false)
    (capacity : Capacity) {store : HistoryStore ν} (hstate : store.lastState = none)
    (htime : store.lastTimestamp = some t) :
    Live (sc.next (.boot ⟨t, store.bootId, capacity⟩)) store := by
  obtain ⟨hfollows, -⟩ := follows_boot hbound capacity hstate htime
  let boot : BootRecord := ⟨t, store.bootId, capacity⟩
  have hold : sc.replay.orderingBound.any (boot.timestamp < ·) = false := hbound
  obtain ⟨hboot, -⟩ := Scan.next_boot_state hold
  have hpending : (sc.next (.boot boot)).pending = [.boot boot] := by
    simp [Scan.pending, Scan.epoch?, hboot, Epoch.new]
  exact ⟨hfollows, by rw [hpending, hstate]; rfl⟩

section Live

variable [DecidableEq ν]

/-- **One record** of the store joins the epoch being read. -/
theorem Live.next {sc : Scan ν} {store : HistoryStore ν} (h : Live sc store) {call : SampleCall ν}
    (htime : store.lastTimestamp.any (call.timestamp < ·) = false) :
    Live (sc.next (store.recordOf call.timestamp call.capacity call.state)) (store.sampled call) ∧
      (sc.next (store.recordOf call.timestamp call.capacity call.state)).pending =
        sc.pending ++ [store.recordOf call.timestamp call.capacity call.state] := by
  let r := store.recordOf call.timestamp call.capacity call.state
  obtain ⟨hfollows, hall, -, -⟩ := h.toFollows.next htime
  have hold : sc.replay.orderingBound.any (r.timestamp < ·) = false := by
    rw [h.bound, store.timestamp_recordOf]
    exact htime
  obtain ⟨-, -, -, hreplay⟩ := Scan.next_of_reading h.reading (store.bootId_recordOf _ _ _) hold
    (store.kind_recordOf _ _ _)
  have hrecords : (sc.next r).replay.records = sc.replay.records := by
    rw [hreplay]
    rfl
  have hpending : (sc.next r).pending = sc.pending ++ [r] := by
    rw [Scan.allRecords_eq, Scan.allRecords_eq, hrecords, List.append_assoc] at hall
    exact List.append_cancel_left hall
  refine ⟨⟨hfollows, ?_⟩, hpending⟩
  rw [hpending, lastLiveState_append]
  by_cases hsame : store.lastState = some call.state
  · have hr : r = .checkpoint ⟨call.timestamp, store.bootId, call.capacity⟩ := if_pos hsame
    rw [hr]
    exact h.live.trans hsame
  · have hr : r = .sample ⟨call.timestamp, store.bootId, call.capacity, call.state⟩ := if_neg hsame
    have hstate : lastLiveState store.bootId
        [.sample ⟨call.timestamp, store.bootId, call.capacity, call.state⟩] = some call.state :=
      lastLiveState_sample rfl
    rw [hr]
    exact congrArg (Option.or · _) hstate

end Live

/-! ## A boot record that was lost

Behind a form feed the boot record is no JSON.  The file then ends in a gap that no later record closes, as every one
of them belongs to a boot that was never read. -/

/-- A gap that was opened is open. -/
theorem Replay.exists_open_openGap (replay : Replay ν) (start : U64) :
    ∃ gap ∈ (replay.openGap start).gaps, gap.stop = u64Max := by
  rw [openGap]
  split
  · rename_i gap hgap
    obtain ⟨-, hopen⟩ := Option.filter_eq_some_iff.mp hgap
    exact ⟨{ gap with start := min gap.start start }, by simp, by simpa using hopen⟩
  · exact ⟨⟨start, u64Max⟩, by simp, rfl⟩

/-- **`Lost`** — the scan ended in damage, with the gap still open. -/
structure Lost (sc : Scan ν) : Prop where
  state : sc.state = .invalidEpoch
  gap : ∃ gap ∈ sc.replay.gaps, gap.stop = u64Max

theorem lost_damaged (sc : Scan ν) (time : Option U64) : Lost (sc.damaged time) := by
  refine ⟨(sc.records_damaged time).2, ?_⟩
  obtain ⟨state, replay, sawNonblank⟩ := sc
  cases state with
  | awaitBoot => exact Replay.exists_open_openGap _ _
  | awaitSample epoch => exact Replay.exists_open_openGap _ _
  | usable epoch => exact Replay.exists_open_openGap _ _
  | invalidEpoch => exact Replay.exists_open_openGap _ _

/-- No record but a boot ends the damage. -/
theorem Lost.next {sc : Scan ν} (h : Lost sc) {r : Record ν} (hboot : r.isBoot = false) :
    Lost (sc.next r) := by
  have hnot : sc.seen.takes r = false := Scan.takes_of_invalidEpoch h.state hboot
  have hnext : sc.next r = sc.seen.damaged (some r.timestamp) := Scan.scanRecord_of_not_takes hnot
  rw [hnext]
  exact lost_damaged _ _

/-- Such a file is not compacted with a cutoff before the end of time. -/
theorem Lost.any_gap {sc : Scan ν} (h : Lost sc) {cutoff : U64} (hcutoff : cutoff < u64Max) :
    sc.closeEpoch.gaps.any (cutoff < ·.stop) = true := by
  obtain ⟨gap, hgap, hopen⟩ := h.gap
  rw [Scan.closeEpoch_of_invalidEpoch h.state]
  exact List.any_eq_true.mpr ⟨gap, hgap, by simpa [hopen] using hcutoff⟩

/-! ## A compaction of a live file

A compaction writes what its cutoff keeps and reads it again.  Of the live epoch it keeps the boot, the records from
the cutoff on, and the last sample before it as a baseline. -/

section Compacted

variable [F64 ν] {S : Serde ν}

/-- Once there is a sample, the epoch being read is the live one, and well formed. -/
theorem Live.exists_epoch {file : Bytes} {sc : Scan ν} {store : HistoryStore ν} (h : Live sc store)
    (hfile : Scanned S file sc) (hsome : store.lastState.isSome = true) :
    ∃ (epochs : List (WellFormedEpoch ν)) (w : WellFormedEpoch ν), w.boot.bootId = store.bootId ∧
      sc.closeEpoch.records = joined epochs ++ w.records ∧ sc.pending = w.records := by
  have hwell := (Scan.wellFormed_of_scanLines hfile.lines).1
  obtain ⟨epochs, hepochs⟩ := hwell.committed
  have hreading := h.reading
  have hok := hwell.reading
  cases hlast : store.lastState with
  | none => simp [hlast] at hsome
  | some state =>
      rw [hlast] at hreading
      cases hreading with
      | sampled epoch _ hstate hepoch =>
          rw [hstate] at hok
          cases hok with
          | usable _ w hw hboot =>
              have hpending : sc.pending = w.records := by simp [Scan.pending, Scan.epoch?, hstate, hw]
              refine ⟨epochs, w, hboot.symm.trans hepoch, ?_, hpending⟩
              rw [Scan.closeEpoch_records_of_usable hstate, Scan.allRecords_eq, hepochs, hpending]

omit [F64 ν] in
/-- The live epoch is kept after whatever is kept before it. -/
theorem retained_live (cutoff : U64) {live : String} (epochs : List (WellFormedEpoch ν))
    {w : WellFormedEpoch ν} (hid : w.boot.bootId = live) :
    retainedCompactionRecords cutoff live true (joined epochs ++ w.records) =
      joined (keptEpochs cutoff live true epochs) ++ (w.kept cutoff).records := by
  have hlive : w.survives cutoff live true = true := by
    simp [WellFormedEpoch.survives, isLiveEpoch, WellFormedEpoch.records, hid]
  have hjoined : joined epochs ++ w.records = joined (epochs ++ [w]) := by
    rw [joined_append]
    simp [joined]
  have hkept : keptEpochs cutoff live true (epochs ++ [w]) =
      keptEpochs cutoff live true epochs ++ [w.kept cutoff] := by
    simp [keptEpochs, List.filterMap_append, hlive]
  rw [hjoined, retained_eq_joined, hkept, joined_append]
  simp [joined]

/-- **A live file, compacted.** The replacement is live again, with the same state, and ends no later. -/
theorem Live.compacted {file : Bytes} {sc : Scan ν} {store : HistoryStore ν}
    (h : Live sc store) (hfile : Scanned S file sc) (hsome : store.lastState.isSome = true) {cutoff : U64}
    {retained : List (Record ν)}
    (hretained : retained = retainedCompactionRecords cutoff store.bootId true sc.closeEpoch.records)
    (hrestores : ∀ r ∈ retained, S.Restores r) :
    lastLiveState store.bootId retained = store.lastState ∧
      (∀ t, store.lastTimestamp.any (t < ·) = false →
        (retained.getLast?.map Record.timestamp).any (t < ·) = false) ∧
      ∃ (w : WellFormedEpoch ν) (sc' : Scan ν), sc.pending = w.records ∧
        sc'.pending = (w.kept cutoff).records ∧ Scanned S (fileOf S retained) sc' ∧
        sc'.sawNonblank = true ∧ sc'.Reading store.bootId store.lastState ∧
        sc'.replay.orderingBound = retained.getLast?.map Record.timestamp ∧
        lastLiveState store.bootId sc'.pending = store.lastState := by
  obtain ⟨epochs, w, hid, hrecords, hpending⟩ := h.exists_epoch hfile hsome
  have hwell := (Scan.wellFormed_of_scanLines hfile.lines).1
  let kept := w.kept cutoff
  let before := joined (keptEpochs cutoff store.bootId true epochs)
  have hsplit : retained = before ++ kept.records := by
    rw [hretained, hrecords, retained_live cutoff epochs hid]
  -- the kept records are among those that were read
  have hsub : retained.Sublist sc.allRecords := by
    have hclose : sc.closeEpoch.records = sc.replay.records ++ sc.committed :=
      congrArg Prod.fst sc.log_closeEpoch
    have hclosed : sc.closeEpoch.records.Sublist sc.allRecords :=
      hclose ▸ sc.committed_sublist_allRecords
    have hkept : retained.Sublist (joined epochs ++ w.records) := by
      rw [hsplit]
      exact (keptEpochs_sublist cutoff store.bootId true epochs).append (w.records_kept_sublist cutoff)
    exact hkept.trans (hrecords ▸ hclosed)
  have hkeptId : kept.boot.bootId = store.bootId := by rw [w.boot_kept cutoff, hid]
  have hkeptState : lastLiveState store.bootId kept.records = store.lastState := by
    rw [← h.live, hpending, ← hid]
    exact w.lastLiveState_kept cutoff
  refine ⟨?_, ?_, ?_⟩
  · have hkeptSome : (lastLiveState store.bootId kept.records).isSome = true := by
      rw [← hkeptId]
      exact kept.isSome_lastLiveState
    rw [hsplit, lastLiveState_append, Option.or_of_isSome hkeptSome, hkeptState]
  · intro t ht
    cases hlast : retained.getLast? with
    | none => rfl
    | some last =>
        obtain ⟨bound, hbound, hle⟩ := hwell.bounded last (hsub.mem (List.mem_of_getLast? hlast))
        rw [← h.bound, Option.mem_def.mp hbound] at ht
        have hbound' : bound ≤ t := by simpa using ht
        simpa using hle.trans hbound'
  · have hchron : Chronological (before ++ kept.records) := hsplit ▸ hwell.chronological.sublist hsub
    obtain ⟨-, -, hcross⟩ := List.pairwise_append.mp hchron
    let sc₁ := before.foldl Scan.next ({} : Scan ν)
    have hbound₁ : sc₁.replay.orderingBound.any (kept.boot.timestamp < ·) = false :=
      Scan.any_foldl_next rfl fun r hr => hcross r hr (.boot kept.boot) List.mem_cons_self
    obtain ⟨⟨epoch, hstate, hepoch⟩, -, hpending', hbound'⟩ := Scan.foldl_next_epoch kept hbound₁
    have hscanned := scanned_nil.fileOf hrestores
    rw [List.nil_append, hsplit, List.foldl_append] at hscanned
    refine ⟨w, _, hpending, hpending', hsplit ▸ hscanned, ?_, ?_, ?_, ?_⟩
    · exact Scan.sawNonblank_foldl_next (by simp [WellFormedEpoch.records]) _
    · cases hlast : store.lastState with
      | none => simp [hlast] at hsome
      | some state => exact .sampled epoch state hstate (hepoch.trans hkeptId)
    · rw [hbound', hsplit, List.getLast?_map, List.getLast?_append_of_ne_nil _ (by simp [WellFormedEpoch.records])]
    · rw [hpending']
      exact hkeptState

/-- The boot can be read where `open` puts it: its line right after the tail of the file, if that is white
space, and its time after that of a record in the tail, which only has to get its line feed to be read. -/
structure BootReadable (S : Serde ν) (disk : Option Bytes) (boot : BootRecord) : Prop where
  line : ∀ file ∈ disk, isBlank (readLines file).2 = true → ∀ line, encodeRecord S (.boot boot) = .ok line →
    ∃ r, decodeRecord S ((readLines file).2 ++ line) = .ok r
  time : ∀ file ∈ disk, isBlank (readLines file).2 = false → ∀ r, decodeRecord S (readLines file).2 = .ok r →
    r.timestamp ≤ boot.timestamp

/-- **The boot of a store that was opened** is the last record of the file, or was lost: it is damage, behind
white space or behind a record of a later time. -/
theorem HistoryStore.open_boot (hS : S.Plain) (hL : S.Lexical) {disk : Option Bytes} {boot : BootRecord}
    {store : HistoryStore ν} {file : Bytes}
    (h : HistoryStore.open S disk boot.timestamp boot.capacity boot.bootId = .ok (store, file)) :
    store.bootId = boot.bootId ∧ store.lastState = none ∧ store.lastTimestamp = some boot.timestamp ∧
      ((∃ sc : Scan ν, sc.replay.orderingBound.any (boot.timestamp < ·) = false ∧
          Scanned S file (sc.next (.boot boot))) ∨
        (∃ (sc : Scan ν) (time : Option U64), Scanned S file (sc.seen.damaged time)) ∧
          ¬ BootReadable S disk boot) := by
  -- a boot record has no number, so any JSON restores it
  have hboot : S.Restores (.boot boot) := hS.restores_boot boot
  cases disk with
  | none =>
      simp only [HistoryStore.open, appendRecord_of_encodable hS [] hboot.encodable, Except.ok.injEq,
        Prod.mk.injEq] at h
      obtain ⟨hstore, rfl⟩ := h
      refine ⟨by rw [← hstore], by rw [← hstore], by rw [← hstore], .inl ⟨{}, rfl, ?_⟩⟩
      exact scanned_nil.record hboot
  | some old =>
      obtain ⟨whole, hold, hwhole, hnl⟩ := exists_terminated old
      obtain ⟨replay, hvalid, hbound, hid, hstate, htime, -, -, rfl⟩ := HistoryStore.open_ok hS h
      refine ⟨hid, hstate, htime, ?_⟩
      obtain ⟨sc, hscan, hend⟩ := validateCanonical_cases hvalid
      have hscanned : Scanned S whole sc := ⟨by rw [hwhole], by rw [hwhole]; exact hscan⟩
      have hlog := sc.log_closeEpoch
      simp only [Replay.log, Prod.mk.injEq] at hlog
      rcases hend with ⟨hnil, -, rfl⟩ | ⟨hne, -, rfl⟩
      · -- the file ended in a line feed
        rw [hnil, List.append_nil] at hold
        rw [if_neg (by simp [hlog.2.2, hscanned.needsSeparator]), hold]
        exact .inl ⟨sc, hlog.2.1 ▸ hbound, hscanned.record hboot⟩
      · cases hblank : isBlank (readLines old).2 with
        -- the tail became a line of its own, and the boot follows it
        | false =>
            obtain ⟨hformat, hversion⟩ := hscanned.supported hnl hne (hold ▸ hvalid)
            obtain ⟨sc', hline, hsame, -⟩ := hscanned.tail hnl hblank hformat hversion
            have hseparator : (sc.torn S (readLines old).2).replay.needsSeparator = true := by
              rw [Scan.torn, Scan.needsSeparator_damaged]
              simp [Scan.unterminated, hblank]
            rw [if_pos hseparator]
            have hfile : old ++ [newline] = whole ++ ((readLines old).2 ++ [newline]) := by
              rw [← List.append_assoc, ← hold]
            rw [hfile]
            by_cases hclock : ∀ r, decodeRecord S (readLines old).2 = .ok r → r.timestamp ≤ boot.timestamp
            · refine .inl ⟨sc', ?_, hline.record hboot⟩
              rw [hsame]
              exact Scan.any_tail_of_torn hbound hclock
            · -- the tail is of a later time once it is read as a line
              refine .inr ⟨⟨sc', some boot.timestamp, ?_⟩, fun hreadable => hclock (hreadable.time old rfl hblank)⟩
              obtain ⟨late, hlate⟩ := not_forall.mp hclock
              obtain ⟨hdecode, hlate⟩ := Classical.not_imp.mp hlate
              have holder : sc'.seen.replay.orderingBound.any (boot.timestamp < ·) = true :=
                (congrArg (Option.any _) hsame).trans (sc.any_tail_of_late hdecode (not_le.mp hlate))
              have hnot : sc'.seen.takes (.boot boot) = false := Scan.takes_of_older holder
              have hnext : sc'.next (.boot boot) = sc'.seen.damaged (some boot.timestamp) :=
                Scan.scanRecord_of_not_takes hnot
              exact hnext ▸ hline.record hboot
        -- the tail is white space: no separator, and the boot line stands behind it
        | true =>
            have hseparator : (sc.torn S (readLines old).2).replay.needsSeparator = false := by
              rw [Scan.torn, Scan.needsSeparator_damaged]
              simp [Scan.unterminated, hblank]
            have hearlier : sc.replay.orderingBound.any (boot.timestamp < ·) = false :=
              @Scan.any_of_any_damaged _ (sc.unterminated (readLines old).2)
                (S.trustworthyTimestamp (readLines old).2) boot.timestamp hbound
            rw [if_neg (by simp [hseparator])]
            have hspace := hscanned.space_record hL hnl hblank hboot
            rw [← hold] at hspace
            rcases hspace with hread | ⟨⟨time, hlost⟩, herror⟩
            · exact .inl ⟨sc, hearlier, hread⟩
            · refine .inr ⟨⟨sc, time, hlost⟩, fun hreadable => ?_⟩
              obtain ⟨line, hline, -⟩ := hboot
              obtain ⟨error, hdecode⟩ := herror line hline
              obtain ⟨r, hr⟩ := hreadable.line old rfl hblank line hline
              rw [hdecode] at hr
              cases hr

/-- **A store that was opened**: the scan of its file reads its boot, or lost it. -/
theorem HistoryStore.open_scanned (hS : S.Plain) (hL : S.Lexical) {disk : Option Bytes} {t : U64}
    {capacity : Capacity} {bootId : String} {store : HistoryStore ν} {file : Bytes}
    (h : HistoryStore.open S disk t capacity bootId = .ok (store, file)) :
    ∃ sc, Scanned S file sc ∧ (Live sc store ∨ Lost sc) := by
  obtain ⟨hid, hstate, htime, ⟨sc, hbound, hscanned⟩ | ⟨⟨sc, time, hlost⟩, -⟩⟩ :=
    @HistoryStore.open_boot ν _ S hS hL disk ⟨t, bootId, capacity⟩ store file h
  · refine ⟨_, hscanned, .inl ?_⟩
    have hlive := live_boot hbound capacity hstate htime
    rwa [hid] at hlive
  · exact ⟨_, hlost, .inr (lost_damaged _ _)⟩

end Compacted

/-! ## A process and its disk

The events of one process after `open`: appends, which may fail after some bytes, compactions with any cutoff and any
answer of the file system, and the taking of the replay. -/

/-- The disk, and the store of the process that runs. -/
structure Process (ν : Type) where
  disk : Disk
  store : OpenStore ν

/-- What the process does with its store.  An append may fail after some bytes of its line, or after all of
them (`sync_data`); the cutoff of a compaction is that of a retention. -/
inductive StoreEvent (ν : Type) where
  | append (call : SampleCall ν) (written : Option ℕ)
  | compact (days now : U64) (answers : Answers)
  | takeReplay

section Process

variable [F64 ν] [DecidableEq ν] {S : Serde ν}

/-- `append_sample` through the handle of the store. -/
def Process.append (S : Serde ν) (p : Process ν) (call : SampleCall ν) (written : Option ℕ) : Process ν :=
  match p.store.appendSample S [] call.timestamp call.capacity call.state with
  | (store, _, .error _) => { p with store := { store with file := p.store.file } }
  | (store, line, .ok ()) =>
      match written with
      | none => ⟨p.disk.append p.store.file line, { store with file := p.store.file }⟩
      | some n => ⟨p.disk.append p.store.file (line.take n), { p.store with poisoned := true }⟩

/-- One event. -/
def Process.step (S : Serde ν) (p : Process ν) : StoreEvent ν → Option (Process ν)
  | .append call written => some (p.append S call written)
  | .compact days now answers =>
      (retentionCutoff days now).map fun cutoff =>
        let (disk, store, _) := p.store.compactInnerIfAuthorized S p.disk cutoff answers
        ⟨disk, store⟩
  -- `take_replay`
  | .takeReplay => some { p with store := { p.store with replay := {} } }

/-- An append whose state, should it be written as a sample, is read back to the last digit. -/
def StoreEvent.ReadsBack (S : Serde ν) : StoreEvent ν → Prop
  | .append call _ => S.ReadsBack call.state
  | .compact _ _ _ => True
  | .takeReplay => True

/-- **The process**, from a successful `open` on any file or none. -/
def processSystem (S : Serde ν) : System (Process ν) (StoreEvent ν) :=
  .ofStep
    (fun p => ∃ disk t capacity bootId store file,
      HistoryStore.open S disk t capacity bootId = .ok (store, file) ∧
        p = ⟨.single file, { store with file := 0 }⟩)
    (Process.step S)

/-- **The invariant.** The handle is on the canonical file, and as long as no append failed the scan of that
file reads the live epoch or lost it. -/
structure Process.Sound (S : Serde ν) (p : Process ν) : Prop where
  handle : p.store.file = p.disk.canonical
  live : p.store.poisoned = false → ∃ sc, Scanned S (p.disk.read p.disk.canonical) sc ∧
    (Live sc p.store.toHistoryStore ∨ Lost sc)

/-- A retention of days gives a cutoff before the end of time. -/
theorem retentionCutoff_lt {days now cutoff : U64} (h : retentionCutoff days now = some cutoff) :
    cutoff < u64Max := by
  rw [retentionCutoff, Option.ite_none_right_eq_some] at h
  obtain ⟨hdays, hcutoff⟩ := h
  have hday : 1 ≤ (satMul days 86400).val := by
    have hpos : 1 ≤ days.val := hdays
    have hmul : 1 ≤ days.val * (86400 : U64).val := Nat.mul_pos hpos (by decide)
    exact le_min hmul (by decide)
  have hnow : now.val ≤ u64Max.val := Fin.le_last now
  rw [← Option.some.inj hcutoff]
  show now.val - (satMul days 86400).val < u64Max.val
  have hmax : 0 < u64Max.val := by decide
  omega

/-- **A call that fails** before it writes. -/
theorem HistoryStore.appendSample_error {store store' : HistoryStore ν} {file file' : Bytes}
    {call : SampleCall ν} {error : WriteError}
    (h : store.appendSample S file call.timestamp call.capacity call.state = (store', file', .error error)) :
    store' = store ∨ store'.poisoned = true := by
  have hwrite : ∀ {r : Record ν} {written : HistoryStore ν → HistoryStore ν},
      store.write S file r written = (store', file', .error error) →
        store' = store ∨ store'.poisoned = true := by
    intro r written hw
    rw [write] at hw
    split at hw
    · split at hw
      · obtain ⟨rfl, -⟩ := Prod.mk.inj hw
        exact .inr rfl
      · simp at hw
    · obtain ⟨rfl, -⟩ := Prod.mk.inj hw
      exact .inl rfl
  rw [appendSample] at h
  split at h
  · obtain ⟨rfl, -⟩ := Prod.mk.inj h
    exact .inl rfl
  · split at h
    · rw [checkpoint] at h
      split at h
      · obtain ⟨rfl, -⟩ := Prod.mk.inj h
        exact .inl rfl
      · exact hwrite h
    · exact hwrite h

/-- A poisoned store writes nothing. -/
theorem HistoryStore.appendSample_poisoned {store : HistoryStore ν} (h : store.poisoned = true) (file : Bytes)
    (call : SampleCall ν) :
    store.appendSample S file call.timestamp call.capacity call.state = (store, file, .error .poisoned) := by
  rw [appendSample, if_pos h]

/-! ## The steps keep the invariant

Each event keeps the invariant; an append that fails poisons the store, and of a poisoned store nothing is said. -/

/-- An append through the handle. -/
theorem Process.Sound.append (hS : S.Plain) {p : Process ν} (h : p.Sound S) {call : SampleCall ν}
    (hreads : S.ReadsBack call.state) (written : Option ℕ) : (p.append S call written).Sound S := by
  rw [Process.append]
  split
  · rename_i store line error hcall
    refine ⟨h.handle, ?_⟩
    intro hsound
    rcases HistoryStore.appendSample_error hcall with hsame | hpoisoned
    · subst hsame
      exact h.live hsound
    · rw [hpoisoned] at hsound
      cases hsound
  · rename_i store line hcall
    obtain ⟨-, htime, hstore, hline⟩ := HistoryStore.appendSample_ok hcall
    split
    · refine ⟨h.handle, ?_⟩
      intro hsound
      have hunpoisoned : p.store.poisoned = false := by
        rw [hstore] at hsound
        exact hsound
      obtain ⟨sc, hscanned, hsc⟩ := h.live hunpoisoned
      refine ⟨sc.next (p.store.recordOf call.timestamp call.capacity call.state), ?_, ?_⟩
      · have hread := hscanned.record (p.store.restores_recordOf hS hreads call.timestamp call.capacity)
        rw [hline, List.nil_append, h.handle]
        show Scanned S ((p.disk.append p.disk.canonical _).read p.disk.canonical) _
        rw [Disk.read_append_self p.disk.canonical_lt]
        exact hread
      · rcases hsc with hlive | hlost
        · rw [hstore]
          exact .inl (hlive.next htime).1
        · exact .inr (hlost.next (p.store.isBoot_recordOf _ _ _))
    · exact ⟨h.handle, fun hsound => nomatch hsound⟩

omit [DecidableEq ν] in
/-- **A compaction that commits**, in a store that no append poisoned: the state compared with stays, the
last timestamp does not grow, and the replacement is live. -/
theorem Process.Sound.replaced (hS : S.Plain) {p : Process ν} (h : p.Sound S)
    (hsound : p.store.poisoned = false) {days now cutoff : U64}
    (hcutoff : retentionCutoff days now = some cutoff) {replay replacement : Replay ν}
    (hvalid : validateCanonical S (p.disk.read p.disk.canonical) = .ok replay)
    (hgaps : replay.gaps.any (cutoff < ·.stop) = false) (hsome : p.store.lastState.isSome = true)
    (hencodable : ∀ r ∈ retainedCompactionRecords cutoff p.store.bootId true replay.records, r.Encodable)
    (hreplacement : validateCanonical S
      (fileOf S (retainedCompactionRecords cutoff p.store.bootId true replay.records)) = .ok replacement)
    (hrecords : replacement.records =
      retainedCompactionRecords cutoff p.store.bootId true replay.records) (temporary : ℕ) :
    (p.store.replaced temporary replacement).lastState = p.store.lastState ∧
      (∀ t, p.store.lastTimestamp.any (t < ·) = false →
        (p.store.replaced temporary replacement).lastTimestamp.any (t < ·) = false) ∧
      ∃ sc, Scanned S (fileOf S replacement.records) sc ∧
        Live sc (p.store.replaced temporary replacement).toHistoryStore := by
  obtain ⟨sc, hscanned, hsc⟩ := h.live hsound
  obtain rfl := hscanned.validate_eq hvalid
  -- a store whose epoch was lost has an open gap, and the compaction would have been deferred
  have hlive : Live sc p.store.toHistoryStore := by
    rcases hsc with hlive | hlost
    · exact hlive
    · rw [hlost.any_gap (retentionCutoff_lt hcutoff)] at hgaps
      cases hgaps
  obtain ⟨hstate, htime, -, sc', -, -, hscanned', -, hreading, hbound, hpending⟩ :=
    hlive.compacted hscanned hsome rfl (restores_of_validate hS hencodable hreplacement hrecords)
  rw [← hrecords] at hstate htime hscanned' hbound
  have hkept : (p.store.replaced temporary replacement).lastState = p.store.lastState := hstate
  refine ⟨hkept, htime, sc', hscanned', ⟨⟨?_, hbound⟩, ?_⟩⟩
  · show sc'.Reading p.store.bootId (p.store.replaced temporary replacement).lastState
    rw [hkept]
    exact hreading
  · show lastLiveState p.store.bootId sc'.pending = (p.store.replaced temporary replacement).lastState
    rw [hkept]
    exact hpending

/-- A compaction, by how it ends: committed, or with the store as it was. -/
theorem Process.Sound.compact (hS : S.Plain) {p : Process ν} (h : p.Sound S) {days now cutoff : U64}
    (hcutoff : retentionCutoff days now = some cutoff) (answers : Answers) {disk : Disk}
    {store : OpenStore ν} {result : Except CompactionError CompactionOutcome}
    (hcompact : p.store.compactInnerIfAuthorized S p.disk cutoff answers = (disk, store, result)) :
    (Process.mk disk store).Sound S := by
  rcases compactInnerIfAuthorized_cases S p.disk p.store cutoff answers with
    ⟨disk', result', heq, hdisk, -⟩ |
    ⟨replay, retained, replacement, outcome, hvalid, hgaps, hsome, rfl, hencodable, hreplacement, hrecords, -,
      heq⟩
  · obtain ⟨rfl, hsecond⟩ := Prod.mk.inj (hcompact.symm.trans heq)
    obtain ⟨rfl, -⟩ := Prod.mk.inj hsecond
    rcases hdisk with rfl | ⟨bytes, rfl⟩
    · exact h
    · refine ⟨h.handle, ?_⟩
      intro hsound
      obtain ⟨sc, hscanned, hsc⟩ := h.live hsound
      refine ⟨sc, ?_, hsc⟩
      show Scanned S ((p.disk.create bytes).read p.disk.canonical) sc
      rw [Disk.read_create]
      exact hscanned
  · obtain ⟨rfl, hsecond⟩ := Prod.mk.inj (hcompact.symm.trans heq)
    obtain ⟨rfl, -⟩ := Prod.mk.inj hsecond
    refine ⟨rfl, ?_⟩
    intro hsound
    obtain ⟨-, -, sc, hscanned, hlive⟩ :=
      h.replaced hS hsound hcutoff hvalid hgaps hsome hencodable hreplacement hrecords p.disk.files.length
    refine ⟨sc, ?_, .inl hlive⟩
    show Scanned S ((p.disk.replace _).read (p.disk.replace _).canonical) sc
    rw [Disk.read_replace, ← hrecords]
    exact hscanned

/-- **The invariant of every run** whose appended states are read back. -/
theorem sound_of_reachable (hS : S.Plain) (hL : S.Lexical) {p : Process ν}
    (hp : ((processSystem S).restrict fun _ e => e.ReadsBack S).Reachable p) : p.Sound S := by
  refine hp.invariant ?_ ?_
  · rintro p ⟨disk, t, capacity, bootId, store, file, hopen, rfl⟩
    exact ⟨rfl, fun _ => HistoryStore.open_scanned hS hL hopen⟩
  · rintro p e p' h ⟨hstep, hreads⟩
    cases e with
    | append call written =>
        obtain rfl : p.append S call written = p' := Option.some.inj hstep
        exact h.append hS hreads written
    | compact days now answers =>
        obtain ⟨cutoff, hcutoff, rfl⟩ := Option.map_eq_some_iff.mp hstep
        exact h.compact hS hcutoff answers rfl
    | takeReplay =>
        obtain rfl := Option.some.inj hstep
        refine ⟨h.handle, ?_⟩
        intro hsound
        obtain ⟨sc, hscanned, hlive | hlost⟩ := h.live hsound
        · exact ⟨sc, hscanned, .inl ⟨⟨hlive.reading, hlive.bound⟩, hlive.live⟩⟩
        · exact ⟨sc, hscanned, .inr hlost⟩

/-! ## Compaction is all or nothing

What the store does not touch when it fails, and what it has when it succeeds, holds of every disk and every store.
What it writes next is compared with a store that was not compacted. -/

/-- What the store writes next is what it would have written without the compaction. -/
theorem HistoryStore.appendSample_congr (hS : S.Plain) {store store' : HistoryStore ν}
    (hid : store'.bootId = store.bootId) (hpoisoned : store'.poisoned = store.poisoned)
    (hstate : store'.lastState = store.lastState)
    (htime : ∀ t, store.lastTimestamp.any (t < ·) = false → store'.lastTimestamp.any (t < ·) = false)
    (call : SampleCall ν) :
    store'.recordOf call.timestamp call.capacity call.state =
        store.recordOf call.timestamp call.capacity call.state ∧
      ∀ file after written,
        store.appendSample S file call.timestamp call.capacity call.state = (after, written, .ok ()) →
        ∀ file', store'.appendSample S file' call.timestamp call.capacity call.state =
          (store'.sampled call,
            file' ++ recordLine S (store.recordOf call.timestamp call.capacity call.state), .ok ()) := by
  have hrecord : store'.recordOf call.timestamp call.capacity call.state =
      store.recordOf call.timestamp call.capacity call.state := by
    rw [recordOf, recordOf, hid, hstate]
  refine ⟨hrecord, ?_⟩
  intro file after written hcall file'
  obtain ⟨hr, hold, -, -⟩ := appendSample_ok hcall
  have hsound : store'.poisoned = false := by
    rw [hpoisoned]
    cases hp : store.poisoned with
    | false => rfl
    | true =>
        rw [appendSample_poisoned hp] at hcall
        cases congrArg (·.2.2) hcall
  rw [← hrecord] at hr ⊢
  exact appendSample_eq hS hsound file' hr (htime _ hold)

omit [F64 ν] in
/-- The records written next are the same exactly if the state compared with is. -/
theorem HistoryStore.recordOf_congr_iff {store store' : HistoryStore ν} (hid : store'.bootId = store.bootId) :
    (∀ call : SampleCall ν, store'.recordOf call.timestamp call.capacity call.state =
        store.recordOf call.timestamp call.capacity call.state) ↔ store'.lastState = store.lastState := by
  constructor
  · intro hall
    have hsame : ∀ state, store'.lastState = some state ↔ store.lastState = some state := by
      intro state
      have hrecord := hall ⟨0, ⟨0, 0, []⟩, state⟩
      rw [recordOf, recordOf] at hrecord
      by_cases h : store.lastState = some state <;> by_cases h' : store'.lastState = some state <;>
        simp [h, h'] at hrecord ⊢
    exact Option.ext hsame
  · intro hstate call
    rw [recordOf, recordOf, hid, hstate]

/-- **Compaction is all or nothing.** For every store, file and cutoff, and whatever the file system and the
authorisation answer: a compaction that fails, is deferred or is superseded leaves the canonical file and the
whole store as they were; one that commits leaves exactly the file of the retained records, with the store
set from it.  The next samples are then written as the records they would have been without the compaction
exactly if the last sample of the live epoch, as the file is READ, has the state that the store compares with;
and a process that opened its store, appended states that are read back, and compacts with the cutoff of a
retention, does write them so. -/
theorem compaction_all_or_nothing (hS : S.Plain) (hL : S.Lexical) {disk disk' : Disk}
    {store store' : OpenStore ν} {cutoff : U64} {answers : Answers}
    {result : Except CompactionError CompactionOutcome}
    (hcompact : store.compactInnerIfAuthorized S disk cutoff answers = (disk', store', result)) :
    ((∀ outcome, result = .ok outcome → outcome.committed = false) →
      store' = store ∧ disk'.canonical = disk.canonical ∧
        disk'.read disk'.canonical = disk.read disk.canonical) ∧
    ∀ outcome, result = .ok outcome → outcome.committed = true →
      ∃ replay retained,
        validateCanonical S (disk.read disk.canonical) = .ok replay ∧
        retained = retainedCompactionRecords cutoff store.bootId store.lastState.isSome replay.records ∧
        (∀ r ∈ retained, r.Encodable) ∧ disk'.read disk'.canonical = fileOf S retained ∧
        store'.file = disk'.canonical ∧ store'.replay.records = retained ∧
        store'.lastTimestamp = retained.getLast?.map Record.timestamp ∧
        store'.lastState = lastLiveState store.bootId retained ∧
        ((∀ call : SampleCall ν, store'.recordOf call.timestamp call.capacity call.state =
            store.recordOf call.timestamp call.capacity call.state) ↔
          lastLiveState store.bootId replay.records = store.lastState) ∧
        ∀ days now, retentionCutoff days now = some cutoff →
          ((processSystem S).restrict fun _ e => e.ReadsBack S).Reachable ⟨disk, store⟩ →
          ∀ call : SampleCall ν,
            (∀ file after written, store'.appendSample S file call.timestamp call.capacity call.state =
                (after, written, .ok ()) →
              written = file ++ recordLine S (store.recordOf call.timestamp call.capacity call.state)) ∧
            ∀ file after written, store.appendSample S file call.timestamp call.capacity call.state =
                (after, written, .ok ()) →
              ∀ file', store'.appendSample S file' call.timestamp call.capacity call.state =
                (store'.sampled call,
                  file' ++ recordLine S (store.recordOf call.timestamp call.capacity call.state),
                  .ok ()) := by
  rcases compactInnerIfAuthorized_cases S disk store cutoff answers with
    ⟨disk₁, result₁, heq, hdisk, hnot⟩ |
    ⟨replay, retained, replacement, outcome₁, hvalid, hgaps, hsome, hretained, hencodable, hreplacement,
      hrecords, hcommitted, heq⟩
  · obtain ⟨rfl, hsecond⟩ := Prod.mk.inj (hcompact.symm.trans heq)
    obtain ⟨rfl, rfl⟩ := Prod.mk.inj hsecond
    refine ⟨fun _ => ⟨rfl, ?_⟩, ?_⟩
    · rcases hdisk with rfl | ⟨bytes, rfl⟩
      · exact ⟨rfl, rfl⟩
      · exact ⟨rfl, disk.read_create bytes⟩
    · intro outcome hresult hcommitted
      rw [hnot outcome hresult] at hcommitted
      cases hcommitted
  · obtain ⟨rfl, hsecond⟩ := Prod.mk.inj (hcompact.symm.trans heq)
    obtain ⟨rfl, rfl⟩ := Prod.mk.inj hsecond
    refine ⟨?_, ?_⟩
    · intro hnot
      rw [hnot outcome₁ rfl] at hcommitted
      cases hcommitted
    intro _ _ _
    have hid : (store.replaced disk.files.length replacement).bootId = store.bootId := rfl
    have hlast : (store.replaced disk.files.length replacement).lastState =
        lastLiveState store.bootId retained := by
      rw [← hrecords]
      rfl
    refine ⟨replay, retained, hvalid, by rw [hsome]; exact hretained, hencodable, disk.read_replace _, rfl,
      hrecords, by rw [← hrecords]; rfl, hlast, ?_, ?_⟩
    · obtain ⟨⟨epochs, hepochs⟩, -, -⟩ := validateCanonical_epochs hvalid
      rw [HistoryStore.recordOf_congr_iff hid, hlast, hretained, hepochs, lastLiveState_retained]
    intro days now hcutoff hreachable call
    have hsound := sound_of_reachable hS hL hreachable
    cases hpoisoned : store.poisoned with
    | true =>
        -- nothing is written with or without the compaction
        have hpoisoned' : (store.replaced disk.files.length replacement).poisoned = true := hpoisoned
        refine ⟨?_, ?_⟩
        · intro file after written hcall
          rw [HistoryStore.appendSample_poisoned hpoisoned'] at hcall
          cases congrArg (·.2.2) hcall
        · intro file after written hcall
          rw [HistoryStore.appendSample_poisoned hpoisoned] at hcall
          cases congrArg (·.2.2) hcall
    | false =>
        subst hretained
        obtain ⟨hstate, htime, -⟩ := hsound.replaced hS hpoisoned hcutoff hvalid hgaps hsome hencodable
          hreplacement hrecords disk.files.length
        have hkept : (store.replaced disk.files.length replacement).poisoned = store.poisoned := rfl
        obtain ⟨hrecord, hnext⟩ := HistoryStore.appendSample_congr hS hid hkept hstate htime call
        refine ⟨?_, hnext⟩
        intro file after written hcall
        obtain ⟨-, -, -, hwritten⟩ := HistoryStore.appendSample_ok hcall
        rw [hwritten, hrecord]

end Process

/-! ## A process that compacts

The two examples.  In the first a checkpoint is dropped and the next one refers to the sample that was kept; in the
second the sample that is kept is read back with another value. -/

section Runs

variable [F64 ν] [DecidableEq ν] {S : Serde ν}

/-- A sample that is written whole. -/
theorem Process.append_eq (hS : S.Plain) {p : Process ν} (hsound : p.store.poisoned = false)
    {call : SampleCall ν} (hstate : StateOk [] call.state)
    (htime : p.store.lastTimestamp.any (call.timestamp < ·) = false) :
    p.append S call none =
      ⟨p.disk.append p.store.file (recordLine S (p.store.recordOf call.timestamp call.capacity call.state)),
        { p.store.sampled call with file := p.store.file }⟩ := by
  have hcall := HistoryStore.appendSample_eq hS hsound []
    (p.store.encodable_recordOf hstate call.timestamp call.capacity) htime
  rw [Process.append, hcall]
  rfl

omit [DecidableEq ν] in
/-- A writer that is not stopped writes the file of its records. -/
theorem writeRecords_of_encodable (hS : S.Plain) {rs : List (Record ν)} (h : ∀ r ∈ rs, r.Encodable) :
    writeRecords S none rs = (fileOf S rs, .ok ()) := by
  induction rs with
  | nil => rfl
  | cons r rest ih =>
      obtain ⟨line, hencode, -⟩ := line_of_encodable hS (h r List.mem_cons_self)
      have hrest := ih fun r' hr' => h r' (List.mem_cons_of_mem _ hr')
      simp [writeRecords, hencode, hrest, fileOf, recordLine]

/-- **A compaction that nothing stops.** -/
theorem compactInnerIfAuthorized_durable (hS : S.Plain) {disk : Disk} {store : OpenStore ν} {cutoff : U64}
    {replay replacement : Replay ν} (hvalid : validateCanonical S (disk.read disk.canonical) = .ok replay)
    (hgaps : replay.gaps.any (cutoff < ·.stop) = false) (hsome : store.lastState.isSome = true)
    {retained : List (Record ν)}
    (hretained : retained = retainedCompactionRecords cutoff store.bootId true replay.records)
    (hencodable : ∀ r ∈ retained, r.Encodable)
    (hreplacement : validateCanonical S (fileOf S retained) = .ok replacement)
    (hrecords : replacement.records = retained) (hnone : replacement.gaps = [])
    (hseparator : replacement.needsSeparator = false) (hepochs : replacement.diagnostics.excludedEpochs = 0)
    (hexcluded : replacement.diagnostics.excludedRecords = 0) :
    store.compactInnerIfAuthorized S disk cutoff {} =
      (disk.replace (fileOf S retained), store.replaced disk.files.length replacement, .ok .durable) := by
  have hprepared : prepareReplacement S retained {} = (fileOf S retained, .ok (some replacement)) := by
    simp [prepareReplacement, writeRecords_of_encodable hS hencodable, hreplacement, hrecords, hnone,
      hseparator, hepochs, hexcluded]
  have hlive : store.lastState.isNone = false := by
    cases hlast : store.lastState with
    | none => simp [hlast] at hsome
    | some state => rfl
  rw [OpenStore.compactInnerIfAuthorized, if_neg (by simp), hvalid]
  dsimp only
  rw [if_neg (by simp [hgaps, hlive]), if_neg (by simp), hsome, ← hretained, hprepared]
  rfl

end Runs

/-- A process that opens an empty directory and writes a sample and a checkpoint. -/
theorem reachable_checkpointed {S : Serde ℚ} (hS : S.Plain) :
    ∃ store : OpenStore ℚ, store.bootId = "a" ∧ store.lastState = some [] ∧
      ((processSystem S).restrict fun _ e => e.ReadsBack S).Reachable ⟨.single (fileOf S (crashedRecords ++ [tornRecord])), store⟩ := by
  let capacity : Capacity := ⟨40, 1, [40]⟩
  let boot : Record ℚ := .boot ⟨10, "a", capacity⟩
  let opened : HistoryStore ℚ := { bootId := "a", replay := { records := [boot] }, lastTimestamp := some 10 }
  have hopen : HistoryStore.open S none 10 capacity "a" = .ok (opened, recordLine S boot) := by
    have hwrite := appendRecord_of_encodable hS [] (r := boot) True.intro
    simp only [HistoryStore.open]
    rw [hwrite]
    rfl
  let first : SampleCall ℚ := ⟨20, capacity, []⟩
  let second : SampleCall ℚ := ⟨30, capacity, []⟩
  let sample : Record ℚ := .sample ⟨20, "a", capacity, []⟩
  let p₀ : Process ℚ := ⟨.single (recordLine S boot), { opened with file := 0 }⟩
  let p₁ : Process ℚ := ⟨.single (recordLine S boot ++ recordLine S sample),
    { opened.sampled first with file := 0 }⟩
  let p₂ : Process ℚ := ⟨.single (recordLine S boot ++ recordLine S sample ++ recordLine S tornRecord),
    { (opened.sampled first).sampled second with file := 0 }⟩
  have hfirst : p₀.append S first none = p₁ := Process.append_eq hS rfl (stateOk_nil []) rfl
  have hsecond : p₁.append S second none = p₂ := Process.append_eq hS rfl (stateOk_nil []) rfl
  have hrun : ((processSystem S).restrict fun _ e => e.ReadsBack S).Run p₀
      [.append first none, .append second none] p₂ :=
    .cons ⟨congrArg some hfirst, hS.readsBack_nil⟩ (.single ⟨congrArg some hsecond, hS.readsBack_nil⟩)
  have hfile : fileOf S (crashedRecords ++ [tornRecord]) =
      recordLine S boot ++ recordLine S sample ++ recordLine S tornRecord := by
    simp [fileOf, crashedRecords, boot, sample, capacity]
  have hinit : (processSystem S).init p₀ := ⟨none, 10, capacity, "a", opened, _, hopen, rfl⟩
  refine ⟨p₂.store, rfl, rfl, ?_⟩
  simp only [hfile]
  exact ⟨p₀, _, hinit, hrun⟩

/-- The checkpoint is before the cutoff and is dropped; the sample it repeats is kept, and the next sample is
written as without the compaction. -/
theorem compaction_all_or_nothing_checkpoint :
    ∃ disk disk' : Disk, ∃ store store' : OpenStore ℚ,
      ((processSystem json).restrict fun _ e => e.ReadsBack json).Reachable ⟨disk, store⟩ ∧ retentionCutoff 1 86440 = some 40 ∧
      disk.read disk.canonical = fileOf json (crashedRecords ++ [tornRecord]) ∧
      store.compactInnerIfAuthorized json disk 40 {} = (disk', store', .ok .durable) ∧
      disk'.read disk'.canonical = fileOf json crashedRecords ∧ store'.lastTimestamp = some 20 ∧
      store'.lastState = some [] ∧
      ∀ call : SampleCall ℚ, ∀ file after written,
        store'.appendSample json file call.timestamp call.capacity call.state = (after, written, .ok ()) →
        written = file ++ recordLine json (store.recordOf call.timestamp call.capacity call.state) := by
  -- the process: boot, sample and a checkpoint, which the cutoff expires
  obtain ⟨store, hid, hlast, hreachable⟩ := reachable_checkpointed json_faithful.plain
  let rs : List (Record ℚ) := crashedRecords ++ [tornRecord]
  have hrs : ∀ r ∈ rs, json.Restores r := restores_tornRecords json_faithful.plain
  have hkept := restores_crashedRecords json_faithful.plain
  let disk : Disk := .single (fileOf json rs)
  have hvalid : validateCanonical json (disk.read disk.canonical) =
      .ok (rs.foldl Scan.next {}).closeEpoch := validateCanonical_fileOf (by simp [rs]) hrs
  have hreplacement := validateCanonical_fileOf (by simp [crashedRecords] : crashedRecords ≠ []) hkept
  have hretained : crashedRecords = retainedCompactionRecords 40 store.bootId true
      (rs.foldl Scan.next {}).closeEpoch.records := by
    rw [hid]
    decide +kernel
  have hcompact := compactInnerIfAuthorized_durable json_faithful.plain hvalid (by decide)
    (by rw [hlast]; rfl) hretained (fun r hr => (hkept r hr).encodable) hreplacement (by decide) (by decide) (by decide) (by decide) (by decide)
  -- the theorem, at this compaction
  obtain ⟨-, hcommitted⟩ := compaction_all_or_nothing json_faithful.plain json_lexical hcompact
  obtain ⟨replay, retained, hreplay, hsame, -, hfile, -, -, htime, hstate, -, hnext⟩ := hcommitted _ rfl rfl
  obtain rfl : replay = (rs.foldl Scan.next {}).closeEpoch :=
    Except.ok.inj (hreplay.symm.trans hvalid)
  obtain rfl : retained = crashedRecords := by
    rw [hsame, hlast]
    exact hretained.symm
  rw [hid] at hstate
  exact ⟨disk, _, store, _, hreachable, by decide, rfl, hcompact, hfile, htime, hstate,
    fun call => (hnext 1 86440 (by decide) hreachable call).1⟩

/-- A gauge of seventeen digits. -/
def longGauge : StateEntry ℚ := ⟨.gauge, "g", ∅, seventeenDigits⟩

/-- The records of a process that opened an empty directory and wrote the gauge. -/
def longGaugeRecords : List (Record ℚ) :=
  [.boot ⟨10, "a", ⟨40, 1, [40]⟩⟩, .sample ⟨20, "a", ⟨40, 1, [40]⟩, [longGauge]⟩]

theorem encodable_longGaugeRecords : ∀ r ∈ longGaugeRecords, r.Encodable := by
  intro r hr
  simp only [longGaugeRecords, List.mem_cons, List.not_mem_nil, or_false] at hr
  rcases hr with rfl | rfl
  · trivial
  · exact ⟨fun _ _ => rfl, by simp, by simp⟩

/-- The process. -/
def longGaugeProcess : Process ℚ where
  disk := .single (fileOf rereadingJson longGaugeRecords)
  store :=
    { bootId := "a"
      replay := { records := [.boot ⟨10, "a", ⟨40, 1, [40]⟩⟩] }
      lastTimestamp := some 20
      lastState := some [longGauge]
      file := 0 }

/-- It is a process of the system: an open, and an append. -/
theorem reachable_longGaugeProcess : (processSystem rereadingJson).Reachable longGaugeProcess := by
  let capacity : Capacity := ⟨40, 1, [40]⟩
  let boot : Record ℚ := .boot ⟨10, "a", capacity⟩
  let opened : HistoryStore ℚ := { bootId := "a", replay := { records := [boot] }, lastTimestamp := some 10 }
  have hopen : HistoryStore.open rereadingJson none 10 capacity "a" =
      .ok (opened, recordLine rereadingJson boot) := by
    have hwrite := appendRecord_of_encodable rereadingJson_plain [] (r := boot) True.intro
    simp only [HistoryStore.open]
    rw [hwrite]
    rfl
  let call : SampleCall ℚ := ⟨20, capacity, [longGauge]⟩
  let p₀ : Process ℚ := ⟨.single (recordLine rereadingJson boot), { opened with file := 0 }⟩
  have hstate : StateOk [] call.state := ⟨fun _ _ => rfl, by simp [call], by simp⟩
  have happend : p₀.append rereadingJson call none = longGaugeProcess := by
    have hfile : fileOf rereadingJson longGaugeRecords = recordLine rereadingJson boot ++
        recordLine rereadingJson (.sample ⟨20, "a", capacity, [longGauge]⟩) := by
      simp [longGaugeRecords, fileOf, boot, capacity]
    rw [Process.append_eq rereadingJson_plain rfl hstate rfl, longGaugeProcess, hfile]
    rfl
  have hinit : (processSystem rereadingJson).init p₀ := ⟨none, 10, capacity, "a", opened, _, hopen, rfl⟩
  have hrun : (processSystem rereadingJson).Run p₀ [.append call none] longGaugeProcess :=
    .single (congrArg some happend)
  exact ⟨p₀, _, hinit, hrun⟩

/-- As they are read, the sample has sixteen digits; and these can be read back. -/
theorem restores_reread_longGaugeRecords : ∀ r ∈ longGaugeRecords.map Record.reread, rereadingJson.Restores r := by
  intro r' hr'
  obtain ⟨r, hr, rfl⟩ := List.mem_map.mp hr'
  refine restores_of_reread_eq (encodable_reread (encodable_longGaugeRecords r hr)) ?_
  simp only [longGaugeRecords, List.mem_cons, List.not_mem_nil, or_false] at hr
  rcases hr with rfl | rfl
  · rfl
  · decide +kernel

/-- **A compaction changes the next record.** The compaction keeps every record, but sets the state from the
replacement as it reads it, with sixteen digits: the unchanged gauge, a checkpoint before, is written as a
sample. -/
theorem compaction_writes_sample :
    ∃ (disk disk' : Disk) (store store' : OpenStore ℚ),
      (processSystem rereadingJson).Reachable ⟨disk, store⟩ ∧ retentionCutoff 1 86410 = some 10 ∧
      store.compactInnerIfAuthorized rereadingJson disk 10 {} = (disk', store', .ok .durable) ∧
      store.recordOf 30 ⟨40, 1, [40]⟩ [longGauge] = .checkpoint ⟨30, "a", ⟨40, 1, [40]⟩⟩ ∧
      store'.recordOf 30 ⟨40, 1, [40]⟩ [longGauge] = .sample ⟨30, "a", ⟨40, 1, [40]⟩, [longGauge]⟩ := by
  let rs : List (Record ℚ) := longGaugeRecords.map Record.reread
  have hvalid : validateCanonical rereadingJson (longGaugeProcess.disk.read longGaugeProcess.disk.canonical) =
      .ok (rs.foldl Scan.next {}).closeEpoch :=
    validateCanonical_rereadingJson (by simp [longGaugeRecords]) encodable_longGaugeRecords
  have hreplacement : validateCanonical rereadingJson (fileOf rereadingJson rs) =
      .ok (rs.foldl Scan.next {}).closeEpoch :=
    validateCanonical_fileOf (by simp [rs, longGaugeRecords]) restores_reread_longGaugeRecords
  have hretained : rs = retainedCompactionRecords 10 longGaugeProcess.store.bootId true
      (rs.foldl Scan.next {}).closeEpoch.records := by decide +kernel
  have hcompact := compactInnerIfAuthorized_durable rereadingJson_plain hvalid (by decide +kernel) rfl hretained
    (fun r hr => (restores_reread_longGaugeRecords r hr).encodable) hreplacement (by decide +kernel)
    (by decide +kernel) (by decide +kernel) (by decide +kernel) (by decide +kernel)
  have hlast : lastLiveState "a" (rs.foldl Scan.next {}).closeEpoch.records = some [longGauge.reread] := by
    decide +kernel
  refine ⟨_, _, _, _, reachable_longGaugeProcess, by decide, hcompact, if_pos rfl, if_neg ?_⟩
  rw [OpenStore.replaced]
  exact fun hsame => absurd (hlast.symm.trans hsame) (by decide +kernel)

end Flock.History
