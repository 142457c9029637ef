/-
# Flock.History.Filled — writing an unchanged state as a checkpoint loses nothing.

A call of `append_sample` whose state is that of the call before is written as a bare checkpoint, and
`enrich_canonical_replay` fills the state in again.  Here the two are put together over a whole process:
calls that succeed, and compactions between them, with the log of the calls beside the store.

The invariant is about the epoch the scanner is reading.  Filled, its records are some of the calls, in
order, and all of those that no compaction expired; what the next checkpoint is filled with is what the
store compares the next state with.  A compaction keeps both, because the last sample before the cutoff
stays as the baseline.

Two starts are different.  A file may end in white space that JSON does not skip; `open` writes no separator
then, the boot line cannot be read, and the records of the process are orphans.  And it may end in a record
of a later time that only `RawRecord` reads; the next scan takes it for a line, and the boot is behind it.
Either way the epoch is lost.  The states themselves come back as `serde_json` reads them.
-/
import Flock.History.LiveStore

namespace Flock.History

open Lib (System)

variable {ν : Type}

/-! ## Filling checkpoints

To fill a list is to go through it with the last state seen.  A checkpoint of another boot, or one that no sample went
before, is filled to nothing. -/

/-- The sample a record stands for: a checkpoint has the state of the last sample of its boot. -/
def Fill.entry (f : Fill ν) : Record ν → Option (SampleRecord ν)
  | .boot _ => none
  | .sample s => some s
  | .checkpoint c =>
      if f.boot = some c.bootId then
        f.state.map fun state => ⟨c.timestamp, c.bootId, c.capacity, state⟩
      else none

/-- A list of records, with its checkpoints filled. -/
def filled (f : Fill ν) : List (Record ν) → List (SampleRecord ν)
  | [] => []
  | r :: rest => (f.entry r).toList ++ filled (f.next r) rest

/-- What the index takes in for a sample. -/
def SampleRecord.observation (s : SampleRecord ν) : Observation ν :=
  ⟨s.timestamp, s.bootId, s.capacity, parsedCanonicalState s.state⟩

/-- The observations of a replay are its filled records. -/
theorem observations_eq_filled (rs : List (Record ν)) :
    ∀ f : Fill ν, observations f rs = (filled f rs).map SampleRecord.observation := by
  induction rs with
  | nil =>
      intro f
      rfl
  | cons r rest ih =>
      intro f
      have hfirst : (f.observe r).toList = (f.entry r).toList.map SampleRecord.observation := by
        cases r with
        | boot b => rfl
        | sample s => rfl
        | checkpoint c =>
            simp only [Fill.observe, Fill.entry]
            split
            · cases f.state <;> rfl
            · rfl
      rw [observations, filled, List.map_append, hfirst, ih]

/-- The second part is filled with what the first part left. -/
theorem filled_append (f : Fill ν) (xs ys : List (Record ν)) :
    filled f (xs ++ ys) = filled f xs ++ filled (xs.foldl Fill.next f) ys := by
  induction xs generalizing f with
  | nil => rfl
  | cons r rest ih => rw [List.cons_append, filled, ih, filled, List.foldl_cons, List.append_assoc]

/-- A boot starts afresh. -/
theorem filled_boot (f : Fill ν) (b : BootRecord) (rs : List (Record ν)) :
    filled f (.boot b :: rs) = filled ⟨some b.bootId, none⟩ rs := rfl

/-- What a record is filled to has its time. -/
theorem exists_record_of_mem_filled {rs : List (Record ν)} :
    ∀ {f : Fill ν} {s : SampleRecord ν}, s ∈ filled f rs → ∃ r ∈ rs, s.timestamp = r.timestamp := by
  intro f s hs
  have hobs : s.observation ∈ observations f rs := by
    rw [observations_eq_filled]
    exact List.mem_map_of_mem hs
  obtain ⟨r, hr, htime, -⟩ := exists_record_of_mem_observations hobs
  exact ⟨r, hr, htime⟩

theorem mem_filled_of_sample {rs : List (Record ν)} {s : SampleRecord ν} (h : .sample s ∈ rs) :
    ∀ f : Fill ν, s ∈ filled f rs := by
  induction rs with
  | nil => cases h
  | cons r rest ih =>
      intro f
      rw [filled, List.mem_append]
      rcases List.mem_cons.mp h with rfl | hrest
      · exact .inl (by simp [Fill.entry])
      · exact .inr (ih hrest _)

section Written

variable [DecidableEq ν]

/-- **The record of a call** is filled to the call. -/
theorem entry_recordOf {store : HistoryStore ν} {f : Fill ν} (hboot : f.boot = some store.bootId)
    (hstate : f.state = store.lastState) (t : U64) (capacity : Capacity) (state : List (StateEntry ν)) :
    f.entry (store.recordOf t capacity state) = some ⟨t, store.bootId, capacity, state⟩ := by
  rw [HistoryStore.recordOf]
  split
  · rename_i hsame
    simp [Fill.entry, hboot, hstate, hsame]
  · rfl

end Written

/-! ## A compaction of an epoch

The records before the cutoff go, and the last sample among them stays.  A checkpoint behind the cutoff is filled from
that sample then, with the same state. -/

namespace WellFormedEpoch

variable (e : WellFormedEpoch ν) (c : U64)

/-- The baseline carries on what the expired records did. -/
theorem foldl_next_kept (f : Fill ν) :
    (e.kept c).records.foldl Fill.next f = e.records.foldl Fill.next f := by
  have hexpired : ∀ r ∈ e.expired c, r.isBoot = false := by
    intro r hr
    refine e.isBoot_body r ?_
    rw [e.body_eq c]
    exact List.mem_append_left _ hr
  simp only [records, List.foldl_cons, boot_kept, body_kept]
  rw [e.body_eq c, List.foldl_append, List.foldl_append,
    foldl_next_expired _ (e.expired c) (e.expired_lt c) hexpired]

/-- **The filled epoch**: what expired, and what did not. A compaction keeps the second part, and of the
first the baseline. -/
theorem filled_kept :
    ∃ old new, filled {} e.records = old ++ new ∧ (∀ s ∈ old, s.timestamp < c) ∧
      ∃ baseline, baseline.Sublist old ∧ filled {} (e.kept c).records = baseline ++ new := by
  let f : Fill ν := ⟨some e.boot.bootId, none⟩
  have hexpired : ∀ r ∈ e.expired c, r.isBoot = false := by
    intro r hr
    refine e.isBoot_body r ?_
    rw [e.body_eq c]
    exact List.mem_append_left _ hr
  have hcarry : (lastBaseline c (e.expired c)).toList.foldl Fill.next f = (e.expired c).foldl Fill.next f :=
    (foldl_next_expired f (e.expired c) (e.expired_lt c) hexpired).symm
  refine ⟨filled f (e.expired c), filled ((e.expired c).foldl Fill.next f) (e.current c), ?_, ?_,
    filled f (lastBaseline c (e.expired c)).toList, ?_, ?_⟩
  · rw [records, filled_boot, e.body_eq c, filled_append]
  · intro s hs
    obtain ⟨r, hr, htime⟩ := exists_record_of_mem_filled hs
    rw [htime]
    exact e.expired_lt c r hr
  · cases hlast : lastBaseline c (e.expired c) with
    | none => exact List.nil_sublist _
    | some r =>
        obtain ⟨s, rfl⟩ := e.lastBaseline_eq_some c hlast
        exact List.singleton_sublist.mpr (mem_filled_of_sample (lastBaseline_mem hlast) f)
  · rw [records, filled_boot, boot_kept, body_kept, filled_append, hcarry]

end WellFormedEpoch

/-! ## A process and the log of its calls

The log is a ghost: it has every call, and next to them those that no compaction has expired. -/

/-- The arguments of a call, as the sample they describe. -/
def SampleCall.entry (bootId : String) (call : SampleCall ν) : SampleRecord ν :=
  ⟨call.timestamp, bootId, call.capacity, call.state⟩

/-- A process, the calls of `append_sample` it made, and those that no compaction expired. -/
structure Logged (ν : Type) where
  process : Process ν
  calls : List (SampleCall ν) := []
  kept : List (SampleCall ν) := []

/-- A call of the store. -/
inductive StoreCall (ν : Type) where
  | appendSample (call : SampleCall ν)
  | compact (cutoff : U64) (answers : Answers)
  | takeReplay

/-- A call whose state, should it be written as a sample, is read back to the last digit. -/
def StoreCall.ReadsBack [F64 ν] (S : Serde ν) : StoreCall ν → Prop
  | .appendSample call => S.ReadsBack call.state
  | .compact _ _ => True
  | .takeReplay => True

/-- The compaction put its replacement in place. -/
def committed : Except CompactionError CompactionOutcome → Bool
  | .ok outcome => outcome.committed
  | .error _ => false

section Logged

variable [F64 ν] [DecidableEq ν]

/-- One call; a call of `append_sample` that returns an error is no step. -/
def Logged.step (S : Serde ν) (l : Logged ν) : StoreCall ν → Option (Logged ν)
  | .appendSample call =>
      match l.process.store.appendSample S [] call.timestamp call.capacity call.state with
      | (_, _, .ok ()) => some ⟨l.process.append S call none, l.calls ++ [call], l.kept ++ [call]⟩
      | (_, _, .error _) => none
  | .compact cutoff answers =>
      let (disk, store, result) := l.process.store.compactInnerIfAuthorized S l.process.disk cutoff answers
      some ⟨⟨disk, store⟩, l.calls,
        if committed result then l.kept.filter fun call => cutoff ≤ call.timestamp else l.kept⟩
  | .takeReplay =>
      some { l with process := { l.process with store := { l.process.store with replay := {} } } }

/-- A process that opened this file with this boot, and has made no call yet. -/
def Logged.Starts (S : Serde ν) (disk : Option Bytes) (boot : BootRecord) (l : Logged ν) : Prop :=
  ∃ store file, HistoryStore.open S disk boot.timestamp boot.capacity boot.bootId = .ok (store, file) ∧
    l = { process := ⟨.single file, { store with file := 0 }⟩ }

/-- **One process**, from a successful `open` on, as long as its calls of `append_sample` succeed. -/
def loggedSystem (S : Serde ν) : System (Logged ν) (StoreCall ν) :=
  .ofStep (fun l => ∃ disk boot, l.Starts S disk boot) (Logged.step S)

/-- The scan of the process's file: it reads the live epoch, whose records, filled, are the calls that were
not expired and perhaps some that were. -/
structure Logged.Filled (S : Serde ν) (bootId : String) (l : Logged ν) (sc : Scan ν) : Prop where
  scanned : Scanned S (l.process.disk.read l.process.disk.canonical) sc
  met : sc.sawNonblank = true
  live : Live sc l.process.store.toHistoryStore
  boot : ∃ boot rest, sc.pending = .boot boot :: rest
  fill : sc.pending.foldl Fill.next {} = ⟨some bootId, l.process.store.lastState⟩
  kept : (l.kept.map (SampleCall.entry bootId)).Sublist (filled {} sc.pending)
  calls : (filled {} sc.pending).Sublist (l.calls.map (SampleCall.entry bootId))

/-- **The invariant.** -/
structure Logged.Sound (S : Serde ν) (bootId : String) (l : Logged ν) : Prop where
  handle : l.process.store.file = l.process.disk.canonical
  id : l.process.store.bootId = bootId
  scan : ∃ sc, l.Filled S bootId sc

variable {S : Serde ν}

/-- A call that succeeds adds its record to the epoch, and itself to the log. -/
theorem Logged.Sound.appendSample (hS : S.Plain) {bootId : String} {l l' : Logged ν}
    (h : l.Sound S bootId) {call : SampleCall ν} (hreads : S.ReadsBack call.state)
    (hstep : l.step S (.appendSample call) = some l') :
    l'.Sound S bootId := by
  rw [Logged.step] at hstep
  split at hstep
  · rename_i store line hcall
    obtain rfl := Option.some.inj hstep
    -- the call wrote one record, of the live epoch
    obtain ⟨sc, hfilled⟩ := h.scan
    obtain ⟨-, htime, hstore, hline⟩ := HistoryStore.appendSample_ok hcall
    let r := l.process.store.recordOf call.timestamp call.capacity call.state
    have happend : l.process.append S call none =
        ⟨l.process.disk.append l.process.store.file line, { store with file := l.process.store.file }⟩ := by
      rw [Process.append, hcall]
    obtain ⟨hlive, hpending⟩ := hfilled.live.next htime
    -- filled, it is the call
    have hentry := entry_recordOf (f := sc.pending.foldl Fill.next {}) (by rw [hfilled.fill, h.id])
      (by rw [hfilled.fill]) call.timestamp call.capacity call.state
    have hnext : filled {} (sc.next r).pending = filled {} sc.pending ++ [call.entry bootId] := by
      rw [hpending, filled_append, ← h.id]
      simp [filled, hentry, SampleCall.entry]
    -- and what the next checkpoint is filled with is the state of the call
    obtain ⟨-, hcarry⟩ := observe_recordOf (f := sc.pending.foldl Fill.next {})
      (by rw [hfilled.fill, h.id]) (by rw [hfilled.fill]) call.timestamp call.capacity call.state
    simp only [happend]
    refine ⟨h.handle, by simp only [hstore]; exact h.id, sc.next r, ?_⟩
    exact {
      scanned := by
        have hread := hfilled.scanned.record
          (l.process.store.restores_recordOf hS hreads call.timestamp call.capacity)
        simp only [hline, List.nil_append, h.handle]
        show Scanned S ((l.process.disk.append l.process.disk.canonical _).read l.process.disk.canonical) _
        rw [Disk.read_append_self l.process.disk.canonical_lt]
        exact hread
      met := Scan.sawNonblank_scanRecord _ _
      live := by
        simp only [hstore]
        exact hlive
      boot := by
        obtain ⟨boot, rest, hboot⟩ := hfilled.boot
        exact ⟨boot, rest ++ [r], by rw [hpending, hboot]; rfl⟩
      fill := by
        rw [hpending, List.foldl_append, ← h.id]
        simp only [hstore]
        exact hcarry
      kept := by
        rw [hnext, List.map_append]
        exact hfilled.kept.append (List.Sublist.refl _)
      calls := by
        rw [hnext, List.map_append]
        exact hfilled.calls.append (List.Sublist.refl _) }
  · cases hstep

/-- A compaction leaves the file as it is, or keeps of the epoch what its cutoff asks for. -/
theorem Logged.Sound.compact (hS : S.Plain) {bootId : String} {l l' : Logged ν} (h : l.Sound S bootId)
    {cutoff : U64} {answers : Answers} (hstep : l.step S (.compact cutoff answers) = some l') :
    l'.Sound S bootId := by
  obtain ⟨sc, hfilled⟩ := h.scan
  rcases compactInnerIfAuthorized_cases S l.process.disk l.process.store cutoff answers with
    ⟨disk', result, heq, hdisk, hnot⟩ |
    ⟨replay, retained, replacement, outcome, hvalid, -, hsome, hretained, hencodable, hreplacement, hrecords,
      hcommitted, heq⟩
  · have huncommitted : committed result = false := by
      cases result with
      | error error => rfl
      | ok outcome => exact hnot outcome rfl
    simp only [Logged.step, heq, huncommitted, Option.some.injEq] at hstep
    subst hstep
    rcases hdisk with rfl | ⟨bytes, rfl⟩
    · exact ⟨h.handle, h.id, sc, hfilled⟩
    · refine ⟨h.handle, h.id, sc, ?_⟩
      have hread : (l.process.disk.create bytes).read l.process.disk.canonical =
          l.process.disk.read l.process.disk.canonical := Disk.read_create _ _
      exact ⟨hread ▸ hfilled.scanned, hfilled.met, hfilled.live, hfilled.boot, hfilled.fill, hfilled.kept,
        hfilled.calls⟩
  · obtain rfl := hfilled.scanned.validate_eq hvalid
    have hcommitted' : committed (.ok outcome) = true := hcommitted
    simp only [Logged.step, heq, hcommitted', if_true, Option.some.injEq] at hstep
    subst hstep
    obtain ⟨hstate, -, w, sc', hpending, hkept, hscanned, hmet, hreading, hbound, hlive⟩ :=
      hfilled.live.compacted hfilled.scanned hsome hretained
        (restores_of_validate hS hencodable hreplacement hrecords)
    have hlast : (l.process.store.replaced l.process.disk.files.length replacement).lastState =
        l.process.store.lastState := by
      rw [← hstate, ← hrecords]
      rfl
    obtain ⟨old, new, hwhole, hold, baseline, hbaseline, hleft⟩ := w.filled_kept cutoff
    rw [← hpending] at hwhole
    rw [← hkept] at hleft
    refine ⟨rfl, h.id, sc', ?_⟩
    exact {
      scanned := by
        show Scanned S ((l.process.disk.replace _).read (l.process.disk.replace _).canonical) sc'
        rw [Disk.read_replace]
        exact hscanned
      met := hmet
      live := by
        refine ⟨⟨?_, ?_⟩, ?_⟩
        · simp only [hlast]
          exact hreading
        · simp only [OpenStore.replaced, hrecords]
          exact hbound
        · simp only [hlast]
          exact hlive
      boot := ⟨w.boot, (w.kept cutoff).body, by rw [hkept, WellFormedEpoch.records, WellFormedEpoch.boot_kept]⟩
      fill := by
        simp only [hlast]
        rw [hkept, w.foldl_next_kept cutoff, ← hpending]
        exact hfilled.fill
      kept := by
        -- of the calls that were kept so far, those from the cutoff on are among the new entries
        have hfilter := hfilled.kept.filter fun s => decide (cutoff ≤ s.timestamp)
        have hnone : old.filter (fun s => decide (cutoff ≤ s.timestamp)) = [] := by
          rw [List.filter_eq_nil_iff]
          intro s hs
          simpa using hold s hs
        rw [hwhole, List.filter_append, hnone, List.nil_append, List.filter_map] at hfilter
        rw [hleft]
        exact (hfilter.trans List.filter_sublist).trans (List.sublist_append_right baseline new)
      calls := by
        rw [hleft]
        refine List.Sublist.trans ?_ hfilled.calls
        rw [hwhole]
        exact hbaseline.append (List.Sublist.refl new) }

omit [DecidableEq ν] in
/-- A start whose boot can be read. -/
theorem Logged.Starts.sound (hS : S.Plain) (hL : S.Lexical) {disk : Option Bytes} {boot : BootRecord}
    {l : Logged ν} (h : l.Starts S disk boot) (hreadable : BootReadable S disk boot) :
    l.Sound S boot.bootId := by
  obtain ⟨store, file, hopen, rfl⟩ := h
  obtain ⟨hid, hstate, htime, ⟨sc, hbound, hscanned⟩ | ⟨-, hnot⟩⟩ := HistoryStore.open_boot hS hL hopen
  · have hlive := live_boot hbound boot.capacity hstate htime
    rw [hid] at hlive
    have hpending : (sc.next (.boot boot)).pending = [.boot boot] := by
      obtain ⟨hboot, -⟩ := Scan.next_boot_state hbound
      simp [Scan.pending, Scan.epoch?, hboot, Epoch.new]
    have hnone : filled {} (sc.next (.boot boot)).pending = [] := by
      rw [hpending]
      rfl
    refine ⟨rfl, hid, sc.next (.boot boot), ?_⟩
    exact {
      scanned := hscanned
      met := Scan.sawNonblank_scanRecord _ _
      live := hlive
      boot := ⟨boot, [], hpending⟩
      fill := by
        rw [hpending]
        simp only [hstate]
        rfl
      kept := List.nil_sublist _
      calls := by rw [hnone]; exact List.nil_sublist _ }
  · exact absurd hreadable hnot

/-- **Every call keeps the log and the file together.** -/
theorem Logged.Sound.step (hS : S.Plain) {bootId : String} {l l' : Logged ν} {call : StoreCall ν}
    (h : l.Sound S bootId) (hreads : call.ReadsBack S) (hstep : l.step S call = some l') : l'.Sound S bootId := by
  cases call with
  | appendSample call => exact h.appendSample hS hreads hstep
  | compact cutoff answers => exact h.compact hS hstep
  | takeReplay =>
      obtain rfl := Option.some.inj hstep
      obtain ⟨sc, hfilled⟩ := h.scan
      refine ⟨h.handle, h.id, sc, ?_⟩
      exact ⟨hfilled.scanned, hfilled.met, ⟨⟨hfilled.live.reading, hfilled.live.bound⟩, hfilled.live.live⟩,
        hfilled.boot, hfilled.fill, hfilled.kept, hfilled.calls⟩

omit [DecidableEq ν] in
/-- What the file is replayed as: whatever came before the process, and the epoch being read. -/
theorem Logged.Filled.replay {bootId : String} {l : Logged ν} {sc : Scan ν} (h : l.Filled S bootId sc) :
    validateCanonical S (l.process.disk.read l.process.disk.canonical) = .ok sc.closeEpoch ∧
      filled {} sc.closeEpoch.records = filled {} sc.replay.records ++ filled {} sc.pending := by
  refine ⟨h.scanned.validate h.met, ?_⟩
  have hlog : sc.closeEpoch.records = sc.replay.records ++ sc.committed :=
    congrArg Prod.fst sc.log_closeEpoch
  obtain ⟨boot, rest, hboot⟩ := h.boot
  have hfresh : ∀ f, filled f sc.pending = filled {} sc.pending := by
    intro f
    rw [hboot]
    rfl
  rw [hlog, filled_append]
  have hreading := h.live.reading
  cases hlast : l.process.store.lastState with
  | none =>
      -- a boot without a sample is dropped, and stands for no entry
      rw [hlast] at hreading
      cases hreading with
      | booted boot hstate hid => simp [Scan.committed, Scan.pending, Scan.epoch?, hstate, filled, Epoch.new, Fill.entry]
  | some state =>
      rw [hlast] at hreading
      cases hreading with
      | sampled epoch _ hstate hid =>
          have hcommitted : sc.committed = sc.pending := by
            simp [Scan.committed, Scan.pending, Scan.epoch?, hstate]
          rw [hcommitted, hfresh]

/-- **Deduplication loses nothing.** In every run of a process whose boot can be read, over calls whose states
are read back, the file is replayed, and filling its checkpoints ends in entries of which those that no
compaction expired are all there, each with the time, the capacity and the state of its call, and in order;
and there are no others than calls. -/
theorem filled_of_run (hS : S.Plain) (hL : S.Lexical) {disk : Option Bytes} {boot : BootRecord}
    (hreadable : BootReadable S disk boot) {l₀ l : Logged ν} (hstart : l₀.Starts S disk boot)
    {calls : List (StoreCall ν)} (hreads : ∀ call ∈ calls, call.ReadsBack S)
    (hrun : (loggedSystem S).Run l₀ calls l) :
    ∃ replay before entries,
      validateCanonical S (l.process.disk.read l.process.disk.canonical) = .ok replay ∧
      filled {} replay.records = before ++ entries ∧
      (l.kept.map (SampleCall.entry boot.bootId)).Sublist entries ∧
      entries.Sublist (l.calls.map (SampleCall.entry boot.bootId)) := by
  have hsound : l.Sound S boot.bootId :=
    hrun.preserves_of_forall (fun hcall h hstep => h.step hS hcall hstep) hreads
      (hstart.sound hS hL hreadable)
  obtain ⟨sc, hfilled⟩ := hsound.scan
  obtain ⟨hvalid, hentries⟩ := hfilled.replay
  exact ⟨_, _, _, hvalid, hentries, hfilled.kept, hfilled.calls⟩

/-- A call that succeeds. -/
theorem Logged.step_appendSample (hS : S.Plain) {l : Logged ν} (hsound : l.process.store.poisoned = false)
    {call : SampleCall ν} (hstate : StateOk [] call.state)
    (htime : l.process.store.lastTimestamp.any (call.timestamp < ·) = false) :
    l.step S (.appendSample call) =
      some ⟨⟨l.process.disk.append l.process.store.file
        (recordLine S (l.process.store.recordOf call.timestamp call.capacity call.state)),
          { l.process.store.sampled call with file := l.process.store.file }⟩,
        l.calls ++ [call], l.kept ++ [call]⟩ := by
  have hcall := HistoryStore.appendSample_eq hS hsound []
    (l.process.store.encodable_recordOf hstate call.timestamp call.capacity) htime
  rw [Logged.step, hcall]
  simp only [Process.append_eq hS hsound hstate htime]

end Logged

/-- A call with nothing to report. -/
def idleCall (t : U64) : SampleCall ℚ := ⟨t, ⟨40, 1, [40]⟩, []⟩

/-- A process that makes three calls with one state, and compacts before the last. -/
theorem exists_run_compacted {S : Serde ℚ} (hS : S.Plain) :
    ∃ l₀ l, l₀.Starts S none ⟨10, "a", ⟨40, 1, [40]⟩⟩ ∧
      (loggedSystem S).Run l₀ [.appendSample (idleCall 20), .appendSample (idleCall 30), .compact 40 {},
        .appendSample (idleCall 50)] l ∧
      l.calls = [idleCall 20, idleCall 30, idleCall 50] ∧ l.kept = [idleCall 50] := by
  let capacity : Capacity := ⟨40, 1, [40]⟩
  let boot : BootRecord := ⟨10, "a", capacity⟩
  let sample : Record ℚ := .sample ⟨20, "a", capacity, []⟩
  let opened : HistoryStore ℚ :=
    { bootId := "a", replay := { records := [.boot boot] }, lastTimestamp := some 10 }
  have hopen : HistoryStore.open S none 10 capacity "a" = .ok (opened, recordLine S (.boot boot)) := by
    have hwrite := appendRecord_of_encodable hS [] (r := .boot boot) True.intro
    simp only [HistoryStore.open]
    rw [hwrite]
    rfl
  let l₀ : Logged ℚ := { process := ⟨.single (recordLine S (.boot boot)), { opened with file := 0 }⟩ }
  let l₁ : Logged ℚ := ⟨⟨.single (recordLine S (.boot boot) ++ recordLine S sample),
    { opened.sampled (idleCall 20) with file := 0 }⟩, [idleCall 20], [idleCall 20]⟩
  let file := recordLine S (.boot boot) ++ recordLine S sample ++ recordLine S tornRecord
  let store : OpenStore ℚ := { (opened.sampled (idleCall 20)).sampled (idleCall 30) with file := 0 }
  let l₂ : Logged ℚ := ⟨⟨.single file, store⟩, [idleCall 20, idleCall 30], [idleCall 20, idleCall 30]⟩
  have hfirst : l₀.step S (.appendSample (idleCall 20)) = some l₁ :=
    Logged.step_appendSample hS rfl (stateOk_nil []) rfl
  have hsecond : l₁.step S (.appendSample (idleCall 30)) = some l₂ :=
    Logged.step_appendSample hS rfl (stateOk_nil []) rfl
  -- the compaction keeps the boot and the sample
  let rs : List (Record ℚ) := crashedRecords ++ [tornRecord]
  have hfile : fileOf S rs = file := by
    simp [fileOf, rs, crashedRecords, file, boot, sample, capacity]
  have hkept := restores_crashedRecords hS
  have hvalid : validateCanonical S ((Disk.single file).read (Disk.single file).canonical) =
      .ok (rs.foldl Scan.next {}).closeEpoch := by
    rw [← hfile]
    exact validateCanonical_fileOf (by simp [rs]) (restores_tornRecords hS)
  have hreplacement := validateCanonical_fileOf (by simp [crashedRecords] : crashedRecords ≠ []) hkept
  have hretained : crashedRecords = retainedCompactionRecords 40 store.bootId true
      (rs.foldl Scan.next {}).closeEpoch.records := by decide +kernel
  have hcompact := compactInnerIfAuthorized_durable hS hvalid (by decide) rfl hretained
    (fun r hr => (hkept r hr).encodable) hreplacement (by decide) (by decide) (by decide) (by decide) (by decide)
  let l₃ : Logged ℚ := ⟨⟨(Disk.single file).replace (fileOf S crashedRecords),
    store.replaced 1 (crashedRecords.foldl Scan.next {}).closeEpoch⟩, [idleCall 20, idleCall 30], []⟩
  have hthird : l₂.step S (.compact 40 {}) = some l₃ := by
    simp only [Logged.step, l₂, hcompact]
    rfl
  have htime : ((crashedRecords.foldl Scan.next ({} : Scan ℚ)).closeEpoch.records.getLast?.map
      Record.timestamp).any ((50 : U64) < ·) = false := by decide +kernel
  have hlast := @Logged.step_appendSample ℚ _ _ S hS l₃ rfl (idleCall 50) (stateOk_nil []) htime
  have hrun : (loggedSystem S).Run l₀ [.appendSample (idleCall 20), .appendSample (idleCall 30),
      .compact 40 {}, .appendSample (idleCall 50)] _ :=
    .cons hfirst (.cons hsecond (.cons hthird (.single hlast)))
  have hstart : l₀.Starts S none boot := ⟨opened, _, hopen, rfl⟩
  exact ⟨l₀, _, hstart, hrun, rfl, rfl⟩

/-- The second call was expired as a checkpoint, and the third is a checkpoint of the sample that was kept. -/
theorem filled_of_run_compacted :
    ∃ l₀ l replay before entries, l₀.Starts json none ⟨10, "a", ⟨40, 1, [40]⟩⟩ ∧
      (loggedSystem json).Run l₀ [.appendSample (idleCall 20), .appendSample (idleCall 30), .compact 40 {},
        .appendSample (idleCall 50)] l ∧
      l.calls = [idleCall 20, idleCall 30, idleCall 50] ∧ l.kept = [idleCall 50] ∧
      validateCanonical json (l.process.disk.read l.process.disk.canonical) = .ok replay ∧
      filled {} replay.records = before ++ entries ∧
      (l.kept.map (SampleCall.entry "a")).Sublist entries ∧
      entries.Sublist (l.calls.map (SampleCall.entry "a")) := by
  obtain ⟨l₀, l, hstart, hrun, hcalls, hkept⟩ := exists_run_compacted json_faithful.plain
  have hreadable : BootReadable json none ⟨10, "a", ⟨40, 1, [40]⟩⟩ := ⟨by simp, by simp⟩
  have hreads : ∀ call ∈ [StoreCall.appendSample (idleCall 20), .appendSample (idleCall 30), .compact 40 {},
      .appendSample (idleCall 50)], call.ReadsBack json := by
    simp [StoreCall.ReadsBack, idleCall, json_faithful.plain.readsBack_nil]
  obtain ⟨replay, before, entries, hreplay, hfilled, hlower, hupper⟩ :=
    filled_of_run json_faithful.plain json_lexical hreadable hstart hreads hrun
  exact ⟨l₀, l, replay, before, entries, hstart, hrun, hcalls, hkept, hreplay, hfilled, hlower, hupper⟩

/-! ## White space that JSON does not skip

`isBlank` asks for ASCII white space, and a form feed is that.  JSON knows four kinds of white space, and a form feed
is none of them. -/

/-- `b'\x0c'`: white space for `is_ascii_whitespace`, and not for JSON. -/
def formFeed : UInt8 := 12

/-- Nothing reads behind a form feed. -/
theorem parse_formFeed (line : Bytes) : Json.parse (formFeed :: line) = none := by
  cases hparse : Json.parse (formFeed :: line) with
  | none => rfl
  | some e =>
      have hprint := Json.print_of_parse hparse
      have hstart : (formFeed :: line).dropWhile isJsonSpace = formFeed :: line := rfl
      rw [hstart] at hprint
      exact absurd (List.head_eq_of_cons_eq hprint) (by decide)

/-- So the line behind a form feed is damage, whatever it says. -/
theorem scanLine_formFeed (sc : Scan ℚ) (index : ℕ) {line : Bytes} (hblank : isBlank line = false) :
    sc.scanLine json index (formFeed :: line) = .ok (sc.seen.damaged none) := by
  have hslice : json.fromSlice (formFeed :: line) = .error ⟨false, true, false⟩ := by
    simp [json, parse_formFeed]
  have htime : json.trustworthyTimestamp (formFeed :: line) = none := by
    simp [json, parse_formFeed]
  have hmet : isBlank (formFeed :: line) = false := by
    have hline : line.all isAsciiWhitespace = false := hblank
    simp [isBlank, hline]
  obtain ⟨error, hdecode, hformat, hversion⟩ := decodeRecord_of_fromSlice_error hslice
  rw [← htime, Scan.scanLine, if_neg (by simp [hmet]), hdecode]
  cases error <;> first | rfl | exact absurd rfl hformat | exact absurd rfl hversion

/-- **A form feed at the end of the file**, and the process that starts on it writes its sample for nothing:
the call returns `Ok`, and the replay has no entry at all. -/
theorem formFeed_loses_calls :
    ∃ l₀ l replay, l₀.Starts json (some (fileOf json crashedRecords ++ [formFeed])) ⟨40, "b", ⟨40, 1, [40]⟩⟩ ∧
      (loggedSystem json).Run l₀ [.appendSample (idleCall 50)] l ∧ l.kept = [idleCall 50] ∧
      validateCanonical json (l.process.disk.read l.process.disk.canonical) = .ok replay ∧
      filled {} replay.records = [] := by
  let capacity : Capacity := ⟨40, 1, [40]⟩
  let boot : Record ℚ := .boot ⟨40, "b", capacity⟩
  let sample : Record ℚ := .sample ⟨50, "b", capacity, []⟩
  let sc : Scan ℚ := crashedRecords.foldl Scan.next {}
  let file := fileOf json crashedRecords ++ [formFeed]
  have hvalid : validateCanonical json file = .ok (sc.torn json [formFeed]).replay :=
    scanned_crashedRecords.validate_torn (by decide) (by simp) (.inl rfl) (by decide +kernel) (by decide +kernel)
  have hbound : (sc.torn json [formFeed]).replay.orderingBound.any ((40 : U64) < ·) = false := by
    decide +kernel
  have hseparator : (sc.torn json [formFeed]).replay.needsSeparator = false := by decide +kernel
  let torn : Replay ℚ := (sc.torn json [formFeed]).replay
  let opened : HistoryStore ℚ :=
    { bootId := "b"
      replay := ({ torn with records := torn.records ++ [boot] } : Replay ℚ).closeOpenGap 40
      lastTimestamp := some 40 }
  have hopen : HistoryStore.open json (some file) 40 capacity "b" =
      .ok (opened, file ++ recordLine json boot) := by
    have hexisting := HistoryStore.open_existing json_faithful.plain hvalid hbound capacity "b"
    rwa [hseparator, if_neg Bool.false_ne_true] at hexisting
  let l₀ : Logged ℚ := { process := ⟨.single (file ++ recordLine json boot), { opened with file := 0 }⟩ }
  have hstart : l₀.Starts json (some file) ⟨40, "b", capacity⟩ := ⟨opened, _, hopen, rfl⟩
  have hstep := @Logged.step_appendSample ℚ _ _ json json_faithful.plain l₀ rfl (idleCall 50) (stateOk_nil []) rfl
  -- the boot line starts with the form feed, and the sample follows no boot
  have hboot : Scanned json (file ++ recordLine json boot) (sc.seen.damaged none) := by
    obtain ⟨line, hencode, hnl, hhead, -⟩ := json_faithful.restores (r := boot) trivial
    have hline : file ++ recordLine json boot =
        fileOf json crashedRecords ++ (formFeed :: line ++ [newline]) := by
      simp [recordLine, hencode, file]
    rw [hline]
    have hnl' : newline ∉ formFeed :: line := by
      rw [List.mem_cons, not_or]
      exact ⟨by decide, hnl⟩
    exact scanned_crashedRecords.line hnl' fun index => scanLine_formFeed sc index (isBlank_of_head hhead)
  have hsample : sample.Encodable := stateOk_nil []
  have hscanned := hboot.record (json_faithful.restores hsample)
  refine ⟨l₀, _, _, hstart, .single hstep, rfl, hscanned.validate (Scan.sawNonblank_scanRecord _ _), ?_⟩
  decide +kernel

end Flock.History
