/-
# Flock.History.Appends — a file that is scanned, and the store that appends to it.

A file that ends in a line feed is scanned to some state of the scanner, and appending the line of a
record moves that state on by the record (`Scanned`).  A store FOLLOWS the scan of its file: the scanner
reads the store's own epoch, a checkpoint would repeat the state the store compares with, and the bound is
the time of the store's last record.  Every append that succeeds writes one record and keeps this.

These are the tools for every statement about a file that grows.  A statement is made about the scanner's state, which
is a fold over records; the bytes come in only through the three lemmas on a line, a record and a torn tail.
-/
import Flock.History.Lifetimes

namespace Flock.History

variable {ν : Type}

/-! ## Joining files

A scan reads lines.  To join two files is to join their lines if the first one ends in a line feed; otherwise its last
line runs on into the second file. -/

/-- The lines of a file that ends in a line feed stay as they are, whatever is put behind them. -/
theorem readLines_append_of_terminated {file : Bytes} (h : (readLines file).2 = []) (more : Bytes) :
    readLines (file ++ more) = ((readLines file).1 ++ (readLines more).1, (readLines more).2) := by
  induction file with
  | nil => rfl
  | cons b rest ih =>
      rw [readLines] at h
      rw [List.cons_append, readLines, readLines]
      by_cases hb : b = newline
      · simp only [hb, if_true] at h ⊢
        rw [ih h]
        rfl
      · simp only [hb, if_false] at h ⊢
        cases hlines : (readLines rest).1 with
        | nil => simp [hlines] at h
        | cons line lines =>
            simp only [hlines] at h ⊢
            rw [ih h, hlines]
            rfl

/-- Without a line feed there is no whole line. -/
theorem readLines_of_notMem {text : Bytes} (h : newline ∉ text) : readLines text = ([], text) := by
  induction text with
  | nil => rfl
  | cons b rest ih =>
      obtain ⟨hb, hrest⟩ := not_or.mp (mt List.mem_cons.mpr h)
      rw [readLines, ih hrest]
      simp [Ne.symm hb]

/-- A tail after whole lines. -/
theorem readLines_append_of_notMem {file tail : Bytes} (h : (readLines file).2 = [])
    (hnl : newline ∉ tail) : readLines (file ++ tail) = ((readLines file).1, tail) := by
  rw [readLines_append_of_terminated h, readLines_of_notMem hnl, List.append_nil]

/-- One more line. -/
theorem readLines_append_line {file line : Bytes} (h : (readLines file).2 = []) (hnl : newline ∉ line) :
    readLines (file ++ (line ++ [newline])) = ((readLines file).1 ++ [line], []) := by
  have hread : readLines (line ++ [newline]) = ([line], []) := by
    have := @readLines_cons line [] hnl
    simpa [readLines] using this
  rw [readLines_append_of_terminated h, hread]

/-- A file is what ends in its last line feed, and its tail. -/
theorem exists_terminated (file : Bytes) :
    ∃ whole, file = whole ++ (readLines file).2 ∧ readLines whole = ((readLines file).1, []) ∧
      newline ∉ (readLines file).2 := by
  induction file with
  | nil => exact ⟨[], rfl, rfl, by simp [readLines]⟩
  | cons b rest ih =>
      obtain ⟨whole, hfile, hwhole, hnl⟩ := ih
      -- a line feed ends a line, the empty one
      by_cases hb : b = newline
      · subst hb
        refine ⟨newline :: whole, ?_, ?_, ?_⟩
        · simpa [readLines] using hfile
        · simp [readLines, hwhole]
        · simpa [readLines] using hnl
      -- any other byte joins the line behind it, be it whole or not
      · cases hlines : (readLines rest).1 with
        | nil =>
            have hrest : whole = [] := by
              cases whole with
              | nil => rfl
              | cons c more =>
                  rw [hlines, readLines] at hwhole
                  by_cases hc : c = newline
                  · simp [hc] at hwhole
                  · cases hmore : (readLines more).1 <;> simp [hc, hmore] at hwhole
            refine ⟨[], ?_, ?_, ?_⟩
            · simp only [readLines, hb, if_false, hlines, List.nil_append]
              rw [hrest, List.nil_append] at hfile
              rw [← hfile]
            · simp [readLines, hb, hlines]
            · simpa [readLines, hb, hlines, Ne.symm hb] using hnl
        | cons line lines =>
            refine ⟨b :: whole, ?_, ?_, ?_⟩
            · simp only [readLines, hb, if_false, hlines, List.cons_append]
              rw [← hfile]
            · rw [readLines, hwhole, hlines]
              simp [readLines, hb, hlines]
            · simpa [readLines, hb, hlines] using hnl

section Files

variable [F64 ν] {S : Serde ν}

/-! ## Scanned files

The state is that before the last epoch is closed, so that more lines can follow. -/

/-- The file ends in a line feed, or is empty, and its lines are scanned to `sc`. -/
structure Scanned (S : Serde ν) (file : Bytes) (sc : Scan ν) : Prop where
  terminated : (readLines file).2 = []
  lines : Scan.scanLines S 1 {} (readLines file).1 = .ok sc

theorem scanned_nil : Scanned S [] {} := ⟨rfl, rfl⟩

/-- More lines. -/
theorem Scanned.append {file more : Bytes} {sc sc' : Scan ν} (h : Scanned S file sc)
    (hmore : (readLines more).2 = [])
    (hlines : Scan.scanLines S (1 + (readLines file).1.length) sc (readLines more).1 = .ok sc') :
    Scanned S (file ++ more) sc' := by
  have happend := readLines_append_of_terminated h.terminated more
  refine ⟨by rw [happend, hmore], ?_⟩
  rw [happend, Scan.scanLines_append h.lines]
  exact hlines

/-- One more line. -/
theorem Scanned.line {file line : Bytes} {sc sc' : Scan ν} (h : Scanned S file sc) (hnl : newline ∉ line)
    (hline : ∀ index, sc.scanLine S index line = .ok sc') :
    Scanned S (file ++ (line ++ [newline])) sc' := by
  have hread := readLines_append_line h.terminated hnl
  refine ⟨by rw [hread], ?_⟩
  rw [hread, Scan.scanLines_append h.lines]
  simp [Scan.scanLines, hline]

/-- The line of one more record. -/
theorem Scanned.record {file : Bytes} {sc : Scan ν} (h : Scanned S file sc) {r : Record ν}
    (hr : S.Restores r) : Scanned S (file ++ recordLine S r) (sc.next r) := by
  obtain ⟨line, hencode, hnl, hhead, hdecode⟩ := hr
  have hline : recordLine S r = line ++ [newline] := by simp [recordLine, hencode]
  rw [hline]
  exact h.line hnl fun index => Scan.scanLine_of_decode hhead hdecode index sc

/-- A list of records. -/
theorem Scanned.fileOf {rs : List (Record ν)} (hrs : ∀ r ∈ rs, S.Restores r) {file : Bytes} {sc : Scan ν}
    (h : Scanned S file sc) :
    Scanned S (file ++ fileOf S rs) (rs.foldl Scan.next sc) := by
  induction rs generalizing file sc with
  | nil => simpa [History.fileOf] using h
  | cons r rest ih =>
      have hnext := ih (fun r' hr' => hrs r' (List.mem_cons_of_mem _ hr'))
        (h.record (hrs r List.mem_cons_self))
      simpa [History.fileOf] using hnext

/-- A scanned file validates, as soon as it has a line. -/
theorem Scanned.validate {file : Bytes} {sc : Scan ν} (h : Scanned S file sc)
    (hsaw : sc.sawNonblank = true) : validateCanonical S file = .ok sc.closeEpoch := by
  simp only [validateCanonical, h.lines, h.terminated]
  simp [Scan.scanTail, hsaw]

/-- What a file that ends in a line feed is replayed as. -/
theorem Scanned.validate_eq {file : Bytes} {sc : Scan ν} (h : Scanned S file sc) {replay : Replay ν}
    (hvalid : validateCanonical S file = .ok replay) : replay = sc.closeEpoch := by
  obtain ⟨sc', hscan, hend⟩ := validateCanonical_cases hvalid
  obtain rfl : sc = sc' := Except.ok.inj (h.lines.symm.trans hscan)
  rcases hend with ⟨-, -, hreplay⟩ | ⟨hne, -⟩
  · exact hreplay
  · exact absurd h.terminated hne

/-- The lines of a file with a tail. -/
theorem Scanned.lines_torn {file tail : Bytes} {sc : Scan ν} (h : Scanned S file sc)
    (hnl : newline ∉ tail) : Scan.scanLines S 1 {} (readLines (file ++ tail)).1 = .ok sc := by
  rw [readLines_append_of_notMem h.terminated hnl]
  exact h.lines

/-- A file with a tail. -/
theorem Scanned.validate_torn {file tail : Bytes} {sc : Scan ν} (h : Scanned S file sc)
    (hnl : newline ∉ tail) (hne : tail ≠ []) (hsaw : sc.sawNonblank = true ∨ isBlank tail = false)
    (hformat : decodeRecord S tail ≠ .error .unsupportedFormat)
    (hversion : decodeRecord S tail ≠ .error .unsupportedVersion) :
    validateCanonical S (file ++ tail) = .ok (sc.torn S tail).replay := by
  have hread := readLines_append_of_notMem h.terminated hnl
  have htail : ∀ index, sc.scanTail S index tail = .ok (sc.torn S tail) := by
    intro index
    rw [Scan.scanTail, if_neg (by simpa using hne)]
    split
    · rename_i heq
      exact absurd heq hformat
    · rename_i heq
      exact absurd heq hversion
    · rfl
    · rfl
  have hsaw' : (sc.torn S tail).sawNonblank = true := by
    show (sc.sawNonblank || !isBlank tail) = true
    rcases hsaw with hsaw | hsaw <;> simp [hsaw]
  simp only [validateCanonical, hread, h.lines, htail, hsaw', if_true]
  rfl

/-- A tail of another format or version would have stopped the scan. -/
theorem Scanned.supported {file tail : Bytes} {sc : Scan ν} (h : Scanned S file sc)
    (hnl : newline ∉ tail) (hne : tail ≠ []) {replay : Replay ν}
    (hvalid : validateCanonical S (file ++ tail) = .ok replay) :
    decodeRecord S tail ≠ .error .unsupportedFormat ∧
      decodeRecord S tail ≠ .error .unsupportedVersion := by
  rw [validateCanonical, readLines_append_of_notMem h.terminated hnl] at hvalid
  simp only [h.lines] at hvalid
  constructor
  · intro hdecode
    simp [Scan.scanTail, hne, hdecode] at hvalid
  · intro hdecode
    simp [Scan.scanTail, hne, hdecode] at hvalid

end Files

/-! ## A store and the scan of its file

The store writes a checkpoint when the state has not changed.  So that a checkpoint means to the scanner what it meant
to the store, the two have to hold the same last state. -/

/-- **`Follows`** — the scanner reads the store's own epoch: a checkpoint would repeat the state the store
compares with, and the bound is the time of the store's last record. -/
structure Follows (sc : Scan ν) (store : HistoryStore ν) : Prop where
  reading : sc.Reading store.bootId store.lastState
  bound : sc.replay.orderingBound = store.lastTimestamp

/-- A store that has just been opened: its boot record is the last of the file. -/
theorem follows_boot {sc : Scan ν} {t : U64} (hbound : sc.replay.orderingBound.any (t < ·) = false)
    (capacity : Capacity) {store : HistoryStore ν} (hstate : store.lastState = none)
    (htime : store.lastTimestamp = some t) :
    Follows (sc.next (.boot ⟨t, store.bootId, capacity⟩)) store ∧
      (sc.next (.boot ⟨t, store.bootId, capacity⟩)).allRecords =
        sc.closeEpoch.records ++ [.boot ⟨t, store.bootId, capacity⟩] := by
  let boot : BootRecord := ⟨t, store.bootId, capacity⟩
  have hold : sc.replay.orderingBound.any (boot.timestamp < ·) = false := hbound
  obtain ⟨hreading, hall, hnext, -⟩ := Scan.next_boot hold
  refine ⟨⟨?_, ?_⟩, hall⟩
  · rw [hstate]
    exact hreading
  · rw [htime]
    exact hnext

/-- The arguments of a call of `append_sample`. -/
structure SampleCall (ν : Type) where
  timestamp : U64
  capacity : Capacity
  state : List (StateEntry ν)

/-- The store once a call has succeeded. -/
def HistoryStore.sampled (store : HistoryStore ν) (call : SampleCall ν) : HistoryStore ν :=
  { store with lastTimestamp := some call.timestamp, lastState := some call.state }

section Stores

variable [DecidableEq ν]

/-- The records that calls of `append_sample` write when they all succeed. -/
def HistoryStore.recordsOf (store : HistoryStore ν) : List (SampleCall ν) → List (Record ν)
  | [] => []
  | call :: rest =>
      store.recordOf call.timestamp call.capacity call.state :: (store.sampled call).recordsOf rest

/-- **One record** of the store. -/
theorem Follows.next {sc : Scan ν} {store : HistoryStore ν} (h : Follows sc store)
    {call : SampleCall ν} (htime : store.lastTimestamp.any (call.timestamp < ·) = false) :
    let r := store.recordOf call.timestamp call.capacity call.state
    Follows (sc.next r) (store.sampled call) ∧ (sc.next r).allRecords = sc.allRecords ++ [r] ∧
      (sc.next r).replay.diagnostics = sc.replay.diagnostics ∧
      ∃ epoch, (sc.next r).state = .usable epoch := by
  intro r
  have hr : r.timestamp = call.timestamp := store.timestamp_recordOf _ _ _
  have hold : sc.replay.orderingBound.any (r.timestamp < ·) = false := by
    rw [h.bound, hr]
    exact htime
  obtain ⟨⟨epoch, hstate, hid⟩, hall, hbound, hreplay⟩ := Scan.next_of_reading h.reading
    (store.bootId_recordOf _ _ _) hold (store.kind_recordOf _ _ _)
  refine ⟨⟨.sampled epoch _ hstate hid, by rw [hbound, hr]; rfl⟩, hall, ?_, epoch, hstate⟩
  rw [hreplay]
  rfl

variable [F64 ν] {S : Serde ν}

omit [DecidableEq ν] in
/-- What a write that succeeded did: the record was in order, not behind the last one, and its line is in the file. -/
theorem HistoryStore.write_ok {store store' : HistoryStore ν} {file file' : Bytes} {r : Record ν}
    {written : HistoryStore ν → HistoryStore ν}
    (h : store.write S file r written = (store', file', .ok ())) :
    r.Encodable ∧ store.lastTimestamp.any (r.timestamp < ·) = false ∧
      store' = written { store with lastTimestamp := some r.timestamp } ∧
      file' = file ++ recordLine S r := by
  rw [write] at h
  cases hold : store.lastTimestamp.any (r.timestamp < ·) with
  | true => simp [notOlder, hold] at h
  | false =>
      rw [if_pos (by simp [notOlder, hold]), appendRecord] at h
      cases hencode : encodeRecord S r with
      | error error => simp [hencode] at h
      | ok line =>
          simp only [hencode, Prod.mk.injEq, and_true] at h
          refine ⟨encodable_of_encodeRecord hencode, rfl, h.1.symm, ?_⟩
          rw [← h.2, recordLine, hencode, List.append_assoc]

/-- **A call that succeeds** wrote its record, and the store compares with its state from then on. -/
theorem HistoryStore.appendSample_ok {store store' : HistoryStore ν} {file file' : Bytes}
    {call : SampleCall ν}
    (h : store.appendSample S file call.timestamp call.capacity call.state = (store', file', .ok ())) :
    (store.recordOf call.timestamp call.capacity call.state).Encodable ∧
      store.lastTimestamp.any (call.timestamp < ·) = false ∧ store' = store.sampled call ∧
      file' = file ++ recordLine S (store.recordOf call.timestamp call.capacity call.state) := by
  rw [appendSample] at h
  cases hsound : store.poisoned with
  | true => simp [hsound] at h
  | false =>
      rw [if_neg (by simp [hsound])] at h
      by_cases hsame : store.lastState = some call.state
      · rw [if_pos hsame, checkpoint, if_neg (by simp [hsound])] at h
        obtain ⟨hr, hold, hstore, hfile⟩ := write_ok h
        rw [recordOf, if_pos hsame]
        refine ⟨hr, hold, ?_, hfile⟩
        rw [hstore, sampled, ← hsame]
        rfl
      · rw [if_neg hsame] at h
        obtain ⟨hr, hold, hstore, hfile⟩ := write_ok h
        rw [recordOf, if_neg hsame]
        exact ⟨hr, hold, hstore, hfile⟩

/-- Calls of `append_sample`, one after the other; `none` if one of them fails. -/
def HistoryStore.appendAll (S : Serde ν) (store : HistoryStore ν) (file : Bytes) :
    List (SampleCall ν) → Option (HistoryStore ν × Bytes)
  | [] => some (store, file)
  | call :: rest =>
      match store.appendSample S file call.timestamp call.capacity call.state with
      | (store, file, .ok ()) => store.appendAll S file rest
      | (_, _, .error _) => none

/-- **Many calls.** The scan of the file follows the store through all of them, if what they write is read
back. -/
theorem Follows.appendAll {calls : List (SampleCall ν)}
    {store store' : HistoryStore ν} {file file' : Bytes} {sc : Scan ν} (h : Follows sc store)
    (hfile : Scanned S file sc) (hreads : ∀ r ∈ store.recordsOf calls, S.Restores r)
    (hcalls : store.appendAll S file calls = some (store', file')) :
    Scanned S file' ((store.recordsOf calls).foldl Scan.next sc) ∧
      Follows ((store.recordsOf calls).foldl Scan.next sc) store' ∧
      ((store.recordsOf calls).foldl Scan.next sc).allRecords =
        sc.allRecords ++ store.recordsOf calls ∧
      ((store.recordsOf calls).foldl Scan.next sc).replay.diagnostics = sc.replay.diagnostics ∧
      (calls ≠ [] → ∃ epoch, ((store.recordsOf calls).foldl Scan.next sc).state = .usable epoch) := by
  induction calls generalizing store file sc with
  | nil =>
      obtain ⟨rfl, rfl⟩ := Prod.mk.inj (Option.some.inj hcalls)
      exact ⟨hfile, h, by simp [HistoryStore.recordsOf], rfl, fun hne => absurd rfl hne⟩
  | cons call rest ih =>
      rw [HistoryStore.appendAll] at hcalls
      split at hcalls
      · rename_i next nextFile hcall
        obtain ⟨-, htime, rfl, rfl⟩ := HistoryStore.appendSample_ok hcall
        obtain ⟨hnext, hall, hdiag, hepoch⟩ := h.next htime
        have hfirst : S.Restores (store.recordOf call.timestamp call.capacity call.state) :=
          hreads _ List.mem_cons_self
        obtain ⟨hscanned, hfollows, hall', hdiag', hepoch'⟩ := ih hnext (hfile.record hfirst)
          (fun r hr => hreads r (List.mem_cons_of_mem _ hr)) hcalls
        refine ⟨hscanned, hfollows, ?_, hdiag'.trans hdiag, fun _ => ?_⟩
        · rw [HistoryStore.recordsOf, List.foldl_cons, hall', hall, List.append_assoc,
            List.singleton_append]
        · cases rest with
          | nil => exact hepoch
          | cons next rest => exact hepoch' (by simp)
      · cases hcalls

end Stores

end Flock.History
