/-
# Flock.History.Lines — what one line of the canonical file can do to the scanner.

Every transition of the scanner is one of four: a blank line is passed over, a record is TAKEN into the
epoch being read (or starts the next one), and everything else is DAMAGE, which excludes the epoch being
read and the line.  A record out of place is damage in the same way as a line that does not decode: the
two differ only in where the time of the exclusion comes from.

`scanLines_induction` is the rule that the invariants of the scan are proved by.
-/
import Flock.History.Scanner

namespace Flock.History

variable {ν : Type}

namespace Scan

/-! ## Damage

The scanner has three ways to say that a line is no good.  They do the same, but for the time they go by. -/

/-- A line that is not blank was met. -/
def seen (sc : Scan ν) : Scan ν := { sc with sawNonblank := true }

/-- A record of this time counts for the order. -/
def advance (sc : Scan ν) (time : U64) : Scan ν :=
  { sc with replay := sc.replay.advanceOrderingBound time }

/-- Damage at a time, if one can be trusted. -/
def damaged (sc : Scan ν) (time : Option U64) : Scan ν :=
  let sc := { sc with replay := time.toList.foldl Replay.advanceOrderingBound sc.replay }
  sc.invalidate ((time.or sc.replay.orderingBound).getD 0)

theorem damaged_some (sc : Scan ν) (time : U64) :
    sc.damaged (some time) = (sc.advance time).invalidate time := rfl

/-- A time below the bound does not move it. -/
theorem advance_of_older {sc : Scan ν} {time : U64}
    (h : sc.replay.orderingBound.any (time < ·) = true) : sc.advance time = sc := by
  obtain ⟨bound, hbound, hlt⟩ := (Option.any_eq_true _ _).mp h
  have hmax : max bound time = bound := max_eq_left (of_decide_eq_true hlt).le
  have hadvance : sc.replay.advanceOrderingBound time = sc.replay := by
    simp only [Replay.advanceOrderingBound, hbound, hmax]
    rw [← hbound]
  rw [advance, hadvance]

/-- A time that is not below the bound is the bound from then on. -/
theorem orderingBound_advance {replay : Replay ν} {time : U64}
    (h : replay.orderingBound.any (time < ·) = false) :
    (replay.advanceOrderingBound time).orderingBound = some time := by
  simp only [Replay.advanceOrderingBound]
  cases hbound : replay.orderingBound with
  | none => rfl
  | some bound =>
      have hle : bound ≤ time := by simpa [hbound] using h
      simp [hle]

/-! ## Records that are taken

Which records are taken depends on the state of the scanner: a boot always, a sample of the epoch being read, and a
checkpoint once there is a sample.  None of them may be older than the bound. -/

/-- The scanner takes this record: it is not older than the bound, and it is a boot, a sample of the epoch
being read, or a checkpoint of that epoch once it has a sample. -/
def takes (sc : Scan ν) (r : Record ν) : Bool :=
  !sc.replay.orderingBound.any (r.timestamp < ·) &&
    match r, sc.state with
    | .boot _, _ => true
    | .sample s, .awaitSample epoch => epoch.bootId == s.bootId
    | .sample s, .usable epoch => epoch.bootId == s.bootId
    | .checkpoint c, .usable epoch => epoch.bootId == c.bootId
    | _, _ => false

/-- The record joins the epoch being read. -/
def join (sc : Scan ν) (epoch : Epoch ν) (time : U64) : Scan ν :=
  { sc.advance time with state := .usable epoch }

/-- Taking a record, with what it takes to. -/
inductive Takes (sc : Scan ν) : Record ν → Scan ν → Prop
  | boot (b : BootRecord) : Takes sc (.boot b) ((sc.advance b.timestamp).startBoot b)
  | first (epoch : Epoch ν) (s : SampleRecord ν) (hstate : sc.state = .awaitSample epoch)
      (hid : epoch.bootId = s.bootId) : Takes sc (.sample s) (sc.join (epoch.addSample s) s.timestamp)
  | sample (epoch : Epoch ν) (s : SampleRecord ν) (hstate : sc.state = .usable epoch)
      (hid : epoch.bootId = s.bootId) : Takes sc (.sample s) (sc.join (epoch.addSample s) s.timestamp)
  | checkpoint (epoch : Epoch ν) (c : CheckpointRecord) (hstate : sc.state = .usable epoch)
      (hid : epoch.bootId = c.bootId) :
      Takes sc (.checkpoint c) (sc.join (epoch.addCheckpoint c) c.timestamp)

/-- A record that is taken is not older. -/
theorem not_older_of_takes {sc : Scan ν} {r : Record ν} (h : sc.takes r = true) :
    sc.replay.orderingBound.any (r.timestamp < ·) = false := by
  simp only [takes, Bool.and_eq_true, Bool.not_eq_true'] at h
  exact h.1

theorem takes_of_older {sc : Scan ν} {r : Record ν}
    (h : sc.replay.orderingBound.any (r.timestamp < ·) = true) : sc.takes r = false := by
  by_contra htakes
  rw [not_older_of_takes (Bool.not_eq_false _ ▸ htakes)] at h
  cases h

/-- Behind damage only a boot is taken. -/
theorem takes_of_invalidEpoch {sc : Scan ν} {r : Record ν} (hstate : sc.state = .invalidEpoch)
    (hboot : r.isBoot = false) : sc.takes r = false := by
  cases r with
  | boot b => cases hboot
  | sample s => simp only [takes, hstate, Bool.and_false]
  | checkpoint c => simp only [takes, hstate, Bool.and_false]

/-- What is taken, with the state after it. -/
theorem scanRecord_of_takes {sc : Scan ν} {r : Record ν} (h : sc.takes r = true) :
    sc.Takes r (sc.scanRecord r) := by
  have hbound := not_older_of_takes h
  rw [scanRecord, if_neg (by simp [hbound])]
  simp only [takes, hbound, Bool.not_false, Bool.true_and] at h
  obtain ⟨state, replay, sawNonblank⟩ := sc
  cases r with
  | boot b => exact .boot b
  | sample s =>
      cases state with
      | awaitBoot => cases h
      | invalidEpoch => cases h
      | awaitSample epoch =>
          have hid : epoch.bootId = s.bootId := by simpa using h
          simp only [ingestSample, hid, if_true]
          exact .first epoch s rfl hid
      | usable epoch =>
          have hid : epoch.bootId = s.bootId := by simpa using h
          simp only [ingestSample, hid, if_true]
          exact .sample epoch s rfl hid
  | checkpoint c =>
      cases state with
      | awaitBoot => cases h
      | invalidEpoch => cases h
      | awaitSample epoch => cases h
      | usable epoch =>
          have hid : epoch.bootId = c.bootId := by simpa using h
          simp only [ingestCheckpoint, hid, if_true]
          exact .checkpoint epoch c rfl hid

/-- **A record out of place is damage** at its own time. -/
theorem scanRecord_of_not_takes {sc : Scan ν} {r : Record ν} (h : sc.takes r = false) :
    sc.scanRecord r = sc.damaged (some r.timestamp) := by
  rw [damaged_some]
  cases hbound : sc.replay.orderingBound.any (r.timestamp < ·) with
  | true => rw [advance_of_older hbound, scanRecord, if_pos hbound]
  | false =>
      simp only [takes, hbound, Bool.not_false, Bool.true_and] at h
      rw [scanRecord, if_neg (by simp [hbound])]
      obtain ⟨state, replay, sawNonblank⟩ := sc
      cases r with
      | boot b => cases h
      | sample s =>
          cases state with
          | awaitBoot => rfl
          | invalidEpoch => rfl
          | awaitSample epoch =>
              have hid : epoch.bootId ≠ s.bootId := by simpa using h
              simp only [ingestSample, hid, if_false]
              rfl
          | usable epoch =>
              have hid : epoch.bootId ≠ s.bootId := by simpa using h
              simp only [ingestSample, hid, if_false]
              rfl
      | checkpoint c =>
          cases state with
          | awaitBoot => rfl
          | invalidEpoch => rfl
          | awaitSample epoch => rfl
          | usable epoch =>
              have hid : epoch.bootId ≠ c.bootId := by simpa using h
              simp only [ingestCheckpoint, hid, if_false]
              rfl

/-- A record is taken, or is damage. -/
theorem scanRecord_cases (sc : Scan ν) (r : Record ν) :
    (sc.takes r = true ∧ sc.Takes r (sc.scanRecord r)) ∨
      (sc.takes r = false ∧ sc.scanRecord r = sc.damaged (some r.timestamp)) := by
  cases h : sc.takes r with
  | true => exact .inl ⟨rfl, scanRecord_of_takes h⟩
  | false => exact .inr ⟨rfl, scanRecord_of_not_takes h⟩

/-! ## What is left of the records

Damage takes nothing away from what is committed. -/

theorem log_invalidate (sc : Scan ν) (time : U64) : (sc.invalidate time).replay.log = sc.replay.log := by
  obtain ⟨state, replay, sawNonblank⟩ := sc
  cases state with
  | awaitBoot => simp only [invalidate, Replay.log_openGap, Replay.log_excludeRecord]
  | awaitSample epoch => simp only [invalidate, Replay.log_excludeEpoch]
  | usable epoch => simp only [invalidate, Replay.log_excludeEpoch]
  | invalidEpoch => simp only [invalidate, Replay.log_openGap, Replay.log_excludeRecord]

/-- And moves the bound up to its time, if it has one. -/
theorem orderingBound_damaged (sc : Scan ν) (time : Option U64) :
    (sc.damaged time).replay.orderingBound =
      (time.toList.foldl Replay.advanceOrderingBound sc.replay).orderingBound := by
  have hlog := congrArg (fun log => log.2.1) (log_invalidate
    { sc with replay := time.toList.foldl Replay.advanceOrderingBound sc.replay }
    ((time.or (time.toList.foldl Replay.advanceOrderingBound sc.replay).orderingBound).getD 0))
  exact hlog

/-- Damage leaves the records that were committed, and no epoch being read. -/
theorem records_damaged (sc : Scan ν) (time : Option U64) :
    (sc.damaged time).replay.records = sc.replay.records ∧
      (sc.damaged time).state = .invalidEpoch := by
  refine ⟨(congrArg Prod.fst (log_invalidate _ _)).trans ?_, rfl⟩
  cases time <;> rfl

/-! ## The epoch being read

The records of one process, as it writes them: a boot, samples, and checkpoints between them. -/

/-- The scanner reads the epoch of `bootId`: just booted, or with samples. -/
inductive Reading (sc : Scan ν) (bootId : String) : Option (List (StateEntry ν)) → Prop
  | booted (boot : BootRecord) (hstate : sc.state = .awaitSample (Epoch.new boot))
      (hid : boot.bootId = bootId) : Reading sc bootId none
  | sampled (epoch : Epoch ν) (state : List (StateEntry ν)) (hstate : sc.state = .usable epoch)
      (hid : epoch.bootId = bootId) : Reading sc bootId (some state)

/-- A sample, or a checkpoint once there is a sample, of the epoch being read is added to it. -/
theorem next_of_reading {sc : Scan ν} {bootId : String} {lastState : Option (List (StateEntry ν))}
    (hreading : sc.Reading bootId lastState) {r : Record ν} (hid : r.bootId = bootId)
    (hbound : sc.replay.orderingBound.any (r.timestamp < ·) = false)
    (hkind : (∃ s, r = .sample s) ∨ (∃ c, r = .checkpoint c) ∧ lastState.isSome) :
    (∃ epoch, (sc.next r).state = .usable epoch ∧ epoch.bootId = bootId) ∧
      (sc.next r).allRecords = sc.allRecords ++ [r] ∧
      (sc.next r).replay.orderingBound = some r.timestamp ∧
      (sc.next r).replay = sc.replay.advanceOrderingBound r.timestamp := by
  have hadvance := orderingBound_advance hbound
  rw [Scan.next, scanRecord, if_neg (by simp [hbound])]
  obtain ⟨state, replay, sawNonblank⟩ := sc
  -- a sample starts the epoch or joins it; a checkpoint only joins it
  rcases hkind with ⟨s, rfl⟩ | ⟨⟨c, rfl⟩, hsome⟩
  · cases hreading with
    | booted boot hstate hboot =>
        obtain rfl : state = _ := hstate
        have hmatch : (Epoch.new boot : Epoch ν).bootId = s.bootId := hboot.trans hid.symm
        simp only [ingestSample, hmatch, if_true]
        exact ⟨⟨_, rfl, hboot⟩, by simp [allRecords, Epoch.addSample, Replay.advanceOrderingBound],
          hadvance, trivial⟩
    | sampled epoch st hstate hboot =>
        obtain rfl : state = _ := hstate
        have hmatch : epoch.bootId = s.bootId := hboot.trans hid.symm
        simp only [ingestSample, hmatch, if_true]
        exact ⟨⟨_, rfl, hboot⟩, by simp [allRecords, Epoch.addSample, Replay.advanceOrderingBound],
          hadvance, trivial⟩
  · cases hreading with
    | booted boot hstate hboot => cases hsome
    | sampled epoch st hstate hboot =>
        obtain rfl : state = _ := hstate
        have hmatch : epoch.bootId = c.bootId := hboot.trans hid.symm
        simp only [ingestCheckpoint, hmatch, if_true]
        exact ⟨⟨_, rfl, hboot⟩, by simp [allRecords, Epoch.addCheckpoint, Replay.advanceOrderingBound],
          hadvance, trivial⟩

/-- A boot ends the epoch being read and starts its own. -/
theorem next_boot {sc : Scan ν} {boot : BootRecord}
    (hbound : sc.replay.orderingBound.any (boot.timestamp < ·) = false) :
    (sc.next (.boot boot)).Reading boot.bootId none ∧
      (sc.next (.boot boot)).allRecords = sc.closeEpoch.records ++ [.boot boot] ∧
      (sc.next (.boot boot)).replay.orderingBound = some boot.timestamp ∧
      (sc.next (.boot boot)).replay.needsSeparator = sc.replay.needsSeparator ∧
      (sc.next (.boot boot)).replay = (sc.advance boot.timestamp).closeEpoch.closeOpenGap boot.timestamp := by
  have hnext : sc.next (.boot boot) =
      ({ sc with
        sawNonblank := true
        replay := sc.replay.advanceOrderingBound boot.timestamp } : Scan ν).startBoot boot := by
    have hbound' : sc.replay.orderingBound.any ((Record.boot boot : Record ν).timestamp < ·) = false :=
      hbound
    rw [Scan.next, scanRecord, if_neg (by simp only [hbound', Bool.false_eq_true, not_false_eq_true])]
    rfl
  have hlog : (sc.next (.boot boot)).replay.log =
      (sc.closeEpoch.records, some boot.timestamp, sc.replay.needsSeparator) := by
    have hrecords : sc.closeEpoch.records = sc.replay.records ++ sc.committed :=
      congrArg Prod.fst sc.log_closeEpoch
    rw [hnext, startBoot, Replay.log_closeOpenGap, log_closeEpoch, hrecords,
      orderingBound_advance hbound]
    rfl
  simp only [Replay.log, Prod.mk.injEq] at hlog
  refine ⟨.booted boot (by rw [hnext]; rfl) rfl, ?_, hlog.2.1, hlog.2.2, by rw [hnext]; rfl⟩
  rw [allRecords, hlog.1, hnext]
  rfl

end Scan

/-! ## Lines and files

The scanner goes through the lines in order and stops only at a format or a version it does not know.  What follows
the last line feed comes last, and is damage whatever it is. -/

section Files

variable [F64 ν] {S : Serde ν}

namespace Scan

/-- **One line**: passed over, damage, or a record that is taken. -/
theorem scanLine_cases {index : ℕ} {line : Bytes} {sc sc' : Scan ν}
    (h : sc.scanLine S index line = .ok sc') :
    (isBlank line = true ∧ sc' = sc) ∨
      (isBlank line = false ∧ ∃ time, sc' = sc.seen.damaged time ∧
        time = match decodeRecord S line with
          | .ok r => some r.timestamp
          | .error _ => S.trustworthyTimestamp line) ∨
      (isBlank line = false ∧ ∃ r, decodeRecord S line = .ok r ∧ sc.seen.takes r = true ∧
        sc.seen.Takes r sc') := by
  rw [scanLine] at h
  cases hblank : isBlank line with
  | true =>
      rw [if_pos hblank] at h
      exact .inl ⟨rfl, (Except.ok.inj h).symm⟩
  | false =>
      rw [if_neg (by simp [hblank])] at h
      refine .inr ?_
      cases hdecode : decodeRecord S line with
      | ok r =>
          simp only [hdecode] at h
          obtain rfl := Except.ok.inj h
          rcases sc.seen.scanRecord_cases r with ⟨htakes, hstep⟩ | ⟨-, hdamaged⟩
          · exact .inr ⟨rfl, r, rfl, htakes, hstep⟩
          · exact .inl ⟨rfl, _, hdamaged, rfl⟩
      | error error =>
          rw [hdecode] at h
          refine .inl ⟨rfl, S.trustworthyTimestamp line, ?_, rfl⟩
          cases error <;> first | (cases h; done) | exact (Except.ok.inj h).symm

/-- **The rule of the scan**: what every line preserves holds when the lines are read. -/
theorem scanLines_induction {I : List Bytes → Scan ν → Prop}
    (hblank : ∀ {done line sc}, isBlank line = true → I done sc → I (done ++ [line]) sc)
    (hdamage : ∀ {done line sc} time, isBlank line = false → I done sc →
      I (done ++ [line]) (sc.seen.damaged time))
    (htake : ∀ {done line sc r sc'}, isBlank line = false → decodeRecord S line = .ok r →
      sc.seen.takes r = true → sc.seen.Takes r sc' → I done sc → I (done ++ [line]) sc')
    {lines done : List Bytes} {index : ℕ} {sc sc' : Scan ν} (h₀ : I done sc)
    (h : scanLines S index sc lines = .ok sc') : I (done ++ lines) sc' := by
  induction lines generalizing done index sc with
  | nil =>
      obtain rfl := Except.ok.inj h
      simpa using h₀
  | cons line rest ih =>
      rw [scanLines] at h
      cases hline : sc.scanLine S index line with
      | error error => simp [hline] at h
      | ok next =>
          simp only [hline] at h
          have hnext : I (done ++ [line]) next := by
            rcases scanLine_cases hline with ⟨hb, rfl⟩ | ⟨hb, time, rfl, -⟩ | ⟨hb, r, hd, ht, hs⟩
            · exact hblank hb h₀
            · exact hdamage time hb h₀
            · exact htake hb hd ht hs h₀
          simpa using ih hnext h

/-- The lines of two lists, one after the other. -/
theorem scanLines_append {index : ℕ} {sc sc' : Scan ν} {lines lines' : List Bytes}
    (h : scanLines S index sc lines = .ok sc') :
    scanLines S index sc (lines ++ lines') = scanLines S (index + lines.length) sc' lines' := by
  induction lines generalizing index sc with
  | nil =>
      obtain rfl := Except.ok.inj h
      rfl
  | cons line rest ih =>
      rw [scanLines] at h
      rw [List.cons_append, scanLines]
      cases hline : sc.scanLine S index line with
      | error error => simp [hline] at h
      | ok next =>
          simp only [hline] at h ⊢
          rw [ih h, List.length_cons]
          congr 1
          omega

/-- What follows the last line feed was met. -/
def unterminated (sc : Scan ν) (tail : Bytes) : Scan ν :=
  { sc with
    sawNonblank := sc.sawNonblank || !isBlank tail
    replay := { sc.replay with needsSeparator := !isBlank tail } }

/-- It is damage, whatever it is. -/
def torn (S : Serde ν) (sc : Scan ν) (tail : Bytes) : Scan ν :=
  (sc.unterminated tail).damaged (S.trustworthyTimestamp tail)

theorem scanTail_cases {index : ℕ} {tail : Bytes} {sc sc' : Scan ν}
    (h : sc.scanTail S index tail = .ok sc') :
    (tail = [] ∧ sc' = sc) ∨ (tail ≠ [] ∧ sc' = sc.torn S tail) := by
  rw [scanTail] at h
  cases htail : tail.isEmpty with
  | true =>
      rw [if_pos htail] at h
      exact .inl ⟨List.isEmpty_iff.mp htail, (Except.ok.inj h).symm⟩
  | false =>
      rw [if_neg (by simp [htail])] at h
      refine .inr ⟨by simpa using htail, ?_⟩
      split at h
      · cases h
      · cases h
      · exact (Except.ok.inj h).symm
      · exact (Except.ok.inj h).symm

end Scan

/-- **A file that validates**: its lines are scanned, then its tail, and the epoch being read ends. -/
theorem validateCanonical_cases {file : Bytes} {replay : Replay ν}
    (h : validateCanonical S file = .ok replay) :
    ∃ sc, Scan.scanLines S 1 {} (readLines file).1 = .ok sc ∧
      (((readLines file).2 = [] ∧ sc.sawNonblank = true ∧ replay = sc.closeEpoch) ∨
        ((readLines file).2 ≠ [] ∧ (sc.torn S (readLines file).2).sawNonblank = true ∧
          replay = (sc.torn S (readLines file).2).replay)) := by
  rw [validateCanonical] at h
  cases hlines : Scan.scanLines S 1 {} (readLines file).1 with
  | error error => simp [hlines] at h
  | ok sc =>
      simp only [hlines] at h
      refine ⟨sc, rfl, ?_⟩
      cases htail : sc.scanTail S ((readLines file).1.length + 1) (readLines file).2 with
      | error error => simp [htail] at h
      | ok last =>
          simp only [htail] at h
          cases hsaw : last.sawNonblank with
          | false => simp [hsaw] at h
          | true =>
              rw [if_pos hsaw] at h
              obtain rfl := Except.ok.inj h
              rcases Scan.scanTail_cases htail with ⟨hnil, rfl⟩ | ⟨hne, rfl⟩
              · exact .inl ⟨hnil, hsaw, rfl⟩
              · exact .inr ⟨hne, hsaw, rfl⟩

end Files

/-! ## What recovery asks of the JSON reader -/

/-- What a restart relies on when lines were cut or joined: the two readings of a line that was WRITTEN agree
on its time (they need not of any other line: a `RawRecord` skips a field it does not know, even one whose
number no `Value` can hold), white space in front of a line is skipped or refused, and a line that was cut
short does not read. -/
structure Serde.Lexical (S : Serde ν) : Prop where
  trustworthyTimestamp_of_toVec : ∀ e line raw, S.toVec e = some line → S.fromSlice line = .ok raw →
    S.trustworthyTimestamp line = some raw.timestamp
  fromSlice_space : ∀ space line raw, isBlank space = true → S.fromSlice line = .ok raw →
    S.fromSlice (space ++ line) = .ok raw ∨ ∃ error, S.fromSlice (space ++ line) = .error error
  fromSlice_of_prefix : ∀ e line cut, S.toVec e = some line → cut <+: line → cut ≠ line →
    ∃ error, S.fromSlice cut = .error error

end Flock.History
