/-
# Flock.History.Damage — damage stays in its epoch.

Well-formed epochs are read back whole, whatever state the scanner starts from, as long as their times do
not fall below its bound: the boot of each ends the epoch before it.  Lines in the place of an epoch's
body can add to that epoch or exclude it, and move the bound; they cannot reach the epochs before, which
are committed, nor the ones after, which start with a boot of their own.

What confines a line is its time: damage dated after the epochs that follow would make them older than the bound, and
so would a boot.  `Confined` excludes both, and nothing else is asked of the line.
-/
import Flock.History.Appends
import Flock.History.Conservation
import Flock.History.Replayed

namespace Flock.History

variable {ν : Type}

/-! ## The bound

The bound is the latest time of anything the scanner has gone by.  An epoch whose times are not below it is not
damaged by what was read before. -/

namespace Scan

/-- A time within the limit leaves the bound within it. -/
theorem any_advanceOrderingBound {replay : Replay ν} {time last : U64}
    (h : replay.orderingBound.any (last < ·) = false) (hle : time ≤ last) :
    (replay.advanceOrderingBound time).orderingBound.any (last < ·) = false := by
  cases hbound : replay.orderingBound with
  | none => simpa [Replay.advanceOrderingBound, hbound] using hle
  | some bound =>
      have hlast : bound ≤ last := by simpa [hbound] using h
      simpa [Replay.advanceOrderingBound, hbound] using And.intro hlast hle

/-- Damage moves the bound up to its own time. -/
theorem any_damaged {sc : Scan ν} {time : Option U64} {last : U64}
    (h : sc.replay.orderingBound.any (last < ·) = false) (hle : ∀ t ∈ time, t ≤ last) :
    (sc.damaged time).replay.orderingBound.any (last < ·) = false := by
  rw [orderingBound_damaged]
  cases time with
  | none => exact h
  | some t => exact any_advanceOrderingBound h (hle t rfl)

/-- Whatever comes of a record, the bound does not pass its time. -/
theorem any_next {sc : Scan ν} {r : Record ν} {last : U64}
    (h : sc.replay.orderingBound.any (last < ·) = false) (hle : r.timestamp ≤ last) :
    (sc.next r).replay.orderingBound.any (last < ·) = false := by
  rcases sc.seen.scanRecord_cases r with ⟨htakes, hstep⟩ | ⟨-, hdamaged⟩
  · have hbound := hstep.orderingBound (not_older_of_takes htakes)
    have hnext : (sc.next r).replay.orderingBound = some r.timestamp := hbound
    simpa [hnext] using hle
  · have hnext : sc.next r = sc.seen.damaged (some r.timestamp) := hdamaged
    rw [hnext]
    refine any_damaged h ?_
    rintro _ ⟨⟩
    exact hle

/-- Records up to a time leave the bound within it. -/
theorem any_foldl_next {rs : List (Record ν)} {sc : Scan ν} {last : U64}
    (h : sc.replay.orderingBound.any (last < ·) = false) (hle : ∀ r ∈ rs, r.timestamp ≤ last) :
    (rs.foldl next sc).replay.orderingBound.any (last < ·) = false := by
  induction rs generalizing sc with
  | nil => exact h
  | cons r rest ih =>
      exact ih (any_next h (hle r List.mem_cons_self)) fun r' hr' => hle r' (List.mem_cons_of_mem _ hr')

end Scan

/-! ## Reading well-formed epochs

Whatever state the scanner is in, a boot ends what was being read and starts afresh. -/

namespace Scan

/-- What is committed, and what waits. -/
theorem allRecords_eq (sc : Scan ν) : sc.allRecords = sc.replay.records ++ sc.pending := by
  obtain ⟨state, replay, sawNonblank⟩ := sc
  cases state <;> rfl

/-- Records of the epoch being read, in order, are added to it one by one. -/
theorem foldl_next_of_usable {id : String} {rs : List (Record ν)} {sc : Scan ν} {epoch : Epoch ν}
    (hstate : sc.state = .usable epoch) (hid : epoch.bootId = id) {time : U64}
    (hbound : sc.replay.orderingBound = some time) (hids : ∀ r ∈ rs, r.bootId = id)
    (hboots : ∀ r ∈ rs, r.isBoot = false) (htimes : ∀ r ∈ rs, time ≤ r.timestamp)
    (hchron : Chronological rs) :
    (∃ epoch', (rs.foldl next sc).state = .usable epoch' ∧ epoch'.bootId = id) ∧
      (rs.foldl next sc).allRecords = sc.allRecords ++ rs ∧
      (rs.foldl next sc).replay.records = sc.replay.records ∧
      (rs.foldl next sc).replay.orderingBound = (time :: rs.map Record.timestamp).getLast? := by
  induction rs generalizing sc epoch time with
  | nil => exact ⟨⟨epoch, hstate, hid⟩, by simp, rfl, hbound⟩
  | cons r rest ih =>
      have hkind : (∃ s, r = .sample s) ∨ (∃ c, r = .checkpoint c) ∧ (some ([] : List (StateEntry ν))).isSome := by
        cases r with
        | boot b => exact absurd (hboots (.boot b) List.mem_cons_self) (by simp)
        | sample s => exact .inl ⟨s, rfl⟩
        | checkpoint c => exact .inr ⟨⟨c, rfl⟩, rfl⟩
      have hold : sc.replay.orderingBound.any (r.timestamp < ·) = false := by
        simpa [hbound] using htimes r List.mem_cons_self
      obtain ⟨⟨epoch', hstate', hid'⟩, hall, hbound', hreplay⟩ :=
        next_of_reading (.sampled epoch [] hstate hid) (hids r List.mem_cons_self) hold hkind
      obtain ⟨hfirst, hrest⟩ := List.pairwise_cons.mp hchron
      obtain ⟨husable, hall', hrecords, hbound''⟩ := ih hstate' hid' hbound'
        (fun r' hr' => hids r' (List.mem_cons_of_mem _ hr'))
        (fun r' hr' => hboots r' (List.mem_cons_of_mem _ hr')) hfirst hrest
      refine ⟨husable, ?_, ?_, ?_⟩
      · rw [List.foldl_cons, hall', hall, List.append_assoc, List.singleton_append]
      · rw [List.foldl_cons, hrecords, hreplay]
        rfl
      · rw [List.foldl_cons, hbound'', List.map_cons, List.getLast?_cons_cons]

/-- A line that was seen stays seen. -/
theorem sawNonblank_foldl_next_of_met {sc : Scan ν} (h : sc.sawNonblank = true) (rs : List (Record ν)) :
    (rs.foldl next sc).sawNonblank = true := by
  cases rs with
  | nil => exact h
  | cons r rest => exact sawNonblank_foldl_next (by simp) sc

/-- A boot commits the epoch before it, and waits for a sample. -/
theorem next_boot_state {boot : BootRecord} {sc : Scan ν}
    (hbound : sc.replay.orderingBound.any (boot.timestamp < ·) = false) :
    (sc.next (.boot boot)).state = .awaitSample (Epoch.new boot) ∧
      (sc.next (.boot boot)).replay.records = sc.closeEpoch.records := by
  obtain ⟨hreading, hall, -⟩ := next_boot hbound
  cases hreading with
  | booted boot' hstate hid =>
      have hlast : (sc.next (.boot boot)).replay.records ++ [.boot boot'] =
          sc.closeEpoch.records ++ [.boot boot] := by
        rw [← hall, allRecords, hstate]
        rfl
      obtain ⟨hsame, hboot'⟩ := List.append_inj' hlast rfl
      obtain rfl : boot' = boot := by simpa using hboot'
      exact ⟨hstate, hsame⟩

/-- **One epoch.** Whatever came before, its boot ends it, and the epoch is read whole. -/
theorem foldl_next_epoch (e : WellFormedEpoch ν) {sc : Scan ν}
    (hbound : sc.replay.orderingBound.any (e.boot.timestamp < ·) = false) :
    (∃ epoch, (e.records.foldl next sc).state = .usable epoch ∧ epoch.bootId = e.boot.bootId) ∧
      (e.records.foldl next sc).replay.records = sc.closeEpoch.records ∧
      (e.records.foldl next sc).pending = e.records ∧
      (e.records.foldl next sc).replay.orderingBound = (e.records.map Record.timestamp).getLast? := by
  obtain ⟨hreading, hall, hboot, -⟩ := @next_boot _ sc e.boot hbound
  obtain ⟨-, hclosed⟩ := @next_boot_state _ e.boot sc hbound
  obtain ⟨hfirst, hsorted⟩ := List.pairwise_cons.mp e.sorted
  have hold : (sc.next (.boot e.boot)).replay.orderingBound.any
      ((Record.sample e.sample : Record ν).timestamp < ·) = false := by
    rw [hboot]
    exact decide_eq_false (not_lt.mpr (hfirst (.sample e.sample) List.mem_cons_self))
  have hsampleId : (Record.sample e.sample : Record ν).bootId = e.boot.bootId := e.bootId_sample
  obtain ⟨⟨epoch, hstate, hid⟩, hall', hsample, hreplay⟩ :=
    next_of_reading hreading hsampleId hold (.inl ⟨_, rfl⟩)
  obtain ⟨hafter, hrest⟩ := List.pairwise_cons.mp hsorted
  obtain ⟨husable, hall'', hrecords, hbound'⟩ := foldl_next_of_usable hstate hid hsample
    e.bootId_rest e.isBoot_rest hafter hrest
  have hsame : (e.records.foldl next sc).replay.records = sc.closeEpoch.records := by
    rw [← hclosed]
    refine hrecords.trans ?_
    rw [hreplay]
    rfl
  refine ⟨husable, hsame, ?_, ?_⟩
  · have hwhole : (e.records.foldl next sc).allRecords = sc.closeEpoch.records ++ e.records := by
      refine hall''.trans ?_
      rw [hall', hall]
      simp [WellFormedEpoch.records, WellFormedEpoch.body]
    rw [allRecords_eq, hsame] at hwhole
    exact List.append_cancel_left hwhole
  · refine hbound'.trans ?_
    simp only [WellFormedEpoch.records, WellFormedEpoch.body, List.map_cons, List.getLast?_cons_cons]

/-- A usable epoch is committed when it ends. -/
theorem closeEpoch_records_of_usable {sc : Scan ν} {epoch : Epoch ν} (h : sc.state = .usable epoch) :
    sc.closeEpoch.records = sc.allRecords := by
  have hlog : sc.closeEpoch.records = sc.replay.records ++ sc.committed :=
    congrArg Prod.fst sc.log_closeEpoch
  rw [hlog, allRecords, committed, h]

/-- **Many epochs** are read whole, after what is committed. -/
theorem foldl_next_joined {epochs : List (WellFormedEpoch ν)} (hchron : Chronological (joined epochs))
    {sc : Scan ν}
    (hbound : ∀ r ∈ joined epochs, sc.replay.orderingBound.any (r.timestamp < ·) = false) :
    ((joined epochs).foldl next sc).closeEpoch.records = sc.closeEpoch.records ++ joined epochs := by
  induction epochs generalizing sc with
  | nil => simp [joined]
  | cons e rest ih =>
      have hsplit : joined (e :: rest) = e.records ++ joined rest := rfl
      rw [hsplit] at hchron hbound ⊢
      obtain ⟨-, hrest, hcross⟩ := List.pairwise_append.mp hchron
      obtain ⟨⟨epoch, husable, -⟩, hrecords, hpending, hend⟩ := foldl_next_epoch e
        (hbound (.boot e.boot) (List.mem_append_left _ List.mem_cons_self))
      have hbound' : ∀ r ∈ joined rest,
          (e.records.foldl next sc).replay.orderingBound.any (r.timestamp < ·) = false := by
        intro r hr
        rw [hend]
        cases hlast : (e.records.map Record.timestamp).getLast? with
        | none => rfl
        | some last =>
            obtain ⟨r', hr', rfl⟩ := List.mem_map.mp (List.mem_of_getLast? hlast)
            exact decide_eq_false (not_lt.mpr (hcross r' hr' r hr))
      rw [List.foldl_append, ih hrest hbound', closeEpoch_records_of_usable husable, allRecords_eq, hrecords,
        hpending, List.append_assoc]

end Scan

/-! ## Lines in the place of an epoch's body

The lines may be anything that tells no later time and is no boot.  They leave three things they could have done: more
records in the epoch, the epoch excluded, and the bound moved within the limit. -/

namespace Scan

/-- **`Within`** — what lines confined to the epoch of `boot` can have done: the epochs before it are as
they were, what is left of the epoch is its boot and some of the records of the lines, and the bound has
not passed the limit. -/
structure Within (before : List (Record ν)) (boot : BootRecord) (limit : Option U64)
    (own : List (Record ν)) (sc : Scan ν) : Prop where
  met : sc.sawNonblank = true
  records : sc.replay.records = before
  epoch : ∀ epoch ∈ sc.epoch?, ∃ rest, epoch.records = .boot boot :: rest ∧ rest.Sublist own
  bound : ∀ last ∈ limit, sc.replay.orderingBound.any (last < ·) = false

variable {before own : List (Record ν)} {boot : BootRecord} {limit : Option U64} {sc : Scan ν}

theorem Within.seen (h : sc.Within before boot limit own) : sc.seen.Within before boot limit own :=
  ⟨rfl, h.records, h.epoch, h.bound⟩

/-- The boot of the epoch has just been read. -/
theorem within_boot {sc₀ : Scan ν} (hrecords : sc₀.closeEpoch.records = before)
    (hbound : sc₀.replay.orderingBound.any (boot.timestamp < ·) = false)
    (hlimit : ∀ last ∈ limit, boot.timestamp ≤ last) :
    (sc₀.next (.boot boot)).Within before boot limit [] := by
  obtain ⟨hstate, hreplay⟩ := next_boot_state hbound
  obtain ⟨-, -, hboot, -⟩ := next_boot hbound
  refine ⟨sawNonblank_scanRecord _ _, hreplay.trans hrecords, ?_, ?_⟩
  · intro epoch hepoch
    obtain rfl : Epoch.new boot = epoch := by simpa [epoch?, hstate] using hepoch
    exact ⟨[], rfl, .slnil⟩
  · intro last hlast
    rw [hboot]
    simpa using hlimit last hlast

theorem Within.mono (h : sc.Within before boot limit own) {own' : List (Record ν)}
    (hsub : own.Sublist own') : sc.Within before boot limit own' where
  met := h.met
  records := h.records
  epoch := by
    intro epoch hepoch
    obtain ⟨rest, hrest, hown⟩ := h.epoch epoch hepoch
    exact ⟨rest, hrest, hown.trans hsub⟩
  bound := h.bound

/-- Damage excludes the epoch, and no other. -/
theorem Within.damaged (h : sc.Within before boot limit own) {time : Option U64}
    (hle : ∀ t ∈ time, ∀ last ∈ limit, t ≤ last) : (sc.damaged time).Within before boot limit own where
  met := h.met
  records := (sc.records_damaged time).1.trans h.records
  epoch := by simp [epoch?, (sc.records_damaged time).2]
  bound := by
    intro last hlast
    exact any_damaged (h.bound last hlast) fun t ht => hle t ht last hlast

/-- A record that joins the epoch. -/
theorem Within.join (h : sc.Within before boot limit own) {epoch epoch' : Epoch ν} {r : Record ν}
    (hepoch : sc.epoch? = some epoch) (hrecords : epoch'.records = epoch.records ++ [r])
    (hle : ∀ last ∈ limit, r.timestamp ≤ last) :
    (sc.join epoch' r.timestamp).Within before boot limit (own ++ [r]) where
  met := h.met
  records := h.records
  epoch := by
    rintro _ ⟨⟩
    obtain ⟨rest, hrest, hsub⟩ := h.epoch epoch hepoch
    exact ⟨rest ++ [r], by rw [hrecords, hrest]; rfl, hsub.append (List.Sublist.refl _)⟩
  bound := by
    intro last hlast
    exact any_advanceOrderingBound (h.bound last hlast) (hle last hlast)

/-- The epochs that follow are not older than the bound. -/
theorem Within.bound_after {after : List (WellFormedEpoch ν)}
    (h : sc.Within before boot (after.head?.map fun next => next.boot.timestamp) own)
    (hchron : Chronological (joined after)) :
    ∀ r ∈ joined after, sc.replay.orderingBound.any (r.timestamp < ·) = false := by
  intro r hr
  cases after with
  | nil => simp [joined] at hr
  | cons next rest =>
      have hnext : next.boot.timestamp ≤ r.timestamp := by
        have hsplit : joined (next :: rest) = .boot next.boot :: (next.body ++ joined rest) := rfl
        rw [hsplit] at hchron hr
        rcases List.mem_cons.mp hr with rfl | hr
        · exact le_rfl
        · exact (List.pairwise_cons.mp hchron).1 r hr
      have hbound := h.bound next.boot.timestamp rfl
      cases hlast : sc.replay.orderingBound with
      | none => rfl
      | some bound =>
          have hle : bound ≤ next.boot.timestamp := by simpa [hlast] using hbound
          simpa using hle.trans hnext

/-- What is left of the epoch when it ends. -/
theorem Within.closeEpoch (h : sc.Within before boot limit own) :
    ∃ left, sc.closeEpoch.records = before ++ left ∧
      (left = [] ∨ ∃ rest, left = .boot boot :: rest ∧ rest.Sublist own) := by
  have hrecords : sc.closeEpoch.records = sc.replay.records ++ sc.committed :=
    congrArg Prod.fst sc.log_closeEpoch
  refine ⟨sc.committed, by rw [hrecords, h.records], ?_⟩
  cases hstate : sc.state with
  | awaitBoot => simp [committed, hstate]
  | awaitSample epoch => simp [committed, hstate]
  | invalidEpoch => simp [committed, hstate]
  | usable epoch =>
      refine .inr ?_
      simp only [committed, hstate]
      exact h.epoch epoch (by rw [epoch?, hstate]; rfl)

end Scan

section Files

variable [F64 ν] {S : Serde ν}

/-- The time the scanner reads off a line: that of its record, or one that can be trusted. -/
def parseableTimestamp (S : Serde ν) (line : Bytes) : Option U64 :=
  match decodeRecord S line with
  | .ok r => some r.timestamp
  | .error _ => S.trustworthyTimestamp line

/-- A line that may stand in for an epoch's body: not a boot, no format or version this build refuses, and
no time past the limit, if there is one. -/
structure Confined (S : Serde ν) (limit : Option U64) (line : Bytes) : Prop where
  notBoot : ∀ boot, decodeRecord S line ≠ .ok (.boot boot)
  format : decodeRecord S line ≠ .error .unsupportedFormat
  version : decodeRecord S line ≠ .error .unsupportedVersion
  within : ∀ time ∈ parseableTimestamp S line, ∀ last ∈ limit, time ≤ last

/-- A line that is no JSON, and tells no time. -/
theorem confined_of_invalidJson {line : Bytes} (hdecode : decodeRecord S line = .error .invalidJson)
    (htime : S.trustworthyTimestamp line = none) (limit : Option U64) : Confined S limit line where
  notBoot := by simp [hdecode]
  format := by simp [hdecode]
  version := by simp [hdecode]
  within := by simp [parseableTimestamp, hdecode, htime]

/-- A record that is not a boot. -/
theorem confined_of_record {line : Bytes} {r : Record ν} (hdecode : decodeRecord S line = .ok r)
    (hboot : r.isBoot = false) {limit : Option U64} (hle : ∀ last ∈ limit, r.timestamp ≤ last) :
    Confined S limit line where
  notBoot := by
    intro boot heq
    obtain rfl : r = .boot boot := by simpa [hdecode] using heq
    cases hboot
  format := by simp [hdecode]
  version := by simp [hdecode]
  within := by simpa [parseableTimestamp, hdecode] using hle

namespace Scan

/-- Only a format or a version of another build stops the scan. -/
theorem exists_scanLine {limit : Option U64} {line : Bytes} (h : Confined S limit line) (sc : Scan ν)
    (index : ℕ) : ∃ sc', sc.scanLine S index line = .ok sc' := by
  rw [scanLine]
  split
  · exact ⟨_, rfl⟩
  · cases hdecode : decodeRecord S line with
    | ok r => exact ⟨_, rfl⟩
    | error error =>
        cases error <;> first | exact ⟨_, rfl⟩ | exact absurd hdecode h.format | exact absurd hdecode h.version

variable {before own : List (Record ν)} {boot : BootRecord} {limit : Option U64} {sc : Scan ν}

/-- **One line** confined to the epoch. -/
theorem Within.scanLine (h : sc.Within before boot limit own) {line : Bytes}
    (hline : Confined S limit line) {index : ℕ} {sc' : Scan ν} (hstep : sc.scanLine S index line = .ok sc') :
    sc'.Within before boot limit (own ++ decoded S [line]) := by
  have hmore : own.Sublist (own ++ decoded S [line]) := List.sublist_append_left _ _
  rcases scanLine_cases hstep with ⟨-, rfl⟩ | ⟨-, time, rfl, htime⟩ | ⟨-, r, hdecode, -, htakes⟩
  · exact h.mono hmore
  · refine (h.seen.damaged ?_).mono hmore
    intro t ht last hlast
    have hparse : parseableTimestamp S line = time := htime.symm
    exact hline.within t (hparse ▸ ht) last hlast
  · have hown : decoded S [line] = [r] := by simp [decoded, hdecode, Except.toOption]
    have hle : ∀ last ∈ limit, r.timestamp ≤ last :=
      hline.within r.timestamp (by simp [parseableTimestamp, hdecode])
    rw [hown]
    cases htakes with
    | boot b => exact absurd hdecode (hline.notBoot b)
    | first epoch s hstate hid => exact h.seen.join (by rw [epoch?, hstate]) rfl hle
    | sample epoch s hstate hid => exact h.seen.join (by rw [epoch?, hstate]) rfl hle
    | checkpoint epoch c hstate hid => exact h.seen.join (by rw [epoch?, hstate]) rfl hle

/-- **All the lines.** None of them stops the scan. -/
theorem Within.scanLines {lines : List Bytes} (h : sc.Within before boot limit own)
    (hlines : ∀ line ∈ lines, Confined S limit line) (index : ℕ) :
    ∃ sc', Scan.scanLines S index sc lines = .ok sc' ∧
      sc'.Within before boot limit (own ++ decoded S lines) := by
  induction lines generalizing sc own index with
  | nil => exact ⟨sc, rfl, by simpa [decoded] using h⟩
  | cons line rest ih =>
      obtain ⟨next, hnext⟩ := exists_scanLine (hlines line List.mem_cons_self) sc index
      obtain ⟨sc', hrest, hwithin⟩ := ih (h.scanLine (hlines line List.mem_cons_self) hnext)
        (fun line' hline' => hlines line' (List.mem_cons_of_mem _ hline')) (index + 1)
      refine ⟨sc', by simp only [Scan.scanLines, hnext, hrest], ?_⟩
      have hsplit : decoded S (line :: rest) = decoded S [line] ++ decoded S rest :=
        List.filterMap_append (l := [line])
      rw [hsplit, ← List.append_assoc]
      exact hwithin

end Scan

/-- **Damage stays local.** In a file of well-formed epochs, whatever stands in the place of one epoch's
body, the file still validates; the other epochs come back whole and in order, and between them at most
the boot of the damaged one with records of the lines that replaced its body. -/
theorem validateCanonical_damage {before after : List (WellFormedEpoch ν)}
    {e : WellFormedEpoch ν} (hchron : Chronological (joined (before ++ e :: after)))
    (hrs : ∀ r ∈ joined (before ++ e :: after), S.Restores r) {damage : Bytes}
    (hend : (readLines damage).2 = [])
    (hlines : ∀ line ∈ (readLines damage).1,
      Confined S (after.head?.map fun next => next.boot.timestamp) line) :
    ∃ replay own,
      validateCanonical S
        (fileOf S (joined before) ++ recordLine S (.boot e.boot) ++ damage ++ fileOf S (joined after)) =
          .ok replay ∧
      replay.records = joined before ++ own ++ joined after ∧
      (own = [] ∨ ∃ rest, own = .boot e.boot :: rest ∧ rest.Sublist (decoded S (readLines damage).1)) := by
  have hsplit : joined (before ++ e :: after) =
      joined before ++ (.boot e.boot :: e.body ++ joined after) := by
    simp [joined, WellFormedEpoch.records]
  rw [hsplit] at hchron hrs
  obtain ⟨hbefore, hlater, hcross⟩ := List.pairwise_append.mp hchron
  obtain ⟨hboot, hafter⟩ := List.pairwise_cons.mp hlater
  -- the epochs before, and the boot of the damaged one
  let sc₀ := (joined before).foldl Scan.next ({} : Scan ν)
  have h₀ : Scanned S (fileOf S (joined before)) sc₀ :=
    scanned_nil.fileOf fun r hr => hrs r (List.mem_append_left _ hr)
  have hrecords₀ : sc₀.closeEpoch.records = joined before :=
    Scan.foldl_next_joined hbefore fun r hr => rfl
  have hbound₀ : sc₀.replay.orderingBound.any (e.boot.timestamp < ·) = false :=
    Scan.any_foldl_next rfl fun r hr => hcross r hr (.boot e.boot) List.mem_cons_self
  let sc₁ := sc₀.next (.boot e.boot)
  have h₁ : Scanned S (fileOf S (joined before) ++ recordLine S (.boot e.boot)) sc₁ :=
    h₀.record (hrs (.boot e.boot) (List.mem_append_right _ List.mem_cons_self))
  have hwithin₁ : sc₁.Within (joined before) e.boot
      (after.head?.map fun next => next.boot.timestamp) [] :=
    Scan.within_boot hrecords₀ hbound₀ (by
      intro last hlast
      obtain ⟨next, hnext, rfl⟩ := Option.map_eq_some_iff.mp hlast
      refine hboot (.boot next.boot) (List.mem_append_right _ ?_)
      exact List.mem_flatMap.mpr ⟨next, List.mem_of_mem_head? hnext, List.mem_cons_self⟩)
  -- the lines in the place of its body
  obtain ⟨sc₂, hscan, hwithin₂⟩ := hwithin₁.scanLines hlines
    (1 + (readLines (fileOf S (joined before) ++ recordLine S (.boot e.boot))).1.length)
  have h₂ := h₁.append hend hscan
  -- and the epochs after
  have hafter' : Chronological (joined after) := hafter.sublist (List.sublist_append_right _ _)
  have hrs' : ∀ r ∈ joined after, S.Restores r := fun r hr =>
    hrs r (List.mem_append_right _ (List.mem_cons_of_mem _ (List.mem_append_right _ hr)))
  have h₃ := h₂.fileOf hrs'
  have hrecords₃ := Scan.foldl_next_joined hafter' (hwithin₂.bound_after hafter')
  obtain ⟨own, hown, hleft⟩ := hwithin₂.closeEpoch
  refine ⟨_, own, h₃.validate (Scan.sawNonblank_foldl_next_of_met hwithin₂.met _), ?_, hleft⟩
  rw [hrecords₃, hown]

end Files

/-- An epoch of a boot and one sample. -/
def sampledOnce (id : String) (start time : U64) (h : start ≤ time) : WellFormedEpoch ℚ where
  boot := ⟨start, id, ⟨40, 1, [40]⟩⟩
  sample := ⟨time, id, ⟨40, 1, [40]⟩, []⟩
  rest := []
  bootId_sample := rfl
  bootId_rest := by simp
  isBoot_rest := by simp
  sorted := by simpa [Record.timestamp] using h

/-- A sample of the epoch before, in the place of the epoch's own. -/
def strayRecord : Record ℚ := .sample ⟨45, "a", ⟨40, 1, [40]⟩, []⟩

/-- Three epochs; in the second a line that is no record, then the stray sample. -/
theorem validateCanonical_damage_stray :
    ∃ replay own,
      validateCanonical json
        (fileOf json (joined [sampledOnce "a" 10 20 (by decide)]) ++
          recordLine json (.boot (sampledOnce "b" 30 40 (by decide)).boot) ++
          ([0x78, newline] ++ recordLine json strayRecord) ++
          fileOf json (joined [sampledOnce "c" 50 60 (by decide)])) = .ok replay ∧
      replay.records = joined [sampledOnce "a" 10 20 (by decide)] ++ own ++
        joined [sampledOnce "c" 50 60 (by decide)] ∧
      (own = [] ∨ ∃ rest, own = .boot (sampledOnce "b" 30 40 (by decide)).boot :: rest ∧
        rest.Sublist (decoded json
          (readLines ([0x78, newline] ++ recordLine json strayRecord)).1)) := by
  have hstray : strayRecord.Encodable := stateOk_nil []
  obtain ⟨line, hencode, hnl, -, hdecode⟩ := json_faithful.restores hstray
  have hline : recordLine json strayRecord = line ++ [newline] := by simp [recordLine, hencode]
  -- the damage is two lines: one of garbage, and a record of another boot
  have hread : readLines ([0x78, newline] ++ recordLine json strayRecord) = ([[0x78], line], []) := by
    have hlast : readLines (line ++ [newline]) = ([line], []) := by
      have := @readLines_cons line [] hnl
      simpa [readLines] using this
    rw [hline, readLines_append_of_terminated (by decide), hlast]
    rfl
  have hgarbage : decodeRecord json [0x78] = .error .invalidJson := by decide +kernel
  have hgarbage' : json.trustworthyTimestamp [0x78] = none := by decide +kernel
  refine @validateCanonical_damage _ _ _ [_] [_] _ ?_ ?_ _ (by rw [hread]) ?_
  -- the epochs in front and behind are in order, and all of their records are read back
  · refine List.Pairwise.of_map Record.timestamp (fun _ _ h => h) ?_
    decide
  · intro r hr
    simp only [joined, sampledOnce, WellFormedEpoch.records, WellFormedEpoch.body, List.cons_append,
      List.nil_append, List.flatMap_cons, List.flatMap_nil, List.mem_cons, List.not_mem_nil,
      or_false] at hr
    rcases hr with rfl | rfl | rfl | rfl | rfl | rfl
    all_goals exact json_faithful.restores (by first | exact True.intro | exact stateOk_nil [])
  -- neither of the two lines gets beyond its epoch
  · rw [hread]
    intro l hl
    simp only [List.mem_cons, List.not_mem_nil, or_false] at hl
    rcases hl with rfl | rfl
    · exact confined_of_invalidJson hgarbage hgarbage' _
    · refine confined_of_record hdecode rfl ?_
      rintro _ ⟨⟩
      decide

end Flock.History
