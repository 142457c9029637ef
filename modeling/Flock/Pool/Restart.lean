/-
# Flock.Pool.Restart — a lane window through a restart.

A snapshot writes each stamp as a wall-clock time in milliseconds: the truncated second of the snapshot, less the
stamp's age.  The next process reads it against its own truncated second.  Three cut-offs apply on the way, at the
export, at the read of the database and at the restore of the lane, and the sub-second phases of the two readings
stay in the error.

`restoredStamp` is the way of one stamp through all of it, and the rest of the module shows that a lane comes back
as the deque of these, in order and one for one (`sent_restored`).  Wall clocks are nanoseconds since the epoch, the
two processes count their monotone clocks from origins of their own, and milliseconds since the epoch are taken to
fit their word.
-/
import Flock.Pool.Life

namespace Flock

open Lib (System age inWindow Chronological)

/-- `unix_now`: the wall clock in whole seconds. -/
def unixNow (wall : ℕ) : ℕ := wall / secs 1

/-- `Duration::as_millis`. -/
def asMillis (d : ℕ) : ℕ := d / millis 1

namespace Lane

/-- The stamps of one lane as `lane_window_rows` writes them: those in the window, in milliseconds, sorted. -/
def windowRow (nowUnix : ℕ) (now : ℤ) (l : Lane) : List ℕ :=
  ((l.sent.filter fun t => decide (age now t < window)).map fun t =>
    nowUnix * 1000 - asMillis (age now t)).insertionSort (· ≤ ·)

end Lane

namespace Pool

/-- `Pool::lane_window_rows`. -/
def laneWindowRows (p : Pool) (nowUnix : ℕ) (now : ℤ) : List (String × List ℕ) :=
  (p.lanes.map fun l => (l.key, l.windowRow nowUnix now)).filter fun row => !row.2.isEmpty

/-- The read of a persisted row: what is older than the window and a grace is dropped. -/
def readRow (nowUnix : ℕ) (row : String × List ℕ) : String × List ℕ :=
  (row.1, row.2.filter fun ms => decide ((nowUnix - 120) * 1000 ≤ ms))

/-- The lane windows that `ProviderRuntime::restore` writes. -/
def restoreRows (p : Pool) (rows : List (String × List ℕ)) (nowUnix : ℕ) (now : ℤ) : Pool :=
  rows.foldl (fun p row => p.restoreLaneWindow row.1 row.2 nowUnix now) p

end Pool

/-- The moment of a snapshot or a restore: the wall clock, and the monotone clock of the process. -/
structure Moment where
  wall : ℕ
  now : ℤ

namespace Moment

/-- The second that goes into the snapshot, or comes out of the clock at the restore. -/
def unix (m : Moment) : ℕ := unixNow m.wall

/-- The true age at `m₂` of a stamp that the process of `m₁` recorded. -/
def trueAge (m₁ m₂ : Moment) (t : ℤ) : ℤ := (m₁.now - t) + (m₂.wall - m₁.wall)

/-- One stamp from the snapshot at `m₁` to the lane restored at `m₂`. -/
def restoredStamp (m₁ m₂ : Moment) (t : ℤ) : Option ℤ :=
  let ms := m₁.unix * 1000 - asMillis (age m₁.now t)
  if age m₁.now t < window ∧ (m₂.unix - 120) * 1000 ≤ ms ∧ millis (m₂.unix * 1000 - ms) < window then
    some (m₂.now - millis (m₂.unix * 1000 - ms))
  else none

variable {m₁ m₂ : Moment} {t r : ℤ}

/-- **The error of one stamp.**  The truncations of the two seconds and of the milliseconds are all there is. -/
theorem restoredStamp_error (hpast : t ≤ m₁.now) (hwall : m₁.wall ≤ m₂.wall)
    (hepoch : asMillis (age m₁.now t) ≤ m₁.unix * 1000) (h : restoredStamp m₁ m₂ t = some r) :
    m₂.now - r - trueAge m₁ m₂ t < secs 1 ∧ trueAge m₁ m₂ t - (m₂.now - r) < secs 1 + millis 1 := by
  simp only [restoredStamp, Option.ite_none_right_eq_some, Option.some.injEq] at h
  obtain ⟨-, rfl⟩ := h
  simp only [trueAge, unix, unixNow, asMillis, age, secs, millis] at *
  omega

/-- **No stamp younger than a minute is lost.** -/
theorem restoredStamp_isSome (hpast : t ≤ m₁.now) (hwall : m₁.wall ≤ m₂.wall)
    (hepoch : asMillis (age m₁.now t) ≤ m₁.unix * 1000) (hyoung : trueAge m₁ m₂ t < secs 60) :
    (restoredStamp m₁ m₂ t).isSome = true := by
  simp only [restoredStamp, Option.isSome_ite]
  simp only [trueAge, unix, unixNow, asMillis, age, secs, millis, window] at *
  omega

/-- Older stamps are restored as older. -/
theorem restoredStamp_le {t' r' : ℤ} (hle : t ≤ t') (h : restoredStamp m₁ m₂ t = some r)
    (h' : restoredStamp m₁ m₂ t' = some r') : r ≤ r' := by
  simp only [restoredStamp, Option.ite_none_right_eq_some, Option.some.injEq] at h h'
  obtain ⟨-, rfl⟩ := h
  obtain ⟨-, rfl⟩ := h'
  simp only [unix, unixNow, asMillis, age, secs, millis]
  omega

end Moment

/-! ## One lane -/

namespace Lane

/-- One persisted time as `restore_lane_window` reads it. -/
def restoredMs (nowUnix : ℕ) (now : ℤ) (ms : ℕ) : Option ℤ :=
  if millis (nowUnix * 1000 - ms) < window then some (now - millis (nowUnix * 1000 - ms)) else none

/-- A row restored to a lane, if it is the lane's. -/
def restoreRow (nowUnix : ℕ) (now : ℤ) (l : Lane) (row : String × List ℕ) : Lane :=
  if l.key = row.1 then { l with sent := l.sent ++ row.2.filterMap (restoredMs nowUnix now) } else l

variable {l : Lane} {now : ℤ} {nowUnix : ℕ} {rows : List (String × List ℕ)} {ms : List ℕ}

/-- Rows of other keys leave the lane. -/
theorem restoreRow_of_notMem (h : l.key ∉ rows.map Prod.fst) : rows.foldl (restoreRow nowUnix now) l = l := by
  induction rows with
  | nil => rfl
  | cons row rows ih =>
      rw [List.map_cons, List.mem_cons, not_or] at h
      rw [List.foldl_cons, restoreRow, if_neg h.1]
      exact ih h.2

/-- The row of its key is restored to it, once. -/
theorem restoreRow_of_mem (hnodup : (rows.map Prod.fst).Nodup) (h : (l.key, ms) ∈ rows) :
    rows.foldl (restoreRow nowUnix now) l =
      { l with sent := l.sent ++ ms.filterMap (restoredMs nowUnix now) } := by
  induction rows with
  | nil => cases h
  | cons row rows ih =>
      rw [List.map_cons, List.nodup_cons] at hnodup
      obtain ⟨hfresh, hnodup⟩ := hnodup
      rw [List.foldl_cons]
      rcases List.mem_cons.mp h with rfl | h
      · rw [restoreRow, if_pos rfl]
        exact restoreRow_of_notMem hfresh
      · have hother : l.key ≠ row.1 := by
          intro heq
          apply hfresh
          rw [← heq]
          exact List.mem_map_of_mem h
        rw [restoreRow, if_neg hother]
        exact ih hnodup h

/-- A deque in order is written in order. -/
theorem windowRow_eq (h : Chronological now l.sent) (nowUnix : ℕ) :
    l.windowRow nowUnix now = (l.sent.filter fun t => decide (age now t < window)).map fun t =>
      nowUnix * 1000 - asMillis (age now t) := by
  apply List.Pairwise.insertionSort_eq
  apply List.pairwise_map.mpr
  apply (h.ordered.sublist List.filter_sublist).imp
  intro t t' hle
  have hage : asMillis (age now t') ≤ asMillis (age now t) := by
    apply Nat.div_le_div_right
    unfold age
    omega
  omega

/-- A stamp that is written and read back is left to the cut-off of the restore. -/
theorem restoredStamp_of_read {m₁ m₂ : Moment} {t : ℤ} {ms : ℕ}
    (hms : ms = m₁.unix * 1000 - asMillis (age m₁.now t)) (hread : (m₂.unix - 120) * 1000 ≤ ms)
    (hwritten : age m₁.now t < window) : Moment.restoredStamp m₁ m₂ t = restoredMs m₂.unix m₂.now ms := by
  unfold Moment.restoredStamp restoredMs
  rw [← hms]
  dsimp only
  split
  · rename_i hall
    rw [if_pos hall.2.2]
  · rename_i hnot
    rw [if_neg fun hin => hnot ⟨hwritten, hread, hin⟩]

/-- One that is not is not restored. -/
theorem restoredStamp_of_dropped {m₁ m₂ : Moment} {t : ℤ} {ms : ℕ}
    (hms : ms = m₁.unix * 1000 - asMillis (age m₁.now t))
    (hdropped : ¬ ((m₂.unix - 120) * 1000 ≤ ms ∧ age m₁.now t < window)) :
    Moment.restoredStamp m₁ m₂ t = none := by
  unfold Moment.restoredStamp
  rw [← hms]
  exact if_neg fun hall => hdropped ⟨hall.2.1, hall.1⟩

/-- The way of the stamps of a lane: export, read and restore are one map. -/
theorem restored_windowRow {m₁ m₂ : Moment} (h : Chronological m₁.now l.sent) :
    (Pool.readRow m₂.unix (l.key, l.windowRow m₁.unix m₁.now)).2.filterMap (restoredMs m₂.unix m₂.now) =
      l.sent.filterMap (Moment.restoredStamp m₁ m₂) := by
  unfold Pool.readRow
  dsimp only
  rw [windowRow_eq h, List.filter_map, List.filter_filter, List.filterMap_map, List.filterMap_filter]
  apply List.filterMap_congr
  intro t _
  split
  · rename_i hin
    simp only [Function.comp_apply, Bool.and_eq_true, decide_eq_true_eq] at hin
    -- the composition is rewritten first: the kernel would unfold the sums of milliseconds to see through it
    rw [Function.comp_apply, restoredStamp_of_read rfl hin.1 hin.2]
  · rename_i hout
    simp only [Function.comp_apply, Bool.and_eq_true, decide_eq_true_eq] at hout
    exact (restoredStamp_of_dropped rfl hout).symm

end Lane

/-! ## The whole pool -/

namespace Pool

variable {p : Pool} {now : ℤ} {nowUnix : ℕ} {rows : List (String × List ℕ)} {key : String}

/-- With distinct keys the rewrite of a key is one map over the lanes. -/
theorem modifyKey_lanes {f : Lane → Lane} (hkeys : (p.lanes.map (·.key)).Nodup) (key : String) :
    (p.modifyKey key f).lanes = p.lanes.map fun l => if l.key = key then f l else l := by
  unfold modifyKey
  split
  · rename_i i hfind
    obtain ⟨hi, hkey, -⟩ := List.findIdx?_eq_some_iff_getElem.mp hfind
    have hkey : p.lanes[i].key = key := by simpa using hkey
    apply List.ext_getElem?
    intro j
    rw [modifyLane_get, List.getElem?_map]
    cases hl : p.lanes[j]? with
    | none => rfl
    | some l =>
        obtain ⟨hj, rfl⟩ := List.getElem?_eq_some_iff.mp hl
        have hsame : i = j ↔ p.lanes[j].key = key := by
          constructor
          · rintro rfl
            exact hkey
          · intro heq
            have hlane : p.lanes[i] = p.lanes[j] :=
              List.inj_on_of_nodup_map hkeys (List.getElem_mem hi) (List.getElem_mem hj) (hkey.trans heq.symm)
            exact (List.Nodup.getElem_inj_iff (List.Nodup.of_map _ hkeys)).mp hlane
        rw [Option.map_some, Option.map_some]
        simp only [hsame]
  · rename_i hnone
    have hother : ∀ l ∈ p.lanes, l.key ≠ key := by simpa using List.findIdx?_eq_none_iff.mp hnone
    rw [List.map_congr_left fun l hl => if_neg (hother l hl), List.map_id']

/-- Restoring the rows goes lane by lane. -/
theorem restoreRows_lanes (hkeys : (p.lanes.map (·.key)).Nodup) (rows : List (String × List ℕ)) (nowUnix : ℕ)
    (now : ℤ) :
    (p.restoreRows rows nowUnix now).lanes = p.lanes.map fun l => rows.foldl (Lane.restoreRow nowUnix now) l := by
  induction rows generalizing p with
  | nil => simp [restoreRows]
  | cons row rows ih =>
      have hstep : (p.restoreLaneWindow row.1 row.2 nowUnix now).lanes =
          p.lanes.map fun l => Lane.restoreRow nowUnix now l row := modifyKey_lanes hkeys row.1
      have hkeys' : ((p.restoreLaneWindow row.1 row.2 nowUnix now).lanes.map (·.key)).Nodup := by
        rw [hstep, List.map_map]
        have hsame : (fun l : Lane => l.key) ∘ (fun l => Lane.restoreRow nowUnix now l row) = fun l => l.key := by
          funext l
          simp only [Function.comp_apply, Lane.restoreRow]
          split <;> rfl
        rw [hsame]
        exact hkeys
      show ((p.restoreLaneWindow row.1 row.2 nowUnix now).restoreRows rows nowUnix now).lanes = _
      rw [ih hkeys', hstep, List.map_map]
      rfl

theorem keys_eq_shape (p : Pool) : p.lanes.map (·.key) = p.shape.map Prod.fst := by
  unfold shape
  rw [List.map_map]
  rfl

/-- A pool of distinct specs has distinct keys. -/
theorem keys_assemble {specs : List LaneSpec} (h : (specs.map (·.key)).Nodup) (old : Option Pool) (now : ℤ) :
    ((assemble specs old now).lanes.map (·.key)).Nodup := by
  rw [keys_eq_shape, assemble_shape, List.map_map]
  have hperm := (enabledFirst_perm specs).map LaneSpec.key
  exact hperm.nodup_iff.mpr h

/-- The rows that come out of the database are those of the snapshot, each read with the cut-off. -/
def Persisted (p : Pool) (m₁ m₂ : Moment) (rows : List (String × List ℕ)) : Prop :=
  rows.Perm ((p.laneWindowRows m₁.unix m₁.now).map (readRow m₂.unix))

theorem keys_laneWindowRows (p : Pool) (nowUnix : ℕ) (now : ℤ) :
    ((p.laneWindowRows nowUnix now).map Prod.fst).Sublist (p.lanes.map (·.key)) := by
  have hsub := (List.filter_sublist (p := fun row : String × List ℕ => !row.2.isEmpty)
    (l := p.lanes.map fun l => (l.key, l.windowRow nowUnix now))).map Prod.fst
  rw [List.map_map] at hsub
  exact hsub

theorem Persisted.keys {m₁ m₂ : Moment} (h : p.Persisted m₁ m₂ rows) :
    (rows.map Prod.fst).Perm ((p.laneWindowRows m₁.unix m₁.now).map Prod.fst) := by
  have hkeys := List.Perm.map Prod.fst h
  rw [List.map_map] at hkeys
  exact hkeys

/-- **A lane comes back** as its stamps, each the way of `restoredStamp`; and a lane that the snapshot does not know
comes back empty. -/
theorem sent_restored {m₁ m₂ : Moment} {specs : List LaneSpec} (hordered : Chronicled m₁.now p)
    (hkeys : (p.lanes.map (·.key)).Nodup) (hspecs : (specs.map (·.key)).Nodup) (hrows : p.Persisted m₁ m₂ rows)
    {l' : Lane} (hl' : l' ∈ ((Pool.new specs m₂.now).restoreRows rows m₂.unix m₂.now).lanes) :
    (∀ l ∈ p.lanes, l'.key = l.key → l'.sent = l.sent.filterMap (Moment.restoredStamp m₁ m₂)) ∧
    (l'.key ∉ p.lanes.map (·.key) → l'.sent = []) := by
  have hnew : ((Pool.new specs m₂.now).lanes.map (·.key)).Nodup := keys_assemble hspecs none m₂.now
  have hnodup : (rows.map Prod.fst).Nodup := by
    rw [hrows.keys.nodup_iff]
    exact hkeys.sublist (keys_laneWindowRows p m₁.unix m₁.now)
  rw [restoreRows_lanes hnew, List.mem_map] at hl'
  obtain ⟨l₀, hl₀, rfl⟩ := hl'
  -- a lane of a fresh pool has sent nothing
  have hempty : l₀.sent = [] := by
    obtain ⟨j, hj⟩ := List.mem_iff_getElem?.mp hl₀
    obtain ⟨spec, -, rfl⟩ := assemble_get hj
    rfl
  by_cases hrow : l₀.key ∈ rows.map Prod.fst
  · obtain ⟨row, hmem, hkey⟩ := List.mem_map.mp hrow
    obtain ⟨row', hmem', rfl⟩ := List.mem_map.mp (hrows.mem_iff.mp hmem)
    obtain ⟨hexported, -⟩ := List.mem_filter.mp hmem'
    obtain ⟨l₁, hl₁, rfl⟩ := List.mem_map.mp hexported
    have hkey : l₁.key = l₀.key := hkey
    have hrow : (l₀.key, (readRow m₂.unix (l₁.key, l₁.windowRow m₁.unix m₁.now)).2) ∈ rows := hkey ▸ hmem
    rw [Lane.restoreRow_of_mem hnodup hrow, hempty, List.nil_append, Lane.restored_windowRow (hordered l₁ hl₁)]
    refine ⟨fun l hl hl₀l => ?_, fun hno => ?_⟩
    · obtain rfl := List.inj_on_of_nodup_map hkeys hl₁ hl (hkey.trans hl₀l)
      rfl
    · exact absurd (List.mem_map.mpr ⟨l₁, hl₁, hkey⟩) hno
  · rw [Lane.restoreRow_of_notMem hrow]
    refine ⟨fun l hl hl₀l => ?_, fun _ => hempty⟩
    -- nothing of the lane was in the window, or it would have a row
    have hnone : l.windowRow m₁.unix m₁.now = [] := by
      by_contra hne
      apply hrow
      have hexported : (l.key, l.windowRow m₁.unix m₁.now) ∈ p.laneWindowRows m₁.unix m₁.now := by
        apply List.mem_filter.mpr
        refine ⟨List.mem_map_of_mem hl, ?_⟩
        simpa using hne
      have hmem := hrows.mem_iff.mpr (List.mem_map_of_mem hexported)
      rw [hl₀l]
      exact List.mem_map_of_mem (f := Prod.fst) hmem
    have hway := @Lane.restored_windowRow l m₁ m₂ (hordered l hl)
    rw [hnone] at hway
    rw [hempty, ← hway]
    rfl

end Pool

/-- Runs of a pool whose specs have distinct keys, as those of `lane_specs` do. -/
def distinctLife : System PoolLife PoolOp where
  init s := ∃ specs : List LaneSpec, (specs.map (·.key)).Nodup ∧ s.pool = Pool.new specs s.now
  step s op s' := poolLife.step s op s' ∧ ∀ specs t, op = .rebuild specs t → (specs.map (·.key)).Nodup

/-- **`FaithfulWindow m₁ m₂ sent sent'`** — `sent'` is what a restart made of `sent`: no stamp younger than a minute
is lost, the stamps that are kept are restored one for one and in order, each with an age that is off by less than
1.001 seconds; so from then on every stamp that is younger than a minute is counted. -/
structure FaithfulWindow (m₁ m₂ : Moment) (sent sent' : List ℤ) : Prop where
  kept : ∃ kept : List ℤ, kept.Sublist sent ∧
    (∀ t, Moment.trueAge m₁ m₂ t < secs 60 → kept.count t = sent.count t) ∧
    List.Forall₂ (fun t r => (m₂.now - r - Moment.trueAge m₁ m₂ t).natAbs < millis 1001) kept sent'
  ordered : sent'.Pairwise (· ≤ ·)
  notEarly : ∀ now, m₂.now ≤ now →
    (sent.filter fun t => decide (Moment.trueAge m₁ m₂ t + (now - m₂.now) < secs 60)).length ≤
      (inWindow window now sent').length

/-- What a partial map keeps, and what it makes of it. -/
theorem forall₂_filterMap {R : ℤ → ℤ → Prop} {f : ℤ → Option ℤ} {sent : List ℤ}
    (h : ∀ t ∈ sent, ∀ r, f t = some r → R t r) :
    List.Forall₂ R (sent.filter fun t => (f t).isSome) (sent.filterMap f) := by
  induction sent with
  | nil => exact .nil
  | cons t sent ih =>
      have hrest := ih fun t' ht' => h t' (List.mem_cons_of_mem t ht')
      cases ht : f t with
      | none =>
          rw [List.filter_cons_of_neg (by simp [ht]), List.filterMap_cons_none ht]
          exact hrest
      | some r =>
          rw [List.filter_cons_of_pos (by simp [ht]), List.filterMap_cons_some ht]
          exact .cons (h t List.mem_cons_self r ht) hrest

/-- The deque of restored stamps is faithful, if no stamp in the window is older than the epoch. -/
theorem faithfulWindow_filterMap {m₁ m₂ : Moment} {sent : List ℤ} (h : Chronological m₁.now sent)
    (hwall : m₁.wall ≤ m₂.wall)
    (hepoch : ∀ t ∈ sent, age m₁.now t < window → asMillis (age m₁.now t) ≤ m₁.unix * 1000) :
    FaithfulWindow m₁ m₂ sent (sent.filterMap (Moment.restoredStamp m₁ m₂)) := by
  -- a stamp that is restored is off by the second of its snapshot and by the cut to milliseconds
  have herror : ∀ t ∈ sent, ∀ r, Moment.restoredStamp m₁ m₂ t = some r →
      m₂.now - r - Moment.trueAge m₁ m₂ t < secs 1 ∧
        Moment.trueAge m₁ m₂ t - (m₂.now - r) < secs 1 + millis 1 := by
    intro t ht r hr
    have hin : age m₁.now t < window := by
      simp only [Moment.restoredStamp, Option.ite_none_right_eq_some] at hr
      exact hr.1.1
    exact Moment.restoredStamp_error (h.past t ht) hwall (hepoch t ht hin) hr
  -- a stamp that is young on the new clock is restored
  have hsome : ∀ t ∈ sent, Moment.trueAge m₁ m₂ t < secs 60 → (Moment.restoredStamp m₁ m₂ t).isSome = true := by
    intro t ht hyoung
    have hpast := h.past t ht
    have hin : age m₁.now t < window := by
      simp only [Moment.trueAge, age, secs, window] at *
      omega
    exact Moment.restoredStamp_isSome hpast hwall (hepoch t ht hin) hyoung
  refine ⟨⟨sent.filter fun t => (Moment.restoredStamp m₁ m₂ t).isSome, List.filter_sublist, ?_, ?_⟩, ?_, ?_⟩
  -- so no young stamp is missing
  · intro t hyoung
    by_cases ht : t ∈ sent
    · exact List.count_filter (hsome t ht hyoung)
    · rw [List.count_eq_zero_of_not_mem ht]
      exact List.count_eq_zero_of_not_mem fun hmem => ht (List.mem_of_mem_filter hmem)
  · apply forall₂_filterMap
    intro t ht r hr
    have hbounds := herror t ht r hr
    simp only [secs, millis] at hbounds ⊢
    omega
  · apply List.Pairwise.filterMap _ _ h.ordered
    intro t t' hle r hr r' hr'
    exact Moment.restoredStamp_le hle hr hr'
  -- and a window that is counted anew has at least as many
  · intro now hnow
    rw [inWindow, List.filter_filterMap, List.length_filterMap_eq_countP, ← List.countP_eq_length_filter]
    apply List.countP_mono_left
    intro t ht hyoung
    have hyoung := of_decide_eq_true hyoung
    obtain ⟨r, hr⟩ := Option.isSome_iff_exists.mp (hsome t ht (by omega))
    have hbounds := herror t ht r hr
    have hin : age now r < window := by
      simp only [age, secs, window] at *
      omega
    simp [hr, hin]

namespace PoolLife

theorem poolLife_of_distinctLife {s : PoolLife} (h : distinctLife.Reachable s) : poolLife.Reachable s := by
  refine System.Reachable.invariant (I := poolLife.Reachable) ?_ ?_ h
  · rintro s ⟨specs, -, hnew⟩
    exact ⟨s, [], ⟨specs, hnew⟩, .nil s⟩
  · rintro s op s' hreach ⟨hstep, -⟩
    exact reachable_step hreach hstep

/-- Only a rebuild changes the keys. -/
theorem shape_step {s s' : PoolLife} {op : PoolOp} (hstep : s.step op = some s')
    (hne : ∀ specs t, op ≠ .rebuild specs t) : s'.pool.shape = s.pool.shape := by
  cases op with
  | reserve prefer t =>
      simp only [step, Option.ite_none_right_eq_some, Option.some.injEq] at hstep
      obtain ⟨-, rfl⟩ := hstep
      rcases Pool.reserve_cases s.pool t prefer with ⟨p', d, heq, ht⟩ | ⟨q, i, k, sticky, p', heq, -, ht, hg⟩
      · rw [heq]
        exact ht.shape
      · rw [heq]
        exact hg.shape.trans ht.shape
  | release lane stamp =>
      simp only [step, Option.some.injEq] at hstep
      subst hstep
      exact Pool.release_shape s.pool lane stamp
  | penalize lane backoff t =>
      simp only [step, Option.ite_none_right_eq_some, Option.some.injEq] at hstep
      obtain ⟨-, rfl⟩ := hstep
      exact Pool.penalize_shape s.pool lane t backoff
  | rebuild specs t => exact absurd rfl (hne specs t)
  | restoreLaneWindow key sentMs nowUnix t =>
      simp only [step, Option.ite_none_right_eq_some, Option.some.injEq] at hstep
      obtain ⟨-, rfl⟩ := hstep
      exact Pool.restoreLaneWindow_shape s.pool key sentMs nowUnix t
  | restoreCooldown key untilMs nowUnix t =>
      simp only [step, Option.ite_none_right_eq_some, Option.some.injEq] at hstep
      obtain ⟨-, rfl⟩ := hstep
      exact Pool.restoreCooldown_shape s.pool key untilMs nowUnix t

/-- Distinct keys stay distinct. -/
theorem keys_nodup {s : PoolLife} (h : distinctLife.Reachable s) : (s.pool.lanes.map (·.key)).Nodup := by
  rw [Pool.keys_eq_shape]
  refine System.Reachable.invariant (I := fun s => (s.pool.shape.map Prod.fst).Nodup) ?_ ?_ h
  · rintro s ⟨specs, hnodup, hnew⟩
    rw [hnew, ← Pool.keys_eq_shape]
    exact Pool.keys_assemble hnodup none s.now
  · rintro s op s' hbefore ⟨hstep, hspecs⟩
    by_cases hrebuild : ∃ specs t, op = .rebuild specs t
    · obtain ⟨specs, t, rfl⟩ := hrebuild
      simp only [poolLife, System.ofStep, step, Option.ite_none_right_eq_some, Option.some.injEq] at hstep
      obtain ⟨-, rfl⟩ := hstep
      rw [← Pool.keys_eq_shape]
      exact Pool.keys_assemble (hspecs specs t rfl) (some s.pool) t
    · rw [shape_step hstep fun specs t heq => hrebuild ⟨specs, t, heq⟩]
      exact hbefore

/-- **A window survives a restart.**  The lane windows of a pool are written at one moment and restored to a fresh
pool at a later one, the wall clock and the monotone clock having advanced alike, and no stamp in the window being
older than the wall clock's epoch.  Then every lane of the fresh pool has the window of the lane of its key, as
`FaithfulWindow` says, and a lane of a new key has none. -/
theorem window_survives_restart {s : PoolLife} (hreach : distinctLife.Reachable s) {m₁ m₂ : Moment}
    (hnow : s.now ≤ m₁.now) (hwall : m₁.wall ≤ m₂.wall)
    (hepoch : ∀ l ∈ s.pool.lanes, ∀ t ∈ l.sent, age m₁.now t < window →
      asMillis (age m₁.now t) ≤ m₁.unix * 1000)
    {specs : List LaneSpec} (hspecs : (specs.map (·.key)).Nodup) {rows : List (String × List ℕ)}
    (hrows : s.pool.Persisted m₁ m₂ rows) :
    ∀ l' ∈ ((Pool.new specs m₂.now).restoreRows rows m₂.unix m₂.now).lanes,
      (∀ l ∈ s.pool.lanes, l'.key = l.key → FaithfulWindow m₁ m₂ l.sent l'.sent) ∧
      (l'.key ∉ s.pool.lanes.map (·.key) → l'.sent = []) := by
  intro l' hl'
  have hordered := chronicled_at (poolLife_of_distinctLife hreach) hnow
  obtain ⟨hknown, hunknown⟩ := Pool.sent_restored hordered (keys_nodup hreach) hspecs hrows hl'
  refine ⟨fun l hl hkey => ?_, hunknown⟩
  rw [hknown l hl hkey]
  exact faithfulWindow_filterMap (hordered l hl) hwall (hepoch l hl)

/-- One key, one send at 0. -/
def sentOnce : PoolLife := ⟨((Pool.new [⟨"a", 2, true⟩] 0).reserve 0 none).1, 0⟩

theorem reachable_sentOnce : distinctLife.Reachable sentOnce := by
  refine ⟨⟨Pool.new [⟨"a", 2, true⟩] 0, 0⟩, [.reserve none 0], ⟨_, by decide, rfl⟩, System.Run.single ⟨?_, ?_⟩⟩
  · rfl
  · intro specs t h
    cases h

/-- Ten seconds later, in the hundredth second of the wall clock, the process is stopped; five and a half seconds
after that the next one restores its window. -/
theorem window_survives_restart_once :
    ∃ l' ∈ ((Pool.new [⟨"a", 2, true⟩] 7).restoreRows
        ((sentOnce.pool.laneWindowRows 100 10000000000).map (Pool.readRow 105)) 105 7).lanes,
      FaithfulWindow ⟨100000000000, 10000000000⟩ ⟨105500000000, 7⟩ [0] l'.sent := by
  have hall := @window_survives_restart sentOnce reachable_sentOnce ⟨100000000000, 10000000000⟩ ⟨105500000000, 7⟩
    (by decide) (by decide) (by decide +kernel) [⟨"a", 2, true⟩] (by decide) _ (List.Perm.refl _)
  have hlane : (⟨"a", 2, [0], 0⟩ : Lane) ∈ sentOnce.pool.lanes := by decide +kernel
  obtain ⟨l', hl', hkey⟩ : ∃ l' ∈ ((Pool.new [⟨"a", 2, true⟩] 7).restoreRows
      ((sentOnce.pool.laneWindowRows 100 10000000000).map (Pool.readRow 105)) 105 7).lanes, l'.key = "a" := by
    decide +kernel
  exact ⟨l', hl', (hall l' hl').1 _ hlane hkey⟩

/-- **Near the epoch it does not.**  In the tenth second of the wall clock a stamp of twenty seconds ago is written
as the epoch itself, and comes back ten seconds old. -/
theorem window_near_epoch :
    ∃ l ∈ sentOnce.pool.lanes, ∃ l' ∈ ((Pool.new [⟨"a", 2, true⟩] 20000000000).restoreRows
        ((sentOnce.pool.laneWindowRows 10 20000000000).map (Pool.readRow 10)) 10 20000000000).lanes,
      l'.key = l.key ∧ ¬ FaithfulWindow ⟨10000000000, 20000000000⟩ ⟨10000000000, 20000000000⟩ l.sent l'.sent := by
  have hsent : ∃ l ∈ sentOnce.pool.lanes, ∃ l' ∈ ((Pool.new [⟨"a", 2, true⟩] 20000000000).restoreRows
      ((sentOnce.pool.laneWindowRows 10 20000000000).map (Pool.readRow 10)) 10 20000000000).lanes,
      l'.key = l.key ∧ l.sent = [0] ∧ l'.sent = [10000000000] := by
    decide +kernel
  obtain ⟨l, hl, l', hl', hkey, hsent, hsent'⟩ := hsent
  refine ⟨l, hl, l', hl', hkey, fun h => ?_⟩
  rw [hsent, hsent'] at h
  obtain ⟨kept, hsub, -, hages⟩ := h.kept
  cases hages with
  | cons herror hrest =>
      cases hrest
      obtain rfl := List.mem_singleton.mp (hsub.subset List.mem_cons_self)
      exact absurd herror (by decide)

end PoolLife

end Flock
