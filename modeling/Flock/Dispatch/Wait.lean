/-
# Flock.Dispatch.Wait — how long a waiter waits, and when it is turned away.

When no lane qualifies, `reserve` answers with the least wait over the enabled lanes, capped at one window.  The
answer is exact: until then no lane qualifies, and then one does, however often the pool is polled in between
(`wait_exact`).  The dispatcher turns a waiter away if the wait ends after its deadline.  But it adds the wait to a
later reading of the clock than the one `reserve` counted from, so it turns away a waiter whose slot would open in
time (`failFast_sound_iff`).
-/
import Flock.Dispatch.Basic
import Flock.Pool.Choice

namespace Flock

open Lib (System age inWindow Chronological)

namespace Pool

variable {now t : ℤ} {p p' q : Pool} {prefer : Option ℕ} {i w : ℕ} {l : Lane}

/-- The wait of the scan is the least over the lanes that are not ready, capped at where it began. -/
theorem bestWait_foldl (now : ℤ) (ls : List Lane) (acc : Scan) :
    (ls.foldl (scanLane now) acc).bestWait ≤ acc.bestWait ∧
    (∀ l ∈ ls, now < (l.expire now).readyAt now →
      (ls.foldl (scanLane now) acc).bestWait ≤ age ((l.expire now).readyAt now) now) ∧
    ((ls.foldl (scanLane now) acc).bestWait = acc.bestWait ∨ ∃ l ∈ ls, now < (l.expire now).readyAt now ∧
      (ls.foldl (scanLane now) acc).bestWait = age ((l.expire now).readyAt now) now) := by
  induction ls generalizing acc with
  | nil => exact ⟨Nat.le_refl _, fun l hl => absurd hl List.not_mem_nil, .inl rfl⟩
  | cons l ls ih =>
      rw [List.foldl_cons]
      obtain ⟨hle, hall, hattained⟩ := ih (scanLane now acc l)
      have hstep : (scanLane now acc l).bestWait = if (l.expire now).readyAt now ≤ now then acc.bestWait
          else min acc.bestWait (age ((l.expire now).readyAt now) now) := by
        unfold scanLane
        dsimp only
        split <;> rfl
      rw [hstep] at hle hattained
      refine ⟨?_, ?_, ?_⟩
      · split at hle <;> omega
      · intro l' hl' hlater
        rcases List.mem_cons.mp hl' with rfl | hl'
        · rw [if_neg (by omega)] at hle
          omega
        · exact hall l' hl' hlater
      · rcases hattained with heq | ⟨l', hl', hlater, heq⟩
        · split at heq
          · exact .inl heq
          · rename_i hlater
            rcases Nat.le_total acc.bestWait (age ((l.expire now).readyAt now) now) with hcase | hcase
            · exact .inl (by rw [heq, Nat.min_eq_left hcase])
            · exact .inr ⟨l, List.mem_cons_self, by omega, by rw [heq, Nat.min_eq_right hcase]⟩
        · exact .inr ⟨l', List.mem_cons_of_mem l hl', hlater, heq⟩

/-- **The wait is exact.**  If no lane qualifies now, none does until the scan's wait is over, and then one does,
unless the wait is a whole window. -/
theorem scan_wait (h : Chronicled now p) (hnone : ∀ i, ¬ p.QualifiesAt now i) :
    (p.scan now).bestWait ≤ window ∧
    (∀ t, now ≤ t → t < now + (p.scan now).bestWait → ∀ i, ¬ p.QualifiesAt t i) ∧
    ((p.scan now).bestWait < window → ∃ i, p.QualifiesAt (now + (p.scan now).bestWait) i) := by
  obtain ⟨hle, hall, hattained⟩ := bestWait_foldl now (p.lanes.take p.active) ⟨[], [], window⟩
  -- a lane that is not ready now is ready when its own wait is over, and not before
  have hready : ∀ i l, i < p.active → p.lanes[i]? = some l → ∀ t, now ≤ t → t < now + window →
      (now < (l.expire now).readyAt now ∧ ((l.expire now).readyAt now ≤ t ↔ l.Qualifies t)) := by
    intro i l hi hl t hle hlt
    have hordered := h l (List.mem_of_getElem? hl)
    refine ⟨?_, Lane.readyAt_le_iff hordered hle hlt⟩
    by_contra hnow
    apply hnone i ⟨hi, l, hl, (Lane.readyAt_le_iff hordered (le_refl now) (by omega)).mp (by omega)⟩
  refine ⟨hle, ?_, ?_⟩
  · rintro t hnow hlt i ⟨hi, l, hl, hq⟩
    have hwait : (p.scan now).bestWait ≤ window := hle
    obtain ⟨hlater, hiff⟩ := hready i l hi hl t hnow (by omega)
    have hmem : l ∈ p.lanes.take p.active := by
      apply List.mem_of_getElem? (i := i)
      rw [List.getElem?_take, if_pos hi]
      exact hl
    have hbound : (p.scan now).bestWait ≤ age ((l.expire now).readyAt now) now := hall l hmem hlater
    have hopen := hiff.mpr hq
    unfold age at hbound
    omega
  · intro hlt
    rcases hattained with heq | ⟨l, hl, hlater, heq⟩
    · exact absurd heq (Nat.ne_of_lt hlt)
    · have heq : (p.scan now).bestWait = age ((l.expire now).readyAt now) now := heq
      obtain ⟨i, hi⟩ := List.mem_iff_getElem?.mp hl
      rw [List.getElem?_take, Option.ite_none_right_eq_some] at hi
      obtain ⟨hi, hl⟩ := hi
      obtain ⟨-, hiff⟩ := hready i l hi hl (now + (p.scan now).bestWait) (by omega) (by omega)
      refine ⟨i, hi, l, hl, hiff.mp ?_⟩
      rw [heq]
      unfold age
      omega

/-! ## Polling -/

/-- The pool after some reserves, each at its time and with its preference. -/
def polled (p : Pool) (polls : List (ℤ × Option ℕ)) : Pool := polls.foldl (fun p x => (p.reserve x.1 x.2).1) p

/-- From `t` on, the lanes of `p'` qualify as those of `p` do. -/
structure Still (p : Pool) (t : ℤ) (p' : Pool) : Prop where
  chronicled : Chronicled t p'
  same : ∀ t', t ≤ t' → ∀ i, p'.QualifiesAt t' i ↔ p.QualifiesAt t' i

theorem Still.touched (h : Still p now p') (ht : Touched now p' q) : Still p now q where
  chronicled := h.chronicled.touched ht
  same t' hle i := (ht.qualifiesAt_iff hle).trans (h.same t' hle i)

theorem Still.later (h : Still p now p') (hle : now ≤ t) : Still p t p' :=
  ⟨h.chronicled.later hle, fun t' ht' => h.same t' (le_trans hle ht')⟩

/-- A reserve where no lane qualifies waits, and changes nothing. -/
theorem Still.reserve (h : Still p now p') (hnone : ∀ i, ¬ p.QualifiesAt now i) (prefer : Option ℕ) :
    Still p now (p'.reserve now prefer).1 ∧ ∃ d, (p'.reserve now prefer).2 = .wait d := by
  rcases reserve_spec h.chronicled prefer with ⟨q, i, l, sticky, heq, -, -, hpicks⟩ | ⟨q, heq, ht, -⟩
  · exact absurd ((h.same now (le_refl now) i).mp hpicks.qualifies) (hnone i)
  · rw [heq]
    exact ⟨h.touched ht, _, rfl⟩

/-- Polls at which no lane qualifies change nothing. -/
theorem Still.polled {polls : List (ℤ × Option ℕ)} (h : Still p now p')
    (hclock : (now :: polls.map Prod.fst).Pairwise (· ≤ ·)) (hnone : ∀ x ∈ polls, ∀ i, ¬ p.QualifiesAt x.1 i)
    (ht : ∀ x ∈ polls, x.1 ≤ t) (hle : now ≤ t) : Still p t (p'.polled polls) := by
  induction polls generalizing now p' with
  | nil => exact h.later hle
  | cons x polls ih =>
      obtain ⟨hfirst, hrest⟩ := List.pairwise_cons.mp hclock
      have hx : now ≤ x.1 := hfirst x.1 (by simp)
      have hpoll := ((h.later hx).reserve (hnone x List.mem_cons_self) x.2).1
      exact ih hpoll hrest (fun y hy => hnone y (List.mem_cons_of_mem x hy))
        (fun y hy => ht y (List.mem_cons_of_mem x hy)) (ht x List.mem_cons_self)

/-- A reserve where some lane qualifies is granted. -/
theorem Still.granted (h : Still p now p') (hq : p.QualifiesAt now i) (prefer : Option ℕ) :
    ∃ i k stamp sticky, (p'.reserve now prefer).2 = .ready i k stamp sticky := by
  rcases reserve_spec h.chronicled prefer with ⟨q, i, l, sticky, heq, -, -, -⟩ | ⟨q, -, -, hnone⟩
  · exact ⟨i, l.key, now, sticky, by rw [heq]⟩
  · exact absurd ((h.same now (le_refl now) i).mpr hq) (hnone i)

/-! ## The answer of a reserve -/

/-- What a wait says of the lanes, and of the pool it leaves. -/
theorem reserve_wait (h : Chronicled now p) (hwait : p.reserve now prefer = (q, .wait w)) :
    Still p now q ∧ w ≤ window ∧ (∀ t, now ≤ t → t < now + w → ∀ i, ¬ p.QualifiesAt t i) ∧
      (w < window → ∃ i, p.QualifiesAt (now + w) i) := by
  rcases reserve_spec h prefer with ⟨q', i, l, sticky, heq, -, -, -⟩ | ⟨q', heq, ht, hnone⟩
  · rw [hwait] at heq
    cases heq
  · rw [hwait] at heq
    cases heq
    exact ⟨⟨h.touched ht, fun t' ht' i => ht.qualifiesAt_iff ht'⟩, scan_wait h hnone⟩

/-- **`ExactWait q now w`** — absent other operations, no reserve before the wait is over is granted, however often
the pool is polled; and the one at its end is, unless the wait is a whole window. -/
def ExactWait (q : Pool) (now : ℤ) (w : ℕ) : Prop :=
  ∀ polls : List (ℤ × Option ℕ), (now :: polls.map Prod.fst).Pairwise (· ≤ ·) → (∀ x ∈ polls, x.1 < now + w) →
    (∀ t prefer, now ≤ t → t < now + w → (∀ x ∈ polls, x.1 ≤ t) →
      ∃ d, ((q.polled polls).reserve t prefer).2 = .wait d) ∧
    (w < window → ∀ prefer, ∃ i k stamp sticky,
      ((q.polled polls).reserve (now + w) prefer).2 = .ready i k stamp sticky)

theorem exactWait_of_reserve (h : Chronicled now p) (hwait : p.reserve now prefer = (q, .wait w)) :
    ExactWait q now w := by
  obtain ⟨hstill, -, hbusy, hopens⟩ := reserve_wait h hwait
  intro polls hclock hpolls
  have hpast : ∀ x ∈ polls, now ≤ x.1 := fun x hx =>
    (List.pairwise_cons.mp hclock).1 x.1 (List.mem_map_of_mem hx)
  have hpolled : ∀ t, now ≤ t → (∀ x ∈ polls, x.1 ≤ t) → Still p t (q.polled polls) := fun t hnow hx =>
    hstill.polled hclock (fun x hx => hbusy x.1 (hpast x hx) (hpolls x hx)) hx hnow
  refine ⟨fun t prefer' hnow hlt hx => ?_, fun hlt prefer' => ?_⟩
  · exact ((hpolled t hnow hx).reserve (hbusy t hnow hlt) prefer').2
  · obtain ⟨i, hi⟩ := hopens hlt
    exact (hpolled _ (by omega) fun x hx => le_of_lt (hpolls x hx)).granted hi prefer'

end Pool

namespace Dispatch

/-- **The fail-fast test is sound** after a wait `w` that was answered at `now`, with the pool `q` left behind: a
waiter that is turned away at `checkedAt` would not be served by that pool before its deadline, within the
window. -/
def FailFastSound (q : Pool) (now checkedAt : ℤ) (w : ℕ) : Prop :=
  ∀ (d : Dispatch) (x : Waiter), (d.wait x w checkedAt).task = .idle →
    ∀ t prefer, now ≤ t → t ≤ x.deadline → t < now + window → ∃ soonest, (q.reserve t prefer).2 = .wait soonest

theorem wait_task (d : Dispatch) (x : Waiter) (w : ℕ) (t : ℤ) :
    (d.wait x w t).task = .idle ↔ x.deadline < t + w := by
  unfold wait
  split
  · rename_i hlate
    exact iff_of_true rfl hlate
  · rename_i hearly
    exact iff_of_false (fun h => by cases h) hearly

variable {s : PoolLife} {now checkedAt : ℤ} {prefer : Option ℕ} {q : Pool} {w : ℕ}

/-- **The waiting time, and the test that uses it.**  The wait that `reserve` answers is at most a window, and it is
exact.  The test of the dispatcher, which reads the clock at `checkedAt`, is sound exactly if no time has passed
since `reserve` read it, or if no enabled lane qualifies within the window anyway. -/
theorem failFast_sound_iff (hreach : poolLife.Reachable s) (hle : s.now ≤ now)
    (hwait : s.pool.reserve now prefer = (q, .wait w)) (hchecked : now ≤ checkedAt) :
    (w ≤ window ∧ Pool.ExactWait q now w) ∧
    (FailFastSound q now checkedAt w ↔
      checkedAt = now ∨ ∀ t, now ≤ t → t < now + window → ∀ i, ¬ s.pool.QualifiesAt t i) := by
  have hordered := PoolLife.chronicled_at hreach hle
  obtain ⟨hstill, hbound, hbusy, hopens⟩ := Pool.reserve_wait hordered hwait
  refine ⟨⟨hbound, Pool.exactWait_of_reserve hordered hwait⟩, ?_, ?_⟩
  · intro hsound
    by_contra hno
    rw [not_or] at hno
    obtain ⟨hlate, hsome⟩ := hno
    have hlt : w < window := by
      by_contra hfull
      exact hsome fun t hnow ht => hbusy t hnow (by omega)
    -- a waiter whose deadline is the instant the slot opens is turned away
    obtain ⟨i, hi⟩ := hopens hlt
    obtain ⟨k, key, stamp, sticky, hready⟩ := (hstill.later (by omega)).granted hi none
    let d : Dispatch := .boot [] 0
    let x : Waiter := ⟨0, now + w, none⟩
    have hidle : (d.wait x w checkedAt).task = .idle := by
      rw [wait_task]
      show now + w < checkedAt + w
      omega
    obtain ⟨soonest, hwaits⟩ := hsound d x hidle (now + w) none (by omega) (le_refl _) (by omega)
    rw [hready] at hwaits
    cases hwaits
  · rintro hcond d x hidle t prefer' hnow hdeadline hlt
    have hrejected := (wait_task d x w checkedAt).mp hidle
    have hnone : ∀ i, ¬ s.pool.QualifiesAt t i := by
      rcases hcond with rfl | hnone
      · exact hbusy t hnow (by omega)
      · exact hnone t hnow hlt
    exact ((hstill.later hnow).reserve hnone prefer').2

/-- One key with one slot a minute, spent at 0.  A waiter that asks at 60 s is answered to wait one second. -/
theorem failFast_sound_iff_spent :
    ∃ s q, poolLife.Reachable s ∧ s.pool.reserve 60000000000 none = (q, .wait 1000000000) ∧
      Pool.ExactWait q 60000000000 1000000000 ∧ FailFastSound q 60000000000 60000000000 1000000000 := by
  have hexec : (System.exec PoolLife.step ⟨Pool.new [⟨"a", 1, true⟩] 0, 0⟩ [.reserve none 0]).any (fun s =>
      decide (s.now ≤ 60000000000) &&
        decide ((s.pool.reserve 60000000000 none).2 = .wait 1000000000)) = true := by
    decide +kernel
  have hboot : poolLife.init ⟨Pool.new [⟨"a", 1, true⟩] 0, 0⟩ := ⟨_, rfl⟩
  obtain ⟨s, hreach, hend⟩ := System.reachable_of_exec hboot hexec
  simp only [Bool.and_eq_true, decide_eq_true_eq] at hend
  obtain ⟨hle, hwait⟩ := hend
  have heq : s.pool.reserve 60000000000 none = ((s.pool.reserve 60000000000 none).1, .wait 1000000000) := by
    rw [← hwait]
  obtain ⟨⟨-, hexact⟩, hsound⟩ := failFast_sound_iff (s := s) hreach hle heq (le_refl _)
  exact ⟨s, _, hreach, heq, hexact, hsound.mpr (.inl rfl)⟩

/-- The same pool, and a waiter whose deadline is half a microsecond after the slot opens: the dispatcher reads the
clock a microsecond after `reserve` did and turns it away, and the pool would have served it before its deadline. -/
theorem failFast_rejects_in_time :
    ∃ s q, poolLife.Reachable s ∧ s.pool.reserve 60000000000 none = (q, .wait 1000000000) ∧
      (wait (.boot [] 0) ⟨0, 61000000500, none⟩ 1000000000 60000001000).task = .idle ∧
      (q.reserve 61000000000 none).2 = .ready 0 "a" 61000000000 false ∧
      ¬ FailFastSound q 60000000000 60000001000 1000000000 := by
  have hexec : (System.exec PoolLife.step ⟨Pool.new [⟨"a", 1, true⟩] 0, 0⟩ [.reserve none 0]).any (fun s =>
      decide ((s.pool.reserve 60000000000 none).2 = .wait 1000000000) &&
        decide (((s.pool.reserve 60000000000 none).1.reserve 61000000000 none).2 =
          .ready 0 "a" 61000000000 false)) = true := by
    decide +kernel
  have hboot : poolLife.init ⟨Pool.new [⟨"a", 1, true⟩] 0, 0⟩ := ⟨_, rfl⟩
  have hidle : (wait (.boot [] 0) ⟨0, 61000000500, none⟩ 1000000000 60000001000).task = .idle := by
    decide
  obtain ⟨s, hreach, hend⟩ := System.reachable_of_exec hboot hexec
  simp only [Bool.and_eq_true, decide_eq_true_eq] at hend
  obtain ⟨hwait, hready⟩ := hend
  refine ⟨s, _, hreach, by rw [← hwait], hidle, hready, fun hsound => ?_⟩
  obtain ⟨soonest, hwaits⟩ := hsound (.boot [] 0) _ hidle 61000000000 none (by decide) (by decide) (by decide)
  rw [hready] at hwaits
  cases hwaits

end Dispatch

end Flock
