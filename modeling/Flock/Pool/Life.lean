/-
# Flock.Pool.Life — every state a pool can be in.

`poolLife` is one pool with the clock: it is made fresh, and then everything that can happen to a pool happens to
it in the order of a clock that does not go back.  The results about one `reserve` are about its reachable
states.  What they need of one is `Chronological`: on every lane the stamps are in order and none is from the
future.  A send goes to the end of the deque, a returned slot and the expired stamps leave gaps, and a restored
window is written to a lane that has sent nothing yet.

A lane QUALIFIES at an instant if it is off cooldown there and has fewer than `rpm` stamps in the window.  That is
the specification of a free slot; `try_take` and the scan of `reserve` each compute it in their own way.
-/
import Flock.Pool.Generations

namespace Flock

open Lib (System age inWindow popExpired Chronological)

namespace Lane

/-- The lane has a free slot at `now`. -/
def Qualifies (now : ℤ) (l : Lane) : Prop :=
  l.cooldownUntil ≤ now ∧ (inWindow window now l.sent).length < l.rpm

/-- It is a question about a cooldown and a count. -/
instance (now : ℤ) (l : Lane) : Decidable (l.Qualifies now) :=
  inferInstanceAs (Decidable (l.cooldownUntil ≤ now ∧ (inWindow window now l.sent).length < l.rpm))

variable {now t : ℤ} {l : Lane}

/-- Expiring a lane changes no later window. -/
theorem qualifies_expire (hle : now ≤ t) : (l.expire now).Qualifies t ↔ l.Qualifies t := by
  unfold Qualifies
  rw [expire_cooldownUntil, expire_rpm, expire_sent, Lib.inWindow_popExpired hle]

/-- On a lane in order, expiring leaves the window. -/
theorem sent_expire (h : Chronological now l.sent) : (l.expire now).sent = inWindow window now l.sent :=
  Lib.popExpired_eq_inWindow window now h.ordered

/-- The end of the cooldown and the stamp that has to expire, whichever is later: inside one window it says
exactly when the lane qualifies. -/
theorem readyAt_le_iff (h : Chronological now l.sent) (hle : now ≤ t) (hlt : t < now + window) :
    (l.expire now).readyAt now ≤ t ↔ l.Qualifies t := by
  have hwindow : (if (l.expire now).sent.length < l.rpm then now
      else if l.rpm = 0 then now + window
      else (l.expire now).sent.getD ((l.expire now).sent.length - l.rpm) now + window) ≤ t ↔
      (inWindow window t l.sent).length < l.rpm := by
    have hsame := Lib.inWindow_popExpired (W := window) hle l.sent
    rw [← expire_sent] at hsame
    split
    · rename_i hroom
      rw [sent_expire h] at hroom
      have hfewer := Lib.length_inWindow_anti (W := window) hle l.sent
      omega
    · rename_i hfull
      split
      · omega
      · -- the slot opens with the stamp that is `rpm` from the end
        rename_i hrpm
        have hordered : (l.expire now).sent.Pairwise (· ≤ ·) :=
          h.ordered.sublist (Lib.popExpired_sublist window now l.sent)
        have hopens := @Lib.length_inWindow_lt_iff window t _ l.rpm hordered (Nat.pos_of_ne_zero hrpm)
          (Nat.le_of_not_lt hfull) now
        rw [hsame] at hopens
        rw [hopens]
        unfold age
        omega
  unfold readyAt Qualifies
  rw [expire_rpm, expire_cooldownUntil, max_le_iff, hwindow, and_comm]

end Lane

namespace Pool

/-- An enabled lane that qualifies. -/
def QualifiesAt (p : Pool) (now : ℤ) (i : ℕ) : Prop :=
  i < p.active ∧ ∃ l, p.lanes[i]? = some l ∧ l.Qualifies now

/-- Every deque of the pool is in order. -/
def Chronicled (now : ℤ) (p : Pool) : Prop := ∀ l ∈ p.lanes, Chronological now l.sent

variable {now t : ℤ} {p p' : Pool} {i : ℕ}

/-- An order does not end with time. -/
theorem Chronicled.later (h : Chronicled now p) (hle : now ≤ t) : Chronicled t p :=
  fun l hl => (h l hl).later hle

/-- Rewriting one lane keeps the deques in order, if it does there. -/
theorem Chronicled.modifyLane {f : Lane → Lane} (h : Chronicled now p)
    (hf : ∀ l, Chronological now l.sent → Chronological now (f l).sent) : Chronicled now (p.modifyLane i f) := by
  intro l hl
  obtain ⟨j, hj⟩ := List.mem_iff_getElem?.mp hl
  rw [modifyLane_get, Option.map_eq_some_iff] at hj
  obtain ⟨l₀, hl₀, rfl⟩ := hj
  have hbefore := h l₀ (List.mem_of_getElem? hl₀)
  split
  · exact hf l₀ hbefore
  · exact hbefore

/-- A lane after one of a key was rewritten. -/
theorem mem_modifyKey {f : Lane → Lane} {key : String} {l : Lane} (h : l ∈ (p.modifyKey key f).lanes) :
    l ∈ p.lanes ∨ ∃ l₀ ∈ p.lanes, l₀.key = key ∧ l = f l₀ := by
  unfold modifyKey at h
  split at h
  · rename_i i hfind
    obtain ⟨hi, hkey, -⟩ := List.findIdx?_eq_some_iff_getElem.mp hfind
    obtain ⟨j, hj⟩ := List.mem_iff_getElem?.mp h
    rw [modifyLane_get, Option.map_eq_some_iff] at hj
    obtain ⟨l₀, hl₀, rfl⟩ := hj
    have hmem := List.mem_of_getElem? hl₀
    split
    · rename_i hij
      subst hij
      rw [List.getElem?_eq_getElem hi, Option.some.injEq] at hl₀
      subst hl₀
      exact .inr ⟨_, hmem, by simpa using hkey, rfl⟩
    · exact .inl hmem
  · exact .inl h

/-- What a touch leaves is in order. -/
theorem Chronicled.touched (h : Chronicled now p) (ht : Touched now p p') : Chronicled now p' := by
  intro l' hl'
  obtain ⟨j, hj⟩ := List.mem_iff_getElem?.mp hl'
  obtain ⟨l, hl, hor⟩ := ht.get hj
  have hbefore := h l (List.mem_of_getElem? hl)
  rcases hor with rfl | rfl
  · exact hbefore
  · exact hbefore.sublist (Lib.popExpired_sublist window now l.sent)

/-- A touch changes no later window. -/
theorem Touched.qualifiesAt_iff (h : Touched now p p') (hle : now ≤ t) :
    p'.QualifiesAt t i ↔ p.QualifiesAt t i := by
  unfold QualifiesAt
  rw [h.active]
  constructor
  · rintro ⟨hi, l', hl', hq⟩
    obtain ⟨l, hl, rfl | rfl⟩ := h.get hl'
    · exact ⟨hi, _, hl, hq⟩
    · exact ⟨hi, l, hl, (Lane.qualifies_expire hle).mp hq⟩
  · rintro ⟨hi, l, hl, hq⟩
    obtain ⟨hi', -⟩ := List.getElem?_eq_some_iff.mp hl
    have hi'' : i < p'.lanes.length := by rw [h.length_eq]; exact hi'
    have hl' := List.getElem?_eq_getElem hi''
    obtain ⟨l₀, hl₀, hor⟩ := h.get hl'
    obtain rfl : l₀ = l := Option.some.inj (hl₀.symm.trans hl)
    refine ⟨hi, _, hl', ?_⟩
    rcases hor with heq | heq
    · rw [heq]
      exact hq
    · rw [heq]
      exact (Lane.qualifies_expire hle).mpr hq

/-- So is what a reservation leaves. -/
theorem Chronicled.reserve (h : Chronicled now p) (prefer : Option ℕ) : Chronicled now (p.reserve now prefer).1 := by
  rcases reserve_cases p now prefer with ⟨p', d, heq, ht⟩ | ⟨q, i, k, sticky, p', heq, -, ht, hg⟩
  · rw [heq]
    exact h.touched ht
  · rw [heq, hg.result]
    apply (h.touched ht).modifyLane
    intro l hl
    exact (hl.sublist (Lib.popExpired_sublist window now l.sent)).record

/-- A rebuilt pool takes its deques over from the old one. -/
theorem Chronicled.assemble (specs : List LaneSpec) {old : Option Pool} (h : ∀ p ∈ old, Chronicled now p) :
    Chronicled now (assemble specs old now) := by
  intro l hl
  obtain ⟨j, hj⟩ := List.mem_iff_getElem?.mp hl
  obtain ⟨s, -, rfl⟩ := assemble_get hj
  unfold carryLane
  split
  · rename_i prev hfind
    obtain ⟨p, hp, hprev⟩ := Option.bind_eq_some_iff.mp hfind
    exact h p hp prev (List.mem_of_find?_eq_some hprev)
  · exact .nil now

/-- Persisted stamps in order come back in order. -/
theorem chronological_restored {sentMs : List ℕ} (h : sentMs.Pairwise (· ≤ ·)) (nowMs : ℕ) (now : ℤ) :
    Chronological now (sentMs.filterMap fun ms =>
      if millis (nowMs - ms) < window then some (now - millis (nowMs - ms)) else none) where
  ordered := by
    apply List.Pairwise.filterMap _ _ h
    intro a b hab s hs t ht
    simp only [Option.ite_none_right_eq_some, Option.some.injEq] at hs ht
    unfold millis at hs ht
    omega
  past t ht := by
    obtain ⟨ms, -, hms⟩ := List.mem_filterMap.mp ht
    simp only [Option.ite_none_right_eq_some, Option.some.injEq] at hms
    omega

end Pool

/-! ## The runs of a pool

A restored row is only written to lanes that have sent nothing: the process restores before it serves. -/

/-- A pool and the last reading of the clock. -/
structure PoolLife where
  pool : Pool
  now : ℤ

/-- What happens to a pool.  `restoreLaneWindow` takes a persisted row, which is sorted. -/
inductive PoolOp where
  | reserve (prefer : Option ℕ) (t : ℤ)
  | release (lane : ℕ) (stamp : ℤ)
  | penalize (lane : ℕ) (backoff : ℕ) (t : ℤ)
  | rebuild (specs : List LaneSpec) (t : ℤ)
  | restoreLaneWindow (key : String) (sentMs : List ℕ) (nowUnix : ℕ) (t : ℤ)
  | restoreCooldown (key : String) (untilMs : ℕ) (nowUnix : ℕ) (t : ℤ)

namespace PoolLife

/-- The lanes of a key have sent nothing. -/
def Unsent (p : Pool) (key : String) : Prop := ∀ l ∈ p.lanes, l.key = key → l.sent = []

/-- It is asked of every lane of the key. -/
instance (p : Pool) (key : String) : Decidable (Unsent p key) :=
  inferInstanceAs (Decidable (∀ l ∈ p.lanes, l.key = key → l.sent = []))

/-- One operation, at a time that is not before the last. -/
def step (s : PoolLife) : PoolOp → Option PoolLife
  | .reserve prefer t => if s.now ≤ t then some ⟨(s.pool.reserve t prefer).1, t⟩ else none
  | .release lane stamp => some { s with pool := s.pool.release lane stamp }
  | .penalize lane backoff t => if s.now ≤ t then some ⟨s.pool.penalize lane t backoff, t⟩ else none
  | .rebuild specs t => if s.now ≤ t then some ⟨s.pool.rebuild specs t, t⟩ else none
  | .restoreLaneWindow key sentMs nowUnix t =>
      if s.now ≤ t ∧ sentMs.Pairwise (· ≤ ·) ∧ Unsent s.pool key then
        some ⟨s.pool.restoreLaneWindow key sentMs nowUnix t, t⟩
      else none
  | .restoreCooldown key untilMs nowUnix t =>
      if s.now ≤ t then some ⟨s.pool.restoreCooldown key untilMs nowUnix t, t⟩ else none

end PoolLife

/-- Every run of a pool, from any specs. -/
def poolLife : System PoolLife PoolOp :=
  .ofStep (fun s => ∃ specs, s.pool = Pool.new specs s.now) PoolLife.step

namespace PoolLife

variable {s s' : PoolLife} {op : PoolOp}

/-- **One operation keeps the deques in order.** -/
theorem chronicled_step (h : s.pool.Chronicled s.now) (hstep : s.step op = some s') : s'.pool.Chronicled s'.now := by
  cases op with
  | reserve prefer t =>
      simp only [step, Option.ite_none_right_eq_some, Option.some.injEq] at hstep
      obtain ⟨hle, rfl⟩ := hstep
      exact (h.later hle).reserve prefer
  -- a returned slot leaves a gap, and a gap keeps the order
  | release lane stamp =>
      simp only [step, Option.some.injEq] at hstep
      subst hstep
      exact h.modifyLane fun l hl => hl.sublist (Lib.removeLast_sublist stamp l.sent)
  | penalize lane backoff t =>
      simp only [step, Option.ite_none_right_eq_some, Option.some.injEq] at hstep
      obtain ⟨hle, rfl⟩ := hstep
      exact (h.later hle).modifyLane fun l hl => hl
  -- the new deques are those of the old pool
  | rebuild specs t =>
      simp only [step, Option.ite_none_right_eq_some, Option.some.injEq] at hstep
      obtain ⟨hle, rfl⟩ := hstep
      apply Pool.Chronicled.assemble specs
      intro p hp
      obtain rfl := Option.mem_some_iff.mp hp
      exact h.later hle
  | restoreLaneWindow key sentMs nowUnix t =>
      simp only [step, Option.ite_none_right_eq_some, Option.some.injEq] at hstep
      obtain ⟨⟨hle, hsorted, hunsent⟩, rfl⟩ := hstep
      intro l hl
      rcases Pool.mem_modifyKey hl with hl | ⟨l₀, hl₀, hkey, rfl⟩
      · exact h.later hle l hl
      · -- the lane has sent nothing, so its deque is the restored one
        dsimp only
        rw [hunsent l₀ hl₀ hkey, List.nil_append]
        exact Pool.chronological_restored hsorted (nowUnix * 1000) t
  -- a cooldown is no stamp
  | restoreCooldown key untilMs nowUnix t =>
      simp only [step, Option.ite_none_right_eq_some, Option.some.injEq] at hstep
      obtain ⟨hle, rfl⟩ := hstep
      show (s.pool.restoreCooldown key untilMs nowUnix t).Chronicled t
      unfold Pool.restoreCooldown
      dsimp only
      split
      · exact h.later hle
      · intro l hl
        rcases Pool.mem_modifyKey hl with hl | ⟨l₀, hl₀, -, rfl⟩
        · exact h.later hle l hl
        · exact h.later hle l₀ hl₀

theorem chronicled_of_reachable (h : poolLife.Reachable s) : s.pool.Chronicled s.now := by
  refine System.Reachable.invariant (I := fun s => s.pool.Chronicled s.now) ?_ ?_ h
  · rintro s ⟨specs, hnew⟩
    rw [hnew]
    apply Pool.Chronicled.assemble specs
    intro p hp
    cases hp
  · intro s op s' hbefore hstep
    exact chronicled_step hbefore hstep

/-- Whatever the clock shows next, the deques are in order. -/
theorem chronicled_at (h : poolLife.Reachable s) {t : ℤ} (hle : s.now ≤ t) : s.pool.Chronicled t :=
  (chronicled_of_reachable h).later hle

/-- A state that a step leads to is reachable. -/
theorem reachable_step (h : poolLife.Reachable s) (hstep : s.step op = some s') : poolLife.Reachable s' :=
  h.run (System.Run.single hstep)

end PoolLife

/-! ## The pool of a handle

The current pool of a handle lives such a life: a swap rebuilds it, and what is released or penalized in an older
generation does not touch it. -/

/-- The current pool is a state of such a life, at a time that is not after now. -/
theorem Serving.poolLife_reachable {s : Serving} (h : poolSystem.Reachable s) :
    ∃ t ≤ s.now, poolLife.Reachable ⟨s.handle.pool, t⟩ := by
  refine System.Reachable.invariant (I := fun s => ∃ t ≤ s.now, poolLife.Reachable ⟨s.handle.pool, t⟩) ?_ ?_ h
  · rintro s ⟨specs, t, rfl⟩
    exact ⟨t, le_refl t, _, [], ⟨specs, rfl⟩, .nil _⟩
  · rintro s e s' ⟨t₀, hle₀, hreach⟩ hstep
    rcases step_cases hstep with ⟨prefer, t, rfl, hle, rfl⟩ | ⟨g, rfl, -, rfl⟩ |
      ⟨gen, lane, b, t, rfl, hle, -, rfl⟩ | ⟨specs, t, rfl, hle, rfl⟩
    · refine ⟨t, le_refl t, @PoolLife.reachable_step _ _ (.reserve prefer t) hreach ?_⟩
      simp only [PoolLife.step, if_pos (le_trans hle₀ hle), Serving.reserve, PoolHandle.pool_setGen, if_true]
    · show ∃ t ≤ s.now, poolLife.Reachable ⟨(s.handle.setGen g.gen _).pool, t⟩
      rw [PoolHandle.pool_setGen]
      split
      · rename_i hcur
        refine ⟨t₀, hle₀, @PoolLife.reachable_step _ _ (.release g.lane g.stamp) hreach ?_⟩
        rw [← hcur]
        rfl
      · exact ⟨t₀, hle₀, hreach⟩
    · show ∃ t' ≤ t, poolLife.Reachable ⟨(s.handle.setGen gen _).pool, t'⟩
      rw [PoolHandle.pool_setGen]
      split
      · rename_i hcur
        refine ⟨t, le_refl t, @PoolLife.reachable_step _ _ (.penalize lane b t) hreach ?_⟩
        rw [← hcur]
        exact if_pos (le_trans hle₀ hle)
      · exact ⟨t₀, le_trans hle₀ hle, hreach⟩
    · refine ⟨t, le_refl t, @PoolLife.reachable_step _ _ (.rebuild specs t) hreach ?_⟩
      show (if t₀ ≤ t then _ else _) = some (PoolLife.mk (s.handle.swap specs t).pool t)
      rw [PoolHandle.pool_swap]
      exact if_pos (le_trans hle₀ hle)

end Flock
