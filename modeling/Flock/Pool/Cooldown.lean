/-
# Flock.Pool.Cooldown — a cooldown written to the live generation outlives every swap.

A penalty goes to the generation that granted the slot.  While that generation is the live one, the
cooldown is on the lane that grants, and `assemble` carries it to the lane of the same key in every
later generation; nothing shortens it.  A penalty that comes after the swap lands on a retired pool,
which nothing consults any more: the live lane of the key keeps granting.
-/
import Flock.Pool.Generations

namespace Flock

open Lib (System)

namespace Serving

variable {s s' : Serving} {k : String} {u : ℤ}

/-- **`Cooling k u`** — every lane of `k` in the current generation is in cooldown until `u`, at
least. -/
structure Cooling (k : String) (u : ℤ) (s : Serving) : Prop extends Keyed k s where
  cold : ∀ (i : ℕ) (l : Lane), s.handle.pool.lanes[i]? = some l → l.key = k → u ≤ l.cooldownUntil

theorem le_coolUntil (u : ℤ) (l : Lane) :
    l.cooldownUntil ≤ (l.coolUntil u).cooldownUntil ∧ u ≤ (l.coolUntil u).cooldownUntil := by
  simp only [Lane.coolUntil]
  split <;> omega

/-! ## What starts a cooldown -/

/-- A penalty on the lane of `k`, in the current generation. -/
theorem Keyed.cooling_penalize (h : Keyed k s) {lane : ℕ} (hlane : s.handle.pool.laneKey lane = some k)
    (b : ℕ) (p : ℤ) : Cooling k (p + b) (s.penalize s.handle.cur lane b p) := by
  refine ⟨⟨h.built.penalize _ lane b p, h.keeps⟩, fun i l hl hkey => ?_⟩
  simp only [Serving.penalize, PoolHandle.pool_setGen, if_true, Pool.penalize, Pool.modifyLane_get,
    Option.map_eq_some_iff] at hl
  obtain ⟨l₀, hl₀, rfl⟩ := hl
  have hkey₀ : l₀.key = k := by
    split at hkey
    · exact hkey
    · exact hkey
  -- the lane of `k` is unique, so the penalized index is this one
  have hidx : lane = i := by
    apply h.index_unique hlane
    have : s.handle.pool.lanes[i]? = some l₀ := hl₀
    simp [Pool.laneKey, this, hkey₀]
  rw [if_pos hidx]
  exact (le_coolUntil (p + b) l₀).2

/-! ## What keeps it -/

theorem Cooling.touched (h : Cooling k u s) {t : ℤ} {p : Pool}
    (ht : Pool.Touched t s.handle.pool p) {i : ℕ} {l : Lane} (hl : p.lanes[i]? = some l)
    (hkey : l.key = k) : u ≤ l.cooldownUntil := by
  obtain ⟨l₀, hl₀, rfl | rfl⟩ := ht.get hl
  · exact h.cold i l hl₀ hkey
  · exact h.cold i l₀ hl₀ hkey

/-- Rewriting lanes of one generation without shortening a cooldown. -/
theorem Cooling.setGen (h : Cooling k u s) {g : ℕ} {f : Lane → Lane} (lane : ℕ)
    (hkey : ∀ l, (f l).key = l.key) (hcool : ∀ l, l.cooldownUntil ≤ (f l).cooldownUntil)
    (i : ℕ) (l : Lane)
    (hl : (s.handle.setGen g ((s.handle.gens g).modifyLane lane f)).pool.lanes[i]? = some l)
    (hlk : l.key = k) : u ≤ l.cooldownUntil := by
  rw [PoolHandle.pool_setGen] at hl
  split at hl
  · rename_i hgen
    rw [Pool.modifyLane_get, ← hgen, Option.map_eq_some_iff] at hl
    obtain ⟨l₀, hl₀, rfl⟩ := hl
    split at hlk
    · rw [if_pos ‹_›]
      have h₀ : u ≤ l₀.cooldownUntil := h.cold i l₀ hl₀ ((hkey l₀).symm.trans hlk)
      have := hcool l₀
      omega
    · rw [if_neg ‹_›]
      exact h.cold i l₀ hl₀ hlk
  · exact h.cold i l hl hlk

theorem Cooling.reserve (h : Cooling k u s) (t : ℤ) (prefer : Option ℕ) (i : ℕ) (l : Lane)
    (hl : (s.reserve t prefer).1.handle.pool.lanes[i]? = some l) (hkey : l.key = k) :
    u ≤ l.cooldownUntil := by
  rcases reserve_cases s t prefer with ⟨p, d, heq, ht⟩ | ⟨q, j, a, sticky, p, heq, -, ht, hg⟩
  · rw [heq] at hl
    simp only [PoolHandle.pool_setGen, if_true] at hl
    exact h.touched ht hl hkey
  · rw [heq] at hl
    simp only [PoolHandle.pool_setGen, if_true, hg.result, Pool.modifyLane_get,
      Option.map_eq_some_iff] at hl
    obtain ⟨l₀, hl₀, rfl⟩ := hl
    split at hkey
    · rw [if_pos ‹_›]
      have h₀ : u ≤ l₀.cooldownUntil := h.touched ht hl₀ hkey
      exact h₀
    · rw [if_neg ‹_›]
      exact h.touched ht hl₀ hkey

theorem Cooling.step (h : Cooling k u s) {e : PoolEvent} (hstep : s.step e = some s')
    (hkeep : ∀ specs t, e = .swap specs t → Keeps k specs) : Cooling k u s' := by
  refine ⟨h.toKeyed.step hstep hkeep, ?_⟩
  rcases step_cases hstep with ⟨prefer, t, rfl, -, rfl⟩ | ⟨g, rfl, -, rfl⟩ |
    ⟨gen, lane, b, t, rfl, -, -, rfl⟩ | ⟨specs, t, rfl, -, rfl⟩
  · exact h.reserve t prefer
  · exact h.setGen (f := Lane.unsend g.stamp) g.lane (fun _ => rfl) (fun _ => Int.le_refl _)
  · exact h.setGen (f := Lane.coolUntil (t + b)) lane (fun _ => rfl)
      (fun l => (le_coolUntil (t + b) l).1)
  · intro i l hl hkey
    obtain ⟨j, prev, hprev, hpk, -, hcool⟩ := swap_carries h.toKeyed.known hl hkey
    rw [hcool]
    exact h.cold j prev hprev hpk

/-- Whatever happens next, as long as the key is kept. -/
theorem Cooling.run {es : List PoolEvent} (hrun : poolSystem.Run s es s') (h : Cooling k u s)
    (hkeep : ∀ specs t, PoolEvent.swap specs t ∈ es → Keeps k specs) : Cooling k u s' :=
  run_of_keeping hrun (fun h hstep => h.step hstep) hkeep h

/-- A grant is of a lane that is out of cooldown. -/
theorem Cooling.not_granted_before (h : Cooling k u s) {t : ℤ} {prefer : Option ℕ} {lane : ℕ}
    {stamp : ℤ} {sticky : Bool}
    (hgrant : s.reserve t prefer = (s', .ready lane k stamp sticky)) : u ≤ t := by
  rcases reserve_cases s t prefer with ⟨p, d, heq, -⟩ | ⟨q, i, a, st, p, heq, -, ht, hg⟩
  · rw [heq] at hgrant
    cases hgrant
  · rw [heq] at hgrant
    cases hgrant
    obtain ⟨l, hl, hkey, hcool, -⟩ := hg.lane
    have := h.touched ht hl hkey
    omega

/-! ## The law, and where it stops -/

/-- **A cooldown on the live generation is honoured.** A slot of `k` is penalized at `p` for `b`
while the generation that granted it is still the handle's: then, through every later swap that
keeps `k`, no grant of `k` is made before `p + b`. -/
theorem cooldown_honoured (k : String) (specs₀ : List LaneSpec) (t₀ : ℤ)
    (es : List PoolEvent) (s : Serving) (h₀ : Keeps k specs₀)
    (hswaps : ∀ specs t, PoolEvent.swap specs t ∈ es → Keeps k specs)
    (hrun : poolSystem.Run (boot specs₀ t₀) es s)
    (g : Grant) (hg : g ∈ s.live) (hgk : g.key = k) (hlive : g.gen = s.handle.cur)
    (p : ℤ) (b : ℕ) (s₁ : Serving) (hpen : s.step (.penalize g.gen g.lane b p) = some s₁)
    (es' : List PoolEvent) (s₂ : Serving)
    (hswaps' : ∀ specs t, PoolEvent.swap specs t ∈ es' → Keeps k specs)
    (hrun' : poolSystem.Run s₁ es' s₂)
    (t : ℤ) (prefer : Option ℕ) (s₃ : Serving) (lane : ℕ) (stamp : ℤ) (sticky : Bool)
    (hgrant : s₂.reserve t prefer = (s₃, .ready lane k stamp sticky)) :
    ¬ (p ≤ t ∧ t < p + b) := by
  have hkeyed : Keyed k s := Keyed.run hrun (keyed_boot h₀ t₀) hswaps
  obtain ⟨-, hplaced⟩ := hkeyed.built.placed g hg
  have hs₁ : s₁ = s.penalize s.handle.cur g.lane b p := by
    simp only [Serving.step, Option.ite_none_right_eq_some, Option.some.injEq] at hpen
    rw [← hpen.2, hlive]
  have hcool : Cooling k (p + b) s₁ := by
    rw [hs₁]
    apply hkeyed.cooling_penalize
    rw [hlive, hgk] at hplaced
    exact hplaced
  have := (hcool.run hrun' hswaps').not_granted_before hgrant
  omega

/-- A penalty, then a swap, then a grant at the end of the cooldown. -/
theorem cooldown_honoured_through_swap :
    ∃ s s₁ s₂ s₃ : Serving,
      poolSystem.Run (boot [⟨"a", 9, true⟩] 0) [.reserve none 0] s ∧
      s.step (.penalize 0 0 10 2) = some s₁ ∧
      poolSystem.Run s₁ [.swap [⟨"a", 9, true⟩] 3] s₂ ∧
      s₂.reserve 12 none = (s₃, .ready 0 "a" 12 false) ∧ ¬ ((2 : ℤ) ≤ 12 ∧ (12 : ℤ) < 2 + 10) := by
  have hrun : poolSystem.Run (boot [⟨"a", 9, true⟩] 0) [.reserve none 0]
      ((boot [⟨"a", 9, true⟩] 0).reserve 0 none).1 := System.run_of_exec rfl
  have hrun' : poolSystem.Run (((boot [⟨"a", 9, true⟩] 0).reserve 0 none).1.penalize 0 0 10 2)
      [.swap [⟨"a", 9, true⟩] 3]
      ((((boot [⟨"a", 9, true⟩] 0).reserve 0 none).1.penalize 0 0 10 2).swap [⟨"a", 9, true⟩] 3) :=
    System.run_of_exec rfl
  refine ⟨_, _, _, _, hrun, rfl, hrun', Prod.ext rfl (by decide), ?_⟩
  refine cooldown_honoured "a" _ 0 _ _ (by decide) ?_ hrun ⟨0, 0, "a", 0⟩ (by decide) rfl rfl 2 10 _
    rfl _ _ ?_ hrun' 12 none _ 0 12 false (Prod.ext rfl (by decide))
  · intro specs t hmem
    simp at hmem
  · intro specs t hmem
    simp only [List.mem_singleton, PoolEvent.swap.injEq] at hmem
    obtain ⟨rfl, -⟩ := hmem
    decide

/-- **A late penalty is not honoured.** Granted on the first generation, swapped (the key kept and
enabled), penalized at `2` for ten seconds through the slot's own pool: the live pool grants the key
again at `3`. -/
theorem late_penalty_not_honoured :
    ∃ s s₁ s₂ : Serving, ∃ g ∈ s.live,
      Keeps "a" [⟨"a", 9, true⟩] ∧
      poolSystem.Run (boot [⟨"a", 9, true⟩] 0) [.reserve none 0, .swap [⟨"a", 9, true⟩] 1] s ∧
      g.key = "a" ∧ s.step (.penalize g.gen g.lane (secs 10) 2) = some s₁ ∧
      s₁.reserve 3 none = (s₂, .ready 0 "a" 3 false) ∧ (2 : ℤ) ≤ 3 ∧ (3 : ℤ) < 2 + secs 10 := by
  have hrun : poolSystem.Run (boot [⟨"a", 9, true⟩] 0)
      [.reserve none 0, .swap [⟨"a", 9, true⟩] 1]
      (((boot [⟨"a", 9, true⟩] 0).reserve 0 none).1.swap [⟨"a", 9, true⟩] 1) :=
    System.run_of_exec rfl
  refine ⟨_, _, _, ⟨0, 0, "a", 0⟩, ?_, by decide, hrun, rfl, rfl, Prod.ext rfl ?_, ?_, ?_⟩
  all_goals decide

end Serving

end Flock
