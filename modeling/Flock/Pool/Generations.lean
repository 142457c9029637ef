/-
# Flock.Pool.Generations — one pool handle through all its swaps.

A `PoolHandle` is swapped, never edited: `rebuild` makes the next generation from the current one,
and slots keep an `Arc` to the generation that granted them.  So several generations are alive at
once.  Grants come from the current one only (the dispatcher holds the handle's read lock across
`reserve`, the swap takes the write lock); releases and penalties go to the granting one.

The state of a run carries two ghosts: the spec list the current generation was built from, and the
grants that were made and not released, of every generation.

`Accounted` is the invariant: the current generation's lane of a key remembers, as far as the window
reaches, every unreleased grant of that key.
-/
import Flock.Lib.Transition
import Flock.Pool.Spec

namespace Flock

open Lib (System Covers inWindow age)

/-- `Arc<RwLock<Arc<Pool>>>`: every generation that was ever swapped in, and which one is current. -/
structure PoolHandle where
  gens : ℕ → Pool
  cur : ℕ

/-- A slot somebody holds: the generation that granted it, the lane there, the key, the stamp. -/
structure Grant where
  gen : ℕ
  lane : ℕ
  key : String
  stamp : ℤ
  deriving DecidableEq, Repr

/-- The grant a reservation made by generation `gen` is, if it is one. -/
def Reservation.grants (gen : ℕ) : Reservation → List Grant
  | .ready lane key stamp _ => [⟨gen, lane, key, stamp⟩]
  | .wait _ => []

namespace PoolHandle

/-- A handle around its first pool. -/
def boot (p : Pool) : PoolHandle := ⟨fun _ => p, 0⟩

/-- The pool the read lock yields. -/
def pool (h : PoolHandle) : Pool := h.gens h.cur

/-- Interior mutability of one generation. -/
def setGen (h : PoolHandle) (g : ℕ) (p : Pool) : PoolHandle :=
  { h with gens := Function.update h.gens g p }

/-- `*guard = Arc::new(guard.rebuild(specs))` under the write lock. -/
def swap (h : PoolHandle) (specs : List LaneSpec) (now : ℤ) : PoolHandle where
  gens := Function.update h.gens (h.cur + 1) (h.pool.rebuild specs now)
  cur := h.cur + 1

@[simp] theorem pool_boot (p : Pool) : (boot p).pool = p := rfl

@[simp] theorem setGen_cur (h : PoolHandle) (g : ℕ) (p : Pool) : (h.setGen g p).cur = h.cur := rfl

@[simp] theorem setGen_gens (h : PoolHandle) (g : ℕ) (p : Pool) :
    (h.setGen g p).gens = Function.update h.gens g p := rfl

theorem pool_setGen (h : PoolHandle) (g : ℕ) (p : Pool) :
    (h.setGen g p).pool = if h.cur = g then p else h.pool := by
  simp [pool, Function.update_apply]

@[simp] theorem pool_swap (h : PoolHandle) (specs : List LaneSpec) (now : ℤ) :
    (h.swap specs now).pool = h.pool.rebuild specs now := by
  simp [pool, swap]

end PoolHandle

/-- A spec list with distinct keys that has `k`, enabled or as a carrier. -/
structure Keeps (k : String) (specs : List LaneSpec) : Prop where
  nodup : (specs.map (·.key)).Nodup
  mem : k ∈ specs.map (·.key)

instance (k : String) (specs : List LaneSpec) : Decidable (Keeps k specs) :=
  decidable_of_iff ((specs.map (·.key)).Nodup ∧ k ∈ specs.map (·.key))
    ⟨fun h => ⟨h.1, h.2⟩, fun h => ⟨h.nodup, h.mem⟩⟩

/-! ## Runs of a handle -/

/-- The state of a run of one handle. -/
structure Serving where
  now : ℤ
  handle : PoolHandle
  /-- Ghost: the specs of the current generation. -/
  specs : List LaneSpec
  /-- Ghost: the grants not released so far. -/
  live : List Grant

/-- What happens to a handle. -/
inductive PoolEvent where
  | reserve (prefer : Option ℕ) (t : ℤ)
  | release (g : Grant)
  | penalize (gen lane : ℕ) (backoff : ℕ) (t : ℤ)
  | swap (specs : List LaneSpec) (t : ℤ)
  deriving DecidableEq, Repr

namespace Serving

/-- A process start: `Pool::new(specs)` in a fresh handle. -/
def boot (specs : List LaneSpec) (t : ℤ) : Serving :=
  ⟨t, .boot (Pool.new specs t), specs, []⟩

/-- The dispatcher's reserve on the current generation. -/
def reserve (s : Serving) (t : ℤ) (prefer : Option ℕ) : Serving × Reservation :=
  let (p, r) := s.handle.pool.reserve t prefer
  ({ s with now := t, handle := s.handle.setGen s.handle.cur p,
            live := s.live ++ r.grants s.handle.cur }, r)

/-- A slot given back, to the generation it came from. -/
def release (s : Serving) (g : Grant) : Serving :=
  { s with handle := s.handle.setGen g.gen ((s.handle.gens g.gen).release g.lane g.stamp),
           live := s.live.erase g }

/-- A cooldown written to some generation. -/
def penalize (s : Serving) (gen lane : ℕ) (backoff : ℕ) (t : ℤ) : Serving :=
  { s with now := t,
           handle := s.handle.setGen gen ((s.handle.gens gen).penalize lane t backoff) }

/-- A settings-driven swap. -/
def swap (s : Serving) (specs : List LaneSpec) (t : ℤ) : Serving :=
  { s with now := t, handle := s.handle.swap specs t, specs }

/-- One event; the clock never goes back, only an unreleased grant is released, and only a
generation that exists is penalized. -/
def step (s : Serving) : PoolEvent → Option Serving
  | .reserve prefer t => if s.now ≤ t then some (s.reserve t prefer).1 else none
  | .release g => if g ∈ s.live then some (s.release g) else none
  | .penalize gen lane backoff t =>
      if s.now ≤ t ∧ gen ≤ s.handle.cur then some (s.penalize gen lane backoff t) else none
  | .swap specs t => if s.now ≤ t then some (s.swap specs t) else none

/-- The stamps of the unreleased grants of a key, in every generation. -/
def stampsOf (k : String) (live : List Grant) : List ℤ :=
  Lib.logOf (fun g => g.key == k) (·.stamp) live

end Serving

/-- Runs of one handle from any first spec list. -/
def poolSystem : System Serving PoolEvent :=
  .ofStep (fun s => ∃ specs t, s = .boot specs t) Serving.step

namespace Serving

variable {s s' : Serving} {k : String} {t : ℤ}

/-! ## Every step, said once -/

/-- The four things that can happen, each with its guard. -/
theorem step_cases {e : PoolEvent} (h : s.step e = some s') :
    (∃ prefer t, e = .reserve prefer t ∧ s.now ≤ t ∧ s' = (s.reserve t prefer).1) ∨
    (∃ g, e = .release g ∧ g ∈ s.live ∧ s' = s.release g) ∨
    (∃ gen lane b t, e = .penalize gen lane b t ∧ s.now ≤ t ∧ gen ≤ s.handle.cur ∧
      s' = s.penalize gen lane b t) ∨
    (∃ specs t, e = .swap specs t ∧ s.now ≤ t ∧ s' = s.swap specs t) := by
  cases e with
  | reserve prefer t =>
      simp only [step, Option.ite_none_right_eq_some, Option.some.injEq] at h
      exact .inl ⟨prefer, t, rfl, h.1, h.2.symm⟩
  | release g =>
      simp only [step, Option.ite_none_right_eq_some, Option.some.injEq] at h
      exact .inr (.inl ⟨g, rfl, h.1, h.2.symm⟩)
  | penalize gen lane b t =>
      simp only [step, Option.ite_none_right_eq_some, Option.some.injEq] at h
      exact .inr (.inr (.inl ⟨gen, lane, b, t, rfl, h.1.1, h.1.2, h.2.symm⟩))
  | swap specs t =>
      simp only [step, Option.ite_none_right_eq_some, Option.some.injEq] at h
      exact .inr (.inr (.inr ⟨specs, t, rfl, h.1, h.2.symm⟩))

/-- A reserve seen from the handle: the current generation is replaced by what `Pool::reserve`
leaves, and a grant joins the unreleased ones. -/
theorem reserve_cases (s : Serving) (t : ℤ) (prefer : Option ℕ) :
    (∃ p d, s.reserve t prefer =
        ({ s with now := t, handle := s.handle.setGen s.handle.cur p }, .wait d) ∧
      Pool.Touched t s.handle.pool p) ∨
    (∃ q i k sticky p, s.reserve t prefer =
        ({ s with now := t, handle := s.handle.setGen s.handle.cur p,
                  live := s.live ++ [⟨s.handle.cur, i, k, t⟩] }, .ready i k t sticky) ∧
      i < s.handle.pool.active ∧ Pool.Touched t s.handle.pool q ∧ Pool.Grants t q i k p) := by
  rcases Pool.reserve_cases s.handle.pool t prefer with
    ⟨p, d, h, ht⟩ | ⟨q, i, k, sticky, p, h, hi, ht, hg⟩
  · exact .inl ⟨p, d, by simp only [reserve, h, Reservation.grants, List.append_nil], ht⟩
  · exact .inr ⟨q, i, k, sticky, p, by simp only [reserve, h, Reservation.grants], hi, ht, hg⟩

/-! ## Where lanes and grants stand -/

/-- **`Built`** — the current generation stands as its specs say, and every unreleased grant points
at a lane, of a generation that exists, with the key it was granted for. -/
structure Built (s : Serving) : Prop where
  shape : s.handle.pool.shape = (Pool.enabledFirst s.specs).map fun x => (x.key, x.rpm)
  active : s.handle.pool.active = (s.specs.filter (·.enabled)).length
  placed : ∀ g ∈ s.live, g.gen ≤ s.handle.cur ∧
    (s.handle.gens g.gen).laneKey g.lane = some g.key

theorem laneKey_setGen {h : PoolHandle} {g : ℕ} {p : Pool} (hshape : p.shape = (h.gens g).shape)
    (g' i : ℕ) : ((h.setGen g p).gens g').laneKey i = (h.gens g').laneKey i := by
  rw [PoolHandle.setGen_gens, Function.update_apply]
  split
  · rename_i heq
    rw [Pool.laneKey_eq_shape, hshape, heq, ← Pool.laneKey_eq_shape]
  · rfl

/-- One generation rewritten inside its lanes. -/
theorem Built.setGen (h : Built s) {g : ℕ} {p : Pool}
    (hshape : p.shape = (s.handle.gens g).shape) (hactive : p.active = (s.handle.gens g).active)
    (t : ℤ) : Built { s with now := t, handle := s.handle.setGen g p } where
  shape := by
    show (s.handle.setGen g p).pool.shape = _
    rw [PoolHandle.pool_setGen]
    split
    · rename_i heq
      rw [hshape, ← heq]
      exact h.shape
    · exact h.shape
  active := by
    show (s.handle.setGen g p).pool.active = _
    rw [PoolHandle.pool_setGen]
    split
    · rename_i heq
      rw [hactive, ← heq]
      exact h.active
    · exact h.active
  placed := by
    intro x hx
    rw [laneKey_setGen hshape]
    exact h.placed x hx

theorem built_boot (specs : List LaneSpec) (t : ℤ) : Built (boot specs t) where
  shape := Pool.assemble_shape specs none t
  active := rfl
  placed := by simp [boot]

theorem Built.reserve (h : Built s) (t : ℤ) (prefer : Option ℕ) :
    Built (s.reserve t prefer).1 := by
  rcases reserve_cases s t prefer with ⟨p, d, heq, ht⟩ | ⟨q, i, k, sticky, p, heq, hi, ht, hg⟩
  · rw [heq]
    exact h.setGen ht.shape ht.active t
  · rw [heq]
    have hset := h.setGen (p := p) (g := s.handle.cur) (hg.shape.trans ht.shape)
      (hg.active.trans ht.active) t
    refine ⟨hset.shape, hset.active, fun g hmem => ?_⟩
    rcases List.mem_append.mp hmem with hmem | hmem
    · exact hset.placed g hmem
    · obtain rfl := List.mem_singleton.mp hmem
      obtain ⟨l, hl, hkey, -⟩ := hg.lane
      refine ⟨Nat.le_refl _, ?_⟩
      rw [laneKey_setGen (hg.shape.trans ht.shape)]
      show s.handle.pool.laneKey i = some k
      rw [Pool.laneKey_eq_shape, ← ht.shape, ← Pool.laneKey_eq_shape]
      simp [Pool.laneKey, hl, hkey]

theorem Built.release (h : Built s) (g : Grant) : Built (s.release g) := by
  have hset := h.setGen (p := (s.handle.gens g.gen).release g.lane g.stamp)
    (Pool.release_shape _ _ _) (Pool.release_active _ _ _) s.now
  exact ⟨hset.shape, hset.active, fun x hx => hset.placed x (List.mem_of_mem_erase hx)⟩

theorem Built.penalize (h : Built s) (gen lane : ℕ) (b : ℕ) (t : ℤ) :
    Built (s.penalize gen lane b t) :=
  h.setGen (Pool.penalize_shape _ _ _ _) (Pool.penalize_active _ _ _ _) t

theorem Built.swap (h : Built s) (specs : List LaneSpec) (t : ℤ) :
    Built (s.swap specs t) where
  shape := by
    show (s.handle.swap specs t).pool.shape = _
    rw [PoolHandle.pool_swap]
    exact Pool.assemble_shape specs _ t
  active := by
    show (s.handle.swap specs t).pool.active = _
    rw [PoolHandle.pool_swap]
    rfl
  placed := by
    intro g hg
    obtain ⟨hle, hkey⟩ := h.placed g hg
    have hne : g.gen ≠ s.handle.cur + 1 := by omega
    refine ⟨Nat.le_succ_of_le hle, ?_⟩
    simpa [Serving.swap, PoolHandle.swap, Function.update_of_ne hne] using hkey

theorem Built.step (h : Built s) {e : PoolEvent} (hstep : s.step e = some s') : Built s' := by
  rcases step_cases hstep with ⟨prefer, t, -, -, rfl⟩ | ⟨g, -, -, rfl⟩ |
    ⟨gen, lane, b, t, -, -, -, rfl⟩ | ⟨specs, t, -, -, rfl⟩
  · exact h.reserve t prefer
  · exact h.release g
  · exact h.penalize gen lane b t
  · exact h.swap specs t

/-! ## Where the lane of a key is -/

/-- The specs of the current generation have distinct keys, `k` among them. -/
structure Keyed (k : String) (s : Serving) : Prop where
  built : Built s
  keeps : Keeps k s.specs

theorem keys_shape (h : Built s) :
    s.handle.pool.shape.map (·.1) = (Pool.enabledFirst s.specs).map (·.key) := by
  rw [h.shape, List.map_map]
  rfl

/-- Two lanes of the current generation with one key are one lane. -/
theorem Keyed.index_unique (h : Keyed k s) {i j : ℕ} {a : String}
    (hi : s.handle.pool.laneKey i = some a) (hj : s.handle.pool.laneKey j = some a) : i = j := by
  have hnodup : (s.handle.pool.shape.map (·.1)).Nodup := by
    rw [keys_shape h.built]
    exact ((Pool.enabledFirst_perm s.specs).map _).nodup_iff.mpr h.keeps.nodup
  rw [Pool.laneKey_eq_shape, ← List.getElem?_map] at hi hj
  obtain ⟨hi', rfl⟩ := List.getElem?_eq_some_iff.mp hi
  obtain ⟨hj', heq⟩ := List.getElem?_eq_some_iff.mp hj
  exact (hnodup.getElem_inj_iff.mp heq).symm

/-- The current generation has a lane of `k`. -/
theorem Keyed.known (h : Keyed k s) : k ∈ s.handle.pool.lanes.map (·.key) := by
  have hkeys := keys_shape h.built
  rw [Pool.shape, List.map_map] at hkeys
  have : s.handle.pool.lanes.map (·.key) = (Pool.enabledFirst s.specs).map (·.key) := hkeys
  rw [this]
  exact ((Pool.enabledFirst_perm s.specs).map _).mem_iff.mpr h.keeps.mem

/-- A lane of `k` in the next generation carries the window and the cooldown of a lane of `k` in
this one. -/
theorem swap_carries (hk : k ∈ s.handle.pool.lanes.map (·.key)) {specs : List LaneSpec}
    {t : ℤ} {i : ℕ} {l : Lane} (hl : (s.swap specs t).handle.pool.lanes[i]? = some l)
    (hkey : l.key = k) :
    ∃ (j : ℕ) (prev : Lane), s.handle.pool.lanes[j]? = some prev ∧ prev.key = k ∧ l.sent = prev.sent ∧
      l.cooldownUntil = prev.cooldownUntil := by
  simp only [Serving.swap, PoolHandle.pool_swap, Pool.rebuild] at hl
  obtain ⟨spec, -, rfl⟩ := Pool.assemble_get hl
  rw [Pool.carryLane_key] at hkey
  obtain ⟨prev, hprev, hpk, heq⟩ := Pool.carryLane_of_old (by rw [hkey]; exact hk)
  obtain ⟨j, hj⟩ := List.mem_iff_getElem?.mp hprev
  refine ⟨j, prev, hj, hpk.trans hkey, ?_, ?_⟩
  · rw [heq]
  · rw [heq]

theorem step_specs {e : PoolEvent} (hstep : s.step e = some s')
    (hkeep : ∀ specs t, e = .swap specs t → Keeps k specs) (h : Keeps k s.specs) :
    Keeps k s'.specs := by
  rcases step_cases hstep with ⟨prefer, t, -, -, rfl⟩ | ⟨g, -, -, rfl⟩ |
    ⟨gen, lane, b, t, -, -, -, rfl⟩ | ⟨specs, t, rfl, -, rfl⟩
  · exact h
  · exact h
  · exact h
  · exact hkeep specs t rfl

theorem Keyed.step (h : Keyed k s) {e : PoolEvent} (hstep : s.step e = some s')
    (hkeep : ∀ specs t, e = .swap specs t → Keeps k specs) : Keyed k s' :=
  ⟨h.built.step hstep, step_specs hstep hkeep h.keeps⟩

/-- The run rule of an invariant that a step keeps as long as a swap keeps the key. -/
theorem run_of_keeping {I : Serving → Prop} {es : List PoolEvent} (hrun : poolSystem.Run s es s')
    (hstep : ∀ {s s' : Serving} {e : PoolEvent}, I s → s.step e = some s' →
      (∀ specs t, e = .swap specs t → Keeps k specs) → I s')
    (hkeep : ∀ specs t, PoolEvent.swap specs t ∈ es → Keeps k specs) (h : I s) : I s' := by
  have hes : ∀ e ∈ es, ∀ specs t, e = .swap specs t → Keeps k specs :=
    fun e he specs t heq => hkeep specs t (heq ▸ he)
  exact hrun.preserves_of_forall (fun hC h hs => hstep h hs hC) hes h

theorem Keyed.run {es : List PoolEvent} (hrun : poolSystem.Run s es s') (h : Keyed k s)
    (hkeep : ∀ specs t, PoolEvent.swap specs t ∈ es → Keeps k specs) : Keyed k s' :=
  run_of_keeping hrun (fun h hstep => h.step hstep) hkeep h

theorem keyed_boot {specs : List LaneSpec} (h : Keeps k specs) (t : ℤ) : Keyed k (boot specs t) :=
  ⟨built_boot specs t, h⟩

end Serving

end Flock
