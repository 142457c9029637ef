/-
# Flock.Router.System — everything that happens to the router, one critical section at a time.

A request's life (`acquire`, `finish_success`, `finish_failure`, `record_attempt`), the probe loop
and the settings writer are sequences of these events; any interleaving of them is a run.  Two kinds
of event name their object differently, as the source does: what goes through the registry names the
provider (`record_attempt` looks the runtime up again), what a holder of the `Arc` does names the
address (the breaker's `allow` inside `acquire`, the dispatcher's grants), whether or not the registry
still has it.

Ghosts: the specs each pool handle's current generation was built from, and the unreleased grants of
every handle.
-/
import Flock.Router.Select

namespace Flock

open Lib (System)

/-- The state of a run of the router. -/
structure Fleet where
  now : ℤ
  router : Router
  /-- Ghost: the specs of the current generation of each handle. -/
  specs : ℕ → List LaneSpec
  /-- Ghost: unreleased grants, with the handle that made them. -/
  live : List (ℕ × Grant)

/-- What happens to the router. -/
inductive FleetEvent where
  | rebuild (stored : StoredConfig) (t : ℤ)
  | select (model session : String) (override : Option Strategy) (nowUnix : ℕ) (rolls : ℕ → ℚ)
  | allow (addr : ℕ) (t : ℤ)
  | recordSuccess (provider : String)
  | recordFailure (provider : String) (t : ℤ) (nowUnix : ℕ)
  | recordHealth (provider : String) (healthy : Bool) (nowUnix : ℕ)
  | recordLatency (provider : String) (ms : ℚ)
  | setElo (provider : String) (elo : ℤ)
  | setSticky (session provider : String) (ttlSecs nowUnix : ℕ)
  | sweepStickies (nowUnix : ℕ)
  | reserve (addr : ℕ) (prefer : Option ℕ) (t : ℤ)
  | release (addr : ℕ) (g : Grant)
  | penalize (addr gen lane : ℕ) (backoff : ℕ) (t : ℤ)

namespace Router

/-- Rewrite the breaker of a runtime. -/
def setCircuit (r : Router) (a : ℕ) (f : CircuitBreaker → CircuitBreaker) : Router :=
  { r with objs := Function.update r.objs a { r.objs a with circuit := f (r.objs a).circuit } }

/-- Rewrite the breaker of the runtime registered under a name; nothing if there is none. -/
def atRuntime (r : Router) (provider : String) (f : CircuitBreaker → CircuitBreaker) : Router :=
  match r.runtimes provider with
  | some a => r.setCircuit a f
  | none => r

/-- The specs of the registered runtimes, the old ones for the rest. -/
def specsOf (env : Env) (r : Router) (old : ℕ → List LaneSpec) (a : ℕ) : List LaneSpec :=
  if r.runtimes (r.objs a).defn.name = some a then (r.objs a).defn.laneSpecs env else old a

end Router

namespace Fleet

variable (env : Env)

/-- A process start. -/
def boot (stored : StoredConfig) (rt : Restored) (nowUnix : ℕ) (t : ℤ) : Fleet where
  now := t
  router := Router.boot env stored rt nowUnix t
  specs := (Router.boot env stored rt nowUnix t).specsOf env fun _ => []
  live := []

/-- One handle, with its part of the ghosts. -/
def serving (w : Fleet) (a : ℕ) : Serving where
  now := w.now
  handle := w.router.pools a
  specs := w.specs a
  live := (w.live.filter fun x => x.1 == a).map (·.2)

/-- The router with the handle at `a` replaced. -/
def setHandle (r : Router) (a : ℕ) (h : PoolHandle) : Router :=
  { r with pools := Function.update r.pools a h }

/-- The dispatcher's reserve on the handle at `a`. -/
def reserve (w : Fleet) (a : ℕ) (t : ℤ) (prefer : Option ℕ) : Fleet × Reservation :=
  let (s, res) := (w.serving a).reserve t prefer
  ({ w with now := t, router := setHandle w.router a s.handle,
            live := w.live ++ (res.grants (w.router.pools a).cur).map fun g => (a, g) }, res)

/-- A slot given back to the handle at `a`. -/
def release (w : Fleet) (a : ℕ) (g : Grant) : Fleet :=
  { w with router := setHandle w.router a ((w.serving a).release g).handle,
           live := w.live.erase (a, g) }

/-- A cooldown written to a generation of the handle at `a`. -/
def penalize (w : Fleet) (a gen lane backoff : ℕ) (t : ℤ) : Fleet :=
  { w with now := t,
           router := setHandle w.router a ((w.serving a).penalize gen lane backoff t).handle }

/-- A settings rebuild. -/
def rebuild (w : Fleet) (stored : StoredConfig) (t : ℤ) : Fleet :=
  { w with now := t, router := w.router.rebuild env stored t,
           specs := (w.router.rebuild env stored t).specsOf env w.specs }

/-- One event. The clock never goes back, a rebuild is of a validated store, an address is one that
was allocated, and what is released was granted there. -/
def step (w : Fleet) : FleetEvent → Option Fleet
  | .rebuild stored t =>
      if w.now ≤ t ∧ (validate stored).isOk = true then some (w.rebuild env stored t) else none
  | .select model session override nowUnix rolls =>
      some { w with router := (w.router.select env model session override nowUnix rolls).1 }
  | .allow a t =>
      if w.now ≤ t ∧ a < w.router.next then
        some { w with now := t, router := w.router.setCircuit a fun c => (c.allow t).2 }
      else none
  | .recordSuccess provider =>
      some { w with router := w.router.atRuntime provider (·.recordSuccess) }
  | .recordFailure provider t nowUnix =>
      if w.now ≤ t then
        some { w with now := t,
                      router := w.router.atRuntime provider (·.recordFailure t nowUnix) }
      else none
  | .recordHealth provider healthy nowUnix =>
      some { w with router :=
        { w.router with health := w.router.health.recordHealth provider healthy nowUnix } }
  | .recordLatency provider ms =>
      some { w with router :=
        { w.router with health := w.router.health.recordLatency provider ms } }
  | .setElo provider elo =>
      some { w with router := { w.router with health := w.router.health.setElo provider elo } }
  | .setSticky session provider ttlSecs nowUnix =>
      some { w with router :=
        { w.router with health := w.router.health.setSticky session provider ttlSecs nowUnix } }
  | .sweepStickies nowUnix =>
      some { w with router :=
        { w.router with health := w.router.health.sweepExpiredStickies nowUnix } }
  | .reserve a prefer t =>
      if w.now ≤ t ∧ a < w.router.next then some (w.reserve a t prefer).1 else none
  | .release a g =>
      if (a, g) ∈ w.live then some (w.release a g) else none
  | .penalize a gen lane backoff t =>
      if w.now ≤ t ∧ a < w.router.next ∧ gen ≤ (w.router.pools a).cur then
        some (w.penalize a gen lane backoff t)
      else none

end Fleet

/-- Runs of the router from any validated store and any restored state. -/
def fleetSystem (env : Env) : System Fleet FleetEvent :=
  .ofStep (fun w => ∃ stored rt nowUnix t, (validate stored).isOk = true ∧
    w = Fleet.boot env stored rt nowUnix t) (Fleet.step env)

namespace Router

variable {r r' : Router} {n : String} {a : ℕ}

/-- `r'` differs from `r` in breakers, health, counters and lanes only. -/
structure SameRegistry (r r' : Router) : Prop where
  next : r'.next = r.next
  runtimes : r'.runtimes = r.runtimes
  order : r'.order = r.order
  defn : ∀ a, (r'.objs a).defn = (r.objs a).defn
  pool : ∀ a, (r'.objs a).pool = (r.objs a).pool
  dispatcher : ∀ a, (r'.objs a).dispatcher = (r.objs a).dispatcher
  governor : ∀ a, (r'.objs a).governor = (r.objs a).governor

/-- Same registry, same objects. -/
theorem SameRegistry.of_objs (hnext : r'.next = r.next) (hreg : r'.runtimes = r.runtimes)
    (horder : r'.order = r.order) (hobjs : r'.objs = r.objs) : SameRegistry r r' := by
  refine ⟨hnext, hreg, horder, ?_, ?_, ?_, ?_⟩
  all_goals
    intro a
    rw [hobjs]

/-- A breaker is no part of the registry. -/
theorem sameRegistry_setCircuit (r : Router) (a : ℕ) (f : CircuitBreaker → CircuitBreaker) :
    SameRegistry r (r.setCircuit a f) := by
  refine ⟨rfl, rfl, rfl, ?_, ?_, ?_, ?_⟩
  all_goals
    intro b
    simp only [setCircuit, Function.update_apply]
    split
    · rename_i heq
      rw [heq]
    · rfl

/-- Nor is it when it is looked up by its provider. -/
theorem sameRegistry_atRuntime (r : Router) (provider : String)
    (f : CircuitBreaker → CircuitBreaker) : SameRegistry r (r.atRuntime provider f) := by
  unfold atRuntime
  split
  · exact sameRegistry_setCircuit r _ f
  · exact .of_objs rfl rfl rfl rfl

/-- A selection leaves the registry. -/
theorem sameRegistry_select (env : Env) (r : Router) (model session : String)
    (override : Option Strategy) (nowUnix : ℕ) (rolls : ℕ → ℚ) :
    SameRegistry r (r.select env model session override nowUnix rolls).1 := by
  unfold select
  dsimp only
  split
  · exact .of_objs rfl rfl rfl rfl
  · split
    · exact .of_objs rfl rfl rfl rfl
    · split
      · exact .of_objs rfl rfl rfl rfl
      · exact .of_objs rfl rfl rfl rfl

theorem select_pools (env : Env) (r : Router) (model session : String)
    (override : Option Strategy) (nowUnix : ℕ) (rolls : ℕ → ℚ) :
    (r.select env model session override nowUnix rolls).1.pools = r.pools := by
  unfold select
  dsimp only
  split
  · rfl
  · split
    · rfl
    · split <;> rfl

/-- So does a report about a provider. -/
theorem atRuntime_pools (r : Router) (provider : String) (f : CircuitBreaker → CircuitBreaker) :
    (r.atRuntime provider f).pools = r.pools := by
  unfold atRuntime
  split <;> rfl

/-- Whether a registry is in order is a matter of the registry. -/
theorem WF.same (h : WF r) (hs : SameRegistry r r') : WF r' where
  lt n a hn := by rw [hs.next]; exact h.lt n a (hs.runtimes ▸ hn)
  name n a hn := by rw [hs.defn]; exact h.name n a (hs.runtimes ▸ hn)
  owns n a hn := by
    have ho := h.owns n a (hs.runtimes ▸ hn)
    exact ⟨(hs.pool a).trans ho.pool, (hs.dispatcher a).trans ho.dispatcher,
      (hs.governor a).trans ho.governor⟩

end Router

namespace Fleet

variable {env : Env} {w w' : Fleet}

/-- An event that touches neither the registry nor a lane nor the ghosts. -/
structure Quiet (w w' : Fleet) : Prop where
  now : w.now ≤ w'.now
  same : Router.SameRegistry w.router w'.router
  pools : w'.router.pools = w.router.pools
  specs : w'.specs = w.specs
  live : w'.live = w.live

/-- **Every event of the router, said once.** -/
theorem step_cases {e : FleetEvent} (h : w.step env e = some w') :
    (∃ stored t, e = .rebuild stored t ∧ w.now ≤ t ∧ (validate stored).isOk = true ∧
      w' = w.rebuild env stored t) ∨
    (∃ a prefer t, e = .reserve a prefer t ∧ w.now ≤ t ∧ a < w.router.next ∧
      w' = (w.reserve a t prefer).1) ∨
    (∃ a g, e = .release a g ∧ (a, g) ∈ w.live ∧ w' = w.release a g) ∨
    (∃ a gen lane b t, e = .penalize a gen lane b t ∧ w.now ≤ t ∧ a < w.router.next ∧
      w' = w.penalize a gen lane b t) ∨
    Quiet w w' := by
  -- whatever the health view becomes, the registry and the pools stay
  have hhealth : ∀ health : HealthDb,
      Quiet w { w with router := { w.router with health := health } } := fun health =>
    ⟨Int.le_refl _, .of_objs rfl rfl rfl rfl, rfl, rfl, rfl⟩
  cases e with
  -- the four events that can change a pool, and all the others, which cannot
  | rebuild stored t =>
      simp only [step, Option.ite_none_right_eq_some, Option.some.injEq] at h
      exact .inl ⟨stored, t, rfl, h.1.1, h.1.2, h.2.symm⟩
  | select model session override nowUnix rolls =>
      cases h
      exact .inr (.inr (.inr (.inr ⟨Int.le_refl _, Router.sameRegistry_select env _ _ _ _ _ _,
        Router.select_pools env _ _ _ _ _ _, rfl, rfl⟩)))
  | allow a t =>
      simp only [step, Option.ite_none_right_eq_some, Option.some.injEq] at h
      obtain ⟨⟨hle, -⟩, rfl⟩ := h
      have hs := Router.sameRegistry_setCircuit w.router a fun c => (c.allow t).2
      exact .inr (.inr (.inr (.inr ⟨hle, hs, rfl, rfl, rfl⟩)))
  | recordSuccess provider =>
      cases h
      exact .inr (.inr (.inr (.inr ⟨Int.le_refl _, Router.sameRegistry_atRuntime _ _ _,
        Router.atRuntime_pools _ _ _, rfl, rfl⟩)))
  | recordFailure provider t nowUnix =>
      simp only [step, Option.ite_none_right_eq_some, Option.some.injEq] at h
      obtain ⟨hle, rfl⟩ := h
      exact .inr (.inr (.inr (.inr ⟨hle, Router.sameRegistry_atRuntime _ _ _,
        Router.atRuntime_pools _ _ _, rfl, rfl⟩)))
  | recordHealth provider healthy nowUnix =>
      cases h
      exact .inr (.inr (.inr (.inr (hhealth _))))
  | recordLatency provider ms =>
      cases h
      exact .inr (.inr (.inr (.inr (hhealth _))))
  | setElo provider elo =>
      cases h
      exact .inr (.inr (.inr (.inr (hhealth _))))
  | setSticky session provider ttlSecs nowUnix =>
      cases h
      exact .inr (.inr (.inr (.inr (hhealth _))))
  | sweepStickies nowUnix =>
      cases h
      exact .inr (.inr (.inr (.inr (hhealth _))))
  | reserve a prefer t =>
      simp only [step, Option.ite_none_right_eq_some, Option.some.injEq] at h
      exact .inr (.inl ⟨a, prefer, t, rfl, h.1.1, h.1.2, h.2.symm⟩)
  | release a g =>
      simp only [step, Option.ite_none_right_eq_some, Option.some.injEq] at h
      exact .inr (.inr (.inl ⟨a, g, rfl, h.1, h.2.symm⟩))
  | penalize a gen lane backoff t =>
      simp only [step, Option.ite_none_right_eq_some, Option.some.injEq] at h
      exact .inr (.inr (.inr (.inl ⟨a, gen, lane, backoff, t, rfl, h.1.1, h.1.2.1, h.2.symm⟩)))

/-- **`Filed`** — the registry is well-formed, and what is registered stands in the order. -/
structure Filed (r : Router) : Prop where
  wf : Router.WF r
  ordered : ∀ n a, r.runtimes n = some a → n ∈ r.order

/-- Whether every pool is filed is one too. -/
theorem Filed.same {r r' : Router} (h : Filed r) (hs : Router.SameRegistry r r') : Filed r' :=
  ⟨h.wf.same hs, fun n a hn => by rw [hs.order]; exact h.ordered n a (hs.runtimes ▸ hn)⟩

/-- Every event keeps the pools filed. -/
theorem Filed.step (h : Filed w.router) {e : FleetEvent} (hstep : w.step env e = some w') :
    Filed w'.router := by
  rcases step_cases hstep with ⟨stored, t, -, -, -, rfl⟩ | ⟨a, prefer, t, -, -, -, rfl⟩ |
    ⟨a, g, -, -, rfl⟩ | ⟨a, gen, lane, b, t, -, -, -, rfl⟩ | hq
  · exact ⟨h.wf.rebuild stored, fun n a hn => Router.rebuild_registered h.wf hn⟩
  · exact h.same (.of_objs rfl rfl rfl rfl)
  · exact h.same (.of_objs rfl rfl rfl rfl)
  · exact h.same (.of_objs rfl rfl rfl rfl)
  · exact h.same hq.same

/-- Every reachable router is filed. -/
theorem filed_of_reachable (h : (fleetSystem env).Reachable w) : Filed w.router := by
  refine h.invariant (I := fun w => Filed w.router) ?_ ?_
  · rintro s ⟨stored, rt, nowUnix, t, -, rfl⟩
    exact ⟨Router.wf_boot stored rt nowUnix t, fun n a hn => Router.boot_registered hn⟩
  · intro s e s' hs hstep
    exact hs.step hstep

end Fleet

end Flock
