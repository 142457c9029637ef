/-
# Flock.Router.Basic — provider runtimes as shared objects, and the registry over them.

A `ProviderRuntime` is an `Arc`: requests in flight, the serving path and the registry hold the same
object, and some hold it after the registry dropped it.  So runtimes, pool handles, dispatcher queues
and governors live at addresses in heaps that only grow, and the registry maps a name to an address.
One counter serves all the heaps: a new runtime takes one address, and its pool handle, its queue and
its governor stand at that address in their own heaps.  A `Dispatcher` is its queue (cloning shares
it) and the pool handle its task grants from.

`rebuild` is the loop of the source: drop what is gone or disabled, reconfigure survivors, add
newcomers.
-/
import Flock.Circuit
import Flock.Config
import Flock.Health
import Flock.Pool.Generations

namespace Flock

/-- `Dispatcher`: the queue, and the pool handle its task was spawned with. -/
structure Dispatcher where
  queue : ℕ
  pool : ℕ
  deriving DecidableEq, Repr

/-- `ProviderRuntime`. -/
structure Runtime where
  defn : ProviderDef
  pool : ℕ
  dispatcher : Dispatcher
  governor : ℕ
  circuit : CircuitBreaker
  deriving DecidableEq

instance : Inhabited Runtime := ⟨⟨{}, 0, ⟨0, 0⟩, 0, .astmatrixDefaults⟩⟩

/-- `RouterInner`, with the heaps its `Arc`s point into. -/
structure Router where
  /-- The next free address. -/
  next : ℕ
  /-- Every pool handle ever made. -/
  pools : ℕ → PoolHandle
  /-- Every runtime ever made. -/
  objs : ℕ → Runtime
  runtimes : String → Option ℕ
  order : List String
  health : HealthDb
  routing : RoutingCfg
  /-- The static counter of `order_round_robin`. -/
  roundRobin : ℕ

/-- `RestoredRuntime` and the restored health rows: what the state database of an earlier process
gives back at boot. -/
structure Restored where
  circuits : String → Option CircuitSnapshot := fun _ => none
  laneWindows : String → List (String × List ℕ) := fun _ => []
  cooldowns : List ((String × String) × ℕ) := []
  health : HealthDb := {}

namespace Router

variable (env : Env)

/-- Nothing built yet. -/
def empty (health : HealthDb) : Router where
  next := 0
  pools := fun _ => .boot (Pool.new [] 0)
  objs := fun _ => default
  runtimes := fun _ => none
  order := []
  health := health
  routing := {}
  roundRobin := 0

/-- A fresh pool handle; its address is free in the other heaps too. -/
def allocPool (r : Router) (specs : List LaneSpec) (now : ℤ) : Router × ℕ :=
  ({ r with next := r.next + 1,
            pools := Function.update r.pools r.next (.boot (Pool.new specs now)) }, r.next)

/-- `ProviderRuntime::build`: a new pool, a new dispatcher over it, a new governor, a closed
breaker. -/
def build (r : Router) (d : ProviderDef) (now : ℤ) : Router × ℕ :=
  let (r, a) := r.allocPool (d.laneSpecs env) now
  let rt : Runtime := ⟨d, a, ⟨a, a⟩, a, .astmatrixDefaults⟩
  ({ r with objs := Function.update r.objs a rt }, a)

/-- `ProviderRuntime::reconfigure`: swap the pool behind its handle, then the definition. -/
def reconfigure (r : Router) (a : ℕ) (d : ProviderDef) (now : ℤ) : Router :=
  { r with
    pools := Function.update r.pools (r.objs a).pool
      ((r.pools (r.objs a).pool).swap (d.laneSpecs env) now)
    objs := Function.update r.objs a { r.objs a with defn := d } }

/-- The pool writes of `ProviderRuntime::restore`: lane windows, then cooldowns. -/
def restorePool (rt : Restored) (name : String) (nowUnix : ℕ) (now : ℤ) (p : Pool) : Pool :=
  let p := (rt.laneWindows name).foldl
    (fun p row => p.restoreLaneWindow row.1 row.2 nowUnix now) p
  (rt.cooldowns.filter fun row => row.1.1 == name).foldl
    (fun p row => p.restoreCooldown row.1.2 row.2 nowUnix now) p

/-- `ProviderRuntime::restore`. -/
def restore (rt : Restored) (nowUnix : ℕ) (now : ℤ) (r : Router) (a : ℕ) : Router :=
  let name := (r.objs a).defn.name
  let h := r.pools (r.objs a).pool
  { r with
    pools := Function.update r.pools (r.objs a).pool
      (h.setGen h.cur (restorePool rt name nowUnix now h.pool))
    objs := Function.update r.objs a
      { r.objs a with circuit := match rt.circuits name with
          | some snap => .restore snap nowUnix now
          | none => (r.objs a).circuit } }

/-- Put a runtime in the registry. -/
def register (r : Router) (name : String) (a : ℕ) : Router :=
  { r with runtimes := Function.update r.runtimes name (some a) }

/-- `runtimes.retain(..)`. -/
def retain (r : Router) (providers : List ProviderDef) : Router :=
  { r with runtimes := fun name =>
      (r.runtimes name).filter fun _ => providers.any fun p => p.name == name && p.enabled }

/-- One iteration of the loop of `rebuild`. -/
def install (now : ℤ) (r : Router) (d : ProviderDef) : Router :=
  match r.runtimes d.name with
  | some a => r.reconfigure env a d now
  | none => ((r.build env d now).1).register d.name (r.build env d now).2

/-- `RouterHandle::rebuild`. -/
def rebuild (r : Router) (stored : StoredConfig) (now : ℤ) : Router :=
  let enabled := stored.providers.filter (·.enabled)
  let r := enabled.foldl (install env now) (r.retain stored.providers)
  { r with order := enabled.map (·.name), routing := stored.routing }

/-- One iteration of the loop of `build`. -/
def bootOne (rt : Restored) (nowUnix : ℕ) (now : ℤ) (r : Router) (d : ProviderDef) : Router :=
  ((r.build env d now).1.restore rt nowUnix now (r.build env d now).2).register d.name
    (r.build env d now).2

/-- `RouterHandle::build`: one runtime per enabled provider, with what the last process left. -/
def boot (stored : StoredConfig) (rt : Restored) (nowUnix : ℕ) (now : ℤ) : Router :=
  let enabled := stored.providers.filter (·.enabled)
  let r := enabled.foldl (bootOne env rt nowUnix now) (empty rt.health)
  { r with order := enabled.map (·.name), routing := stored.routing }

/-- `RouterHandle::runtime`. -/
def runtime (r : Router) (provider : String) : Option ℕ := r.runtimes provider

end Router

end Flock
