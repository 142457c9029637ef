/-
# Flock.App.Basic — the process: the serving handles, the settings writer, the sticky-lane hint.

`AppState` holds three handles of its own, taken once at boot from the router's NVIDIA runtime (or
made fresh when there is none), and the store of truth.  `commit` is the only writer of the store: it
checks and persists a candidate, rebuilds the router from it, and empties the serving pool when the
NVIDIA runtime is gone.  The handles themselves are never replaced.
-/
import Flock.Json
import Flock.Router.System
import Flock.Settings

namespace Flock

open Lib (System)

/-! ## The sticky-lane hint -/

/-- What stops a thread. -/
inductive Panic where
  | remainderByZero
  deriving DecidableEq, Repr

/-- `affinity`: the lane a conversation sticks to. `hash` is the standard hasher over the strings
written to it, `render` is `Value::to_string`. -/
def affinity {ν : Type} (hash : List String → UInt64) (render : Json ν → String) (body : Json ν)
    (lanes : ℕ) : Except Panic (Option ℕ) :=
  match (body.get "messages").bind Json.asArray with
  | none => .ok none
  | some messages =>
      let model := ((body.get "model").bind Json.asStr).getD ""
      let h := hash (model :: (messages.take 2).map render)
      if lanes = 0 then .error .remainderByZero else .ok (some (h.toNat % lanes))

/-- The remainder is taken of every body with a messages array, so it needs a lane. -/
theorem affinity_ok_iff {ν : Type} (hash : List String → UInt64) (render : Json ν → String)
    (lanes : ℕ) :
    (∀ body : Json ν, ((body.get "messages").bind Json.asArray).isSome = true →
      ∃ lane, affinity hash render body lanes = .ok (some lane)) ↔ 1 ≤ lanes := by
  constructor
  · intro h
    obtain ⟨lane, hlane⟩ := h (.obj [("messages", .arr [])]) rfl
    by_contra hzero
    obtain rfl : lanes = 0 := by omega
    cases hlane
  · intro h body hbody
    obtain ⟨messages, hm⟩ := Option.isSome_iff_exists.mp hbody
    have hne : lanes ≠ 0 := by omega
    exact ⟨_, by simp only [affinity, hm, if_neg hne]; rfl⟩

/-! ## The process -/

namespace PoolHandle

/-- `*handle.write() = Arc::new(p)`. -/
def put (h : PoolHandle) (p : Pool) : PoolHandle where
  gens := Function.update h.gens (h.cur + 1) p
  cur := h.cur + 1

@[simp] theorem pool_put (h : PoolHandle) (p : Pool) : (h.put p).pool = p := by
  simp [pool, put]

end PoolHandle

/-- The part of `AppState` that serves and configures. -/
structure AppState where
  fleet : Fleet
  /-- The persisted store of truth. -/
  store : StoredConfig
  pool : ℕ
  dispatch : Dispatcher
  governor : ℕ
  /-- The retention the history was last told. -/
  historyDays : ℕ
  configRevision : ℕ

/-- `nvidia_serving_handles`: the NVIDIA runtime's own handles, else fresh ones over an empty
pool. -/
def nvidiaServingHandles (r : Router) (now : ℤ) : Router × ℕ × Dispatcher × ℕ :=
  match r.runtime "nvidia" with
  | some a => (r, (r.objs a).pool, (r.objs a).dispatcher, (r.objs a).governor)
  | none => ((r.allocPool [] now).1, (r.allocPool [] now).2,
      ⟨(r.allocPool [] now).2, (r.allocPool [] now).2⟩, (r.allocPool [] now).2)

/-- What happens to the process. `saved` is the answer of the file system. -/
inductive AppEvent where
  | commit (candidate : StoredConfig) (saved : Except String Unit) (t : ℤ)
  | fleet (e : FleetEvent)

namespace AppState

variable (env : Env)

/-- A process start: `RouterHandle::build`, then the serving handles. -/
def boot (stored : StoredConfig) (rt : Restored) (nowUnix : ℕ) (t : ℤ) : AppState :=
  let w := Fleet.boot env stored rt nowUnix t
  let (router, pool, dispatch, governor) := nvidiaServingHandles w.router t
  { fleet := { w with router }, store := stored, pool, dispatch, governor,
    historyDays := stored.historyDays, configRevision := 0 }

/-- `AppState::pool`: the current generation of the serving handle. -/
def poolNow (s : AppState) : Pool := (s.fleet.router.pools s.pool).pool

/-- `*state.pool.write() = Arc::new(Pool::new(vec![]))`. -/
def emptyPool (s : AppState) (t : ℤ) : AppState :=
  { s with fleet := { s.fleet with
      router := Fleet.setHandle s.fleet.router s.pool
        ((s.fleet.router.pools s.pool).put (Pool.new [] t))
      specs := Function.update s.fleet.specs s.pool [] } }

/-- The swap of `commit`, after the candidate has been checked and saved. -/
def publish (s : AppState) (candidate : StoredConfig) (t : ℤ) : AppState :=
  let s₁ := { s with fleet := s.fleet.rebuild env candidate t }
  let s₂ := if (s₁.fleet.router.runtime "nvidia").isNone then s₁.emptyPool t else s₁
  { s₂ with
    historyDays := if candidate.historyDays ≠ s.store.historyDays then candidate.historyDays
      else s.historyDays
    store := candidate
    configRevision := s.configRevision + 1 }

/-- `commit`. -/
def commit (s : AppState) (candidate : StoredConfig) (saved : Except String Unit) (t : ℤ) :
    Except CommitError AppState :=
  (persist candidate saved).map fun stored => s.publish env stored t

/-- One event. A refused commit changes nothing; only a commit rebuilds the router. -/
def step (s : AppState) : AppEvent → Option AppState
  | .commit candidate saved t =>
      if s.fleet.now ≤ t then
        match s.commit env candidate saved t with
        | .ok s' => some s'
        | .error _ => some s
      else none
  | .fleet (.rebuild ..) => none
  | .fleet e => (s.fleet.step env e).map fun w => { s with fleet := w }

end AppState

/-- The store an event publishes: a candidate that passes the check and is saved. -/
def AppEvent.committed : AppEvent → Option StoredConfig
  | .commit candidate saved _ => (persist candidate saved).toOption
  | .fleet _ => none

/-- The stores a run published, oldest first. -/
def committedStores (es : List AppEvent) : List StoredConfig := es.filterMap (·.committed)

/-- Runs of the process from any validated store and any restored state. -/
def appSystem (env : Env) : System AppState AppEvent :=
  .ofStep (fun s => ∃ stored rt nowUnix t, (validate stored).isOk = true ∧
    s = AppState.boot env stored rt nowUnix t) (AppState.step env)

namespace AppState

variable {env : Env} {s s' : AppState}

/-- **Every event of the process, said once.** -/
theorem step_cases {e : AppEvent} (h : s.step env e = some s') :
    (∃ candidate t, e.committed = some candidate ∧ (validate candidate).isOk = true ∧
      s.fleet.now ≤ t ∧ s' = s.publish env candidate t) ∨
    (e.committed = none ∧ s' = s) ∨
    (∃ fe w, e.committed = none ∧ (∀ stored t, fe ≠ .rebuild stored t) ∧
      s.fleet.step env fe = some w ∧ s' = { s with fleet := w }) := by
  cases e with
  | commit candidate saved t =>
      simp only [step, Option.ite_none_right_eq_some] at h
      obtain ⟨hle, h⟩ := h
      cases hp : persist candidate saved with
      | error err =>
          simp only [commit, hp, Except.map] at h
          exact .inr (.inl ⟨by simp [AppEvent.committed, hp, Except.toOption],
            (Option.some.inj h).symm⟩)
      | ok stored =>
          simp only [commit, hp, Except.map] at h
          exact .inl ⟨stored, t, by simp [AppEvent.committed, hp, Except.toOption],
            (persist_ok hp).2, hle, (Option.some.inj h).symm⟩
  | fleet fe =>
      have hne : ∀ stored t, fe ≠ .rebuild stored t := by
        rintro stored t rfl
        cases h
      have hmap : (s.fleet.step env fe).map (fun w => { s with fleet := w }) = some s' := by
        cases fe with
        | rebuild stored t => exact absurd rfl (hne stored t)
        | _ => exact h
      obtain ⟨w, hw, rfl⟩ := Option.map_eq_some_iff.mp hmap
      exact .inr (.inr ⟨fe, w, rfl, hne, hw, rfl⟩)

end AppState

end Flock
