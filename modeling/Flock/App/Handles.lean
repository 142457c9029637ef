/-
# Flock.App.Handles — whose handles the serving path holds, over whole runs.

The serving handles are the NVIDIA runtime's own (`Attached`) or they are not, and then nobody in the
registry has that pool and it has no lane (`Detached`).  A commit that keeps NVIDIA enabled keeps the
first; a commit that disables it drops the runtime and leads to the second; and nothing leads back,
since a runtime that is built again stands at a new address.  So both what the handles are and
whether the serving pool has a lane is decided by the stores committed since boot.

The condition is about stores, so it can be read off what the administrators saved.  That it is exact takes both
directions of one induction: a process that is attached stays so through every commit that allows it, and one that is
detached stays so through all of them.
-/
import Flock.App.Basic
import Flock.Router.Toggle

namespace Flock

open Lib (System)

/-! ## What traffic leaves alone

Requests, returns and penalties write to lanes.  None of it adds or removes a lane, or enables one. -/

/-- The same keys and budgets in the same order, and as many of them enabled. -/
structure Pool.SameLayout (p p' : Pool) : Prop where
  active : p'.active = p.active
  shape : p'.shape = p.shape

/-- Writing a generation of a handle: the pool that serves has the layout it had if the one written has. -/
theorem PoolHandle.setGen_layout (h : PoolHandle) (g : ℕ) {p : Pool} (hp : (h.gens g).SameLayout p) :
    h.pool.SameLayout (h.setGen g p).pool := by
  rw [PoolHandle.pool_setGen]
  split
  · rename_i hgen
    subst hgen
    exact hp
  · exact ⟨rfl, rfl⟩

namespace Serving

variable (s : Serving)

theorem reserve_layout (t : ℤ) (prefer : Option ℕ) :
    s.handle.pool.SameLayout (s.reserve t prefer).1.handle.pool := by
  rcases reserve_cases s t prefer with ⟨p, d, heq, ht⟩ | ⟨q, i, k, sticky, p, heq, -, ht, hg⟩
  · rw [heq]
    exact s.handle.setGen_layout _ ⟨ht.active, ht.shape⟩
  · rw [heq]
    exact s.handle.setGen_layout _ ⟨hg.active.trans ht.active, hg.shape.trans ht.shape⟩

theorem release_layout (g : Grant) : s.handle.pool.SameLayout (s.release g).handle.pool :=
  s.handle.setGen_layout g.gen ⟨Pool.release_active _ _ _, Pool.release_shape _ _ _⟩

theorem penalize_layout (gen lane b : ℕ) (t : ℤ) :
    s.handle.pool.SameLayout (s.penalize gen lane b t).handle.pool :=
  s.handle.setGen_layout gen ⟨Pool.penalize_active _ _ _ _, Pool.penalize_shape _ _ _ _⟩

end Serving

namespace Fleet

variable {env : Env} {w w' : Fleet}

/-- A handle whose pool keeps its layout. -/
theorem setHandle_layout {r : Router} {a : ℕ} {h : PoolHandle} (hp : (r.pools a).pool.SameLayout h.pool)
    (b : ℕ) : (r.pools b).pool.SameLayout ((setHandle r a h).pools b).pool := by
  by_cases hb : b = a
  · subst hb
    simpa [setHandle] using hp
  · simp only [setHandle, Function.update_of_ne hb]
    exact ⟨rfl, rfl⟩

/-- Traffic moves neither the registry nor the layout of any pool. -/
theorem step_frame {e : FleetEvent} (h : w.step env e = some w')
    (hne : ∀ stored t, e ≠ .rebuild stored t) :
    Router.SameRegistry w.router w'.router ∧
      ∀ b, (w.router.pools b).pool.SameLayout (w'.router.pools b).pool := by
  rcases step_cases h with ⟨stored, t, rfl, -, -, -⟩ | ⟨a, prefer, t, -, -, -, rfl⟩ |
    ⟨a, g, -, -, rfl⟩ | ⟨a, gen, lane, b, t, -, -, -, rfl⟩ | hq
  · exact absurd rfl (hne stored t)
  · exact ⟨sameRegistry_setHandle _ _ _, setHandle_layout ((w.serving a).reserve_layout t prefer)⟩
  · exact ⟨sameRegistry_setHandle _ _ _, setHandle_layout ((w.serving a).release_layout g)⟩
  · exact ⟨sameRegistry_setHandle _ _ _, setHandle_layout ((w.serving a).penalize_layout gen lane b t)⟩
  · refine ⟨hq.same, fun b => ?_⟩
    rw [hq.pools]
    exact ⟨rfl, rfl⟩

end Fleet

namespace AppState

variable {env : Env} {s s' : AppState} {stored : StoredConfig} {rt : Restored} {nowUnix : ℕ}
  {t : ℤ} {es : List AppEvent}

/-- How many lanes of a provider may be granted from. -/
def enabledLanes (env : Env) (d : ProviderDef) : ℕ := ((d.laneSpecs env).filter (·.enabled)).length

/-- **`Attached`** — the serving handles are those of the NVIDIA runtime, and its pool has the lanes of
the store's NVIDIA record. -/
structure Attached (env : Env) (s : AppState) (a : ℕ) : Prop where
  registered : s.fleet.router.runtimes "nvidia" = some a
  pool : s.pool = a
  dispatch : s.dispatch = ⟨a, a⟩
  governor : s.governor = a
  lanes : ∃ d, s.store.nvidia = some d ∧ d.enabled = true ∧ s.poolNow.active = enabledLanes env d

/-- **`Detached`** — the serving pool belongs to no registered runtime and has no lane. -/
structure Detached (s : AppState) : Prop where
  lt : s.pool < s.fleet.router.next
  orphan : ∀ n, s.fleet.router.runtimes n ≠ some s.pool
  empty : s.poolNow.active = 0

theorem new_nil_active (t : ℤ) : (Pool.new [] t).active = 0 := rfl

/-- The NVIDIA record of a validated store is the enabled one, if there is one. -/
theorem nvidia_of_enabled {sc : StoredConfig} (hvalid : (validate sc).isOk = true) {d : ProviderDef}
    (hd : d ∈ sc.providers) (hname : d.name = "nvidia") : sc.nvidia = some d := by
  unfold StoredConfig.nvidia
  cases hfind : sc.providers.find? (·.name == "nvidia") with
  | none =>
      rw [List.find?_eq_none] at hfind
      exact absurd (by simpa using hname) (hfind d hd)
  | some d' =>
      have hmem := List.mem_of_find?_eq_some hfind
      have hname' : d'.name = "nvidia" := by simpa using List.find?_some hfind
      rw [List.inj_on_of_nodup_map (validate_nodup hvalid) hmem hd (hname'.trans hname.symm)]

/-! ## Boot

A process starts attached exactly if its store has NVIDIA enabled. -/

/-- It has, and the serving handles are those of the runtime. -/
theorem boot_attached {stored : StoredConfig} (hvalid : (validate stored).isOk = true)
    (hen : Router.EnabledIn stored "nvidia") (rt : Restored) (nowUnix : ℕ) (t : ℤ) :
    Fleet.Filed (boot env stored rt nowUnix t).fleet.router ∧
      ∃ a, Attached env (boot env stored rt nowUnix t) a := by
  obtain ⟨d, hd, hname, hden⟩ := hen
  obtain ⟨a, hreg, hdefn, hpools⟩ :=
    Router.boot_enabled rt nowUnix t (validate_nodup hvalid) hd hden
  rw [hname] at hreg
  have hwf := @Router.wf_boot env stored rt nowUnix t
  have howns := hwf.owns "nvidia" a hreg
  have hboot : boot env stored rt nowUnix t =
      { fleet := Fleet.boot env stored rt nowUnix t, store := stored, pool := a,
        dispatch := ⟨a, a⟩, governor := a, historyDays := stored.historyDays,
        configRevision := 0 } := by
    have hrt : (Fleet.boot env stored rt nowUnix t).router.runtime "nvidia" = some a := hreg
    have hobj : (Fleet.boot env stored rt nowUnix t).router.objs a =
      (Router.boot env stored rt nowUnix t).objs a := rfl
    simp only [boot, nvidiaServingHandles, hrt, hobj, howns.pool, howns.dispatcher, howns.governor]
  rw [hboot]
  refine ⟨⟨hwf, fun n a hn => Router.boot_registered hn⟩, a, hreg, rfl, rfl, rfl,
    d, nvidia_of_enabled hvalid hd hname, hden, ?_⟩
  show ((Router.boot env stored rt nowUnix t).pools a).pool.active = _
  rw [hpools, PoolHandle.pool_setGen]
  simp [PoolHandle.boot, Pool.new, enabledLanes]

/-- It has not, and they are nobody's. -/
theorem boot_detached {stored : StoredConfig} (hen : ¬ Router.EnabledIn stored "nvidia")
    (rt : Restored) (nowUnix : ℕ) (t : ℤ) :
    Fleet.Filed (boot env stored rt nowUnix t).fleet.router ∧
      Detached (boot env stored rt nowUnix t) := by
  have hwf := @Router.wf_boot env stored rt nowUnix t
  have hnone : (Fleet.boot env stored rt nowUnix t).router.runtime "nvidia" = none :=
    Router.boot_disabled rt nowUnix t hen
  have hboot : boot env stored rt nowUnix t =
      { fleet := { Fleet.boot env stored rt nowUnix t with
          router := ((Router.boot env stored rt nowUnix t).allocPool [] t).1 },
        store := stored, pool := (Router.boot env stored rt nowUnix t).next,
        dispatch := ⟨(Router.boot env stored rt nowUnix t).next,
          (Router.boot env stored rt nowUnix t).next⟩,
        governor := (Router.boot env stored rt nowUnix t).next,
        historyDays := stored.historyDays, configRevision := 0 } := by
    simp only [boot, nvidiaServingHandles, hnone]
    rfl
  rw [hboot]
  refine ⟨⟨⟨?_, ?_, ?_⟩, fun n a hn => Router.boot_registered hn⟩, Nat.lt_succ_self _, ?_, ?_⟩
  · exact fun n a hn => Nat.lt_succ_of_lt (hwf.lt n a hn)
  · exact hwf.name
  · exact hwf.owns
  · exact fun n hn => Nat.lt_irrefl _ (hwf.lt n _ hn)
  · simp [poolNow, Router.allocPool, new_nil_active]

/-! ## Traffic

Both are about the registry and the layout, and traffic leaves these alone. -/

/-- Traffic leaves the process as it was, but for the lanes. -/
theorem Attached.traffic {a : ℕ} (h : Attached env s a) {w : Fleet}
    (hs : Router.SameRegistry s.fleet.router w.router)
    (hp : ∀ b, (s.fleet.router.pools b).pool.SameLayout (w.router.pools b).pool) :
    Attached env { s with fleet := w } a := by
  obtain ⟨d, hd, hen, hlanes⟩ := h.lanes
  exact ⟨by rw [hs.runtimes]; exact h.registered, h.pool, h.dispatch, h.governor,
    d, hd, hen, (hp s.pool).active.trans hlanes⟩

/-- A detached process stays as it is. -/
theorem Detached.traffic (h : Detached s) {w : Fleet}
    (hs : Router.SameRegistry s.fleet.router w.router)
    (hp : ∀ b, (s.fleet.router.pools b).pool.SameLayout (w.router.pools b).pool) :
    Detached { s with fleet := w } where
  lt := by rw [hs.next]; exact h.lt
  orphan n := by rw [hs.runtimes]; exact h.orphan n
  empty := (hp s.pool).active.trans h.empty

/-! ## Commits

Four cases: attached or not before, NVIDIA enabled or not after.  Two of them lead to the same end. -/

/-- With NVIDIA enabled, `commit` is the router's rebuild. -/
theorem publish_enabled {a : ℕ} {candidate : StoredConfig} {t : ℤ}
    (hreg : (s.fleet.rebuild env candidate t).router.runtimes "nvidia" = some a) :
    (s.publish env candidate t).fleet = s.fleet.rebuild env candidate t ∧
      (s.publish env candidate t).store = candidate ∧
      (s.publish env candidate t).pool = s.pool ∧
      (s.publish env candidate t).dispatch = s.dispatch ∧
      (s.publish env candidate t).governor = s.governor := by
  have hsome : ((s.fleet.rebuild env candidate t).router.runtime "nvidia").isNone = false := by
    rw [Router.runtime, hreg]
    rfl
  simp [publish, hsome]

/-- Without it, the serving pool is emptied on top. -/
theorem publish_disabled {candidate : StoredConfig} {t : ℤ}
    (hreg : (s.fleet.rebuild env candidate t).router.runtimes "nvidia" = none) :
    Router.SameRegistry (s.fleet.rebuild env candidate t).router
        (s.publish env candidate t).fleet.router ∧
      (s.publish env candidate t).pool = s.pool ∧
      (s.publish env candidate t).poolNow.active = 0 := by
  have hnone : ((s.fleet.rebuild env candidate t).router.runtime "nvidia").isNone = true := by
    rw [Router.runtime, hreg]
    rfl
  simp only [publish, hnone, if_true]
  refine ⟨Fleet.sameRegistry_setHandle _ _ _, rfl, ?_⟩
  simp [poolNow, emptyPool, Fleet.setHandle, new_nil_active]

/-- The router stays filed through a commit. -/
theorem filed_publish (h : Fleet.Filed s.fleet.router) (candidate : StoredConfig) (t : ℤ) :
    Fleet.Filed (s.publish env candidate t).fleet.router := by
  have hfiled : Fleet.Filed (s.fleet.rebuild env candidate t).router :=
    ⟨h.wf.rebuild candidate, fun _ _ hn => Router.rebuild_registered h.wf hn⟩
  cases hreg : (s.fleet.rebuild env candidate t).router.runtimes "nvidia" with
  | some a =>
      rw [(publish_enabled hreg).1]
      exact hfiled
  | none => exact hfiled.same (publish_disabled hreg).1

/-- A commit that keeps NVIDIA enabled reconfigures the runtime behind the shared handles. -/
theorem Attached.publish {a : ℕ} (h : Attached env s a) (hf : Fleet.Filed s.fleet.router)
    {candidate : StoredConfig} (hvalid : (validate candidate).isOk = true)
    (hen : Router.EnabledIn candidate "nvidia") (t : ℤ) :
    Attached env (s.publish env candidate t) a := by
  obtain ⟨d, hd, hname, hden⟩ := hen
  rcases Router.rebuild_enabled hf.wf (validate_nodup hvalid) hd hden with
    ⟨a', ha', hreg, -, hpools⟩ | ⟨hnone, -⟩
  · rw [hname] at ha' hreg
    obtain rfl : a = a' := Option.some.inj (h.registered.symm.trans ha')
    obtain ⟨hfleet, hstore, hpool, hdispatch, hgovernor⟩ := publish_enabled hreg
    refine ⟨by rw [hfleet]; exact hreg, hpool.trans h.pool, hdispatch.trans h.dispatch,
      hgovernor.trans h.governor, d, ?_, hden, ?_⟩
    · rw [hstore]
      exact nvidia_of_enabled hvalid hd hname
    · rw [poolNow, hfleet, hpool, h.pool]
      show ((s.fleet.router.rebuild env candidate t).pools a).pool.active = _
      rw [hpools]
      simp [Pool.rebuild, enabledLanes]
  · rw [hname, h.registered] at hnone
    cases hnone

/-- A commit that disables NVIDIA leaves the serving path with an empty pool of its own. -/
theorem Attached.publish_disabled {a : ℕ} (h : Attached env s a) (hf : Fleet.Filed s.fleet.router)
    {candidate : StoredConfig} (hvalid : (validate candidate).isOk = true)
    (hen : ¬ Router.EnabledIn candidate "nvidia") (t : ℤ) :
    Detached (s.publish env candidate t) := by
  have hnone : (s.fleet.rebuild env candidate t).router.runtimes "nvidia" = none :=
    Router.rebuild_disabled hf.wf hen
  obtain ⟨hsame, hpool, hempty⟩ := AppState.publish_disabled hnone
  have hlt : a < s.fleet.router.next := hf.wf.lt "nvidia" a h.registered
  refine ⟨?_, fun n hn => ?_, hempty⟩
  · rw [hpool, h.pool, hsame.next]
    exact Nat.lt_of_lt_of_le hlt (Router.rebuild_next_le hf.wf candidate)
  · -- whoever has the old address was registered there before, so it is NVIDIA itself
    rw [hpool, h.pool, hsame.runtimes] at hn
    rcases Router.rebuild_old_or_new hf.wf (validate_nodup hvalid) hn with hold | hge
    · obtain rfl := hf.wf.inj hold h.registered
      rw [hnone] at hn
      cases hn
    · omega

/-- Once detached, always detached: a runtime that comes back stands at a new address. -/
theorem Detached.publish (h : Detached s) (hf : Fleet.Filed s.fleet.router)
    {candidate : StoredConfig} (hvalid : (validate candidate).isOk = true) (t : ℤ) :
    Detached (s.publish env candidate t) := by
  have hnext : s.fleet.router.next ≤ (s.fleet.rebuild env candidate t).router.next :=
    Router.rebuild_next_le hf.wf candidate
  have hlt := h.lt
  have horphan : ∀ n, (s.fleet.rebuild env candidate t).router.runtimes n ≠ some s.pool := by
    intro n hn
    rcases Router.rebuild_old_or_new hf.wf (validate_nodup hvalid) hn with hold | hge
    · exact h.orphan n hold
    · omega
  cases hreg : (s.fleet.rebuild env candidate t).router.runtimes "nvidia" with
  | some a =>
      obtain ⟨hfleet, -, hpool, -, -⟩ := publish_enabled hreg
      refine ⟨?_, fun n => ?_, ?_⟩
      · rw [hfleet, hpool]
        omega
      · rw [hfleet, hpool]
        exact horphan n
      · have hkept := @Router.rebuild_kept env t s.fleet.router s.pool hf.wf candidate hlt
          fun m _ => h.orphan m
        rw [poolNow, hfleet, hpool]
        show ((s.fleet.router.rebuild env candidate t).pools s.pool).pool.active = 0
        rw [hkept.pools]
        exact h.empty
  | none =>
      obtain ⟨hsame, hpool, hempty⟩ := AppState.publish_disabled hreg
      refine ⟨?_, fun n => ?_, hempty⟩
      · rw [hpool, hsame.next]
        omega
      · rw [hpool, hsame.runtimes]
        exact horphan n

/-! ## Runs

The stores committed since boot, in order; a commit that was refused leaves no store. -/

/-- Every one of these stores has NVIDIA enabled. -/
def AlwaysEnabled (stores : List StoredConfig) : Prop :=
  ∀ sc ∈ stores, Router.EnabledIn sc "nvidia"

/-- It is decided by looking at each of them. -/
instance (stores : List StoredConfig) : Decidable (AlwaysEnabled stores) :=
  inferInstanceAs (Decidable (∀ sc ∈ stores, Router.EnabledIn sc "nvidia"))

/-- **`Tied`** — the serving handles are attached while NVIDIA has always been enabled, detached from
then on. -/
structure Tied (env : Env) (stores : List StoredConfig) (s : AppState) : Prop where
  filed : Fleet.Filed s.fleet.router
  attached : AlwaysEnabled stores → ∃ a, Attached env s a
  detached : ¬ AlwaysEnabled stores → Detached s

theorem tied_boot {stored : StoredConfig} (hvalid : (validate stored).isOk = true) (rt : Restored)
    (nowUnix : ℕ) (t : ℤ) : Tied env [stored] (boot env stored rt nowUnix t) := by
  by_cases hen : Router.EnabledIn stored "nvidia"
  · obtain ⟨hf, hatt⟩ := boot_attached hvalid hen rt nowUnix t
    exact ⟨hf, fun _ => hatt, fun hn => absurd (by simpa [AlwaysEnabled] using hen) hn⟩
  · obtain ⟨hf, hdet⟩ := boot_detached hen rt nowUnix t
    exact ⟨hf, fun hall => absurd (hall stored (by simp)) hen, fun _ => hdet⟩

theorem Tied.publish {stores : List StoredConfig} (h : Tied env stores s)
    {candidate : StoredConfig} (hvalid : (validate candidate).isOk = true) (t : ℤ) :
    Tied env (stores ++ [candidate]) (s.publish env candidate t) := by
  have hall : AlwaysEnabled (stores ++ [candidate]) ↔
      AlwaysEnabled stores ∧ Router.EnabledIn candidate "nvidia" := by
    simp [AlwaysEnabled, or_imp, forall_and]
  refine ⟨filed_publish h.filed candidate t, fun hen => ?_, fun hnot => ?_⟩
  · obtain ⟨hpre, hlast⟩ := hall.mp hen
    obtain ⟨a, ha⟩ := h.attached hpre
    exact ⟨a, ha.publish h.filed hvalid hlast t⟩
  · by_cases hpre : AlwaysEnabled stores
    · obtain ⟨a, ha⟩ := h.attached hpre
      exact ha.publish_disabled h.filed hvalid (fun hlast => hnot (hall.mpr ⟨hpre, hlast⟩)) t
    · exact (h.detached hpre).publish h.filed hvalid t

/-- **One step.** -/
theorem Tied.step {stores : List StoredConfig} (h : Tied env stores s) {e : AppEvent}
    (hstep : s.step env e = some s') : Tied env (stores ++ e.committed.toList) s' := by
  rcases step_cases hstep with ⟨candidate, t, hc, hvalid, -, rfl⟩ | ⟨hc, rfl⟩ |
    ⟨fe, w, hc, hne, hfleet, rfl⟩
  · rw [hc]
    exact h.publish hvalid t
  · simpa [hc] using h
  · obtain ⟨hs, hp⟩ := Fleet.step_frame hfleet hne
    rw [hc]
    simp only [Option.toList_none, List.append_nil]
    refine ⟨h.filed.same hs, fun hall => ?_, fun hnot => (h.detached hnot).traffic hs hp⟩
    obtain ⟨a, ha⟩ := h.attached hall
    exact ⟨a, ha.traffic hs hp⟩

theorem committedStores_snoc (es : List AppEvent) (e : AppEvent) :
    committedStores (es ++ [e]) = committedStores es ++ e.committed.toList := by
  unfold committedStores
  rw [List.filterMap_append, List.filterMap_cons]
  cases e.committed <;> rfl

/-- **A whole run.** -/
theorem Tied.run {stores : List StoredConfig} {es : List AppEvent}
    (hrun : (appSystem env).Run s es s') (h : Tied env stores s) :
    Tied env (stores ++ committedStores es) s' := by
  induction hrun with
  | nil => simpa [committedStores] using h
  | snoc _ hstep ih =>
      rw [committedStores_snoc, ← List.append_assoc]
      exact ih.step hstep

/-- The serving handles are the very handles of the router's NVIDIA runtime. -/
def SharesHandles (s : AppState) : Prop :=
  ∃ a, s.fleet.router.runtime "nvidia" = some a ∧ s.pool = (s.fleet.router.objs a).pool ∧
    s.dispatch = (s.fleet.router.objs a).dispatcher ∧ s.governor = (s.fleet.router.objs a).governor

/-- The handles are shared exactly while the process is attached. -/
theorem sharesHandles_iff (hrun : (appSystem env).Run (boot env stored rt nowUnix t) es s)
    (hvalid : (validate stored).isOk = true) :
    SharesHandles s ↔ AlwaysEnabled (stored :: committedStores es) := by
  have htied : Tied env (stored :: committedStores es) s :=
    Tied.run hrun (tied_boot hvalid rt nowUnix t)
  constructor
  · rintro ⟨a, hreg, hpool, -, -⟩
    by_contra hnot
    -- the runtime owns its pool, and the serving pool is nobody's
    have howns := htied.filed.wf.owns "nvidia" a hreg
    refine (htied.detached hnot).orphan "nvidia" ?_
    rw [hpool, howns.pool]
    exact hreg
  · intro hall
    obtain ⟨a, ha⟩ := htied.attached hall
    have howns := htied.filed.wf.owns "nvidia" a ha.registered
    exact ⟨a, ha.registered, ha.pool.trans howns.pool.symm, ha.dispatch.trans howns.dispatcher.symm,
      ha.governor.trans howns.governor.symm⟩

/-- **One pool, one queue, one governor, exactly while NVIDIA has never been off.** In every run of
commits and traffic from a validated store: that the serving handles are those of the router's NVIDIA
runtime whenever the current store has NVIDIA enabled, holds if and only if, in that case, NVIDIA was
enabled in the store at boot and in every store committed since. -/
theorem serving_handles_shared_iff (env : Env) (stored : StoredConfig) (rt : Restored)
    (nowUnix : ℕ) (t : ℤ) (hvalid : (validate stored).isOk = true) (es : List AppEvent)
    (s : AppState) (hrun : (appSystem env).Run (boot env stored rt nowUnix t) es s) :
    (Router.EnabledIn s.store "nvidia" → SharesHandles s) ↔
      (Router.EnabledIn s.store "nvidia" → AlwaysEnabled (stored :: committedStores es)) := by
  rw [sharesHandles_iff hrun hvalid]

/-- A claimed store whose NVIDIA record has one literal key. -/
def claimedStore (enabled : Bool) : StoredConfig where
  providers := [{ name := "nvidia", enabled, baseUrl := "https://integrate.api.nvidia.com",
                  keys := [{ key := "nvapi-k", owner := "root" }], models := ["*"] }]
  users := [{ username := "root", passwordHash := "$argon2id$", role := .superuser }]

/-- Disabled, then enabled again: the serving path keeps a pool nobody rebuilds, the router's NVIDIA
runtime grants from another. -/
theorem reenabled_nvidia_not_shared :
    ∃ s : AppState,
      (appSystem fun _ => none).Run (boot (fun _ => none) (claimedStore true) {} 0 0)
        [.commit (claimedStore false) (.ok ()) 1, .commit (claimedStore true) (.ok ()) 2] s ∧
      Router.EnabledIn s.store "nvidia" ∧ ¬ SharesHandles s := by
  have hexec : (System.exec (step fun _ => none) (boot (fun _ => none) (claimedStore true) {} 0 0)
      [.commit (claimedStore false) (.ok ()) 1, .commit (claimedStore true) (.ok ()) 2]).any
      (fun s => s.fleet.router.runtime "nvidia" == some 1 && s.pool == 0 &&
        (s.fleet.router.objs 1).pool == 1 &&
        s.store.providers.any fun d => d.name == "nvidia" && d.enabled) = true := by
    decide +kernel
  obtain ⟨s, hrun, hs⟩ := System.run_of_exec_any hexec
  simp only [Bool.and_eq_true, beq_iff_eq, List.any_eq_true] at hs
  obtain ⟨⟨⟨hreg, hpool⟩, hobj⟩, henabled⟩ := hs
  refine ⟨s, hrun, henabled, ?_⟩
  rintro ⟨a, ha, hshare, -, -⟩
  obtain rfl : a = 1 := Option.some.inj (ha.symm.trans hreg)
  rw [hpool, hobj] at hshare
  cases hshare

/-- An edit that keeps NVIDIA enabled keeps the handles shared. -/
theorem serving_handles_shared_after_edit :
    ∃ s : AppState,
      (appSystem fun _ => none).Run (boot (fun _ => none) (claimedStore true) {} 0 0)
        [.commit { claimedStore true with historyDays := 60 } (.ok ()) 1] s ∧
      Router.EnabledIn s.store "nvidia" ∧ SharesHandles s := by
  have hexec : (System.exec (step fun _ => none) (boot (fun _ => none) (claimedStore true) {} 0 0)
      [.commit { claimedStore true with historyDays := 60 } (.ok ()) 1]).any
      (fun s => s.store.providers.any fun d => d.name == "nvidia" && d.enabled) = true := by
    decide +kernel
  obtain ⟨s, hrun, hs⟩ := System.run_of_exec_any hexec
  have henabled : Router.EnabledIn s.store "nvidia" := by
    simpa [Router.EnabledIn] using hs
  refine ⟨s, hrun, henabled, ?_⟩
  refine (serving_handles_shared_iff _ _ _ 0 0 (by decide +kernel) _ s hrun).mpr ?_ henabled
  intro _
  decide +kernel

end AppState

end Flock
