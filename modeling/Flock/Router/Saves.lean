/-
# Flock.Router.Saves — what a settings save does to the rate state of the providers.

Five kinds of rate state meet in `rebuild`.  The breaker and the governor stay with the runtime, the lane windows
and the cooldowns are carried into a rebuilt pool, and the token buckets are made anew, and full.  So a save that
leaves the definitions alone leaves everything alone exactly if every bucket was full (`Full`).

`Admission` is the router with its limiter and two ghosts: the definitions of the last save, and what the buckets
have let through.  `Current` says that everything stands as those definitions say; it is an invariant of every
run.
-/
import Flock.App.Handles
import Flock.Lib.Metered
import Flock.RateLimit

namespace Flock

open Lib (Metered System)

/-- The router and its limiter. -/
structure Admission where
  fleet : Fleet
  limiter : ProviderRateLimiter
  /-- Ghost: the provider records of the last save. -/
  providers : List ProviderDef
  /-- Ghost: what the buckets let through, newest first. -/
  admitted : List (String × ℤ)

/-- A settings save, the bucket gate of `acquire`, and everything else that happens to the router. -/
inductive AdmissionEvent where
  | rebuild (stored : StoredConfig) (t : ℤ)
  | allow (provider : String) (t : ℤ)
  | fleet (e : FleetEvent)

/-- What of a provider's rate state the runtime holds. -/
structure RateState where
  circuit : CircuitBreaker
  governor : ℕ
  lanes : List Lane
  active : ℕ
  deriving DecidableEq

namespace Admission

variable (env : Env)

/-- A process start. -/
def boot (stored : StoredConfig) (rt : Restored) (nowUnix : ℕ) (t : ℤ) : Admission :=
  ⟨.boot env stored rt nowUnix t, .build stored.providers t, stored.providers, []⟩

/-- `RouterHandle::rebuild`, with the limiter. -/
def rebuild (s : Admission) (stored : StoredConfig) (t : ℤ) : Admission :=
  { s with
    fleet := s.fleet.rebuild env stored t
    limiter := .build stored.providers t
    providers := stored.providers }

/-- The bucket gate. -/
def allow (s : Admission) (provider : String) (t : ℤ) : Admission :=
  { s with
    fleet := { s.fleet with now := t }
    limiter := (s.limiter.allow provider t).2
    admitted := if (s.limiter.allow provider t).1 then (provider, t) :: s.admitted else s.admitted }

/-- One event. -/
def step (s : Admission) : AdmissionEvent → Option Admission
  | .rebuild stored t =>
      if s.fleet.now ≤ t ∧ (validate stored).isOk = true then some (s.rebuild env stored t) else none
  | .allow provider t => if s.fleet.now ≤ t then some (s.allow provider t) else none
  | .fleet (.rebuild ..) => none
  | .fleet e => (s.fleet.step env e).map fun w => { s with fleet := w }

/-- The rate state a provider's runtime holds. -/
def rateState (s : Admission) (n : String) : Option RateState :=
  (s.fleet.router.runtimes n).map fun a =>
    ⟨(s.fleet.router.objs a).circuit, (s.fleet.router.objs a).governor,
      (s.fleet.router.pools (s.fleet.router.objs a).pool).pool.lanes,
      (s.fleet.router.pools (s.fleet.router.objs a).pool).pool.active⟩

/-- The level of a provider's bucket. -/
def level (s : Admission) (n : String) (t : ℤ) : Option ℚ := (s.limiter.buckets n).map (·.refilled t)

/-- Every bucket is full. -/
def Full (s : Admission) (t : ℤ) : Prop := ∀ n b, s.limiter.buckets n = some b → b.refilled t = b.capacity

/-- When a provider was let through, newest first. -/
def admissions (s : Admission) (n : String) : List ℤ := (s.admitted.filter fun x => x.1 == n).map (·.2)

end Admission

/-- Every run of the router with its limiter, from any validated store and any restored state. -/
def admissionSystem (env : Env) : System Admission AdmissionEvent :=
  .ofStep (fun s => ∃ stored rt nowUnix t, (validate stored).isOk = true ∧
    s = Admission.boot env stored rt nowUnix t) (Admission.step env)

/-- The condition: a save leaves the provider definitions as they are, and finds every bucket full. -/
def UnrelatedAndFull (s : Admission) (e : AdmissionEvent) : Prop :=
  ∀ stored t, e = .rebuild stored t → stored.providers = s.providers ∧ s.Full t

/-! ## The current definitions

A save replaces definitions, and a boot reads them.  Between two saves nothing touches the registry, and a pool only
changes its stamps; so a later save of the same definitions finds every pool as it would build it. -/

namespace Fleet

variable {env : Env} {w w' : Fleet}

/-- The clock never goes back. -/
theorem step_now {e : FleetEvent} (h : w.step env e = some w') : w.now ≤ w'.now := by
  rcases step_cases h with ⟨stored, t, -, hle, -, rfl⟩ | ⟨a, prefer, t, -, hle, -, rfl⟩ |
    ⟨a, g, -, -, rfl⟩ | ⟨a, gen, lane, b', t, -, hle, -, rfl⟩ | hq
  · exact hle
  · exact hle
  · exact le_refl w.now
  · exact hle
  · exact hq.now

end Fleet

/-- A pool stands as specs say. -/
structure Stands (specs : List LaneSpec) (p : Pool) : Prop where
  shape : p.shape = (Pool.enabledFirst specs).map fun s => (s.key, s.rpm)
  active : p.active = (specs.filter (·.enabled)).length

/-- An assembled pool stands as its specs say. -/
theorem stands_assemble (specs : List LaneSpec) (old : Option Pool) (t : ℤ) :
    Stands specs (Pool.assemble specs old t) := ⟨Pool.assemble_shape specs old t, rfl⟩

/-- **`Current env providers r`** — the registry is that of the definitions, and so are the pools. -/
structure Current (env : Env) (providers : List ProviderDef) (r : Router) : Prop where
  filed : Fleet.Filed r
  nodup : (providers.map (·.name)).Nodup
  enabled : ∀ d ∈ providers, d.enabled = true → ∃ a, r.runtimes d.name = some a ∧ (r.objs a).defn = d ∧
    Stands (d.laneSpecs env) (r.pools a).pool
  known : ∀ n a, r.runtimes n = some a → ∃ d ∈ providers, d.name = n ∧ d.enabled = true

namespace Current

variable {env : Env} {providers : List ProviderDef} {r r' : Router} {stored : StoredConfig} {t : ℤ}

theorem boot (hvalid : (validate stored).isOk = true) (rt : Restored) (nowUnix : ℕ) (t : ℤ) :
    Current env stored.providers (Router.boot env stored rt nowUnix t) where
  filed := ⟨Router.wf_boot stored rt nowUnix t, fun n a hn => Router.boot_registered hn⟩
  nodup := validate_nodup hvalid
  enabled d hd hen := by
    obtain ⟨a, hreg, hdefn, hpools⟩ := Router.boot_enabled rt nowUnix t (validate_nodup hvalid) hd hen
    have hpool : ((Router.boot env stored rt nowUnix t).pools a).pool =
        Router.restorePool rt d.name nowUnix t (Pool.new (d.laneSpecs env) t) := by
      rw [hpools, PoolHandle.pool_setGen]
      exact if_pos rfl
    refine ⟨a, hreg, hdefn, ?_, ?_⟩
    · rw [hpool, Router.restorePool_shape]
      exact (stands_assemble _ none t).shape
    · rw [hpool, Router.restorePool_active]
      rfl
  known n a hn := by
    by_contra hno
    have hdisabled : ¬ Router.EnabledIn stored n := hno
    rw [Router.boot_disabled rt nowUnix t hdisabled] at hn
    cases hn

/-- After a save everything stands as the saved definitions say. -/
theorem rebuild (h : Fleet.Filed r) (hvalid : (validate stored).isOk = true) (t : ℤ) :
    Current env stored.providers (r.rebuild env stored t) where
  filed := ⟨h.wf.rebuild stored, fun n a hn => Router.rebuild_registered h.wf hn⟩
  nodup := validate_nodup hvalid
  enabled d hd hen := by
    rcases Router.rebuild_enabled h.wf (validate_nodup hvalid) hd hen with
      ⟨a, -, hreg, hobjs, hpools⟩ | ⟨-, a, -, hreg, hobjs, hpools⟩
    · refine ⟨a, hreg, by rw [hobjs], ?_⟩
      rw [hpools, PoolHandle.pool_swap]
      exact stands_assemble _ _ t
    · refine ⟨a, hreg, by rw [hobjs], ?_⟩
      rw [hpools, PoolHandle.pool_boot]
      exact stands_assemble _ none t
  known n a hn := by
    by_contra hno
    have hdisabled : ¬ Router.EnabledIn stored n := hno
    rw [Router.rebuild_disabled h.wf hdisabled] at hn
    cases hn

/-- Traffic keeps it so. -/
theorem traffic (h : Current env providers r) (hs : Router.SameRegistry r r')
    (hp : ∀ b, (r.pools b).pool.SameLayout (r'.pools b).pool) : Current env providers r' where
  filed := h.filed.same hs
  nodup := h.nodup
  enabled d hd hen := by
    obtain ⟨a, hreg, hdefn, hstands⟩ := h.enabled d hd hen
    refine ⟨a, by rw [hs.runtimes]; exact hreg, (hs.defn a).trans hdefn, ?_, ?_⟩
    · exact (hp a).shape.trans hstands.shape
    · exact (hp a).active.trans hstands.active
  known n a hn := by
    rw [hs.runtimes] at hn
    exact h.known n a hn

end Current

namespace Admission

variable {env : Env} {s s' : Admission} {stored : StoredConfig} {n : String} {t : ℤ} {b : TokenBucket}
  {e : AdmissionEvent}

/-- **Every event, said once.** -/
theorem step_cases (h : s.step env e = some s') :
    (∃ stored t, e = .rebuild stored t ∧ s.fleet.now ≤ t ∧ (validate stored).isOk = true ∧
      s' = s.rebuild env stored t) ∨
    (∃ m t, e = .allow m t ∧ s.fleet.now ≤ t ∧ s' = s.allow m t) ∨
    (∃ f w, e = .fleet f ∧ (∀ stored t, f ≠ .rebuild stored t) ∧ s.fleet.step env f = some w ∧
      s' = { s with fleet := w }) := by
  cases e with
  | rebuild stored t =>
      simp only [step, Option.ite_none_right_eq_some, Option.some.injEq] at h
      exact .inl ⟨stored, t, rfl, h.1.1, h.1.2, h.2.symm⟩
  | allow m t =>
      simp only [step, Option.ite_none_right_eq_some, Option.some.injEq] at h
      exact .inr (.inl ⟨m, t, rfl, h.1, h.2.symm⟩)
  | fleet f =>
      have hne : ∀ stored t, f ≠ .rebuild stored t := by
        rintro stored t rfl
        cases h
      have hstep : (s.fleet.step env f).map (fun w => { s with fleet := w }) = some s' := by
        rw [← h]
        cases f with
        | rebuild stored t => exact absurd rfl (hne stored t)
        | _ => rfl
      obtain ⟨w, hw, rfl⟩ := Option.map_eq_some_iff.mp hstep
      exact .inr (.inr ⟨f, w, rfl, hne, hw, rfl⟩)

/-- **`Steady env s`** — registry, pools and buckets are those of the current definitions. -/
structure Steady (env : Env) (s : Admission) : Prop where
  current : Current env s.providers s.fleet.router
  budget : ∀ n, (s.limiter.buckets n).map (fun b => (b.capacity, b.rate)) =
    (ProviderRateLimiter.budgetOf s.providers n).map fun rpm : ℕ => (max (rpm : ℚ) 1, (rpm : ℚ) / 60)
  filled : ∀ n b, s.limiter.buckets n = some b → b.lastFill ≤ s.fleet.now

/-- A bucket is built with the budget of its provider. -/
theorem budget_build (providers : List ProviderDef) (t : ℤ) (n : String) :
    ((ProviderRateLimiter.build providers t).buckets n).map (fun b => (b.capacity, b.rate)) =
      (ProviderRateLimiter.budgetOf providers n).map fun rpm : ℕ => (max (rpm : ℚ) 1, (rpm : ℚ) / 60) := by
  rw [ProviderRateLimiter.buckets_build, Option.map_map]
  rfl

theorem filled_build {providers : List ProviderDef}
    (h : (ProviderRateLimiter.build providers t).buckets n = some b) : b.lastFill = t := by
  rw [ProviderRateLimiter.buckets_build] at h
  obtain ⟨rpm, -, rfl⟩ := Option.map_eq_some_iff.mp h
  rfl

/-- What the bucket gate does to a bucket. -/
theorem buckets_allow (s : Admission) (m n : String) (t : ℤ) :
    (s.allow m t).limiter.buckets n =
      (s.limiter.buckets n).map fun b => if n = m then (b.allow t).2 else b := by
  unfold allow ProviderRateLimiter.allow
  cases hm : s.limiter.buckets m with
  | none =>
      by_cases hn : n = m
      · subst hn
        simp [hm]
      · simp [hn]
  | some b =>
      by_cases hn : n = m
      · subst hn
        simp [hm]
      · simp [hn]

theorem Steady.step (h : Steady env s) (hstep : s.step env e = some s') : Steady env s' := by
  rcases step_cases hstep with ⟨stored, t, rfl, hle, hvalid, rfl⟩ | ⟨m, t, rfl, hle, rfl⟩ |
    ⟨f, w, rfl, hne, hw, rfl⟩
  · refine ⟨.rebuild h.current.filed hvalid t, budget_build stored.providers t, ?_⟩
    intro n b hb
    exact le_of_eq (filled_build hb)
  · refine ⟨h.current, ?_, ?_⟩
    · intro n
      rw [buckets_allow, Option.map_map]
      have hsame : ((fun b : TokenBucket => (b.capacity, b.rate)) ∘
          fun b => if n = m then (b.allow t).2 else b) = fun b => (b.capacity, b.rate) := by
        funext b
        simp only [Function.comp]
        split
        · rw [TokenBucket.capacity_allow, TokenBucket.rate_allow]
        · rfl
      rw [hsame]
      exact h.budget n
    · intro n b hb
      rw [buckets_allow] at hb
      obtain ⟨b₀, hb₀, rfl⟩ := Option.map_eq_some_iff.mp hb
      split
      · exact le_of_eq (TokenBucket.lastFill_allow b₀ t)
      · exact le_trans (h.filled n b₀ hb₀) hle
  · obtain ⟨hs, hp⟩ := Fleet.step_frame hw hne
    refine ⟨h.current.traffic hs hp, h.budget, ?_⟩
    intro n b hb
    exact le_trans (h.filled n b hb) (Fleet.step_now hw)

theorem reachable_steady (h : (admissionSystem env).Reachable s) : Steady env s := by
  refine System.Reachable.invariant (I := Steady env) ?_ ?_ h
  · rintro s ⟨stored, rt, nowUnix, t, hvalid, rfl⟩
    refine ⟨.boot hvalid rt nowUnix t, budget_build stored.providers t, ?_⟩
    intro n b hb
    exact le_of_eq (filled_build hb)
  · intro s e s' hbefore hstep
    exact hbefore.step hstep

/-! ## One save

The definitions that are current are saved again.  What is kept is kept exactly; what is made anew is a bucket, and it
differs from the old one only by being full. -/

/-- Breaker, governor, lane windows and cooldowns go through a save of the same definitions. -/
theorem rateState_rebuild (h : Steady env s) (hvalid : (validate stored).isOk = true)
    (hsame : stored.providers = s.providers) (t : ℤ) (n : String) :
    (s.rebuild env stored t).rateState n = s.rateState n := by
  have hwf := h.current.filed.wf
  by_cases hen : Router.EnabledIn stored n
  · obtain ⟨d, hd, rfl, hden⟩ := hen
    obtain ⟨a, hreg, hdefn, hstands⟩ := h.current.enabled d (hsame ▸ hd) hden
    -- the runtime is kept, its pool is swapped for one of the same specs, and every lane carries its window over
    rcases @Router.rebuild_enabled env t _ hwf stored (validate_nodup hvalid) d hd hden with
      ⟨a', hold, hnew, hobjs, hpools⟩ | ⟨hnone, -⟩
    · obtain rfl : a = a' := Option.some.inj (hreg.symm.trans hold)
      have hobj : (s.fleet.router.rebuild env stored t).objs a = s.fleet.router.objs a := by
        rw [hobjs, ← hdefn]
      have hpool : ((s.fleet.router.rebuild env stored t).pools a).pool = (s.fleet.router.pools a).pool := by
        rw [hpools, PoolHandle.pool_swap]
        exact Pool.rebuild_self d.laneSpecs_nodup hstands.shape hstands.active t
      have howns := (hwf.owns d.name a hreg).pool
      show ((s.fleet.router.rebuild env stored t).runtimes d.name).map _ = (s.fleet.router.runtimes d.name).map _
      rw [hnew, hreg, Option.map_some, Option.map_some]
      simp only [rebuild, Fleet.rebuild, hobj, howns, hpool]
    · rw [hnone] at hreg
      cases hreg
  · have hbefore : s.fleet.router.runtimes n = none := by
      by_contra hsome
      obtain ⟨a, ha⟩ := Option.ne_none_iff_exists'.mp hsome
      obtain ⟨d, hd, hname, hden⟩ := h.current.known n a ha
      exact hen ⟨d, hsame ▸ hd, hname, hden⟩
    have hafter : (s.rebuild env stored t).fleet.router.runtimes n = none :=
      Router.rebuild_disabled hwf hen
    unfold rateState
    rw [hbefore, hafter]
    rfl

/-- After a save of the same definitions every bucket is at its capacity. -/
theorem level_rebuild (h : Steady env s) (hsame : stored.providers = s.providers) (t : ℤ) (n : String) :
    (s.rebuild env stored t).level n t = (s.limiter.buckets n).map (·.capacity) := by
  have hcapacity := congrArg (Option.map Prod.fst) (h.budget n)
  rw [Option.map_map, Option.map_map] at hcapacity
  show ((ProviderRateLimiter.build stored.providers t).buckets n).map (·.refilled t) = _
  rw [ProviderRateLimiter.buckets_build, hsame, Option.map_map]
  refine Eq.trans ?_ hcapacity.symm
  congr 1
  funext rpm
  exact TokenBucket.refilled_perMinute rpm t t

/-- All buckets have the level they had just if all were full. -/
theorem level_rebuild_iff (h : Steady env s) (hsame : stored.providers = s.providers) (t : ℤ) :
    (∀ n, (s.rebuild env stored t).level n t = s.level n t) ↔ s.Full t := by
  constructor
  · intro hlevel n b hb
    have hn := hlevel n
    rw [level_rebuild h hsame, level, hb] at hn
    exact (Option.some.inj hn).symm
  · intro hfull n
    rw [level_rebuild h hsame, level]
    cases hb : s.limiter.buckets n with
    | none => rfl
    | some b => rw [Option.map_some, Option.map_some, hfull n b hb]

/-! ## Runs of such saves

For whole runs the bucket is measured by what it has let through: so many requests as its capacity and the time allow,
and no save adds to it as long as it finds the bucket full. -/

/-- What a bucket of some capacity and rate has let through, and the tokens it has left. -/
def Bounded (n : String) (cap rate : ℚ) (s : Admission) : Prop :=
  ∃ b, s.limiter.buckets n = some b ∧ b.capacity = cap ∧ b.rate = rate ∧
    Metered cap (rate / 1000000000) (s.admissions n) s.fleet.now (b.refilled s.fleet.now)

/-- The rate and the capacity of a bucket are not negative. -/
theorem Steady.bucket_nonneg (h : Steady env s) (hb : s.limiter.buckets n = some b) :
    0 ≤ b.capacity ∧ 0 ≤ b.rate := by
  have hn := h.budget n
  rw [hb, Option.map_some, eq_comm, Option.map_eq_some_iff] at hn
  obtain ⟨rpm, -, hpair⟩ := hn
  obtain ⟨hcap, hrate⟩ := Prod.mk.inj hpair
  rw [← hcap, ← hrate]
  constructor
  · exact le_trans (Nat.cast_nonneg rpm) (le_max_left _ _)
  · exact div_nonneg (Nat.cast_nonneg rpm) (by norm_num)

/-- A rate per tick is not negative. -/
theorem perTick_nonneg {rate : ℚ} (h : 0 ≤ rate) : 0 ≤ rate / 1000000000 := div_nonneg h (by norm_num)

/-- Time passes. -/
theorem Steady.metered_later (h : Steady env s) (hb : s.limiter.buckets n = some b) {log : List ℤ}
    (hm : Metered b.capacity (b.rate / 1000000000) log s.fleet.now (b.refilled s.fleet.now))
    (hle : s.fleet.now ≤ t) : Metered b.capacity (b.rate / 1000000000) log t (b.refilled t) := by
  have hrate := (h.bucket_nonneg hb).2
  exact hm.later (perTick_nonneg hrate) hle (b.refilled_le t) (TokenBucket.refilled_later hrate (h.filled n b hb) hle)

/-- A save that finds the buckets full changes nothing for a bucket. -/
theorem Bounded.rebuild {cap rate : ℚ} (h : Bounded n cap rate s) (hsteady : Steady env s)
    (hle : s.fleet.now ≤ t) (hsame : stored.providers = s.providers) (hfull : s.Full t) :
    Bounded n cap rate (s.rebuild env stored t) := by
  obtain ⟨b, hb, rfl, rfl, hm⟩ := h
  have hpair := budget_build stored.providers t n
  rw [hsame, ← hsteady.budget n, hb, Option.map_some, Option.map_eq_some_iff] at hpair
  obtain ⟨b', hb', heq⟩ := hpair
  obtain ⟨hcap, hrate⟩ := Prod.mk.inj heq
  have hlevel := level_rebuild hsteady hsame t n
  unfold level at hlevel
  rw [hb] at hlevel
  have hbuilt : (s.rebuild env stored t).limiter.buckets n = some b' := by
    show (ProviderRateLimiter.build stored.providers t).buckets n = some b'
    rw [hsame]
    exact hb'
  rw [hbuilt] at hlevel
  -- the new bucket is full, and so was the old one
  have hrefilled : b'.refilled t = b.refilled t := by
    rw [hfull n b hb]
    exact Option.some.inj hlevel
  refine ⟨b', hbuilt, hcap, hrate, ?_⟩
  show Metered _ _ (s.admissions n) t (b'.refilled t)
  rw [hrefilled]
  exact hsteady.metered_later hb hm hle

/-- The log of a provider, after the gate. -/
theorem admissions_allow (s : Admission) (m n : String) (t : ℤ) :
    (s.allow m t).admissions n =
      if (s.limiter.allow m t).1 = true ∧ n = m then t :: s.admissions n else s.admissions n := by
  unfold admissions allow
  cases (s.limiter.allow m t).1 with
  | false => simp
  | true =>
      by_cases hn : n = m
      · subst hn
        simp
      · simp [hn, Ne.symm hn]

/-- The bucket gate takes a token for what it lets through. -/
theorem Bounded.allow {cap rate : ℚ} (h : Bounded n cap rate s) (hsteady : Steady env s)
    (hle : s.fleet.now ≤ t) (m : String) : Bounded n cap rate (s.allow m t) := by
  obtain ⟨b, hb, rfl, rfl, hm⟩ := h
  have hlater := hsteady.metered_later hb hm hle
  have hrate := perTick_nonneg (hsteady.bucket_nonneg hb).2
  have hafter : (s.allow m t).limiter.buckets n = some (if n = m then (b.allow t).2 else b) := by
    rw [buckets_allow, hb, Option.map_some]
  refine ⟨_, hafter, by split <;> simp, by split <;> simp, ?_⟩
  show Metered _ _ ((s.allow m t).admissions n) t (TokenBucket.refilled _ t)
  rw [admissions_allow]
  by_cases hn : n = m
  · subst hn
    -- this bucket answers: a token for an entry of the log, or neither
    have hanswer : (s.limiter.allow n t).1 = (b.allow t).1 := by
      unfold ProviderRateLimiter.allow
      rw [hb]
    rw [if_pos rfl, TokenBucket.refilled_allow, hanswer]
    cases hgiven : (b.allow t).1 with
    | true =>
        rw [if_pos ⟨rfl, rfl⟩, if_pos rfl]
        exact hlater.take hrate (TokenBucket.allow_eq_true_iff.mp hgiven)
    | false =>
        rw [if_neg (by simp), if_neg (by simp), sub_zero]
        exact hlater
  · rw [if_neg hn, if_neg (fun hboth => hn hboth.2)]
    exact hlater

/-- **One step of a run whose saves meet the condition.** -/
theorem Bounded.step {cap rate : ℚ} (h : Bounded n cap rate s) (hsteady : Steady env s)
    (hstep : s.step env e = some s') (hcond : UnrelatedAndFull s e) : Bounded n cap rate s' := by
  rcases step_cases hstep with ⟨stored, t, rfl, hle, hvalid, rfl⟩ | ⟨m, t, rfl, hle, rfl⟩ |
    ⟨f, w, rfl, hne, hw, rfl⟩
  · obtain ⟨hsame, hfull⟩ := hcond stored t rfl
    exact h.rebuild hsteady hle hsame hfull
  · exact h.allow hsteady hle m
  · obtain ⟨b, hb, rfl, rfl, hm⟩ := h
    exact ⟨b, hb, rfl, rfl, hsteady.metered_later hb hm (Fleet.step_now hw)⟩

/-- **A whole run**, with the log started at its beginning. -/
theorem Bounded.run {es : List AdmissionEvent} (hsteady : Steady env s) (hb : s.limiter.buckets n = some b)
    (hrun : ((admissionSystem env).restrict UnrelatedAndFull).Run { s with admitted := [] } es s') :
    Bounded n b.capacity b.rate s' := by
  obtain ⟨hcap, hrate⟩ := hsteady.bucket_nonneg hb
  have hstart : Bounded n b.capacity b.rate { s with admitted := [] } :=
    ⟨b, hb, rfl, rfl, .start (perTick_nonneg hrate) hcap (b.refilled_le _)⟩
  have hsteady₀ : Steady env { s with admitted := [] } := ⟨hsteady.current, hsteady.budget, hsteady.filled⟩
  have hall : Steady env s' ∧ Bounded n b.capacity b.rate s' := by
    refine hrun.preserves (I := fun s => Steady env s ∧ Bounded n b.capacity b.rate s) ?_ ⟨hsteady₀, hstart⟩
    rintro s e s' ⟨hbefore, hbounded⟩ ⟨hstep, hcond⟩
    exact ⟨hbefore.step hstep, hbounded.step hbefore hstep hcond⟩
  exact hall.2

/-- **Saving unrelated settings.**  A save of the definitions that are current leaves every provider's rate state
and bucket level as they are exactly if every bucket is full; and in runs whose saves are all such, a bucket lets
through no more than its capacity and its refill, in any interval. -/
theorem unrelated_save_iff (h : (admissionSystem env).Reachable s) :
    (∀ stored t, (validate stored).isOk = true → stored.providers = s.providers →
      ((∀ n, (s.rebuild env stored t).rateState n = s.rateState n ∧
        (s.rebuild env stored t).level n t = s.level n t) ↔ s.Full t)) ∧
    (∀ es s', ((admissionSystem env).restrict UnrelatedAndFull).Run { s with admitted := [] } es s' →
      ∀ n b, s.limiter.buckets n = some b → ∀ t₁ t₂, t₁ ≤ t₂ →
        (Lib.between t₁ t₂ (s'.admissions n) : ℚ) ≤
          b.capacity + b.rate / 1000000000 * ((t₂ - t₁ : ℤ) : ℚ)) := by
  have hsteady := reachable_steady h
  constructor
  · intro stored t hvalid hsame
    rw [← level_rebuild_iff hsteady hsame t]
    constructor
    · intro hall n
      exact (hall n).2
    · intro hlevel n
      exact ⟨rateState_rebuild hsteady hvalid hsame t n, hlevel n⟩
  · intro es s' hrun n b hb t₁ t₂ ht
    obtain ⟨_, _, _, _, hm⟩ := Bounded.run hsteady hb hrun
    exact hm.between t₁ t₂ ht

/-- The buckets are full at boot. -/
theorem full_boot (stored : StoredConfig) (rt : Restored) (nowUnix : ℕ) (t t' : ℤ) :
    (boot env stored rt nowUnix t).Full t' := by
  intro n b hb
  have hbuilt : (ProviderRateLimiter.build stored.providers t).buckets n = some b := hb
  rw [ProviderRateLimiter.buckets_build] at hbuilt
  obtain ⟨rpm, -, rfl⟩ := Option.map_eq_some_iff.mp hbuilt
  exact TokenBucket.refilled_perMinute rpm t t'

/-- The registry with one key of one request a minute, saved as it is right after boot. -/
theorem unrelated_save_at_boot :
    ((boot (fun _ => none) (Fleet.onceAMinute true) {} 0 0).rebuild (fun _ => none)
        (Fleet.onceAMinute true) 0).rateState "groq" =
      (boot (fun _ => none) (Fleet.onceAMinute true) {} 0 0).rateState "groq" := by
  have hvalid : (validate (Fleet.onceAMinute true)).isOk = true := by decide +kernel
  have hreach : (admissionSystem fun _ => none).Reachable
      (boot (fun _ => none) (Fleet.onceAMinute true) {} 0 0) :=
    ⟨_, [], ⟨_, _, _, _, hvalid, rfl⟩, .nil _⟩
  exact (((unrelated_save_iff hreach).1 _ 0 hvalid rfl).mpr (full_boot _ _ _ _ _) "groq").1

/-- **A save refills a spent bucket.**  One request a minute, and two are let through in the same instant, with a
save of the same settings between them. -/
theorem save_refills_bucket :
    ∃ s s' b, (admissionSystem fun _ => none).Reachable s ∧ s.limiter.buckets "groq" = some b ∧
      (Fleet.onceAMinute true).providers = s.providers ∧
      (s.rebuild (fun _ => none) (Fleet.onceAMinute true) 0).level "groq" 0 ≠ s.level "groq" 0 ∧
      (admissionSystem fun _ => none).Run s [.rebuild (Fleet.onceAMinute true) 0, .allow "groq" 0] s' ∧
      ¬ (Lib.between 0 0 (s'.admissions "groq") : ℚ) ≤
        b.capacity + b.rate / 1000000000 * ((0 - 0 : ℤ) : ℚ) := by
  have hvalid : (validate (Fleet.onceAMinute true)).isOk = true := by decide +kernel
  have hexec : (System.exec (step fun _ => none) (boot (fun _ => none) (Fleet.onceAMinute true) {} 0 0)
      [.allow "groq" 0]).any (fun s => decide ((Fleet.onceAMinute true).providers = s.providers) &&
        decide (s.level "groq" 0 = some 0) &&
        decide ((s.rebuild (fun _ => none) (Fleet.onceAMinute true) 0).level "groq" 0 = some 1) &&
        decide ((s.limiter.buckets "groq").map (·.capacity) = some 1) &&
        (System.exec (step fun _ => none) s [.rebuild (Fleet.onceAMinute true) 0, .allow "groq" 0]).any
          fun s' => decide (s'.admissions "groq" = [0, 0])) = true := by
    decide +kernel
  obtain ⟨s, hreach, hend⟩ := System.reachable_of_exec
    (show (admissionSystem fun _ => none).init (boot (fun _ => none) (Fleet.onceAMinute true) {} 0 0) from
      ⟨_, _, _, _, hvalid, rfl⟩) hexec
  simp only [Bool.and_eq_true, decide_eq_true_eq] at hend
  obtain ⟨⟨⟨⟨hsame, hbefore⟩, hafter⟩, hcapacity⟩, hlast⟩ := hend
  obtain ⟨s', hrun, hadmitted⟩ := System.run_of_exec_any hlast
  obtain ⟨b, hb, hone⟩ := Option.map_eq_some_iff.mp hcapacity
  refine ⟨s, s', b, hreach, hb, hsame, ?_, hrun, ?_⟩
  · rw [hbefore, hafter]
    decide
  · rw [of_decide_eq_true hadmitted, hone]
    norm_num [Lib.between]

end Admission

end Flock
