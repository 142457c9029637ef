/-
# Flock.Router.Gate — the selection gate against the breaker's own answer.

Two places read a breaker.  `acquire` asks `allow`, which lets an open breaker through once its
timeout has elapsed, and is the only way out of the open state.  `select` asks `candidate_ok`, which
refuses an open breaker whatever the time.  So a provider whose breaker is open is never listed, and
what is never listed is never acquired: the two readings agree exactly when the breaker is not open
with its timeout elapsed.

Under `weighted_elo` a selection may also not return at all: a weight is any finite float, the sum of the
weights in scope may be infinite, and then the draw panics, whoever would have been drawn.
-/
import Flock.Router.System

namespace Flock

namespace Router

variable {env : Env} {r : Router} {a : ℕ} {n m : String}

/-- A runtime that is registered and ordered is in the gated list exactly when it passes the gate. -/
theorem mem_gated (hreg : r.runtimes n = some a) (hord : n ∈ r.order) :
    a ∈ r.gated env ↔ r.candidateOk env a = true := by
  simp only [gated, List.mem_filter, List.mem_filterMap]
  constructor
  · exact fun h => h.2
  · exact fun h => ⟨⟨n, hord, hreg⟩, h⟩

/-- Everything gated is registered. -/
theorem registered_of_gated (h : a ∈ r.gated env) : ∃ n, r.runtimes n = some a := by
  simp only [gated, List.mem_filter, List.mem_filterMap] at h
  obtain ⟨⟨n, -, hn⟩, -⟩ := h
  exact ⟨n, hn⟩

/-- The selection returns, and the provider is in it. -/
def Lists (selection : Option (List RouteCandidate)) (provider : String) : Prop :=
  ∃ candidates ∈ selection, ∃ c ∈ candidates, c.provider = provider

/-- The weights of the runtimes in scope have a sum that is a number, which a draw can be made from. -/
def DrawFits (env : Env) (r : Router) (m : String) : Prop := (r.eloTotal (r.inScope env m)).isFinite = true

/-- Under an explicit strategy other than the sticky and the free one, `select` lists the runtimes in
scope, if the draw of a weighted one can be made. -/
theorem select_providers {strategy : Strategy} (hfree : m ≠ "free") (hs : strategy ≠ .free)
    (hsticky : strategy ≠ .stickyAffinity) (session : String) (nowUnix : ℕ) (rolls : ℕ → ℚ)
    (provider : String) :
    Lists (r.select env m session (some strategy) nowUnix rolls).2 provider ↔
      (strategy = .weightedElo → DrawFits env r m) ∧
        ∃ a ∈ r.inScope env m, (r.objs a).defn.name = provider := by
  have hstrat : r.strategyFor m (some strategy) = strategy := by
    simp [strategyFor, hfree]
  have hst : (strategy == Strategy.stickyAffinity) = false := by
    simpa using hsticky
  unfold select Lists
  simp only [hstrat, hst, Bool.false_eq_true, if_false]
  by_cases hempty : r.inScope env m = []
  · simp [hempty]
  · have hne : (r.inScope env m).isEmpty = false := by
      simpa [List.isEmpty_iff] using hempty
    rw [hne, DrawFits, ← isSome_orderBy_iff r strategy rolls]
    cases horder : r.orderBy strategy rolls (r.inScope env m) with
    | none => simp
    | some ordered =>
        simp only [Bool.false_eq_true, if_false, Option.map_some, Option.mem_some_iff, exists_eq_left',
          Option.isSome_some, true_and, List.mem_map]
        constructor
        · rintro ⟨c, ⟨a, ha, rfl⟩, rfl⟩
          exact ⟨a, (mem_of_orderBy hs horder).mp ha, rfl⟩
        · rintro ⟨a, ha, rfl⟩
          exact ⟨_, ⟨a, (mem_of_orderBy hs horder).mpr ha, rfl⟩, rfl⟩

/-- **Listed means gated**, for a registered provider that serves the model, where the draw can be made. -/
theorem select_lists_iff_candidateOk (h : Fleet.Filed r) (hreg : r.runtimes n = some a)
    (hfree : m ≠ "free") (hserves : (r.objs a).defn.servesModel m = true) {strategy : Strategy}
    (hs : strategy ≠ .free) (hsticky : strategy ≠ .stickyAffinity) (session : String)
    (nowUnix : ℕ) (rolls : ℕ → ℚ) :
    Lists (r.select env m session (some strategy) nowUnix rolls).2 n ↔
      (strategy = .weightedElo → DrawFits env r m) ∧ r.candidateOk env a = true := by
  rw [select_providers hfree hs hsticky]
  refine and_congr_right fun _ => ?_
  have hscope : ∀ b, b ∈ r.inScope env m ↔
      b ∈ r.gated env ∧ (r.objs b).defn.servesModel m = true := by
    intro b
    simp [inScope, hfree]
  rw [← mem_gated hreg (h.ordered n a hreg)]
  constructor
  · rintro ⟨b, hb, hname⟩
    -- a listed runtime with this name is the registered one
    obtain ⟨hgated, -⟩ := (hscope b).mp hb
    obtain ⟨n', hn'⟩ := registered_of_gated hgated
    have hnn : n' = n := (h.wf.name n' b hn').symm.trans hname
    subst hnn
    obtain rfl : b = a := Option.some.inj (hn'.symm.trans hreg)
    exact hgated
  · intro hgated
    exact ⟨a, (hscope a).mpr ⟨hgated, hserves⟩, h.wf.name n a hreg⟩

end Router

namespace Fleet

open Lib (System)

variable {env : Env}

/-- A registry with one provider, one key and one model. -/
def groqStore : StoredConfig where
  providers := [{ name := "groq", baseUrl := "https://api.groq.com", keys := [{ key := "k" }],
                  models := ["m"] }]

/-- Five failed attempts open the breaker, then a probe finds the provider healthy again. -/
def failuresThenProbe : List FleetEvent :=
  [.recordFailure "groq" 1 0, .recordHealth "groq" false 0,
   .recordFailure "groq" 2 0, .recordHealth "groq" false 0,
   .recordFailure "groq" 3 0, .recordHealth "groq" false 0,
   .recordFailure "groq" 4 0, .recordHealth "groq" false 0,
   .recordFailure "groq" 5 0, .recordHealth "groq" false 0,
   .recordHealth "groq" true 1]

/-- The six strategies that scope by model and take no session. -/
def sixStrategies : List Strategy :=
  [.hybrid, .astRace, .weightedElo, .leastLatency, .roundRobin, .circuitChain]

/-- The state after `failuresThenProbe`, an hour later. -/
def stuckOpen (w : Fleet) : Bool :=
  match w.router.runtimes "groq" with
  | some a =>
      (w.router.objs a).defn.usable (fun _ => none) && w.router.health.isHealthy "groq" &&
        (w.router.objs a).defn.servesModel "m" &&
        ((w.router.objs a).circuit.allow (secs 3600)).1 &&
        sixStrategies.all fun strategy =>
          (w.router.select (fun _ => none) "m" "" (some strategy) 3600 fun _ => 0).2 == some []
  | none => false

/-- A registry whose provider has a weight near the greatest float. -/
def heavyStore : StoredConfig where
  providers := [{ name := "groq", baseUrl := "https://api.groq.com", keys := [{ key := "k" }],
                  models := ["m"], weight := 10 ^ 308 }]

/-- **A weight of `1e308` is selectable by no weighted draw**: it is accepted, and 1500 times it is infinite. -/
theorem heavy_weight_not_listed :
    ∃ w : Fleet, (fleetSystem fun _ => none).Reachable w ∧
      ∃ a, w.router.runtimes "groq" = some a ∧ ((w.router.objs a).circuit.allow 7).1 = true ∧
        ∀ session nowUnix rolls, ¬ Router.Lists
          (w.router.select (fun _ => none) "m" session (some .weightedElo) nowUnix rolls).2 "groq" := by
  have hreach : (fleetSystem fun _ => none).Reachable (boot (fun _ => none) heavyStore {} 0 0) :=
    ⟨_, [], ⟨heavyStore, {}, 0, 0, by decide +kernel, rfl⟩, .nil _⟩
  have hinfinite : ¬ Router.DrawFits (fun _ => none) (boot (fun _ => none) heavyStore {} 0 0).router "m" := by
    unfold Router.DrawFits
    decide +kernel
  refine ⟨_, hreach, 0, by decide +kernel, by decide +kernel, fun session nowUnix rolls hlists => ?_⟩
  exact hinfinite (((Router.select_providers (by decide) (by decide) (by decide) _ _ _ _).mp hlists).1 rfl)

end Fleet

end Flock
