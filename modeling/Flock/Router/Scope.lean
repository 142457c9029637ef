/-
# Flock.Router.Scope — whom a request for a model may be sent to.

Under every strategy `select` lists runtimes it has scoped to the model, except on the way out
through the sticky shortcut: a live pin returns its provider before the scoping filter is reached.
A pin is older than the request that reads it.  It may come from a state database or predate an edit
of the provider's model list, so nothing ties the two together, and the sticky shortcut keeps to the
model exactly when the pinned provider still lists it.
-/
import Flock.Router.Gate

namespace Flock

namespace Router

variable {env : Env} {r : Router} {a : ℕ} {m session : String} {override : Option Strategy}
  {nowUnix : ℕ}

/-- The provider is registered, and its definition serves the model. -/
def Serves (r : Router) (m provider : String) : Prop :=
  ∃ a, r.runtimes provider = some a ∧ (r.objs a).defn.servesModel m = true

/-- Every candidate that a selection returns serves the model. -/
def Scoped (r : Router) (m : String) (selection : Option (List RouteCandidate)) : Prop :=
  ∀ candidates ∈ selection, ∀ c ∈ candidates, r.Serves m c.provider

/-- **`PinServes`** — if the strategy in force reads the session's pin, and the pin would be honoured,
then the pinned provider serves the model. -/
def PinServes (env : Env) (r : Router) (m session : String) (override : Option Strategy)
    (nowUnix : ℕ) : Prop :=
  r.strategyFor m override = .stickyAffinity →
    ∀ provider a, r.health.getSticky session nowUnix = some provider →
      r.runtimes provider = some a → r.candidateOk env a = true →
        (r.objs a).defn.servesModel m = true

/-- A runtime in scope is registered under its own name, and serves the model. -/
theorem serves_of_inScope (hwf : WF r) (hm : m ≠ "free") (ha : a ∈ r.inScope env m) :
    r.Serves m (r.objs a).defn.name := by
  simp only [inScope, beq_iff_eq, hm, if_false, List.mem_filter] at ha
  obtain ⟨n, hn⟩ := registered_of_gated ha.1
  have hname : (r.objs a).defn.name = n := hwf.name n a hn
  rw [hname]
  exact ⟨a, hn, ha.2⟩

/-- No strategy lists a runtime it was not given. -/
theorem mem_of_mem_orderBy {strategy : Strategy} {rolls : ℕ → ℚ} {rts ordered : List ℕ}
    (h : r.orderBy strategy rolls rts = some ordered) (ha : a ∈ ordered) : a ∈ rts := by
  by_cases hs : strategy = .free
  · subst hs
    obtain rfl := Option.some.inj h
    exact (List.mem_filter.mp ha).1
  · exact (mem_of_orderBy hs h).mp ha

/-- **The two ways out of `select`.** Through the sticky shortcut, with the pinned provider alone; or
through the filter, with runtimes in scope. -/
theorem select_cases (env : Env) (r : Router) (m session : String) (override : Option Strategy)
    (nowUnix : ℕ) (rolls : ℕ → ℚ) :
    (∃ c, r.strategyFor m override = .stickyAffinity ∧
      r.stickyPick env m session nowUnix = some c ∧
      (r.select env m session override nowUnix rolls).2 = some [c]) ∨
    ((r.strategyFor m override = .stickyAffinity → r.stickyPick env m session nowUnix = none) ∧
      ∀ candidates ∈ (r.select env m session override nowUnix rolls).2, ∀ c ∈ candidates,
        ∃ a ∈ r.inScope env m, (r.objs a).defn.name = c.provider) := by
  unfold select
  dsimp only
  split
  · rename_i c hc
    left
    by_cases hs : r.strategyFor m override = .stickyAffinity
    · rw [hs] at hc
      exact ⟨c, hs, hc, rfl⟩
    · rw [if_neg (by simpa using hs)] at hc
      exact absurd hc (Option.some_ne_none c).symm
  · rename_i hnone
    right
    refine ⟨fun hs => ?_, ?_⟩
    · rw [hs] at hnone
      exact hnone
    · intro candidates hcandidates c hc
      split at hcandidates
      · obtain rfl := Option.some.inj hcandidates
        exact absurd hc List.not_mem_nil
      · obtain ⟨ordered, hordered, rfl⟩ := Option.map_eq_some_iff.mp hcandidates
        obtain ⟨a, ha, rfl⟩ := List.mem_map.mp hc
        exact ⟨a, mem_of_mem_orderBy hordered ha, rfl⟩

/-- A sticky pick is a live pin to a registered provider that passes the gates. -/
theorem stickyPick_eq_some {c : RouteCandidate} :
    r.stickyPick env m session nowUnix = some c ↔
      ∃ provider a, r.health.getSticky session nowUnix = some provider ∧
        r.runtimes provider = some a ∧ r.candidateOk env a = true ∧
        c = ⟨provider, (r.objs a).defn.rewriteModel m, .stickyAffinity⟩ := by
  unfold stickyPick
  simp only [Option.bind_eq_bind, Option.bind_eq_some_iff, Option.ite_none_right_eq_some,
    Option.some.injEq]
  constructor
  · rintro ⟨provider, hpin, a, hreg, hok, rfl⟩
    exact ⟨provider, a, hpin, hreg, hok, rfl⟩
  · rintro ⟨provider, a, hpin, hreg, hok, rfl⟩
    exact ⟨provider, hpin, a, hreg, hok, rfl⟩

/-- **A selection is scoped exactly when the pin it honours serves the model.** -/
theorem scoped_select_iff (hwf : WF r) (hm : m ≠ "free") (rolls : ℕ → ℚ) :
    r.Scoped m (r.select env m session override nowUnix rolls).2 ↔
      PinServes env r m session override nowUnix := by
  rcases select_cases env r m session override nowUnix rolls with
    ⟨c, hs, hpick, hlist⟩ | ⟨hnopick, hscope⟩
  · obtain ⟨provider, a, hpin, hreg, hok, rfl⟩ := stickyPick_eq_some.mp hpick
    rw [hlist]
    constructor
    · intro hall _ provider' a' hpin' hreg' _
      obtain rfl : provider = provider' := Option.some.inj (hpin.symm.trans hpin')
      obtain ⟨b, hb, hserves⟩ := hall _ rfl _ (List.mem_singleton_self _)
      obtain rfl : b = a' := Option.some.inj (hb.symm.trans hreg')
      exact hserves
    · rintro hpinned candidates ⟨⟩ c hc
      obtain rfl := List.mem_singleton.mp hc
      exact ⟨a, hreg, hpinned hs provider a hpin hreg hok⟩
  · constructor
    · intro _ hs provider a hpin hreg hok
      -- an honoured pin would have been picked
      have hpicked : r.stickyPick env m session nowUnix =
          some ⟨provider, (r.objs a).defn.rewriteModel m, .stickyAffinity⟩ :=
        stickyPick_eq_some.mpr ⟨provider, a, hpin, hreg, hok, rfl⟩
      rw [hnopick hs] at hpicked
      exact absurd hpicked (Option.some_ne_none _).symm
    · intro _ candidates hcandidates c hc
      obtain ⟨a, ha, hname⟩ := hscope candidates hcandidates c hc
      rw [← hname]
      exact serves_of_inScope hwf hm ha

end Router

namespace Fleet

open Lib (System)

variable {env : Env}

/-- **Whom a request for a model is sent to.** In every reachable router state, for every session,
every model but the directive and every strategy, all candidates serve the model exactly when the
session's pin, if the strategy in force is the sticky one and the pin is honoured, names a provider
that serves it. -/
theorem select_scoped_iff (w : Fleet) (hreach : (fleetSystem env).Reachable w)
    (m session : String) (hm : m ≠ "free") (override : Option Strategy) (nowUnix : ℕ)
    (rolls : ℕ → ℚ) :
    w.router.Scoped m (w.router.select env m session override nowUnix rolls).2 ↔
      Router.PinServes env w.router m session override nowUnix :=
  Router.scoped_select_iff (filed_of_reachable hreach).wf hm rolls

/-- The store of `groqStore`, its provider now listing another model. -/
def editedStore : StoredConfig where
  providers := [{ name := "groq", baseUrl := "https://api.groq.com", keys := [{ key := "k" }],
                  models := ["n"] }]

/-- A request for `m` pins its session to the provider, which then drops `m` from its list. -/
def pinThenEdit : List FleetEvent :=
  [.setSticky "client:m" "groq" 3600 0, .rebuild editedStore 1]

/-- The pinned session's next request for `m` goes to a provider that serves only `n`. -/
def pinnedOutOfScope (w : Fleet) : Bool :=
  ((w.router.select (fun _ => none) "m" "client:m" (some .stickyAffinity) 1 fun _ => 0).2.map
      (·.map (·.provider)) == some ["groq"]) &&
    match w.router.runtimes "groq" with
    | some a => !(w.router.objs a).defn.servesModel "m"
    | none => false

/-- **A pin outlives the model list it was written under.** -/
theorem pin_out_of_scope :
    ∃ w : Fleet, (fleetSystem fun _ => none).Reachable w ∧
      ¬ w.router.Scoped "m" (w.router.select (fun _ => none) "m" "client:m"
        (some .stickyAffinity) 1 fun _ => 0).2 := by
  have hrun : (System.exec (step fun _ => none) (boot (fun _ => none) groqStore {} 0 0)
      pinThenEdit).any pinnedOutOfScope = true := by decide +kernel
  have hboot : (fleetSystem fun _ => none).init (boot (fun _ => none) groqStore {} 0 0) :=
    ⟨groqStore, {}, 0, 0, by decide +kernel, rfl⟩
  obtain ⟨w, hreach, hw⟩ := System.reachable_of_exec hboot hrun
  refine ⟨w, hreach, fun hscoped => ?_⟩
  simp only [pinnedOutOfScope, Bool.and_eq_true, beq_iff_eq] at hw
  obtain ⟨hlist, hserves⟩ := hw
  obtain ⟨candidates, hcandidates, hproviders⟩ := Option.map_eq_some_iff.mp hlist
  obtain ⟨c, hc, hname⟩ : ∃ c ∈ candidates, c.provider = "groq" := by
    rw [← List.mem_map, hproviders]
    exact List.mem_singleton_self _
  obtain ⟨a, ha, hserved⟩ := hscoped candidates hcandidates c hc
  rw [hname] at ha
  rw [ha] at hserves
  simp [hserved] at hserves

/-- At boot, with no pin, every candidate serves the model. -/
theorem select_scoped_at_boot :
    ∃ w : Fleet, (fleetSystem fun _ => none).Reachable w ∧
      (w.router.Scoped "m" (w.router.select (fun _ => none) "m" "client:m"
          (some .stickyAffinity) 1 fun _ => 0).2 ↔
        Router.PinServes (fun _ => none) w.router "m" "client:m" (some .stickyAffinity) 1) := by
  have hreach : (fleetSystem fun _ => none).Reachable (boot (fun _ => none) groqStore {} 0 0) :=
    ⟨_, [], ⟨groqStore, {}, 0, 0, by decide +kernel, rfl⟩, .nil _⟩
  exact ⟨_, hreach, select_scoped_iff _ hreach "m" "client:m" (by decide) _ 1 _⟩

end Fleet

end Flock
