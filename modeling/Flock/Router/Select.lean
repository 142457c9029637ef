/-
# Flock.Router.Select — strategy selection.

`select` filters the registered runtimes, in config order, through the usable, health and breaker
gates, scopes them to the model and orders them by strategy.  The random draws of `weighted_elo` are
an oracle `rolls` (the value of each `gen_range`); the sorts are stable, as the source's are.

The draws are weighted by floats.  A weight is only checked to be finite, so the sum of the weights may
be infinite, and `gen_range` panics on a range without end: a selection that does not return is `none`.
A sum does not grow when a provider is drawn, so the first draw decides (`isSome_orderElo_iff`).
-/
import Mathlib.Data.List.Perm.Basic
import Mathlib.Data.List.Sort
import Mathlib.Data.List.Range
import Flock.Lib.Binary64
import Flock.Router.Registry

namespace Flock

open Lib (Binary64)

/-- `RouteCandidate`. -/
structure RouteCandidate where
  provider : String
  model : String
  strategy : Strategy
  deriving DecidableEq, Repr

namespace Router

variable (env : Env)

/-- `candidate_ok`: usable, healthy, and the breaker not open. -/
def candidateOk (r : Router) (a : ℕ) : Bool :=
  (r.objs a).defn.usable env && r.health.isHealthy (r.objs a).defn.name &&
    (r.objs a).circuit.state != .open

/-- `latency_ms` of a runtime. -/
def latencyOf (r : Router) (a : ℕ) : Option ℚ := r.health.latencyMs (r.objs a).defn.name

/-- `get_elo` of a runtime. -/
def eloOf (r : Router) (a : ℕ) : ℤ := r.health.getElo (r.objs a).defn.name

/-- The same, as the `i32` it is. -/
def elo32 (r : Router) (a : ℕ) : Int32 := Int32.ofInt (r.eloOf a)

/-- `order_hybrid`: measured latencies ascending, then the unmeasured by descending ELO. -/
def orderHybrid (r : Router) (rts : List ℕ) : List ℕ :=
  let withLat := rts.filterMap fun a => (r.latencyOf a).map fun ms => (ms, a)
  let unknown := rts.filter fun a => (r.latencyOf a).isNone
  (withLat.insertionSort fun x y => x.1 ≤ y.1).map (·.2) ++
    unknown.insertionSort fun a b => -r.eloOf a ≤ -r.eloOf b

/-- The weight of one provider in the draw, an `f64`: its ELO, 1500 if there is none, times its weight. -/
def eloWeight (r : Router) (a : ℕ) : Binary64 :=
  (Binary64.finite (if (r.elo32 a).toInt ≤ 0 then 1500 else ((r.elo32 a).toInt : ℚ))).mul
    ((Binary64.ofRat (r.objs a).defn.weight).max (.finite 0))

/-- What is drawn from. -/
def eloTotal (r : Router) (rts : List ℕ) : Binary64 := .sum (rts.map r.eloWeight)

/-- The inner loop of `order_elo`: the first index at which the roll is used up, else 0. -/
def pickElo (r : Router) (roll : Binary64) (i : ℕ) : List ℕ → ℕ
  | [] => 0
  | a :: rest =>
      let roll := roll.sub (r.eloWeight a)
      if roll.nonpos then i else r.pickElo roll (i + 1) rest

/-- One draw; `none`: `gen_range` panics, for its range is not finite. -/
def drawElo (r : Router) (roll : ℚ) (remaining : List ℕ) : Option ℕ :=
  if (r.eloTotal remaining).nonpos then some 0
  else if (r.eloTotal remaining).isFinite then some (r.pickElo (.finite roll) 0 remaining)
  else none

/-- `order_elo`: draw without replacement.  The first argument counts the draws left. -/
def orderElo (r : Router) (rolls : ℕ → ℚ) : ℕ → List ℕ → Option (List ℕ)
  | 0, _ => some []
  | _ + 1, [] => some []
  | n + 1, a :: rest =>
      let remaining := a :: rest
      (r.drawElo (rolls n) remaining).bind fun pick =>
        (r.orderElo rolls n (remaining.eraseIdx pick)).map fun out => remaining.getD pick a :: out

/-- The comparison of `order_latency`: a measured latency beats an unmeasured one. -/
def latencyLe (r : Router) (a b : ℕ) : Bool :=
  match r.latencyOf a, r.latencyOf b with
  | some x, some y => decide (x ≤ y)
  | none, some _ => false
  | _, none => true

/-- `order_latency`. -/
def orderLatency (r : Router) (rts : List ℕ) : List ℕ :=
  rts.insertionSort fun a b => r.latencyLe a b

/-- `order_round_robin`, from the counter's value before it was bumped. -/
def orderRoundRobin (r : Router) (rts : List ℕ) : List ℕ :=
  (List.range rts.length).map fun i => rts.getD ((r.roundRobin + i) % rts.length) 0

/-- The gated runtimes of `select`, in config order. -/
def gated (r : Router) : List ℕ := (r.order.filterMap r.runtimes).filter (r.candidateOk env)

/-- The ordering step of `select`; `none` is a panic. -/
def orderBy (r : Router) (strategy : Strategy) (rolls : ℕ → ℚ) (rts : List ℕ) : Option (List ℕ) :=
  match strategy with
  | .hybrid | .stickyAffinity | .circuitChain => some (r.orderHybrid rts)
  | .astRace => some rts
  | .weightedElo => r.orderElo rolls rts.length rts
  | .leastLatency => some (r.orderLatency rts)
  | .roundRobin => some (r.orderRoundRobin rts)
  | .free => some (rts.filter fun a => (r.objs a).defn.freeTier)

/-- The upstream model of one candidate. -/
def upstreamModel (d : ProviderDef) (model : String) : String :=
  if model == "free" then
    ((d.modelMap.lookup "free").orElse fun _ => d.models.head?).getD model
  else d.rewriteModel model

/-- The sticky shortcut: the pinned provider, when it is registered and passes the gates. -/
def stickyPick (r : Router) (model session : String) (nowUnix : ℕ) : Option RouteCandidate := do
  let provider ← r.health.getSticky session nowUnix
  let a ← r.runtimes provider
  if r.candidateOk env a then
    some ⟨provider, (r.objs a).defn.rewriteModel model, .stickyAffinity⟩
  else none

/-- The strategy in force: the literal `free` directive, the override, or the configured one. -/
def strategyFor (r : Router) (model : String) (override : Option Strategy) : Strategy :=
  if model == "free" then .free else override.getD r.routing.strategy

/-- The runtimes `select` orders: gated, and scoped to the model unless it is the directive. -/
def inScope (r : Router) (model : String) : List ℕ :=
  if model == "free" then r.gated env
  else (r.gated env).filter fun a => (r.objs a).defn.servesModel model

/-- `RouterHandle::select`, with the router it leaves (the round-robin counter moves). -/
def select (r : Router) (model session : String) (override : Option Strategy) (nowUnix : ℕ)
    (rolls : ℕ → ℚ) : Router × Option (List RouteCandidate) :=
  let strategy := r.strategyFor model override
  let sticky := if strategy == .stickyAffinity then r.stickyPick env model session nowUnix else none
  match sticky with
  | some c => (r, some [c])
  | none =>
      let rts := r.inScope env model
      if rts.isEmpty then (r, some [])
      else
        let r' := if strategy == .roundRobin then { r with roundRobin := r.roundRobin + 1 } else r
        (r', (r.orderBy strategy rolls rts).map fun ordered => ordered.map fun a =>
          ⟨(r.objs a).defn.name, upstreamModel (r.objs a).defn model, strategy⟩)

/-! ## Orders list what they are given -/

variable {env} {r : Router} {a : ℕ}

/-- The two halves of the hybrid order, before they are sorted. -/
theorem measured_append_unmeasured (r : Router) (rts : List ℕ) :
    (((rts.filterMap fun a => (r.latencyOf a).map fun ms => (ms, a)).map (·.2)) ++
      rts.filter fun a => (r.latencyOf a).isNone).Perm rts := by
  have hlat : (rts.filterMap fun a => (r.latencyOf a).map fun ms => (ms, a)).map (·.2) =
      rts.filter fun a => !(r.latencyOf a).isNone := by
    induction rts with
    | nil => rfl
    | cons a rts ih =>
        cases h : r.latencyOf a with
        | none => simpa [h] using ih
        | some ms => simpa [h] using ih
  rw [hlat]
  exact List.perm_append_comm.trans (List.filter_append_perm (fun a => (r.latencyOf a).isNone) rts)

theorem orderHybrid_perm (r : Router) (rts : List ℕ) : (r.orderHybrid rts).Perm rts := by
  unfold orderHybrid
  dsimp only
  refine List.Perm.trans (List.Perm.append ?_ ?_) (measured_append_unmeasured r rts)
  · exact (List.perm_insertionSort _ _).map _
  · exact List.perm_insertionSort _ _

theorem pickElo_lt (r : Router) (roll : Binary64) (i : ℕ) (rts : List ℕ) :
    r.pickElo roll i rts = 0 ∨ r.pickElo roll i rts < i + rts.length := by
  induction rts generalizing roll i with
  | nil => exact .inl rfl
  | cons a rest ih =>
      unfold pickElo
      dsimp only
      split
      · right
        simp
      · rcases ih (roll.sub (r.eloWeight a)) (i + 1) with h | h
        · exact .inl h
        · right
          rw [List.length_cons]
          omega

/-- Whatever is rolled, one of the providers is drawn. -/
theorem lt_of_drawElo {roll : ℚ} {rts : List ℕ} (hne : rts ≠ []) {pick : ℕ} (h : r.drawElo roll rts = some pick) :
    pick < rts.length := by
  have hpos : 0 < rts.length := List.length_pos_iff.mpr hne
  unfold drawElo at h
  split at h
  · obtain rfl := Option.some.inj h
    exact hpos
  · obtain ⟨-, heq⟩ := Option.ite_none_right_eq_some.mp h
    obtain rfl := Option.some.inj heq
    rcases pickElo_lt r (.finite roll) 0 rts with h0 | hlt
    · rw [h0]
      exact hpos
    · simpa using hlt

theorem orderElo_perm (r : Router) (rolls : ℕ → ℚ) : ∀ (n : ℕ) (rts : List ℕ) {ordered : List ℕ},
    rts.length = n → r.orderElo rolls n rts = some ordered → ordered.Perm rts
  | 0, rts, ordered, hn, h => by
      obtain rfl := List.length_eq_zero_iff.mp hn
      obtain rfl := Option.some.inj h
      rfl
  | n + 1, [], ordered, hn, h => by simp at hn
  | n + 1, a :: rest, ordered, hn, h => by
      obtain ⟨pick, hpick, h⟩ := Option.bind_eq_some_iff.mp h
      obtain ⟨out, hout, rfl⟩ := Option.map_eq_some_iff.mp h
      have hlt : pick < (a :: rest).length := lt_of_drawElo (by simp) hpick
      have hlen : ((a :: rest).eraseIdx pick).length = n := by
        rw [List.length_eraseIdx_of_lt hlt, hn]
        rfl
      have hget : (a :: rest).getD pick a = (a :: rest)[pick] := by
        rw [List.getD, List.getElem?_eq_getElem hlt]
        rfl
      rw [hget]
      exact ((orderElo_perm r rolls n _ hlen hout).cons _).trans (List.getElem_cons_eraseIdx_perm hlt)

/-! ## When a draw returns -/

theorem rounded_eloWeight (r : Router) (a : ℕ) : (r.eloWeight a).Rounded := by
  obtain ⟨elo, helo, hweight⟩ : ∃ elo : ℚ, 0 < elo ∧ r.eloWeight a =
      (Binary64.finite elo).mul ((Binary64.ofRat (r.objs a).defn.weight).max (.finite 0)) := by
    refine ⟨_, ?_, rfl⟩
    split
    · norm_num
    · rename_i hpos
      exact_mod_cast not_le.mp hpos
  rw [hweight]
  cases Binary64.ofRat (r.objs a).defn.weight with
  | finite weight => exact Binary64.rounded_ofRat (mul_nonneg helo.le (le_max_right _ _))
  | infinite negative =>
      cases negative with
      | true => exact Binary64.rounded_ofRat (mul_nonneg helo.le le_rfl)
      | false =>
          have hmul : (Binary64.finite elo).mul (.infinite false) = .infinite false := by
            simp [Binary64.mul, helo.ne', helo.not_gt]
          show (Binary64.mul _ (.infinite false)).Rounded
          rw [hmul]
          exact .infinite
  | nan => exact Binary64.rounded_ofRat (mul_nonneg helo.le le_rfl)

theorem rounded_eloTotal (r : Router) (rts : List ℕ) : (r.eloTotal rts).Rounded := by
  refine Binary64.rounded_sum fun x hx => ?_
  obtain ⟨a, -, rfl⟩ := List.mem_map.mp hx
  exact rounded_eloWeight r a

theorem isSome_drawElo_iff (r : Router) (roll : ℚ) (rts : List ℕ) :
    (r.drawElo roll rts).isSome = true ↔ (r.eloTotal rts).isFinite = true := by
  have hrounded := rounded_eloTotal r rts
  unfold drawElo
  generalize r.eloTotal rts = total at hrounded
  cases hrounded with
  | finite h =>
      refine iff_of_true ?_ rfl
      split <;> rfl
  | infinite => exact iff_of_false nofun nofun

/-- **The first draw decides**: what is left of a finite sum is finite. -/
theorem isSome_orderElo_iff (r : Router) (rolls : ℕ → ℚ) (rts : List ℕ) :
    (r.orderElo rolls rts.length rts).isSome = true ↔ (r.eloTotal rts).isFinite = true := by
  suffices hall : ∀ n rts, rts.length = n →
      ((r.orderElo rolls n rts).isSome = true ↔ (r.eloTotal rts).isFinite = true) from hall _ rts rfl
  intro n
  induction n with
  | zero =>
      intro rts hn
      obtain rfl := List.length_eq_zero_iff.mp hn
      exact iff_of_true rfl rfl
  | succ n ih =>
      intro rts hn
      obtain ⟨a, rest, rfl⟩ := List.exists_cons_of_length_eq_add_one hn
      rw [← isSome_drawElo_iff r (rolls n)]
      simp only [orderElo]
      cases hdraw : r.drawElo (rolls n) (a :: rest) with
      | none => exact Iff.rfl
      | some pick =>
          refine iff_of_true ?_ rfl
          have hlt : pick < (a :: rest).length := lt_of_drawElo (by simp) hdraw
          have hfinite : (r.eloTotal (a :: rest)).isFinite = true :=
            (isSome_drawElo_iff r (rolls n) _).mp (by rw [hdraw]; rfl)
          have hless := Binary64.sum_atMost_of_sublist (((a :: rest).eraseIdx_sublist pick).map r.eloWeight) ?_
          · have hrest := (ih ((a :: rest).eraseIdx pick) ?_).mpr (hless.isFinite hfinite)
            · obtain ⟨out, hout⟩ := Option.isSome_iff_exists.mp hrest
              simp only [Option.bind_some, hout]
              rfl
            · rw [List.length_eraseIdx_of_lt hlt, hn]
              rfl
          · intro x hx
            obtain ⟨b, -, rfl⟩ := List.mem_map.mp hx
            exact rounded_eloWeight r b

theorem mem_orderRoundRobin (r : Router) (rts : List ℕ) :
    a ∈ r.orderRoundRobin rts ↔ a ∈ rts := by
  unfold orderRoundRobin
  simp only [List.mem_map, List.mem_range]
  constructor
  · rintro ⟨i, hi, rfl⟩
    have hpos : 0 < rts.length := by omega
    have hlt : (r.roundRobin + i) % rts.length < rts.length := Nat.mod_lt _ hpos
    simp [List.getD, hlt]
  · intro ha
    obtain ⟨j, hj, rfl⟩ := List.getElem_of_mem ha
    -- the offset that lands on `j`, counted from the start of the rotation
    refine ⟨(j + (rts.length - r.roundRobin % rts.length)) % rts.length,
      Nat.mod_lt _ (by omega), ?_⟩
    have hmod : r.roundRobin % rts.length < rts.length := Nat.mod_lt _ (by omega)
    have hidx : (r.roundRobin + (j + (rts.length - r.roundRobin % rts.length)) % rts.length) %
        rts.length = j := by
      rw [Nat.add_mod, Nat.mod_mod, ← Nat.add_mod]
      have hsum : r.roundRobin + (j + (rts.length - r.roundRobin % rts.length)) =
          j + rts.length * (r.roundRobin / rts.length + 1) := by
        have hdiv := Nat.div_add_mod r.roundRobin rts.length
        rw [Nat.mul_add]
        omega
      rw [hsum, Nat.add_mul_mod_self_left]
      exact Nat.mod_eq_of_lt hj
    rw [hidx]
    simp [List.getD, hj]

/-- **Every strategy but `free` lists exactly the runtimes it is given.** -/
theorem mem_of_orderBy {strategy : Strategy} (hs : strategy ≠ .free) {rolls : ℕ → ℚ} {rts ordered : List ℕ}
    (h : r.orderBy strategy rolls rts = some ordered) : a ∈ ordered ↔ a ∈ rts := by
  cases strategy with
  | weightedElo => exact (orderElo_perm r rolls _ rts rfl h).mem_iff
  | hybrid | stickyAffinity | circuitChain =>
      obtain rfl := Option.some.inj h
      exact (orderHybrid_perm r rts).mem_iff
  | astRace =>
      obtain rfl := Option.some.inj h
      exact Iff.rfl
  | leastLatency =>
      obtain rfl := Option.some.inj h
      exact (List.perm_insertionSort _ rts).mem_iff
  | roundRobin =>
      obtain rfl := Option.some.inj h
      exact mem_orderRoundRobin r rts
  | free => exact absurd rfl hs

/-- **Which orders do not return**: a weighted draw from a sum that is not finite. -/
theorem isSome_orderBy_iff (r : Router) (strategy : Strategy) (rolls : ℕ → ℚ) (rts : List ℕ) :
    (r.orderBy strategy rolls rts).isSome = true ↔
      (strategy = .weightedElo → (r.eloTotal rts).isFinite = true) := by
  cases strategy with
  | weightedElo =>
      have helo := isSome_orderElo_iff r rolls rts
      exact ⟨fun h _ => helo.mp h, fun h => helo.mpr (h rfl)⟩
  | _ => exact iff_of_true rfl nofun

end Router

end Flock
