/-
# Flock.Router.Completeness — does a selection list everybody it should, once?

`select` with the machine's integers.  The round-robin counter is added to on 64 bits, and the ELO,
an `i32`, is negated to sort by it.  Neither sum nor negation is checked, so both can wrap: the
rotation then jumps back to residue zero, and the lowest ELO there is sorts as the highest.  The
weighted draw is made from a sum of floats, and panics if that is infinite (`DrawFits`).  Apart
from that each strategy permutes the runtimes in scope (`select64_eq_select` says where the two
readings agree), whatever the weights, the rolls and the counter.
-/
import Flock.Lib.Orderings
import Flock.Router.Scope

namespace Flock

namespace Router

variable (env : Env)

/-! ## The machine's orders

A sort key that wraps is still a sort key, and a sort by it a permutation.  A rotation that wraps need not be one: it
can pass one runtime twice and another not at all. -/

/-- `order_hybrid`, the negation on 32 bits. -/
def orderHybrid32 (r : Router) (rts : List ℕ) : List ℕ :=
  let withLat := rts.filterMap fun a => (r.latencyOf a).map fun ms => (ms, a)
  let unknown := rts.filter fun a => (r.latencyOf a).isNone
  (withLat.insertionSort fun x y => x.1 ≤ y.1).map (·.2) ++
    unknown.insertionSort fun a b => -r.elo32 a ≤ -r.elo32 b

/-- `order_round_robin`, the sum on 64 bits. -/
def orderRoundRobin64 (r : Router) (rts : List ℕ) : List ℕ :=
  (List.range rts.length).map fun i => rts.getD ((r.roundRobin + i) % 2 ^ 64 % rts.length) 0

/-- The ordering step of `select`. -/
def orderBy64 (r : Router) (strategy : Strategy) (rolls : ℕ → ℚ) (rts : List ℕ) : Option (List ℕ) :=
  match strategy with
  | .hybrid | .stickyAffinity | .circuitChain => some (r.orderHybrid32 rts)
  | .astRace => some rts
  | .weightedElo => r.orderElo rolls rts.length rts
  | .leastLatency => some (r.orderLatency rts)
  | .roundRobin => some (r.orderRoundRobin64 rts)
  | .free => some (rts.filter fun a => (r.objs a).defn.freeTier)

/-- What `RouterHandle::select` returns; `none` if it panics. -/
def select64 (r : Router) (model session : String) (override : Option Strategy) (nowUnix : ℕ)
    (rolls : ℕ → ℚ) : Option (List RouteCandidate) :=
  let strategy := r.strategyFor model override
  let sticky := if strategy == .stickyAffinity then r.stickyPick env model session nowUnix else none
  match sticky with
  | some c => some [c]
  | none =>
      let rts := r.inScope env model
      if rts.isEmpty then some []
      else (r.orderBy64 strategy rolls rts).map fun ordered => ordered.map fun a =>
        ⟨(r.objs a).defn.name, upstreamModel (r.objs a).defn model, strategy⟩

/-! ## What a complete selection is -/

/-- The provider may be sent a request for the model: registered, enabled, usable, healthy, its
breaker not open, and serving the model. -/
def Eligible (r : Router) (m provider : String) : Prop :=
  ∃ a, r.runtimes provider = some a ∧ (r.objs a).defn.enabled = true ∧
    (r.objs a).defn.usable env = true ∧ r.health.isHealthy provider = true ∧
    (r.objs a).circuit.state ≠ .open ∧ (r.objs a).defn.servesModel m = true

/-- The hybrid order: measured before unmeasured, by ascending latency, then by descending ELO. -/
def Precedes (h : HealthDb) (p q : String) : Prop :=
  match h.latencyMs p, h.latencyMs q with
  | some x, some y => x ≤ y
  | some _, none => True
  | none, some _ => False
  | none, none => Int32.ofInt (h.getElo q) ≤ Int32.ofInt (h.getElo p)

/-- **`Complete`** — the eligible providers, each once, in the hybrid order under that strategy. -/
structure Complete (r : Router) (m : String) (strategy : Strategy) (providers : List String) :
    Prop where
  once : providers.Nodup
  exact : ∀ p, p ∈ providers ↔ r.Eligible env m p
  ordered : strategy = .hybrid → providers.Pairwise (Precedes r.health)

/-- The rotation does not wrap, or wraps to the residue it would have had. -/
def RotationFits (r : Router) (m : String) : Prop :=
  r.roundRobin % 2 ^ 64 + (r.inScope env m).length ≤ 2 ^ 64 ∨
    (r.inScope env m).length ∣ 2 ^ 64

/-- No ELO that is its own negation stands beside another one, among the unmeasured in scope. -/
def ElosNegate (r : Router) (m : String) : Prop :=
  ∀ a ∈ r.inScope env m, ∀ b ∈ r.inScope env m, r.latencyOf a = none → r.latencyOf b = none →
    r.elo32 a = Int32.minValue → r.elo32 b = Int32.minValue

variable {env} {r : Router} {a b : ℕ} {m session : String} {strategy : Strategy}
  {override : Option Strategy} {nowUnix : ℕ} {rolls : ℕ → ℚ} {rts ordered : List ℕ}

/-! ## Orders permute

What is sorted is permuted, whatever its keys are.  Only the rotation has to be looked at for repetitions. -/

/-- The hybrid order sorts twice, and appends. -/
theorem orderHybrid32_perm (r : Router) (rts : List ℕ) : (r.orderHybrid32 rts).Perm rts := by
  unfold orderHybrid32
  dsimp only
  refine List.Perm.trans (List.Perm.append ?_ ?_) (measured_append_unmeasured r rts)
  · exact (List.perm_insertionSort _ _).map _
  · exact List.perm_insertionSort _ _

/-- Every strategy but the free one and the rotation permutes what it is given. -/
theorem orderBy64_perm (hfree : strategy ≠ .free) (hrr : strategy ≠ .roundRobin)
    (h : r.orderBy64 strategy rolls rts = some ordered) : ordered.Perm rts := by
  cases strategy with
  | weightedElo => exact orderElo_perm r rolls _ rts rfl h
  | hybrid | stickyAffinity | circuitChain =>
      obtain rfl := Option.some.inj h
      exact orderHybrid32_perm r rts
  | astRace =>
      obtain rfl := Option.some.inj h
      exact List.Perm.refl _
  | leastLatency =>
      obtain rfl := Option.some.inj h
      exact List.perm_insertionSort _ rts
  | roundRobin => exact absurd rfl hrr
  | free => exact absurd rfl hfree

/-- The rotation on 64 bits is the library's. -/
theorem orderRoundRobin64_eq (r : Router) (rts : List ℕ) :
    r.orderRoundRobin64 rts = Lib.rotation (2 ^ 64) r.roundRobin 0 rts := rfl

/-- **What each of the six strategies does to a list without repetitions.** It repeats nothing
exactly if, under round-robin, the counter does not wrap to another residue; and then it permutes. -/
theorem orderBy64_nodup_iff (hfree : strategy ≠ .free) (hrts : rts.Nodup)
    (h : r.orderBy64 strategy rolls rts = some ordered) :
    ordered.Nodup ↔
      (strategy = .roundRobin →
        r.roundRobin % 2 ^ 64 + rts.length ≤ 2 ^ 64 ∨ rts.length ∣ 2 ^ 64) := by
  by_cases hrr : strategy = .roundRobin
  · subst hrr
    obtain rfl := Option.some.inj h
    rw [orderRoundRobin64_eq, Lib.rotation_nodup_iff (Nat.two_pow_pos 64) hrts]
    simp
  · rw [(orderBy64_perm hfree hrr h).nodup_iff]
    exact ⟨fun _ h => absurd h hrr, fun _ => hrts⟩

/-- A strategy that returns, returns its runtimes in some order. -/
theorem orderBy64_perm_of_nodup (hfree : strategy ≠ .free)
    (h : r.orderBy64 strategy rolls rts = some ordered) (hnodup : ordered.Nodup) : ordered.Perm rts := by
  by_cases hrr : strategy = .roundRobin
  · subst hrr
    obtain rfl := Option.some.inj h
    exact Lib.rotation_perm hnodup
  · exact orderBy64_perm hfree hrr h

/-- Only a weighted draw may not return. -/
theorem isSome_orderBy64_iff (r : Router) (strategy : Strategy) (rolls : ℕ → ℚ) (rts : List ℕ) :
    (r.orderBy64 strategy rolls rts).isSome = true ↔
      (strategy = .weightedElo → (r.eloTotal rts).isFinite = true) := by
  cases strategy with
  | weightedElo =>
      have helo := isSome_orderElo_iff r rolls rts
      exact ⟨fun h _ => helo.mp h, fun h => helo.mpr (h rfl)⟩
  | _ => exact iff_of_true rfl nofun

/-- Of nothing there is only the empty order. -/
theorem orderBy64_nil (r : Router) (strategy : Strategy) (rolls : ℕ → ℚ) :
    r.orderBy64 strategy rolls [] = some [] := by
  cases strategy <;> rfl

/-! ## The hybrid order

The order is stated as a relation, `RanksBefore`; it is what the comparison of the source means as long as the
negation does not wrap. -/

/-- Two machine integers in both orders are one. -/
theorem int32_le_antisymm {x y : Int32} (hxy : x ≤ y) (hyx : y ≤ x) : x = y := by
  rw [Int32.le_iff_toInt_le] at hxy hyx
  exact Int32.toInt_inj.mp (Int.le_antisymm hxy hyx)

/-- Negation keeps the smallest `i32`, and nothing else goes there. -/
theorem neg_eq_minValue {x : Int32} : -x = Int32.minValue ↔ x = Int32.minValue := by
  constructor
  · intro h
    rw [← @Int32.neg_neg x, h]
    rfl
  · rintro rfl
    rfl

theorem minValue_le (x : Int32) : Int32.minValue ≤ x := by
  rw [Int32.le_iff_toInt_le]
  exact Int32.minValue_le_toInt x

/-- Below the smallest `i32` there is only itself. -/
theorem le_minValue {x : Int32} (h : x ≤ Int32.minValue) : x = Int32.minValue :=
  int32_le_antisymm h (minValue_le x)

/-- Above the smallest `i32`, negation reverses the order. -/
theorem le_of_neg_le_neg {x y : Int32} (hx : x ≠ Int32.minValue) (h : -x ≤ -y) : y ≤ x := by
  by_cases hy : y = Int32.minValue
  · rw [hy]
    exact minValue_le x
  · have hneg : ∀ z : Int32, z ≠ Int32.minValue → (-z).toInt = -z.toInt := by
      intro z hz
      have hlo := Int32.le_toInt z
      have hhi := Int32.toInt_lt z
      have hne : z.toInt ≠ -2 ^ 31 := fun heq => hz (Int32.toInt_inj.mp heq)
      rw [Int32.toInt_neg]
      apply Int.bmod_eq_of_le
      all_goals omega
    rw [Int32.le_iff_toInt_le] at h ⊢
    rw [hneg x hx, hneg y hy] at h
    omega

/-- `Precedes`, between runtimes. -/
def RanksBefore (r : Router) (a b : ℕ) : Prop :=
  Precedes r.health (r.objs a).defn.name (r.objs b).defn.name

/-- Two measured runtimes: the faster one comes first. -/
theorem ranksBefore_measured {x y : ℚ} (ha : r.latencyOf a = some x) (hb : r.latencyOf b = some y) :
    r.RanksBefore a b ↔ x ≤ y := by
  unfold latencyOf at ha hb
  simp only [RanksBefore, Precedes, ha, hb]

/-- A measured runtime comes before an unmeasured one. -/
theorem ranksBefore_mixed {x : ℚ} (ha : r.latencyOf a = some x) (hb : r.latencyOf b = none) :
    r.RanksBefore a b := by
  unfold latencyOf at ha hb
  simp only [RanksBefore, Precedes, ha, hb]

/-- Two unmeasured runtimes: the higher ELO comes first. -/
theorem ranksBefore_unmeasured (ha : r.latencyOf a = none) (hb : r.latencyOf b = none) :
    r.RanksBefore a b ↔ r.elo32 b ≤ r.elo32 a := by
  unfold latencyOf at ha hb
  simp only [RanksBefore, Precedes, ha, hb]
  rfl

/-- The measured half is sorted by latency, whatever the ELOs. -/
theorem measured_pairwise (r : Router) (rts : List ℕ) :
    (((rts.filterMap fun a => (r.latencyOf a).map fun ms => (ms, a)).insertionSort
      fun x y => x.1 ≤ y.1).map (·.2)).Pairwise r.RanksBefore := by
  rw [List.pairwise_map]
  refine (Lib.pairwise_insertionSort_key (fun x : ℚ × ℕ => x.1) _).imp_of_mem ?_
  rintro ⟨x, a⟩ ⟨y, b⟩ ha hb hxy
  have hmeasured : ∀ x a, (x, a) ∈ (rts.filterMap fun a => (r.latencyOf a).map fun ms => (ms, a)) →
      r.latencyOf a = some x := by
    intro x a h
    obtain ⟨a', -, hmap⟩ := List.mem_filterMap.mp h
    obtain ⟨ms, hms, heq⟩ := Option.map_eq_some_iff.mp hmap
    cases heq
    exact hms
  rw [List.mem_insertionSort] at ha hb
  exact (ranksBefore_measured (hmeasured x a ha) (hmeasured y b hb)).mpr hxy

/-- **When the unmeasured half descends by ELO**: unless an ELO that is its own negation stands beside
a greater one, which it then precedes. -/
theorem unmeasured_pairwise_iff (r : Router) {unknown : List ℕ}
    (hnone : ∀ a ∈ unknown, r.latencyOf a = none) :
    (unknown.insertionSort fun a b => -r.elo32 a ≤ -r.elo32 b).Pairwise r.RanksBefore ↔
      ∀ a ∈ unknown, ∀ b ∈ unknown, r.elo32 a = Int32.minValue → r.elo32 b = Int32.minValue := by
  have hsorted := Lib.pairwise_insertionSort_key (fun a => -r.elo32 a) unknown
  have hmem : ∀ a, a ∈ (unknown.insertionSort fun a b => -r.elo32 a ≤ -r.elo32 b) ↔ a ∈ unknown :=
    fun a => List.mem_insertionSort _
  constructor
  · intro hranks a ha b hb hmin
    by_cases hab : a = b
    · exact hab ▸ hmin
    · rcases Lib.pairwise_or_pairwise hranks hsorted ((hmem a).mpr ha) ((hmem b).mpr hb) hab with
        ⟨hrank, -⟩ | ⟨-, hneg⟩
      · rw [ranksBefore_unmeasured (hnone a ha) (hnone b hb), hmin] at hrank
        exact le_minValue hrank
      · rw [hmin] at hneg
        exact neg_eq_minValue.mp (le_minValue hneg)
  · intro hmins
    refine hsorted.imp_of_mem ?_
    intro a b ha hb hab
    rw [hmem] at ha hb
    rw [ranksBefore_unmeasured (hnone a ha) (hnone b hb)]
    by_cases hmin : r.elo32 a = Int32.minValue
    · rw [hmin, hmins a ha b hb hmin]
      exact minValue_le _
    · exact le_of_neg_le_neg hmin hab

/-- **When the hybrid order is the one it should be.** -/
theorem orderHybrid32_pairwise_iff (r : Router) (rts : List ℕ) :
    (r.orderHybrid32 rts).Pairwise r.RanksBefore ↔
      ∀ a ∈ rts, ∀ b ∈ rts, r.latencyOf a = none → r.latencyOf b = none →
        r.elo32 a = Int32.minValue → r.elo32 b = Int32.minValue := by
  have hunknown : ∀ a, a ∈ rts.filter (fun a => (r.latencyOf a).isNone) ↔
      a ∈ rts ∧ r.latencyOf a = none := by
    intro a
    simp
  have hnone : ∀ a ∈ rts.filter (fun a => (r.latencyOf a).isNone), r.latencyOf a = none :=
    fun a ha => ((hunknown a).mp ha).2
  unfold orderHybrid32
  rw [List.pairwise_append, unmeasured_pairwise_iff r hnone]
  have hcross : ∀ a ∈ ((rts.filterMap fun a => (r.latencyOf a).map fun ms => (ms, a)).insertionSort
      fun x y => x.1 ≤ y.1).map (·.2), ∀ b ∈ (rts.filter fun a => (r.latencyOf a).isNone).insertionSort
        fun a b => -r.elo32 a ≤ -r.elo32 b, r.RanksBefore a b := by
    intro a ha b hb
    rw [List.mem_insertionSort] at hb
    obtain ⟨⟨x, a'⟩, hx, rfl⟩ := List.mem_map.mp ha
    rw [List.mem_insertionSort] at hx
    obtain ⟨c, -, hmap⟩ := List.mem_filterMap.mp hx
    obtain ⟨ms, hms, heq⟩ := Option.map_eq_some_iff.mp hmap
    cases heq
    exact ranksBefore_mixed hms (hnone b hb)
  constructor
  · rintro ⟨-, hmins, -⟩ a ha b hb hlat hlat'
    exact hmins a ((hunknown a).mpr ⟨ha, hlat⟩) b ((hunknown b).mpr ⟨hb, hlat'⟩)
  · intro hmins
    refine ⟨measured_pairwise r rts, ?_, hcross⟩
    intro a ha b hb
    obtain ⟨ha, hlat⟩ := (hunknown a).mp ha
    obtain ⟨hb, hlat'⟩ := (hunknown b).mp hb
    exact hmins a ha b hb hlat hlat'

/-! ## Where nothing wraps

With a counter below the wrap, an ELO other than the least and a finite total the machine computes what the integers
do. -/

/-- A comparison of negated ELOs, where negation is exact. -/
theorem neg_elo32_le (ha : -2 ^ 31 < r.eloOf a ∧ r.eloOf a < 2 ^ 31)
    (hb : -2 ^ 31 < r.eloOf b ∧ r.eloOf b < 2 ^ 31) :
    -r.elo32 a ≤ -r.elo32 b ↔ -r.eloOf a ≤ -r.eloOf b := by
  have hneg : ∀ e : ℤ, -2 ^ 31 < e ∧ e < 2 ^ 31 → (-Int32.ofInt e).toInt = -e := by
    intro e he
    rw [Int32.neg_ofInt, Int32.toInt_ofInt]
    show (-e).bmod (2 ^ 32) = -e
    apply Int.bmod_eq_of_le
    all_goals omega
  rw [Int32.le_iff_toInt_le, elo32, elo32, hneg _ ha, hneg _ hb]

/-- **Where the machine's order is the ideal one.** -/
theorem orderBy64_eq_orderBy (hrotation : r.roundRobin + rts.length ≤ 2 ^ 64)
    (helos : ∀ a ∈ rts, -2 ^ 31 < r.eloOf a ∧ r.eloOf a < 2 ^ 31) :
    r.orderBy64 strategy rolls rts = r.orderBy strategy rolls rts := by
  have hhybrid : r.orderHybrid32 rts = r.orderHybrid rts := by
    have hsort := List.map_insertionSort (fun a b => -r.elo32 a ≤ -r.elo32 b)
      (fun a b => -r.eloOf a ≤ -r.eloOf b) id (rts.filter fun a => (r.latencyOf a).isNone) ?_
    · simp only [List.map_id] at hsort
      unfold orderHybrid32 orderHybrid
      dsimp only
      rw [hsort]
    · intro a ha b hb
      exact neg_elo32_le (helos a (List.mem_filter.mp ha).1) (helos b (List.mem_filter.mp hb).1)
  cases strategy with
  | hybrid => exact congrArg some hhybrid
  | astRace => rfl
  | stickyAffinity => exact congrArg some hhybrid
  | weightedElo => rfl
  | leastLatency => rfl
  | roundRobin =>
      show some (r.orderRoundRobin64 rts) = some (r.orderRoundRobin rts)
      refine congrArg some (List.map_congr_left fun i hi => ?_)
      have hi := List.mem_range.mp hi
      rw [Nat.mod_eq_of_lt (by omega : r.roundRobin + i < 2 ^ 64)]
  | free => rfl
  | circuitChain => exact congrArg some hhybrid

/-- **The two readings of `select` agree** on every state whose counter is short of the wrap and whose
ELOs all have a negation. -/
theorem select64_eq_select
    (hrotation : r.roundRobin + (r.inScope env m).length ≤ 2 ^ 64)
    (helos : ∀ a ∈ r.inScope env m, -2 ^ 31 < r.eloOf a ∧ r.eloOf a < 2 ^ 31) :
    r.select64 env m session override nowUnix rolls =
      (r.select env m session override nowUnix rolls).2 := by
  unfold select64 select
  dsimp only
  rw [orderBy64_eq_orderBy hrotation helos]
  generalize (if r.strategyFor m override == Strategy.stickyAffinity then
    r.stickyPick env m session nowUnix else none) = sticky
  cases sticky with
  | some c => rfl
  | none =>
      dsimp only
      split
      · rfl
      · rfl

/-! ## The runtimes in scope

What is in scope has been filtered from the registry, so it is without repetition when the registry is. -/

/-- A runtime in scope is registered under its own name. -/
theorem registered_of_inScope (hwf : WF r) (ha : a ∈ r.inScope env m) :
    r.runtimes (r.objs a).defn.name = some a := by
  have hgated : a ∈ r.gated env := by
    unfold inScope at ha
    split at ha
    · exact ha
    · exact (List.mem_filter.mp ha).1
  obtain ⟨n, hn⟩ := registered_of_gated hgated
  rw [hwf.name n a hn]
  exact hn

/-- Runtimes in scope have different names. -/
theorem name_injOn_inScope (hwf : WF r) (ha : a ∈ r.inScope env m) (hb : b ∈ r.inScope env m)
    (hname : (r.objs a).defn.name = (r.objs b).defn.name) : a = b := by
  have hreg := registered_of_inScope hwf ha
  rw [hname, registered_of_inScope hwf hb] at hreg
  exact (Option.some.inj hreg).symm

theorem inScope_nodup (hwf : WF r) (horder : r.order.Nodup) : (r.inScope env m).Nodup := by
  have hgated : (r.gated env).Nodup := by
    refine (List.Nodup.filterMap ?_ horder).filter _
    intro n n' a hn hn'
    exact hwf.inj hn hn'
  unfold inScope
  split
  · exact hgated
  · exact hgated.filter _

theorem enabled_of_usable {d : ProviderDef} (h : d.usable env = true) : d.enabled = true := by
  by_contra hoff
  simp [ProviderDef.usable, hoff] at h

/-- **In scope means eligible.** -/
theorem eligible_iff (hfiled : Fleet.Filed r) (hm : m ≠ "free") (p : String) :
    r.Eligible env m p ↔ ∃ a ∈ r.inScope env m, (r.objs a).defn.name = p := by
  have hscope : ∀ a, a ∈ r.inScope env m ↔
      a ∈ r.gated env ∧ (r.objs a).defn.servesModel m = true := by
    intro a
    simp [inScope, hm]
  constructor
  · rintro ⟨a, hreg, -, husable, hhealthy, hbreaker, hserves⟩
    have hname : (r.objs a).defn.name = p := hfiled.wf.name p a hreg
    have hok : r.candidateOk env a = true := by
      simp [candidateOk, husable, hname, hhealthy, hbreaker]
    exact ⟨a, (hscope a).mpr ⟨(mem_gated hreg (hfiled.ordered p a hreg)).mpr hok, hserves⟩, hname⟩
  · rintro ⟨a, ha, rfl⟩
    have hreg := registered_of_inScope hfiled.wf ha
    obtain ⟨hgated, hserves⟩ := (hscope a).mp ha
    have hok := (mem_gated hreg (hfiled.ordered _ a hreg)).mp hgated
    simp only [candidateOk, Bool.and_eq_true, bne_iff_ne, ne_eq] at hok
    obtain ⟨⟨husable, hhealthy⟩, hbreaker⟩ := hok
    exact ⟨a, hreg, enabled_of_usable husable, husable, hhealthy, hbreaker, hserves⟩

/-- **What `select` returns**, off the sticky and the free strategy: the names of the ordered scope. -/
theorem select64_providers (hstrategy : r.strategyFor m override = strategy)
    (hsticky : strategy ≠ .stickyAffinity) :
    (r.select64 env m session override nowUnix rolls).map (·.map (·.provider)) =
      (r.orderBy64 strategy rolls (r.inScope env m)).map (·.map fun a => (r.objs a).defn.name) := by
  have hst : (strategy == Strategy.stickyAffinity) = false := by
    simpa using hsticky
  unfold select64
  simp only [hstrategy, hst, Bool.false_eq_true, if_false]
  split
  · rename_i hempty
    rw [List.isEmpty_iff.mp hempty, orderBy64_nil]
    rfl
  · cases r.orderBy64 strategy rolls (r.inScope env m) with
    | none => rfl
    | some ordered =>
        simp only [Option.map_some, List.map_map]
        rfl

/-- An order that returns is complete exactly when neither integer wraps. -/
theorem complete_iff (hfiled : Fleet.Filed r) (horder : r.order.Nodup) (hm : m ≠ "free")
    (hfree : strategy ≠ .free) (h : r.orderBy64 strategy rolls (r.inScope env m) = some ordered) :
    Complete env r m strategy (ordered.map fun a => (r.objs a).defn.name) ↔
      (strategy = .roundRobin → r.RotationFits env m) ∧
        (strategy = .hybrid → r.ElosNegate env m) := by
  have hscope : (r.inScope env m).Nodup := inScope_nodup hfiled.wf horder
  have hnodup := orderBy64_nodup_iff hfree hscope h
  have hhybrid : strategy = .hybrid →
      ((ordered.map fun a => (r.objs a).defn.name).Pairwise (Precedes r.health) ↔ r.ElosNegate env m) := by
    rintro rfl
    obtain rfl := Option.some.inj h
    rw [List.pairwise_map]
    exact orderHybrid32_pairwise_iff r (r.inScope env m)
  constructor
  · intro hcomplete
    refine ⟨hnodup.mp (hcomplete.once.of_map _), fun hs => ?_⟩
    exact (hhybrid hs).mp (hcomplete.ordered hs)
  · rintro ⟨hrotation, helos⟩
    have hperm := orderBy64_perm_of_nodup hfree h (hnodup.mpr hrotation)
    refine ⟨?_, fun p => ?_, fun hs => (hhybrid hs).mpr (helos hs)⟩
    · refine List.Nodup.map_on ?_ (hnodup.mpr hrotation)
      intro a ha b hb hname
      exact name_injOn_inScope hfiled.wf (hperm.subset ha) (hperm.subset hb) hname
    · rw [eligible_iff hfiled hm, List.mem_map]
      simp only [hperm.mem_iff]

/-- **A selection is complete exactly when neither integer wraps, and the draw can be made.** -/
theorem complete_select64_iff (hfiled : Fleet.Filed r) (horder : r.order.Nodup) (hm : m ≠ "free")
    (hstrategy : r.strategyFor m override = strategy) (hfree : strategy ≠ .free)
    (hsticky : strategy ≠ .stickyAffinity) :
    (∃ candidates ∈ r.select64 env m session override nowUnix rolls,
        Complete env r m strategy (candidates.map (·.provider))) ↔
      (strategy = .roundRobin → r.RotationFits env m) ∧
        (strategy = .hybrid → r.ElosNegate env m) ∧
          (strategy = .weightedElo → DrawFits env r m) := by
  have hproviders : (∃ candidates ∈ r.select64 env m session override nowUnix rolls,
      Complete env r m strategy (candidates.map (·.provider))) ↔
        ∃ providers ∈ (r.orderBy64 strategy rolls (r.inScope env m)).map (·.map fun a => (r.objs a).defn.name),
          Complete env r m strategy providers := by
    have hselect : (r.select64 env m session override nowUnix rolls).map (·.map (·.provider)) = _ :=
      select64_providers hstrategy hsticky
    rw [← hselect]
    simp
  rw [hproviders, DrawFits, ← isSome_orderBy64_iff r strategy rolls, ← and_assoc]
  cases horder' : r.orderBy64 strategy rolls (r.inScope env m) with
  | none => exact iff_of_false (by simp) (by simp)
  | some ordered =>
      simpa using complete_iff hfiled horder hm hfree horder'

end Router

namespace Fleet

open Lib (System)

variable {env : Env} {w w' : Fleet}

/-- The names a store enables are distinct, and no event but a rebuild moves them. -/
theorem order_nodup_of_reachable (h : (fleetSystem env).Reachable w) : w.router.order.Nodup := by
  refine h.invariant (I := fun w => w.router.order.Nodup) ?_ ?_
  · rintro s ⟨stored, rt, nowUnix, t, hvalid, rfl⟩
    exact Router.enabled_nodup (validate_nodup hvalid)
  · intro s e s' hs hstep
    rcases step_cases hstep with ⟨stored, t, -, -, hvalid, rfl⟩ | ⟨a, prefer, t, -, -, -, rfl⟩ |
      ⟨a, g, -, -, rfl⟩ | ⟨a, gen, lane, b, t, -, -, -, rfl⟩ | hq
    · exact Router.enabled_nodup (validate_nodup hvalid)
    · exact hs
    · exact hs
    · exact hs
    · rw [hq.same.order]
      exact hs

/-- **Whom a selection lists.** In every reachable router state, for every model but the directive,
every session and every outcome of the rolls, under each of the six strategies: `select` lists the
eligible providers, each once, in the hybrid order under that strategy, exactly when the round-robin
counter does not wrap to another residue, no ELO that is its own negation is compared, and the weights
have a sum to draw from, each under the strategy it is read by. -/
theorem select_complete_iff (w : Fleet) (hreach : (fleetSystem env).Reachable w)
    (m session : String) (hm : m ≠ "free") (override : Option Strategy) (strategy : Strategy)
    (hstrategy : w.router.strategyFor m override = strategy)
    (hsix : strategy ∈ [Strategy.hybrid, .astRace, .weightedElo, .leastLatency, .roundRobin,
      .circuitChain])
    (nowUnix : ℕ) (rolls : ℕ → ℚ) :
    (∃ candidates ∈ w.router.select64 env m session override nowUnix rolls,
        Router.Complete env w.router m strategy (candidates.map (·.provider))) ↔
      (strategy = .roundRobin → w.router.RotationFits env m) ∧
        (strategy = .hybrid → w.router.ElosNegate env m) ∧
          (strategy = .weightedElo → Router.DrawFits env w.router m) := by
  have hfree : strategy ≠ .free := by
    rintro rfl
    simp at hsix
  have hsticky : strategy ≠ .stickyAffinity := by
    rintro rfl
    simp at hsix
  exact Router.complete_select64_iff (filed_of_reachable hreach) (order_nodup_of_reachable hreach) hm hstrategy
    hfree hsticky

/-- A registry with two providers serving one model. -/
def twoStore : StoredConfig where
  providers := [{ name := "low", baseUrl := "https://a.example", keys := [{ key := "k" }],
                  models := ["m"] },
                { name := "high", baseUrl := "https://b.example", keys := [{ key := "k" }],
                  models := ["m"] }]

/-- The lowest ELO there is sorts before the default one. -/
def lowestFirst (w : Fleet) : Bool :=
  (w.router.select64 (fun _ => none) "m" "" (some .hybrid) 0 fun _ => 0).map (·.map (·.provider)) ==
      some ["low", "high"] &&
    w.router.health.latencyMs "low" == none && w.router.health.latencyMs "high" == none &&
      w.router.health.getElo "low" == -2 ^ 31 && w.router.health.getElo "high" == 1500

/-- **The hybrid order puts the lowest ELO first.** -/
theorem lowest_elo_first :
    ∃ w : Fleet, (fleetSystem fun _ => none).Reachable w ∧
      ¬ ∃ candidates ∈ w.router.select64 (fun _ => none) "m" "" (some .hybrid) 0 fun _ => 0,
        Router.Complete (fun _ => none) w.router "m" .hybrid (candidates.map (·.provider)) := by
  have hrun : (System.exec (step fun _ => none) (boot (fun _ => none) twoStore {} 0 0)
      [.setElo "low" (-2 ^ 31)]).any lowestFirst = true := by decide +kernel
  have hboot : (fleetSystem fun _ => none).init (boot (fun _ => none) twoStore {} 0 0) :=
    ⟨twoStore, {}, 0, 0, by decide +kernel, rfl⟩
  obtain ⟨w, hreach, hw⟩ := System.reachable_of_exec hboot hrun
  refine ⟨w, hreach, ?_⟩
  rintro ⟨candidates, hcandidates, hcomplete⟩
  simp only [lowestFirst, Bool.and_eq_true, beq_iff_eq] at hw
  obtain ⟨⟨⟨⟨hlist, hlow⟩, hhigh⟩, helow⟩, hehigh⟩ := hw
  have hproviders : candidates.map (·.provider) = ["low", "high"] := by
    rw [Option.mem_def.mp hcandidates] at hlist
    exact Option.some.inj hlist
  have hordered := hcomplete.ordered rfl
  rw [hproviders] at hordered
  have hprec := List.rel_of_pairwise_cons hordered (List.mem_singleton_self "high")
  simp only [Router.Precedes, hlow, hhigh, helow, hehigh] at hprec
  exact absurd hprec (by decide)

/-- At boot the counter stands at zero, and round-robin lists both providers once. -/
theorem select_complete_at_boot :
    ∃ w : Fleet, (fleetSystem fun _ => none).Reachable w ∧
      ((∃ candidates ∈ w.router.select64 (fun _ => none) "m" "" (some .roundRobin) 0 fun _ => 0,
          Router.Complete (fun _ => none) w.router "m" .roundRobin (candidates.map (·.provider))) ↔
        (Strategy.roundRobin = .roundRobin → w.router.RotationFits (fun _ => none) "m") ∧
          (Strategy.roundRobin = .hybrid → w.router.ElosNegate (fun _ => none) "m") ∧
            (Strategy.roundRobin = .weightedElo → Router.DrawFits (fun _ => none) w.router "m")) := by
  have hreach : (fleetSystem fun _ => none).Reachable (boot (fun _ => none) twoStore {} 0 0) :=
    ⟨_, [], ⟨twoStore, {}, 0, 0, by decide +kernel, rfl⟩, .nil _⟩
  exact ⟨_, hreach, select_complete_iff _ hreach "m" "" (by decide) (some .roundRobin) .roundRobin
    (by decide) (by decide) 0 _⟩

end Fleet

end Flock
