/-
# Flock.History.Telescope — the deltas of a counter add up to where it got to.

A sample is indexed as the differences to the sample before, or as it is where another boot begins.  As long as the
counters of a boot do not go down and none goes away, no reset is inferred, and the deltas of a boot telescope to its
last sample.

Values are exact rationals.
-/
import Mathlib.Data.List.Chain
import Mathlib.Tactic.Linarith
import Flock.History.Index
import Flock.History.Series

namespace Flock.History

open Std (ExtTreeMap)

/-! ## One sample after another -/

/-- **`Grows m m'`** — every series of `m` is in `m'`, with a value no smaller. -/
def Grows (m m' : SeriesMap ℚ) : Prop :=
  ∀ (key : MetricKey) (value : ℚ), m[key]? = some value → ∃ value', m'[key]? = some value' ∧ value ≤ value'

/-- No value is negative. -/
def Nonneg (m : SeriesMap ℚ) : Prop := ∀ (key : MetricKey) (value : ℚ), m[key]? = some value → 0 ≤ value

variable {previous current : ParsedSnapshot ℚ} {key : MetricKey}

/-- Where the counters grow, no reset is inferred. -/
theorem wentDown_of_grows (h : Grows previous.counters current.counters) : wentDown previous current = false := by
  unfold wentDown
  rw [Lib.any_eq_any_toList, List.any_eq_false]
  rintro ⟨key, value⟩ hmem
  have hvalue := ExtTreeMap.mem_toList_iff_getElem?_eq_some.mp hmem
  dsimp only
  cases hbefore : previous.counters[key]? with
  | none => exact Bool.false_ne_true
  | some before =>
      obtain ⟨value', hvalue', hle⟩ := h key before hbefore
      obtain rfl : value' = value := Option.some.inj (hvalue'.symm.trans hvalue)
      show ¬ decide (value' - before < -(1 / 2 ^ 52)) = true
      rw [decide_eq_true_eq, not_lt]
      have hepsilon : (0 : ℚ) < 1 / 2 ^ 52 := by positivity
      linarith

/-- The deltas of a sample, where no reset is inferred. -/
theorem getElem?_deltas {before : Option (ParsedSnapshot ℚ)} (h : before.any (wentDown · current) = false) :
    (normalize before current false).deltas[key]? = current.counters[key]?.map (counterDelta before key) := by
  show (current.counters.map fun key value =>
    if false || (!false && before.any (wentDown · current)) then value else counterDelta before key value)[key]? = _
  rw [h, ExtTreeMap.getElem?_map]
  rfl

/-- The difference to a counter that was there and is no larger. -/
theorem counterDelta_of_le {before value : ℚ} (hbefore : previous.counters[key]? = some before) (hle : before ≤ value) :
    counterDelta (some previous) key value = value - before := by
  unfold counterDelta
  rw [Option.bind_some, hbefore]
  have hnot : F64.lt (F64.sub value before) F64.zero = false := decide_eq_false (not_lt.mpr (sub_nonneg.mpr hle))
  dsimp only
  rw [hnot, Bool.and_false]
  rfl

/-- A counter that was not there counts from zero. -/
theorem counterDelta_of_none {value : ℚ} (hbefore : previous.counters[key]? = none) :
    counterDelta (some previous) key value = value := by
  unfold counterDelta
  rw [Option.bind_some, hbefore]

/-- **One step**: where the counters grow, each delta is the difference of the two samples, and not negative. -/
theorem deltas_of_grows (h : Grows previous.counters current.counters) (hnonneg : Nonneg current.counters) :
    Nonneg (normalize (some previous) current false).deltas ∧
      ∀ key, seriesValue key (normalize (some previous) current false).deltas =
        seriesValue key current.counters - seriesValue key previous.counters := by
  have hreset : (some previous).any (wentDown · current) = false := wentDown_of_grows h
  refine ⟨fun key value hvalue => ?_, fun key => ?_⟩
  · rw [getElem?_deltas hreset] at hvalue
    obtain ⟨now, hnow, rfl⟩ := Option.map_eq_some_iff.mp hvalue
    cases hbefore : previous.counters[key]? with
    | none =>
        rw [counterDelta_of_none hbefore]
        exact hnonneg key now hnow
    | some before =>
        obtain ⟨now', hnow', hle⟩ := h key before hbefore
        obtain rfl : now' = now := Option.some.inj (hnow'.symm.trans hnow)
        rw [counterDelta_of_le hbefore hle]
        linarith
  · unfold seriesValue
    simp only [ExtTreeMap.getD_eq_getD_getElem?]
    rw [getElem?_deltas hreset]
    cases hbefore : previous.counters[key]? with
    | none =>
        cases current.counters[key]? with
        | none => exact (sub_zero 0).symm
        | some now =>
            rw [Option.map_some, counterDelta_of_none hbefore]
            exact (sub_zero now).symm
    | some before =>
        obtain ⟨now, hnow, hle⟩ := h key before hbefore
        rw [hnow, Option.map_some, counterDelta_of_le hbefore hle]
        rfl

/-- The first sample of a boot is indexed as it is. -/
theorem deltas_of_first (current : ParsedSnapshot ℚ) : (normalize none current false).deltas = current.counters := by
  apply ExtTreeMap.ext_getElem?
  intro key
  rw [getElem?_deltas rfl]
  cases current.counters[key]? with
  | none => rfl
  | some value => rfl

/-! ## A boot -/

/-- The value of a series in an observation. -/
def Observation.counter (key : MetricKey) (o : Observation ℚ) : ℚ := seriesValue key o.current.counters

/-- The sum of a series over some points. -/
def deltaSum (key : MetricKey) (points : List (IndexedPoint ℚ)) : ℚ :=
  (points.map fun point => seriesValue key point.deltas).sum

theorem deltaSum_append (key : MetricKey) (xs ys : List (IndexedPoint ℚ)) :
    deltaSum key (xs ++ ys) = deltaSum key xs + deltaSum key ys := by
  unfold deltaSum
  rw [List.map_append, List.sum_append]

theorem pointsAfter_cons (previous : Option (Observation ℚ)) (o : Observation ℚ) (rest : List (Observation ℚ)) :
    pointsAfter none previous (o :: rest) = o.point previous :: pointsAfter none (some o) rest := rfl

/-- Samples of the boot of `p`, after `p`: the deltas are what was added since. -/
theorem pointsAfter_same_boot {p : Observation ℚ} {rest : List (Observation ℚ)}
    (hboot : ∀ o ∈ rest, o.bootId = p.bootId)
    (hgrows : (p :: rest).IsChain fun o o' => Grows o.current.counters o'.current.counters)
    (hnonneg : ∀ o ∈ rest, Nonneg o.current.counters) :
    (∀ point ∈ pointsAfter none (some p) rest, Nonneg point.deltas) ∧ ∀ key,
      deltaSum key (pointsAfter none (some p) rest) = (rest.getLast?.getD p).counter key - p.counter key := by
  induction rest generalizing p with
  | nil => exact ⟨fun point hpoint => absurd hpoint List.not_mem_nil, fun key => (sub_self _).symm⟩
  | cons o rest ih =>
      have hid := hboot o List.mem_cons_self
      obtain ⟨hstep, hchain⟩ := List.isChain_cons_cons.mp hgrows
      obtain ⟨hpoints, hsum⟩ := ih (fun o' ho' => (hboot o' (List.mem_cons_of_mem o ho')).trans hid.symm) hchain
        fun o' ho' => hnonneg o' (List.mem_cons_of_mem o ho')
      let before : ParsedSnapshot ℚ := { counters := p.current.counters }
      have hdeltas : (o.point (some p)).deltas = (normalize (some before) o.current false).deltas := by
        rw [Observation.point_eq, basis_of_eq hid.symm]
        rfl
      have hbefore : Grows before.counters o.current.counters := hstep
      obtain ⟨hfirst, hvalue⟩ := deltas_of_grows hbefore (hnonneg o List.mem_cons_self)
      rw [← hdeltas] at hfirst hvalue
      rw [pointsAfter_cons]
      refine ⟨?_, fun key => ?_⟩
      · intro point hpoint
        rcases List.mem_cons.mp hpoint with rfl | hpoint
        · exact hfirst
        · exact hpoints point hpoint
      · show seriesValue key (o.point (some p)).deltas + deltaSum key (pointsAfter none (some o) rest) = _
        rw [hsum key, hvalue key, List.getLast?_cons]
        show o.counter key - p.counter key + ((rest.getLast?.getD o).counter key - o.counter key) = _
        rw [Option.getD_some]
        linarith

/-- What is sampled: a time, the capacity and the exposition. -/
abbrev Sampled := U64 × Capacity × ParsedSnapshot ℚ

/-- A boot, and what was sampled while it ran: at least once. -/
structure BootSamples where
  bootId : String
  first : Sampled
  rest : List Sampled

namespace BootSamples

def samples (b : BootSamples) : List Sampled := b.first :: b.rest

/-- A sample, as it is indexed. -/
def observe (b : BootSamples) (s : Sampled) : Observation ℚ := ⟨s.1, b.bootId, s.2.1, s.2.2⟩

def observations (b : BootSamples) : List (Observation ℚ) := b.samples.map b.observe

/-- The last value of a series in the boot. -/
def last (key : MetricKey) (b : BootSamples) : ℚ := seriesValue key (b.rest.getLast?.getD b.first).2.2.counters

/-- **`Steady`** — no counter is negative, goes down, or goes away while the boot runs. -/
structure Steady (b : BootSamples) : Prop where
  nonneg : ∀ s ∈ b.samples, Nonneg s.2.2.counters
  grows : b.samples.IsChain fun s s' => Grows s.2.2.counters s'.2.2.counters

theorem getLast?_observations (b : BootSamples) :
    b.observations.getLast? = some (b.observe (b.rest.getLast?.getD b.first)) := by
  unfold observations samples
  rw [List.getLast?_map, List.getLast?_cons]
  rfl

/-- **A boot telescopes** to its last sample, whatever another boot left before. -/
theorem Steady.pointsAfter {b : BootSamples} (h : b.Steady) {previous : Option (Observation ℚ)}
    (hbasis : basis b.bootId previous = none) :
    (∀ point ∈ pointsAfter none previous b.observations, Nonneg point.deltas) ∧
      ∀ key, deltaSum key (History.pointsAfter none previous b.observations) = b.last key := by
  have hgrows : (b.samples.map b.observe).IsChain fun o o' => Grows o.current.counters o'.current.counters :=
    (List.isChain_map b.observe).mpr h.grows
  have hnonneg : ∀ o ∈ b.rest.map b.observe, Nonneg o.current.counters := by
    intro o ho
    obtain ⟨s, hs, rfl⟩ := List.mem_map.mp ho
    exact h.nonneg s (List.mem_cons_of_mem b.first hs)
  have hboot : ∀ o ∈ b.rest.map b.observe, o.bootId = (b.observe b.first).bootId := by
    intro o ho
    obtain ⟨s, -, rfl⟩ := List.mem_map.mp ho
    rfl
  -- within the boot the differences telescope
  obtain ⟨hpoints, hsum⟩ := pointsAfter_same_boot hboot hgrows hnonneg
  -- and the first point has the whole value, as there is nothing to compare with
  have hfirst : ((b.observe b.first).point previous).deltas = b.first.2.2.counters := by
    have hnone : basis (b.observe b.first).bootId previous = none := hbasis
    rw [Observation.point_eq, hnone]
    exact deltas_of_first b.first.2.2
  show (∀ point ∈ History.pointsAfter none previous (b.observe b.first :: b.rest.map b.observe), _) ∧ _
  rw [pointsAfter_cons]
  refine ⟨?_, fun key => ?_⟩
  · intro point hpoint
    rcases List.mem_cons.mp hpoint with rfl | hpoint
    · rw [hfirst]
      exact h.nonneg b.first List.mem_cons_self
    · exact hpoints point hpoint
  · show seriesValue key ((b.observe b.first).point previous).deltas +
      deltaSum key (History.pointsAfter none (some (b.observe b.first)) (b.rest.map b.observe)) = _
    have hlast : ((b.rest.map b.observe).getLast?.getD (b.observe b.first)).counter key = b.last key := by
      unfold last
      rw [List.getLast?_map]
      cases b.rest.getLast? <;> rfl
    have hstart : (b.observe b.first).counter key = seriesValue key b.first.2.2.counters := rfl
    rw [hfirst, hsum key, hlast, hstart]
    linarith

end BootSamples

/-! ## All boots -/

/-- What the samples of some boots leave in an empty index. -/
def indexOf (cutoff : Option U64) (boots : List BootSamples) : HistoryInner ℚ :=
  (boots.flatMap BootSamples.observations).foldl (ingestCanonicalSample cutoff) {}

theorem points_indexOf (cutoff : Option U64) (boots : List BootSamples) :
    (indexOf cutoff boots).points = pointsAfter cutoff none (boots.flatMap BootSamples.observations) := by
  have hempty : ({} : HistoryInner ℚ).After none := ⟨rfl, rfl⟩
  exact hempty.foldl_ingest.2

/-- A cutoff hides points; it changes none. -/
theorem pointsAfter_cutoff (cutoff : U64) (os : List (Observation ℚ)) (previous : Option (Observation ℚ)) :
    pointsAfter (some cutoff) previous os = (pointsAfter none previous os).filter fun point => cutoff ≤ point.t := by
  induction os generalizing previous with
  | nil => rfl
  | cons o rest ih =>
      have htime : (o.point previous).t = o.timestamp := rfl
      rw [pointsAfter_cons, pointsAfter, ih, List.filter_cons, htime, Option.all_some]
      split <;> rfl

/-- The boots one after another, from any sample of another boot on. -/
theorem pointsAfter_boots {boots : List BootSamples} (hids : boots.IsChain fun b b' => b.bootId ≠ b'.bootId)
    (hsteady : ∀ b ∈ boots, b.Steady) {previous : Option (Observation ℚ)}
    (hbasis : ∀ b ∈ boots.head?, basis b.bootId previous = none) :
    (∀ point ∈ pointsAfter none previous (boots.flatMap BootSamples.observations), Nonneg point.deltas) ∧ ∀ key,
      deltaSum key (pointsAfter none previous (boots.flatMap BootSamples.observations)) =
        (boots.map (BootSamples.last key)).sum := by
  induction boots generalizing previous with
  | nil => exact ⟨fun point hpoint => absurd hpoint List.not_mem_nil, fun key => rfl⟩
  | cons b boots ih =>
      obtain ⟨hnext, hids⟩ := List.isChain_cons.mp hids
      obtain ⟨hpoints, hsum⟩ := (hsteady b List.mem_cons_self).pointsAfter (hbasis b rfl)
      -- the next boot has another id than the last sample
      obtain ⟨hpoints', hsum'⟩ := ih hids (fun b' hb' => hsteady b' (List.mem_cons_of_mem b hb')) fun b' hb' =>
        basis_of_ne (p := b.observe (b.rest.getLast?.getD b.first)) (hnext b' hb')
      rw [List.flatMap_cons, pointsAfter_append, b.getLast?_observations, Option.some_or]
      refine ⟨?_, fun key => ?_⟩
      · intro point hpoint
        rcases List.mem_append.mp hpoint with hpoint | hpoint
        · exact hpoints point hpoint
        · exact hpoints' point hpoint
      · rw [deltaSum_append, hsum key, hsum' key, List.map_cons, List.sum_cons]

/-- **Counter normalisation telescopes.**  For samples of any number of boots, one after another, with no counter
negative, going down or going away within a boot: no delta is negative, the deltas of a series add up to the sum over
the boots of its last value, and a cutoff only hides points. -/
theorem normalisation_telescopes {boots : List BootSamples} (hids : boots.IsChain fun b b' => b.bootId ≠ b'.bootId)
    (hsteady : ∀ b ∈ boots, b.Steady) :
    (∀ point ∈ (indexOf none boots).points, Nonneg point.deltas) ∧
      (∀ key, deltaSum key (indexOf none boots).points = (boots.map (BootSamples.last key)).sum) ∧
      ∀ cutoff, (indexOf (some cutoff) boots).points =
        (indexOf none boots).points.filter fun point => cutoff ≤ point.t := by
  have hbasis : ∀ b ∈ boots.head?, basis b.bootId (none : Option (Observation ℚ)) = none := fun b _ => rfl
  obtain ⟨hpoints, hsum⟩ := pointsAfter_boots hids hsteady hbasis
  rw [points_indexOf]
  refine ⟨hpoints, hsum, fun cutoff => ?_⟩
  rw [points_indexOf]
  exact pointsAfter_cutoff cutoff _ none

/-! ## Two boots -/

/-- One counter. -/
def requests (value : ℚ) : SeriesMap ℚ := (∅ : SeriesMap ℚ).insert ⟨"flock_requests_total", ∅⟩ value

theorem getElem?_requests {value value' : ℚ} (h : (requests value)[key]? = some value') : value = value' ∧
    ∀ other : ℚ, (requests other)[key]? = some other := by
  unfold requests at h ⊢
  rw [ExtTreeMap.getElem?_insert] at h
  split at h
  · rename_i heq
    refine ⟨Option.some.inj h, fun other => ?_⟩
    rw [ExtTreeMap.getElem?_insert, if_pos heq]
  · cases h

/-- Three requests, then five in all; and two after a restart. -/
def twoBoots : List BootSamples :=
  [⟨"a", (10, ⟨40, 1, [40]⟩, { counters := requests 3 }), [(20, ⟨40, 1, [40]⟩, { counters := requests 5 })]⟩,
    ⟨"b", (30, ⟨40, 1, [40]⟩, { counters := requests 2 }), []⟩]

theorem nonneg_requests {value : ℚ} (h : 0 ≤ value) : Nonneg (requests value) := by
  intro key value' hvalue
  obtain ⟨rfl, -⟩ := getElem?_requests hvalue
  exact h

theorem grows_requests {value other : ℚ} (h : value ≤ other) : Grows (requests value) (requests other) := by
  intro key value' hvalue
  obtain ⟨rfl, hother⟩ := getElem?_requests hvalue
  exact ⟨other, hother other, h⟩

theorem steady_twoBoots : ∀ b ∈ twoBoots, b.Steady := by
  intro b hb
  simp only [twoBoots, List.mem_cons, List.not_mem_nil, or_false] at hb
  rcases hb with rfl | rfl
  · refine ⟨?_, .cons_cons (grows_requests (by norm_num)) (.singleton _)⟩
    intro s hs
    simp only [BootSamples.samples, List.mem_cons, List.not_mem_nil, or_false] at hs
    rcases hs with rfl | rfl
    · exact nonneg_requests (by norm_num)
    · exact nonneg_requests (by norm_num)
  · refine ⟨?_, .singleton _⟩
    intro s hs
    rw [List.mem_singleton.mp hs]
    exact nonneg_requests (by norm_num)

/-- Seven requests. -/
theorem normalisation_telescopes_two : deltaSum ⟨"flock_requests_total", ∅⟩ (indexOf none twoBoots).points = 7 :=
  ((normalisation_telescopes (by decide) steady_twoBoots).2.1 _).trans (by decide +kernel)

end Flock.History
