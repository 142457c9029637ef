/-
# Flock.Pool.Window — no key is spent beyond its budget, across every swap.

`Accounted k log` ties the current generation's lane of `k` to a log of stamps: inside the window the
lane remembers each of them (`Lib.Covers`).  Here the log is ALL unreleased grants of `k`, of every
generation; whoever counts more (grants of another pool) brings a longer log.  The relation is
one-sided on purpose.
A release that lands on a retired generation leaves the live lane remembering a slot that was given
back, which costs capacity and never safety; a front-pop removes expired stamps only, whatever the
order of the deque.
-/
import Flock.Pool.Generations

namespace Flock

open Lib (System Covers inWindow age)

namespace Serving

variable {s s' : Serving} {k : String}

/-- **`Accounted k log`** — inside the window, the current lane of `k` remembers every stamp of
`log`. -/
structure Accounted (k : String) (log : List ℤ) (s : Serving) : Prop extends Keyed k s where
  covers : ∀ (i : ℕ) (l : Lane), s.handle.pool.lanes[i]? = some l → l.key = k →
    Covers window s.now log l.sent

/-! ## The steps

The log is the caller's: what it has to say after an operation is stated with the operation. -/

variable {log log' : List ℤ}

/-- A fresh pool accounts for any log that has left the window. -/
theorem accounted_boot {specs : List LaneSpec} (h : Keeps k specs) {t : ℤ}
    (hlog : ∀ x ∈ log, window ≤ age t x) : Accounted k log (boot specs t) :=
  ⟨keyed_boot h t, fun _ _ _ _ => Covers.of_expired hlog _⟩

theorem Accounted.later (h : Accounted k log s) {t : ℤ} (hle : s.now ≤ t) :
    Accounted k log { s with now := t } :=
  ⟨⟨⟨h.built.shape, h.built.active, h.built.placed⟩, h.keeps⟩,
    fun i l hl hkey => (h.covers i l hl hkey).later hle⟩

/-- The order of the log does not matter. -/
theorem Accounted.perm (h : Accounted k log s) (hp : log'.Perm log) : Accounted k log' s :=
  ⟨h.toKeyed, fun i l hl hkey => (h.covers i l hl hkey).perm hp⟩

/-- The log may forget. -/
theorem Accounted.forget (h : Accounted k log s) (x : ℤ) : Accounted k (log.erase x) s :=
  ⟨h.toKeyed, fun i l hl hkey => (h.covers i l hl hkey).forget x⟩

/-- A touch keeps the cover: what leaves the deque has left the window. -/
theorem Accounted.touched (h : Accounted k log s) {t : ℤ} (hle : s.now ≤ t) {p : Pool}
    (ht : Pool.Touched t s.handle.pool p) {i : ℕ} {l : Lane} (hl : p.lanes[i]? = some l)
    (hkey : l.key = k) : Covers window t log l.sent := by
  obtain ⟨l₀, hl₀, rfl | rfl⟩ := ht.get hl
  · exact (h.covers i l hl₀ hkey).later hle
  · exact ((h.covers i l₀ hl₀ hkey).later hle).popExpired

/-- What a reservation adds to the log of `k`. -/
def stampOf (k : String) : Reservation → List ℤ
  | .ready _ key stamp _ => if key = k then [stamp] else []
  | .wait _ => []

/-- A grant of a reservation has its stamp. -/
theorem stampsOf_grants (k : String) (gen : ℕ) (r : Reservation) :
    stampsOf k (r.grants gen) = stampOf k r := by
  cases r with
  | ready lane key stamp sticky =>
      by_cases hk : key = k <;> simp [stampsOf, Lib.logOf, Reservation.grants, stampOf, hk]
  | wait d => rfl

/-- A reservation brings its stamp into the log. -/
theorem Accounted.reserve (h : Accounted k log s) {t : ℤ} (hle : s.now ≤ t)
    (prefer : Option ℕ) :
    Accounted k (log ++ stampOf k (s.reserve t prefer).2) (s.reserve t prefer).1 := by
  have hbuilt := h.built.reserve t prefer
  -- nothing was granted: time has passed, and old stamps may be gone
  rcases reserve_cases s t prefer with ⟨p, d, heq, ht⟩ | ⟨q, i, a, sticky, p, heq, hi, ht, hg⟩
  · rw [heq] at hbuilt ⊢
    rw [stampOf, List.append_nil]
    refine ⟨⟨hbuilt, h.keeps⟩, fun j l hl hkey => ?_⟩
    simp only [PoolHandle.pool_setGen, if_true] at hl
    exact h.touched hle ht hl hkey
  · rw [heq] at hbuilt ⊢
    refine ⟨⟨hbuilt, h.keeps⟩, fun j l hl hkey => ?_⟩
    simp only [PoolHandle.pool_setGen, if_true, hg.result, Pool.modifyLane_get,
      Option.map_eq_some_iff] at hl
    obtain ⟨l₀, hl₀, rfl⟩ := hl
    have hkey₀ : l₀.key = k := by
      split at hkey
      · exact hkey
      · exact hkey
    have hcov := h.touched hle ht hl₀ hkey₀
    obtain ⟨lq, hlq, hkeyq, -⟩ := hg.lane
    show Covers window t (log ++ if a = k then [t] else []) _
    by_cases hij : i = j
    · -- the granted lane itself: recorded on both sides
      subst hij
      obtain rfl : lq = l₀ := Option.some.inj (hlq.symm.trans hl₀)
      rw [if_pos rfl, if_pos (hkeyq.symm.trans hkey₀)]
      exact hcov.popExpired.record t
    · -- another lane has another key, so the grant is not one of `k`
      have hne : a ≠ k := by
        rintro rfl
        apply hij
        apply h.index_unique (a := a)
        · rw [Pool.laneKey_eq_shape, ← ht.shape, ← Pool.laneKey_eq_shape]
          simp [Pool.laneKey, hlq, hkeyq]
        · rw [Pool.laneKey_eq_shape, ← ht.shape, ← Pool.laneKey_eq_shape]
          simp [Pool.laneKey, hl₀, hkey₀]
      rw [if_neg hij, if_neg hne, List.append_nil]
      exact hcov

/-- A slot of `k` given back leaves the log; a slot of another key was not in it. -/
theorem Accounted.release (h : Accounted k log s) {g : Grant} (hmem : g ∈ s.live) :
    Accounted k (if g.key = k then log.erase g.stamp else log) (s.release g) := by
  refine ⟨⟨h.built.release g, h.keeps⟩, fun j l hl hkey => ?_⟩
  obtain ⟨-, hplaced⟩ := h.built.placed g hmem
  show Covers window s.now (if g.key = k then log.erase g.stamp else log) l.sent
  simp only [Serving.release, PoolHandle.pool_setGen] at hl
  by_cases hgen : s.handle.cur = g.gen
  · rw [if_pos hgen, ← hgen] at hl
    simp only [Pool.release, Pool.modifyLane_get, Option.map_eq_some_iff] at hl
    obtain ⟨l₀, hl₀, rfl⟩ := hl
    replace hl₀ : s.handle.pool.lanes[j]? = some l₀ := hl₀
    have hkey₀ : l₀.key = k := by
      split at hkey
      · exact hkey
      · exact hkey
    have hcov := h.covers j l₀ hl₀ hkey₀
    have hj : s.handle.pool.laneKey j = some k := by
      simp [Pool.laneKey, hl₀, hkey₀]
    rw [← hgen] at hplaced
    by_cases hg : g.key = k
    · -- the slot goes back to the lane that remembers it
      have hidx : g.lane = j := h.index_unique (hplaced.trans (by rw [hg])) hj
      rw [if_pos hidx, if_pos hg]
      exact hcov.takeBack g.stamp
    -- the slot is another key's, and so is its lane
    · have hidx : g.lane ≠ j := by
        rintro rfl
        exact hg (Option.some.inj (hplaced.symm.trans hj))
      rw [if_neg hidx, if_neg hg]
      exact hcov
  · -- a late release on a retired generation: the live lane keeps its stamp
    rw [if_neg hgen] at hl
    have hcov := h.covers j l hl hkey
    split
    · exact hcov.forget g.stamp
    · exact hcov

theorem Accounted.penalize (h : Accounted k log s) {t : ℤ} (hle : s.now ≤ t) (gen lane : ℕ)
    (b : ℕ) : Accounted k log (s.penalize gen lane b t) := by
  refine ⟨⟨h.built.penalize gen lane b t, h.keeps⟩, fun j l hl hkey => ?_⟩
  show Covers window t log l.sent
  simp only [Serving.penalize, PoolHandle.pool_setGen] at hl
  split at hl
  · rename_i hgen
    rw [← hgen] at hl
    simp only [Pool.penalize, Pool.modifyLane_get, Option.map_eq_some_iff] at hl
    obtain ⟨l₀, hl₀, rfl⟩ := hl
    split at hkey
    · rw [if_pos ‹_›]
      exact (h.covers j l₀ hl₀ hkey).later hle
    · rw [if_neg ‹_›]
      exact (h.covers j l₀ hl₀ hkey).later hle
  · exact (h.covers j l hl hkey).later hle

/-- A swap carries the stamps of a key over to its new lane. -/
theorem Accounted.swap (h : Accounted k log s) {t : ℤ} (hle : s.now ≤ t)
    {specs : List LaneSpec} (hspecs : Keeps k specs) : Accounted k log (s.swap specs t) := by
  refine ⟨⟨h.built.swap specs t, hspecs⟩, fun i l hl hkey => ?_⟩
  obtain ⟨j, prev, hprev, hpk, hsent, -⟩ := swap_carries h.known hl hkey
  rw [hsent]
  exact (h.covers j prev hprev hpk).later hle

/-! ## One handle: the log is its own unreleased grants

For one handle nothing has to be brought in from outside: every stamp a lane remembers was granted by it. -/

theorem reserve_stamps (s : Serving) (t : ℤ) (prefer : Option ℕ) :
    stampsOf k (s.reserve t prefer).1.live =
      stampsOf k s.live ++ stampOf k (s.reserve t prefer).2 := by
  show stampsOf k (s.live ++ (s.handle.pool.reserve t prefer).2.grants s.handle.cur) = _
  rw [stampsOf, Lib.logOf_append]
  exact congrArg (stampsOf k s.live ++ ·) (stampsOf_grants k s.handle.cur _)

theorem release_stamps {g : Grant} (hmem : g ∈ s.live) :
    (stampsOf k (s.release g).live).Perm
      (if g.key = k then (stampsOf k s.live).erase g.stamp else stampsOf k s.live) := by
  show (stampsOf k (s.live.erase g)).Perm _
  split
  · rename_i hg
    exact Lib.logOf_erase_perm hmem (by simpa using hg)
  · rename_i hg
    rw [stampsOf, Lib.logOf_erase_of_neg (by simpa using hg)]
    rfl

/-- **One step keeps the account**, as long as a swap keeps the key. -/
theorem Accounted.step (h : Accounted k (stampsOf k s.live) s) {e : PoolEvent}
    (hstep : s.step e = some s') (hkeep : ∀ specs t, e = .swap specs t → Keeps k specs) :
    Accounted k (stampsOf k s'.live) s' := by
  rcases step_cases hstep with ⟨prefer, t, rfl, hle, rfl⟩ | ⟨g, rfl, hmem, rfl⟩ |
    ⟨gen, lane, b, t, rfl, hle, -, rfl⟩ | ⟨specs, t, rfl, hle, rfl⟩
  · rw [reserve_stamps]
    exact h.reserve hle prefer
  · exact (h.release hmem).perm (release_stamps hmem)
  · exact h.penalize hle gen lane b
  · exact h.swap hle (hkeep specs t rfl)

/-- A whole run keeps the account. -/
theorem Accounted.run {es : List PoolEvent} (hrun : poolSystem.Run s es s')
    (h : Accounted k (stampsOf k s.live) s)
    (hkeep : ∀ specs t, PoolEvent.swap specs t ∈ es → Keeps k specs) :
    Accounted k (stampsOf k s'.live) s' :=
  run_of_keeping (I := fun s => Accounted k (stampsOf k s.live) s) hrun (fun h hstep => h.step hstep) hkeep h

/-! ## The budget

A lane grants only where its window has room, and what the log has in the window the lane remembers. -/

/-- The unreleased grants of `k` with a stamp in `(t - 61 s, t]`, over all generations. -/
def unreleasedWithin (k : String) (t : ℤ) (live : List Grant) : List Grant :=
  live.filter fun g => g.key == k && decide (t - window < g.stamp ∧ g.stamp ≤ t)

/-- A granted lane is built from the enabled spec of its key. -/
theorem Built.granted_spec (h : Built s) {i : ℕ} (hi : i < s.handle.pool.active) {l : Lane}
    (hl : (l.key, l.rpm) ∈ s.handle.pool.shape[i]?) :
    ∃ spec ∈ s.specs, spec.key = l.key ∧ spec.rpm = l.rpm ∧ spec.enabled = true := by
  rw [h.shape, List.getElem?_map, Option.mem_def, Option.map_eq_some_iff] at hl
  obtain ⟨spec, hspec, heq⟩ := hl
  obtain ⟨hkey, hrpm⟩ := Prod.mk.inj heq
  refine ⟨spec, (Pool.enabledFirst_perm s.specs).mem_iff.mp (List.mem_of_getElem? hspec), hkey,
    hrpm, ?_⟩
  rw [Pool.enabledFirst_enabled hspec, ← h.active]
  exact decide_eq_true hi

/-- One grant: it is of an enabled spec, and after it the lane remembers at most a budget of
sends. -/
theorem Built.granted (h : Built s) {t : ℤ} {prefer : Option ℕ} {lane : ℕ} {key : String}
    {stamp : ℤ} {sticky : Bool}
    (hgrant : s.reserve t prefer = (s', .ready lane key stamp sticky)) :
    ∃ spec ∈ s.specs, spec.key = key ∧ spec.enabled = true ∧
      ∃ l, s'.handle.pool.lanes[lane]? = some l ∧ l.key = key ∧ l.sent.length ≤ spec.rpm := by
  rcases reserve_cases s t prefer with ⟨p, d, heq, -⟩ | ⟨q, i, a, st, p, heq, hi, ht, hg⟩
  · rw [heq] at hgrant
    cases hgrant
  · rw [heq] at hgrant
    cases hgrant
    obtain ⟨l, hl, hkey, -, hroom⟩ := hg.lane
    have hshape : (l.key, l.rpm) ∈ s.handle.pool.shape[lane]? := by
      rw [← ht.shape]
      simp [Pool.shape, hl]
    obtain ⟨spec, hmem, hsk, hsr, hen⟩ := h.granted_spec hi hshape
    refine ⟨spec, hmem, hsk.trans hkey, hen, (l.expire t).push t, ?_, hkey, ?_⟩
    · simp [PoolHandle.pool_setGen, hg.result, hl]
    · simpa [Lane.push, hsr] using Nat.succ_le_of_lt hroom

/-- With the account kept, what the log has in the window is within the budget, the new grant
included. -/
theorem Accounted.granted_bound (h : Accounted k log s) {t : ℤ} (hle : s.now ≤ t)
    {prefer : Option ℕ} {lane : ℕ} {stamp : ℤ} {sticky : Bool}
    (hgrant : s.reserve t prefer = (s', .ready lane k stamp sticky)) :
    ∃ spec ∈ s.specs, spec.key = k ∧ (inWindow window t (log ++ [stamp])).length ≤ spec.rpm := by
  obtain ⟨spec, hmem, hkey, -, l, hl, hlk, hlen⟩ := h.built.granted hgrant
  have hacc : Accounted k (log ++ [stamp]) s' := by
    have := h.reserve hle prefer
    rw [hgrant] at this
    simpa [stampOf] using this
  have hnow : s'.now = t := by
    have : (s.reserve t prefer).1.now = t := rfl
    rwa [hgrant] at this
  refine ⟨spec, hmem, hkey, ?_⟩
  calc (inWindow window t (log ++ [stamp])).length
      ≤ l.sent.length := (hnow ▸ hacc.covers lane l hl hlk).bound
    _ ≤ spec.rpm := hlen

/-- The spec of a key, where keys are distinct. -/
theorem spec_unique {specs : List LaneSpec} (h : (specs.map (·.key)).Nodup) {a b : LaneSpec}
    (ha : a ∈ specs) (hb : b ∈ specs) (hkey : a.key = b.key) : a = b :=
  List.inj_on_of_nodup_map h ha hb hkey

/-- **Sliding-window safety across generations.** In every run of one handle whose spec lists have
distinct keys and all keep `k`, a grant at `t` is of a key whose spec is enabled, and when the key is
`k`, at most its current budget of unreleased grants of `k`, of all generations, lie in
`(t - 61 s, t]`, the new one included. -/
theorem reserve_within_budget (k : String) (specs₀ : List LaneSpec) (t₀ : ℤ)
    (es : List PoolEvent) (s s' : Serving) (h₀ : Keeps k specs₀)
    (hswaps : ∀ specs t, PoolEvent.swap specs t ∈ es → Keeps k specs)
    (hrun : poolSystem.Run (boot specs₀ t₀) es s) (t : ℤ) (hle : s.now ≤ t)
    (prefer : Option ℕ) (lane : ℕ) (key : String) (stamp : ℤ) (sticky : Bool)
    (hgrant : s.reserve t prefer = (s', .ready lane key stamp sticky)) :
    (∃ spec ∈ s.specs, spec.key = key) ∧
    ∀ spec ∈ s.specs, spec.key = key →
      spec.enabled = true ∧ (key = k → (unreleasedWithin k t s'.live).length ≤ spec.rpm) := by
  have hacc : Accounted k (stampsOf k s.live) s :=
    Accounted.run hrun (accounted_boot h₀ (by simp [stampsOf, Lib.logOf, boot])) hswaps
  obtain ⟨spec, hmem, hkey, hen, -⟩ := hacc.built.granted hgrant
  refine ⟨⟨spec, hmem, hkey⟩, fun spec' hmem' hkey' => ?_⟩
  obtain rfl : spec' = spec :=
    spec_unique hacc.keeps.nodup hmem' hmem (hkey'.trans hkey.symm)
  refine ⟨hen, ?_⟩
  rintro rfl
  obtain ⟨spec₂, hmem₂, hkey₂, hbound⟩ := hacc.granted_bound hle hgrant
  obtain rfl : spec₂ = spec' :=
    spec_unique hacc.keeps.nodup hmem₂ hmem (hkey₂.trans hkey.symm)
  have hlog : stampsOf key s'.live = stampsOf key s.live ++ [stamp] := by
    have := reserve_stamps (k := key) s t prefer
    rw [hgrant] at this
    simpa [stampOf] using this
  refine Nat.le_trans (Lib.length_filter_le_inWindow window t _ (·.stamp) s'.live) ?_
  show (inWindow window t (stampsOf key s'.live)).length ≤ _
  rw [hlog]
  exact hbound

/-- A lowered budget after a swap, with a grant of the earlier generation still in the window. -/
theorem reserve_within_budget_after_swap :
    ∃ s s' : Serving,
      poolSystem.Run (boot [⟨"a", 9, true⟩] 0)
        [.reserve none 0, .swap [⟨"b", 7, false⟩, ⟨"a", 2, true⟩] 1] s ∧
      s.reserve 5 none = (s', .ready 0 "a" 5 false) ∧
      (unreleasedWithin "a" 5 s'.live).length = 2 ∧
      ∀ spec ∈ s.specs, spec.key = "a" →
        spec.enabled = true ∧ ("a" = "a" → (unreleasedWithin "a" 5 s'.live).length ≤ spec.rpm) := by
  have hrun : poolSystem.Run (boot [⟨"a", 9, true⟩] 0)
      [.reserve none 0, .swap [⟨"b", 7, false⟩, ⟨"a", 2, true⟩] 1]
      (((boot [⟨"a", 9, true⟩] 0).reserve 0 none).1.swap [⟨"b", 7, false⟩, ⟨"a", 2, true⟩] 1) :=
    System.run_of_exec rfl
  refine ⟨_, _, hrun, Prod.ext rfl (by decide), by decide, ?_⟩
  refine (reserve_within_budget "a" _ 0 _ _ _ (by decide) ?_ hrun 5 (by decide) none 0 "a" 5 false
    (Prod.ext rfl (by decide))).2
  intro specs t hmem
  simp only [List.mem_cons, reduceCtorEq, PoolEvent.swap.injEq, List.not_mem_nil, or_false,
    false_or] at hmem
  obtain ⟨rfl, -⟩ := hmem
  decide

end Serving

end Flock
