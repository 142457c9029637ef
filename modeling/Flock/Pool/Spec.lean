/-
# Flock.Pool.Spec — what one pool operation can do.

`reserve` is a scan, a sort and a loop of attempts; every invariant of the pool would have to walk
through all three.  They are walked through here once.  The outcome is `reserve_cases`: the lanes are
left as they were or expired at the reading (`Touched`), and if a slot is granted, it is granted on
an enabled lane that is out of cooldown and has room, and the send is recorded there.

The second half is `assemble`: which lane stands at which index, and what it carries over.

Later modules prove their invariants from these two: no proof outside this one unfolds `reserve`, `scan` or
`assemble`.
-/
import Mathlib.Data.List.DropRight
import Flock.Pool.Basic

namespace Flock

open Lib (popExpired)

namespace Lane

@[simp] theorem expire_key (now : ℤ) (l : Lane) : (l.expire now).key = l.key := rfl

@[simp] theorem expire_rpm (now : ℤ) (l : Lane) : (l.expire now).rpm = l.rpm := rfl

@[simp] theorem expire_cooldownUntil (now : ℤ) (l : Lane) :
    (l.expire now).cooldownUntil = l.cooldownUntil := rfl

@[simp] theorem expire_sent (now : ℤ) (l : Lane) :
    (l.expire now).sent = popExpired window now l.sent := rfl

@[simp] theorem expire_expire (now : ℤ) (l : Lane) :
    (l.expire now).expire now = l.expire now := by
  simp [expire, popExpired, List.dropWhile_idempotent]

/-- Expiring twice at one reading is expiring once. -/
theorem touched_trans {now : ℤ} {a b c : Lane} (h : b = a ∨ b = a.expire now)
    (h' : c = b ∨ c = b.expire now) : c = a ∨ c = a.expire now := by
  rcases h with rfl | rfl
  · exact h'
  · rcases h' with rfl | rfl
    · exact .inr rfl
    · exact .inr (expire_expire now a)

end Lane

namespace Pool

/-! ## The lanes an operation leaves behind

Looking at a lane drops the stamps that have left its window.  So an operation that grants nothing may still change
the pool; `Touched` says by how much. -/

/-- `p'` is `p` with some lanes expired at `now`. -/
structure Touched (now : ℤ) (p p' : Pool) : Prop where
  active : p'.active = p.active
  lanes : List.Forall₂ (fun l l' => l' = l ∨ l' = l.expire now) p.lanes p'.lanes

variable {now : ℤ} {p p' q : Pool} {i : ℕ}

theorem Touched.refl (now : ℤ) (p : Pool) : Touched now p p :=
  ⟨rfl, List.forall₂_same.mpr fun _ _ => .inl rfl⟩

/-- One touch after another, at one reading. -/
theorem Touched.trans (h : Touched now p q) (h' : Touched now q p') : Touched now p p' where
  active := h'.active.trans h.active
  lanes := by
    have hl := h.lanes
    have hl' := h'.lanes
    rw [List.forall₂_iff_get] at hl hl' ⊢
    refine ⟨hl.1.trans hl'.1, fun j hj hj' => ?_⟩
    have hq : j < q.lanes.length := hl.1 ▸ hj
    exact Lane.touched_trans (hl.2 j hj hq) (hl'.2 j hq hj')

theorem Touched.length_eq (h : Touched now p p') : p'.lanes.length = p.lanes.length :=
  h.lanes.length_eq.symm

/-- Reading a lane after a touch. -/
theorem Touched.get (h : Touched now p p') {l' : Lane} (hl' : p'.lanes[i]? = some l') :
    ∃ l, p.lanes[i]? = some l ∧ (l' = l ∨ l' = l.expire now) := by
  obtain ⟨hi', rfl⟩ := List.getElem?_eq_some_iff.mp hl'
  have hi : i < p.lanes.length := by rw [← h.length_eq]; exact hi'
  exact ⟨p.lanes[i], List.getElem?_eq_getElem hi, (List.forall₂_iff_get.mp h.lanes).2 i hi hi'⟩

@[simp] theorem modifyLane_active (p : Pool) (i : ℕ) (f : Lane → Lane) :
    (p.modifyLane i f).active = p.active := rfl

@[simp] theorem modifyLane_lanes (p : Pool) (i : ℕ) (f : Lane → Lane) :
    (p.modifyLane i f).lanes = p.lanes.modify i f := rfl

/-- Reading a lane after another, or the same, was rewritten. -/
theorem modifyLane_get (p : Pool) (i j : ℕ) (f : Lane → Lane) :
    (p.modifyLane i f).lanes[j]? = (p.lanes[j]?).map fun l => if i = j then f l else l := by
  rw [modifyLane_lanes, List.getElem?_modify]
  split <;> simp_all

theorem touched_modifyLane (now : ℤ) (p : Pool) (i : ℕ) :
    Touched now p (p.modifyLane i (Lane.expire now)) where
  active := rfl
  lanes := by
    rw [List.forall₂_iff_get]
    refine ⟨by simp, fun j hj hj' => ?_⟩
    simp only [List.get_eq_getElem, modifyLane_lanes, List.getElem_modify]
    split
    · exact .inr rfl
    · exact .inl rfl

/-! ## What no operation on a lane changes

Keys, budgets and the number of enabled lanes are set by `assemble` alone.  Each operation on a pool keeps them, and
these lemmas say so for the simplifier. -/

/-- The keys and budgets, lane by lane: fixed when the pool is assembled. -/
def shape (p : Pool) : List (String × ℕ) := p.lanes.map fun l => (l.key, l.rpm)

/-- The key of a lane is part of the shape. -/
theorem laneKey_eq_shape (p : Pool) (i : ℕ) : p.laneKey i = (p.shape[i]?).map (·.1) := by
  simp [laneKey, shape, Function.comp_def]

theorem Touched.shape (h : Touched now p p') : p'.shape = p.shape := by
  have hl := List.forall₂_iff_get.mp h.lanes
  refine List.ext_getElem (by simp [Pool.shape, h.length_eq]) fun j hj hj' => ?_
  simp only [Pool.shape, List.length_map] at hj hj'
  simp only [Pool.shape, List.getElem_map]
  rcases hl.2 j hj' hj with heq | heq <;> simp only [List.get_eq_getElem] at heq <;> rw [heq]
  rfl

/-- An update that keeps keys and budgets keeps the shape. -/
theorem modifyLane_shape {f : Lane → Lane} (hkey : ∀ l, (f l).key = l.key)
    (hrpm : ∀ l, (f l).rpm = l.rpm) (p : Pool) (i : ℕ) : (p.modifyLane i f).shape = p.shape := by
  refine List.ext_getElem (by simp [shape]) fun j hj hj' => ?_
  simp only [shape, modifyLane_lanes, List.getElem_map, List.getElem_modify]
  split
  · rw [hkey, hrpm]
  · rfl

@[simp] theorem release_shape (p : Pool) (i : ℕ) (t : ℤ) : (p.release i t).shape = p.shape :=
  modifyLane_shape (f := Lane.unsend t) (fun _ => rfl) (fun _ => rfl) p i

@[simp] theorem penalize_shape (p : Pool) (i : ℕ) (t : ℤ) (b : ℕ) :
    (p.penalize i t b).shape = p.shape :=
  modifyLane_shape (f := Lane.coolUntil (t + b)) (fun _ => rfl) (fun _ => rfl) p i

@[simp] theorem release_active (p : Pool) (i : ℕ) (t : ℤ) :
    (p.release i t).active = p.active := rfl

@[simp] theorem penalize_active (p : Pool) (i : ℕ) (t : ℤ) (b : ℕ) :
    (p.penalize i t b).active = p.active := rfl

theorem modifyKey_shape {f : Lane → Lane} (hkey : ∀ l, (f l).key = l.key)
    (hrpm : ∀ l, (f l).rpm = l.rpm) (p : Pool) (key : String) : (p.modifyKey key f).shape = p.shape := by
  unfold modifyKey
  split
  · exact modifyLane_shape hkey hrpm p _
  · rfl

@[simp] theorem modifyKey_active (p : Pool) (key : String) (f : Lane → Lane) :
    (p.modifyKey key f).active = p.active := by
  unfold modifyKey
  split <;> rfl

@[simp] theorem restoreLaneWindow_shape (p : Pool) (key : String) (sentMs : List ℕ) (nowUnix : ℕ)
    (now : ℤ) : (p.restoreLaneWindow key sentMs nowUnix now).shape = p.shape :=
  modifyKey_shape (fun _ => by rfl) (fun _ => by rfl) p key

@[simp] theorem restoreLaneWindow_active (p : Pool) (key : String) (sentMs : List ℕ) (nowUnix : ℕ)
    (now : ℤ) : (p.restoreLaneWindow key sentMs nowUnix now).active = p.active :=
  modifyKey_active p key _

@[simp] theorem restoreCooldown_shape (p : Pool) (key : String) (untilMs nowUnix : ℕ) (now : ℤ) :
    (p.restoreCooldown key untilMs nowUnix now).shape = p.shape := by
  unfold restoreCooldown
  dsimp only
  split
  · rfl
  · exact modifyKey_shape (fun _ => by rfl) (fun _ => by rfl) p key

@[simp] theorem restoreCooldown_active (p : Pool) (key : String) (untilMs nowUnix : ℕ) (now : ℤ) :
    (p.restoreCooldown key untilMs nowUnix now).active = p.active := by
  unfold restoreCooldown
  dsimp only
  split
  · rfl
  · exact modifyKey_active p key _

/-! ## `try_take`

The one operation that takes a slot. -/

/-- **`Grants`** — a slot was taken at `now` on lane `i` of `p`, whose key is `k`: the lane was out
of cooldown and, expired, below its budget; `p'` has the send recorded on it. -/
structure Grants (now : ℤ) (p : Pool) (i : ℕ) (k : String) (p' : Pool) : Prop where
  lane : ∃ l, p.lanes[i]? = some l ∧ l.key = k ∧ l.cooldownUntil ≤ now ∧
    (l.expire now).sent.length < l.rpm
  result : p' = p.modifyLane i fun l => (l.expire now).push now

theorem Grants.shape {k : String} (h : Grants now p i k p') : p'.shape = p.shape := by
  rw [h.result]
  exact modifyLane_shape (f := fun l => (l.expire now).push now) (fun _ => rfl) (fun _ => rfl) p i

theorem Grants.active {k : String} (h : Grants now p i k p') : p'.active = p.active := by
  rw [h.result]
  rfl

/-- What `try_take` does: either nothing but expire, or take the slot. -/
theorem tryTake_cases (p : Pool) (i : ℕ) (now : ℤ) (sticky : Bool) :
    (∃ p', p.tryTake i now sticky = (p', none) ∧ Touched now p p') ∨
    (∃ p' k, p.tryTake i now sticky = (p', some (.ready i k now sticky)) ∧
      Grants now p i k p') := by
  unfold tryTake
  cases hl : p.lanes[i]? with
  | none => exact .inl ⟨p, rfl, .refl now p⟩
  | some l =>
      by_cases hcool : l.cooldownUntil > now
      · exact .inl ⟨p, by simp [hcool], .refl now p⟩
      · by_cases hroom : (l.expire now).sent.length < l.rpm
        · refine .inr ⟨_, l.key, by simp only [hcool, hroom, if_true, if_false]; rfl, ?_⟩
          exact ⟨⟨l, hl, rfl, not_lt.mp hcool, hroom⟩, rfl⟩
        · refine .inl ⟨_, by simp only [hcool, hroom, if_false]; rfl, ?_⟩
          exact touched_modifyLane now p i

/-! ## The scan

The scan expires every enabled lane and lists those that are ready, with their loads. -/

/-- The scan's loop: the lanes come back expired, in order, and every ready index points at a lane
that was scanned. -/
theorem scan_foldl (now : ℤ) (ls : List Lane) (acc : Scan)
    (hacc : ∀ r ∈ acc.ready, r.2 < acc.lanes.length) :
    (ls.foldl (scanLane now) acc).lanes = acc.lanes ++ ls.map (Lane.expire now) ∧
    ∀ r ∈ (ls.foldl (scanLane now) acc).ready, r.2 < acc.lanes.length + ls.length := by
  induction ls generalizing acc with
  | nil => simpa using hacc
  | cons l ls ih =>
      have hlanes : (scanLane now acc l).lanes = acc.lanes ++ [l.expire now] := by
        unfold scanLane
        dsimp only
        split <;> rfl
      have hready : ∀ r ∈ (scanLane now acc l).ready, r.2 < (scanLane now acc l).lanes.length := by
        intro r hr
        rw [hlanes, List.length_append, List.length_singleton]
        unfold scanLane at hr
        dsimp only at hr
        split at hr
        · rcases List.mem_append.mp hr with hr | hr
          · have := hacc r hr
            omega
          · obtain rfl := List.mem_singleton.mp hr
            exact Nat.lt_succ_self _
        · have := hacc r hr
          omega
      obtain ⟨h₁, h₂⟩ := ih (scanLane now acc l) hready
      rw [List.foldl_cons]
      refine ⟨by rw [h₁, hlanes]; simp, fun r hr => ?_⟩
      have := h₂ r hr
      rw [hlanes, List.length_append, List.length_singleton] at this
      rw [List.length_cons]
      omega

/-- Only the enabled lanes come back. -/
theorem scan_lanes (p : Pool) (now : ℤ) :
    (p.scan now).lanes = (p.lanes.take p.active).map (Lane.expire now) := by
  simpa [scan] using (scan_foldl now (p.lanes.take p.active) ⟨[], [], window⟩ (by simp)).1

/-- Only enabled lanes are ever ready. -/
theorem scan_ready_lt (p : Pool) (now : ℤ) :
    ∀ r ∈ (p.scan now).ready, r.2 < p.active := by
  intro r hr
  have h := (scan_foldl now (p.lanes.take p.active) ⟨[], [], window⟩ (by simp)).2 r hr
  simpa using lt_of_lt_of_le h (by simp)

theorem touched_expireActive (p : Pool) (now : ℤ) : Touched now p (p.expireActive now) where
  active := by
    have := p.active_le
    simp [expireActive, scan_lanes, this]
  lanes := by
    show List.Forall₂ _ p.lanes ((p.scan now).lanes ++ p.lanes.drop p.active)
    rw [scan_lanes]
    conv => arg 2; rw [← List.take_append_drop p.active p.lanes]
    refine List.rel_append ?_ (List.forall₂_same.mpr fun _ _ => .inl rfl)
    rw [List.forall₂_map_right_iff]
    exact List.forall₂_same.mpr fun _ _ => .inr rfl

theorem mem_sortReady {ready : List (ℕ × ℕ)} {r : ℕ × ℕ} : r ∈ sortReady ready ↔ r ∈ ready :=
  (List.perm_insertionSort _ ready).mem_iff

/-! ## `reserve` -/

/-- The loop over the ready lanes stops at the first one that still has a slot. -/
theorem takeFirst_cases (now : ℤ) : ∀ (ready : List (ℕ × ℕ)) (p : Pool),
    (∃ p', p.takeFirst now ready = (p', none) ∧ Touched now p p') ∨
    (∃ q i k p', p.takeFirst now ready = (p', some (.ready i k now false)) ∧
      (∃ load, (load, i) ∈ ready) ∧ Touched now p q ∧ Grants now q i k p')
  | [], p => .inl ⟨p, rfl, .refl now p⟩
  | (load, i) :: rest, p => by
      rcases tryTake_cases p i now false with ⟨p', htake, ht⟩ | ⟨p', k, htake, hg⟩
      · have hstep : p.takeFirst now ((load, i) :: rest) = p'.takeFirst now rest := by
          simp only [takeFirst, htake]
        rw [hstep]
        rcases takeFirst_cases now rest p' with
          ⟨p'', hrest, ht'⟩ | ⟨q, j, k, p'', hrest, ⟨load', hmem⟩, ht', hg⟩
        · exact .inl ⟨p'', hrest, ht.trans ht'⟩
        · exact .inr ⟨q, j, k, p'', hrest, ⟨load', List.mem_cons_of_mem _ hmem⟩, ht.trans ht', hg⟩
      · refine .inr ⟨p, i, k, p', by simp only [takeFirst, htake], ⟨load, by simp⟩, ?_, hg⟩
        exact .refl now p

/-- The part of `reserve` after the preferred lane declined. -/
theorem reserve_scan_cases (p : Pool) (now : ℤ) :
    (∃ p', (p.expireActive now).takeFirst now (sortReady (p.scan now).ready) = (p', none) ∧
      Touched now p p') ∨
    (∃ q i k p', (p.expireActive now).takeFirst now (sortReady (p.scan now).ready) =
      (p', some (.ready i k now false)) ∧ i < p.active ∧ Touched now p q ∧ Grants now q i k p') := by
  have ht := touched_expireActive p now
  rcases takeFirst_cases now (sortReady (p.scan now).ready) (p.expireActive now) with
    ⟨p', h, ht'⟩ | ⟨q, i, k, p', h, ⟨load, hmem⟩, ht', hg⟩
  · exact .inl ⟨p', h, ht.trans ht'⟩
  · have hi : i < p.active := scan_ready_lt p now _ (mem_sortReady.mp hmem)
    exact .inr ⟨q, i, k, p', h, hi, ht.trans ht', hg⟩

/-- **`reserve` in one case split.** A wait leaves the lanes as they were, up to expiry; a grant is
of an enabled lane with room and out of cooldown, stamped with the reading. -/
theorem reserve_cases (p : Pool) (now : ℤ) (prefer : Option ℕ) :
    (∃ p' d, p.reserve now prefer = (p', .wait d) ∧ Touched now p p') ∨
    (∃ q i k sticky p', p.reserve now prefer = (p', .ready i k now sticky) ∧ i < p.active ∧
      Touched now p q ∧ Grants now q i k p') := by
  -- the scan, from whatever pool the attempt on the preferred lane left
  have hscan : ∀ p₁ : Pool, Touched now p p₁ →
      (∀ p₂ r, (p₁.expireActive now).takeFirst now (sortReady (p₁.scan now).ready) = (p₂, some r) →
        p.reserve now prefer = (p₂, r)) →
      (∀ p₂, (p₁.expireActive now).takeFirst now (sortReady (p₁.scan now).ready) = (p₂, none) →
        p.reserve now prefer = (p₂, .wait (p₁.scan now).bestWait)) →
      (∃ p' d, p.reserve now prefer = (p', .wait d) ∧ Touched now p p') ∨
      (∃ q i k sticky p', p.reserve now prefer = (p', .ready i k now sticky) ∧ i < p.active ∧
        Touched now p q ∧ Grants now q i k p') := by
    intro p₁ ht hready hwait
    rcases reserve_scan_cases p₁ now with ⟨p', h, ht'⟩ | ⟨q, i, k, p', h, hi, ht', hg⟩
    · exact .inl ⟨p', _, hwait p' h, ht.trans ht'⟩
    · exact .inr ⟨q, i, k, false, p', hready p' _ h, ht.active ▸ hi, ht.trans ht', hg⟩
  cases hpref : prefer.filter (fun i => decide (i < p.active)) with
  | none =>
      refine hscan p (.refl now p) ?_ ?_
      · intro p₂ r h
        simp only [reserve, hpref, h]
      · intro p₂ h
        simp only [reserve, hpref, h]
  | some i =>
      have hi : i < p.active := by
        have := Option.filter_eq_some_iff.mp hpref
        simpa using this.2
      rcases tryTake_cases p i now true with ⟨p₁, htake, ht⟩ | ⟨p', k, htake, hg⟩
      · refine hscan p₁ ht ?_ ?_
        · intro p₂ r h
          simp only [reserve, hpref, htake, h]
        · intro p₂ h
          simp only [reserve, hpref, htake, h]
      · exact .inr ⟨p, i, k, true, p', by simp only [reserve, hpref, htake], hi, .refl now p, hg⟩

/-! ## `assemble`

The enabled specs come first, in order.  A key that the old pool knows brings its window and its cooldown along. -/

@[simp] theorem assemble_active (specs : List LaneSpec) (old : Option Pool) (now : ℤ) :
    (assemble specs old now).active = (specs.filter (·.enabled)).length := rfl

@[simp] theorem carryLane_key (old : Option Pool) (now : ℤ) (s : LaneSpec) :
    (carryLane old now s).key = s.key := by
  unfold carryLane
  split <;> rfl

@[simp] theorem carryLane_rpm (old : Option Pool) (now : ℤ) (s : LaneSpec) :
    (carryLane old now s).rpm = s.rpm := by
  unfold carryLane
  split <;> rfl

/-- The specs are rearranged, and none is lost. -/
theorem enabledFirst_perm (specs : List LaneSpec) : (enabledFirst specs).Perm specs :=
  List.filter_append_perm LaneSpec.enabled specs

/-- **The enabled boundary.** Below `active` stands an enabled spec, from it on a disabled one. -/
theorem enabledFirst_enabled {specs : List LaneSpec} {s : LaneSpec}
    (h : (enabledFirst specs)[i]? = some s) :
    s.enabled = decide (i < (specs.filter (·.enabled)).length) := by
  unfold enabledFirst at h
  by_cases hi : i < (specs.filter (·.enabled)).length
  · rw [List.getElem?_append_left hi] at h
    have := (List.mem_filter.mp (List.mem_of_getElem? h)).2
    simpa [hi] using this
  · rw [List.getElem?_append_right (by omega)] at h
    have := (List.mem_filter.mp (List.mem_of_getElem? h)).2
    simpa [hi] using this

/-- The lane at an index of an assembled pool comes from the spec at that index. -/
theorem assemble_get {specs : List LaneSpec} {old : Option Pool} {l : Lane}
    (h : (assemble specs old now).lanes[i]? = some l) :
    ∃ s, (enabledFirst specs)[i]? = some s ∧ l = carryLane old now s := by
  simp only [assemble, List.getElem?_map, Option.map_eq_some_iff] at h
  obtain ⟨s, hs, rfl⟩ := h
  exact ⟨s, hs, rfl⟩

/-- The shape of a pool is that of its specs. -/
theorem assemble_shape (specs : List LaneSpec) (old : Option Pool) (now : ℤ) :
    (assemble specs old now).shape = (enabledFirst specs).map fun s => (s.key, s.rpm) := by
  simp [shape, assemble, Function.comp_def]

/-- A key the old pool knows keeps that lane's window and cooldown. -/
theorem carryLane_of_old {s : LaneSpec} (hmem : s.key ∈ p.lanes.map (·.key)) :
    ∃ prev ∈ p.lanes, prev.key = s.key ∧
      carryLane (some p) now s = ⟨s.key, s.rpm, prev.sent, prev.cooldownUntil⟩ := by
  obtain ⟨l, hl, hkey⟩ := List.mem_map.mp hmem
  cases hfind : p.lanes.find? (·.key == s.key) with
  | none =>
      have := List.find?_eq_none.mp hfind l hl
      simp [hkey] at this
  | some prev =>
      refine ⟨prev, List.mem_of_find?_eq_some hfind, ?_, ?_⟩
      · simpa using List.find?_some hfind
      · simp only [carryLane, Option.bind_some, hfind]

/-- **A pool rebuilt from its own specs is the same pool.** -/
theorem rebuild_self {specs : List LaneSpec} (hnodup : (specs.map (·.key)).Nodup)
    (hshape : p.shape = (enabledFirst specs).map fun s => (s.key, s.rpm))
    (hactive : p.active = (specs.filter (·.enabled)).length) (now : ℤ) : p.rebuild specs now = p := by
  -- the lanes are those of the specs, in their order
  have hkeys : p.lanes.map (·.key) = (enabledFirst specs).map (·.key) := by
    have hfst := congrArg (List.map Prod.fst) hshape
    unfold shape at hfst
    rw [List.map_map, List.map_map] at hfst
    exact hfst
  have hdistinct : (p.lanes.map (·.key)).Nodup := by
    rw [hkeys]
    exact ((enabledFirst_perm specs).map _).nodup_iff.mpr hnodup
  -- so each lane is carried over to its own place
  have hlanes : (enabledFirst specs).map (carryLane (some p) now) = p.lanes := by
    apply List.ext_getElem?
    intro i
    have hat : (p.lanes[i]?).map (fun l => (l.key, l.rpm)) =
        ((enabledFirst specs)[i]?).map fun s => (s.key, s.rpm) := by
      rw [← List.getElem?_map, ← List.getElem?_map, ← hshape]
      rfl
    rw [List.getElem?_map]
    cases hl : p.lanes[i]? with
    | none =>
        rw [hl, Option.map_none, eq_comm, Option.map_eq_none_iff] at hat
        rw [hat, Option.map_none]
    | some l =>
        rw [hl, Option.map_some, eq_comm, Option.map_eq_some_iff] at hat
        obtain ⟨s, hs, hsl⟩ := hat
        -- one key, one lane: what is carried over is the lane itself
        obtain ⟨hkey, hrpm⟩ := Prod.mk.inj hsl
        have hmem := List.mem_of_getElem? hl
        have hold : s.key ∈ p.lanes.map (·.key) := hkey ▸ List.mem_map_of_mem hmem
        obtain ⟨prev, hprev, hpkey, hcarry⟩ : ∃ prev ∈ p.lanes, prev.key = s.key ∧
            carryLane (some p) now s = ⟨s.key, s.rpm, prev.sent, prev.cooldownUntil⟩ := carryLane_of_old hold
        obtain rfl : prev = l := List.inj_on_of_nodup_map hdistinct hprev hmem (hpkey.trans hkey)
        rw [hs, Option.map_some, hcarry, hkey, hrpm]
  obtain ⟨lanes, active, hle⟩ := p
  simp only [rebuild, assemble, Pool.mk.injEq]
  exact ⟨hlanes, hactive.symm⟩

end Pool

end Flock
