/-
# Flock.Pool.Choice — which lane `reserve` grants.

The fast path tries the preferred lane with `try_take`; the scan computes readiness on its own, sorts the ready
lanes by load and index, and tries them with `try_take` again.  On deques in order both agree with `Qualifies`: the
scan lists exactly the enabled lanes that qualify, with their loads, and the first of them is then granted
(`reserve_spec`).  `Picks` is the specification of the choice.

Deques are in order where every stamp was put at the end by a clock that does not go back; `Chronicled` is the
invariant of reachable pools that says so.
-/
import Flock.Pool.Life

namespace Flock

open Lib (System age inWindow Chronological)

namespace Lane

/-- `l'` is `l` less some expired stamps. -/
def Pruned (now : ℤ) (l l' : Lane) : Prop :=
  ∃ old, l = { l' with sent := old ++ l'.sent } ∧ ∀ t ∈ old, window ≤ age now t

variable {now : ℤ} {l l' l'' : Lane}

theorem Pruned.refl (now : ℤ) (l : Lane) : Pruned now l l :=
  ⟨[], rfl, fun _ h => absurd h List.not_mem_nil⟩

theorem Pruned.trans (h : Pruned now l l') (h' : Pruned now l' l'') : Pruned now l l'' := by
  obtain ⟨old, rfl, hold⟩ := h
  obtain ⟨older, rfl, holder⟩ := h'
  refine ⟨old ++ older, by simp, fun t ht => ?_⟩
  rcases List.mem_append.mp ht with ht | ht
  · exact hold t ht
  · exact holder t ht

/-- On a deque in order, expiring drops what is out of the window. -/
theorem Pruned.expire (h : Chronological now l.sent) : Pruned now l (l.expire now) := by
  obtain ⟨old, hsplit, hexpired, -⟩ := Lib.exists_popExpired window now h.ordered
  refine ⟨old, ?_, hexpired⟩
  rw [expire_sent, ← hsplit]
  rfl

end Lane

namespace Pool

variable {now t : ℤ} {p p' : Pool} {prefer : Option ℕ} {i j : ℕ} {l : Lane}

/-- The in-window load of a lane. -/
def load (p : Pool) (now : ℤ) (i : ℕ) : ℕ := ((p.lanes[i]?).map fun l => (inWindow window now l.sent).length).getD 0

/-- The load of a lane that is there. -/
theorem load_eq (hl : p.lanes[i]? = some l) (now : ℤ) : p.load now i = (inWindow window now l.sent).length := by
  unfold load
  rw [hl]
  rfl

/-- A touch leaves the loads as they are. -/
theorem load_touched (h : Touched now p p') (hi : i < p.lanes.length) : p'.load now i = p.load now i := by
  have hi' : i < p'.lanes.length := by rw [h.length_eq]; exact hi
  obtain ⟨l, hl, hor⟩ := h.get (List.getElem?_eq_getElem hi')
  rw [load_eq (List.getElem?_eq_getElem hi'), load_eq hl]
  rcases hor with heq | heq
  · rw [heq]
  · rw [heq, Lane.expire_sent, Lib.inWindow_popExpired (le_refl now)]

/-! ## `try_take`

The fast path looks at one lane. -/

/-- On deques in order `try_take` takes a slot exactly on a lane that qualifies. -/
theorem tryTake_spec (h : Chronicled now p) (hl : p.lanes[i]? = some l) (sticky : Bool) :
    (l.Qualifies now ∧ p.tryTake i now sticky =
      (p.modifyLane i fun l => (l.expire now).push now, some (.ready i l.key now sticky))) ∨
    (¬ l.Qualifies now ∧ ∃ p', p.tryTake i now sticky = (p', none) ∧ Touched now p p') := by
  have hsent := Lane.sent_expire (h l (List.mem_of_getElem? hl))
  rcases tryTake_cases p i now sticky with ⟨p', htake, ht⟩ | ⟨p', k, htake, hg⟩
  · refine .inr ⟨?_, p', htake, ht⟩
    rintro ⟨hcool, hroom⟩
    rw [← hsent] at hroom
    have hcool' : ¬ l.cooldownUntil > now := by omega
    unfold tryTake at htake
    simp only [hl, hcool', hroom, if_true, if_false] at htake
    cases htake
  · obtain ⟨l', hl', rfl, hcool, hroom⟩ := hg.lane
    obtain rfl : l' = l := Option.some.inj (hl'.symm.trans hl)
    rw [hsent] at hroom
    exact .inl ⟨⟨hcool, hroom⟩, by rw [htake, hg.result]⟩

/-! ## The scan

The scan looks at all of them, and keeps what it found in a list.  Its loop is followed index by index. -/

/-- The scan reads a lane only after it expired it. -/
theorem scanLane_expire (now : ℤ) (acc : Scan) (l : Lane) : scanLane now acc (l.expire now) = scanLane now acc l := by
  unfold scanLane
  rw [Lane.expire_expire]

/-- What the scan lists: an index with the load there, for every lane that is ready. -/
theorem mem_ready_foldl (now : ℤ) (ls : List Lane) (acc : Scan) (n i : ℕ) :
    (n, i) ∈ (ls.foldl (scanLane now) acc).ready ↔ (n, i) ∈ acc.ready ∨
      ∃ j l, ls[j]? = some l ∧ i = acc.lanes.length + j ∧ (l.expire now).readyAt now ≤ now ∧
        n = (l.expire now).sent.length := by
  induction ls generalizing acc with
  | nil => simp
  -- the first lane stands at the length of what has been scanned, and the others behind it
  | cons l ls ih =>
      rw [List.foldl_cons, ih]
      have hlength : (scanLane now acc l).lanes.length = acc.lanes.length + 1 := by
        unfold scanLane
        dsimp only
        split <;> simp
      have hready : (n, i) ∈ (scanLane now acc l).ready ↔ (n, i) ∈ acc.ready ∨
          (i = acc.lanes.length ∧ (l.expire now).readyAt now ≤ now ∧ n = (l.expire now).sent.length) := by
        unfold scanLane
        dsimp only
        split
        · rename_i hnow
          simp only [List.mem_append, List.mem_singleton, Prod.mk.injEq]
          tauto
        · tauto
      rw [hready, hlength]
      constructor
      · rintro ((hacc | ⟨hi, hnow, hn⟩) | ⟨j, l', hl', hi, hnow, hn⟩)
        · exact .inl hacc
        · exact .inr ⟨0, l, rfl, hi, hnow, hn⟩
        · exact .inr ⟨j + 1, l', hl', by omega, hnow, hn⟩
      · rintro (hacc | ⟨j, l', hl', hi, hnow, hn⟩)
        · exact .inl (.inl hacc)
        · cases j with
          | zero =>
              obtain rfl : l = l' := Option.some.inj hl'
              exact .inl (.inr ⟨hi, hnow, hn⟩)
          | succ j => exact .inr ⟨j, l', hl', by omega, hnow, hn⟩

/-- **The scan lists the lanes that qualify, with their loads.** -/
theorem mem_scan_ready (h : Chronicled now p) {n : ℕ} :
    (n, i) ∈ (p.scan now).ready ↔ p.QualifiesAt now i ∧ n = p.load now i := by
  have hlane : ∀ l, p.lanes[i]? = some l → ((l.expire now).readyAt now ≤ now ↔ l.Qualifies now) ∧
      (l.expire now).sent.length = p.load now i := by
    intro l hl
    have hordered := h l (List.mem_of_getElem? hl)
    have hwindow : now < now + window := by
      simp [window, secs]
    exact ⟨Lane.readyAt_le_iff hordered (le_refl now) hwindow, by rw [Lane.sent_expire hordered, load_eq hl]⟩
  unfold scan
  rw [mem_ready_foldl]
  constructor
  · rintro (habsurd | ⟨j, l, hl, hi, hready, hn⟩)
    · cases habsurd
    · obtain rfl : i = j := by simpa using hi
      rw [List.getElem?_take, Option.ite_none_right_eq_some] at hl
      obtain ⟨hlt, hl⟩ := hl
      obtain ⟨hqualifies, hload⟩ := hlane l hl
      exact ⟨⟨hlt, l, hl, hqualifies.mp hready⟩, hn.trans hload⟩
  · rintro ⟨⟨hlt, l, hl, hq⟩, hn⟩
    obtain ⟨hqualifies, hload⟩ := hlane l hl
    refine .inr ⟨i, l, ?_, by simp, hqualifies.mpr hq, hn.trans hload.symm⟩
    rw [List.getElem?_take, if_pos hlt]
    exact hl

/-- A touch does not show in the scan. -/
theorem scan_touched (h : Touched now p p') : p'.scan now = p.scan now := by
  have hfold : ∀ (ls : List Lane) (acc : Scan),
      ls.foldl (scanLane now) acc = (ls.map (Lane.expire now)).foldl (scanLane now) acc := by
    intro ls acc
    rw [List.foldl_map]
    simp only [scanLane_expire]
  have hlanes : p'.lanes.map (Lane.expire now) = p.lanes.map (Lane.expire now) := by
    apply List.ext_getElem?
    intro j
    rw [List.getElem?_map, List.getElem?_map]
    cases hl' : p'.lanes[j]? with
    | none =>
        rw [List.getElem?_eq_none_iff, h.length_eq, ← List.getElem?_eq_none_iff] at hl'
        rw [hl']
    | some l' =>
        obtain ⟨l, hl, rfl | rfl⟩ := h.get hl'
        · rw [hl]
        · rw [hl, Option.map_some, Option.map_some, Lane.expire_expire]
  unfold scan
  rw [hfold, hfold (p.lanes.take p.active), List.map_take, List.map_take, hlanes, h.active]

/-! ## The choice

Sorted by load and then by index, the first of the list is the lane with the least load, and among these the least
index.  As the scan and `try_take` agree, the first attempt succeeds. -/

/-- **`Picks`** — the lane that a reserve should grant: the preferred one if it qualifies, and else the one with
the least load, the first of those. -/
structure Picks (p : Pool) (now : ℤ) (prefer : Option ℕ) (i : ℕ) (sticky : Bool) : Prop where
  qualifies : p.QualifiesAt now i
  preferred : (∃ j ∈ prefer, p.QualifiesAt now j) → i ∈ prefer ∧ sticky = true
  least : (¬ ∃ j ∈ prefer, p.QualifiesAt now j) →
    sticky = false ∧ ∀ j, p.QualifiesAt now j → toLex (p.load now i, i) ≤ toLex (p.load now j, j)

/-- The first of the sorted list is the least. -/
theorem head_sortReady {ready rest : List (ℕ × ℕ)} {r : ℕ × ℕ} (h : sortReady ready = r :: rest) :
    r ∈ ready ∧ ∀ r' ∈ ready, toLex r ≤ toLex r' := by
  have hmem : ∀ x, x ∈ ready ↔ x ∈ r :: rest := fun x => by rw [← h, mem_sortReady]
  have hsorted : (r :: rest).Pairwise fun a b => toLex a ≤ toLex b := by
    rw [← h]
    exact List.pairwise_insertionSort _ ready
  refine ⟨(hmem r).mpr List.mem_cons_self, fun r' hr' => ?_⟩
  rcases List.mem_cons.mp ((hmem r').mp hr') with rfl | hrest
  · exact le_refl _
  · exact (List.pairwise_cons.mp hsorted).1 r' hrest

/-- The part of `reserve` after the fast path: the least loaded lane that qualifies, if one does. -/
theorem takeFirst_scan (h : Chronicled now p) :
    (∃ i l, (p.expireActive now).takeFirst now (sortReady (p.scan now).ready) =
        ((p.expireActive now).modifyLane i fun l => (l.expire now).push now, some (.ready i l.key now false)) ∧
      p.lanes[i]? = some l ∧ p.QualifiesAt now i ∧
      ∀ j, p.QualifiesAt now j → toLex (p.load now i, i) ≤ toLex (p.load now j, j)) ∨
    ((p.expireActive now).takeFirst now (sortReady (p.scan now).ready) = (p.expireActive now, none) ∧
      ∀ j, ¬ p.QualifiesAt now j) := by
  have ht := touched_expireActive p now
  cases hsorted : sortReady (p.scan now).ready with
  | nil =>
      refine .inr ⟨rfl, fun j hj => ?_⟩
      have hmem := mem_sortReady.mpr ((mem_scan_ready h).mpr ⟨hj, rfl⟩)
      rw [hsorted] at hmem
      cases hmem
  | cons r rest =>
      obtain ⟨n, i⟩ := r
      obtain ⟨hmem, hleast⟩ := head_sortReady hsorted
      obtain ⟨hq, rfl⟩ := (mem_scan_ready h).mp hmem
      obtain ⟨-, l', hl', hq'⟩ := (ht.qualifiesAt_iff (le_refl now)).mpr hq
      obtain ⟨l, hl, hor⟩ := ht.get hl'
      have hkey : l'.key = l.key := by rcases hor with rfl | rfl <;> rfl
      -- the scan left the lane as it read it, so `try_take` grants it
      rcases tryTake_spec (h.touched ht) hl' false with ⟨-, htake⟩ | ⟨hnot, -⟩
      · refine .inl ⟨i, l, ?_, hl, hq, fun j hj => hleast _ ((mem_scan_ready h).mpr ⟨hj, rfl⟩)⟩
        unfold takeFirst
        rw [htake, hkey]
      · exact absurd hq' hnot

/-- **What `reserve` does**, on deques in order: it grants the lane that `Picks` names and records the send
there; or no enabled lane qualifies, and it answers with the scan's wait.  Besides, lanes are expired. -/
theorem reserve_spec (h : Chronicled now p) (prefer : Option ℕ) :
    (∃ q i l sticky, p.reserve now prefer =
        (q.modifyLane i fun l => (l.expire now).push now, .ready i l.key now sticky) ∧
      Touched now p q ∧ p.lanes[i]? = some l ∧ p.Picks now prefer i sticky) ∨
    (∃ q, p.reserve now prefer = (q, .wait (p.scan now).bestWait) ∧ Touched now p q ∧
      ∀ i, ¬ p.QualifiesAt now i) := by
  -- the scan, from whatever pool the attempt on the preferred lane left
  have hscan : ∀ p₁, Touched now p p₁ → (¬ ∃ j ∈ prefer, p.QualifiesAt now j) →
      (∀ p₂ hit, (p₁.expireActive now).takeFirst now (sortReady (p₁.scan now).ready) = (p₂, hit) →
        p.reserve now prefer = (p₂, hit.getD (.wait (p₁.scan now).bestWait))) →
      (∃ q i l sticky, p.reserve now prefer =
          (q.modifyLane i fun l => (l.expire now).push now, .ready i l.key now sticky) ∧
        Touched now p q ∧ p.lanes[i]? = some l ∧ p.Picks now prefer i sticky) ∨
      (∃ q, p.reserve now prefer = (q, .wait (p.scan now).bestWait) ∧ Touched now p q ∧
        ∀ i, ¬ p.QualifiesAt now i) := by
    intro p₁ ht hdeclined hreserve
    have hexpired := ht.trans (touched_expireActive p₁ now)
    rcases takeFirst_scan (h.touched ht) with ⟨i, l₁, htake, hl₁, hq, hleast⟩ | ⟨htake, hnone⟩
    · have hreserve := hreserve _ _ htake
      rw [Option.getD_some] at hreserve
      obtain ⟨l, hl, hor⟩ := ht.get hl₁
      have hkey : l₁.key = l.key := by rcases hor with rfl | rfl <;> rfl
      refine .inl ⟨p₁.expireActive now, i, l, false, by rw [hreserve, hkey], hexpired, hl, ?_⟩
      refine ⟨(ht.qualifiesAt_iff (le_refl now)).mp hq, fun hpref => absurd hpref hdeclined, fun _ => ⟨rfl, ?_⟩⟩
      intro j hj
      have hj₁ := (ht.qualifiesAt_iff (le_refl now)).mpr hj
      have hle := hleast j hj₁
      obtain ⟨-, l', hl', -⟩ := hj
      rwa [load_touched ht (List.getElem?_eq_some_iff.mp hl).1,
        load_touched ht (List.getElem?_eq_some_iff.mp hl').1] at hle
    · have hreserve := hreserve _ _ htake
      rw [Option.getD_none] at hreserve
      refine .inr ⟨p₁.expireActive now, by rw [hreserve, scan_touched ht], hexpired, fun j hj => ?_⟩
      exact hnone j ((ht.qualifiesAt_iff (le_refl now)).mpr hj)
  cases hpref : prefer.filter (fun i => decide (i < p.active)) with
  | none =>
      apply hscan p (.refl now p)
      · rintro ⟨j, hj, hq⟩
        have hout := Option.filter_eq_none_iff.mp hpref j hj
        simp only [decide_eq_true_eq] at hout
        exact hout hq.1
      · intro p₂ hit htake
        unfold reserve
        rw [hpref]
        dsimp only
        rw [htake]
        cases hit <;> rfl
  | some i =>
      obtain ⟨hi, hlt⟩ := Option.filter_eq_some_iff.mp hpref
      have hlt := of_decide_eq_true hlt
      have hlen : i < p.lanes.length := by
        have := p.active_le
        omega
      have hl := List.getElem?_eq_getElem hlen
      rcases tryTake_spec h hl true with ⟨hq, htake⟩ | ⟨hnot, p₁, htake, ht⟩
      · refine .inl ⟨p, i, _, true, by simp only [reserve, hpref, htake], .refl now p, hl, ?_⟩
        have hqualifies : p.QualifiesAt now i := ⟨hlt, _, hl, hq⟩
        exact ⟨hqualifies, fun _ => ⟨hi, rfl⟩, fun hno => absurd ⟨i, hi, hqualifies⟩ hno⟩
      · apply hscan p₁ ht
        · rintro ⟨j, hj, -, l, hl', hq⟩
          obtain rfl : j = i := Option.some.inj (Eq.trans (Eq.symm hj) hi)
          obtain rfl := Option.some.inj (hl'.symm.trans hl)
          exact hnot hq
        · intro p₂ hit htake'
          unfold reserve
          rw [hpref]
          dsimp only
          rw [htake]
          dsimp only
          rw [htake']
          cases hit <;> rfl

/-! ## What a reserve leaves

A reserve takes one slot at most, and everything else it does is to drop stamps that are out of the window. -/

/-- What a touch leaves of a lane. -/
theorem Touched.pruned (h : Chronicled now p) (ht : Touched now p p') (hl : p.lanes[j]? = some l) :
    ∃ l', p'.lanes[j]? = some l' ∧ Lane.Pruned now l l' := by
  have hlen : j < p'.lanes.length := by
    rw [ht.length_eq]
    exact (List.getElem?_eq_some_iff.mp hl).1
  have hl' := List.getElem?_eq_getElem hlen
  obtain ⟨l₀, hl₀, hor⟩ := ht.get hl'
  obtain rfl : l₀ = l := Option.some.inj (hl₀.symm.trans hl)
  refine ⟨_, hl', ?_⟩
  rcases hor with heq | heq
  · rw [heq]
    exact .refl now l₀
  · rw [heq]
    exact .expire (h l₀ (List.mem_of_getElem? hl))

/-- **Lane choice.**  In every state of a pool and at every instant, `reserve` grants a slot exactly if some enabled
lane is off cooldown and has fewer than `rpm` stamps in the window.  It grants the preferred lane if that one
qualifies, and else the one with the least load, the first of those.  The granted lane gains exactly one stamp, the
reading; and of that lane and every other only expired stamps are removed. -/
theorem reserve_choice {s : PoolLife} (hreach : poolLife.Reachable s) (hle : s.now ≤ now) (prefer : Option ℕ) :
    ((∃ i k stamp sticky, (s.pool.reserve now prefer).2 = .ready i k stamp sticky) ↔
      ∃ i < s.pool.active, ∃ l, s.pool.lanes[i]? = some l ∧ l.cooldownUntil ≤ now ∧
        (inWindow window now l.sent).length < l.rpm) ∧
    ∀ p' i k stamp sticky, s.pool.reserve now prefer = (p', .ready i k stamp sticky) →
      s.pool.Picks now prefer i sticky ∧ stamp = now ∧ p'.active = s.pool.active ∧
      p'.lanes.length = s.pool.lanes.length ∧
      (∃ l l', s.pool.lanes[i]? = some l ∧ k = l.key ∧ Lane.Pruned now l l' ∧ p'.lanes[i]? = some (l'.push now)) ∧
      ∀ j l, j ≠ i → s.pool.lanes[j]? = some l → ∃ l', p'.lanes[j]? = some l' ∧ Lane.Pruned now l l' := by
  have hordered := PoolLife.chronicled_at hreach hle
  rcases reserve_spec hordered prefer with ⟨q, i, l, sticky, heq, ht, hl, hpicks⟩ | ⟨q, heq, ht, hnone⟩
  -- a lane was found, and it qualifies
  · refine ⟨⟨fun _ => ?_, fun _ => ⟨i, l.key, now, sticky, by rw [heq]⟩⟩, ?_⟩
    · obtain ⟨hi, l', hl', hcool, hroom⟩ := hpicks.qualifies
      exact ⟨i, hi, l', hl', hcool, hroom⟩
    · intro p' i' k stamp sticky' heq'
      rw [heq] at heq'
      cases heq'
      refine ⟨hpicks, rfl, ht.active, by simp [ht.length_eq], ?_, ?_⟩
      · obtain ⟨l', hl', hpruned⟩ := ht.pruned hordered hl
        refine ⟨l, l'.expire now, hl, rfl, hpruned.trans (.expire ?_), ?_⟩
        · exact hordered.touched ht l' (List.mem_of_getElem? hl')
        · rw [modifyLane_get, hl', Option.map_some, if_pos rfl]
      -- the other lanes are only pruned
      · intro j l' hj hl'
        rw [modifyLane_get]
        obtain ⟨l'', hl'', hpruned⟩ := ht.pruned hordered hl'
        exact ⟨l'', by rw [hl'', Option.map_some, if_neg (Ne.symm hj)], hpruned⟩
  -- none was found, and none qualifies
  · refine ⟨⟨?_, ?_⟩, ?_⟩
    · rintro ⟨i, k, stamp, sticky, hready⟩
      rw [heq] at hready
      cases hready
    · rintro ⟨i, hi, l, hl, hcool, hroom⟩
      exact absurd ⟨hi, l, hl, hcool, hroom⟩ (hnone i)
    · intro p' i k stamp sticky heq'
      rw [heq] at heq'
      cases heq'

/-- Two keys with one slot each, and the first one's is spent: a request that prefers it gets the second, and is
not sticky. -/
theorem reserve_choice_second :
    ∃ s, poolLife.Reachable s ∧ ∃ p' k stamp sticky, s.pool.reserve 1 (some 0) = (p', .ready 1 k stamp sticky) ∧
      sticky = false ∧ stamp = 1 := by
  have hexec : (System.exec PoolLife.step ⟨Pool.new [⟨"a", 1, true⟩, ⟨"b", 1, true⟩] 0, 0⟩
      [.reserve none 0]).any (fun s => decide (s.now ≤ 1) &&
        decide ((s.pool.reserve 1 (some 0)).2 = .ready 1 "b" 1 false)) = true := by
    decide +kernel
  have hboot : poolLife.init ⟨Pool.new [⟨"a", 1, true⟩, ⟨"b", 1, true⟩] 0, 0⟩ := ⟨_, rfl⟩
  obtain ⟨s, hreach, hend⟩ := System.reachable_of_exec hboot hexec
  simp only [Bool.and_eq_true, decide_eq_true_eq] at hend
  obtain ⟨hle, hready⟩ := hend
  obtain ⟨-, hgrant⟩ := reserve_choice (s := s) hreach hle (some 0)
  have heq : s.pool.reserve 1 (some 0) = ((s.pool.reserve 1 (some 0)).1, .ready 1 "b" 1 false) := by
    rw [← hready]
  obtain ⟨-, hstamp, -⟩ := hgrant _ _ _ _ _ heq
  refine ⟨s, hreach, _, _, _, _, heq, ?_, hstamp⟩
  rfl

end Pool

end Flock
