/-
# Flock.Lib.SlidingWindow — what a deque of stamps says about a log of events.

A sliding-window limiter remembers a list of stamps and forgets those that are older than the
window.  What makes it SAFE is not that its list is exact: it may remember more than happened (an
event taken back somewhere else, a copy made before a removal).  It must never remember less, as far
as the window reaches.  `Covers W now log kept` is that one-sided relation: inside the window, every
stamp is kept at least as often as the log has it.

The lemmas are the moves a limiter makes: time passes, expired stamps leave at the front, one event
is recorded on both sides, one is taken back on both sides or in the log only.  `covers_bound` is the
purpose: the in-window part of the log is no longer than what is kept.

Stamps are integers (a clock reading may be moved back past the clock's own origin); `age now t` is
the saturating difference, `0` for a stamp from the future.
-/
import Mathlib.Algebra.Order.Ring.Nat
import Mathlib.Data.List.Basic
import Mathlib.Data.List.Count
import Mathlib.Data.List.GetD
import Mathlib.Data.Int.Order.Basic

namespace Flock.Lib

/-- The saturating age of a stamp. -/
def age (now t : ℤ) : ℕ := (now - t).toNat

variable {W : ℕ} {now now' s t : ℤ} {log kept : List ℤ}

theorem age_mono (h : now ≤ now') (t : ℤ) : age now t ≤ age now' t := by
  unfold age; omega

@[simp] theorem age_self (t : ℤ) : age t t = 0 := by simp [age]

/-- The part of a log that is younger than `W` at `now`. -/
def inWindow (W : ℕ) (now : ℤ) (log : List ℤ) : List ℤ :=
  log.filter fun t => decide (age now t < W)

/-- Inside the window, `kept` has every stamp at least as often as `log`. -/
def Covers (W : ℕ) (now : ℤ) (log kept : List ℤ) : Prop :=
  ∀ t, age now t < W → log.count t ≤ kept.count t

/-- Drop expired stamps from the front, up to the first one still in the window. -/
def popExpired (W : ℕ) (now : ℤ) (kept : List ℤ) : List ℤ :=
  kept.dropWhile fun t => decide (W ≤ age now t)

/-- Remove the LAST occurrence of a stamp. -/
def removeLast (t : ℤ) (kept : List ℤ) : List ℤ := (kept.reverse.erase t).reverse

/-- A log that has left the window is covered by anything. -/
theorem Covers.of_expired (h : ∀ t ∈ log, W ≤ age now t) (kept : List ℤ) :
    Covers W now log kept := by
  intro t ht
  have hnot : t ∉ log := fun hmem => by
    have := h t hmem
    omega
  rw [List.count_eq_zero_of_not_mem hnot]
  exact Nat.zero_le _

/-- Only the multiset of the log matters. -/
theorem Covers.perm {log' : List ℤ} (h : Covers W now log kept) (hp : log'.Perm log) :
    Covers W now log' kept :=
  fun t ht => by rw [hp.count_eq]; exact h t ht

/-- Time passes: fewer stamps are in the window. -/
theorem Covers.later (h : Covers W now log kept) (hle : now ≤ now') : Covers W now' log kept :=
  fun t ht => h t (Nat.lt_of_le_of_lt (age_mono hle t) ht)

/-- Popping at the front loses only expired stamps, whatever the order of the deque. -/
theorem count_popExpired (ht : age now t < W) (kept : List ℤ) :
    (popExpired W now kept).count t = kept.count t := by
  induction kept with
  | nil => rfl
  | cons a as ih =>
      unfold popExpired at ih ⊢
      rw [List.dropWhile_cons]
      split
      · rename_i hold
        have hne : a ≠ t := by
          rintro rfl
          simp only [decide_eq_true_eq] at hold
          omega
        rw [ih, List.count_cons_of_ne hne]
      · rfl

theorem Covers.popExpired (h : Covers W now log kept) :
    Covers W now log (popExpired W now kept) :=
  fun t ht => by rw [count_popExpired ht]; exact h t ht

/-- One event recorded on both sides. -/
theorem Covers.record (h : Covers W now log kept) (s : ℤ) :
    Covers W now (log ++ [s]) (kept ++ [s]) := by
  intro t ht
  simp only [List.count_append]
  exact Nat.add_le_add_right (h t ht) _

theorem count_removeLast (s t : ℤ) (kept : List ℤ) :
    (removeLast s kept).count t = kept.count t - if s = t then 1 else 0 := by
  simp only [removeLast, List.count_reverse, List.count_erase, beq_iff_eq]

/-- One event taken back in the log and in what is kept. -/
theorem Covers.takeBack (h : Covers W now log kept) (s : ℤ) :
    Covers W now (log.erase s) (removeLast s kept) := by
  intro t ht
  rw [count_removeLast, List.count_erase]
  have := h t ht
  simp only [beq_iff_eq]
  omega

/-- One event taken back in the log only: what is kept now says too much, never too little. -/
theorem Covers.forget (h : Covers W now log kept) (s : ℤ) : Covers W now (log.erase s) kept :=
  fun t ht => Nat.le_trans (List.Sublist.count_le t List.erase_sublist) (h t ht)

/-- **The bound a cover is for.** Inside the window the log is no longer than what is kept. -/
theorem Covers.bound (h : Covers W now log kept) : (inWindow W now log).length ≤ kept.length := by
  have hsub : (inWindow W now log).Subperm kept := by
    rw [List.subperm_ext_iff]
    intro t ht
    have hwin : age now t < W := by
      have := (List.mem_filter.mp ht).2
      simpa using this
    calc (inWindow W now log).count t
        ≤ log.count t := List.Sublist.count_le t List.filter_sublist
      _ ≤ kept.count t := h t hwin
  exact hsub.length_le

/-! ## Deques in chronological order

A limiter that records at the end, with a clock that does not go back, keeps its stamps in order.  Then the
expired ones are exactly the front, and the n-th stamp from the end says when fewer than n are in the window. -/

section Chronological

variable {n : ℕ}

/-- Stamps in order, none of them from the future. -/
structure Chronological (now : ℤ) (kept : List ℤ) : Prop where
  ordered : kept.Pairwise (· ≤ ·)
  past : ∀ t ∈ kept, t ≤ now

theorem Chronological.nil (now : ℤ) : Chronological now [] :=
  ⟨.nil, fun _ h => absurd h List.not_mem_nil⟩

theorem Chronological.later (h : Chronological now kept) (hle : now ≤ now') : Chronological now' kept :=
  ⟨h.ordered, fun t ht => le_trans (h.past t ht) hle⟩

theorem Chronological.sublist {kept' : List ℤ} (h : Chronological now kept) (hsub : kept'.Sublist kept) :
    Chronological now kept' :=
  ⟨h.ordered.sublist hsub, fun t ht => h.past t (hsub.subset ht)⟩

/-- An event recorded now goes to the end. -/
theorem Chronological.record (h : Chronological now kept) : Chronological now (kept ++ [now]) where
  ordered := by
    apply List.pairwise_append.mpr
    refine ⟨h.ordered, List.pairwise_singleton _ _, fun t ht s hs => ?_⟩
    obtain rfl := List.mem_singleton.mp hs
    exact h.past t ht
  past t ht := by
    rcases List.mem_append.mp ht with hold | hnew
    · exact h.past t hold
    · exact le_of_eq (List.mem_singleton.mp hnew)

theorem popExpired_sublist (W : ℕ) (now : ℤ) (kept : List ℤ) : (popExpired W now kept).Sublist kept :=
  List.dropWhile_sublist _

theorem removeLast_sublist (t : ℤ) (kept : List ℤ) : (removeLast t kept).Sublist kept := by
  have hsub := (List.erase_sublist (a := t) (l := kept.reverse)).reverse
  rwa [List.reverse_reverse] at hsub

/-- What is dropped at the front is in no window from now on. -/
theorem inWindow_popExpired (hle : now ≤ now') (kept : List ℤ) :
    inWindow W now' (popExpired W now kept) = inWindow W now' kept := by
  induction kept with
  | nil => rfl
  | cons t kept ih =>
      unfold popExpired at ih ⊢
      rw [List.dropWhile_cons]
      split
      · rename_i hold
        have hlater := age_mono hle t
        have hexpired : ¬ age now' t < W := by
          have := of_decide_eq_true hold
          omega
        rw [ih]
        simp [inWindow, hexpired]
      · rfl

/-- Fewer stamps are in a later window. -/
theorem length_inWindow_anti (hle : now ≤ now') (kept : List ℤ) :
    (inWindow W now' kept).length ≤ (inWindow W now kept).length := by
  apply List.Sublist.length_le
  apply List.monotone_filter_right
  intro t ht
  simp only [decide_eq_true_eq] at ht ⊢
  exact lt_of_le_of_lt (age_mono hle t) ht

/-- A deque in order is its expired stamps, and then those in the window. -/
theorem exists_popExpired (W : ℕ) (now : ℤ) (h : kept.Pairwise (· ≤ ·)) :
    ∃ old, kept = old ++ popExpired W now kept ∧ (∀ t ∈ old, W ≤ age now t) ∧
      ∀ t ∈ popExpired W now kept, age now t < W := by
  induction kept with
  | nil => exact ⟨[], rfl, fun _ h => absurd h List.not_mem_nil, fun _ h => absurd h List.not_mem_nil⟩
  | cons t kept ih =>
      obtain ⟨hfirst, hrest⟩ := List.pairwise_cons.mp h
      by_cases hold : W ≤ age now t
      · obtain ⟨old, hsplit, hexpired, hyoung⟩ := ih hrest
        have hpop : popExpired W now (t :: kept) = popExpired W now kept :=
          List.dropWhile_cons_of_pos (decide_eq_true hold)
        rw [hpop]
        refine ⟨t :: old, by rw [List.cons_append, ← hsplit], ?_, hyoung⟩
        intro s hs
        rcases List.mem_cons.mp hs with rfl | hs
        · exact hold
        · exact hexpired s hs
      · -- the first one is in the window, and so are those after it
        have hpop : popExpired W now (t :: kept) = t :: kept :=
          List.dropWhile_cons_of_neg (by simpa using hold)
        rw [hpop]
        refine ⟨[], rfl, fun _ h => absurd h List.not_mem_nil, ?_⟩
        intro s hs
        have hle : t ≤ s := by
          rcases List.mem_cons.mp hs with rfl | hs
          · exact le_refl s
          · exact hfirst s hs
        unfold age at hold ⊢
        omega

/-- In an ordered deque, dropping the expired front leaves the stamps in the window. -/
theorem popExpired_eq_inWindow (W : ℕ) (now : ℤ) (h : kept.Pairwise (· ≤ ·)) :
    popExpired W now kept = inWindow W now kept := by
  obtain ⟨old, -, -, hyoung⟩ := exists_popExpired W now h
  rw [← inWindow_popExpired (le_refl now)]
  exact (List.filter_eq_self.mpr fun t ht => decide_eq_true (hyoung t ht)).symm

/-- **When there is room.** Fewer than `n` stamps are in the window exactly if the n-th from the end is not. -/
theorem length_inWindow_lt_iff (h : kept.Pairwise (· ≤ ·)) (hn : 0 < n) (hle : n ≤ kept.length) (d : ℤ) :
    (inWindow W now kept).length < n ↔ W ≤ age now (kept.getD (kept.length - n) d) := by
  obtain ⟨old, hsplit, hexpired, hyoung⟩ := exists_popExpired W now h
  rw [← popExpired_eq_inWindow W now h]
  generalize popExpired W now kept = young at hsplit hyoung
  subst hsplit
  rw [List.length_append] at hle ⊢
  constructor
  · intro hroom
    have hidx : old.length + young.length - n < old.length := by omega
    rw [List.getD_append _ _ _ _ hidx, List.getD_eq_getElem _ _ hidx]
    exact hexpired _ (List.getElem_mem hidx)
  · intro hold
    by_contra hfull
    have hidx : old.length + young.length - n - old.length < young.length := by omega
    rw [List.getD_append_right _ _ _ _ (by omega), List.getD_eq_getElem _ _ hidx] at hold
    have hlt := hyoung _ (List.getElem_mem hidx)
    omega

end Chronological

/-! ## Logs of stamped events

A log is usually a part of a list of events, by their stamps. -/

section Events

variable {ε : Type*} {p : ε → Bool} {stamp : ε → ℤ} {events more : List ε} {x : ε}

/-- The stamps of the events that satisfy `p`. -/
def logOf (p : ε → Bool) (stamp : ε → ℤ) (events : List ε) : List ℤ :=
  (events.filter p).map stamp

theorem logOf_append (p : ε → Bool) (stamp : ε → ℤ) (events more : List ε) :
    logOf p stamp (events ++ more) = logOf p stamp events ++ logOf p stamp more := by
  simp [logOf]

/-- Taking out what a filter does not see. -/
theorem filter_erase_of_neg [BEq ε] [LawfulBEq ε] (hx : p x = false) (events : List ε) :
    (events.erase x).filter p = events.filter p := by
  induction events with
  | nil => rfl
  | cons y ys ih =>
      by_cases hy : y = x
      · subst hy
        simp [hx]
      · rw [List.erase_cons_tail (by simpa using hy), List.filter_cons, List.filter_cons, ih]

/-- Taking back an event that is not in the log. -/
theorem logOf_erase_of_neg [BEq ε] [LawfulBEq ε] (hx : p x = false) :
    logOf p stamp (events.erase x) = logOf p stamp events := by
  rw [logOf, filter_erase_of_neg hx, logOf]

/-- Taking back an event of the log takes its stamp out once. -/
theorem logOf_erase_perm [BEq ε] [LawfulBEq ε] (hmem : x ∈ events) (hx : p x = true) :
    (logOf p stamp (events.erase x)).Perm ((logOf p stamp events).erase (stamp x)) := by
  have hp : (logOf p stamp events).Perm (stamp x :: logOf p stamp (events.erase x)) := by
    have h := ((List.perm_cons_erase hmem).filter p).map stamp
    simpa [logOf, hx] using h
  have herase := hp.erase (stamp x)
  rw [List.erase_cons_head] at herase
  exact herase.symm

/-- Counting the events with a stamp in `(now - W, now]`. -/
theorem length_filter_le_inWindow (W : ℕ) (now : ℤ) (p : ε → Bool) (stamp : ε → ℤ) (events : List ε) :
    (events.filter fun e => p e && decide (now - W < stamp e ∧ stamp e ≤ now)).length ≤
      (inWindow W now (logOf p stamp events)).length := by
  have hsplit : (events.filter fun e => p e && decide (now - W < stamp e ∧ stamp e ≤ now)) =
      (events.filter p).filter fun e => decide (now - W < stamp e ∧ stamp e ≤ now) := by
    rw [List.filter_filter]
    exact List.filter_congr fun e _ => Bool.and_comm _ _
  rw [hsplit, inWindow, logOf, List.filter_map, List.length_map]
  apply List.Sublist.length_le
  apply List.monotone_filter_right
  intro e he
  simp only [decide_eq_true_eq, Function.comp_apply] at he ⊢
  unfold age
  omega

end Events

end Flock.Lib
