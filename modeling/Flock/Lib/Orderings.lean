/-
# Flock.Lib.Orderings — two ways to reorder a list, and when nothing is lost.

A list rotated by a counter that wraps at `W`, and a list sorted by a key.  The second always lists
what it was given.  The first does so exactly when the counter does not wrap inside the rotation, or
wraps to the residue it would have had anyway.  What both come down to is that as many indices as
there are places miss none exactly if they repeat none.
-/
import Mathlib.Data.List.Pairwise
import Mathlib.Data.List.Perm.Subperm
import Mathlib.Data.List.Sort
import Mathlib.Data.List.GetD
import Mathlib.Data.Nat.ModEq

namespace Flock.Lib

/-- **The pigeonhole principle**, for as many indices as there are places. -/
theorem nodup_iff_covers {ps : List ℕ} {n : ℕ} (hlength : ps.length = n) (hlt : ∀ p ∈ ps, p < n) :
    ps.Nodup ↔ ∀ j < n, j ∈ ps := by
  have hinto : ps ⊆ List.range n := fun p hp => List.mem_range.mpr (hlt p hp)
  constructor
  · intro hnodup j hj
    have hperm : ps.Perm (List.range n) :=
      (hnodup.subperm hinto).perm_of_length_le (by rw [List.length_range, hlength])
    exact hperm.mem_iff.mpr (List.mem_range.mpr hj)
  · intro hcovers
    have honto : List.range n ⊆ ps := fun j hj => hcovers j (List.mem_range.mp hj)
    have hperm : (List.range n).Perm ps :=
      (List.nodup_range.subperm honto).perm_of_length_le (by rw [List.length_range, hlength])
    exact hperm.nodup_iff.mp List.nodup_range

/-! ## Rotation by a wrapping counter -/

/-- The index a rotation of `n` places reads at its `i`-th step, the counter standing at `s`. -/
def turn (W n s i : ℕ) : ℕ := (s + i) % W % n

variable {W n s i j : ℕ}

theorem turn_lt (hn : 0 < n) : turn W n s i < n := Nat.mod_lt _ hn

/-- Without a wrap, and with a wrap at a multiple of the length, the counter might as well be
unbounded. -/
theorem turn_eq (h : s % W + n ≤ W ∨ n ∣ W) (hi : i < n) : turn W n s i = (s % W + i) % n := by
  unfold turn
  rw [← Nat.mod_add_mod]
  rcases h with hle | hdvd
  · rw [Nat.mod_eq_of_lt (by omega : s % W + i < W)]
  · rw [Nat.mod_mod_of_dvd _ hdvd]

theorem turn_injOn (h : s % W + n ≤ W ∨ n ∣ W) (hi : i < n) (hj : j < n)
    (hij : turn W n s i = turn W n s j) : i = j := by
  rw [turn_eq h hi, turn_eq h hj] at hij
  have hmod : i ≡ j [MOD n] := Nat.ModEq.add_left_cancel' (s % W) hij
  have hmod : i % n = j % n := hmod
  rwa [Nat.mod_eq_of_lt hi, Nat.mod_eq_of_lt hj] at hmod

/-- **A wrap that changes the residue hits some index twice.** Of the `n` steps the last before the
wrap leaves the residue `W % n` behind, and the steps after it start again from `0`. -/
theorem exists_turn_collision (hW : 0 < W) (hwrap : W < s % W + n) (hdvd : ¬ n ∣ W) :
    ∃ i < n, ∃ j < n, i ≠ j ∧ turn W n s i = turn W n s j := by
  have hs : s % W < W := Nat.mod_lt s hW
  have hn : 0 < n := by omega
  -- `k` steps before the wrap, and `ρ` the residue it breaks
  obtain ⟨k, hk⟩ : ∃ k, W = s % W + k := ⟨W - s % W, by omega⟩
  have hρ : W % n ≠ 0 := fun h0 => hdvd (Nat.dvd_of_mod_eq_zero h0)
  have hρn : W % n < n := Nat.mod_lt W hn
  have hdiv : n * (W / n) + W % n = W := Nat.div_add_mod W n
  have hbefore : ∀ i c, s % W + i = n * (W / n) + c → c < n → i < k → turn W n s i = c := by
    intro i c heq hc hi
    unfold turn
    rw [← Nat.mod_add_mod, Nat.mod_eq_of_lt (by omega : s % W + i < W), heq, Nat.mul_add_mod,
      Nat.mod_eq_of_lt hc]
  have hafter : ∀ c, c < W → c < n → turn W n s (k + c) = c := by
    intro c hcW hc
    unfold turn
    rw [← Nat.mod_add_mod, show s % W + (k + c) = W + c by omega, Nat.add_mod_left,
      Nat.mod_eq_of_lt hcW, Nat.mod_eq_of_lt hc]
  rcases Nat.lt_or_ge (W % n) k with hlt | hge
  · refine ⟨k - W % n, by omega, k + 0, by omega, by omega, ?_⟩
    rw [hbefore (k - W % n) 0 (by omega) hn (by omega), hafter 0 hW hn]
  · refine ⟨0, hn, k + (W % n - k), by omega, by omega, ?_⟩
    rw [hbefore 0 (W % n - k) (by omega) (by omega) (by omega),
      hafter (W % n - k) (by omega) (by omega)]

variable {α β : Type*}

/-- `l` read from the counter on, as many steps as it is long. -/
def rotation (W s : ℕ) (d : α) (l : List α) : List α :=
  (List.range l.length).map fun i => l.getD (turn W l.length s i) d

variable {d : α} {l : List α}

theorem length_rotation : (rotation W s d l).length = l.length := by
  simp [rotation]

theorem rotation_subset : rotation W s d l ⊆ l := by
  intro x hx
  obtain ⟨i, hi, rfl⟩ := List.mem_map.mp hx
  have hpos : 0 < l.length := Nat.lt_of_le_of_lt (Nat.zero_le i) (List.mem_range.mp hi)
  rw [List.getD_eq_getElem l d (turn_lt hpos)]
  exact List.getElem_mem _

/-- A rotation that repeats nothing loses nothing. -/
theorem rotation_perm (h : (rotation W s d l).Nodup) : (rotation W s d l).Perm l :=
  (h.subperm rotation_subset).perm_of_length_le (Nat.le_of_eq length_rotation.symm)

/-- **When a rotation repeats nothing.** -/
theorem rotation_nodup_iff (hW : 0 < W) (hl : l.Nodup) :
    (rotation W s d l).Nodup ↔ s % W + l.length ≤ W ∨ l.length ∣ W := by
  constructor
  · intro hnodup
    by_contra hnot
    obtain ⟨hwrap, hdvd⟩ := not_or.mp hnot
    obtain ⟨i, hi, j, hj, hne, heq⟩ := exists_turn_collision (s := s) hW (by omega) hdvd
    refine hne (List.inj_on_of_nodup_map hnodup (List.mem_range.mpr hi) (List.mem_range.mpr hj) ?_)
    rw [heq]
  · intro h
    refine List.Nodup.map_on ?_ List.nodup_range
    intro i hi j hj hij
    have hi := List.mem_range.mp hi
    have hj := List.mem_range.mp hj
    have hpos : 0 < l.length := by omega
    rw [List.getD_eq_getElem l d (turn_lt hpos), List.getD_eq_getElem l d (turn_lt hpos)] at hij
    exact turn_injOn h hi hj ((hl.getElem_inj_iff).mp hij)

/-! ## Sorting by a key -/

section Key

variable [LE β] [DecidableLE β] [Std.Total (α := β) (· ≤ ·)] [IsTrans β (· ≤ ·)]

theorem pairwise_insertionSort_key (key : α → β) (l : List α) :
    (l.insertionSort fun a b => key a ≤ key b).Pairwise fun a b => key a ≤ key b := by
  have : Std.Total fun a b => key a ≤ key b :=
    ⟨fun a b => Std.Total.total (r := (· ≤ · : β → β → Prop)) (key a) (key b)⟩
  have : IsTrans α fun a b => key a ≤ key b := ⟨fun _ _ _ hab hbc => trans_of (· ≤ ·) hab hbc⟩
  exact List.pairwise_insertionSort _ l

end Key

/-- Two relations that hold along a list hold together between any two of its members, one way or
the other. -/
theorem pairwise_or_pairwise {R S : α → α → Prop} (hR : l.Pairwise R) (hS : l.Pairwise S)
    {a b : α} (ha : a ∈ l) (hb : b ∈ l) (hne : a ≠ b) : (R a b ∧ S a b) ∨ (R b a ∧ S b a) := by
  have : Std.Symm fun a b => (R a b ∧ S a b) ∨ (R b a ∧ S b a) := ⟨fun _ _ h => h.symm⟩
  have hboth : l.Pairwise fun a b => (R a b ∧ S a b) ∨ (R b a ∧ S b a) :=
    (hR.and hS).imp Or.inl
  exact hboth.forall ha hb hne

end Flock.Lib
