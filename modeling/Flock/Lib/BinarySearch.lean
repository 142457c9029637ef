/-
# Flock.Lib.BinarySearch — the index at which a predicate stops to hold, by bisection.

`partitionIndex` is `slice::partition_point` of Rust's standard library: the loop halves a window of the list, and
the entry it is left with decides.  On a list that `p` partitions (every entry with `p` stands before every entry
without) it is the number of entries with `p`; on any other list it is some index.

A search on a sorted list is a search on a partitioned one, since the entries below a bound stand first.  The border
is then where `takeWhile` ends, so a caller reasons with `takeWhile` and `dropWhile` and never with the loop.
-/
import Mathlib.Data.List.TakeWhile

namespace Flock.Lib

universe u

variable {α : Type u} {p q : α → Bool} {xs : List α}

/-- The loop: `size` entries from `base` on are left. -/
def bisect (p : ℕ → Bool) (base size : ℕ) : ℕ :=
  if size ≤ 1 then base
  else bisect p (if p (base + size / 2) then base + size / 2 else base) (size - size / 2)
termination_by size
decreasing_by omega

/-- `partition_point`. -/
def partitionIndex (p : α → Bool) (xs : List α) : ℕ :=
  if xs.length = 0 then 0
  else
    let holds := fun i => xs[i]?.any p
    let base := bisect holds 0 xs.length
    if holds base then base + 1 else base

/-- Every entry with `p` stands before every entry without. -/
def Partitioned (p : α → Bool) (xs : List α) : Prop := xs.Pairwise fun x y => p y = true → p x = true

/-- The loop keeps the border `k` in its window, and its base at the border or before it. -/
theorem bisect_spec {p : ℕ → Bool} {k base size : ℕ} (hp : ∀ i < base + size, p i = true ↔ i < k) (hsize : 0 < size)
    (hk : k ≤ base + size) (hbase : base = 0 ∨ base < k) :
    bisect p base size < base + size ∧ k ≤ bisect p base size + 1 ∧
      (bisect p base size = 0 ∨ bisect p base size < k) := by
  induction size using Nat.strong_induction_on generalizing base with
  | _ size ih =>
      rw [bisect]
      split
      · exact ⟨by omega, by omega, hbase⟩
      · rename_i hlarge
        have hhalf : 0 < size / 2 ∧ size / 2 < size := by omega
        cases hmid : p (base + size / 2) with
        | true =>
            -- the border is past the middle
            have hlt := (hp _ (by omega)).mp hmid
            have hpast : ∀ i < base + size / 2 + (size - size / 2), p i = true ↔ i < k := fun i hi => hp i (by omega)
            obtain ⟨hin, hrest⟩ := ih (size - size / 2) (by omega) hpast (by omega) (by omega) (.inr hlt)
            rw [if_pos rfl]
            exact ⟨by omega, hrest⟩
        | false =>
            have hge : ¬ base + size / 2 < k := by
              intro hlt
              rw [(hp _ (by omega)).mpr hlt] at hmid
              cases hmid
            have hbefore : ∀ i < base + (size - size / 2), p i = true ↔ i < k := fun i hi => hp i (by omega)
            obtain ⟨hin, hrest⟩ := ih (size - size / 2) (by omega) hbefore (by omega) (by omega) hbase
            rw [if_neg (by decide)]
            exact ⟨by omega, hrest⟩

/-- What `drop` leaves behind the entries that `takeWhile` takes. -/
theorem drop_length_takeWhile (xs : List α) : xs.drop (xs.takeWhile p).length = xs.dropWhile p := by
  induction xs with
  | nil => rfl
  | cons x xs ih =>
      cases hx : p x with
      | true =>
          rw [List.takeWhile_cons_of_pos hx, List.dropWhile_cons_of_pos hx, List.length_cons, List.drop_succ_cons, ih]
      | false =>
          rw [List.takeWhile_cons_of_neg (by simp [hx]), List.dropWhile_cons_of_neg (by simp [hx])]
          rfl

namespace Partitioned

/-- The rest of a partitioned list is partitioned. -/
theorem tail {x : α} (h : Partitioned p (x :: xs)) : Partitioned p xs := (List.pairwise_cons.mp h).2

/-- A part of a partitioned list, in its order, is partitioned: what a filter leaves can be searched again. -/
theorem sublist {ys : List α} (h : Partitioned p xs) (hsub : ys.Sublist xs) : Partitioned p ys :=
  List.Pairwise.sublist hsub h

/-- The entries with `p` are those up to the first one without. -/
theorem takeWhile_eq (h : Partitioned p xs) : xs.takeWhile p = xs.filter p := by
  induction xs with
  | nil => rfl
  | cons x xs ih =>
      cases hx : p x with
      | true => rw [List.takeWhile_cons_of_pos hx, List.filter_cons_of_pos hx, ih h.tail]
      | false =>
          have hnone : xs.filter p = [] := by
            apply List.filter_eq_nil_iff.mpr
            intro y hy hpy
            rw [(List.pairwise_cons.mp h).1 y hy hpy] at hx
            cases hx
          rw [List.takeWhile_cons_of_neg (by simp [hx]), List.filter_cons_of_neg (by simp [hx]), hnone]

/-- The entries without `p` are the others. -/
theorem dropWhile_eq (h : Partitioned p xs) : xs.dropWhile p = xs.filter fun x => !p x := by
  induction xs with
  | nil => rfl
  | cons x xs ih =>
      cases hx : p x with
      | true => rw [List.dropWhile_cons_of_pos hx, List.filter_cons_of_neg (by simp [hx]), ih h.tail]
      | false =>
          have hall : xs.filter (fun x => !p x) = xs := by
            apply List.filter_eq_self.mpr
            intro y hy
            cases hy' : p y with
            | true =>
                rw [(List.pairwise_cons.mp h).1 y hy hy'] at hx
                cases hx
            | false => rfl
          rw [List.dropWhile_cons_of_neg (by simp [hx]), List.filter_cons_of_pos (by simp [hx]), hall]

/-- The entry at an index has `p` just when the index is before the border. -/
theorem any_getElem?_iff (h : Partitioned p xs) {i : ℕ} :
    xs[i]?.any p = true ↔ i < (xs.takeWhile p).length := by
  induction xs generalizing i with
  | nil => simp
  | cons x xs ih =>
      cases hx : p x with
      | true =>
          rw [List.takeWhile_cons_of_pos hx, List.length_cons]
          cases i with
          | zero => simp [hx]
          | succ i =>
              rw [List.getElem?_cons_succ, ih h.tail]
              omega
      | false =>
          rw [List.takeWhile_cons_of_neg (by simp [hx])]
          refine iff_of_false ?_ (Nat.not_lt_zero i)
          intro hany
          obtain ⟨y, hget, hy⟩ := (Option.any_eq_true p _).mp hany
          -- an entry with `p` after one without
          rcases List.mem_cons.mp (List.mem_of_getElem? hget) with rfl | hmem
          · rw [hx] at hy
            cases hy
          · rw [(List.pairwise_cons.mp h).1 y hmem hy] at hx
            cases hx

/-- **On a partitioned list the search finds the border.** -/
theorem partitionIndex_eq (h : Partitioned p xs) : partitionIndex p xs = (xs.takeWhile p).length := by
  unfold partitionIndex
  split
  · rename_i hempty
    rw [List.length_eq_zero_iff.mp hempty]
    rfl
  · rename_i hpos
    have hle : (xs.takeWhile p).length ≤ xs.length := (List.takeWhile_sublist p).length_le
    have hborder : ∀ i < 0 + xs.length, xs[i]?.any p = true ↔ i < (xs.takeWhile p).length := fun i _ =>
      h.any_getElem?_iff
    obtain ⟨-, hbelow, habove⟩ := bisect_spec hborder (by omega) (by omega) (.inl rfl)
    dsimp only
    split
    · rename_i hholds
      have := h.any_getElem?_iff.mp hholds
      omega
    · rename_i hholds
      have := mt h.any_getElem?_iff.mpr hholds
      omega

/-- **A window between two searches** holds the entries between the borders. -/
theorem window_eq (hp : Partitioned p xs) (hq : Partitioned q xs) (hpq : ∀ x, p x = true → q x = true) :
    (xs.take (partitionIndex q xs)).drop (partitionIndex p xs) = xs.filter fun x => !p x && q x := by
  have hboth : xs.takeWhile p = (xs.takeWhile q).takeWhile p := by
    rw [List.takeWhile_takeWhile]
    congr 1
    funext x
    cases hx : p x with
    | true => simp [hpq x hx]
    | false => simp
  have hfront : Partitioned p (xs.takeWhile q) := hp.sublist (List.takeWhile_sublist q)
  calc (xs.take (partitionIndex q xs)).drop (partitionIndex p xs)
      = (xs.takeWhile q).drop ((xs.takeWhile q).takeWhile p).length := by
        rw [hq.partitionIndex_eq, hp.partitionIndex_eq, hboth,
          ← List.prefix_iff_eq_take.mp (List.takeWhile_prefix q)]
    _ = (xs.takeWhile q).dropWhile p := drop_length_takeWhile _
    _ = xs.filter fun x => !p x && q x := by
        rw [hfront.dropWhile_eq, hq.takeWhile_eq, List.filter_filter]

end Partitioned

end Flock.Lib
