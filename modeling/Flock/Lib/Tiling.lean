/-
# Flock.Lib.Tiling — intervals end to end, and what is left of them after grouping.

A list is sorted into `n` buckets by an index that does not go down along it.  Each bucket is then a segment of the
list, so if the entries are intervals end to end, the hulls of the buckets are again intervals end to end, over the
same range.

The intervals are given by two functions `lo` and `hi` on the entries, so the entries can be anything that has two
ends.  A tiling fixes its own range: it is empty only if the range is.
-/
import Mathlib.Algebra.BigOperators.Group.List.Basic
import Mathlib.Data.List.Basic
import Mathlib.Data.List.Range

namespace Flock.Lib

universe u v

variable {α : Type u} {β : Type v}

/-! ## Buckets

The buckets are filled by one pass that modifies the bucket of each entry.  That this is the same as filtering for
every bucket is what makes a bucket a segment. -/

section Buckets

variable (f : α → ℕ) (g : β → α → β)

/-- A bucket takes in the entries with its index, in order. -/
theorem getElem?_foldl_modify (xs : List α) (bs : List β) (j : ℕ) :
    (xs.foldl (fun bs x => bs.modify (f x) fun b => g b x) bs)[j]? =
      bs[j]?.map fun b => (xs.filter fun x => f x = j).foldl g b := by
  induction xs generalizing bs with
  | nil => simp
  | cons x xs ih =>
      rw [List.foldl_cons, ih, List.getElem?_modify]
      by_cases hx : f x = j
      · simp only [hx, if_true, Option.map_eq_map, Option.map_map, List.filter_cons, decide_true, List.foldl_cons]
        rfl
      · simp only [hx, if_false, Option.map_eq_map, Option.map_id', List.filter_cons, decide_false,
          Bool.false_eq_true]

/-- **Sorting into buckets**: each is built from the entries with its index. -/
theorem foldl_modify_replicate (xs : List α) (n : ℕ) (b : β) :
    xs.foldl (fun bs x => bs.modify (f x) fun b => g b x) (List.replicate n b) =
      (List.range n).map fun j => (xs.filter fun x => f x = j).foldl g b := by
  apply List.ext_getElem?
  intro j
  rw [getElem?_foldl_modify, List.getElem?_replicate, List.getElem?_map]
  by_cases hj : j < n
  · rw [if_pos hj, List.getElem?_range hj]
    rfl
  · rw [if_neg hj, List.getElem?_eq_none (by simpa using hj)]
    rfl

/-- Along an index that does not go down, the entries at `m` come right after those below. -/
theorem filter_lt_succ {xs : List α} (hsorted : xs.Pairwise fun x y => f x ≤ f y) (m : ℕ) :
    (xs.filter fun x => f x < m) ++ (xs.filter fun x => f x = m) = xs.filter fun x => f x < m + 1 := by
  induction xs with
  | nil => rfl
  | cons x xs ih =>
      obtain ⟨hle, hsorted⟩ := List.pairwise_cons.mp hsorted
      have ih := ih hsorted
      by_cases hx : f x < m
      · rw [List.filter_cons_of_pos (by simpa using hx), List.filter_cons_of_neg (by simpa using hx.ne),
          List.filter_cons_of_pos (by simpa using Nat.lt_succ_of_lt hx), List.cons_append, ih]
      · -- from here on no entry is below `m`
        have hnone : xs.filter (fun y => f y < m) = [] := by
          apply List.filter_eq_nil_iff.mpr
          intro y hy
          have := hle y hy
          simp only [decide_eq_true_eq]
          omega
        rw [hnone, List.nil_append] at ih
        rw [List.filter_cons_of_neg (by simpa using hx), hnone, List.nil_append]
        by_cases hxm : f x = m
        · rw [List.filter_cons_of_pos (by simpa using hxm), ih,
            List.filter_cons_of_pos (by simp only [decide_eq_true_eq]; omega)]
        · rw [List.filter_cons_of_neg (by simpa using hxm), ih,
            List.filter_cons_of_neg (by simp only [decide_eq_true_eq]; omega)]

/-- **An index that does not go down** cuts the list into segments. -/
theorem flatMap_filter_index {xs : List α} (hsorted : xs.Pairwise fun x y => f x ≤ f y) {n : ℕ}
    (hlt : ∀ x ∈ xs, f x < n) : (List.range n).flatMap (fun j => xs.filter fun x => f x = j) = xs := by
  have hbelow : ∀ m, (List.range m).flatMap (fun j => xs.filter fun x => f x = j) = xs.filter fun x => f x < m := by
    intro m
    induction m with
    | zero => simp
    | succ m ih => rw [List.range_succ, List.flatMap_append, ih, List.flatMap_singleton, filter_lt_succ f hsorted]
  rw [hbelow n]
  exact List.filter_eq_self.mpr fun x hx => decide_eq_true (hlt x hx)

end Buckets

/-! ## Intervals end to end

A list is followed from its left end: an entry begins where the one before it ended. -/

section Tiles

variable {lo hi : α → ℕ} {lo' hi' : β → ℕ}

/-- **`Tiles lo hi a xs c`** — the intervals of `xs` are end to end, from `a` to `c`. -/
def Tiles (lo hi : α → ℕ) : ℕ → List α → ℕ → Prop
  | a, [], c => a = c
  | a, x :: xs, c => lo x = a ∧ a ≤ hi x ∧ Tiles lo hi (hi x) xs c

variable {a c : ℕ} {xs ys : List α}

/-- Two tilings that meet are one, and a tiling can be cut between any two entries. -/
theorem tiles_append : Tiles lo hi a (xs ++ ys) c ↔ ∃ b, Tiles lo hi a xs b ∧ Tiles lo hi b ys c := by
  induction xs generalizing a with
  | nil =>
      constructor
      · exact fun h => ⟨a, rfl, h⟩
      · rintro ⟨b, rfl, h⟩
        exact h
  | cons x xs ih =>
      simp only [List.cons_append, Tiles, ih]
      constructor
      · rintro ⟨hlo, hle, b, hxs, hys⟩
        exact ⟨b, ⟨hlo, hle, hxs⟩, hys⟩
      · rintro ⟨b, ⟨hlo, hle, hxs⟩, hys⟩
        exact ⟨hlo, hle, b, hxs, hys⟩

namespace Tiles

theorem le (h : Tiles lo hi a xs c) : a ≤ c := by
  induction xs generalizing a with
  | nil => exact Nat.le_of_eq h
  | cons x xs ih =>
      obtain ⟨-, hle, hrest⟩ := h
      exact hle.trans (ih hrest)

/-- Each interval has its ends in order. -/
theorem le_of_mem (h : Tiles lo hi a xs c) {x : α} (hx : x ∈ xs) : lo x ≤ hi x := by
  induction xs generalizing a with
  | nil => exact absurd hx List.not_mem_nil
  | cons y xs ih =>
      obtain ⟨hlo, hle, hrest⟩ := h
      rcases List.mem_cons.mp hx with rfl | hx
      · omega
      · exact ih hrest hx

/-- Each starts where the one before ends. -/
theorem isChain (h : Tiles lo hi a xs c) : xs.IsChain fun x y => hi x = lo y := by
  induction xs generalizing a with
  | nil => exact .nil
  | cons x xs ih =>
      obtain ⟨-, -, hrest⟩ := h
      refine List.isChain_cons.mpr ⟨?_, ih hrest⟩
      intro y hy
      obtain ⟨ys, rfl⟩ := List.head?_eq_some_iff.mp hy
      exact hrest.1.symm

/-- The last interval ends where the tiling does. -/
theorem last (h : Tiles lo hi a xs c) : ∀ x ∈ xs.getLast?, hi x = c := by
  intro x hx
  obtain ⟨ys, rfl⟩ := List.getLast?_eq_some_iff.mp hx
  obtain ⟨b, -, -, -, hlast⟩ := tiles_append.mp h
  exact hlast

/-- **Grouping keeps the tiling**: groups, in order, each with an interval over what it covers. -/
theorem groups {hull : List α → Option β} (hnil : hull [] = none)
    (hhull : ∀ {group a b}, group ≠ [] → Tiles lo hi a group b → ∃ y, hull group = some y ∧ lo' y = a ∧ hi' y = b)
    {gs : List (List α)} (h : Tiles lo hi a gs.flatten c) : Tiles lo' hi' a (gs.filterMap hull) c := by
  induction gs generalizing a with
  | nil => exact h
  | cons group gs ih =>
      obtain ⟨b, hgroup, hrest⟩ := tiles_append.mp h
      by_cases hempty : group = []
      · subst hempty
        obtain rfl : a = b := hgroup
        rw [List.filterMap_cons_none hnil]
        exact ih hrest
      · obtain ⟨y, hy, hlo, hhi⟩ := hhull hempty hgroup
        rw [List.filterMap_cons_some hy]
        exact ⟨hlo, hhi ▸ hgroup.le, hhi ▸ ih hrest⟩

/-- Each group covers an interval of its own. -/
theorem of_mem_groups {gs : List (List α)} (h : Tiles lo hi a gs.flatten c) {group : List α} (hgroup : group ∈ gs) :
    ∃ b d, Tiles lo hi b group d := by
  obtain ⟨before, after, rfl⟩ := List.append_of_mem hgroup
  rw [List.flatten_append, List.flatten_cons] at h
  obtain ⟨b, -, hrest⟩ := tiles_append.mp h
  obtain ⟨d, htiles, -⟩ := tiles_append.mp hrest
  exact ⟨b, d, htiles⟩

end Tiles

end Tiles

/-- A sum over the groups is the sum over what they hold. -/
theorem sum_groups {M : Type*} [AddMonoid M] {hull : List α → Option β} {weight : α → M} {total : β → M}
    {gs : List (List α)} (hnone : ∀ group ∈ gs, hull group = none → group = [])
    (hsome : ∀ group ∈ gs, ∀ y, hull group = some y → total y = (group.map weight).sum) :
    ((gs.filterMap hull).map total).sum = (gs.flatten.map weight).sum := by
  induction gs with
  | nil => rfl
  | cons group gs ih =>
      have ih := ih (fun g hg => hnone g (List.mem_cons_of_mem _ hg)) fun g hg => hsome g (List.mem_cons_of_mem _ hg)
      rw [List.flatten_cons, List.map_append, List.sum_append, ← ih]
      cases hull_eq : hull group with
      | none =>
          rw [List.filterMap_cons_none hull_eq, hnone group List.mem_cons_self hull_eq, List.map_nil, List.sum_nil,
            zero_add]
      | some y =>
          rw [List.filterMap_cons_some hull_eq, List.map_cons, List.sum_cons,
            hsome group List.mem_cons_self y hull_eq]

end Flock.Lib
