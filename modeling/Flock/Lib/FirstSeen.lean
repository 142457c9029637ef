/-
# Flock.Lib.FirstSeen — the items whose key has not been seen.

A list is gone through once.  An item is taken if its key is new, and then its key is new no longer.  Which items are
taken depends on the order of the list; which keys does not, and each of them is taken once.
-/
import Mathlib.Data.List.Nodup

namespace Flock.Lib

universe u v w

variable {α : Type u} {κ : Type v} {β : Type w} [DecidableEq κ] {key : α → κ} {seen : List κ} {x : α} {xs : List α}

/-- The items that bring a new key. -/
def firstSeen (key : α → κ) : List κ → List α → List α
  | _, [] => []
  | seen, x :: xs => if key x ∈ seen then firstSeen key seen xs else x :: firstSeen key (key x :: seen) xs

theorem firstSeen_cons_of_mem (h : key x ∈ seen) : firstSeen key seen (x :: xs) = firstSeen key seen xs := if_pos h

theorem firstSeen_cons_of_notMem (h : key x ∉ seen) :
    firstSeen key seen (x :: xs) = x :: firstSeen key (key x :: seen) xs := if_neg h

/-- **The keys that are taken** are those of the list that were not there. -/
theorem mem_map_firstSeen {k : κ} : k ∈ (firstSeen key seen xs).map key ↔ k ∈ xs.map key ∧ k ∉ seen := by
  induction xs generalizing seen with
  | nil => simp [firstSeen]
  | cons x xs ih =>
      by_cases hseen : key x ∈ seen
      · rw [firstSeen_cons_of_mem hseen, ih, List.map_cons, List.mem_cons]
        constructor
        · exact fun h => ⟨.inr h.1, h.2⟩
        · rintro ⟨rfl | hmem, hnot⟩
          · exact absurd hseen hnot
          · exact ⟨hmem, hnot⟩
      · rw [firstSeen_cons_of_notMem hseen, List.map_cons, List.mem_cons, ih, List.map_cons, List.mem_cons, List.mem_cons]
        by_cases hk : k = key x
        · subst hk
          simp [hseen]
        · simp [hk]

/-- **Each is taken once.** -/
theorem nodup_map_firstSeen : ((firstSeen key seen xs).map key).Nodup := by
  induction xs generalizing seen with
  | nil => exact List.nodup_nil
  | cons x xs ih =>
      by_cases hseen : key x ∈ seen
      · rw [firstSeen_cons_of_mem hseen]
        exact ih
      · rw [firstSeen_cons_of_notMem hseen, List.map_cons, List.nodup_cons]
        exact ⟨fun hmem => (mem_map_firstSeen.mp hmem).2 List.mem_cons_self, ih⟩

/-- One step of a loop that keeps the keys it has seen, and what it made of the items it took. -/
def takeNew (key : α → κ) (make : α → β) (acc : List κ × List β) (x : α) : List κ × List β :=
  if key x ∈ acc.1 then acc else (key x :: acc.1, acc.2 ++ [make x])

/-- **The loop takes the items that bring a new key.** -/
theorem foldl_takeNew (make : α → β) (xs : List α) (seen : List κ) (made : List β) :
    (xs.foldl (takeNew key make) (seen, made)).2 = made ++ (firstSeen key seen xs).map make := by
  induction xs generalizing seen made with
  | nil => simp [firstSeen]
  | cons x xs ih =>
      rw [List.foldl_cons]
      by_cases hseen : key x ∈ seen
      · have hstep : takeNew key make (seen, made) x = (seen, made) := if_pos hseen
        rw [hstep, ih, firstSeen_cons_of_mem hseen]
      · have hstep : takeNew key make (seen, made) x = (key x :: seen, made ++ [make x]) := if_neg hseen
        rw [hstep, ih, firstSeen_cons_of_notMem hseen, List.map_cons, List.append_assoc]
        rfl

end Flock.Lib
