/-
# Flock.Lib.Admission — a set that takes new values up to a cap.

A value is passed on as it is if the set has it or has room for it, and as a fall-back value otherwise.  The fall-back
value may itself be one of those that come.

**`Settled`** — the value is in the set, which never shrinks, or it is the fall-back value and the set is full.  A
value that was passed on as itself is settled, and stays so.

The order of arrival decides who is settled, and a value that came too late is passed on as the fall-back value each
time it comes.
-/
import Mathlib.Data.Finset.Card
import Mathlib.Data.List.Basic

namespace Flock.Lib.Admission

variable {α : Type} [DecidableEq α]

/-- One value: what is passed on, and the set. -/
def offer (cap : ℕ) (fallback : α) (seen : Finset α) (x : α) : α × Finset α :=
  if x ∈ seen then (x, seen)
  else if seen.card < cap then (x, insert x seen)
  else (fallback, seen)

/-- The set after some values. -/
def final (cap : ℕ) (fallback : α) (seen : Finset α) (xs : List α) : Finset α :=
  xs.foldl (fun seen x => (offer cap fallback seen x).2) seen

/-- What is passed on for them. -/
def outputs (cap : ℕ) (fallback : α) : Finset α → List α → List α
  | _, [] => []
  | seen, x :: xs => (offer cap fallback seen x).1 :: outputs cap fallback (offer cap fallback seen x).2 xs

/-- `x` is passed on as itself from now on. -/
def Settled (cap : ℕ) (fallback : α) (seen : Finset α) (x : α) : Prop := x ∈ seen ∨ x = fallback ∧ cap ≤ seen.card

variable {cap : ℕ} {fallback : α} {seen : Finset α} {x y : α} {xs : List α}

/-! ## One value

Three cases, as in the test: the set has the value, has room for it, or is full. -/

theorem subset_offer : seen ⊆ (offer cap fallback seen x).2 := by
  unfold offer
  split
  · exact subset_rfl
  · split
    · exact Finset.subset_insert x seen
    · exact subset_rfl

theorem card_offer_le (h : seen.card ≤ cap) : (offer cap fallback seen x).2.card ≤ cap := by
  unfold offer
  split
  · exact h
  · split
    · rename_i hroom
      exact (Finset.card_insert_le x seen).trans hroom
    · exact h

/-- What is passed on is in the set, or is the fall-back value. -/
theorem offer_mem : (offer cap fallback seen x).1 ∈ insert fallback (offer cap fallback seen x).2 := by
  unfold offer
  split
  · rename_i hseen
    exact Finset.mem_insert_of_mem hseen
  · split
    · exact Finset.mem_insert_of_mem (Finset.mem_insert_self x seen)
    · exact Finset.mem_insert_self fallback seen

/-- What is passed on is the value itself, or the fall-back value. -/
theorem offer_eq_or (cap : ℕ) (fallback : α) (seen : Finset α) (x : α) :
    (offer cap fallback seen x).1 = x ∨ (offer cap fallback seen x).1 = fallback := by
  unfold offer
  split
  · exact .inl rfl
  · split
    · exact .inl rfl
    · exact .inr rfl

/-- A settled value is passed on as it is. -/
theorem Settled.offer_eq (h : Settled cap fallback seen x) : (offer cap fallback seen x).1 = x := by
  unfold offer
  rcases h with hseen | ⟨rfl, hfull⟩
  · rw [if_pos hseen]
  · rw [if_neg (not_lt.mpr hfull)]
    split <;> rfl

/-- It stays settled, whatever comes. -/
theorem Settled.offer (h : Settled cap fallback seen x) (y : α) :
    Settled cap fallback (offer cap fallback seen y).2 x := by
  rcases h with hseen | ⟨heq, hfull⟩
  · exact .inl (subset_offer hseen)
  · exact .inr ⟨heq, hfull.trans (Finset.card_le_card subset_offer)⟩

/-- What was passed on as it is, is settled. -/
theorem settled_of_offer_eq (h : (offer cap fallback seen x).1 = x) :
    Settled cap fallback (Admission.offer cap fallback seen x).2 x := by
  unfold Admission.offer at h ⊢
  split at h
  · rename_i hseen
    rw [if_pos hseen]
    exact .inl hseen
  · rename_i hnew
    rw [if_neg hnew]
    split at h
    · rename_i hroom
      rw [if_pos hroom]
      exact .inl (Finset.mem_insert_self x seen)
    · rename_i hfull
      rw [if_neg hfull]
      exact .inr ⟨h.symm, not_lt.mp hfull⟩

/-! ## Many values

A list of values is offered from the left.  What a value is passed on as depends on those before it only, and by being
settled on none of those after it. -/

/-- The set at the end has that of the beginning. -/
theorem subset_final : seen ⊆ final cap fallback seen xs := by
  induction xs generalizing seen with
  | nil => exact subset_rfl
  | cons x xs ih => exact subset_offer.trans ih

theorem card_final_le (h : seen.card ≤ cap) : (final cap fallback seen xs).card ≤ cap := by
  induction xs generalizing seen with
  | nil => exact h
  | cons x xs ih => exact ih (card_offer_le h)

/-- A settled value stays settled. -/
theorem Settled.final (h : Settled cap fallback seen x) (xs : List α) :
    Settled cap fallback (final cap fallback seen xs) x := by
  induction xs generalizing seen with
  | nil => exact h
  | cons y xs ih => exact ih (h.offer y)

/-- All that is passed on is in the last set, or the fall-back value. -/
theorem mem_of_mem_outputs (h : y ∈ outputs cap fallback seen xs) :
    y ∈ insert fallback (final cap fallback seen xs) := by
  induction xs generalizing seen with
  | nil => cases h
  | cons x xs ih =>
      rcases List.mem_cons.mp h with rfl | h
      · show _ ∈ insert fallback (final cap fallback (offer cap fallback seen x).2 xs)
        exact Finset.insert_subset_insert fallback subset_final offer_mem
      · exact ih h

/-- **No more values are passed on than the cap, and one.** -/
theorem card_outputs_le (h : seen.card ≤ cap) : (outputs cap fallback seen xs).toFinset.card ≤ cap + 1 := by
  have hsubset : (outputs cap fallback seen xs).toFinset ⊆ insert fallback (final cap fallback seen xs) :=
    fun y hy => mem_of_mem_outputs (List.mem_toFinset.mp hy)
  calc (outputs cap fallback seen xs).toFinset.card
      ≤ (insert fallback (final cap fallback seen xs)).card := Finset.card_le_card hsubset
    _ ≤ (final cap fallback seen xs).card + 1 := Finset.card_insert_le _ _
    _ ≤ cap + 1 := Nat.add_le_add_right (card_final_le h) 1

/-- Each of them is one of the values that came, or the fall-back value. -/
theorem eq_or_of_mem_outputs (h : y ∈ outputs cap fallback seen xs) : y ∈ xs ∨ y = fallback := by
  induction xs generalizing seen with
  | nil => cases h
  | cons x xs ih =>
      rcases List.mem_cons.mp h with hfirst | h
      · rcases offer_eq_or cap fallback seen x with heq | heq
        · exact .inl (List.mem_cons.mpr (.inl (hfirst.trans heq)))
        · exact .inr (hfirst.trans heq)
      · rcases ih h with hmem | heq
        · exact .inl (List.mem_cons_of_mem x hmem)
        · exact .inr heq

/-- What is passed on at an index. -/
theorem getElem?_outputs (i : ℕ) :
    (outputs cap fallback seen xs)[i]? =
      xs[i]?.map fun x => (offer cap fallback (final cap fallback seen (xs.take i)) x).1 := by
  induction xs generalizing seen i with
  | nil => rfl
  | cons x xs ih =>
      cases i with
      | zero => rfl
      | succ i => exact ih i

omit [DecidableEq α] in
/-- A list up to a later index, cut at an earlier one. -/
theorem take_eq_append {i j : ℕ} (hi : xs[i]? = some x) (hlt : i < j) :
    xs.take j = xs.take i ++ x :: (xs.take j).drop (i + 1) := by
  obtain ⟨hilen, hget⟩ := List.getElem?_eq_some_iff.mp hi
  have hlen : i < (xs.take j).length := by
    rw [List.length_take]
    omega
  calc xs.take j = (xs.take j).take i ++ (xs.take j).drop i := (List.take_append_drop i _).symm
    _ = xs.take i ++ x :: (xs.take j).drop (i + 1) := by
      rw [List.take_take, min_eq_left hlt.le, List.drop_eq_getElem_cons hlen, List.getElem_take, hget]

/-- The set after a list, cut at one of its values. -/
theorem final_append_cons (before after : List α) : final cap fallback seen (before ++ x :: after) =
    final cap fallback (offer cap fallback (final cap fallback seen before) x).2 after := by
  unfold final
  rw [List.foldl_append, List.foldl_cons]

/-- **Once itself, always itself.** -/
theorem outputs_stable {i j : ℕ} (hle : i ≤ j) (hi : xs[i]? = some x) (hj : xs[j]? = some x)
    (hout : (outputs cap fallback seen xs)[i]? = some x) : (outputs cap fallback seen xs)[j]? = some x := by
  rcases hle.eq_or_lt with rfl | hlt
  · exact hout
  · rw [getElem?_outputs, hi] at hout
    -- settled by the first of the two calls, and left so by those between them
    have hsettled := (settled_of_offer_eq (Option.some.inj hout)).final ((xs.take j).drop (i + 1))
    rw [← final_append_cons, ← take_eq_append hi hlt] at hsettled
    rw [getElem?_outputs, hj]
    exact congrArg some hsettled.offer_eq

end Flock.Lib.Admission
