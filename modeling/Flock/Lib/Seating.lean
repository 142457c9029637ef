/-
# Flock.Lib.Seating — a shared counter whose holders come and go in any order.

Whoever comes in adds one to the counter, keeps what the counter was then, and takes one off when it leaves.
`Seating` is the abstract object: the holders, newest first, each with what it read.  A holder read at least its
own rank, and a departure only lowers ranks, so of the holders that read at most `c` there are never more than
`c`, whoever has left in between.

`Counts` is the interface a state machine uses: a counter, and for each possible holder what it read.
-/
import Mathlib.Data.Finset.Card
import Mathlib.Data.Set.Card
import Mathlib.Logic.Function.Basic

namespace Flock.Lib

universe u

variable {α : Type u}

/-! ## The holders in order -/

/-- The holders of a counter, newest first, with what each of them read. -/
inductive Seating : List (α × ℕ) → Prop
  | nil : Seating []
  | cons {a : α} {n : ℕ} {l : List (α × ℕ)} :
      l.length < n → (∀ x ∈ l, x.1 ≠ a) → Seating l → Seating ((a, n) :: l)

namespace Seating

theorem sublist {l l' : List (α × ℕ)} (h : Seating l) (hsub : l'.Sublist l) : Seating l' := by
  induction h generalizing l' with
  | nil =>
      obtain rfl := List.sublist_nil.mp hsub
      exact .nil
  | @cons a n l hlen hnew _ ih =>
      cases hsub with
      | cons _ hsub => exact ih hsub
      | cons_cons _ hsub =>
          have hshort := hsub.length_le
          exact .cons (by omega) (fun x hx => hnew x (hsub.subset hx)) (ih hsub)

theorem nodup {l : List (α × ℕ)} (h : Seating l) : (l.map Prod.fst).Nodup := by
  induction h with
  | nil => exact List.nodup_nil
  | @cons a n l _ hnew _ ih =>
      refine List.nodup_cons.mpr ⟨fun hmem => ?_, ih⟩
      obtain ⟨x, hx, hxa⟩ := List.mem_map.mp hmem
      exact hnew x hx hxa

/-- **At most `c` holders read at most `c`.**  The newest of them read its rank or more. -/
theorem card_le {l : List (α × ℕ)} (h : Seating l) (c : ℕ) : (l.filter fun x => x.2 ≤ c).length ≤ c := by
  induction h with
  | nil => exact Nat.zero_le c
  | @cons a n l hlen _ _ ih =>
      by_cases hn : n ≤ c
      · have hall : (l.filter fun x => x.2 ≤ c).length ≤ l.length := List.length_filter_le _ _
        rw [List.filter_cons_of_pos (by simpa using hn), List.length_cons]
        omega
      · rw [List.filter_cons_of_neg (by simpa using hn)]
        exact ih

end Seating

/-! ## The counter -/

/-- `counter` is the number of holders, and `read a` is what `a` read, if it is one of them. -/
def Counts (counter : ℕ) (read : α → Option ℕ) : Prop :=
  ∃ l, Seating l ∧ l.length = counter ∧ ∀ a n, (a, n) ∈ l ↔ read a = some n

namespace Counts

variable {counter : ℕ} {read : α → Option ℕ}

theorem zero : Counts 0 (fun _ : α => none) :=
  ⟨[], .nil, rfl, fun a n => by simp⟩

/-- Someone comes in. -/
theorem enter [DecidableEq α] (h : Counts counter read) {a : α} (ha : read a = none) :
    Counts (counter + 1) (Function.update read a (some (counter + 1))) := by
  obtain ⟨l, hl, hlen, hread⟩ := h
  have hnew : ∀ x ∈ l, x.1 ≠ a := by
    rintro ⟨b, n⟩ hx rfl
    rw [(hread b n).mp hx] at ha
    cases ha
  refine ⟨(a, counter + 1) :: l, .cons (by omega) hnew hl, by simp [hlen], fun b n => ?_⟩
  by_cases hb : b = a
  · subst hb
    rw [Function.update_self, List.mem_cons, hread, ha]
    simp [eq_comm]
  · rw [Function.update_of_ne hb, List.mem_cons, hread]
    simp [hb]

/-- Someone leaves: there was something to take one off. -/
theorem leave [DecidableEq α] (h : Counts counter read) {a : α} {n : ℕ} (ha : read a = some n) :
    0 < counter ∧ Counts (counter - 1) (Function.update read a none) := by
  obtain ⟨l, hl, hlen, hread⟩ := h
  have hmem : (a, n) ∈ l := (hread a n).mpr ha
  have hpos : 0 < l.length := List.length_pos_of_mem hmem
  refine ⟨by omega, l.erase (a, n), hl.sublist List.erase_sublist, ?_, fun b m => ?_⟩
  · rw [List.length_erase_of_mem hmem, hlen]
  · have hnodup : l.Nodup := List.Nodup.of_map _ hl.nodup
    rw [hnodup.mem_erase_iff, hread]
    by_cases hb : b = a
    · subst hb
      rw [Function.update_self, ha]
      simp [eq_comm]
    · rw [Function.update_of_ne hb]
      simp [hb]

/-- Nobody comes in who read nothing. -/
theorem congr {read' : α → Option ℕ} (h : Counts counter read) (heq : ∀ a, read' a = read a) :
    Counts counter read' := by
  obtain rfl : read' = read := funext heq
  exact h

/-- The counter is the number of holders. -/
theorem ncard_eq (h : Counts counter read) : {a | (read a).isSome = true}.ncard = counter := by
  classical
  obtain ⟨l, hl, hlen, hread⟩ := h
  have hset : {a | (read a).isSome = true} = ((l.map Prod.fst).toFinset : Set α) := by
    ext a
    simp only [Set.mem_ofPred_eq, List.coe_toFinset, List.mem_map, Option.isSome_iff_exists]
    constructor
    · rintro ⟨n, hn⟩
      exact ⟨(a, n), (hread a n).mpr hn, rfl⟩
    · rintro ⟨⟨b, n⟩, hmem, rfl⟩
      exact ⟨n, (hread b n).mp hmem⟩
  rw [hset, Set.ncard_coe_finset, List.toFinset_card_of_nodup hl.nodup, List.length_map, hlen]

/-- **The cap.**  Holders that all read at most `c` are at most `c`. -/
theorem card_le (h : Counts counter read) (c : ℕ) (ids : Finset α)
    (hids : ∀ a ∈ ids, ∃ n, read a = some n ∧ n ≤ c) : ids.card ≤ c := by
  classical
  obtain ⟨l, hl, -, hread⟩ := h
  have hsub : ids ⊆ ((l.filter fun x => x.2 ≤ c).map Prod.fst).toFinset := by
    intro a ha
    obtain ⟨n, hn, hle⟩ := hids a ha
    rw [List.mem_toFinset, List.mem_map]
    exact ⟨(a, n), List.mem_filter.mpr ⟨(hread a n).mpr hn, by simpa using hle⟩, rfl⟩
  calc ids.card ≤ _ := Finset.card_le_card hsub
    _ ≤ ((l.filter fun x => x.2 ≤ c).map Prod.fst).length := List.toFinset_card_le _
    _ = (l.filter fun x => x.2 ≤ c).length := List.length_map _
    _ ≤ c := hl.card_le c

end Counts

end Flock.Lib
