/-
# Flock.Lib.Flat — the join of values that may disagree.

Nothing was said yet, or one value was, or what was said does not agree.  Joining two of these is commutative,
associative and idempotent, so that many can be joined in any order: a join semilattice, flat but for its two ends.
-/
import Mathlib.Order.Lattice
import Mathlib.Order.BoundedOrder.Basic

namespace Flock.Lib

universe u

/-- Nothing, one value, or values that disagree. -/
inductive Flat (α : Type u) where
  | absent
  | value (a : α)
  | invalid
  deriving DecidableEq, Repr

namespace Flat

variable {α : Type u} [DecidableEq α]

/-- Values that disagree are invalid, and stay so. -/
def join : Flat α → Flat α → Flat α
  | absent, y => y
  | x, absent => x
  | value a, value b => if a = b then value a else invalid
  | _, _ => invalid

theorem join_comm (x y : Flat α) : x.join y = y.join x := by
  cases x <;> cases y <;> try rfl
  rename_i a b
  by_cases h : a = b
  · rw [h]
  · rw [join, join, if_neg h, if_neg (Ne.symm h)]

theorem join_self (x : Flat α) : x.join x = x := by
  cases x with
  | absent => rfl
  | value a => exact if_pos rfl
  | invalid => rfl

theorem join_absent (x : Flat α) : x.join absent = x := by
  rw [join_comm]
  rfl

theorem invalid_join (x : Flat α) : invalid.join x = invalid := by
  cases x <;> rfl

theorem join_assoc (x y z : Flat α) : (x.join y).join z = x.join (y.join z) := by
  cases x with
  | absent => rfl
  | invalid => rw [invalid_join, invalid_join, invalid_join]
  | value a =>
      cases z with
      | absent => rw [join_absent, join_absent]
      | invalid => rw [join_comm _ invalid, invalid_join, join_comm y, invalid_join, join_comm, invalid_join]
      | value c =>
          cases y with
          | absent => rfl
          | invalid => rfl
          | value b =>
              -- three values: they agree, or nothing brings them back
              by_cases hab : a = b <;> by_cases hbc : b = c <;> simp_all [join]

instance : Max (Flat α) := ⟨join⟩

instance : SemilatticeSup (Flat α) := SemilatticeSup.mk' join_comm join_assoc join_self

instance : OrderBot (Flat α) where
  bot := absent
  bot_le x := show join absent x = x from rfl

theorem sup_invalid (x : Flat α) : x ⊔ invalid = invalid := by
  rw [sup_comm]
  exact invalid_join x

end Flat

end Flock.Lib
