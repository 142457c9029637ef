/-
# Flock.Lib.FirstMatch — rewriting and removing the first entry of a list that matches.

`updateFirst` is what a program does that searches a list for an entry and writes through the reference it
gets; `eraseP` is what it does that removes the entry it found.  Either way one entry changes, and the lemmas
say what is seen of it through a `map` or a `filter`.
-/
import Mathlib.Data.List.Basic

namespace Flock.Lib

universe u v

variable {α : Type u} {β : Type v} {p q : α → Bool} {f : α → α} {l : List α} {x : α}

/-- Rewrite the first entry that matches. -/
def updateFirst (p : α → Bool) (f : α → α) : List α → List α
  | [] => []
  | x :: rest => if p x then f x :: rest else x :: updateFirst p f rest

/-- Where the first entry that matches stands. -/
theorem exists_of_find? (h : l.find? p = some x) :
    ∃ before after, l = before ++ x :: after ∧ p x = true ∧ ∀ y ∈ before, p y = false := by
  obtain ⟨hx, before, after, rfl, hbefore⟩ := List.find?_eq_some_iff_append.mp h
  exact ⟨before, after, rfl, hx, fun y hy => by simpa using hbefore y hy⟩

theorem updateFirst_append {before after : List α} (hx : p x = true)
    (hbefore : ∀ y ∈ before, p y = false) :
    updateFirst p f (before ++ x :: after) = before ++ f x :: after := by
  induction before with
  | nil => simp [updateFirst, hx]
  | cons y rest ih =>
      have hy : p y = false := hbefore y (by simp)
      have hrest := ih fun z hz => hbefore z (by simp [hz])
      simp [updateFirst, hy, hrest]

theorem updateFirst_of_find?_eq_none (h : l.find? p = none) : updateFirst p f l = l := by
  induction l with
  | nil => rfl
  | cons y rest ih =>
      rw [List.find?_cons] at h
      split at h
      · cases h
      · rename_i hy
        simp [updateFirst, hy, ih h]

/-- The first entry that matches is rewritten where it stands. -/
theorem updateFirst_eq (h : l.find? p = some x) (f : α → α) :
    ∃ before after, l = before ++ x :: after ∧ updateFirst p f l = before ++ f x :: after := by
  obtain ⟨before, after, rfl, hx, hbefore⟩ := exists_of_find? h
  exact ⟨before, after, rfl, updateFirst_append hx hbefore⟩

/-- A view that the rewrite does not touch. -/
theorem map_updateFirst {g : α → β} (hfix : ∀ x, l.find? p = some x → g (f x) = g x) :
    (updateFirst p f l).map g = l.map g := by
  cases h : l.find? p with
  | none => rw [updateFirst_of_find?_eq_none h]
  | some x =>
      obtain ⟨before, after, hl, hupdate⟩ := updateFirst_eq h f
      rw [hupdate, hl, List.map_append, List.map_append, List.map_cons, List.map_cons, hfix x h]

/-- Entries that neither the old nor the new value is one of. -/
theorem filter_updateFirst
    (hout : ∀ x, l.find? p = some x → q x = false ∧ q (f x) = false) :
    (updateFirst p f l).filter q = l.filter q := by
  cases h : l.find? p with
  | none => rw [updateFirst_of_find?_eq_none h]
  | some x =>
      obtain ⟨before, after, hl, hupdate⟩ := updateFirst_eq h f
      obtain ⟨hold, hnew⟩ := hout x h
      rw [hupdate, hl]
      simp [hold, hnew]

/-- Entries that the one removed is not one of. -/
theorem filter_eraseP (hout : ∀ x, l.find? p = some x → q x = false) :
    (l.eraseP p).filter q = l.filter q := by
  cases h : l.find? p with
  | none =>
      rw [List.eraseP_of_forall_not]
      simpa using h
  | some x =>
      obtain ⟨before, after, rfl, hx, hbefore⟩ := exists_of_find? h
      rw [List.eraseP_append_right _ (by simpa using hbefore), List.eraseP_cons_of_pos hx]
      simp [hout x h]

/-- What matches first after the rewrite. -/
theorem find?_updateFirst (h : l.find? p = some x) (hf : p (f x) = true) :
    (updateFirst p f l).find? p = some (f x) := by
  obtain ⟨before, after, rfl, hx, hbefore⟩ := exists_of_find? h
  rw [updateFirst_append hx hbefore, List.find?_append,
    List.find?_eq_none.mpr (by simpa using hbefore)]
  simp [hf]

end Flock.Lib
