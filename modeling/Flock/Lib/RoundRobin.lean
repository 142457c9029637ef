/-
# Flock.Lib.RoundRobin — a cursor that goes round a ring of slots.

Each round says which slots are open.  The first open one from the cursor on is served, and the cursor moves behind
it; where none is open, nothing happens.

What a slot waits for is its distance from the cursor.  Serving another slot takes the same from the distances of all
that were not passed over, so of two slots the nearer one stays nearer as long as it is open and is not served
(`not_overtaken`).  That holds whatever the other slots do.

Nothing here names a particular program.
-/
import Mathlib.Data.List.Basic

namespace Flock.Lib.RoundRobin

/-! ## One round -/

/-- The first open slot from the cursor on. -/
def pick (n : ℕ) (isOpen : ℕ → Bool) (cursor : ℕ) : Option ℕ :=
  ((List.range n).find? fun i => isOpen ((cursor + i) % n)).map fun i => (cursor + i) % n

/-- The cursor after a round. -/
def next (n cursor : ℕ) : Option ℕ → ℕ
  | some slot => (slot + 1) % n
  | none => cursor

/-- What is served in some rounds. -/
def served (n cursor : ℕ) : List (ℕ → Bool) → List (Option ℕ)
  | [] => []
  | isOpen :: rounds => pick n isOpen cursor :: served n (next n cursor (pick n isOpen cursor)) rounds

/-- How far a slot is from the cursor. -/
def distance (n cursor slot : ℕ) : ℕ := if cursor ≤ slot then slot - cursor else slot + n - cursor

variable {n cursor slot i j : ℕ} {isOpen : ℕ → Bool}

theorem distance_lt (hcursor : cursor < n) (hslot : slot < n) : distance n cursor slot < n := by
  unfold distance
  split <;> omega

theorem turn_eq (hcursor : cursor < n) (hi : i < n) :
    (cursor + i) % n = if cursor + i < n then cursor + i else cursor + i - n := by
  split
  · rename_i hlt
    exact Nat.mod_eq_of_lt hlt
  · rename_i hge
    rw [Nat.mod_eq_sub_mod (Nat.not_lt.mp hge), Nat.mod_eq_of_lt (by omega)]

theorem turn_distance (hcursor : cursor < n) (hslot : slot < n) : (cursor + distance n cursor slot) % n = slot := by
  rw [turn_eq hcursor (distance_lt hcursor hslot)]
  unfold distance
  split <;> split <;> omega

theorem distance_turn (hcursor : cursor < n) (hi : i < n) : distance n cursor ((cursor + i) % n) = i := by
  rw [turn_eq hcursor hi]
  unfold distance
  split <;> split <;> omega

/-- **The slot that is served** is open, and the nearest that is. -/
theorem pick_eq_some (hcursor : cursor < n) (h : pick n isOpen cursor = some slot) :
    slot < n ∧ isOpen slot = true ∧ ∀ j < n, isOpen j = true → distance n cursor slot ≤ distance n cursor j := by
  obtain ⟨i, hfind, rfl⟩ := Option.map_eq_some_iff.mp h
  obtain ⟨hopen, hi, hfirst⟩ := List.find?_range_eq_some.mp hfind
  have hi : i < n := List.mem_range.mp hi
  refine ⟨Nat.mod_lt _ (by omega), hopen, fun j hj hjopen => ?_⟩
  rw [distance_turn hcursor hi]
  by_contra hnearer
  have hclosed := hfirst (distance n cursor j) (Nat.not_le.mp hnearer)
  rw [turn_distance hcursor hj, hjopen] at hclosed
  cases hclosed

/-- Nothing is served exactly if nothing is open. -/
theorem pick_eq_none (hcursor : cursor < n) : pick n isOpen cursor = none ↔ ∀ j < n, isOpen j = false := by
  unfold pick
  rw [Option.map_eq_none_iff, List.find?_range_eq_none]
  constructor
  · intro h j hj
    have hclosed := h (distance n cursor j) (distance_lt hcursor hj)
    rw [turn_distance hcursor hj] at hclosed
    simpa using hclosed
  · intro h i hi
    simpa using h _ (Nat.mod_lt _ (by omega))

theorem next_lt (hcursor : cursor < n) (r : Option ℕ) : next n cursor r < n := by
  cases r with
  | none => exact hcursor
  | some slot => exact Nat.mod_lt _ (by omega)

theorem behind_eq (hslot : slot < n) : (slot + 1) % n = if slot + 1 < n then slot + 1 else 0 := by
  split
  · rename_i hlt
    exact Nat.mod_eq_of_lt hlt
  · have hlast : slot + 1 = n := by omega
    rw [hlast, Nat.mod_self]

/-- Behind a slot that was served, every other is nearer than it. -/
theorem distance_behind (hslot : slot < n) (hj : j < n) (hne : j ≠ slot) :
    distance n ((slot + 1) % n) j < distance n ((slot + 1) % n) slot := by
  rw [behind_eq hslot]
  unfold distance
  split <;> split <;> split <;> omega

/-- Serving a slot brings the slots beyond it nearer, all by the same. -/
theorem distance_next (hcursor : cursor < n) (hslot : slot < n) (hj : j < n)
    (hbeyond : distance n cursor slot < distance n cursor j) :
    distance n ((slot + 1) % n) j + (distance n cursor slot + 1) = distance n cursor j := by
  rw [behind_eq hslot]
  unfold distance at *
  split <;> split at hbeyond <;> split at hbeyond <;> split <;> omega

/-! ## Many rounds -/

variable {rounds rounds' : List (ℕ → Bool)} {a b : ℕ}

theorem length_served (n cursor : ℕ) (rounds : List (ℕ → Bool)) : (served n cursor rounds).length = rounds.length := by
  induction rounds generalizing cursor with
  | nil => rfl
  | cons isOpen rounds ih => exact congrArg (· + 1) (ih _)

theorem served_append (n cursor : ℕ) (rounds rounds' : List (ℕ → Bool)) :
    ∃ cursor', served n cursor (rounds ++ rounds') = served n cursor rounds ++ served n cursor' rounds' := by
  induction rounds generalizing cursor with
  | nil => exact ⟨cursor, rfl⟩
  | cons isOpen rounds ih =>
      obtain ⟨cursor', h⟩ := ih (next n cursor (pick n isOpen cursor))
      exact ⟨cursor', congrArg (pick n isOpen cursor :: ·) h⟩

/-- **Nobody is overtaken.**  Of two slots the nearer one comes first, if it is open in every round. -/
theorem not_overtaken (hcursor : cursor < n) (ha : a < n) (hb : b < n)
    (hnearer : distance n cursor a < distance n cursor b) (hopen : ∀ isOpen ∈ rounds, isOpen a = true)
    (hwaits : some a ∉ served n cursor rounds) : some b ∉ served n cursor rounds := by
  induction rounds generalizing cursor with
  | nil => simp [served]
  | cons isOpen rounds ih =>
      rw [served, List.mem_cons, not_or] at hwaits ⊢
      obtain ⟨hfirst, hwaits⟩ := hwaits
      have hrest : ∀ isOpen ∈ rounds, isOpen a = true := fun r hr => hopen r (List.mem_cons_of_mem _ hr)
      cases hpick : pick n isOpen cursor with
      | none =>
          rw [hpick] at hwaits
          exact ⟨nofun, ih hcursor hnearer hrest hwaits⟩
      | some slot =>
          rw [hpick] at hwaits hfirst
          obtain ⟨hslot, -, hnearest⟩ := pick_eq_some hcursor hpick
          have hle := hnearest a ha (hopen isOpen List.mem_cons_self)
          -- the slot is before `a`, and so before `b`
          have hne : distance n cursor slot ≠ distance n cursor a := by
            intro heq
            have hsame : slot = a := by
              rw [← turn_distance hcursor hslot, heq, turn_distance hcursor ha]
            exact hfirst (congrArg some hsame.symm)
          have hbefore : distance n cursor slot < distance n cursor a := by omega
          refine ⟨fun heq => ?_, ih (next_lt hcursor _) ?_ hrest hwaits⟩
          · cases heq
            omega
          · have hnext := distance_next hcursor hslot ha hbefore
            have hnext' := distance_next hcursor hslot hb (Nat.lt_trans hbefore hnearer)
            show distance n ((slot + 1) % n) a < distance n ((slot + 1) % n) b
            omega

end Flock.Lib.RoundRobin
