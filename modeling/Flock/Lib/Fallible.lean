/-
# Flock.Lib.Fallible — calls that give a value, give none, or panic.

Sequencing stops at the first call that gives no value.  `Returns` is what is left when panics are ruled out, and
`returns_bind_iff` takes it apart step by step: a later step has to return only for the values that reach it.
-/

namespace Flock.Lib

/-- How a call ends. -/
inductive Fallible (ε α : Type) where
  | value (a : α)
  | absent
  | panics (e : ε)
  deriving DecidableEq

namespace Fallible

variable {ε α β : Type}

/-- One call, and then another with its value. -/
def andThen : Fallible ε α → (α → Fallible ε β) → Fallible ε β
  | .value a, f => f a
  | .absent, _ => .absent
  | .panics e, _ => .panics e

instance : Monad (Fallible ε) where
  pure := .value
  bind := andThen

/-- A value, or none. -/
def orAbsent : Option α → Fallible ε α
  | some a => .value a
  | none => .absent

/-- A value, or a panic. -/
def orPanic (e : ε) : Option α → Fallible ε α
  | some a => .value a
  | none => .panics e

/-- **`Returns p`** — the call does not panic. -/
def Returns (p : Fallible ε α) : Prop := ∀ e, p ≠ .panics e

variable {p : Fallible ε α} {f : α → Fallible ε β} {o : Option α} {e : ε} {a : α} {b : β}

@[simp] theorem pure_eq (a : α) : (pure a : Fallible ε α) = .value a := rfl
@[simp] theorem value_bind (a : α) (f : α → Fallible ε β) : (Fallible.value a >>= f) = f a := rfl
@[simp] theorem absent_bind (f : α → Fallible ε β) : ((Fallible.absent : Fallible ε α) >>= f) = .absent := rfl
@[simp] theorem panics_bind (e : ε) (f : α → Fallible ε β) : ((Fallible.panics e : Fallible ε α) >>= f) = .panics e := rfl
@[simp] theorem orAbsent_some (a : α) : (orAbsent (some a) : Fallible ε α) = .value a := rfl
@[simp] theorem orAbsent_none : (orAbsent (none : Option α) : Fallible ε α) = .absent := rfl
@[simp] theorem orPanic_some (e : ε) (a : α) : orPanic e (some a) = .value a := rfl
@[simp] theorem orPanic_none (e : ε) : orPanic e (none : Option α) = .panics e := rfl

@[simp] theorem returns_value (a : α) : (Fallible.value a : Fallible ε α).Returns := nofun
@[simp] theorem returns_absent : (Fallible.absent : Fallible ε α).Returns := nofun
@[simp] theorem not_returns_panics (e : ε) : ¬ (Fallible.panics e : Fallible ε α).Returns := fun h => h e rfl

@[simp] theorem returns_orAbsent (o : Option α) : (orAbsent o : Fallible ε α).Returns := by
  cases o with
  | none => exact returns_absent
  | some a => exact returns_value a

@[simp] theorem returns_orPanic_iff : (orPanic e o).Returns ↔ o.isSome = true := by
  cases o with
  | none => simp
  | some a => simp

@[simp] theorem orAbsent_eq_value_iff : (orAbsent o : Fallible ε α) = .value a ↔ o = some a := by
  cases o with
  | none => simp
  | some b => simp

@[simp] theorem orPanic_eq_value_iff : orPanic e o = .value a ↔ o = some a := by
  cases o with
  | none => simp
  | some b => simp

/-- **A sequence returns** if its first call does, and the rest does for the value that it gets. -/
theorem returns_bind_iff : (p >>= f).Returns ↔ p.Returns ∧ ∀ a, p = .value a → (f a).Returns := by
  cases p with
  | value a => simp
  | absent => simp
  | panics e => simp

theorem bind_eq_value_iff : p >>= f = .value b ↔ ∃ a, p = .value a ∧ f a = .value b := by
  cases p with
  | value a => simp
  | absent => simp
  | panics e => simp

end Fallible

end Flock.Lib
