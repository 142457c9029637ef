/-
# Flock.Lib.Transition — labelled transition systems, their runs, and the invariant rules.

A `System` is an initial-state predicate and a labelled step relation.  A run is built one step at a
time at its END (`Run.snoc`), so the natural induction hands a proof the state just before the last
event; `Run.cons`/`Run.append` give the other direction where an argument starts at the front.

`System.restrict` keeps the steps that meet a side condition.  It is how a result of the form
"in every run whose steps all meet `C`, `P` holds" is stated: as an invariant of `S.restrict C`.  `System.within`
keeps the steps that end where a predicate holds.

Nothing here names a particular program.
-/
import Mathlib.Data.List.Basic

namespace Flock.Lib

universe u v

/-- **`System σ ε`** — states `σ`, events `ε`, the states a run may start in, and the steps. -/
structure System (σ : Type u) (ε : Type v) where
  init : σ → Prop
  step : σ → ε → σ → Prop

namespace System

variable {σ : Type u} {ε : Type v} {S : System σ ε} {s s' s'' : σ} {e : ε} {es fs : List ε}

/-- `S.Run s es s'`: the events `es`, taken in order, lead from `s` to `s'`. -/
inductive Run (S : System σ ε) : σ → List ε → σ → Prop
  | nil (s : σ) : Run S s [] s
  | snoc {s s' s'' : σ} {es : List ε} {e : ε} :
      Run S s es s' → S.step s' e s'' → Run S s (es ++ [e]) s''

/-- The states some run reaches from an initial state. -/
def Reachable (S : System σ ε) (s' : σ) : Prop := ∃ s es, S.init s ∧ S.Run s es s'

theorem Run.append (h : S.Run s es s') (h' : S.Run s' fs s'') : S.Run s (es ++ fs) s'' := by
  induction h' with
  | nil => simpa using h
  | snoc _ hstep ih =>
      rw [← List.append_assoc]
      exact .snoc ih hstep

theorem Run.single (h : S.step s e s') : S.Run s [e] s' := .snoc (.nil s) h

theorem Run.cons (h : S.step s e s') (h' : S.Run s' es s'') : S.Run s (e :: es) s'' :=
  (Run.single h).append h'

/-- **The run rule.** What every step preserves, every run preserves. -/
theorem Run.preserves {I : σ → Prop} (hstep : ∀ {s e s'}, I s → S.step s e s' → I s')
    (h : S.Run s es s') (hI : I s) : I s' := by
  induction h with
  | nil => exact hI
  | snoc _ hs ih => exact hstep ih hs

/-- The run rule, where only the events that occur matter. -/
theorem Run.preserves_of_forall {I : σ → Prop} {C : ε → Prop}
    (hstep : ∀ {s e s'}, C e → I s → S.step s e s' → I s') (h : S.Run s es s')
    (hes : ∀ e ∈ es, C e) (hI : I s) : I s' := by
  induction h with
  | nil => exact hI
  | snoc _ hs ih =>
      have hbefore := ih fun e he => hes e (List.mem_append_left _ he)
      exact hstep (hes _ (by simp)) hbefore hs

/-- **The log rule.** Where an entry of a log can only come from a step that makes it, every entry that a run
added was made by one of its events. -/
theorem Run.mem_log {α : Type*} {log : σ → List α} {Made : σ → ε → σ → α → Prop}
    (hstep : ∀ {s e s'}, S.step s e s' → ∀ x ∈ log s', x ∈ log s ∨ Made s e s' x) (h : S.Run s es s')
    {x : α} (hx : x ∈ log s') :
    x ∈ log s ∨ ∃ es₁ e es₂ m m', es = es₁ ++ e :: es₂ ∧ S.Run s es₁ m ∧ S.step m e m' ∧ Made m e m' x := by
  induction h with
  | nil => exact .inl hx
  | @snoc s' s'' es e hrun hs ih =>
      rcases hstep hs x hx with hold | hmade
      · rcases ih hold with hfirst | ⟨es₁, e', es₂, m, m', rfl, hm, hstep', hmade⟩
        · exact .inl hfirst
        · exact .inr ⟨es₁, e', es₂ ++ [e], m, m', by simp, hm, hstep', hmade⟩
      · exact .inr ⟨es, e, [], _, _, rfl, hrun, hs, hmade⟩

/-- **The invariant rule.** What holds initially and is preserved by every step holds of every
reachable state. -/
theorem Reachable.invariant {I : σ → Prop} (hinit : ∀ {s}, S.init s → I s)
    (hstep : ∀ {s e s'}, I s → S.step s e s' → I s') (h : S.Reachable s) : I s := by
  obtain ⟨s₀, es, h₀, hrun⟩ := h
  exact hrun.preserves hstep (hinit h₀)

theorem Reachable.run (h : S.Reachable s) (h' : S.Run s es s') : S.Reachable s' := by
  obtain ⟨s₀, fs, h₀, hrun⟩ := h
  exact ⟨s₀, fs ++ es, h₀, hrun.append h'⟩

/-- The same system, with only the steps that meet the side condition `C`. -/
def restrict (S : System σ ε) (C : σ → ε → Prop) : System σ ε where
  init := S.init
  step s e s' := S.step s e s' ∧ C s e

/-- **The condition rule.** If a step keeps `I` exactly when it meets the condition `C`, and nothing restores
`I`, then `I` holds at the end of a run exactly if all its steps met `C`. -/
theorem Run.restrict_iff {I : σ → Prop} {C : σ → ε → Prop}
    (hstep : ∀ {s e s'}, S.step s e s' → (I s' ↔ I s ∧ C s e)) (h : S.Run s es s') (hI : I s) :
    I s' ↔ (S.restrict C).Run s es s' := by
  constructor
  · intro hend
    induction h with
    | nil => exact .nil _
    | snoc _ hs ih =>
        obtain ⟨hbefore, hC⟩ := (hstep hs).mp hend
        exact .snoc (ih hbefore) ⟨hs, hC⟩
  · intro hrun
    have hkeep : ∀ {s e s'}, I s → (S.restrict C).step s e s' → I s' := by
      rintro s e s' hbefore ⟨hs, hC⟩
      exact (hstep hs).mpr ⟨hbefore, hC⟩
    exact hrun.preserves hkeep hI

/-- A run of the restricted system is a run of the system. -/
theorem Run.of_restrict {C : σ → ε → Prop} (h : (S.restrict C).Run s es s') : S.Run s es s' := by
  induction h with
  | nil => exact .nil _
  | snoc _ hs ih => exact .snoc ih hs.1

/-- A run that meets a condition meets a weaker one. -/
theorem Run.restrict_mono {C D : σ → ε → Prop} (hCD : ∀ s e, C s e → D s e) (h : (S.restrict C).Run s es s') :
    (S.restrict D).Run s es s' := by
  induction h with
  | nil => exact .nil _
  | snoc _ hs ih => exact .snoc ih ⟨hs.1, hCD _ _ hs.2⟩

/-- A condition that every event meets takes no state away. -/
theorem Reachable.restrict {C : σ → ε → Prop} (hC : ∀ s e, C s e) (h : S.Reachable s) :
    (S.restrict C).Reachable s := by
  obtain ⟨s₀, es, h₀, hrun⟩ := h
  refine ⟨s₀, es, h₀, ?_⟩
  clear h₀
  induction hrun with
  | nil => exact .nil _
  | snoc _ hs ih => exact .snoc ih ⟨hs, hC _ _⟩

/-- The same system, with only the steps that end where `I` holds. -/
def within (S : System σ ε) (I : σ → Prop) : System σ ε where
  init := S.init
  step s e s' := S.step s e s' ∧ I s'

/-- **The condition rule, state by state.** If, from a state of `I`, a step ends in `I` exactly when it meets the
condition `C`, then `I` holds all along a run exactly if all its steps met `C`. `K` is an invariant of the
system itself. -/
theorem Run.within_iff {K I : σ → Prop} {C : σ → ε → Prop} (hkeep : ∀ {s e s'}, K s → S.step s e s' → K s')
    (hstep : ∀ {s e s'}, K s → I s → S.step s e s' → (I s' ↔ C s e)) (hK : K s) (hI : I s) :
    (S.within I).Run s es s' ↔ (S.restrict C).Run s es s' := by
  constructor
  · intro h
    suffices hall : (S.restrict C).Run s es s' ∧ K s' ∧ I s' from hall.1
    induction h with
    | nil => exact ⟨.nil _, hK, hI⟩
    | snoc _ hs ih =>
        obtain ⟨hrun, hbefore, hholds⟩ := ih
        exact ⟨.snoc hrun ⟨hs.1, (hstep hbefore hholds hs.1).mp hs.2⟩, hkeep hbefore hs.1, hs.2⟩
  · intro h
    suffices hall : (S.within I).Run s es s' ∧ K s' ∧ I s' from hall.1
    induction h with
    | nil => exact ⟨.nil _, hK, hI⟩
    | snoc _ hs ih =>
        obtain ⟨hrun, hbefore, hholds⟩ := ih
        have hafter := (hstep hbefore hholds hs.1).mpr hs.2
        exact ⟨.snoc hrun ⟨hs.1, hafter⟩, hkeep hbefore hs.1, hafter⟩

/-! ## Executable systems

Where the step is a guarded function (`none`: the event is not enabled here), a concrete run is
checked by evaluation. -/

/-- The system of a guarded step function. -/
def ofStep (init : σ → Prop) (f : σ → ε → Option σ) : System σ ε where
  init := init
  step s e s' := f s e = some s'

/-- Replay a list of events; `none` as soon as one of them is not enabled. -/
def exec (f : σ → ε → Option σ) : σ → List ε → Option σ
  | s, [] => some s
  | s, e :: es => (f s e).bind fun s' => exec f s' es

/-- A replay that succeeds is a run. -/
theorem run_of_exec {init : σ → Prop} {f : σ → ε → Option σ} :
    ∀ {es : List ε} {s s' : σ}, exec f s es = some s' → (ofStep init f).Run s es s'
  | [], s, s', h => by
      obtain rfl : s = s' := by simpa [exec] using h
      exact .nil s
  | e :: es, s, s', h => by
      obtain ⟨s₁, hstep, hrest⟩ := Option.bind_eq_some_iff.mp h
      exact .cons hstep (run_of_exec hrest)

theorem exec_append {f : σ → ε → Option σ} :
    ∀ {es : List ε} {s s' : σ}, exec f s es = some s' → exec f s (es ++ fs) = exec f s' fs
  | [], s, s', h => by
      obtain rfl : s = s' := by simpa [exec] using h
      rfl
  | e :: es, s, s', h => by
      obtain ⟨s₁, hstep, hrest⟩ := Option.bind_eq_some_iff.mp h
      rw [List.cons_append, exec, hstep]
      exact exec_append hrest

/-- A run is a replay that succeeds. -/
theorem exec_of_run {init : σ → Prop} {f : σ → ε → Option σ} (h : (ofStep init f).Run s es s') :
    exec f s es = some s' := by
  induction h with
  | nil => rfl
  | snoc _ hstep ih =>
      have hlast : f _ _ = some _ := hstep
      rw [exec_append ih]
      simp [exec, hlast]

/-- A replay checked by evaluation, from the events and a test of the state they lead to. -/
theorem run_of_exec_any {init : σ → Prop} {f : σ → ε → Option σ} {P : σ → Bool}
    (h : (exec f s es).any P = true) : ∃ s', (ofStep init f).Run s es s' ∧ P s' = true := by
  cases hexec : exec f s es with
  | none =>
      rw [hexec] at h
      cases h
  | some s' =>
      rw [hexec] at h
      exact ⟨s', run_of_exec hexec, h⟩

theorem reachable_of_exec {init : σ → Prop} {f : σ → ε → Option σ} {P : σ → Bool} (h₀ : init s)
    (h : (exec f s es).any P = true) : ∃ s', (ofStep init f).Reachable s' ∧ P s' = true := by
  obtain ⟨s', hrun, hP⟩ := @run_of_exec_any _ _ s es init f P h
  exact ⟨s', ⟨s, es, h₀, hrun⟩, hP⟩

/-- The guarded step that also checks a side condition. -/
def guardStep (C : σ → ε → Prop) [∀ s e, Decidable (C s e)] (f : σ → ε → Option σ) (s : σ) (e : ε) :
    Option σ :=
  if C s e then f s e else none

/-- A run of the checked step is a run of the restricted system. -/
theorem Run.restrict_of_guardStep {init : σ → Prop} {C : σ → ε → Prop} [∀ s e, Decidable (C s e)]
    {f : σ → ε → Option σ} (h : (ofStep init (guardStep C f)).Run s es s') :
    ((ofStep init f).restrict C).Run s es s' := by
  induction h with
  | nil => exact .nil _
  | snoc _ hstep ih =>
      simp only [ofStep, guardStep, Option.ite_none_right_eq_some] at hstep
      exact .snoc ih ⟨hstep.2, hstep.1⟩

end System

end Flock.Lib
