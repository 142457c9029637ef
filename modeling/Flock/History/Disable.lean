/-
# Flock.History.Disable — switching retention off is final until it is switched on again.

A compaction may be anywhere between loading its generation and its rename when retention is switched
off.  What saves the file is the control lock: the authorisation takes it and the rename gives it back, so
while a compaction is about to rename, nobody else bumps the generation or stores 0 days; and once 0 days
are stored, no authorisation succeeds.

The calls of `reconfigure_retention` come one at a time, under the lock of the settings that `commit`
holds.  A call begins with its first action on the shared variables, which for days above 0 is the store
of the days.
-/
import Flock.History.Retention

namespace Flock.Retention

open Lib (System)

variable {v v' : Vars} {s s' : State} {id : ℕ} {pc pc' : Pc} {choice : Choice}

/-! ## The generation of a compaction that is about to rename -/

/-- A compaction about to rename goes by the generation `v` shows. -/
def Pc.Current (v : Vars) : Pc → Prop
  | .rename job _ => v.generation = job.generation ∧ v.controlGeneration = job.generation
  | _ => True

/-- Only a thread that holds the control lock issues a generation. -/
theorem move_generation (h : v.move id pc choice = some (v', pc')) (hfree : pc.holds = false) :
    v'.generation = v.generation ∧ v'.controlGeneration = v.controlGeneration := by
  cases pc with
  | disableStore | disableBump | disableMark _ | disableUnlock | storeCutoff _ _ | bump | mark _
  | unlock | rename _ _ => cases hfree
  | disable | request i raised | claimRunning | authorize job =>
      simp only [Vars.move] at h
      split at h <;> first
        | (cases h; exact ⟨rfl, rfl⟩)
        | (split at h <;> cases h <;> exact ⟨rfl, rfl⟩)
        | cases h
  | done => cases h
  | _ =>
      cases h
      exact ⟨rfl, rfl⟩

/-- The authorisation is what makes a compaction current. -/
theorem move_current (h : v.move id pc choice = some (v', pc')) : pc'.Current v' := by
  cases pc' with
  | rename job days =>
      obtain ⟨rfl, hc, hauth, rfl⟩ := move_rename h
      simp only [Vars.move, if_pos hc, if_pos hauth, Option.some.injEq, Prod.mk.injEq] at h
      simp only [Vars.authorizes, Bool.and_eq_true, beq_iff_eq] at hauth
      obtain ⟨rfl, -⟩ := h
      exact ⟨hauth.1.1.2, hauth.1.1.1⟩
  | _ => trivial

/-- **`Current`** — every compaction that is about to rename goes by the latest generation issued. -/
structure Current (s : State) : Prop extends Linked s where
  current : ∀ (id : ℕ) (pc : Pc), s.threads[id]? = some pc → pc.Current s.vars

/-- A new thread is not about to rename. -/
theorem Current.spawn (h : Current s) {v : Vars} {pc : Pc} (hl : Linked (s.spawn v pc))
    (hpc : ∀ job days, pc ≠ .rename job days) (hg : v.generation = s.vars.generation)
    (hc : v.controlGeneration = s.vars.controlGeneration) : Current (s.spawn v pc) where
  toLinked := hl
  current id q hq := by
    rcases getElem_append_some hq with hq | rfl
    · cases q with
      | rename job days =>
          obtain ⟨hgen, hcontrol⟩ := h.current id _ hq
          exact ⟨hg.trans hgen, hc.trans hcontrol⟩
      | _ => trivial
    · cases q with
      | rename job days => exact absurd rfl (hpc job days)
      | _ => trivial

/-- **One step.** The lock keeps everyone else from issuing a generation. -/
theorem Current.step (h : Current s) {e : Event} (hstep : s.step e = some s') : Current s' := by
  have hl := h.toLinked.step hstep
  rcases step_cases hstep with ⟨t, newest, pruned, -, rfl⟩ | ⟨days, now, -, rfl⟩ |
    ⟨id, choice, pc, v, pc', rfl, hpc, hmove, rfl⟩
  · unfold State.append at hl ⊢
    dsimp only at hl ⊢
    split
    · rw [if_pos ‹_›] at hl
      exact h.spawn hl (by simp) rfl rfl
    · rw [if_neg ‹_›] at hl
      exact h.spawn hl (by simp) rfl rfl
  · unfold State.reconfigureRetention at hl ⊢
    split
    · rw [if_pos ‹_›] at hl
      exact h.spawn hl (by simp) rfl rfl
    · rw [if_neg ‹_›] at hl
      exact h.spawn hl (by simp) rfl rfl
  · refine ⟨hl, fun j q hq => ?_⟩
    rcases getElem_set_some hq with ⟨rfl, rfl⟩ | ⟨hne, hq⟩
    · exact move_current hmove
    · cases q with
      | rename job days =>
          -- this thread holds the lock, so the one that moved does not
          have hother := (h.threads j _ hq).control rfl
          have hfree : pc.holds = false := by
            cases hh : pc.holds with
            | false => rfl
            | true =>
                have hsame := (h.threads id pc hpc).control hh
                rw [hother] at hsame
                exact absurd (Option.some.inj hsame) hne
          obtain ⟨hgen, hcontrol⟩ := move_generation hmove hfree
          obtain ⟨hgen', hcontrol'⟩ := h.current j _ hq
          exact ⟨hgen.trans hgen', hcontrol.trans hcontrol'⟩
      | _ => trivial

theorem current_openState (days cutoff : ℕ) (pending : Bool) :
    Current (openState days cutoff pending) where
  toLinked := linked_openState days cutoff pending
  current id pc h := by simp [openState] at h

theorem current_of_reachable (h : system.Reachable s) : Current s := by
  refine h.invariant ?_ fun hI hstep => hI.step hstep
  rintro _ ⟨days, cutoff, pending, rfl⟩
  exact current_openState days cutoff pending

/-! ## Retention switched off -/

/-- A call that switches retention on. -/
def Event.enables : Event → Bool
  | .reconfigureRetention days _ => decide (0 < days)
  | _ => false

/-- 0 days are stored, and nobody is about to rename. -/
structure Off (s : State) : Prop where
  days : s.vars.days = 0
  threads : ∀ pc ∈ s.threads, ∀ job days, pc ≠ .rename job days

/-- A new thread that is not about to rename. -/
theorem Off.spawn (h : Off s) {pc : Pc} (hpc : ∀ job days, pc ≠ .rename job days) : Off (s.spawn s.vars pc) := by
  refine ⟨h.days, fun q hq => ?_⟩
  rcases List.mem_append.mp hq with hq | hq
  · exact h.threads q hq
  · rw [List.mem_singleton.mp hq]
    exact hpc

/-- **One step with retention off.** No authorisation succeeds, so nothing is renamed. -/
theorem Off.step (h : Off s) {e : Event} (hstep : s.step e = some s') (he : e.enables = false) :
    Off s' ∧ s'.renames = s.renames := by
  rcases step_cases hstep with ⟨t, newest, pruned, -, rfl⟩ | ⟨days, now, rfl, rfl⟩ |
    ⟨id, choice, pc, v, pc', rfl, hpc, hmove, rfl⟩
  · have happend : s.append t newest pruned = s.spawn s.vars .done := by
      simp [State.append, h.days]
    rw [happend]
    exact ⟨h.spawn nofun, rfl⟩
  · have hzero : days = 0 := by simpa [Event.enables] using he
    have hcall : s.reconfigureRetention days now = s.spawn s.vars .disable := by
      simp [State.reconfigureRetention, hzero]
    rw [hcall]
    exact ⟨h.spawn nofun, rfl⟩
  · have hdays : v.days = 0 := by
      rcases move_writes hmove with ⟨-, -, -, hsame | hzero⟩ | ⟨i, raised, -, -, -, hsame⟩
      · rw [hsame, h.days]
      · exact hzero
      · rw [hsame, h.days]
    refine ⟨⟨hdays, ?_⟩, ?_⟩
    · intro q hq job days heq
      rcases List.mem_or_eq_of_mem_set hq with hq | rfl
      · exact h.threads q hq job days heq
      · rw [heq] at hmove
        obtain ⟨-, -, hauth, -⟩ := move_rename hmove
        simp [Vars.authorizes, h.days] at hauth
    · have hnone : State.renamed pc choice = [] := by
        cases pc with
        | rename job days => exact absurd rfl (h.threads _ (List.mem_of_getElem? hpc) job days)
        | _ => rfl
      simp [hnone]

/-- **Every run with retention off**, in which no call switches it on. -/
theorem Off.run (h : Off s) {es : List Event} (hrun : system.Run s es s')
    (hes : ∀ e ∈ es, e.enables = false) : Off s' ∧ s'.renames = s.renames := by
  let I (s' : State) : Prop := Off s' ∧ s'.renames = s.renames
  have hstep : ∀ {s e s'}, e.enables = false → I s → system.step s e s' → I s' := by
    intro s e s' he hI hstep
    obtain ⟨hoff, hrenames⟩ := hI.1.step hstep he
    exact ⟨hoff, hrenames.trans hI.2⟩
  have hI : I s' := hrun.preserves_of_forall hstep hes ⟨h, rfl⟩
  exact hI

/-- The call of thread `id` that switches retention off has not stored 0 days yet, or retention is off. -/
def Disabling (id : ℕ) (s : State) : Prop :=
  s.threads[id]? = some .disable ∨ s.threads[id]? = some .disableStore ∨ Off s

/-- A thread stays where it is while others move. -/
theorem step_getElem {e : Event} (hstep : s.step e = some s') (hid : s.threads[id]? = some pc) :
    s'.threads[id]? = some pc ∨ ∃ choice v pc', e = .run id choice ∧
      s.vars.move id pc choice = some (v, pc') ∧
      s' = ⟨v, s.threads.set id pc', State.renamed pc choice ++ s.renames⟩ := by
  have hlt := (List.getElem?_eq_some_iff.mp hid).1
  have hspawn : ∀ v q, (s.spawn v q).threads[id]? = some pc := by
    intro v q
    rw [← hid]
    exact List.getElem?_append_left hlt
  rcases step_cases hstep with ⟨t, newest, pruned, -, rfl⟩ | ⟨days, now, -, rfl⟩ |
    ⟨j, choice, q, v, q', rfl, hq, hmove, rfl⟩
  · unfold State.append
    dsimp only
    split <;> exact .inl (hspawn _ _)
  · unfold State.reconfigureRetention
    split <;> exact .inl (hspawn _ _)
  · by_cases hj : j = id
    · subst hj
      obtain rfl : q = pc := Option.some.inj (hq.symm.trans hid)
      exact .inr ⟨choice, v, q', rfl, hmove, rfl⟩
    · refine .inl ?_
      show (s.threads.set j q')[id]? = some pc
      rw [List.getElem?_set, if_neg hj]
      exact hid

/-- **One step of the call.** The store of 0 days is made under the control lock, when nobody is about to
rename. -/
theorem Disabling.step (h : Disabling id s) (hl : Linked s) {e : Event} (hstep : s.step e = some s')
    (he : e.enables = false) : Disabling id s' := by
  rcases h with hid | hid | hoff
  · rcases step_getElem hstep hid with hid' | ⟨choice, v, pc', -, hmove, rfl⟩
    · exact .inl hid'
    · simp only [Vars.move, Option.ite_none_right_eq_some, Option.some.injEq, Prod.mk.injEq] at hmove
      obtain ⟨-, -, rfl⟩ := hmove
      refine .inr (.inl ?_)
      show (s.threads.set id .disableStore)[id]? = some .disableStore
      rw [List.getElem?_set_self (List.getElem?_eq_some_iff.mp hid).1]
  · rcases step_getElem hstep hid with hid' | ⟨choice, v, pc', -, hmove, rfl⟩
    · exact .inr (.inl hid')
    · cases hmove
      refine .inr (.inr ⟨rfl, ?_⟩)
      intro q hq job days heq
      obtain ⟨j, hj⟩ := List.getElem?_of_mem hq
      rcases getElem_set_some hj with ⟨-, rfl⟩ | ⟨hne, hj⟩
      · cases heq
      · have hcontrol := (hl.threads id _ hid).control rfl
        have hother := (hl.threads j q hj).control (by rw [heq]; rfl)
        rw [hcontrol] at hother
        exact hne (Option.some.inj hother).symm
  · exact .inr (.inr (hoff.step hstep he).1)

/-- **When the call has returned**, retention is off. -/
theorem Disabling.run (h : Disabling id s) (hc : Current s) {es : List Event}
    (hrun : system.Run s es s') (hes : ∀ e ∈ es, e.enables = false)
    (hdone : s'.threads[id]? = some .done) : Off s' := by
  let I (s : State) : Prop := Disabling id s ∧ Current s
  have hstep : ∀ {s e s'}, e.enables = false → I s → system.step s e s' → I s' :=
    fun he hI hstep => ⟨hI.1.step hI.2.toLinked hstep he, hI.2.step hstep⟩
  have hboth : I s' := hrun.preserves_of_forall hstep hes ⟨h, hc⟩
  rcases hboth.1 with hid | hid | hoff
  · rw [hdone] at hid
    cases hid
  · rw [hdone] at hid
    cases hid
  · exact hoff

/-- **Switching retention off is final until it is switched on again.** Once a call with 0 days has
returned, and until a later call with more days begins, no compaction renames, nor is one about to; and
whenever a compaction does rename, its generation is the latest one issued. -/
theorem disable_final :
    (∀ {s₁ s₂ s₃ s₄ : State} {now : ℕ} {es es' : List Event}, system.Reachable s₁ →
      system.step s₁ (.reconfigureRetention 0 now) s₂ → system.Run s₂ es s₃ →
      s₃.threads[s₁.threads.length]? = some .done → system.Run s₃ es' s₄ →
      (∀ e ∈ es ++ es', e.enables = false) →
        s₄.renames = s₃.renames ∧ ∀ pc ∈ s₄.threads, ∀ job days, pc ≠ .rename job days) ∧
    ∀ {s : State} {id : ℕ} {job : Job} {days : ℕ}, system.Reachable s →
      s.threads[id]? = some (.rename job days) →
        s.vars.generation = job.generation ∧ s.vars.controlGeneration = job.generation := by
  constructor
  · intro s₁ s₂ s₃ s₄ now es es' hreach hcall hrun hdone hrun' hes
    obtain rfl : s₁.spawn s₁.vars .disable = s₂ := Option.some.inj hcall
    have hcurrent : Current (s₁.spawn s₁.vars .disable) := (current_of_reachable hreach).step hcall
    have hcalled : Disabling s₁.threads.length (s₁.spawn s₁.vars .disable) :=
      .inl (by simp [State.spawn])
    have hoff := hcalled.run hcurrent hrun (fun e he => hes e (List.mem_append_left _ he)) hdone
    obtain ⟨hlater, hrenames⟩ := hoff.run hrun' fun e he => hes e (List.mem_append_right _ he)
    exact ⟨hrenames, hlater.threads⟩
  · intro s id job days hreach hid
    exact (current_of_reachable hreach).current id _ hid

/-- Retention is switched off while a compaction waits for its authorisation, which then fails: nothing is
renamed when the compaction has come to its end. -/
theorem disable_final_prepared :
    ∃ s₁ s₃ s₄ : State, system.Run (openState 1 0 true) (.append (10 * daySecs) 0 0 :: steps 0 12) s₁ ∧
      system.Run (s₁.reconfigureRetention 0 (11 * daySecs)) (steps 1 5) s₃ ∧
      system.Run s₃ (steps 0 3) s₄ ∧ s₁.threads.length = 1 ∧
      s₃.threads[1]? = some .done ∧ s₄.threads[0]? = some .done ∧ s₄.renames = s₃.renames := by
  have hexec : (System.exec State.step (openState 1 0 true)
      (.append (10 * daySecs) 0 0 :: steps 0 12)).any (fun s₁ =>
        decide (s₁.threads.length = 1) &&
        (System.exec State.step (s₁.reconfigureRetention 0 (11 * daySecs)) (steps 1 5)).any fun s₃ =>
          decide (s₃.threads[1]? = some .done) &&
          (System.exec State.step s₃ (steps 0 3)).any fun s₄ =>
            decide (s₄.threads[0]? = some .done)) = true := by
    decide +kernel
  obtain ⟨s₁, hrun₁, h₁⟩ := System.run_of_exec_any hexec
  obtain ⟨hlength, h₁⟩ := Bool.and_eq_true_iff.mp h₁
  obtain ⟨s₃, hrun₃, h₃⟩ := System.run_of_exec_any h₁
  obtain ⟨hdone, h₃⟩ := Bool.and_eq_true_iff.mp h₃
  obtain ⟨s₄, hrun₄, hend⟩ := System.run_of_exec_any h₃
  have hone : s₁.threads.length = 1 := of_decide_eq_true hlength
  have hreach : system.Reachable s₁ := ⟨_, _, ⟨1, 0, true, rfl⟩, hrun₁⟩
  have hcall : system.step s₁ (.reconfigureRetention 0 (11 * daySecs))
      (s₁.reconfigureRetention 0 (11 * daySecs)) := rfl
  have hes : ∀ e ∈ steps 1 5 ++ steps 0 3, e.enables = false := by decide
  have hfinal := disable_final.1 hreach hcall hrun₃ (hone ▸ of_decide_eq_true hdone) hrun₄ hes
  exact ⟨s₁, s₃, s₄, hrun₁, hrun₃, hrun₄, hone, of_decide_eq_true hdone, of_decide_eq_true hend,
    hfinal.1⟩

end Flock.Retention
