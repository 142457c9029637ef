/-
# Flock.History.Quiescence — with retention off, is there an end to the compactions?

A compaction that is not authorised starts over as long as the pending flag stands.  Switching retention
off clears the flag; what can set it again is a request whose append read the days before the switch, and
a compaction that read them just before and now sets the flag for a newer generation.  Neither looks at the
days again.  With the flag set and 0 days no compaction is ever authorised, and the flag is never cleared:
the thread goes round for ever (`stale_request_restarts_forever`).

Where the flag is only set with days above 0, or while the switch that stored the 0 days has yet to clear
it, the flag does not stand once the calls have returned.
-/
import Flock.History.Requests

namespace Flock.Retention

open Lib (System)

variable {v v' : Vars} {s s' : State} {id : ℕ} {pc pc' : Pc} {choice : Choice} {e : Event}

namespace Pc

/-- The thread is about to set the pending flag. -/
def sets : Pc → Bool
  | .mark _ | .rearm _ => true
  | _ => false

/-- The thread is in a call of `append` or `reconfigure_retention`, before it tries to start a
compaction. -/
def calling : Pc → Bool
  | .loadPending _ | .loadDropped _ | .prune .. | .disable | .disableStore | .disableBump => true
  | .disableMark _ | .disableUnlock | .request .. | .storeCutoff .. | .bump | .mark _ | .unlock => true
  | _ => false

theorem calling_of_clearing (h : pc.clearing = true) : pc.calling = true := by
  cases pc <;> first | rfl | cases h

end Pc

/-- **The condition.** The flag is set only with days above 0, or while a switch that stored 0 days has yet
to clear it. -/
def SetsWhileOn (s : State) : Event → Prop
  | .run id _ =>
      s.threads[id]?.any Pc.sets = true → 0 < s.vars.days ∨ s.threads.any Pc.clearing = true
  | _ => True

/-- Where the days are 0 and the flag stands after a move: the thread is on its way to clear it, or the
days were 0 before, and the flag stood or was just set. -/
theorem move_off (h : v.move id pc choice = some (v', pc')) (hdays : v'.days = 0)
    (hpending : v'.pending = true) :
    pc'.clearing = true ∨
      (pc.clearing = false ∧ v.days = 0 ∧ (pc.sets = true ∨ v.pending = true)) := by
  cases pc with
  | disableStore | disableBump =>
      cases h
      exact .inl rfl
  | disableMark g | clearPending job =>
      cases h
      cases hpending
  | mark g | rearm job =>
      cases h
      exact .inr ⟨rfl, hdays, .inl rfl⟩
  | disable | request i raised | claimRunning | authorize job =>
      simp only [Vars.move] at h
      split at h <;> first
        | (cases h; exact .inr ⟨rfl, hdays, .inr hpending⟩)
        | (split at h <;> cases h <;> exact .inr ⟨rfl, hdays, .inr hpending⟩)
        | cases h
  | done => cases h
  | _ =>
      cases h
      exact .inr ⟨rfl, hdays, .inr hpending⟩

/-- With 0 days, the flag stands only while a switch has yet to clear it. -/
def Settled (s : State) : Prop :=
  s.vars.days = 0 → s.vars.pending = true → ∃ pc ∈ s.threads, pc.clearing = true

/-- **One step** that meets the condition. -/
theorem Settled.step (h : Settled s) (hstep : s.step e = some s') (hsafe : SetsWhileOn s e) :
    Settled s' := by
  intro hdays hpending
  rcases step_opens_or_moves hstep with ⟨-, v, pc, rfl, hopens⟩ |
    ⟨id, choice, pc, v, pc', rfl, hpc, hmove, rfl⟩
  -- retention was set to nothing: the thread that did it will clear the flag
  · have hzero : v.days = 0 := hdays
    have hsame : s.vars.days = 0 := by
      rcases hopens.days with hsame | hpos
      · exact hsame.symm.trans hzero
      · omega
    obtain ⟨q, hq, hclear⟩ := h hsame (hopens.pending.symm.trans hpending)
    exact ⟨q, List.mem_append_left _ hq, hclear⟩
  · have hlt := (List.getElem?_eq_some_iff.mp hpc).1
    -- a thread moved: the one that clears is this one, or another
    rcases move_off hmove hdays hpending with hclear | ⟨hself, hzero, hset⟩
    · exact ⟨pc', List.mem_set hlt pc', hclear⟩
    · -- another thread has yet to clear the flag, and it has not moved
      have hbefore : ∃ q ∈ s.threads, q.clearing = true := by
        rcases hset with hsets | hstood
        · have hon : 0 < s.vars.days ∨ s.threads.any Pc.clearing = true := by
            apply hsafe
            simp [hpc, hsets]
          rcases hon with hpos | hany
          · omega
          · exact List.any_eq_true.mp hany
        · exact h hzero hstood
      obtain ⟨q, hq, hclear⟩ := hbefore
      obtain ⟨j, hj⟩ := List.getElem?_of_mem hq
      have hne : j ≠ id := by
        rintro rfl
        obtain rfl : pc = q := Option.some.inj (hpc.symm.trans hj)
        rw [hself] at hclear
        cases hclear
      exact ⟨q, mem_set_of_ne hne hj, hclear⟩

/-- **With retention off and no call under way nothing is pending**, in every run that sets the flag only
with days above 0 or while a switch has yet to clear it; so a compaction that would start over comes to its
end. `History::open` finds a compaction pending only where retention is on. -/
theorem quiescent_with_retention_off (days cutoff : ℕ) (pending : Bool)
    (hopen : pending = true → 0 < days) (es : List Event) (s : State)
    (hrun : (system.restrict SetsWhileOn).Run (openState days cutoff pending) es s)
    (hdays : s.vars.days = 0) (hquiet : ∀ pc ∈ s.threads, pc.calling = false) :
    s.vars.pending = false ∧
      ∀ (id : ℕ) (pc : Pc) (choice : Choice), s.threads[id]? = some pc → pc = .start ∨ pc = .restart →
        s.vars.move id pc choice = some (s.vars, .done) := by
  have hinit : Settled (openState days cutoff pending) := by
    intro hzero hset
    have hpos := hopen hset
    have hdays : days = 0 := hzero
    omega
  have hstep : ∀ {s e s'}, Settled s → (system.restrict SetsWhileOn).step s e s' → Settled s' :=
    fun hI hstep => hI.step hstep.1 hstep.2
  have hsettled : Settled s := hrun.preserves hstep hinit
  have hnone : s.vars.pending = false := by
    by_contra hset
    obtain ⟨q, hq, hclear⟩ := hsettled hdays (by simpa using hset)
    have hcalling := Pc.calling_of_clearing hclear
    rw [hquiet q hq] at hcalling
    cases hcalling
  refine ⟨hnone, ?_⟩
  rintro id pc choice - (rfl | rfl)
  · simp [Vars.move, hnone]
  · simp [Vars.move, hnone]

instance (s : State) : ∀ e, Decidable (SetsWhileOn s e)
  | .run id _ =>
      inferInstanceAs (Decidable (s.threads[id]?.any Pc.sets = true →
        0 < s.vars.days ∨ s.threads.any Pc.clearing = true))
  | .append .. | .reconfigureRetention .. => .isTrue trivial

/-- Retention is switched off while a compaction waits for its authorisation. -/
def switchedOff : List Event :=
  (.append (10 * daySecs) 0 0 :: steps 0 12) ++ .reconfigureRetention 0 (11 * daySecs) :: steps 1 5 ++
    steps 0 3

/-- The compaction is not authorised, and comes to its end. -/
theorem quiescent_after_switch :
    ∃ s : State, (system.restrict SetsWhileOn).Run (openState 1 0 true) switchedOff s ∧
      s.vars.days = 0 ∧ (∀ pc ∈ s.threads, pc.calling = false) ∧ s.vars.pending = false := by
  have hexec : (System.exec (System.guardStep SetsWhileOn State.step) (openState 1 0 true)
      switchedOff).any (fun s => decide (s.vars.days = 0) && s.threads.all fun pc => !pc.calling) =
        true := by
    decide +kernel
  obtain ⟨s, hrun, hs⟩ := System.run_of_exec_any hexec
  have hrun' := System.Run.restrict_of_guardStep hrun
  simp only [Bool.and_eq_true, decide_eq_true_eq, List.all_eq_true, Bool.not_eq_true'] at hs
  obtain ⟨hdays, hquiet⟩ := hs
  have hpending := quiescent_with_retention_off 1 0 true (fun _ => Nat.one_pos) switchedOff s hrun' hdays
    hquiet
  exact ⟨s, hrun', hdays, hquiet, hpending.1⟩

/-- An append has seen the flag and is about to ask; retention is switched off, and the call returns; then
the append asks, and its compaction is spawned. -/
def staleRequest : List Event :=
  (.append (10 * daySecs) 0 0 :: steps 0 1) ++ .reconfigureRetention 0 (11 * daySecs) :: steps 1 5 ++
    steps 0 10

/-- **A stale request keeps a compaction going for ever.** With 0 days and no call under way the flag
stands, and the compaction comes back to where it is: superseded, restarted, superseded again. -/
theorem stale_request_restarts_forever :
    ∃ s : State, system.Run (openState 1 0 true) staleRequest s ∧ s.vars.days = 0 ∧
      (∀ pc ∈ s.threads, pc.calling = false) ∧ s.vars.pending = true ∧
      (∃ job, s.threads[0]? = some (.prepare job)) ∧ system.Run s (steps 0 9) s := by
  have hexec : (System.exec State.step (openState 1 0 true) staleRequest).any (fun s =>
      decide (s.vars.days = 0) && (s.threads.all fun pc => !pc.calling) && s.vars.pending &&
      decide (s.threads[0]? = some (.prepare ⟨3, 9 * daySecs, 0, some ⟨10 * daySecs, 1⟩⟩)) &&
      (System.exec State.step s (steps 0 9)).any fun s' =>
        decide (s'.vars = s.vars) && decide (s'.threads = s.threads) &&
          decide (s'.renames = s.renames)) = true := by
    decide +kernel
  obtain ⟨s, hrun, hs⟩ := System.run_of_exec_any hexec
  obtain ⟨hs, hagain⟩ := Bool.and_eq_true_iff.mp hs
  obtain ⟨s', hround, heq⟩ := System.run_of_exec_any hagain
  simp only [Bool.and_eq_true, decide_eq_true_eq, List.all_eq_true, Bool.not_eq_true'] at hs heq
  obtain ⟨⟨⟨hdays, hquiet⟩, hpending⟩, hprepare⟩ := hs
  obtain ⟨⟨hvars, hthreads⟩, hrenames⟩ := heq
  obtain rfl : s' = s := by
    cases s
    cases s'
    simp_all
  exact ⟨s', hrun, hdays, hquiet, hpending, ⟨_, hprepare⟩, hround⟩

end Flock.Retention
