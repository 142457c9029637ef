/-
# Flock.History.Requests — no request for a compaction is lost.

The pending flag is all that remembers a request.  A compaction that has become durable clears it, and
between its last look at the generation and the clearing a request may have come in; so it looks again,
and sets the flag once more if the generation has moved on.  Until it has done so it is still running:
whenever nothing runs, the flag stands, or a compaction of the request's generation or a later one has
become durable.

Switching retention off takes the flag away on purpose.  So the days have to stay above 0 from the moment
the request sets the flag: a request that has not returned yet may be cancelled.
-/
import Flock.History.Disable

namespace Flock.Retention

open Lib (System)

variable {v v' : Vars} {s s' : State} {id : ℕ} {pc pc' : Pc} {choice : Choice} {e : Event}

/-! ## Durable compactions

A compaction is made of a generation that it started with, and is durable when the directory is synced. -/

/-- The generation that an event makes durable. -/
def State.commits (s : State) : Event → Option ℕ
  | .run id choice =>
      match s.threads[id]? with
      | some (.sync job) => if choice.ok then some job.generation else none
      | _ => none
  | _ => none

/-- The generations that became durable while `es` took place, oldest first. -/
def committed : State → List Event → List ℕ
  | _, [] => []
  | s, e :: es => (s.commits e).toList ++ ((s.step e).map fun s' => committed s' es).getD []

/-- Two runs, one after the other. -/
theorem committed_append :
    ∀ {es fs : List Event} {s s' : State}, System.exec State.step s es = some s' →
      committed s (es ++ fs) = committed s es ++ committed s' fs
  | [], fs, s, s', h => by
      obtain rfl : s = s' := by simpa [System.exec] using h
      rfl
  | e :: es, fs, s, s', h => by
      obtain ⟨s₁, hstep, hrest⟩ := Option.bind_eq_some_iff.mp h
      simp [committed, hstep, committed_append hrest]

/-- One more event. -/
theorem committed_snoc {es : List Event} (h : system.Run s es s') (hstep : (s'.step e).isSome = true) :
    committed s (es ++ [e]) = committed s es ++ (s'.commits e).toList := by
  obtain ⟨s'', hstep⟩ := Option.isSome_iff_exists.mp hstep
  rw [committed_append (System.exec_of_run h)]
  simp [committed, hstep]

/-! ## Calls and moves

A call adds a thread, which has done nothing yet; a move takes one thread on.  All invariants are proved for the two
kinds of events apart. -/

/-- Where a call begins. -/
def Pc.opening : Pc → Bool
  | .loadPending _ | .prune .. | .disable | .done => true
  | _ => false

/-- A call that begins leaves the compactions' variables alone. -/
structure Opens (s : State) (v : Vars) (pc : Pc) : Prop where
  opening : pc.opening = true
  pending : v.pending = s.vars.pending
  running : v.running = s.vars.running
  generation : v.generation = s.vars.generation
  days : v.days = s.vars.days ∨ 0 < v.days

/-- What an event does: it opens a call, or it moves one thread. -/
theorem step_opens_or_moves (h : s.step e = some s') :
    (s.commits e = none ∧ ∃ v pc, s' = s.spawn v pc ∧ Opens s v pc) ∨
    (∃ id choice pc v pc', e = .run id choice ∧ s.threads[id]? = some pc ∧
      s.vars.move id pc choice = some (v, pc') ∧
      s' = ⟨v, s.threads.set id pc', State.renamed pc choice ++ s.renames⟩) := by
  rcases step_cases h with ⟨t, newest, pruned, rfl, rfl⟩ | ⟨days, now, rfl, rfl⟩ | hmove
  · refine .inl ⟨rfl, ?_⟩
    unfold State.append
    dsimp only
    split
    · exact ⟨_, _, rfl, rfl, rfl, rfl, rfl, .inl rfl⟩
    · exact ⟨_, _, rfl, rfl, rfl, rfl, rfl, .inl rfl⟩
  · refine .inl ⟨rfl, ?_⟩
    unfold State.reconfigureRetention
    split
    · exact ⟨_, _, rfl, rfl, rfl, rfl, rfl, .inl rfl⟩
    · rename_i hdays
      exact ⟨_, _, rfl, rfl, rfl, rfl, rfl, .inr (Nat.pos_of_ne_zero hdays)⟩
  · exact .inr hmove

/-! ## One compaction at a time

The running flag is won by a compare-and-swap, so only one thread can be past it. -/

/-- The thread stands between winning the running flag and clearing it. -/
def Pc.compacting : Pc → Bool
  | .loadGeneration | .loadCutoff _ | .loadClaimed .. | .prepare _ | .authorize _ | .rename .. => true
  | .sync _ | .claimDrops _ | .checkGeneration _ | .clearPending _ | .recheckGeneration _ => true
  | .recheckDays _ | .rearm _ | .release .. => true
  | _ => false

/-- A call does not begin inside a compaction. -/
theorem Pc.not_compacting_of_opening (h : pc.opening = true) : pc.compacting = false := by
  cases pc <;> first | rfl | cases h

/-- Who touches the running flag: whoever wins it, and whoever clears it. -/
theorem move_compacting (h : v.move id pc choice = some (v', pc')) :
    (pc'.compacting = pc.compacting ∧ v'.running = v.running) ∨
    (pc.compacting = false ∧ v.running = false ∧ pc'.compacting = true ∧ v'.running = true) ∨
    (pc.compacting = true ∧ pc'.compacting = false ∧ v'.running = false) := by
  cases pc with
  -- the flag is taken here, and given back at the release
  | claimRunning =>
      simp only [Vars.move] at h
      split at h
      · cases h
        exact .inl ⟨rfl, rfl⟩
      · rename_i hrunning
        cases h
        exact .inr (.inl ⟨rfl, by simpa using hrunning, rfl, rfl⟩)
  | release job outcome =>
      cases h
      refine .inr (.inr ⟨rfl, ?_, rfl⟩)
      cases outcome <;> rfl
  -- nothing else touches it
  | disable | request i raised | authorize job =>
      simp only [Vars.move] at h
      split at h <;> first
        | (cases h; exact .inl ⟨rfl, rfl⟩)
        | (split at h <;> cases h <;> exact .inl ⟨rfl, rfl⟩)
        | cases h
  | done => cases h
  | prune i raised | disableStore | disableBump | disableMark _ | disableUnlock | storeCutoff _ _
  | bump | mark _ | unlock | loadGeneration | loadCutoff _ | loadClaimed _ _ _ | claimDrops _
  | clearPending _ | rearm _ =>
      cases h
      exact .inl ⟨rfl, rfl⟩
  | _ =>
      cases h
      refine .inl ⟨?_, rfl⟩
      split <;> rfl

/-- **`Exclusive`** — the running flag stands exactly while a compaction is under way, and there is never
more than one. -/
structure Exclusive (s : State) : Prop where
  running : ∀ (i : ℕ) (p : Pc), s.threads[i]? = some p → p.compacting = true → s.vars.running = true
  held : s.vars.running = true → ∃ p ∈ s.threads, p.compacting = true
  alone : ∀ (i j : ℕ) (p q : Pc), s.threads[i]? = some p → s.threads[j]? = some q →
    p.compacting = true → q.compacting = true → i = j

theorem Exclusive.spawn (h : Exclusive s) {v : Vars} (hopens : Opens s v pc) :
    Exclusive (s.spawn v pc) := by
  -- the new thread does not compact
  have hold : ∀ {i : ℕ} {p : Pc}, (s.spawn v pc).threads[i]? = some p → p.compacting = true →
      s.threads[i]? = some p := by
    intro i p hp hcomp
    rcases getElem_append_some hp with hp | rfl
    · exact hp
    · rw [Pc.not_compacting_of_opening hopens.opening] at hcomp
      cases hcomp
  refine ⟨fun i p hp hcomp => ?_, fun hrunning => ?_, fun i j p q hp hq hcomp hcomp' => ?_⟩
  · exact hopens.running.trans (h.running i p (hold hp hcomp) hcomp)
  · obtain ⟨p, hp, hcomp⟩ := h.held (hopens.running.symm.trans hrunning)
    exact ⟨p, List.mem_append_left _ hp, hcomp⟩
  · exact h.alone i j p q (hold hp hcomp) (hold hq hcomp') hcomp hcomp'

/-- A move of one thread, whoever has the flag. -/
theorem Exclusive.move (h : Exclusive s) {v : Vars} {renames : List Rename}
    (hpc : s.threads[id]? = some pc) (hmove : s.vars.move id pc choice = some (v, pc')) :
    Exclusive ⟨v, s.threads.set id pc', renames⟩ := by
  have hlt := (List.getElem?_eq_some_iff.mp hpc).1
  rcases move_compacting hmove with ⟨hsame, hrunning⟩ | ⟨-, hfree, hcomp', hrunning⟩ |
    ⟨hcomp, hcomp', hrunning⟩
  · -- every thread compacts exactly if it did before
    have hbefore : ∀ {i : ℕ} {p : Pc}, (s.threads.set id pc')[i]? = some p → p.compacting = true →
        ∃ q, s.threads[i]? = some q ∧ q.compacting = true := by
      intro i p hp hcomp
      rcases getElem_set_some hp with ⟨rfl, rfl⟩ | ⟨-, hp⟩
      · exact ⟨pc, hpc, hsame ▸ hcomp⟩
      · exact ⟨p, hp, hcomp⟩
    refine ⟨fun i p hp hcomp => ?_, fun hr => ?_, fun i j p q hp hq hcomp hcomp' => ?_⟩
    · obtain ⟨q, hq, hq'⟩ := hbefore hp hcomp
      exact hrunning.trans (h.running i q hq hq')
    · obtain ⟨p, hp, hcomp⟩ := h.held (hrunning.symm.trans hr)
      obtain ⟨i, hi⟩ := List.getElem?_of_mem hp
      by_cases hid : i = id
      · subst hid
        obtain rfl : pc = p := Option.some.inj (hpc.symm.trans hi)
        exact ⟨pc', List.mem_set hlt pc', hsame.trans hcomp⟩
      · exact ⟨p, mem_set_of_ne hid hi, hcomp⟩
    · obtain ⟨p', hp', hcompp⟩ := hbefore hp hcomp
      obtain ⟨q', hq', hcompq⟩ := hbefore hq hcomp'
      exact h.alone i j p' q' hp' hq' hcompp hcompq
  · -- the flag was free, so nobody else compacts
    have honly : ∀ {i : ℕ} {p : Pc}, (s.threads.set id pc')[i]? = some p → p.compacting = true →
        i = id := by
      intro i p hp hcomp
      rcases getElem_set_some hp with ⟨rfl, -⟩ | ⟨-, hp⟩
      · rfl
      · have hset := h.running i p hp hcomp
        rw [hfree] at hset
        cases hset
    refine ⟨fun _ _ _ _ => hrunning, fun _ => ⟨pc', List.mem_set hlt pc', hcomp'⟩, ?_⟩
    intro i j p q hp hq hi hj
    rw [honly hp hi, honly hq hj]
  · -- the one that compacted is done with it
    have hnone : ∀ {i : ℕ} {p : Pc}, (s.threads.set id pc')[i]? = some p → p.compacting = false := by
      intro i p hp
      rcases getElem_set_some hp with ⟨-, rfl⟩ | ⟨hne, hp⟩
      · exact hcomp'
      · by_contra hother
        exact hne (h.alone i id p pc hp hpc (by simpa using hother) hcomp)
    refine ⟨fun i p hp hc => ?_, fun hr => ?_, fun i j p q hp _ hc _ => ?_⟩
    · rw [hnone hp] at hc
      cases hc
    · rw [show v.running = true from hr] at hrunning
      cases hrunning
    · rw [hnone hp] at hc
      cases hc

/-- Each event keeps the flag with its compaction. -/
theorem Exclusive.step (h : Exclusive s) (hstep : s.step e = some s') : Exclusive s' := by
  rcases step_opens_or_moves hstep with ⟨-, v, pc, rfl, hopens⟩ |
    ⟨id, choice, pc, v, pc', rfl, hpc, hmove, rfl⟩
  · exact h.spawn hopens
  · exact h.move hpc hmove

theorem exclusive_openState (days cutoff : ℕ) (pending : Bool) :
    Exclusive (openState days cutoff pending) where
  running i p h := by simp [openState] at h
  held h := by cases h
  alone i j p q h := by simp [openState] at h

/-- In every reachable state there is at most one compaction. -/
theorem exclusive_of_reachable (h : system.Reachable s) : Exclusive s := by
  refine h.invariant ?_ fun hI hstep => hI.step hstep
  rintro _ ⟨days, cutoff, pending, rfl⟩
  exact exclusive_openState days cutoff pending

/-! ## The finisher

What the finisher does after the sync, in its order: it clears the pending flag, looks at the generation again, and
sets the flag if that has moved.  A request that comes in anywhere in between is seen by the second look or has set
the flag after the clearing. -/

namespace Pc

/-- The compaction whose replacement has become durable. -/
def durable? : Pc → Option Job
  | .claimDrops job | .checkGeneration job | .clearPending job | .recheckGeneration job
  | .recheckDays job | .rearm job => some job
  | _ => none

/-- The compaction that has cleared the flag and has yet to decide whether to set it again. -/
def rechecking? : Pc → Option Job
  | .recheckGeneration job | .recheckDays job | .rearm job => some job
  | _ => none

/-- 0 days are stored, and the flag is still to be cleared. -/
def clearing : Pc → Bool
  | .disableBump | .disableMark _ => true
  | _ => false

/-- A thread that begins is in none of these places. -/
theorem durable?_of_opening (h : pc.opening = true) : pc.durable? = none := by
  cases pc <;> first | rfl | cases h

theorem not_clearing_of_opening (h : pc.opening = true) : pc.clearing = false := by
  cases pc <;> first | rfl | cases h

/-- Whoever is there is compacting. -/
theorem compacting_of_rechecking {job : Job} (h : pc.rechecking? = some job) :
    pc.compacting = true := by
  cases pc <;> first | rfl | cases h

end Pc

/-- A compaction becomes durable by the sync of the directory. -/
theorem move_durable {job : Job} (h : v.move id pc choice = some (v', pc'))
    (hjob : pc'.durable? = some job) :
    pc.durable? = some job ∨ (pc = .sync job ∧ choice.ok = true) := by
  cases pc with
  -- a job is durable from its sync on, if that succeeds
  | sync job' =>
      cases h
      split at hjob
      · cases hjob
        exact .inr ⟨rfl, ‹_›⟩
      · cases hjob
  -- here a call starts, or is turned away
  | disable | request i raised | claimRunning | authorize job' =>
      simp only [Vars.move] at h
      split at h <;> first
        | (cases h; cases hjob)
        | (split at h <;> cases h <;> cases hjob)
        | cases h
  | release job' outcome =>
      cases h
      cases outcome with
      | durable | syncPending | deferred | superseded | failed => cases hjob
  | done => cases h
  -- from here to the release it stays what it was
  | claimDrops job' | clearPending job' =>
      cases h
      cases hjob
      exact .inl rfl
  | checkGeneration job' | recheckDays job' =>
      cases h
      split at hjob
      · exact .inl hjob
      · cases hjob
  | recheckGeneration job' =>
      cases h
      split at hjob
      · cases hjob
      · exact .inl hjob
  | prune i raised | disableStore | disableBump | disableMark _ | disableUnlock | storeCutoff _ _
  | bump | mark _ | unlock | loadGeneration | loadCutoff _ | loadClaimed _ _ _ | rearm _ =>
      cases h
      cases hjob
  | _ =>
      cases h
      split at hjob <;> cases hjob

/-- Who touches the pending flag. -/
theorem move_pending (h : v.move id pc choice = some (v', pc')) :
    v'.pending = v.pending ∨ v'.pending = true ∨ pc.clearing = true ∨
      ∃ job, pc = .clearPending job ∧ pc' = .recheckGeneration job := by
  cases pc with
  | disableMark g => exact .inr (.inr (.inl rfl))
  | mark g | rearm job =>
      cases h
      exact .inr (.inl rfl)
  | clearPending job =>
      cases h
      exact .inr (.inr (.inr ⟨job, rfl, rfl⟩))
  | disable | request i raised | claimRunning | authorize job =>
      simp only [Vars.move] at h
      split at h <;> first
        | (cases h; exact .inl rfl)
        | (split at h <;> cases h <;> exact .inl rfl)
        | cases h
  | done => cases h
  | _ =>
      cases h
      exact .inl rfl

/-- Nobody comes to the clearing of the flag but by storing 0 days. -/
theorem move_clearing (h : v.move id pc choice = some (v', pc')) (hclear : pc'.clearing = true) :
    pc.clearing = true ∨ v'.days = 0 := by
  cases pc with
  | disableStore =>
      cases h
      exact .inr rfl
  | disableBump | disableMark _ => exact .inl rfl
  | disable | request i raised | claimRunning | authorize job =>
      simp only [Vars.move] at h
      split at h <;> first
        | (cases h; cases hclear)
        | (split at h <;> cases h <;> cases hclear)
        | cases h
  | release job outcome =>
      cases h
      cases outcome <;> cases hclear
  | done => cases h
  | prune i raised | disableUnlock | storeCutoff _ _ | bump | mark _ | unlock | loadGeneration
  | loadCutoff _ | loadClaimed _ _ _ | claimDrops _ | clearPending _ | rearm _ =>
      cases h
      cases hclear
  | _ =>
      cases h
      split at hclear <;> cases hclear

/-- **The second look.** A compaction that cleared the flag of a newer request sets it again. -/
theorem move_rechecking {job : Job} (h : v.move id pc choice = some (v', pc'))
    (hjob : pc.rechecking? = some job) (hnewer : job.generation < v.generation) (hdays : 0 < v.days) :
    pc'.rechecking? = some job ∨ v'.pending = true := by
  cases pc with
  | recheckGeneration job' =>
      cases hjob
      cases h
      rw [if_neg (by omega)]
      exact .inl rfl
  | recheckDays job' =>
      cases hjob
      cases h
      rw [if_pos hdays]
      exact .inl rfl
  | rearm job' =>
      cases h
      exact .inr rfl
  | _ => cases hjob

/-- A request that has bumped the generation. -/
theorem move_mark {g : ℕ} (h : v.move id pc choice = some (v', .mark g)) : g = v'.generation := by
  cases pc with
  | bump =>
      cases h
      rfl
  | disable | request i raised | claimRunning | authorize job =>
      simp only [Vars.move] at h
      split at h <;> first | cases h | (split at h <;> cases h)
  | release job outcome =>
      simp only [Vars.move, Option.some.injEq, Prod.mk.injEq] at h
      obtain ⟨-, h⟩ := h
      cases outcome <;> cases h
  | prune i raised | disableStore | disableBump | disableMark _ | disableUnlock | storeCutoff _ _
  | mark _ | unlock | loadGeneration | loadCutoff _ | loadClaimed _ _ _ | claimDrops _
  | clearPending _ | rearm _ | done => cases h
  | _ =>
      simp only [Vars.move, Option.some.injEq, Prod.mk.injEq] at h
      obtain ⟨-, h⟩ := h
      split at h <;> cases h

/-! ## What the durable compactions and the requests have left

The list of the generations that became durable grows by the syncs; what a finisher remembers of its own is in it. -/

/-- **`Recorded`** — a compaction past its sync is one of those that became durable, and no request holds a
generation that was not issued. -/
structure Recorded (gens : List ℕ) (s : State) : Prop where
  durable : ∀ pc ∈ s.threads, ∀ job, pc.durable? = some job → job.generation ∈ gens
  issued : ∀ pc ∈ s.threads, ∀ g, pc = .mark g → g ≤ s.vars.generation

theorem Recorded.step {gens : List ℕ} (h : Recorded gens s) (hstep : s.step e = some s') :
    Recorded (gens ++ (s.commits e).toList) s' := by
  rcases step_opens_or_moves hstep with ⟨hnone, v, pc, rfl, hopens⟩ |
    ⟨id, choice, pc, v, pc', rfl, hpc, hmove, rfl⟩
  · rw [hnone, Option.toList_none, List.append_nil]
    refine ⟨fun q hq job hjob => ?_, fun q hq g hg => ?_⟩
    · rcases List.mem_append.mp hq with hq | hq
      · exact h.durable q hq job hjob
      · rw [List.mem_singleton.mp hq, Pc.durable?_of_opening hopens.opening] at hjob
        cases hjob
    · show g ≤ v.generation
      rw [hopens.generation]
      rcases List.mem_append.mp hq with hq | hq
      · exact h.issued q hq g hg
      · have hopening := hopens.opening
        rw [← List.mem_singleton.mp hq, hg] at hopening
        cases hopening
  · refine ⟨fun q hq job hjob => ?_, fun q hq g hg => ?_⟩
    · rcases List.mem_or_eq_of_mem_set hq with hq | rfl
      · exact List.mem_append_left _ (h.durable q hq job hjob)
      · rcases move_durable hmove hjob with hbefore | ⟨rfl, hok⟩
        · exact List.mem_append_left _ (h.durable pc (List.mem_of_getElem? hpc) job hbefore)
        · apply List.mem_append_right
          simp [State.commits, hpc, hok]
    · rcases List.mem_or_eq_of_mem_set hq with hq | rfl
      · exact Nat.le_trans (h.issued q hq g hg) (move_disturbs hmove).generation
      · subst hg
        exact Nat.le_of_eq (move_mark hmove)

theorem recorded_openState (days cutoff : ℕ) (pending : Bool) :
    Recorded [] (openState days cutoff pending) where
  durable pc h := by cases h
  issued pc h := by cases h

theorem recorded_of_run {days cutoff : ℕ} {pending : Bool} {es : List Event}
    (h : system.Run (openState days cutoff pending) es s) :
    Recorded (committed (openState days cutoff pending) es) s := by
  induction h with
  | nil => exact recorded_openState days cutoff pending
  | snoc hrun hstep ih =>
      rw [committed_snoc hrun (Option.isSome_iff_exists.mpr ⟨_, hstep⟩)]
      exact ih.step hstep

/-! ## No request is lost

From the step on by which a request sets the flag, one of three things remembers it: the flag, a finisher that has yet
to look again, or a generation in the list that is not older. -/

/-- **`Awaited`** — the request of generation `g` is remembered: by the flag, or by an older compaction that
has cleared it and will look at the generation again. -/
structure Awaited (g : ℕ) (s : State) : Prop where
  generation : g ≤ s.vars.generation
  enabled : ∀ pc ∈ s.threads, pc.clearing = false
  pending : s.vars.pending = true ∨
    ∃ pc ∈ s.threads, ∃ job, pc.rechecking? = some job ∧ job.generation < g

theorem Awaited.spawn {g : ℕ} (h : Awaited g s) {v : Vars} (hopens : Opens s v pc) :
    Awaited g (s.spawn v pc) where
  generation := by
    show g ≤ v.generation
    rw [hopens.generation]
    exact h.generation
  enabled q hq := by
    rcases List.mem_append.mp hq with hq | hq
    · exact h.enabled q hq
    · rw [List.mem_singleton.mp hq]
      exact Pc.not_clearing_of_opening hopens.opening
  pending := by
    rcases h.pending with hpending | ⟨q, hq, hrecheck⟩
    · exact .inl (hopens.pending.trans hpending)
    · exact .inr ⟨q, List.mem_append_left _ hq, hrecheck⟩

/-- The flag, after a move: it stands, or the thread that just cleared it looks again, or its compaction
was of generation `g` or a later one. -/
theorem Awaited.pending_move {g : ℕ} {gens : List ℕ} (h : Awaited g s) (hrec : Recorded gens s)
    (hdays : 0 < s.vars.days) (hpc : s.threads[id]? = some pc)
    (hmove : s.vars.move id pc choice = some (v', pc')) :
    (∃ c ∈ gens, g ≤ c) ∨ v'.pending = true ∨
      ∃ q ∈ s.threads.set id pc', ∃ job, q.rechecking? = some job ∧ job.generation < g := by
  have hlt := (List.getElem?_eq_some_iff.mp hpc).1
  rcases h.pending with hpending | ⟨q, hq, job, hjob, hold⟩
  · rcases move_pending hmove with hsame | htrue | hclear | ⟨job, rfl, rfl⟩
    · exact .inr (.inl (hsame.trans hpending))
    · exact .inr (.inl htrue)
    · rw [h.enabled pc (List.mem_of_getElem? hpc)] at hclear
      cases hclear
    · by_cases hg : g ≤ job.generation
      · exact .inl ⟨_, hrec.durable _ (List.mem_of_getElem? hpc) job rfl, hg⟩
      · exact .inr (.inr ⟨_, List.mem_set hlt _, job, rfl, Nat.lt_of_not_le hg⟩)
  · obtain ⟨j, hj⟩ := List.getElem?_of_mem hq
    by_cases hid : j = id
    · subst hid
      obtain rfl : pc = q := Option.some.inj (hpc.symm.trans hj)
      have hnewer : job.generation < s.vars.generation := Nat.lt_of_lt_of_le hold h.generation
      rcases move_rechecking hmove hjob hnewer hdays with hagain | hset
      · exact .inr (.inr ⟨pc', List.mem_set hlt pc', job, hagain, hold⟩)
      · exact .inr (.inl hset)
    · exact .inr (.inr ⟨q, mem_set_of_ne hid hj, job, hjob, hold⟩)

/-- **One step** with days above 0 before and after it. -/
theorem Awaited.step {g : ℕ} {gens : List ℕ} (h : Awaited g s) (hrec : Recorded gens s)
    (hdays : 0 < s.vars.days) (hdays' : 0 < s'.vars.days) (hstep : s.step e = some s') :
    (∃ c ∈ gens, g ≤ c) ∨ Awaited g s' := by
  rcases step_opens_or_moves hstep with ⟨-, v, pc, rfl, hopens⟩ |
    ⟨id, choice, pc, v, pc', rfl, hpc, hmove, rfl⟩
  · exact .inr (h.spawn hopens)
  · rcases h.pending_move hrec hdays hpc hmove with hdone | hpending
    · exact .inl hdone
    · refine .inr ⟨Nat.le_trans h.generation (move_disturbs hmove).generation, ?_, hpending⟩
      intro q hq
      rcases List.mem_or_eq_of_mem_set hq with hq | rfl
      · exact h.enabled q hq
      · by_contra hclear
        rcases move_clearing hmove (by simpa using hclear) with hbefore | hzero
        · rw [h.enabled pc (List.mem_of_getElem? hpc)] at hbefore
          cases hbefore
        · have hpos : 0 < v.days := hdays'
          omega

/-- The step by which a request sets the flag. -/
theorem awaited_of_mark {g : ℕ} {gens : List ℕ} (hl : Linked s) (hrec : Recorded gens s)
    (hmark : s.threads[id]? = some (.mark g)) (hstep : s.step (.run id choice) = some s') :
    Awaited g s' := by
  obtain rfl : (⟨{ s.vars with controlGeneration := g, pending := true }, s.threads.set id .unlock,
      s.renames⟩ : State) = s' := by
    simpa [State.step, hmark, Vars.move, State.renamed] using hstep
  refine ⟨hrec.issued _ (List.mem_of_getElem? hmark) g rfl, fun q hq => ?_, .inl rfl⟩
  obtain ⟨j, hj⟩ := List.getElem?_of_mem hq
  rcases getElem_set_some hj with ⟨-, rfl⟩ | ⟨hne, hj⟩
  · rfl
  · -- whoever clears the flag holds the control lock, and so does the request
    by_contra hclear
    have hholds : q.holds = true := by
      cases q <;> first | rfl | (simp [Pc.clearing] at hclear)
    have hother := (hl.threads j q hj).control hholds
    rw [(hl.threads id _ hmark).control rfl] at hother
    exact hne (Option.some.inj hother).symm

/-- A state with days above 0, which a run goes through. -/
def Enabled (s : State) (_ : Event) : Prop := 0 < s.vars.days

/-- **Every run** that begins with the flag set for generation `g` and keeps the days above 0. -/
theorem Awaited.run {g days cutoff : ℕ} {pending : Bool} {before after : List Event}
    (hbefore : system.Run (openState days cutoff pending) before s) (h : Awaited g s)
    (hafter : (system.restrict Enabled).Run s after s') (hdays : 0 < s'.vars.days) :
    system.Run (openState days cutoff pending) (before ++ after) s' ∧
      ((∃ c ∈ committed (openState days cutoff pending) (before ++ after), g ≤ c) ∨ Awaited g s') := by
  induction hafter with
  | nil =>
      rw [List.append_nil]
      exact ⟨hbefore, .inr h⟩
  | @snoc m s' es e _ hstep ih =>
      obtain ⟨hm, hremembered⟩ := ih hstep.2
      have hstep' : m.step e = some s' := hstep.1
      have hsome : (m.step e).isSome = true := Option.isSome_iff_exists.mpr ⟨s', hstep'⟩
      rw [← List.append_assoc]
      refine ⟨.snoc hm hstep.1, ?_⟩
      rw [committed_snoc hm hsome]
      rcases hremembered with ⟨c, hc, hg⟩ | hawaited
      · exact .inl ⟨c, List.mem_append_left _ hc, hg⟩
      · rcases hawaited.step (recorded_of_run hm) hstep.2 hdays hstep' with ⟨c, hc, hg⟩ | hawaited
        · exact .inl ⟨c, List.mem_append_left _ hc, hg⟩
        · exact .inr hawaited

/-- **No request is lost, and no two compactions run at once.** Once a request of generation `g` has set the
flag, and while the days stay above 0, in every state in which nothing runs the flag stands or a compaction
of generation at least `g` has become durable. In every reachable state at most one thread stands between
winning the running flag and clearing it. -/
theorem request_not_lost :
    (∀ (days cutoff : ℕ) (pending : Bool) (before after : List Event) (s₀ s₁ s : State) (id g : ℕ)
        (choice : Choice),
      system.Run (openState days cutoff pending) before s₀ → s₀.threads[id]? = some (.mark g) →
      system.step s₀ (.run id choice) s₁ → (system.restrict Enabled).Run s₁ after s →
      0 < s.vars.days → s.vars.running = false →
        s.vars.pending = true ∨
          ∃ c ∈ committed (openState days cutoff pending) (before ++ .run id choice :: after), g ≤ c) ∧
    ∀ s : State, system.Reachable s →
      ∀ (i j : ℕ) (p q : Pc), s.threads[i]? = some p → s.threads[j]? = some q →
        p.compacting = true → q.compacting = true → i = j := by
  constructor
  · intro days cutoff pending before after s₀ s₁ s id g choice hbefore hmark hstep hafter hdays hidle
    have hreach : system.Reachable s₀ := ⟨_, before, ⟨days, cutoff, pending, rfl⟩, hbefore⟩
    have hset : Awaited g s₁ :=
      awaited_of_mark (current_of_reachable hreach).toLinked (recorded_of_run hbefore) hmark hstep
    obtain ⟨hrun, hend⟩ := hset.run (.snoc hbefore hstep) hafter hdays
    rw [List.append_assoc, List.singleton_append] at hrun hend
    rcases hend with hdone | hawaited
    · exact .inr hdone
    · rcases hawaited.pending with hpending | ⟨q, hq, job, hjob, -⟩
      · exact .inl hpending
      · obtain ⟨j, hj⟩ := List.getElem?_of_mem hq
        have hexclusive := exclusive_of_reachable ⟨_, _, ⟨days, cutoff, pending, rfl⟩, hrun⟩
        have hrunning := hexclusive.running j q hj (Pc.compacting_of_rechecking hjob)
        rw [hidle] at hrunning
        cases hrunning
  · intro s hreach i j p q hi hj hp hq
    exact (exclusive_of_reachable hreach).alone i j p q hi hj hp hq

/-- An append up to the point where it sets the flag for its request. -/
def appendRequests : List Event := .append (10 * daySecs) 0 0 :: steps 0 4

/-- The condition on a run can be evaluated. -/
instance (s : State) (e : Event) : Decidable (Enabled s e) :=
  inferInstanceAs (Decidable (0 < s.vars.days))

/-- The request of an append runs to its end: nothing runs, the flag is cleared, its generation is
durable. -/
theorem request_not_lost_served :
    ∃ s₀ s₁ s : State, system.Run (openState 1 0 true) appendRequests s₀ ∧
      s₀.threads[0]? = some (.mark 2) ∧ system.step s₀ (.run 0 {}) s₁ ∧
      (system.restrict Enabled).Run s₁ (steps 0 16) s ∧ s.vars.running = false ∧
      s.vars.pending = false ∧
      ∃ c ∈ committed (openState 1 0 true) (appendRequests ++ .run 0 {} :: steps 0 16), 2 ≤ c := by
  have hexec : (System.exec State.step (openState 1 0 true) appendRequests).any (fun s₀ =>
      decide (s₀.threads[0]? = some (.mark 2)) &&
      (s₀.step (.run 0 {})).any fun s₁ =>
        (System.exec (System.guardStep Enabled State.step) s₁ (steps 0 16)).any fun s =>
          decide (0 < s.vars.days) && !s.vars.running && !s.vars.pending) = true := by
    decide +kernel
  obtain ⟨s₀, hbefore, h₀⟩ := System.run_of_exec_any hexec
  obtain ⟨hmark, h₀⟩ := Bool.and_eq_true_iff.mp h₀
  obtain ⟨s₁, hstep, h₁⟩ := (Option.any_eq_true _ _).mp h₀
  obtain ⟨s, hafter, hs⟩ := System.run_of_exec_any h₁
  have hafter' := System.Run.restrict_of_guardStep hafter
  simp only [Bool.and_eq_true, Bool.not_eq_true', decide_eq_true_eq] at hs hmark
  obtain ⟨⟨hdays, hidle⟩, hcleared⟩ := hs
  have hkept := request_not_lost.1 1 0 true appendRequests (steps 0 16) s₀ s₁ s 0 2 {} hbefore hmark
    hstep hafter' hdays hidle
  rcases hkept with hpending | hdone
  · rw [hcleared] at hpending
    cases hpending
  · exact ⟨s₀, s₁, s, hbefore, hmark, hstep, hafter', hidle, hcleared, hdone⟩

/-- The flag is set and the control lock given back; retention is switched off, and the call returns; it is
switched on again; then the request returns. -/
def cancelled : List Event :=
  steps 0 2 ++ .reconfigureRetention 0 (11 * daySecs) :: steps 1 5 ++
    .reconfigureRetention 5 (12 * daySecs) :: steps 0 1

/-- **A request is cancelled before it returns.** When it has returned the days are above 0, nothing runs,
the flag does not stand, and no compaction has become durable. -/
theorem request_cancelled_before_return :
    ∃ s₀ s : State, system.Run (openState 1 0 true) appendRequests s₀ ∧
      s₀.threads[0]? = some (.mark 2) ∧ system.Run s₀ cancelled s ∧ s.threads[0]? = some .done ∧
      0 < s.vars.days ∧ s.vars.running = false ∧
      ¬ (s.vars.pending = true ∨
        ∃ c ∈ committed (openState 1 0 true) (appendRequests ++ cancelled), 2 ≤ c) := by
  have hexec : (System.exec State.step (openState 1 0 true) appendRequests).any (fun s₀ =>
      decide (s₀.threads[0]? = some (.mark 2)) &&
      (System.exec State.step s₀ cancelled).any fun s =>
        decide (s.threads[0]? = some .done) && decide (0 < s.vars.days) && !s.vars.running &&
          !s.vars.pending) = true := by
    decide +kernel
  have hnone : committed (openState 1 0 true) (appendRequests ++ cancelled) = [] := by decide +kernel
  obtain ⟨s₀, hbefore, h₀⟩ := System.run_of_exec_any hexec
  obtain ⟨hmark, h₀⟩ := Bool.and_eq_true_iff.mp h₀
  obtain ⟨s, hafter, hs⟩ := System.run_of_exec_any h₀
  simp only [Bool.and_eq_true, Bool.not_eq_true', decide_eq_true_eq] at hs hmark
  obtain ⟨⟨⟨hreturned, hdays⟩, hidle⟩, hcleared⟩ := hs
  refine ⟨s₀, s, hbefore, hmark, hafter, hreturned, hdays, hidle, ?_⟩
  rw [hnone, hcleared]
  simp

end Flock.Retention
