/-
# Flock.History.Retention — which retention a committed compaction goes by.

A compaction that is authorised uses the cutoff of the LATEST request: the generation it loaded is
still current, and the cutoff was loaded after it (`Linked`).  So what it deletes was computed from
the retention that the latest request went by, and the question is whether the retention in force may
be longer.  It may: an append that read `days` before a change can ask after it, and a change stores
`days` before it asks.  `RetentionSafe` rules out both, and then every rename goes by a retention at
least as long as the one in force.
-/
import Flock.History.Protocol

namespace Flock.Retention

open Lib (System)

/-! ## What the threads hold

What a thread has in hand while it goes through the protocol: the lock, the generation it goes by, the cutoff it has
loaded and who wrote that.  All of it is read off where the thread stands. -/

namespace Pc

/-- The thread holds the control lock. -/
def holds : Pc → Bool
  | .disableStore | .disableBump | .disableMark _ | .disableUnlock | .storeCutoff .. | .bump
  | .mark _ | .unlock | .rename .. => true
  | _ => false

/-- The thread has asked for a compaction at some point. -/
def asked : Pc → Bool
  | .bump | .mark _ | .unlock | .start | .claimRunning | .loadGeneration | .loadCutoff _ => true
  | .clearPending _ | .recheckGeneration _ | .recheckDays _ | .rearm _ | .release .. => true
  | .loadClaimed .. | .prepare _ | .authorize _ | .rename .. | .sync _ | .claimDrops _ => true
  | .checkGeneration _ | .newerGeneration _ | .newerDays | .newerPending | .restart => true
  | _ => false

/-- The generation the thread goes by, while it matters. -/
def generation? : Pc → Option ℕ
  | .loadCutoff g | .loadClaimed g _ _ => some g
  | .prepare job | .authorize job => some job.generation
  | _ => none

/-- The cutoff the thread goes by, and who wrote it. -/
def loaded? : Pc → Option (ℕ × Option Issue)
  | .loadClaimed _ c w => some (c, w)
  | .prepare job | .authorize job => some (job.cutoff, job.writer)
  | _ => none

/-- A retention change that raised the retention and has not stored its cutoff yet. -/
def raising : Pc → Bool
  | .prune _ raised | .request _ raised | .storeCutoff _ raised => raised
  | _ => false

end Pc

/-- What is known of thread `id` at `pc`. -/
structure Local (v : Vars) (id : ℕ) (pc : Pc) : Prop where
  control : pc.holds = true → v.control = some id
  midway : pc.holds = true → (v.midway = true ↔ pc = .bump)
  writer : pc.asked = true → v.writer.isSome = true
  generation : ∀ g, pc.generation? = some g → g ≤ v.generation
  loaded : ∀ c w, pc.loaded? = some (c, w) → pc.generation? = some v.generation →
    v.midway = false → c = v.cutoff ∧ w = v.writer

/-- **`Linked`** — the variables fit together, and every thread's view of them is what it can rely
on. -/
structure Linked (s : State) : Prop where
  locked : s.vars.control = none → s.vars.midway = false
  cutoff : ∀ w, s.vars.writer = some w → s.vars.cutoff = w.cutoff
  threads : ∀ id pc, s.threads[id]? = some pc → Local s.vars id pc

/-- What a step of one thread may do to what the others see. -/
structure Disturbs (v v' : Vars) : Prop where
  writer : v.writer.isSome = true → v'.writer.isSome = true
  generation : v.generation ≤ v'.generation
  cutoff : v'.generation = v.generation → v'.midway = false →
    v.midway = false ∧ v'.cutoff = v.cutoff ∧ v'.writer = v.writer

/-- The others keep their view, as long as the lock is not taken from them. -/
theorem Local.other {v v' : Vars} {id : ℕ} {pc : Pc} (h : Local v id pc) (hd : Disturbs v v')
    (hcontrol : v.control = some id → v'.control = some id ∧ v'.midway = v.midway) :
    Local v' id pc where
  control hh := (hcontrol (h.control hh)).1
  midway hh := by
    rw [(hcontrol (h.control hh)).2]
    exact h.midway hh
  writer hh := hd.writer (h.writer hh)
  generation g hg := Nat.le_trans (h.generation g hg) hd.generation
  loaded c w hl hg hm := by
    have hge := h.generation _ hg
    have heq : v'.generation = v.generation := Nat.le_antisymm hge hd.generation
    obtain ⟨hmid, hcut, hwr⟩ := hd.cutoff heq hm
    rw [hcut, hwr]
    exact h.loaded c w hl (heq ▸ hg) hmid

/-! ## One step

A step of one thread may write the variables that the others go by.  `Disturbs` bounds that, so the others are dealt
with once, and the thread itself case by case. -/

variable {v v' : Vars} {id : ℕ} {pc pc' : Pc} {choice : Choice}

/-- A step that leaves the protocol's variables alone. -/
theorem Disturbs.of_eq (hw : v'.writer = v.writer) (hg : v'.generation = v.generation)
    (hm : v'.midway = v.midway) (hc : v'.cutoff = v.cutoff) : Disturbs v v' where
  writer := by rw [hw]; exact fun h => h
  generation := Nat.le_of_eq hg.symm
  cutoff _ hmid := ⟨hm ▸ hmid, hc, hw⟩

/-- Every step is within the bound. -/
theorem move_disturbs (h : v.move id pc choice = some (v', pc')) : Disturbs v v' := by
  cases pc with
  | disableBump | bump =>
      cases h
      exact ⟨fun h => h, Nat.le_succ _, fun heq => absurd heq (Nat.succ_ne_self _)⟩
  | storeCutoff i raised =>
      cases h
      exact ⟨fun _ => rfl, Nat.le_refl _, fun _ hmid => absurd hmid (by simp)⟩
  | disable | request i raised | claimRunning | authorize job =>
      simp only [Vars.move] at h
      split at h <;> first
        | (cases h; exact .of_eq rfl rfl rfl rfl)
        | (split at h <;> cases h <;> exact .of_eq rfl rfl rfl rfl)
        | cases h
  | done => cases h
  | _ =>
      cases h
      exact .of_eq rfl rfl rfl rfl

/-- Nobody takes the control lock from another thread. -/
theorem move_control (hl : Local v id pc) (h : v.move id pc choice = some (v', pc')) {j : ℕ}
    (hj : j ≠ id) (hc : v.control = some j) : v'.control = some j ∧ v'.midway = v.midway := by
  have hfree : pc.holds = false := by
    by_contra hh
    have := hl.control (by simpa using hh)
    rw [hc] at this
    exact hj (Option.some.inj this)
  cases pc with
  | disableStore | disableBump | disableMark _ | disableUnlock | storeCutoff _ _ | bump | mark _
  | unlock | rename _ _ => cases hfree
  | disable | request i raised | authorize job =>
      simp [Vars.move, hc] at h
  | claimRunning =>
      simp only [Vars.move] at h
      split at h <;> cases h <;> exact ⟨hc, rfl⟩
  | done => cases h
  | _ =>
      cases h
      exact ⟨hc, rfl⟩

/-- A thread that has not asked yet and holds nothing has nothing to rely on. -/
theorem Local.idle (hh : pc.holds = false) (ha : pc.asked = false) (hg : pc.generation? = none)
    (hl : pc.loaded? = none) : Local v id pc where
  control h := by rw [hh] at h; cases h
  midway h := by rw [hh] at h; cases h
  writer h := by rw [ha] at h; cases h
  generation g h := by rw [hg] at h; cases h
  loaded c w h := by rw [hl] at h; cases h

/-- A thread that has asked, and holds nothing. -/
theorem Local.plain (hh : pc.holds = false) (hw : v.writer.isSome = true)
    (hg : pc.generation? = none) (hl : pc.loaded? = none) : Local v id pc where
  control h := by rw [hh] at h; cases h
  midway h := by rw [hh] at h; cases h
  writer _ := hw
  generation g h := by rw [hg] at h; cases h
  loaded c w h := by rw [hl] at h; cases h

/-- A thread inside the control lock. -/
theorem Local.inside (hc : v.control = some id) (hm : v.midway = true ↔ pc = .bump)
    (hw : pc.asked = true → v.writer.isSome = true) (hg : pc.generation? = none)
    (hl : pc.loaded? = none) : Local v id pc where
  control _ := hc
  midway _ := hm
  writer := hw
  generation g h := by rw [hg] at h; cases h
  loaded c w h := by rw [hl] at h; cases h

/-- **The thread itself** keeps its view. -/
theorem move_local (hfree : v.control = none → v.midway = false) (hl : Local v id pc)
    (h : v.move id pc choice = some (v', pc')) : Local v' id pc' := by
  cases pc with
  | loadPending i | loadDropped i =>
      cases h
      split <;> exact .idle rfl rfl rfl rfl
  | prune i raised | disableUnlock =>
      cases h
      exact .idle rfl rfl rfl rfl
  | disable | request i raised =>
      simp only [Vars.move, Option.ite_none_right_eq_some, Option.some.injEq, Prod.mk.injEq] at h
      obtain ⟨hc, rfl, rfl⟩ := h
      exact .inside rfl (by simp [hfree hc]) (by simp [Pc.asked]) rfl rfl
  | disableStore | disableBump | disableMark g =>
      cases h
      have hm := hl.midway rfl
      exact .inside (hl.control rfl) (by simpa using hm) (by simp [Pc.asked]) rfl rfl
  | storeCutoff i raised =>
      cases h
      exact .inside (hl.control rfl) (by simp) (fun _ => rfl) rfl rfl
  | bump =>
      cases h
      exact .inside (hl.control rfl) (by simp) (fun _ => hl.writer rfl) rfl rfl
  | mark g =>
      cases h
      have hm := hl.midway rfl
      exact .inside (hl.control rfl) (by simpa using hm) (fun _ => hl.writer rfl) rfl rfl
  | claimRunning =>
      simp only [Vars.move] at h
      split at h
      · cases h
        exact .idle rfl rfl rfl rfl
      · cases h
        exact .plain rfl (hl.writer rfl) rfl rfl
  | loadGeneration =>
      cases h
      refine ⟨by simp [Pc.holds], by simp [Pc.holds], fun _ => hl.writer rfl, ?_, by simp [Pc.loaded?]⟩
      intro g hg
      cases hg
      exact Nat.le_refl _
  | loadCutoff g =>
      -- the cutoff is loaded after the generation
      cases h
      refine ⟨by simp [Pc.holds], by simp [Pc.holds], fun _ => hl.writer rfl, ?_, ?_⟩
      · intro g' hg
        cases hg
        exact hl.generation g rfl
      · intro c w hcw _ _
        cases hcw
        exact ⟨rfl, rfl⟩
  | loadClaimed g c w =>
      cases h
      refine ⟨by simp [Pc.holds], by simp [Pc.holds], fun _ => hl.writer rfl, hl.generation, ?_⟩
      intro c' w' hcw hg hm
      cases hcw
      exact hl.loaded c w rfl hg hm
  | prepare job =>
      cases h
      split
      · exact .plain rfl (hl.writer rfl) rfl rfl
      · exact ⟨by simp [Pc.holds], by simp [Pc.holds], fun _ => hl.writer rfl, hl.generation,
          hl.loaded⟩
  | authorize job =>
      simp only [Vars.move, Option.ite_none_right_eq_some] at h
      obtain ⟨hc, h⟩ := h
      split at h
      · cases h
        exact .inside rfl (by simp [hfree hc]) (fun _ => hl.writer rfl) rfl rfl
      · cases h
        exact .plain rfl (hl.writer rfl) rfl rfl
  | unlock | claimDrops job | clearPending job | rearm job =>
      cases h
      exact .plain rfl (hl.writer rfl) rfl rfl
  | rename job days | sync job | checkGeneration job | recheckGeneration job | recheckDays job =>
      cases h
      split <;> exact .plain rfl (hl.writer rfl) rfl rfl
  | release job outcome =>
      cases h
      cases outcome with
      | deferred | failed => exact .idle rfl rfl rfl rfl
      | durable | superseded | syncPending => exact .plain rfl (hl.writer rfl) rfl rfl
  | start | newerDays | newerPending | restart =>
      cases h
      split
      · exact .plain rfl (hl.writer rfl) rfl rfl
      · exact .idle rfl rfl rfl rfl
  | newerGeneration job =>
      cases h
      split
      · exact .idle rfl rfl rfl rfl
      · exact .plain rfl (hl.writer rfl) rfl rfl
  | done => cases h

/-- Who writes the cutoff and the retention. -/
theorem move_writes (h : v.move id pc choice = some (v', pc')) :
    ((∀ i raised, pc ≠ .storeCutoff i raised) ∧ v'.writer = v.writer ∧ v'.cutoff = v.cutoff ∧
      (v'.days = v.days ∨ v'.days = 0)) ∨
    (∃ i raised, pc = .storeCutoff i raised ∧ v'.writer = some i ∧ v'.cutoff = i.cutoff ∧
      v'.days = v.days) := by
  cases pc with
  | storeCutoff i raised =>
      cases h
      exact .inr ⟨i, raised, rfl, rfl, rfl, rfl⟩
  | disableStore =>
      cases h
      exact .inl ⟨by simp, rfl, rfl, .inr rfl⟩
  | disable | request i raised | claimRunning | authorize job =>
      simp only [Vars.move] at h
      split at h <;> first
        | (cases h; exact .inl ⟨by simp, rfl, rfl, .inl rfl⟩)
        | (split at h <;> cases h <;> exact .inl ⟨by simp, rfl, rfl, .inl rfl⟩)
        | cases h
  | done => cases h
  | _ =>
      cases h
      exact .inl ⟨by simp, rfl, rfl, .inl rfl⟩

/-- While nobody holds the control lock, no cutoff waits for its generation. -/
theorem move_locked (hfree : v.control = none → v.midway = false) (hl : Local v id pc)
    (h : v.move id pc choice = some (v', pc')) (hc : v'.control = none) : v'.midway = false := by
  cases pc with
  | disableStore | disableBump | disableMark _ | storeCutoff _ _ | bump | mark _ =>
      cases h
      exact absurd ((hl.control rfl).symm.trans hc) (by simp)
  | disableUnlock | unlock | rename _ _ =>
      cases h
      have hm := hl.midway rfl
      simpa using hm
  | disable | request i raised | claimRunning | authorize job =>
      simp only [Vars.move] at h
      split at h <;> first
        | (cases h; first | exact hfree hc | cases hc)
        | (split at h <;> cases h <;> first | exact hfree hc | cases hc)
        | cases h
  | done => cases h
  | _ =>
      cases h
      exact hfree hc

/-! ## Every run is linked

A state is a list of threads; one of them moves, or a new one comes in at the end. -/

variable {s s' : State}

/-- The thread that moved, or another one. -/
theorem getElem_set_some {l : List Pc} {id j : ℕ} {pc q : Pc} (h : (l.set id pc)[j]? = some q) :
    (j = id ∧ q = pc) ∨ (j ≠ id ∧ l[j]? = some q) := by
  rw [List.getElem?_set] at h
  split at h
  · rename_i heq
    split at h
    · exact .inl ⟨heq.symm, (Option.some.inj h).symm⟩
    · cases h
  · rename_i hne
    exact .inr ⟨fun heq => hne heq.symm, h⟩

/-- An old thread, or the new one. -/
theorem getElem_append_some {l : List Pc} {j : ℕ} {pc q : Pc} (h : (l ++ [pc])[j]? = some q) :
    l[j]? = some q ∨ q = pc := by
  rw [List.getElem?_append] at h
  split at h
  · exact .inl h
  · have hmem := List.mem_of_getElem? h
    exact .inr (List.mem_singleton.mp hmem)

/-- A new thread that has nothing to rely on, and writes nothing the others rely on. -/
theorem Linked.spawn (h : Linked s) {v : Vars} {pc : Pc} (hcontrol : v.control = s.vars.control)
    (hw : v.writer = s.vars.writer) (hg : v.generation = s.vars.generation)
    (hm : v.midway = s.vars.midway) (hc : v.cutoff = s.vars.cutoff)
    (hnew : ∀ id, Local v id pc) : Linked (s.spawn v pc) where
  locked hnone := by
    show v.midway = false
    rw [hm]
    exact h.locked (hcontrol ▸ hnone)
  cutoff w hwr := by
    show v.cutoff = w.cutoff
    rw [hc]
    exact h.cutoff w (hw ▸ hwr)
  threads id q hq := by
    show Local v id q
    rcases getElem_append_some hq with hq | rfl
    · exact (h.threads id q hq).other (.of_eq hw hg hm hc) fun hh => ⟨hcontrol.trans hh, hm⟩
    · exact hnew id

theorem linked_openState (days cutoff : ℕ) (pending : Bool) :
    Linked (openState days cutoff pending) where
  locked _ := rfl
  cutoff w hw := by cases hw
  threads id pc h := by simp [openState] at h

/-- What an event does: a new thread, or one step of one. -/
theorem step_cases {e : Event} (h : s.step e = some s') :
    (∃ t newest pruned, e = .append t newest pruned ∧ s' = s.append t newest pruned) ∨
    (∃ days now, e = .reconfigureRetention days now ∧ s' = s.reconfigureRetention days now) ∨
    (∃ id choice pc v pc', e = .run id choice ∧ s.threads[id]? = some pc ∧
      s.vars.move id pc choice = some (v, pc') ∧
      s' = ⟨v, s.threads.set id pc', State.renamed pc choice ++ s.renames⟩) := by
  cases e with
  | append t newest pruned =>
      cases h
      exact .inl ⟨t, newest, pruned, rfl, rfl⟩
  | reconfigureRetention days now =>
      cases h
      exact .inr (.inl ⟨days, now, rfl, rfl⟩)
  | run id choice =>
      obtain ⟨pc, hpc, h⟩ := Option.bind_eq_some_iff.mp h
      obtain ⟨⟨v, pc'⟩, hmove, rfl⟩ := Option.map_eq_some_iff.mp h
      exact .inr (.inr ⟨id, choice, pc, v, pc', rfl, hpc, hmove, rfl⟩)

theorem Linked.append (h : Linked s) (t newest pruned : ℕ) :
    Linked (s.append t newest pruned) := by
  unfold State.append
  dsimp only
  split
  · exact h.spawn rfl rfl rfl rfl rfl fun _ => .idle rfl rfl rfl rfl
  · exact h.spawn rfl rfl rfl rfl rfl fun _ => .idle rfl rfl rfl rfl

/-- So does a change of the retention. -/
theorem Linked.reconfigureRetention (h : Linked s) (days now : ℕ) :
    Linked (s.reconfigureRetention days now) := by
  unfold State.reconfigureRetention
  split
  · exact h.spawn rfl rfl rfl rfl rfl fun _ => .idle rfl rfl rfl rfl
  · exact h.spawn rfl rfl rfl rfl rfl fun _ => .idle rfl rfl rfl rfl

/-- **One step keeps the link.** -/
theorem Linked.step (h : Linked s) {e : Event} (hstep : s.step e = some s') : Linked s' := by
  rcases step_cases hstep with ⟨t, newest, pruned, -, rfl⟩ | ⟨days, now, -, rfl⟩ |
    ⟨id, choice, pc, v, pc', -, hpc, hmove, rfl⟩
  · exact h.append t newest pruned
  · exact h.reconfigureRetention days now
  · have hl := h.threads id pc hpc
    refine ⟨move_locked h.locked hl hmove, fun w hw => ?_, fun j q hq => ?_⟩
    · rcases move_writes hmove with ⟨-, hwr, hcut, -⟩ | ⟨i, raised, -, hwr, hcut, -⟩
      · show v.cutoff = w.cutoff
        rw [hcut]
        exact h.cutoff w (hwr ▸ hw)
      · obtain rfl : i = w := Option.some.inj (hwr.symm.trans hw)
        exact hcut
    · rcases getElem_set_some hq with ⟨rfl, rfl⟩ | ⟨hne, hq⟩
      · exact move_local h.locked hl hmove
      · exact (h.threads j q hq).other (move_disturbs hmove) (move_control hl hmove hne)

/-! ## The retention of the latest request

The generation tells that the cutoff is that of the latest request.  How that compares with the retention in force is
a matter of when each of the two was stored, and the condition is about that. -/

/-- **The condition.** A cutoff is stored only if the retention it goes by is no shorter than the one
in force, or another call that raised the retention is still to store its own; and no compaction is
authorised while a call that raised the retention is still to store its cutoff. -/
def RetentionSafe (s : State) : Event → Prop
  | .run id _ => PcSafe id s.threads[id]?
  | _ => True
where
  /-- The two steps that matter. -/
  PcSafe (id : ℕ) : Option Pc → Prop
    | some (.storeCutoff i _) =>
        s.vars.days ≤ i.days ∨ ∃ pc ∈ s.threads.eraseIdx id, pc.raising = true
    | some (.authorize job) =>
        s.vars.control = none → s.vars.authorizes job = true →
          ∀ pc ∈ s.threads, pc.raising = false
    | _ => True

/-- **`Kept`** — with no raise under way, the latest request went by a retention at least as long as
the one in force; and so did whatever has been authorised. -/
structure Kept (s : State) : Prop extends Linked s where
  quiet : (∀ pc ∈ s.threads, pc.raising = false) →
    ∀ w, s.vars.writer = some w → s.vars.days ≤ w.days
  authorized : ∀ (id : ℕ) (job : Job) (days : ℕ), s.threads[id]? = some (.rename job days) →
    ∃ w : Issue, job.writer = some w ∧ job.cutoff ≤ w.t - days * daySecs
  renames : ∀ r ∈ s.renames, r.cutoff ≤ r.issue.t - r.days * daySecs

/-- A raise stays under way until its cutoff is stored. -/
theorem move_raising (h : v.move id pc choice = some (v', pc'))
    (hne : ∀ i raised, pc ≠ .storeCutoff i raised) : pc'.raising = pc.raising := by
  cases pc with
  | storeCutoff i raised => exact absurd rfl (hne i raised)
  | disable | request i raised | claimRunning | authorize job =>
      simp only [Vars.move] at h
      split at h <;> first
        | (cases h; rfl)
        | (split at h <;> cases h <;> rfl)
        | cases h
  | release job outcome =>
      cases h
      cases outcome <;> rfl
  | done => cases h
  | prune i raised | disableStore | disableBump | disableMark _ | disableUnlock | bump | mark _
  | unlock | loadGeneration | loadCutoff _ | loadClaimed _ _ _ | claimDrops _ | clearPending _
  | rearm _ =>
      cases h
      rfl
  | _ =>
      cases h
      split <;> rfl

/-- Only an authorisation leads to a rename. -/
theorem move_rename {job : Job} {days : ℕ} (h : v.move id pc choice = some (v', .rename job days)) :
    pc = .authorize job ∧ v.control = none ∧ v.authorizes job = true ∧ days = v.days := by
  cases pc with
  | authorize job' =>
      simp only [Vars.move, Option.ite_none_right_eq_some] at h
      obtain ⟨hc, h⟩ := h
      split at h
      · rename_i hauth
        cases h
        exact ⟨rfl, hc, hauth, rfl⟩
      · cases h
  | disable | request i raised | claimRunning =>
      simp only [Vars.move] at h
      split at h <;> cases h
  | release job' outcome =>
      simp only [Vars.move, Option.some.injEq, Prod.mk.injEq] at h
      obtain ⟨-, h⟩ := h
      cases outcome <;> cases h
  | prune i raised | disableStore | disableBump | disableMark _ | disableUnlock | bump | mark _
  | unlock | loadGeneration | loadCutoff _ | loadClaimed _ _ _ | claimDrops _ | clearPending _
  | rearm _ | done | storeCutoff _ _ => cases h
  | _ =>
      simp only [Vars.move, Option.some.injEq, Prod.mk.injEq] at h
      obtain ⟨-, h⟩ := h
      split at h <;> cases h

/-- An authorised compaction goes by the latest request. -/
theorem Linked.authorized_latest (h : Linked s) {job : Job}
    (hpc : s.threads[id]? = some (.authorize job)) (hc : s.vars.control = none)
    (hauth : s.vars.authorizes job = true) :
    ∃ w, s.vars.writer = some w ∧ job.writer = some w ∧ job.cutoff = w.cutoff := by
  have hl := h.threads id _ hpc
  obtain ⟨w, hw⟩ := Option.isSome_iff_exists.mp (hl.writer rfl)
  have hgen : s.vars.generation = job.generation := by
    simp only [Vars.authorizes, Bool.and_eq_true, beq_iff_eq] at hauth
    exact hauth.1.1.2
  obtain ⟨hcut, hwr⟩ := hl.loaded job.cutoff job.writer rfl (by rw [hgen]; rfl) (h.locked hc)
  exact ⟨w, hw, hwr.trans hw, hcut.trans (h.cutoff w hw)⟩

/-- A longer retention deletes less. -/
theorem cutoff_le {w : Issue} {days : ℕ} (h : days ≤ w.days) : w.cutoff ≤ w.t - days * daySecs := by
  unfold Issue.cutoff
  have := Nat.mul_le_mul_right daySecs h
  omega

theorem mem_set_of_ne {l : List Pc} {id j : ℕ} {pc q : Pc} (hne : j ≠ id) (h : l[j]? = some q) :
    q ∈ l.set id pc := by
  have hset : (l.set id pc)[j]? = some q := by
    rw [List.getElem?_set, if_neg (Ne.symm hne)]
    exact h
  exact List.mem_of_getElem? hset

/-- A new thread that is not in the middle of a rename. -/
theorem Kept.spawn (h : Kept s) {v : Vars} {pc : Pc} (hl : Linked (s.spawn v pc))
    (hquiet : pc.raising = false → (∀ q ∈ s.threads, q.raising = false) →
      ∀ w, v.writer = some w → v.days ≤ w.days)
    (hpc : ∀ job days, pc ≠ .rename job days) : Kept (s.spawn v pc) where
  toLinked := hl
  quiet hq := by
    have hsplit : (∀ q ∈ s.threads, q.raising = false) ∧ pc.raising = false := by
      simpa [State.spawn, or_imp, forall_and] using hq
    exact hquiet hsplit.2 hsplit.1
  authorized id job days hid := by
    rcases getElem_append_some hid with hid | heq
    · exact h.authorized id job days hid
    · exact absurd heq.symm (hpc job days)
  renames := h.renames

/-- A new append has asked for nothing. -/
theorem Kept.append (h : Kept s) (t newest pruned : ℕ) : Kept (s.append t newest pruned) := by
  have hl := h.toLinked.append t newest pruned
  unfold State.append at hl ⊢
  dsimp only at hl ⊢
  split
  · rw [if_pos ‹_›] at hl
    exact h.spawn hl (fun _ => h.quiet) (by simp)
  · rw [if_neg ‹_›] at hl
    exact h.spawn hl (fun _ => h.quiet) (by simp)

/-- A change has stored nothing yet. -/
theorem Kept.reconfigureRetention (h : Kept s) (days now : ℕ) :
    Kept (s.reconfigureRetention days now) := by
  have hl := h.toLinked.reconfigureRetention days now
  unfold State.reconfigureRetention at hl ⊢
  split
  · rw [if_pos ‹_›] at hl
    exact h.spawn hl (fun _ => h.quiet) (by simp)
  · rw [if_neg ‹_›] at hl
    refine h.spawn hl (fun hraise hq w hw => ?_) (by simp)
    -- not a raise: the new retention is at most the old one
    have hle : days ≤ s.vars.days := by
      simpa [Pc.raising] using hraise
    exact Nat.le_trans hle (h.quiet hq w hw)

/-- The quiet part of one step: what the latest request went by. -/
theorem Kept.quiet_run (h : Kept s) (hpc : s.threads[id]? = some pc)
    (hmove : s.vars.move id pc choice = some (v', pc')) (hsafe : RetentionSafe s (.run id choice))
    (hq : ∀ q ∈ s.threads.set id pc', q.raising = false) {w : Issue} (hw : v'.writer = some w) :
    v'.days ≤ w.days := by
  have hothers : ∀ (j : ℕ) (q : Pc), j ≠ id → s.threads[j]? = some q → q.raising = false :=
    fun j q hne hj => hq q (mem_set_of_ne hne hj)
  rcases move_writes hmove with ⟨hne, hwr, -, hdays⟩ | ⟨i, raised, rfl, hwr, -, hdays⟩
  · have hself : pc.raising = false := by
      rw [← move_raising hmove hne]
      exact hq pc' (List.mem_set (List.getElem?_eq_some_iff.mp hpc).1 pc')
    have hall : ∀ q ∈ s.threads, q.raising = false := by
      intro q hmem
      obtain ⟨j, hj⟩ := List.getElem?_of_mem hmem
      by_cases hj' : j = id
      · subst hj'
        obtain rfl : pc = q := Option.some.inj (hpc.symm.trans hj)
        exact hself
      · exact hothers j q hj' hj
    have hold := h.quiet hall w (hwr ▸ hw)
    omega
  · obtain rfl : i = w := Option.some.inj (hwr.symm.trans hw)
    rw [hdays]
    simp only [RetentionSafe, hpc, RetentionSafe.PcSafe] at hsafe
    rcases hsafe with hle | ⟨q, hmem, hraise⟩
    · exact hle
    · -- another raise would still be under way
      obtain ⟨j, hne, hj⟩ := List.mem_eraseIdx_iff_getElem?.mp hmem
      rw [hothers j q hne hj] at hraise
      cases hraise

/-- **One step**, where the step meets the condition. -/
theorem Kept.step (h : Kept s) {e : Event} (hstep : s.step e = some s')
    (hsafe : RetentionSafe s e) : Kept s' := by
  have hl := h.toLinked.step hstep
  rcases step_cases hstep with ⟨t, newest, pruned, -, rfl⟩ | ⟨days, now, -, rfl⟩ |
    ⟨id, choice, pc, v, pc', rfl, hpc, hmove, rfl⟩
  · exact h.append t newest pruned
  · exact h.reconfigureRetention days now
  · refine ⟨hl, fun hq w hw => h.quiet_run hpc hmove hsafe hq hw, fun j job days hj => ?_,
      fun r hr => ?_⟩
    · rcases getElem_set_some hj with ⟨rfl, heq⟩ | ⟨-, hj⟩
      · -- just authorised: by the latest request, with no raise under way
        rw [← heq] at hmove
        obtain ⟨rfl, hc, hauth, rfl⟩ := move_rename hmove
        obtain ⟨w, hw, hjw, hcut⟩ := h.toLinked.authorized_latest hpc hc hauth
        simp only [RetentionSafe, hpc, RetentionSafe.PcSafe] at hsafe
        refine ⟨w, hjw, ?_⟩
        rw [hcut]
        exact cutoff_le (h.quiet (hsafe hc hauth) w hw)
      · exact h.authorized j job days hj
    · rcases List.mem_append.mp hr with hr | hr
      · cases pc with
        | rename job days =>
            obtain ⟨w, hw, hcut⟩ := h.authorized id job days hpc
            simp only [State.renamed, hw] at hr
            split at hr
            · obtain rfl : r = ⟨job.cutoff, w, days⟩ := by simpa using hr
              exact hcut
            · cases hr
        | _ => cases hr
      · exact h.renames r hr

/-- At the start the cutoff is that of the retention. -/
theorem kept_openState (days cutoff : ℕ) (pending : Bool) :
    Kept (openState days cutoff pending) where
  toLinked := linked_openState days cutoff pending
  quiet _ w hw := by cases hw
  authorized id job days h := by simp [openState] at h
  renames r hr := by cases hr

/-- **The retention in force bounds every committed compaction**, in every run in which no cutoff is
stored for a shorter retention than the one in force, unless another call that raised it is still to
store its own, and no compaction is authorised while a call that raised the retention is still to
store its cutoff. The time `r.issue.t` is that of the call that issued the request (for an append,
moved up to the newest sample when the clock is behind it). -/
theorem rename_within_retention (days cutoff : ℕ) (pending : Bool) (es : List Event) (s : State)
    (hrun : (system.restrict RetentionSafe).Run (openState days cutoff pending) es s) :
    ∀ r ∈ s.renames, r.cutoff ≤ r.issue.t - r.days * daySecs := by
  have hstep : ∀ {s e s'}, Kept s → (system.restrict RetentionSafe).step s e s' → Kept s' :=
    fun hk h => hk.step h.1 h.2
  exact (hrun.preserves hstep (kept_openState days cutoff pending)).renames

/-- `n` steps of thread `id`, with nothing going wrong. -/
def steps (id n : ℕ) : List Event := List.replicate n (.run id {})

/-- An append reads a retention of one day; it is raised to thirty, and the change has asked for its
compaction; then the append asks for its own, and that one is committed. -/
def staleAppend : List Event :=
  [.append (10 * daySecs) 0 0, .reconfigureRetention 30 (10 * daySecs)] ++ steps 1 6 ++ steps 0 14

/-- **A request computed from an older, shorter retention deletes what the retention in force
keeps.** -/
theorem stale_append_deletes :
    ∃ s : State, system.Run (openState 1 0 true) staleAppend s ∧
      ∃ r ∈ s.renames, ¬ r.cutoff ≤ r.issue.t - r.days * daySecs := by
  have hexec : (System.exec State.step (openState 1 0 true) staleAppend).any
      (fun s => s.renames.any fun r => !decide (r.cutoff ≤ r.issue.t - r.days * daySecs)) = true := by
    decide +kernel
  obtain ⟨s, hrun, hs⟩ := System.run_of_exec_any hexec
  obtain ⟨r, hr, hnot⟩ := List.any_eq_true.mp hs
  exact ⟨s, hrun, r, hr, by simpa using hnot⟩

instance (s : State) (id : ℕ) (pc : Option Pc) : Decidable (RetentionSafe.PcSafe s id pc) := by
  unfold RetentionSafe.PcSafe
  split <;> infer_instance

instance (s : State) : ∀ e, Decidable (RetentionSafe s e)
  | .run id _ => inferInstanceAs (Decidable (RetentionSafe.PcSafe s id s.threads[id]?))
  | .append .. | .reconfigureRetention .. => .isTrue trivial

/-- An append that asks and compacts under the retention it read. -/
theorem rename_within_retention_unchanged :
    ∃ s : State, (system.restrict RetentionSafe).Run (openState 1 0 true)
        ([.append (10 * daySecs) 0 0] ++ steps 0 14) s ∧
      s.renames ≠ [] ∧ ∀ r ∈ s.renames, r.cutoff ≤ r.issue.t - r.days * daySecs := by
  have hexec : (System.exec (System.guardStep RetentionSafe State.step) (openState 1 0 true)
      ([.append (10 * daySecs) 0 0] ++ steps 0 14)).any (fun s => !s.renames.isEmpty) = true := by
    decide +kernel
  obtain ⟨s, hrun, hs⟩ := System.run_of_exec_any hexec
  have hrun' := System.Run.restrict_of_guardStep hrun
  exact ⟨s, hrun', by simpa using hs, rename_within_retention 1 0 true _ s hrun'⟩

end Flock.Retention
