/-
# Flock.Governor.Restart — the caps of a provider's models, from one process to the next.

The persist loop writes a row for every model that has a cap, and nothing deletes a row.  The next boot restores them
all, so a cap that was dissolved meanwhile comes back.  But it comes back with the time of its last exhaustion, and
the first admission dissolves it again.

    row        worker_limit, last_exhausted, last_adjusted, blocked_until     (seconds of the wall clock)
    restore    now - (unix_now - last_exhausted)                             (the monotone clock of the next process)

`GovernorLife` is one process after another on one table.  Within a process the two clocks advance alike, so the whole
seconds are all the error there is (`governor_survives_restart`).  Seconds since the epoch are taken to fit their word.
-/
import Flock.Governor.Lifecycle
import Flock.Pool.Restart

namespace Flock

open Lib (age System)

/-! ## The rows

The table is a function of the model's name.  A row that was written stays until it is written again. -/

/-- The closure `ago` of `snapshots`. -/
def agoUnix (nowUnix : ℕ) (now : ℤ) (t : Option ℤ) : ℕ := t.elim 0 fun t => nowUnix - age now t / secs 1

/-- `snapshots`, of one model; there is no row for a model without a cap. -/
def ModelState.snapshot (s : ModelState) (nowUnix : ℕ) (now : ℤ) : Option GovernorSnapshot :=
  if s.limit = 0 then none
  else
    some
      { workerLimit := s.limit
        lastExhaustedUnix := agoUnix nowUnix now s.lastExhausted
        lastAdjustedUnix := agoUnix nowUnix now s.lastAdjusted
        blockedUntilUnix := match s.blockedUntil with
          | some b => if b > now then nowUnix + age b now / secs 1 else 0
          | none => 0 }

/-- The rows of one provider in the table `governors`, by model. -/
abbrev GovernorTable : Type := String → Option GovernorSnapshot

/-- `apply_op` for every row of `snapshots`. -/
def GovernorTable.applyOps (db : GovernorTable) (g : Governor) (nowUnix : ℕ) (now : ℤ) : GovernorTable :=
  fun m => ((g.models m).bind fun s => s.snapshot nowUnix now).or (db m)

/-- The governor of a provider after `ProviderRuntime::restore`. -/
def Governor.ofTable (db : GovernorTable) (nowUnix : ℕ) (now : ℤ) : Governor where
  models m := (db m).bind fun snap => (Governor.empty.restore m snap nowUnix now).models m

/-- `restore` goes by the entry of its model. -/
theorem models_restore_congr {g g' : Governor} {m : String} (h : g.models m = g'.models m) (model : String)
    (snap : GovernorSnapshot) (nowUnix : ℕ) (now : ℤ) :
    (g.restore model snap nowUnix now).models m = (g'.restore model snap nowUnix now).models m := by
  unfold Governor.restore
  split
  · exact h
  · by_cases hm : m = model
    · subst hm
      simp [Governor.put, Governor.entry, h]
    · rw [Governor.models_put_of_ne hm, Governor.models_put_of_ne hm, h]

/-- Restoring one model leaves the others. -/
theorem models_restore_of_ne {m model : String} (h : m ≠ model) (g : Governor) (snap : GovernorSnapshot) (nowUnix : ℕ)
    (now : ℤ) : (g.restore model snap nowUnix now).models m = g.models m := by
  unfold Governor.restore
  split
  · rfl
  · exact Governor.models_put_of_ne h g _

/-- Restoring rows of different models goes model by model. -/
theorem models_foldl_restore (rows : List (String × GovernorSnapshot)) (hnodup : (rows.map Prod.fst).Nodup)
    (g : Governor) (nowUnix : ℕ) (now : ℤ) (m : String) :
    (rows.foldl (fun g row => g.restore row.1 row.2 nowUnix now) g).models m =
      (rows.lookup m).elim (g.models m) fun snap => (g.restore m snap nowUnix now).models m := by
  induction rows generalizing g with
  | nil => rfl
  | cons row rows ih =>
      rw [List.map_cons, List.nodup_cons] at hnodup
      obtain ⟨hfresh, hnodup⟩ := hnodup
      rw [List.foldl_cons, ih hnodup]
      by_cases hm : m = row.1
      · subst hm
        have hnone : rows.lookup row.1 = none := by
          rw [List.lookup_eq_none_iff]
          intro row' hrow'
          have hne : row.1 ≠ row'.1 := fun heq => hfresh (heq ▸ List.mem_map_of_mem hrow')
          simpa using hne
        rw [hnone, List.lookup_cons, beq_self_eq_true]
        rfl
      · rw [List.lookup_cons, beq_false_of_ne hm]
        cases rows.lookup m with
        | none => exact models_restore_of_ne hm g row.2 nowUnix now
        | some snap => exact models_restore_congr (models_restore_of_ne hm g row.2 nowUnix now) m snap nowUnix now

/-- **The boot of a governor** from rows of different models is that of their table. -/
theorem boot_eq_ofTable {rows : List (String × GovernorSnapshot)} (h : (rows.map Prod.fst).Nodup) (nowUnix : ℕ)
    (now : ℤ) : Ledger.boot rows nowUnix now = ⟨.ofTable (fun m => rows.lookup m) nowUnix now, []⟩ := by
  have hmodels : (rows.foldl (fun g row => g.restore row.1 row.2 nowUnix now) Governor.empty).models =
      (Governor.ofTable (fun m => rows.lookup m) nowUnix now).models := by
    funext m
    show _ = (rows.lookup m).bind fun snap => (Governor.empty.restore m snap nowUnix now).models m
    rw [models_foldl_restore rows h]
    cases rows.lookup m <;> rfl
  exact congrArg (fun models => Ledger.mk ⟨models⟩ []) hmodels

/-! ## The clocks

A moment has the reading of both clocks.  Within a process their difference is fixed, and the next process has another
one. -/

namespace Moment

/-- The same process at another reading of its monotone clock. -/
def later (m : Moment) (t : ℤ) : Moment := ⟨m.wall + age t m.now, t⟩

/-- What the wall clock shows, has shown or will show at an instant of the process. -/
def wallOf (m : Moment) (t : ℤ) : ℤ := m.wall + (t - m.now)

/-- The instant at which the wall clock of the process of `m₁` would show what it shows at `t` in that of `m₂`. -/
def instant (m₁ m₂ : Moment) (t : ℤ) : ℤ := m₂.wallOf t - m₁.wall + m₁.now

variable {m : Moment} {t : ℤ}

theorem wallOf_later (h : m.now ≤ t) : (m.later t).wallOf = m.wallOf := by
  funext x
  simp only [wallOf, later, age]
  omega

/-- The wall clock does not go back in a process. -/
theorem wall_le_later : m.wall ≤ (m.later t).wall := Nat.le_add_right _ _

/-- It shows the difference and the time. -/
theorem wall_later (h : m.now ≤ t) : ((m.later t).wall : ℤ) = m.wallOf t := by
  simp only [wallOf, later, age]
  omega

end Moment

/-! ## One process after another

A restart takes the table along, and nothing else. -/

/-- A process with the governor of one provider, the table it writes to, and the last reading of its clocks. -/
structure GovernorLife where
  ledger : Ledger
  table : GovernorTable
  clock : Moment

/-- What happens: a call or the drop of a permit, the tick of the persist loop, and the next process. -/
inductive GovernorEvent where
  | call (e : LedgerEvent)
  | persist (t : ℤ)
  | restart (m : Moment)

namespace GovernorLife

/-- A fresh install. -/
def fresh (m : Moment) : GovernorLife := ⟨⟨.empty, []⟩, fun _ => none, m⟩

/-- `persist_once`, with its rows written. -/
def persist (s : GovernorLife) (t : ℤ) : GovernorLife :=
  { s with table := s.table.applyOps s.ledger.gov (s.clock.later t).unix t, clock := s.clock.later t }

/-- The process ends, however it does, and the next one boots. -/
def restart (s : GovernorLife) (m : Moment) : GovernorLife :=
  { s with ledger := ⟨.ofTable s.table m.unix m.now, []⟩, clock := m }

/-- One event.  Neither clock goes back. -/
def step (s : GovernorLife) : GovernorEvent → Option GovernorLife
  | .call e =>
      let t := e.time.getD s.clock.now
      if s.clock.now ≤ t then (s.ledger.step e).map fun ledger => { s with ledger, clock := s.clock.later t } else none
  | .persist t => if s.clock.now ≤ t then some (s.persist t) else none
  | .restart m => if s.clock.wall ≤ m.wall then some (s.restart m) else none

/-- What a model goes by. -/
def entry (s : GovernorLife) (m : String) : ModelState := s.ledger.entry m

/-- One event, after which the cap of `m` is below the largest `usize`. -/
def stepBelow (m : String) (s : GovernorLife) (e : GovernorEvent) : Option GovernorLife :=
  (s.step e).filter fun s' => decide ((s'.entry m).limit + 1 < 2 ^ 64)

end GovernorLife

/-- Every run from a fresh install on, at a time past the first second of the epoch, in which the cap of `m` stays below
the largest `usize`. -/
def governorLives (m : String) : System GovernorLife GovernorEvent :=
  .ofStep (fun s => ∃ c : Moment, secs 1 ≤ c.wall ∧ s = .fresh c) (GovernorLife.stepBelow m)

/-! ## What a call does

Three kinds of calls: an admission runs the lifecycle, an exhaustion sets the cap and both stamps, and the rest
touches neither. -/

namespace Ledger

variable {l l' : Ledger} {e : LedgerEvent} {m : String} {t : ℤ}

/-- An admission, for cap and stamps. -/
theorem pace_admitAt (g : Governor) (m : String) (o : Option ℕ) (t : ℤ) :
    ((g.admitAt m o t).2.entry m).pace = (Governor.adapt (g.entry m) o t).pace := by
  unfold Governor.admitAt
  dsimp only
  split
  · rw [Governor.entry_put_self]
  · split
    · rw [Governor.entry_put_self]
    · rw [Governor.entry_put_self]
      rfl

/-- A pinned model is admitted without its lifecycle. -/
theorem step_admitAt_pinned {o : ℕ} (h : l.step (.admitAt m (some o) t) = some l') :
    (l'.entry m).pace = (l.entry m).pace := by
  have hpace := pace_admitAt l.gov m (some o) t
  rw [show Governor.adapt (l.gov.entry m) (some o) t = l.gov.entry m from if_neg (by simp)] at hpace
  simp only [step] at h
  split at h
  all_goals
    rename_i gov hadmitted
    cases h
    rw [hadmitted] at hpace
    exact hpace

/-- **Every event of a model, pinned or not, said once.**  The cap and the stamps stay; or the lifecycle moves them, at
an admission; or the model is exhausted. -/
theorem pace_cases (hcounted : l.Counted) (hstep : l.step e = some l') :
    (l'.entry m).pace = (l.entry m).pace ∨
    (∃ t, e.time = some t ∧ (l'.entry m).pace = (Governor.adapt (l.entry m) none t).pace) ∨
    (∃ t, e.time = some t ∧ (l'.entry m).lastExhausted = some t ∧
      (0 < (l'.entry m).limit ∧ (l'.entry m).lastAdjusted = some t ∨
        (l'.entry m).limit = (l.entry m).limit ∧ (l'.entry m).lastAdjusted = (l.entry m).lastAdjusted)) := by
  by_cases hfree : e.model = m → e.overrideLimit = none
  · rcases unpinned_cases hcounted hstep hfree with ⟨-, hpace, -⟩ | ⟨t, rfl, hpace, -⟩ | ⟨t, rfl, -, hpace⟩
    · exact .inl hpace
    · exact .inr (.inl ⟨t, rfl, hpace⟩)
    · have hlimit : (l'.entry m).limit = max (l.live.count m / 2) 1 := congrArg ModelState.limit hpace
      refine .inr (.inr ⟨t, rfl, congrArg ModelState.lastExhausted hpace, .inl ⟨?_, ?_⟩⟩)
      · omega
      · exact congrArg ModelState.lastAdjusted hpace
  · push Not at hfree
    obtain ⟨rfl, hpinned⟩ := hfree
    cases e with
    | admitAt model o t =>
        obtain ⟨o, rfl⟩ := Option.ne_none_iff_exists'.mp hpinned
        exact .inl (step_admitAt_pinned hstep)
    | drop model => exact absurd rfl hpinned
    | noteExhausted model o t =>
        obtain ⟨o, rfl⟩ := Option.ne_none_iff_exists'.mp hpinned
        cases hstep
        refine .inr (.inr ⟨t, rfl, ?_, .inr ⟨?_, ?_⟩⟩)
        all_goals simp [entry, Governor.noteExhaustedAt, LedgerEvent.model]

end Ledger

/-! ## What the whole seconds leave of a time

A time is written as a whole second of the wall clock, and read back against another pair of clocks.  Each of the two
is off by a second at most. -/

namespace Moment

/-- A time that this process knows: it is not to come, and past the first second of the epoch. -/
structure Past (m : Moment) (t : ℤ) : Prop where
  past : t ≤ m.now
  epoch : (secs 1 : ℤ) ≤ m.wallOf t

variable {m : Moment} {t u : ℤ} {x : ℕ}

theorem Past.later (h : m.Past t) (hle : m.now ≤ u) : (m.later u).Past t where
  past := le_trans h.past hle
  epoch := by
    rw [wallOf_later hle]
    exact h.epoch

/-- So it is of the present moment. -/
theorem past_now (hepoch : secs 1 ≤ m.wall) : m.Past m.now where
  past := le_refl _
  epoch := by
    unfold wallOf
    omega

/-- **A time as it is written**: a whole second, less than one before it and at most one behind it. -/
theorem Past.agoUnix (h : m.Past t) :
    1 ≤ agoUnix m.unix m.now (some t) ∧ secs (agoUnix m.unix m.now (some t)) ≤ m.wall ∧
      (secs (agoUnix m.unix m.now (some t)) : ℤ) ≤ m.wallOf t + secs 1 ∧
      m.wallOf t < secs (agoUnix m.unix m.now (some t)) + secs 1 := by
  obtain ⟨hpast, hepoch⟩ := h
  simp only [Flock.agoUnix, Option.elim_some, wallOf, unix, unixNow, age, secs] at *
  omega

/-- **A time as it is read**: within the second that was written. -/
theorem restoredAt_some (hx : 1 ≤ x) (hwall : secs x ≤ m.wall) :
    ∃ r, Governor.restoredAt x m.unix m.now = some r ∧ r ≤ m.now ∧
      (secs x : ℤ) ≤ m.wallOf r ∧ m.wallOf r < secs x + secs 1 := by
  refine ⟨_, if_neg (by omega), ?_⟩
  simp only [wallOf, unix, unixNow, secs] at *
  omega

/-- Whatever was written, what is read is past. -/
theorem past_restoredAt {r : ℤ} (hepoch : secs 1 ≤ m.wall) (h : Governor.restoredAt x m.unix m.now = some r) :
    m.Past r := by
  simp only [Governor.restoredAt, Option.ite_none_left_eq_some, Option.some.injEq] at h
  obtain ⟨hx, rfl⟩ := h
  constructor <;> simp only [wallOf, unix, unixNow, secs] at * <;> omega

end Moment

/-! ## The table, and the process that writes to it

The invariant ties the row of a model to its entry.  The row may be older than the entry, since the loop writes now
and then, and it may be all that is left of a cap. -/

namespace GovernorLife

variable {s s' : GovernorLife} {l' : Ledger} {e : GovernorEvent} {m : String} {c : Moment} {t : ℤ}

/-- **`Kept m s`** — the stamps of the model are past, and a cap has one of an exhaustion.  Its row, if there is one, is
of an exhaustion that is no later than the one the process knows; and half an hour old, if the process has no cap. -/
structure Kept (m : String) (s : GovernorLife) : Prop where
  counted : s.ledger.Counted
  word : (s.entry m).limit + 1 < 2 ^ 64
  epoch : secs 1 ≤ s.clock.wall
  exhausted : ∀ x, (s.entry m).lastExhausted = some x → s.clock.Past x
  adjusted : ∀ x, (s.entry m).lastAdjusted = some x → s.clock.Past x
  known : 0 < (s.entry m).limit → ∃ x, (s.entry m).lastExhausted = some x
  row : ∀ snap, s.table m = some snap →
    0 < snap.workerLimit ∧ 1 ≤ snap.lastExhaustedUnix ∧ secs snap.lastExhaustedUnix ≤ s.clock.wall
  behind : ∀ snap x, s.table m = some snap → (s.entry m).lastExhausted = some x →
    (secs snap.lastExhaustedUnix : ℤ) ≤ s.clock.wallOf x + secs 1
  dissolved : ∀ snap, s.table m = some snap → (s.entry m).limit = 0 →
    secs snap.lastExhaustedUnix + dissolveAfter ≤ s.clock.wall + secs 1

/-- A fresh process knows of nothing. -/
theorem kept_fresh (hepoch : secs 1 ≤ c.wall) : Kept m (fresh c) where
  counted _ := rfl
  word := show 0 + 1 < 2 ^ 64 by decide
  epoch := hepoch
  exhausted _ h := by cases h
  adjusted _ h := by cases h
  known h := absurd h (Nat.lt_irrefl 0)
  row _ h := by cases h
  behind _ _ h := by cases h
  dissolved _ h := by cases h

/-- A call keeps it, if its stamps are of its own time and it dissolves a cap only after half an hour. -/
theorem Kept.of_call (h : Kept m s) (ht : s.clock.now ≤ t) (hcounted : l'.Counted)
    (hword : (l'.entry m).limit + 1 < 2 ^ 64)
    (hexhausted : ∀ x, (l'.entry m).lastExhausted = some x → (s.entry m).lastExhausted = some x ∨ x = t)
    (hadjusted : ∀ x, (l'.entry m).lastAdjusted = some x → (s.entry m).lastAdjusted = some x ∨ x = t)
    (hknown : 0 < (l'.entry m).limit → ∃ x, (l'.entry m).lastExhausted = some x)
    (hdissolved : (l'.entry m).limit = 0 → (s.entry m).limit = 0 ∨
      ∃ x, (s.entry m).lastExhausted = some x ∧ dissolveAfter ≤ age t x) :
    Kept m ⟨l', s.table, s.clock.later t⟩ := by
  have hwall : s.clock.wall ≤ (s.clock.later t).wall := Moment.wall_le_later
  have hepoch : secs 1 ≤ (s.clock.later t).wall := h.epoch.trans hwall
  have hnow : (s.clock.later t).Past t := Moment.past_now hepoch
  -- the stamps are old ones, or of this call; the table is not written to
  refine ⟨hcounted, hword, hepoch, ?_, ?_, hknown, ?_, ?_, ?_⟩
  · intro x hx
    rcases hexhausted x hx with hold | rfl
    · exact (h.exhausted x hold).later ht
    · exact hnow
  · intro x hx
    rcases hadjusted x hx with hold | rfl
    · exact (h.adjusted x hold).later ht
    · exact hnow
  · intro snap hsnap
    obtain ⟨hlimit, hone, hrow⟩ := h.row snap hsnap
    exact ⟨hlimit, hone, hrow.trans hwall⟩
  · intro snap x hsnap hx
    rw [Moment.wallOf_later ht]
    rcases hexhausted x hx with hold | rfl
    · exact h.behind snap x hsnap hold
    · -- no row is of a time after now
      have hrow := (h.row snap hsnap).2.2
      have hshown := Moment.wall_later ht
      omega
  · intro snap hsnap hzero
    rcases hdissolved hzero with hold | ⟨x, hx, hage⟩
    · have hrow := h.dissolved snap hsnap hold
      show _ ≤ (s.clock.later t).wall + secs 1
      omega
    · -- the row is no younger than the exhaustion that is half an hour old
      have hrow := h.behind snap x hsnap hx
      have hshown := Moment.wall_later ht
      have hpos : 0 < dissolveAfter := by decide
      show _ ≤ (s.clock.later t).wall + secs 1
      simp only [Moment.wallOf, age] at hrow hshown hage
      omega

/-- A call that is about other models, a drop, or an admission that finds the cap as it should be. -/
theorem Kept.of_pace (h : Kept m s) (ht : s.clock.now ≤ t) (hcounted : l'.Counted)
    (hpace : (l'.entry m).pace = (s.entry m).pace) : Kept m ⟨l', s.table, s.clock.later t⟩ := by
  have hlimit := ModelState.limit_eq hpace
  have hexhausted := ModelState.lastExhausted_eq hpace
  refine h.of_call ht hcounted (hlimit ▸ h.word) (fun x hx => .inl ?_) (fun x hx => .inl ?_) (fun hpos => ?_)
    fun hzero => .inl ?_
  · exact hexhausted.symm.trans hx
  · exact (ModelState.lastAdjusted_eq hpace).symm.trans hx
  · obtain ⟨x, hx⟩ := h.known (hlimit ▸ hpos)
    exact ⟨x, hexhausted.trans hx⟩
  · exact hlimit.symm.trans hzero

theorem Kept.call {e : LedgerEvent} (h : Kept m s) (ht : s.clock.now ≤ e.time.getD s.clock.now)
    (hstep : s.ledger.step e = some l') (hword : (l'.entry m).limit + 1 < 2 ^ 64) :
    Kept m ⟨l', s.table, s.clock.later (e.time.getD s.clock.now)⟩ := by
  have hcounted := Ledger.step_counted h.counted hstep
  -- another model's call or a drop, an admission, an exhaustion
  rcases Ledger.pace_cases (m := m) h.counted hstep with hpace | ⟨t, htime, hpace⟩ |
    ⟨t, htime, hexhausted, hset⟩
  · exact h.of_pace ht hcounted hpace
  · rw [htime] at ht ⊢
    have hlimit := ModelState.limit_eq hpace
    have hexhausted := ModelState.lastExhausted_eq hpace
    have hadjusted := ModelState.lastAdjusted_eq hpace
    rcases Governor.adapt_cases (s.ledger.entry m) t with hsame | ⟨hpos, hold, hdissolved⟩ | ⟨hpos, -, -, hgrown⟩
    · exact h.of_pace ht hcounted (hpace.trans (congrArg ModelState.pace hsame))
    · rw [hdissolved] at hlimit hexhausted hadjusted
      refine h.of_call ht hcounted hword (fun x hx => .inl ?_) (fun x hx => .inr ?_) (fun hpos => ?_) fun _ => .inr hold
      · exact hexhausted.symm.trans hx
      · exact (Option.some.inj (hadjusted.symm.trans hx)).symm
      · exact absurd hlimit (Nat.ne_of_gt hpos)
    · rw [hgrown] at hlimit hexhausted hadjusted
      refine h.of_call ht hcounted hword (fun x hx => .inl ?_) (fun x hx => .inr ?_) (fun _ => ?_) fun hzero => ?_
      · exact hexhausted.symm.trans hx
      · exact (Option.some.inj (hadjusted.symm.trans hx)).symm
      · obtain ⟨x, hx⟩ := h.known hpos
        exact ⟨x, hexhausted.trans hx⟩
      · -- the cap has room to grow
        have hroom : (s.ledger.entry m).limit + 1 < 2 ^ 64 := h.word
        have hlimit : (l'.entry m).limit = ((s.ledger.entry m).limit + 1) % 2 ^ 64 := hlimit
        omega
  · rw [htime] at ht ⊢
    refine h.of_call ht hcounted hword (fun x hx => .inr ?_) (fun x hx => ?_) (fun _ => ⟨t, hexhausted⟩) fun hzero => ?_
    · exact (Option.some.inj (hexhausted.symm.trans hx)).symm
    · rcases hset with ⟨-, hadjusted⟩ | ⟨-, hadjusted⟩
      · exact .inr (Option.some.inj (hadjusted.symm.trans hx)).symm
      · exact .inl (hadjusted.symm.trans hx)
    · rcases hset with ⟨hpos, -⟩ | ⟨hsame, -⟩
      · omega
      · exact .inl (hsame.symm.trans hzero)

/-- The row after a tick: that of the model if it has a cap, the old one if not. -/
theorem table_persist (s : GovernorLife) (m : String) (t : ℤ) :
    (0 < (s.entry m).limit → (s.persist t).table m = (s.entry m).snapshot (s.clock.later t).unix t) ∧
    ((s.entry m).limit = 0 → (s.persist t).table m = s.table m) := by
  simp only [persist, GovernorTable.applyOps, entry, Ledger.entry, Governor.entry]
  cases s.ledger.gov.models m with
  | none => exact ⟨fun h => absurd h (Nat.lt_irrefl 0), fun _ => rfl⟩
  | some state =>
      constructor
      · intro hpos
        simp only [Option.bind_some, Option.getD_some] at hpos ⊢
        rw [ModelState.snapshot, if_neg (Nat.ne_of_gt hpos), Option.some_or]
      · intro hzero
        simp only [Option.bind_some, Option.getD_some] at hzero ⊢
        rw [ModelState.snapshot, if_pos hzero, Option.none_or]

theorem Kept.persist (h : Kept m s) (ht : s.clock.now ≤ t) : Kept m (s.persist t) := by
  -- the tick is a call that does nothing, but for the row
  have hcall : Kept m ⟨s.ledger, s.table, s.clock.later t⟩ := h.of_pace ht h.counted rfl
  obtain ⟨hcap, hnone⟩ := table_persist s m t
  -- `snapshots` skips a model without a cap, so its old row stays
  rcases Nat.eq_zero_or_pos (s.entry m).limit with hzero | hpos
  · have hsame := hnone hzero
    exact ⟨hcall.counted, hcall.word, hcall.epoch, hcall.exhausted, hcall.adjusted, hcall.known,
      fun snap hsnap => hcall.row snap (hsame.symm.trans hsnap),
      fun snap x hsnap => hcall.behind snap x (hsame.symm.trans hsnap),
      fun snap hsnap => hcall.dissolved snap (hsame.symm.trans hsnap)⟩
  · obtain ⟨x, hx⟩ := h.known hpos
    obtain ⟨hone, hwall, hbehind, -⟩ := (hcall.exhausted x hx).agoUnix
    have hrow := hcap hpos
    rw [ModelState.snapshot, if_neg (Nat.ne_of_gt hpos), hx] at hrow
    refine ⟨hcall.counted, hcall.word, hcall.epoch, hcall.exhausted, hcall.adjusted, hcall.known, ?_, ?_, ?_⟩
    · intro snap hsnap
      obtain rfl := Option.some.inj (hrow.symm.trans hsnap)
      exact ⟨hpos, hone, hwall⟩
    · intro snap y hsnap hy
      obtain rfl := Option.some.inj (hrow.symm.trans hsnap)
      obtain rfl := Option.some.inj (hx.symm.trans hy)
      exact hbehind
    · intro snap hsnap hzero
      exact absurd hzero (Nat.ne_of_gt hpos)

/-- What a model goes by in the next process. -/
theorem entry_restart (s : GovernorLife) (c : Moment) (m : String) :
    (s.restart c).entry m =
      (s.table m).elim {} fun snap => (Governor.empty.restore m snap c.unix c.now).entry m := by
  simp only [restart, entry, Ledger.entry, Governor.entry, Governor.ofTable]
  cases s.table m <;> rfl

/-- What a restored model begins with. -/
theorem entry_restore {snap : GovernorSnapshot} (h : 0 < snap.workerLimit) (m : String) (c : Moment) :
    (Governor.empty.restore m snap c.unix c.now).entry m =
      { limit := snap.workerLimit
        lastExhausted := Governor.restoredAt snap.lastExhaustedUnix c.unix c.now
        lastAdjusted := Governor.restoredAt snap.lastAdjustedUnix c.unix c.now
        blockedUntil := if snap.blockedUntilUnix > c.unix then
            some (c.now + secs (snap.blockedUntilUnix - c.unix))
          else none } := by
  rw [Governor.restore, if_neg (Nat.ne_of_gt h), Governor.entry_put_self]
  rfl

/-- Nobody holds a permit after a restart. -/
theorem counted_restart (s : GovernorLife) (c : Moment) : (s.restart c).ledger.Counted := by
  intro m
  show ((s.restart c).entry m).inflight = 0
  rw [entry_restart]
  cases s.table m with
  | none => rfl
  | some snap => exact Governor.restore_inflight _ m snap c.unix c.now m

theorem Kept.restart (h : Kept m s) (hwall : s.clock.wall ≤ c.wall)
    (hword : ((s.restart c).entry m).limit + 1 < 2 ^ 64) : Kept m (s.restart c) := by
  have hepoch : secs 1 ≤ c.wall := h.epoch.trans hwall
  have hcounted := counted_restart s c
  have hentry := entry_restart s c m
  cases hsnap : s.table m with
  -- no row: the model starts without a cap
  | none =>
      rw [hsnap] at hentry
      have htable : (s.restart c).table m = none := hsnap
      refine ⟨hcounted, hword, hepoch, ?_, ?_, ?_, ?_, ?_, ?_⟩
      all_goals simp [hentry, htable]
  -- the row gives the cap and three stamps, each read back as past
  | some snap =>
      obtain ⟨hlimit, hone, hrow⟩ := h.row snap hsnap
      obtain ⟨r, hr, -, hafter, -⟩ := Moment.restoredAt_some hone (hrow.trans hwall)
      rw [hsnap] at hentry
      have hentry := hentry.trans (entry_restore hlimit m c)
      have hsame (snap' : GovernorSnapshot) (h' : (s.restart c).table m = some snap') : snap' = snap :=
        Option.some.inj (h'.symm.trans hsnap)
      refine ⟨hcounted, hword, hepoch, ?_, ?_, ?_, ?_, ?_, ?_⟩
      · intro x hx
        rw [hentry] at hx
        exact Moment.past_restoredAt hepoch hx
      · intro x hx
        rw [hentry] at hx
        exact Moment.past_restoredAt hepoch hx
      · intro _
        rw [hentry]
        exact ⟨r, hr⟩
      · intro snap' h'
        rw [hsame snap' h']
        exact ⟨hlimit, hone, hrow.trans hwall⟩
      · intro snap' x h' hx
        rw [hentry] at hx
        rw [hsame snap' h', Option.some.inj (hx.symm.trans hr)]
        exact le_trans hafter (le_add_of_nonneg_right (Int.natCast_nonneg _))
      · intro snap' _ hzero
        rw [hentry] at hzero
        exact absurd hzero (Nat.ne_of_gt hlimit)

theorem kept_of_reachable (h : (governorLives m).Reachable s) : Kept m s := by
  refine System.Reachable.invariant (I := Kept m) ?_ ?_ h
  · rintro s ⟨c, hepoch, rfl⟩
    exact kept_fresh hepoch
  · intro s e s' hkept hstep
    simp only [governorLives, System.ofStep, stepBelow, Option.filter_eq_some_iff, decide_eq_true_eq] at hstep
    obtain ⟨hstep, hword⟩ := hstep
    cases e with
    | call e =>
        simp only [step, Option.ite_none_right_eq_some, Option.map_eq_some_iff] at hstep
        obtain ⟨ht, l', hl', rfl⟩ := hstep
        exact hkept.call ht hl' hword
    | persist t =>
        simp only [step, Option.ite_none_right_eq_some, Option.some.injEq] at hstep
        obtain ⟨ht, rfl⟩ := hstep
        exact hkept.persist ht
    | restart c =>
        simp only [step, Option.ite_none_right_eq_some, Option.some.injEq] at hstep
        obtain ⟨hwall, rfl⟩ := hstep
        exact hkept.restart hwall hword

end GovernorLife

/-! ## The gate

What a client sees of all this is whether it is admitted, and an admission asks three things of the stamps.  Two
processes are compared at one reading of the wall clock. -/

namespace ModelState

/-- The drain gap is on. -/
def Drains (s : ModelState) (t : ℤ) : Prop := ∃ b, s.blockedUntil = some b ∧ t < b

/-- Half an hour without an exhaustion. -/
def Clean (s : ModelState) (t : ℤ) : Prop := ∃ x, s.lastExhausted = some x ∧ dissolveAfter ≤ age t x

/-- A stable minute. -/
def Stable (s : ModelState) (t : ℤ) : Prop := ∃ a, s.lastAdjusted = some a ∧ growInterval ≤ age t a

end ModelState

/-- **`SameGate m₁ m₂ s s'`** — the process of `m₂` has the model as that of `m₁` had it: under the same cap, with no
permit held, and with each of the three tests of an admission answered as it would have been answered there a little
before or after.  A drain gap counts down to its end: it is answered as at most two seconds later or one second earlier.
The half hour and the minute count up from their beginning: they are answered as at most two seconds earlier or one
second later. -/
structure SameGate (m₁ m₂ : Moment) (s s' : ModelState) : Prop where
  limit : s'.limit = s.limit
  inflight : s'.inflight = 0
  drains : ∀ t, m₂.now ≤ t → (s.Drains (m₁.instant m₂ t + secs 2) → s'.Drains t) ∧
    (s'.Drains t → s.Drains (m₁.instant m₂ t - secs 1))
  clean : ∀ t, m₂.now ≤ t → (s.Clean (m₁.instant m₂ t - secs 2) → s'.Clean t) ∧
    (s'.Clean t → s.Clean (m₁.instant m₂ t + secs 1))
  stable : ∀ t, m₂.now ≤ t → (s.Stable (m₁.instant m₂ t - secs 2) → s'.Stable t) ∧
    (s'.Stable t → s.Stable (m₁.instant m₂ t + secs 1))

namespace Moment

variable {m₁ m₂ : Moment}

/-- A time from the row of one process to the next: off by less than one second, or by less than two. -/
theorem Past.restored {x : ℤ} (h : m₁.Past x) (hwall : m₁.wall ≤ m₂.wall) :
    ∃ r, Governor.restoredAt (Flock.agoUnix m₁.unix m₁.now (some x)) m₂.unix m₂.now = some r ∧
      m₁.wallOf x - secs 1 ≤ m₂.wallOf r ∧ m₂.wallOf r < m₁.wallOf x + secs 2 := by
  obtain ⟨hone, hwritten, hlow, hhigh⟩ := h.agoUnix
  obtain ⟨r, hr, -, hbelow, habove⟩ := restoredAt_some hone (hwritten.trans hwall)
  refine ⟨r, hr, ?_⟩
  simp only [secs] at *
  omega

/-- So an age is off by as much. -/
theorem age_restored {x r t : ℤ} {d : ℕ} (hlow : m₁.wallOf x - secs 1 ≤ m₂.wallOf r)
    (hhigh : m₂.wallOf r < m₁.wallOf x + secs 2) (hd : 0 < d) :
    (d ≤ age (m₁.instant m₂ t - secs 2) x → d ≤ age t r) ∧ (d ≤ age t r → d ≤ age (m₁.instant m₂ t + secs 1) x) := by
  simp only [wallOf, instant, age, secs] at *
  omega

end Moment

/-- **A model with a cap is the same in the next process.** -/
theorem sameGate_restore {m₁ m₂ : Moment} {s : ModelState} {m : String} (hcap : 0 < s.limit)
    (hwall : m₁.wall ≤ m₂.wall) (hexhausted : ∀ x, s.lastExhausted = some x → m₁.Past x)
    (hadjusted : ∀ x, s.lastAdjusted = some x → m₁.Past x) {snap : GovernorSnapshot}
    (hsnap : s.snapshot m₁.unix m₁.now = some snap) :
    SameGate m₁ m₂ s ((Governor.empty.restore m snap m₂.unix m₂.now).entry m) := by
  rw [ModelState.snapshot, if_neg (Nat.ne_of_gt hcap), Option.some.injEq] at hsnap
  subst hsnap
  rw [GovernorLife.entry_restore hcap]
  refine ⟨rfl, rfl, fun t ht => ?_, fun t ht => ?_, fun t ht => ?_⟩
  · unfold ModelState.Drains
    cases hb : s.blockedUntil with
    | none => simp
    | some b =>
        simp only [Option.some.injEq, exists_eq_left', Option.ite_none_right_eq_some]
        constructor
        · intro hon
          have hnow : b > m₁.now := by
            simp only [Moment.instant, Moment.wallOf, secs] at hon
            omega
          refine ⟨_, ⟨?_, rfl⟩, ?_⟩
          all_goals
            simp only [if_pos hnow, Moment.instant, Moment.wallOf, Moment.unix, unixNow, age, secs] at *
            omega
        · rintro ⟨b', ⟨hon, rfl⟩, ht'⟩
          -- a gap that was over is written as 0, which is never in the future
          by_cases hnow : b > m₁.now
          · simp only [if_pos hnow, Moment.instant, Moment.wallOf, Moment.unix, unixNow, age, secs] at *
            omega
          · simp only [if_neg hnow] at hon
            omega
  · unfold ModelState.Clean
    cases hx : s.lastExhausted with
    | none => simp [agoUnix, Governor.restoredAt]
    | some x =>
        obtain ⟨r, hr, hlow, hhigh⟩ := (hexhausted x hx).restored hwall
        simp only [hr, Option.some.injEq, exists_eq_left']
        exact Moment.age_restored hlow hhigh (by decide)
  · unfold ModelState.Stable
    cases hx : s.lastAdjusted with
    | none => simp [agoUnix, Governor.restoredAt]
    | some x =>
        obtain ⟨r, hr, hlow, hhigh⟩ := (hadjusted x hx).restored hwall
        simp only [hr, Option.some.injEq, exists_eq_left']
        exact Moment.age_restored hlow hhigh (by decide)

/-- An exhaustion. -/
def exhaustedOnce : List GovernorEvent := [.call (.noteExhausted "m" none 0)]

/-- It is written, and the cap is dissolved by an admission half an hour later. -/
def dissolvedLater : List GovernorEvent :=
  exhaustedOnce ++ [.persist (secs 5), .call (.admitAt "m" none (secs 1805))]

end Flock
