/-
# Flock.Governor — the model-pressure governor: one concurrency gate per model.

The model of `governor.rs`.  A map entry is made by the first call that names the model and is never removed.
A `ModelPermit` is a value that releases its slot when it is dropped, at any later time; `Ledger` is the
governor with the permits that are held, whatever order the calls and the drops come in.

The cap grows by one with `usize` arithmetic, which wraps in a release build; a restored cap can be any
`usize`.
-/
import Mathlib.Data.List.Count
import Mathlib.Logic.Function.Basic
import Flock.Lib.SlidingWindow
import Flock.Lib.Transition
import Flock.Pool.Basic

namespace Flock

open Lib (age System)

/-- `EXHAUST_BACKOFF`. -/
def exhaustBackoff : ℕ := secs 2

/-- `GROW_INTERVAL`. -/
def growInterval : ℕ := secs 60

/-- `DISSOLVE_AFTER`. -/
def dissolveAfter : ℕ := secs 1800

/-- `ModelState`; a `limit` of 0 is no cap. -/
structure ModelState where
  limit : ℕ := 0
  inflight : ℕ := 0
  blockedUntil : Option ℤ := none
  lastExhausted : Option ℤ := none
  lastAdjusted : Option ℤ := none
  deriving DecidableEq, Repr

/-- `GovernorSnapshot`; 0 is no time. -/
structure GovernorSnapshot where
  workerLimit : ℕ
  lastExhaustedUnix : ℕ
  lastAdjustedUnix : ℕ
  blockedUntilUnix : ℕ
  deriving DecidableEq, Repr

/-- `Governor`. -/
structure Governor where
  models : String → Option ModelState

namespace Governor

/-- `Governor::default`. -/
def empty : Governor := ⟨fun _ => none⟩

/-- `entry(model).or_default()`. -/
def entry (g : Governor) (model : String) : ModelState := (g.models model).getD {}

def put (g : Governor) (model : String) (s : ModelState) : Governor :=
  ⟨Function.update g.models model (some s)⟩

/-- The adaptive lifecycle: dissolve after a long clean period, else grow by one per stable minute. A pinned
model is left alone. -/
def adapt (s : ModelState) (overrideLimit : Option ℕ) (now : ℤ) : ModelState :=
  if overrideLimit.isNone ∧ s.limit > 0 then
    if s.lastExhausted.any fun t => decide (dissolveAfter ≤ age now t) then
      { s with limit := 0, lastAdjusted := some now }
    else if s.lastAdjusted.any fun t => decide (growInterval ≤ age now t) then
      { s with limit := (s.limit + 1) % 2 ^ 64, lastAdjusted := some now }
    else s
  else s

/-- `admit_at`: the answer, and the governor it leaves. -/
def admitAt (g : Governor) (model : String) (overrideLimit : Option ℕ) (now : ℤ) : Bool × Governor :=
  let s := adapt (g.entry model) overrideLimit now
  if s.blockedUntil.any fun b => decide (b > now) then (false, g.put model s)
  else if overrideLimit.getD s.limit > 0 ∧ s.inflight ≥ overrideLimit.getD s.limit then
    (false, g.put model s)
  else (true, g.put model { s with inflight := s.inflight + 1 })

/-- `release`, at the drop of a permit. -/
def release (g : Governor) (model : String) : Governor :=
  match g.models model with
  | some s => g.put model { s with inflight := s.inflight - 1 }
  | none => g

/-- `note_exhausted_at`. -/
def noteExhaustedAt (g : Governor) (model : String) (overrideLimit : Option ℕ) (now : ℤ) : Governor :=
  let s := g.entry model
  let s := { s with blockedUntil := some (now + exhaustBackoff), lastExhausted := some now }
  if overrideLimit.isNone then
    g.put model { s with limit := max (s.inflight / 2) 1, lastAdjusted := some now }
  else g.put model s

/-- The instant of a persisted time. -/
def restoredAt (unix nowUnix : ℕ) (now : ℤ) : Option ℤ :=
  if unix = 0 then none else some (now - secs (nowUnix - unix))

/-- `restore`: a drain gap that has ended is not resurrected, the pacing is. -/
def restore (g : Governor) (model : String) (snap : GovernorSnapshot) (nowUnix : ℕ) (now : ℤ) :
    Governor :=
  if snap.workerLimit = 0 then g
  else
    g.put model { g.entry model with
      limit := snap.workerLimit
      lastExhausted := restoredAt snap.lastExhaustedUnix nowUnix now
      lastAdjusted := restoredAt snap.lastAdjustedUnix nowUnix now
      blockedUntil := if snap.blockedUntilUnix > nowUnix then
          some (now + secs (snap.blockedUntilUnix - nowUnix))
        else none }

variable {g : Governor} {model m : String} {s : ModelState} {overrideLimit : Option ℕ} {now : ℤ}

@[simp] theorem entry_put_self (g : Governor) (model : String) (s : ModelState) :
    (g.put model s).entry model = s := by
  simp [put, entry]

theorem models_put_of_ne (h : m ≠ model) (g : Governor) (s : ModelState) :
    (g.put model s).models m = g.models m := by
  simp [put, h]

theorem entry_put_of_ne (h : m ≠ model) (g : Governor) (s : ModelState) :
    (g.put model s).entry m = g.entry m := by
  unfold entry
  rw [models_put_of_ne h]

@[simp] theorem inflight_adapt (s : ModelState) (overrideLimit : Option ℕ) (now : ℤ) :
    (adapt s overrideLimit now).inflight = s.inflight := by
  unfold adapt
  split
  · split
    · rfl
    · split <;> rfl
  · rfl

/-- **What an admission does**: it writes the entry of its model, and counts the permit it gives. -/
theorem admitAt_spec (g : Governor) (model : String) (overrideLimit : Option ℕ) (now : ℤ) :
    ∃ s, (g.admitAt model overrideLimit now).2 = g.put model s ∧
      s.inflight = (g.entry model).inflight + (g.admitAt model overrideLimit now).1.toNat ∧
      ((g.admitAt model overrideLimit now).1 = true → 0 < overrideLimit.getD s.limit →
        s.inflight ≤ overrideLimit.getD s.limit) := by
  unfold admitAt
  dsimp only
  split
  · exact ⟨_, rfl, by simp, fun h => by cases h⟩
  · split
    · exact ⟨_, rfl, by simp, fun h => by cases h⟩
    · rename_i hroom
      refine ⟨_, rfl, by simp, fun _ hpos => ?_⟩
      dsimp only at hpos ⊢
      by_contra hle
      exact hroom ⟨hpos, by omega⟩

theorem release_spec (h : g.models model = some s) :
    g.release model = g.put model { s with inflight := s.inflight - 1 } := by
  unfold release
  rw [h]

/-- An exhaustion leaves the count as it is. -/
theorem noteExhaustedAt_spec (g : Governor) (model : String) (overrideLimit : Option ℕ) (now : ℤ) :
    ∃ s, g.noteExhaustedAt model overrideLimit now = g.put model s ∧
      s.inflight = (g.entry model).inflight := by
  unfold noteExhaustedAt
  dsimp only
  split <;> exact ⟨_, rfl, rfl⟩

theorem restore_inflight (g : Governor) (model : String) (snap : GovernorSnapshot) (nowUnix : ℕ) (now : ℤ)
    (m : String) : ((g.restore model snap nowUnix now).entry m).inflight = (g.entry m).inflight := by
  unfold restore
  split
  · rfl
  · by_cases hm : m = model
    · rw [hm, entry_put_self]
    · rw [entry_put_of_ne hm]

end Governor

/-! ## The permits that are held -/

/-- A governor, and the model of every permit that is held. -/
structure Ledger where
  gov : Governor
  live : List String

/-- What happens to a governor; a permit is dropped whenever its request ends. -/
inductive LedgerEvent where
  | admitAt (model : String) (overrideLimit : Option ℕ) (now : ℤ)
  | drop (model : String)
  | noteExhausted (model : String) (overrideLimit : Option ℕ) (now : ℤ)

/-- The model an event is about. -/
def LedgerEvent.model : LedgerEvent → String
  | .admitAt model _ _ => model
  | .drop model => model
  | .noteExhausted model _ _ => model

namespace Ledger

/-- A process start: the snapshots of the last process are restored. -/
def boot (rows : List (String × GovernorSnapshot)) (nowUnix : ℕ) (now : ℤ) : Ledger where
  gov := rows.foldl (fun g row => g.restore row.1 row.2 nowUnix now) .empty
  live := []

/-- One call or one drop; only a permit that is held can be dropped. -/
def step (l : Ledger) : LedgerEvent → Option Ledger
  | .admitAt model overrideLimit now =>
      match l.gov.admitAt model overrideLimit now with
      | (true, gov) => some ⟨gov, model :: l.live⟩
      | (false, gov) => some { l with gov }
  | .drop model =>
      if model ∈ l.live then some ⟨l.gov.release model, l.live.erase model⟩ else none
  | .noteExhausted model overrideLimit now =>
      some { l with gov := l.gov.noteExhaustedAt model overrideLimit now }

/-- Every permit that is held is counted, and nothing else. -/
def Counted (l : Ledger) : Prop := ∀ m, (l.gov.entry m).inflight = l.live.count m

end Ledger

/-- Every run of a governor. -/
def ledgerSystem : System Ledger LedgerEvent :=
  .ofStep (fun l => ∃ rows nowUnix now, l = Ledger.boot rows nowUnix now) Ledger.step

namespace Ledger

variable {l l' : Ledger} {e : LedgerEvent} {model m : String} {s : ModelState}

/-- The permit that a drop releases has an entry, and is counted there. -/
theorem Counted.held (h : l.Counted) (hm : m ∈ l.live) : ∃ s, l.gov.models m = some s ∧ 1 ≤ s.inflight := by
  have hcount := h m
  have hpos : 0 < l.live.count m := List.count_pos_iff.mpr hm
  cases hs : l.gov.models m with
  | none =>
      unfold Governor.entry at hcount
      rw [hs] at hcount
      exact absurd hcount (by simpa using Nat.ne_of_lt hpos)
  | some s =>
      unfold Governor.entry at hcount
      rw [hs] at hcount
      have hs' : s.inflight = l.live.count m := hcount
      exact ⟨s, rfl, by rw [hs']; exact hpos⟩

/-- **Every event, said once**: it writes the entry of its model, and moves the count with the permits. -/
theorem step_cases (h : l.Counted) (hstep : l.step e = some l') :
    ∃ s, l'.gov = l.gov.put e.model s ∧ s.inflight = l'.live.count e.model ∧
      ∀ m, m ≠ e.model → l'.live.count m = l.live.count m := by
  cases e with
  -- an admission counts one up if it lets the call in
  | admitAt model overrideLimit now =>
      obtain ⟨s, hput, hcount, -⟩ := l.gov.admitAt_spec model overrideLimit now
      simp only [step] at hstep
      split at hstep
      · rename_i gov hadmitted
        cases hstep
        rw [hadmitted] at hput hcount
        refine ⟨s, hput, ?_, ?_⟩
        · rw [hcount, h model]
          simp [LedgerEvent.model]
        · intro m hm
          exact List.count_cons_of_ne (Ne.symm hm)
      · rename_i gov hadmitted
        cases hstep
        rw [hadmitted] at hput hcount
        exact ⟨s, hput, by rw [hcount, h model]; rfl, fun _ _ => rfl⟩
  -- a drop counts one down, which the guard has counted up
  | drop model =>
      simp only [step, Option.ite_none_right_eq_some] at hstep
      obtain ⟨hm, hstep⟩ := hstep
      cases hstep
      obtain ⟨s, hs, hpos⟩ := h.held hm
      refine ⟨_, Governor.release_spec hs, ?_, ?_⟩
      · have hcount := h model
        unfold Governor.entry at hcount
        rw [hs] at hcount
        show s.inflight - 1 = (l.live.erase model).count model
        rw [List.count_erase_self, ← hcount]
        rfl
      · intro m hne
        exact List.count_erase_of_ne hne
  -- an exhaustion leaves the count
  | noteExhausted model overrideLimit now =>
      obtain ⟨s, hput, hcount⟩ := l.gov.noteExhaustedAt_spec model overrideLimit now
      cases hstep
      exact ⟨s, hput, by rw [hcount, h model]; rfl, fun _ _ => rfl⟩

theorem step_counted (h : l.Counted) (hstep : l.step e = some l') : l'.Counted := by
  obtain ⟨s, hput, hcount, hother⟩ := step_cases h hstep
  intro m
  rw [hput]
  by_cases hm : m = e.model
  · rw [hm, Governor.entry_put_self, hcount]
  · rw [Governor.entry_put_of_ne hm, h m, hother m hm]

theorem boot_counted (rows : List (String × GovernorSnapshot)) (nowUnix : ℕ) (now : ℤ) :
    (boot rows nowUnix now).Counted := by
  have hfold : ∀ (rows : List (String × GovernorSnapshot)) (g : Governor),
      (∀ m, (g.entry m).inflight = 0) → ∀ m,
        ((rows.foldl (fun g row => g.restore row.1 row.2 nowUnix now) g).entry m).inflight = 0 := by
    intro rows
    induction rows with
    | nil => exact fun _ h => h
    | cons row rest ih =>
        intro g h
        apply ih
        intro m
        rw [Governor.restore_inflight, h m]
  intro m
  rw [show (boot rows nowUnix now).live.count m = 0 from rfl]
  exact hfold rows .empty (fun _ => rfl) m

theorem reachable_counted (h : ledgerSystem.Reachable l) : l.Counted := by
  refine System.Reachable.invariant (I := Counted) ?_ step_counted h
  rintro l ⟨rows, nowUnix, now, rfl⟩
  exact boot_counted rows nowUnix now

/-- **Governor accounting.**  In every reachable state the in-flight count of a model is the number of its
permits that are held, and the release of a held permit finds a count to lower; an admission under a cap leaves
no more permits than the cap; and an event is about its own model. -/
theorem governor_accounting (h : ledgerSystem.Reachable l) :
    (∀ m, (l.gov.entry m).inflight = l.live.count m) ∧
    (∀ m ∈ l.live, ∃ s, l.gov.models m = some s ∧ 1 ≤ s.inflight) ∧
    (∀ model overrideLimit now l', ledgerSystem.step l (.admitAt model overrideLimit now) l' →
      (l.gov.admitAt model overrideLimit now).1 = true →
      0 < overrideLimit.getD (l'.gov.entry model).limit →
      l'.live.count model ≤ overrideLimit.getD (l'.gov.entry model).limit) ∧
    (∀ e l', ledgerSystem.step l e l' → ∀ m, m ≠ e.model →
      l'.gov.models m = l.gov.models m ∧ l'.live.count m = l.live.count m) := by
  have hcounted := reachable_counted h
  refine ⟨hcounted, fun m hm => hcounted.held hm, ?_, ?_⟩
  · intro model overrideLimit now l' hstep hadmitted hpos
    obtain ⟨s, hput, -, hcap⟩ := l.gov.admitAt_spec model overrideLimit now
    have hgov : l'.gov = (l.gov.admitAt model overrideLimit now).2 := by
      simp only [ledgerSystem, System.ofStep, step] at hstep
      split at hstep <;> rename_i heq <;> cases hstep <;> rw [heq]
    rw [hgov, hput, Governor.entry_put_self] at hpos ⊢
    rw [← step_counted hcounted hstep model, hgov, hput, Governor.entry_put_self]
    exact hcap hadmitted hpos
  · intro e l' hstep m hm
    obtain ⟨s, hput, -, hother⟩ := step_cases hcounted hstep
    rw [hput]
    exact ⟨Governor.models_put_of_ne hm _ _, hother m hm⟩

/-- A run under a cap: three permits are given, the exhaustion of one halves the cap, two are dropped, and the
last admission finds room for one. -/
theorem governor_accounting_halved :
    ∃ l, ledgerSystem.Reachable l ∧ l.live = ["m"] ∧ (l.gov.entry "m").inflight = 1 ∧
      ∃ l', ledgerSystem.step l (.drop "m") l' ∧ l'.gov.models "n" = l.gov.models "n" := by
  have hexec : (System.exec step (boot [] 0 0)
      [.admitAt "m" none 0, .admitAt "m" none 0, .admitAt "m" none 0, .noteExhausted "m" none 0,
        .drop "m", .drop "m", .drop "m", .admitAt "m" none 2000000000]).any (fun l =>
          decide (l.live = ["m"]) && (l.step (.drop "m")).isSome) = true := by
    decide +kernel
  obtain ⟨l, hreach, hend⟩ := System.reachable_of_exec
    (show ledgerSystem.init (boot [] 0 0) from ⟨[], 0, 0, rfl⟩) hexec
  rw [Bool.and_eq_true, decide_eq_true_eq] at hend
  obtain ⟨hlive, hdrop⟩ := hend
  obtain ⟨l', hstep⟩ := Option.isSome_iff_exists.mp hdrop
  obtain ⟨hcount, -, -, hframe⟩ := governor_accounting (l := l) hreach
  refine ⟨l, hreach, hlive, ?_, l', hstep, (hframe (.drop "m") l' hstep "n" (by decide)).1⟩
  rw [hcount, hlive]
  rfl

end Ledger

end Flock
