/-
# Flock.Circuit.Log — a breaker against the log of everything that happened to it.

The counters of a breaker are reset in some transitions, kept in others and ignored while it is open, and a
restore rebuilds it from a snapshot that knows whole seconds only.  `Logged` runs a breaker next to the log of its
events; what the counters and the stamps mean is said by functions of the log alone (`failuresSince`,
`trialSuccesses`, `lastOpening`, `restoredSince`), and `Tracks` is the invariant that ties the two.

The wall clock shows the seconds of the monotone clock, from an offset; both advance together.

The log is the meaning and the counters are an encoding of it.  A claim about the breaker can so speak of `the fifth
failure since`, and it is the invariant that turns it into a comparison of a field.
-/
import Flock.Circuit
import Flock.Lib.Transition

namespace Flock

open Lib (age System)

/-! ## The log

The newest entry stands first, so the functions of the log go back in time until the event they look for. -/

/-- The operations on a breaker; `restore` is a restart, with the snapshot of the breaker there is. -/
inductive CircuitEvent where
  | allow
  | recordSuccess
  | recordFailure
  | forceOpen
  | restore
  deriving DecidableEq, Repr

/-- One line of the log: an event, when it was, and the state before and after it. -/
structure CircuitEntry where
  event : CircuitEvent
  time : ℤ
  before : CircuitState
  after : CircuitState
  deriving DecidableEq, Repr

namespace CircuitEntry

/-- A failure was recorded. -/
def failed (e : CircuitEntry) : Bool := e.event == .recordFailure
/-- A success was recorded. -/
def succeeded (e : CircuitEntry) : Bool := e.event == .recordSuccess
/-- The breaker was restored. -/
def restored (e : CircuitEntry) : Bool := e.event == .restore

/-- The breaker became closed. -/
def closes (e : CircuitEntry) : Bool := e.before != .closed && e.after == .closed

/-- The breaker was opened: it became open, or was forced open again. -/
def opens (e : CircuitEntry) : Bool := e.after == .open && (e.before != .open || e.event == .forceOpen)

end CircuitEntry

open CircuitEntry

/-- The failures recorded since the breaker last became closed or last recorded a success.  Logs are newest
first. -/
def failuresSince (log : List CircuitEntry) : ℕ :=
  (log.takeWhile fun e => !(e.closes || e.succeeded)).countP failed

/-- The successes recorded half-open, with no failure since. -/
def trialSuccesses (log : List CircuitEntry) : ℕ :=
  (log.takeWhile fun e => !(e.failed || e.before != .halfOpen)).countP succeeded

/-- When the breaker was last opened. -/
def lastOpening (log : List CircuitEntry) : Option ℤ := (log.find? opens).map (·.time)

/-- Whether it was restored since. -/
def restoredSince (log : List CircuitEntry) : Bool := (log.takeWhile fun e => !e.opens).any restored

/-! ## Runs

The clock goes on between two events by whatever it pleases; it does not go back. -/

/-- The wall clock at a monotone instant. -/
def wallClock (offset t : ℤ) : ℕ := ((t + offset) / 1000000000).toNat

/-- A breaker, the last clock reading, and the log. -/
structure Logged where
  cb : CircuitBreaker
  now : ℤ
  log : List CircuitEntry

namespace Logged

/-- What an event does to the breaker at `t`. -/
def act (offset t : ℤ) (cb : CircuitBreaker) : CircuitEvent → CircuitBreaker
  | .allow => (cb.allow t).2
  | .recordSuccess => cb.recordSuccess
  | .recordFailure => cb.recordFailure t (wallClock offset t)
  | .forceOpen => cb.forceOpen t (wallClock offset t)
  | .restore => .restore cb.snapshot (wallClock offset t) t

/-- One event, at a clock reading that is not before the last one. -/
def step (offset : ℤ) (s : Logged) (e : CircuitEvent × ℤ) : Option Logged :=
  if s.now ≤ e.2 ∧ 0 < wallClock offset e.2 then
    some ⟨act offset e.2 s.cb e.1, e.2, ⟨e.1, e.2, s.cb.state, (act offset e.2 s.cb e.1).state⟩ :: s.log⟩
  else none

end Logged

/-- Every run of a breaker of the default limits. -/
def circuitSystem (offset : ℤ) : System Logged (CircuitEvent × ℤ) :=
  .ofStep (fun s => s.cb = .astmatrixDefaults ∧ s.log = []) (Logged.step offset)

namespace Logged

variable {offset t t₀ tf : ℤ} {s s' : Logged} {cb : CircuitBreaker} {e : CircuitEvent}
  {entry : CircuitEntry} {log : List CircuitEntry}

/-! ## One more line

Each function of the log by its newest entry.  These four are what the step lemmas rewrite with. -/

/-- A closing and a success start the count anew; anything else adds what failed. -/
theorem failuresSince_cons :
    failuresSince (entry :: log) =
      if entry.closes || entry.succeeded then 0 else failuresSince log + entry.failed.toNat := by
  unfold failuresSince
  rw [List.takeWhile_cons]
  cases hstop : entry.closes || entry.succeeded with
  | true => rfl
  | false =>
      cases hf : entry.failed with
      | true => simp [hf]
      | false => simp [hf]

/-- A failure, and any event that did not find the breaker half-open, starts the count anew. -/
theorem trialSuccesses_cons :
    trialSuccesses (entry :: log) =
      if entry.failed || entry.before != .halfOpen then 0 else trialSuccesses log + entry.succeeded.toNat := by
  unfold trialSuccesses
  rw [List.takeWhile_cons]
  cases hstop : entry.failed || entry.before != .halfOpen with
  | true => rfl
  | false =>
      cases hs : entry.succeeded with
      | true => simp [hs]
      | false => simp [hs]

theorem lastOpening_cons :
    lastOpening (entry :: log) = if entry.opens then some entry.time else lastOpening log := by
  unfold lastOpening
  rw [List.find?_cons]
  cases entry.opens <;> rfl

/-- A restore is remembered until the next opening. -/
theorem restoredSince_cons :
    restoredSince (entry :: log) = if entry.opens then false else entry.restored || restoredSince log := by
  unfold restoredSince
  rw [List.takeWhile_cons]
  cases entry.opens <;> rfl

/-! ## What the fields mean

A closed breaker counts failures, a half-open one successes, and an open one keeps the stamp of its opening.  The
fields that do not matter in a state are left free, as stale counts stand in them. -/

/-- The stamps of an open breaker, `t₀` being when it was opened: the wall clock's seconds of that, and an
instant that is exact until a restart, and off by less than a second after one. -/
structure OpenedAt (offset : ℤ) (cb : CircuitBreaker) (restored : Bool) (t₀ : ℤ) : Prop where
  unix : cb.lastFailureUnix = wallClock offset t₀
  pos : 0 < wallClock offset t₀
  stamp : ∃ tf, cb.lastFailure = some tf ∧
    if restored then t₀ - 1000000000 < tf ∧ tf < t₀ + 1000000000 else tf = t₀

/-- The limits of `astmatrix_defaults`. -/
structure DefaultLimits (cb : CircuitBreaker) : Prop where
  maxFailures : cb.maxFailures = 5
  timeout : cb.timeout = secs 30
  halfOpenMax : cb.halfOpenMax = 3

/-- **`Tracks offset s`** — what the fields of the breaker say about the log. -/
structure Tracks (offset : ℤ) (s : Logged) : Prop where
  limits : DefaultLimits s.cb
  closed : s.cb.state = .closed → s.cb.failures = failuresSince s.log ∧ s.cb.failures < 5
  halfOpen : s.cb.state = .halfOpen →
    s.cb.consecutiveSuccesses = trialSuccesses s.log ∧ s.cb.consecutiveSuccesses < 3
  opened : s.cb.state = .open → ∃ t₀, lastOpening s.log = some t₀ ∧ t₀ ≤ s.now ∧
    OpenedAt offset s.cb (restoredSince s.log) t₀

/-! The three states, one at a time. -/

/-- Closed: the failures are those since. -/
theorem Tracks.of_closed (hlimits : DefaultLimits cb) (hstate : cb.state = .closed)
    (hfailures : cb.failures = failuresSince log) (hlt : cb.failures < 5) : Tracks offset ⟨cb, t, log⟩ where
  limits := hlimits
  closed _ := ⟨hfailures, hlt⟩
  halfOpen h := by
    rw [hstate] at h
    cases h
  opened h := by
    rw [hstate] at h
    cases h

/-- Half-open: the successes are those since. -/
theorem Tracks.of_halfOpen (hlimits : DefaultLimits cb) (hstate : cb.state = .halfOpen)
    (hsuccesses : cb.consecutiveSuccesses = trialSuccesses log) (hlt : cb.consecutiveSuccesses < 3) :
    Tracks offset ⟨cb, t, log⟩ where
  limits := hlimits
  closed h := by
    rw [hstate] at h
    cases h
  halfOpen _ := ⟨hsuccesses, hlt⟩
  opened h := by
    rw [hstate] at h
    cases h

/-- Open: the stamps are those of the last opening. -/
theorem Tracks.of_open (hlimits : DefaultLimits cb) (hstate : cb.state = .open)
    (hlast : lastOpening log = some t₀) (hle : t₀ ≤ t) (hat : OpenedAt offset cb (restoredSince log) t₀) :
    Tracks offset ⟨cb, t, log⟩ where
  limits := hlimits
  closed h := by
    rw [hstate] at h
    cases h
  halfOpen h := by
    rw [hstate] at h
    cases h
  opened _ := ⟨t₀, hlast, hle, hat⟩

/-- The breaker of the default limits, before any event. -/
theorem tracks_init (hcb : s.cb = .astmatrixDefaults) (hlog : s.log = []) : Tracks offset s := by
  obtain ⟨cb, now, log⟩ := s
  subst hcb hlog
  exact .of_closed ⟨rfl, rfl, rfl⟩ rfl rfl (by decide)

/-! ## One step

One lemma for each operation.  Only two of the operations can open the breaker, and both do it by `trip`. -/

/-- Two readings of the wall clock, and of the monotone clock between them. -/
theorem wallClock_sub (hle : t₀ ≤ t) (hpos : 0 < wallClock offset t₀) :
    t₀ - 1000000000 < t - secs (wallClock offset t - wallClock offset t₀) ∧
      t - secs (wallClock offset t - wallClock offset t₀) < t₀ + 1000000000 := by
  unfold wallClock secs at *
  omega

/-- An opening, of whatever breaker. -/
theorem tracks_trip (hlimits : DefaultLimits cb) (hpos : 0 < wallClock offset t) (hentry : entry.opens = true)
    (htime : entry.time = t) : Tracks offset ⟨cb.trip t (wallClock offset t), t, entry :: log⟩ := by
  have hlast : lastOpening (entry :: log) = some t := by
    rw [lastOpening_cons, if_pos hentry, htime]
  have hrestored : restoredSince (entry :: log) = false := by
    rw [restoredSince_cons, if_pos hentry]
  refine .of_open ⟨hlimits.maxFailures, hlimits.timeout, hlimits.halfOpenMax⟩ rfl hlast (le_refl t) ?_
  rw [hrestored]
  exact ⟨rfl, hpos, t, rfl, rfl⟩

/-- An event that an open breaker ignores. -/
theorem tracks_ignored (h : Tracks offset s) (hstate : s.cb.state = .open) (hle : s.now ≤ t)
    (hforce : e ≠ .forceOpen) (hrestore : e ≠ .restore) :
    Tracks offset ⟨s.cb, t, ⟨e, t, .open, .open⟩ :: s.log⟩ := by
  obtain ⟨t₀, hlast, hle₀, hat⟩ := h.opened hstate
  have hopens : CircuitEntry.opens ⟨e, t, .open, .open⟩ = false := by
    simp [CircuitEntry.opens, hforce]
  have hrestored : CircuitEntry.restored ⟨e, t, .open, .open⟩ = false := by
    simp [CircuitEntry.restored, hrestore]
  refine .of_open h.limits hstate ?_ (le_trans hle₀ hle) ?_
  · rw [lastOpening_cons, hopens]
    exact hlast
  · rw [restoredSince_cons, hopens, hrestored]
    exact hat

/-- A question for permission: it can only turn an open breaker half-open, after the timeout. -/
theorem tracks_allow (h : Tracks offset s) (hle : s.now ≤ t) :
    Tracks offset ⟨(s.cb.allow t).2, t, ⟨.allow, t, s.cb.state, (s.cb.allow t).2.state⟩ :: s.log⟩ := by
  unfold CircuitBreaker.allow
  cases hs : s.cb.state with
  | closed =>
      dsimp only
      rw [hs]
      refine .of_closed h.limits hs ?_ (h.closed hs).2
      rw [failuresSince_cons]
      exact (h.closed hs).1
  | halfOpen =>
      dsimp only
      rw [hs]
      refine .of_halfOpen h.limits hs ?_ (h.halfOpen hs).2
      rw [trialSuccesses_cons]
      exact (h.halfOpen hs).1
  | «open» =>
      dsimp only
      split
      · -- the trial starts, and the successes are counted from here
        refine .of_halfOpen ⟨h.limits.maxFailures, h.limits.timeout, h.limits.halfOpenMax⟩ rfl ?_
          (Nat.zero_lt_succ 2)
        rw [trialSuccesses_cons]
        rfl
      · rw [hs]
        exact tracks_ignored h hs hle (by decide) (by decide)

/-- A success: it counts half-open, clears the failures closed, and is ignored open. -/
theorem tracks_recordSuccess (h : Tracks offset s) (hle : s.now ≤ t) :
    Tracks offset ⟨s.cb.recordSuccess, t, ⟨.recordSuccess, t, s.cb.state, s.cb.recordSuccess.state⟩ :: s.log⟩ := by
  have hlimits : DefaultLimits s.cb := h.limits
  unfold CircuitBreaker.recordSuccess
  cases hs : s.cb.state with
  | closed =>
      dsimp only
      refine .of_closed ⟨hlimits.maxFailures, hlimits.timeout, hlimits.halfOpenMax⟩ rfl ?_ (Nat.zero_lt_succ 4)
      rw [failuresSince_cons]
      rfl
  | halfOpen =>
      obtain ⟨hcount, hlt⟩ := h.halfOpen hs
      dsimp only
      split
      · -- the last trial: the failures are counted anew
        refine .of_closed ⟨hlimits.maxFailures, hlimits.timeout, hlimits.halfOpenMax⟩ rfl ?_
          (Nat.zero_lt_succ 4)
        rw [failuresSince_cons]
        rfl
      · rename_i hmore
        rw [hlimits.halfOpenMax] at hmore
        refine .of_halfOpen ⟨hlimits.maxFailures, hlimits.timeout, hlimits.halfOpenMax⟩ rfl ?_ (by
          show s.cb.consecutiveSuccesses + 1 < 3
          omega)
        rw [trialSuccesses_cons]
        show s.cb.consecutiveSuccesses + 1 = trialSuccesses s.log + 1
        rw [hcount]
  | «open» =>
      dsimp only
      rw [hs]
      exact tracks_ignored h hs hle (by decide) (by decide)

/-- A failure: it counts closed, reopens half-open, and is ignored open. -/
theorem tracks_recordFailure (h : Tracks offset s) (hle : s.now ≤ t) (hpos : 0 < wallClock offset t) :
    Tracks offset ⟨s.cb.recordFailure t (wallClock offset t), t,
      ⟨.recordFailure, t, s.cb.state, (s.cb.recordFailure t (wallClock offset t)).state⟩ :: s.log⟩ := by
  unfold CircuitBreaker.recordFailure
  cases hs : s.cb.state with
  | closed =>
      obtain ⟨hcount, hlt⟩ := h.closed hs
      dsimp only
      split
      · exact tracks_trip ⟨h.limits.maxFailures, h.limits.timeout, h.limits.halfOpenMax⟩ hpos rfl rfl
      · rename_i hmore
        rw [h.limits.maxFailures] at hmore
        refine .of_closed ⟨h.limits.maxFailures, h.limits.timeout, h.limits.halfOpenMax⟩ rfl ?_ (by
          show s.cb.failures + 1 < 5
          omega)
        rw [failuresSince_cons]
        show s.cb.failures + 1 = failuresSince s.log + 1
        rw [hcount]
  | halfOpen =>
      exact tracks_trip h.limits hpos rfl rfl
  | «open» =>
      dsimp only
      rw [hs]
      exact tracks_ignored h hs hle (by decide) (by decide)

/-- A restart keeps the state and the counters, and moves the stamp by less than a second. -/
theorem tracks_restore (h : Tracks offset s) (hle : s.now ≤ t) :
    Tracks offset ⟨.restore s.cb.snapshot (wallClock offset t) t, t, ⟨.restore, t, s.cb.state,
      (CircuitBreaker.restore s.cb.snapshot (wallClock offset t) t).state⟩ :: s.log⟩ := by
  have hstate : (CircuitBreaker.restore s.cb.snapshot (wallClock offset t) t).state = s.cb.state := by
    unfold CircuitBreaker.restore CircuitBreaker.snapshot
    cases s.cb.state <;> rfl
  rw [hstate]
  cases hs : s.cb.state with
  | closed =>
      refine .of_closed ⟨rfl, rfl, rfl⟩ (hstate.trans hs) ?_ (h.closed hs).2
      rw [failuresSince_cons]
      exact (h.closed hs).1
  | halfOpen =>
      refine .of_halfOpen ⟨rfl, rfl, rfl⟩ (hstate.trans hs) ?_ (h.halfOpen hs).2
      rw [trialSuccesses_cons]
      exact (h.halfOpen hs).1
  | «open» =>
      obtain ⟨t₀, hlast, hle₀, hunix, hpos, -⟩ := h.opened hs
      have hle' : t₀ ≤ t := le_trans hle₀ hle
      -- the snapshot has whole seconds of the wall clock, so the new stamp is off by less than one
      refine .of_open ⟨rfl, rfl, rfl⟩ (hstate.trans hs) ?_ hle' ?_
      · rw [lastOpening_cons]
        exact hlast
      · rw [restoredSince_cons]
        refine ⟨hunix, hpos, t - secs (wallClock offset t - s.cb.lastFailureUnix), ?_, ?_⟩
        · show (if s.cb.lastFailureUnix > 0 then _ else none) = _
          rw [if_pos (by rw [hunix]; exact hpos)]
          rfl
        · rw [hunix]
          exact wallClock_sub hle' hpos

/-- **Every event keeps the fields in step with the log.** -/
theorem step_tracks {x : CircuitEvent × ℤ} (h : Tracks offset s) (hstep : s.step offset x = some s') :
    Tracks offset s' := by
  obtain ⟨e, t⟩ := x
  simp only [step, Option.ite_none_right_eq_some, Option.some.injEq] at hstep
  obtain ⟨⟨hle, hpos⟩, rfl⟩ := hstep
  cases e with
  | allow => exact tracks_allow h hle
  | recordSuccess => exact tracks_recordSuccess h hle
  | recordFailure => exact tracks_recordFailure h hle hpos
  | forceOpen =>
      have hopens : CircuitEntry.opens ⟨.forceOpen, t, s.cb.state, .open⟩ = true := by
        simp [CircuitEntry.opens]
      exact tracks_trip h.limits hpos hopens rfl
  | restore => exact tracks_restore h hle

/-- So it is in every reachable state. -/
theorem reachable_tracks (h : (circuitSystem offset).Reachable s) : Tracks offset s := by
  refine System.Reachable.invariant (I := Tracks offset) ?_ step_tracks h
  rintro s ⟨hcb, hlog⟩
  exact tracks_init hcb hlog

/-! ## What a run shows

The invariant, read for each of the three promises. -/

/-- Thirty seconds after the stamp the timeout has elapsed, and not before. -/
theorem elapsed_iff (hlimits : DefaultLimits cb) (hlast : cb.lastFailure = some tf) (t : ℤ) :
    cb.elapsed t = true ↔ tf + secs 30 ≤ t := by
  unfold CircuitBreaker.elapsed
  rw [hlast, hlimits.timeout]
  simp only [decide_eq_true_eq]
  unfold age secs
  omega

/-- **The timeout.**  An open breaker refuses until 30 seconds after it was opened; after a restart that may be
off by a second. -/
theorem Tracks.timed (h : Tracks offset s) (hstate : s.cb.state = .open) :
    s.cb.lastFailure.isSome = true ∧ ∃ t₀, lastOpening s.log = some t₀ ∧
      (restoredSince s.log = false → ∀ t, ((s.cb.allow t).1 = true ↔ t₀ + secs 30 ≤ t)) ∧
      (restoredSince s.log = true → ∀ t, ((s.cb.allow t).1 = true → t₀ + secs 29 < t) ∧
        (t₀ + secs 31 ≤ t → (s.cb.allow t).1 = true)) := by
  obtain ⟨t₀, hlast, -, -, -, tf, htf, hstamp⟩ := h.opened hstate
  have hallow : ∀ t, (s.cb.allow t).1 = true ↔ tf + secs 30 ≤ t := by
    intro t
    rw [CircuitBreaker.allow_eq_true_iff, elapsed_iff h.limits htf, hstate]
    simp
  refine ⟨by rw [htf]; rfl, t₀, hlast, ?_, ?_⟩
  · intro hrestored t
    rw [hrestored] at hstamp
    obtain rfl : tf = t₀ := hstamp
    exact hallow t
  · intro hrestored t
    rw [hrestored] at hstamp
    obtain ⟨hlow, hhigh⟩ := hstamp
    rw [hallow]
    unfold secs
    constructor <;> intro ht <;> omega

/-- **Closing.**  A half-open breaker closes at the third success without a failure between. -/
theorem closes_after_trials {x : CircuitEvent × ℤ} (h : Tracks offset s) (hstep : s.step offset x = some s')
    (hbefore : s.cb.state = .halfOpen) (hafter : s'.cb.state = .closed) :
    x.1 = .recordSuccess ∧ trialSuccesses s'.log = s.cb.halfOpenMax := by
  obtain ⟨e, t⟩ := x
  simp only [step, Option.ite_none_right_eq_some, Option.some.injEq] at hstep
  obtain ⟨-, rfl⟩ := hstep
  obtain ⟨hcount, hlt⟩ := h.halfOpen hbefore
  cases e with
  | allow =>
      simp [act, CircuitBreaker.allow, hbefore] at hafter
  | recordSuccess =>
      refine ⟨rfl, ?_⟩
      simp only [act, CircuitBreaker.recordSuccess, hbefore] at hafter
      split at hafter
      · rename_i hdone
        rw [h.limits.halfOpenMax] at hdone
        rw [trialSuccesses_cons, hbefore, h.limits.halfOpenMax]
        show trialSuccesses s.log + 1 = 3
        omega
      · cases hafter
  | recordFailure =>
      simp [act, CircuitBreaker.recordFailure, hbefore, CircuitBreaker.trip] at hafter
  | forceOpen => cases hafter
  | restore =>
      simp [act, CircuitBreaker.restore, CircuitBreaker.snapshot, hbefore] at hafter

/-- **Opening.**  A failure opens a closed breaker when it is the fifth since the breaker last closed or last
succeeded. -/
theorem opens_at_failures (h : Tracks offset s) (hstep : s.step offset (.recordFailure, t) = some s')
    (hbefore : s.cb.state = .closed) :
    s'.cb.state = .open ↔ failuresSince s'.log = s.cb.maxFailures := by
  simp only [step, Option.ite_none_right_eq_some, Option.some.injEq] at hstep
  obtain ⟨-, rfl⟩ := hstep
  obtain ⟨hcount, hlt⟩ := h.closed hbefore
  have hsince : failuresSince (⟨.recordFailure, t, s.cb.state, (act offset t s.cb .recordFailure).state⟩ :: s.log) =
      failuresSince s.log + 1 := by
    rw [failuresSince_cons, hbefore]
    rfl
  rw [hsince, h.limits.maxFailures, ← hcount]
  simp only [act, CircuitBreaker.recordFailure, hbefore, h.limits.maxFailures]
  split
  · rename_i hfull
    exact ⟨fun _ => by omega, fun _ => rfl⟩
  · rename_i hmore
    constructor
    · intro hopen
      cases hopen
    · intro hfive
      omega

/-- **Breaker invariants over whole runs**, from the default limits, through any events and restarts. -/
theorem breaker_invariants (h : (circuitSystem offset).Reachable s) :
    (s.cb.state = .closed → s.cb.failures < s.cb.maxFailures) ∧
    (s.cb.state = .open → s.cb.lastFailure.isSome = true ∧ ∃ t₀, lastOpening s.log = some t₀ ∧
      (restoredSince s.log = false → ∀ t, ((s.cb.allow t).1 = true ↔ t₀ + s.cb.timeout ≤ t)) ∧
      (restoredSince s.log = true → ∀ t, ((s.cb.allow t).1 = true → t₀ + s.cb.timeout - secs 1 < t) ∧
        (t₀ + s.cb.timeout + secs 1 ≤ t → (s.cb.allow t).1 = true))) ∧
    (∀ x s', (circuitSystem offset).step s x s' → s.cb.state = .halfOpen → s'.cb.state = .closed →
      x.1 = .recordSuccess ∧ trialSuccesses s'.log = s.cb.halfOpenMax) ∧
    (∀ t s', (circuitSystem offset).step s (.recordFailure, t) s' → s.cb.state = .closed →
      (s'.cb.state = .open ↔ failuresSince s'.log = s.cb.maxFailures)) := by
  have ht := reachable_tracks h
  refine ⟨?_, ?_, ?_, ?_⟩
  · intro hclosed
    rw [ht.limits.maxFailures]
    exact (ht.closed hclosed).2
  · intro hopen
    obtain ⟨hsome, t₀, hlast, hexact, hrestored⟩ := ht.timed hopen
    refine ⟨hsome, t₀, hlast, ?_, ?_⟩
    · intro hr t
      rw [ht.limits.timeout]
      exact hexact hr t
    · intro hr t
      obtain ⟨hlow, hhigh⟩ := hrestored hr t
      rw [ht.limits.timeout]
      unfold secs at *
      exact ⟨fun hallow => by have := hlow hallow; omega, fun hle => hhigh (by omega)⟩
  · intro x s' hstep hbefore hafter
    exact closes_after_trials ht hstep hbefore hafter
  · intro t s' hstep hbefore
    exact opens_at_failures ht hstep hbefore

/-- Five failures, a restart after 20 seconds, and the trial that closes the breaker. -/
theorem breaker_invariants_tripped :
    ∃ s, (circuitSystem 1000000000).Reachable s ∧ s.cb.state = .closed ∧ s.log.length = 10 ∧
      s.cb.failures < s.cb.maxFailures := by
  have hexec : (System.exec (step 1000000000) ⟨.astmatrixDefaults, 0, []⟩
      [(.recordFailure, 1), (.recordFailure, 2), (.recordFailure, 3), (.recordFailure, 4), (.recordFailure, 5),
        (.restore, 20000000000), (.allow, 40000000000), (.recordSuccess, 41000000000),
        (.recordSuccess, 42000000000), (.recordSuccess, 43000000000)]).any (fun s =>
          decide (s.cb.state = .closed) && decide (s.log.length = 10)) = true := by
    decide +kernel
  obtain ⟨s, hreach, hend⟩ := System.reachable_of_exec
    (show (circuitSystem 1000000000).init ⟨.astmatrixDefaults, 0, []⟩ from ⟨rfl, rfl⟩) hexec
  simp only [Bool.and_eq_true, decide_eq_true_eq] at hend
  exact ⟨s, hreach, hend.1, hend.2, (breaker_invariants hreach).1 hend.1⟩

end Logged

end Flock
