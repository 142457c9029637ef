/-
# Flock.Auth.Throttle — the login throttle, and logins that overlap.

The throttle is a fixed window: a start and a count of failures, reset by the first failure after the window.
`POST /login` looks at it, verifies the password off every lock (the derivation is slow on purpose), and counts a
failure when it is over; so the look and the count are two critical sections, and any number of logins may stand
between them.  The setup path counts before it works (`admitPreAuthAttempt`).

A verification belongs to the window that is running when it starts or, after that has run out, to the one the
next count opens.  `LoginFits` is the condition under which a window has no more than its share of failing
verifications: a login that will fail passes its look only if it fits beside those that have passed theirs.
-/
import Mathlib.Algebra.Ring.Nat
import Mathlib.Data.List.Count
import Flock.Lib.Transition

namespace Flock

open Lib (System)

/-- `THROTTLE_WINDOW_SECS`. -/
def throttleWindowSecs : ℕ := 60

/-- `THROTTLE_MAX_FAILURES`. -/
def throttleMaxFailures : ℕ := 10

/-- `Throttle`; the start is in seconds of the wall clock. -/
structure Throttle where
  windowStart : ℕ
  failures : ℕ
  deriving DecidableEq, Repr

namespace Throttle

/-- The window has run out; the subtraction saturates. -/
def expired (t : Throttle) (now : ℕ) : Bool := decide (throttleWindowSecs ≤ now - t.windowStart)

/-- `reset_throttle_window`. -/
def resetThrottleWindow (t : Throttle) (now : ℕ) : Throttle := if t.expired now then ⟨now, 0⟩ else t

/-- `note_failure`: whether the caller is throttled now, and the throttle it leaves. The count is a `u32`. -/
def noteFailure (t : Throttle) (now : ℕ) : Bool × Throttle :=
  let t := t.resetThrottleWindow now
  let t := { t with failures := (t.failures + 1) % 2 ^ 32 }
  (decide (t.failures > throttleMaxFailures), t)

/-- `is_throttled`. -/
def isThrottled (t : Throttle) (now : ℕ) : Bool := !t.expired now && decide (t.failures > throttleMaxFailures)

/-- `admit_pre_auth_attempt`. -/
def admitPreAuthAttempt (t : Throttle) (now : ℕ) : Bool × Throttle :=
  let t := t.resetThrottleWindow now
  if t.failures > throttleMaxFailures then (false, t)
  else (true, { t with failures := (t.failures + 1) % 2 ^ 32 })

/-- The failures that count at an instant. -/
def failuresAt (t : Throttle) (now : ℕ) : ℕ := if t.expired now then 0 else t.failures

end Throttle

/-- A login that has passed its look: what its verification will answer, and whether that has started. -/
structure Login where
  ok : Bool
  verifying : Bool
  deriving DecidableEq, Repr

/-- The throttle, the logins in flight, and the counts that the bound is about. -/
structure Logins where
  throttle : Throttle
  now : ℕ
  logins : List Login
  /-- Ghost: how often the window was reset. -/
  window : ℕ
  /-- Ghost: the login failures counted in the window. -/
  noted : ℕ
  /-- Ghost: the windows of the failing verifications that were started, newest first. -/
  started : List ℕ
  deriving DecidableEq

/-- A critical section of a login, or an attempt on the setup path. -/
inductive LoginEvent where
  /-- `is_throttled`, at the arrival of a login -/
  | check (ok : Bool)
  /-- the verification of a login starts -/
  | verify (ok : Bool)
  /-- it is over; a failure is noted -/
  | finish (ok : Bool)
  /-- `admit_pre_auth_attempt` -/
  | preAuth
  deriving DecidableEq, Repr

namespace Logins

/-- `Admin::new`. -/
def boot (now : ℕ) : Logins := ⟨⟨now, 0⟩, now, [], 0, 0, []⟩

/-- The failing logins that have passed their look and not started to verify. -/
def waiting (s : Logins) : ℕ := s.logins.count ⟨false, false⟩

/-- The failing verifications in progress. -/
def verifying (s : Logins) : ℕ := s.logins.count ⟨false, true⟩

/-- The window a verification belongs to. -/
def windowAt (s : Logins) (t : ℕ) : ℕ := if s.throttle.expired t then s.window + 1 else s.window

/-- The ghosts at a reset. -/
def roll (s : Logins) (t : ℕ) : Logins :=
  if s.throttle.expired t then { s with window := s.window + 1, noted := 0 } else s

/-- What an event does at `t`. -/
def act (s : Logins) (t : ℕ) : LoginEvent → Option Logins
  | .check ok =>
      if s.throttle.isThrottled t then some s else some { s with logins := ⟨ok, false⟩ :: s.logins }
  | .verify ok =>
      if ⟨ok, false⟩ ∈ s.logins then
        some { s with
          logins := ⟨ok, true⟩ :: s.logins.erase ⟨ok, false⟩
          started := if ok then s.started else s.windowAt t :: s.started }
      else none
  | .finish ok =>
      if ⟨ok, true⟩ ∈ s.logins then
        if ok then some { s with logins := s.logins.erase ⟨ok, true⟩ }
        else
          some { s.roll t with
            throttle := (s.throttle.noteFailure t).2
            logins := s.logins.erase ⟨ok, true⟩
            noted := (s.roll t).noted + 1 }
      else none
  | .preAuth => some { s.roll t with throttle := (s.throttle.admitPreAuthAttempt t).2 }

/-- One event, at some reading of the wall clock. -/
def step (s : Logins) (x : LoginEvent × ℕ) : Option Logins := (s.act x.2 x.1).map fun s => { s with now := x.2 }

/-- The failing verifications started in a window. -/
def startedIn (s : Logins) (w : ℕ) : ℕ := s.started.count w

end Logins

/-- Every interleaving of any number of logins. -/
def loginSystem : System Logins (LoginEvent × ℕ) := .ofStep (fun s => ∃ now, s = .boot now) Logins.step

/-- The condition: the wall clock is not set back, and a login that will fail passes its look only if the failures
that count and the failing logins in flight are at most `THROTTLE_MAX_FAILURES`. -/
def LoginFits (s : Logins) (x : LoginEvent × ℕ) : Prop :=
  s.now ≤ x.2 ∧ (x.1 = .check false → s.throttle.isThrottled x.2 = false →
    s.throttle.failuresAt x.2 + s.waiting + s.verifying ≤ throttleMaxFailures)

instance (s : Logins) (x : LoginEvent × ℕ) : Decidable (LoginFits s x) :=
  inferInstanceAs (Decidable (s.now ≤ x.2 ∧ (x.1 = .check false → s.throttle.isThrottled x.2 = false →
    s.throttle.failuresAt x.2 + s.waiting + s.verifying ≤ throttleMaxFailures)))

namespace Throttle

variable {t : Throttle} {now now' : ℕ}

/-- A window that has run out stays so, until it is reset. -/
theorem expired_mono (hle : now ≤ now') (h : t.expired now = true) : t.expired now' = true := by
  simp only [expired, decide_eq_true_eq] at h ⊢
  omega

theorem not_expired_of_later (hle : now ≤ now') (h : t.expired now' = false) : t.expired now = false := by
  by_contra hnow
  rw [expired_mono hle (by simpa using hnow)] at h
  cases h

theorem noteFailure_of_expired (h : t.expired now = true) : (t.noteFailure now).2 = ⟨now, 1⟩ := by
  unfold noteFailure resetThrottleWindow
  rw [if_pos h]
  rfl

theorem noteFailure_of_running (h : t.expired now = false) (hsmall : t.failures + 1 < 2 ^ 32) :
    (t.noteFailure now).2 = { t with failures := t.failures + 1 } := by
  unfold noteFailure resetThrottleWindow
  rw [h]
  simp only [Bool.false_eq_true, if_false]
  rw [Nat.mod_eq_of_lt hsmall]

theorem admitPreAuthAttempt_of_expired (h : t.expired now = true) : (t.admitPreAuthAttempt now).2 = ⟨now, 1⟩ := by
  unfold admitPreAuthAttempt resetThrottleWindow
  rw [if_pos h]
  rfl

/-- An attempt on the setup path counts up to one more than the limit. -/
theorem admitPreAuthAttempt_of_running (h : t.expired now = false) :
    (t.admitPreAuthAttempt now).2 = t ∨
      t.failures ≤ throttleMaxFailures ∧ (t.admitPreAuthAttempt now).2 = { t with failures := t.failures + 1 } := by
  unfold admitPreAuthAttempt resetThrottleWindow
  rw [h]
  simp only [Bool.false_eq_true, if_false]
  split
  · exact .inl rfl
  · rename_i hroom
    have hle : t.failures ≤ throttleMaxFailures := by omega
    have hsmall : t.failures + 1 < 2 ^ 32 := by
      unfold throttleMaxFailures at hle
      omega
    rw [Nat.mod_eq_of_lt hsmall]
    exact .inr ⟨hle, rfl⟩

end Throttle

namespace Logins

variable {s s' : Logins} {t : ℕ} {x : LoginEvent × ℕ} {logins : List Login}

/-- **`Tallied s`** — no window has more than its share, and while a window runs every failing verification of it is
in progress or has been counted. -/
structure Tallied (s : Logins) : Prop where
  le : ∀ w, s.startedIn w ≤ throttleMaxFailures + 1
  flight : s.waiting + s.verifying ≤ throttleMaxFailures + 1
  future : ∀ w, s.window + 1 < w → s.startedIn w = 0
  next : s.startedIn (s.window + 1) ≤ s.verifying
  unopened : s.throttle.expired s.now = false → s.startedIn (s.window + 1) = 0
  counted : s.throttle.expired s.now = false →
    s.noted ≤ s.throttle.failures ∧ s.throttle.failures ≤ s.noted + (throttleMaxFailures + 1)
  fits : s.throttle.expired s.now = false → s.noted + s.waiting + s.verifying ≤ throttleMaxFailures + 1
  current : s.throttle.expired s.now = false → s.startedIn s.window ≤ s.noted + s.verifying

theorem tallied_boot (now : ℕ) : Tallied (boot now) where
  le _ := Nat.zero_le _
  flight := Nat.zero_le _
  future _ _ := rfl
  next := Nat.zero_le _
  unopened _ := rfl
  counted _ := ⟨Nat.zero_le _, Nat.zero_le _⟩
  fits _ := Nat.zero_le _
  current _ := Nat.zero_le _

theorem Tallied.later (h : Tallied s) (hle : s.now ≤ t) : Tallied { s with now := t } where
  le := h.le
  flight := h.flight
  future := h.future
  next := h.next
  unopened hrun := h.unopened (Throttle.not_expired_of_later hle hrun)
  counted hrun := h.counted (Throttle.not_expired_of_later hle hrun)
  fits hrun := h.fits (Throttle.not_expired_of_later hle hrun)
  current hrun := h.current (Throttle.not_expired_of_later hle hrun)

/-- A login that succeeds is in nobody's way. -/
theorem Tallied.of_logins (h : Tallied s) (hwaiting : logins.count ⟨false, false⟩ = s.waiting)
    (hverifying : logins.count ⟨false, true⟩ = s.verifying) : Tallied { s with logins } := by
  have hw : waiting { s with logins } = s.waiting := hwaiting
  have hv : verifying { s with logins } = s.verifying := hverifying
  refine ⟨h.le, ?_, h.future, ?_, h.unopened, h.counted, ?_, ?_⟩
  · rw [hw, hv]
    exact h.flight
  · rw [hv]
    exact h.next
  · intro hrun
    rw [hw, hv]
    exact h.fits hrun
  · intro hrun
    rw [hv]
    exact h.current hrun

/-! ## One step -/

/-- A look that passes, of a login that will fail. -/
theorem tallied_check (h : Tallied s)
    (hroom : s.throttle.failuresAt s.now + s.waiting + s.verifying ≤ throttleMaxFailures) :
    Tallied { s with logins := ⟨false, false⟩ :: s.logins } := by
  have hw : waiting { s with logins := ⟨false, false⟩ :: s.logins } = s.waiting + 1 := List.count_cons_self
  have hv : verifying { s with logins := ⟨false, false⟩ :: s.logins } = s.verifying :=
    List.count_cons_of_ne (by decide)
  refine ⟨h.le, ?_, h.future, ?_, h.unopened, h.counted, ?_, ?_⟩
  · rw [hw, hv]
    omega
  · rw [hv]
    exact h.next
  · intro hrun
    have hcounted := (h.counted hrun).1
    have hrun' : s.throttle.expired s.now = false := hrun
    -- the failures that count are the throttle's own, and they are no fewer than those noted
    rw [hw, hv]
    unfold Throttle.failuresAt at hroom
    rw [hrun'] at hroom
    simp only [Bool.false_eq_true, if_false] at hroom
    show s.noted + (s.waiting + 1) + s.verifying ≤ throttleMaxFailures + 1
    omega
  · intro hrun
    rw [hv]
    exact h.current hrun

theorem windowAt_of_running (hrun : s.throttle.expired t = false) : s.windowAt t = s.window := by
  simp [windowAt, hrun]

theorem windowAt_of_expired (hrun : s.throttle.expired t = true) : s.windowAt t = s.window + 1 := by
  simp [windowAt, hrun]

theorem windowAt_le (s : Logins) (t : ℕ) : s.windowAt t ≤ s.window + 1 := by
  unfold windowAt
  split <;> omega

/-- The window of one more verification. -/
theorem count_started_cons (s : Logins) (v w : ℕ) :
    (v :: s.started).count w = s.startedIn w + if v = w then 1 else 0 := by
  rw [List.count_cons]
  simp only [beq_iff_eq]
  rfl

/-- A login that waits is one of those in flight, and they fit into either window. -/
theorem Tallied.room (h : Tallied s) (hone : 1 ≤ s.waiting) :
    s.startedIn (s.windowAt s.now) ≤ throttleMaxFailures := by
  cases hrun : s.throttle.expired s.now with
  | false =>
      have hfits := h.fits hrun
      have hcurrent := h.current hrun
      rw [windowAt_of_running hrun]
      omega
  | true =>
      have hflight := h.flight
      have hnext := h.next
      rw [windowAt_of_expired hrun]
      omega

/-- A failing verification starts. -/
theorem tallied_verify (h : Tallied s) (hmem : (⟨false, false⟩ : Login) ∈ s.logins) :
    Tallied { s with
      logins := ⟨false, true⟩ :: s.logins.erase ⟨false, false⟩
      started := s.windowAt s.now :: s.started } := by
  -- one login leaves the queue for a verification
  have hone : 1 ≤ s.waiting := List.one_le_count_iff.mpr hmem
  have hw : (⟨false, true⟩ :: s.logins.erase ⟨false, false⟩ : List Login).count ⟨false, false⟩ = s.waiting - 1 := by
    rw [List.count_cons_of_ne (by decide), List.count_erase_self]
    rfl
  have hv : (⟨false, true⟩ :: s.logins.erase ⟨false, false⟩ : List Login).count ⟨false, true⟩ = s.verifying + 1 := by
    rw [List.count_cons_self, List.count_erase_of_ne (by decide)]
    rfl
  have hbound := s.windowAt_le s.now
  have hroom := h.room hone
  refine ⟨?_, ?_, ?_, ?_, ?_, h.counted, ?_, ?_⟩
  -- a window starts no more than the limit lets it
  · intro w
    have hle := h.le w
    show (s.windowAt s.now :: s.started).count w ≤ throttleMaxFailures + 1
    rw [count_started_cons]
    split
    · rename_i hw'
      rw [← hw']
      omega
    · exact hle
  · have hflight := h.flight
    show List.count _ _ + List.count _ _ ≤ _
    rw [hw, hv]
    omega
  -- no later window has started any
  · intro w hlt
    have hzero := h.future w hlt
    have hlt' : s.window + 1 < w := hlt
    show (s.windowAt s.now :: s.started).count w = 0
    rw [count_started_cons, if_neg (by omega), hzero]
  · have hnext := h.next
    show (s.windowAt s.now :: s.started).count (s.window + 1) ≤ List.count _ _
    rw [count_started_cons, hv]
    split <;> omega
  -- before the first failure the window cannot have moved
  · intro hrun
    have hunopened := h.unopened hrun
    have hat : s.windowAt s.now = s.window := windowAt_of_running hrun
    show (s.windowAt s.now :: s.started).count (s.window + 1) = 0
    rw [count_started_cons, hat, if_neg (by omega), hunopened]
  · intro hrun
    have hfits := h.fits hrun
    show s.noted + List.count _ _ + List.count _ _ ≤ _
    rw [hw, hv]
    omega
  · intro hrun
    have hcurrent := h.current hrun
    show (s.windowAt s.now :: s.started).count s.window ≤ s.noted + List.count _ _
    rw [count_started_cons, hv]
    split <;> omega

/-- A new window is opened, with what was started for it. -/
theorem tallied_open (h : Tallied s) {noted failures : ℕ} (hnoted : noted ≤ failures)
    (hfailures : failures ≤ noted + (throttleMaxFailures + 1))
    (hfits : noted + logins.count ⟨false, false⟩ + logins.count ⟨false, true⟩ ≤ throttleMaxFailures + 1)
    (hcurrent : s.startedIn (s.window + 1) ≤ noted + logins.count ⟨false, true⟩) :
    Tallied ⟨⟨s.now, failures⟩, s.now, logins, s.window + 1, noted, s.started⟩ where
  le := h.le
  flight := by
    show logins.count ⟨false, false⟩ + logins.count ⟨false, true⟩ ≤ throttleMaxFailures + 1
    omega
  future w hlt := h.future w (by
    have : s.window + 1 + 1 < w := hlt
    omega)
  next := by
    have hzero := h.future (s.window + 1 + 1) (Nat.lt_succ_self _)
    show s.startedIn (s.window + 1 + 1) ≤ _
    omega
  unopened _ := h.future (s.window + 1 + 1) (Nat.lt_succ_self _)
  counted _ := ⟨hnoted, hfailures⟩
  fits _ := hfits
  current _ := hcurrent

/-- A failing verification is over, and counted. -/
theorem tallied_finish (h : Tallied s) (hmem : (⟨false, true⟩ : Login) ∈ s.logins) :
    Tallied { s.roll s.now with
      throttle := (s.throttle.noteFailure s.now).2
      logins := s.logins.erase ⟨false, true⟩
      noted := (s.roll s.now).noted + 1 } := by
  have hone : 1 ≤ s.verifying := List.one_le_count_iff.mpr hmem
  have hw : (s.logins.erase ⟨false, true⟩).count ⟨false, false⟩ = s.waiting :=
    List.count_erase_of_ne (by decide)
  have hv : (s.logins.erase ⟨false, true⟩).count ⟨false, true⟩ = s.verifying - 1 := List.count_erase_self
  have hflight := h.flight
  have hnext := h.next
  cases hrun : s.throttle.expired s.now with
  | false =>
      -- what leaves the flight is counted, so the sums stand
      have hcounted := h.counted hrun
      have hfits := h.fits hrun
      have hcurrent := h.current hrun
      have hunopened := h.unopened hrun
      have hsmall : s.throttle.failures + 1 < 2 ^ 32 := by
        unfold throttleMaxFailures at hcounted hfits
        omega
      rw [Throttle.noteFailure_of_running hrun hsmall]
      simp only [roll, hrun, Bool.false_eq_true, if_false]
      refine ⟨h.le, ?_, h.future, ?_, fun _ => hunopened, fun _ => ?_, fun _ => ?_, fun _ => ?_⟩
      · show List.count _ _ + List.count _ _ ≤ _
        rw [hw, hv]
        omega
      · show s.startedIn (s.window + 1) ≤ List.count _ _
        rw [hv]
        omega
      · show s.noted + 1 ≤ s.throttle.failures + 1 ∧
          s.throttle.failures + 1 ≤ s.noted + 1 + (throttleMaxFailures + 1)
        omega
      · show s.noted + 1 + List.count _ _ + List.count _ _ ≤ _
        rw [hw, hv]
        omega
      · show s.startedIn s.window ≤ s.noted + 1 + List.count _ _
        rw [hv]
        omega
  | true =>
      -- the failure opens a window, and what was started for it is still in progress
      rw [Throttle.noteFailure_of_expired hrun]
      simp only [roll, hrun, if_true]
      apply tallied_open h
      · exact Nat.le_refl 1
      · omega
      · rw [hw, hv]
        omega
      · rw [hv]
        omega

/-- An attempt on the setup path. -/
theorem tallied_preAuth (h : Tallied s) :
    Tallied { s.roll s.now with throttle := (s.throttle.admitPreAuthAttempt s.now).2 } := by
  have hflight := h.flight
  have hnext := h.next
  cases hrun : s.throttle.expired s.now with
  | false =>
      have hcounted := h.counted hrun
      simp only [roll, hrun, Bool.false_eq_true, if_false]
      rcases Throttle.admitPreAuthAttempt_of_running hrun with heq | ⟨hroom, heq⟩
      · rw [heq]
        exact h
      · rw [heq]
        refine ⟨h.le, h.flight, h.future, h.next, fun _ => h.unopened hrun, fun _ => ?_, fun _ => h.fits hrun,
          fun _ => h.current hrun⟩
        show s.noted ≤ s.throttle.failures + 1 ∧ s.throttle.failures + 1 ≤ s.noted + (throttleMaxFailures + 1)
        omega
  | true =>
      rw [Throttle.admitPreAuthAttempt_of_expired hrun]
      simp only [roll, hrun, if_true]
      apply tallied_open h
      · exact Nat.zero_le 1
      · omega
      · show 0 + s.waiting + s.verifying ≤ throttleMaxFailures + 1
        omega
      · show s.startedIn (s.window + 1) ≤ 0 + s.verifying
        omega

/-- **Every event that meets the condition keeps the tally.** -/
theorem tallied_step (h : Tallied s) (hstep : s.step x = some s') (hcond : LoginFits s x) : Tallied s' := by
  obtain ⟨e, t⟩ := x
  obtain ⟨hle, hroom⟩ := hcond
  obtain ⟨m, hact, rfl⟩ := Option.map_eq_some_iff.mp hstep
  -- the clock goes on, and then the event takes place
  have hnow : Tallied { s with now := t } := h.later hle
  cases e with
  | check ok =>
      simp only [act] at hact
      split at hact
      · obtain rfl := Option.some.inj hact
        exact hnow
      · rename_i hpass
        obtain rfl := Option.some.inj hact
        cases ok with
        | true => exact hnow.of_logins (List.count_cons_of_ne (by decide)) (List.count_cons_of_ne (by decide))
        | false => exact tallied_check hnow (hroom rfl (by simpa using hpass))
  -- a login that gets the right password leaves the counts as they are
  | verify ok =>
      simp only [act, Option.ite_none_right_eq_some, Option.some.injEq] at hact
      obtain ⟨hmem, rfl⟩ := hact
      cases ok with
      | true =>
          apply hnow.of_logins
          · rw [List.count_cons_of_ne (by decide), List.count_erase_of_ne (by decide)]
            rfl
          · rw [List.count_cons_of_ne (by decide), List.count_erase_of_ne (by decide)]
            rfl
      | false => exact tallied_verify hnow hmem
  -- what is noted is the failure; it can open a new window
  | finish ok =>
      simp only [act, Option.ite_none_right_eq_some] at hact
      obtain ⟨hmem, hact⟩ := hact
      cases ok with
      | true =>
          obtain rfl := Option.some.inj hact
          exact hnow.of_logins (List.count_erase_of_ne (by decide)) (List.count_erase_of_ne (by decide))
      | false =>
          obtain rfl := Option.some.inj hact
          have hfinish := tallied_finish hnow hmem
          unfold roll at hfinish ⊢
          cases hrun : s.throttle.expired t <;> simpa [hrun] using hfinish
  | preAuth =>
      obtain rfl := Option.some.inj hact
      have hattempt := tallied_preAuth hnow
      unfold roll at hattempt ⊢
      cases hrun : s.throttle.expired t <;> simpa [hrun] using hattempt

/-! ## Whole runs -/

/-- **The login throttle.**  In every run whose steps meet the condition, at most one more than
`THROTTLE_MAX_FAILURES` of the verifications started in a window end in failure. -/
theorem failing_verifications_le (h : (loginSystem.restrict LoginFits).Reachable s) (w : ℕ) :
    s.startedIn w ≤ throttleMaxFailures + 1 := by
  have htallied : Tallied s := by
    refine System.Reachable.invariant (I := Tallied) ?_ ?_ h
    · rintro s ⟨now, rfl⟩
      exact tallied_boot now
    · rintro s x s' hbefore ⟨hstep, hcond⟩
      exact tallied_step hbefore hstep hcond
  exact htallied.le w

/-- A login that fails, its three steps at one second. -/
def failedLogin (t : ℕ) : List (LoginEvent × ℕ) := [(.check false, t), (.verify false, t), (.finish false, t)]

/-- Twelve logins that fail, one after the other: the twelfth is turned away. -/
theorem failing_verifications_le_in_turn :
    ∃ s, (loginSystem.restrict LoginFits).Reachable s ∧ s.startedIn 0 = 11 ∧
      s.startedIn 0 ≤ throttleMaxFailures + 1 := by
  have hexec : (System.exec (System.guardStep LoginFits step) (boot 0)
      ((List.range 11).flatMap failedLogin ++ [(.check false, 11)])).any
        (fun s => decide (s.startedIn 0 = 11)) = true := by
    decide +kernel
  obtain ⟨s, ⟨s₀, es, hboot, hrun⟩, hend⟩ := System.reachable_of_exec
    (show loginSystem.init (boot 0) from ⟨0, rfl⟩) hexec
  have hreach : (loginSystem.restrict LoginFits).Reachable s :=
    ⟨s₀, es, hboot, System.Run.restrict_of_guardStep hrun⟩
  exact ⟨s, hreach, of_decide_eq_true hend, failing_verifications_le hreach 0⟩

/-- **Twelve logins at once**: all of them pass their look before the first failure is counted. -/
theorem twelve_overlapping_logins :
    ∃ s, loginSystem.Reachable s ∧ s.startedIn 0 = 12 ∧ s.logins = [] ∧
      ¬ s.startedIn 0 ≤ throttleMaxFailures + 1 := by
  have hexec : (System.exec step (boot 0)
      (List.replicate 12 (.check false, 1) ++ List.replicate 12 (.verify false, 1) ++
        List.replicate 12 (.finish false, 2))).any
        (fun s => decide (s.startedIn 0 = 12) && decide (s.logins = [])) = true := by
    decide +kernel
  obtain ⟨s, hreach, hend⟩ := System.reachable_of_exec (show loginSystem.init (boot 0) from ⟨0, rfl⟩) hexec
  simp only [Bool.and_eq_true, decide_eq_true_eq] at hend
  refine ⟨s, hreach, hend.1, hend.2, ?_⟩
  rw [hend.1]
  decide

end Logins

end Flock
