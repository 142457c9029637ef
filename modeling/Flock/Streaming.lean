/-
# Flock.Streaming — the task of one streaming request, and the outcome it records.

The model of `streaming` in `proxy.rs`.  `work` is a sequence of awaits, and a request deadline may cancel it at any
of them.  `control` says, for each await and each way it can end, what the task does next; `apply` does the
bookkeeping.  The channel to the client holds sixteen frames: a full channel makes a `send` wait and a `try_send`
fail, and a client that is gone makes both fail.

A terminal exit records its outcome and then awaits the send of one last error frame.  The deadline may fire
during that send, and records an outcome of its own: `DeadlineInTime` is the condition that it does not.

On its way to the next await a task adds durations to the clock that it did not choose: the heartbeat of the
settings and the `Retry-After` of an upstream.  A sum past the last `Instant` panics, and the runtime ends the task,
with no outcome at all: `SumsInRange` is the condition that there is none.

    outcomes   how
    1          every exit, and the deadline before one
    2          the deadline while the last frame is being sent
    0          a sum of the clock that panics
-/
import Mathlib.Data.List.Basic
import Flock.Lib.Transition
import Flock.Pool.Basic

namespace Flock

open Lib (System)

/-! ## The task

The source's `streaming` is one `async` block.  Its awaits are the constructors of `StreamPc`; what the block does
between two of them is one effect, so that an interleaving of the task with its client is a list of events, one for
each await that ends and one for each thing the client does. -/

/-- `retryable`. -/
def retryable (status : ℕ) : Bool := status == 429 || status == 500 || status == 502 || status == 503 || status == 504

/-- `POLL` of the governor. -/
def governorPoll : ℕ := millis 250

/-- How many frames the channel to the client holds. -/
def frameCapacity : ℕ := 16

/-- `StreamOutcome`. -/
inductive StreamOutcome where
  | completed
  | deadline
  | disconnected
  | truncated
  deriving DecidableEq, Repr

/-- The await a task stands at. -/
inductive StreamPc where
  /-- `send(": connected")` -/
  | connecting
  /-- `acquire_model_permit` -/
  | permit
  /-- `reserve_slot` -/
  | slot
  /-- the response of the upstream -/
  | upstream
  /-- the text of an error response -/
  | detail (status : ℕ)
  /-- `send(": retrying")` -/
  | retrying
  /-- the next chunk, or the client hanging up -/
  | reading
  /-- the send of a chunk -/
  | relaying
  /-- the send of the error frame after the outcome has been recorded -/
  | lastFrame
  /-- the task has ended -/
  | done
  deriving DecidableEq, Repr

namespace StreamPc

/-- The upstream stream has not begun. -/
def early : StreamPc → Bool
  | .connecting | .permit | .slot | .upstream | .detail _ | .retrying => true
  | _ => false

/-- The upstream stream is being relayed. -/
def relays : StreamPc → Bool
  | .reading | .relaying => true
  | _ => false

end StreamPc

/-- What of the request and of the settings the task reads. -/
structure StreamConfig where
  /-- `x-flock-deadline-ms`, as a reading of the clock. -/
  requestDeadline : Option ℤ
  /-- The end of the wait for a slot. -/
  deadline : ℤ
  /-- The stall cutoff; zero is none. -/
  streamIdle : ℕ
  heartbeat : ℕ
  /-- `gated`: the governor is on, and the request is one for a model. -/
  gated : Bool

/-- The task, the channel to its client, and the metrics it has written, newest first. -/
structure Streaming where
  pc : StreamPc := .connecting
  /-- The last reading of the clock. -/
  now : ℤ
  /-- Frames the client has not read. -/
  queued : ℕ := 0
  /-- The client has hung up. -/
  gone : Bool := false
  /-- The untouched body, while it is kept for a retry. -/
  fallback : Bool
  /-- The stream observer, with what was pushed. -/
  observer : Option (List UInt8) := none
  /-- What the observer was finalised with. -/
  finalised : List StreamOutcome := []
  /-- The increments of `flock_requests_total`, by status. -/
  recorded : List String := []
  deriving DecidableEq

/-- How an await ends, or what the client does. -/
inductive StreamEvent where
  /-- the send the task awaits is over -/
  | sent
  /-- `on_wait` of `permit` and `slot` -/
  | heartbeat
  | permit (granted : Bool)
  | slot (granted : Bool)
  /-- a status, or a connection error -/
  | response (status : Option ℕ)
  /-- the text has come; the back-off of the lane, and none if the text says that the workers are exhausted -/
  | detail (backoff : Option ℕ)
  | chunk (bytes : List UInt8)
  /-- the upstream breaks off -/
  | chunkError
  | chunkEnd
  /-- nothing for `stream_idle` -/
  | stall
  /-- `tx.closed()` -/
  | closed
  | deadline
  /-- the client reads a frame -/
  | clientReads
  | clientGone
  deriving DecidableEq, Repr

/-- What the task does up to its next await. -/
inductive StreamEffect where
  | goto (pc : StreamPc)
  /-- retry with the untouched body -/
  | restore
  /-- a fresh observer, and the first read -/
  | start
  | push (bytes : List UInt8)
  /-- record an outcome and return -/
  | exit (outcome : Option StreamOutcome) (status : String)
  /-- record an outcome and send the client an error frame -/
  | exitSending (outcome : Option StreamOutcome) (status : String)
  /-- the error frame is out, or cannot go out -/
  | finish
  /-- the task ends where it stands -/
  | panic

namespace Streaming

/-- There is room in the channel. -/
def room (s : Streaming) : Bool := !s.gone && decide (s.queued < frameCapacity)

/-- The rest of an iteration once a send is over; `ok` is its result. -/
def afterSend (ok : Bool) : StreamPc → Option StreamEffect
  | .connecting | .retrying => some (if ok then .goto .permit else .exit none "disconnect")
  | .relaying => some (if ok then .goto .reading else .exit (some .disconnected) "disconnect")
  | .lastFrame => some .finish
  | _ => none

/-- What the upstream's response leads to. -/
def afterResponse (cfg : StreamConfig) (s : Streaming) (t : ℤ) : Option ℕ → StreamEffect
  | none => .goto .permit
  | some status =>
      if status = 400 ∧ s.fallback = true then .restore
      else if retryable status then
        if cfg.deadline ≤ t then .exitSending none "504" else .goto (.detail status)
      else if 200 ≤ status ∧ status < 300 then .start
      else .goto (.detail status)

/-- What follows an await, by how it ends; `none` if it cannot end that way.  That the sums on the way are in range
is not looked at here. -/
def control (cfg : StreamConfig) (s : Streaming) (t : ℤ) : StreamEvent → Option StreamEffect
  | .sent => if s.gone || s.room then afterSend (!s.gone) s.pc else none
  | .heartbeat =>
      -- a request that is not gated does not wait for a permit
      if s.pc = .permit ∧ cfg.gated = true ∨ s.pc = .slot then
        some (if s.room then .goto s.pc else .exitSending none "504")
      else none
  | .permit granted =>
      if s.pc = .permit ∧ (granted = true ∨ cfg.gated = true ∧ cfg.deadline < t + governorPoll) then
        some (if granted then .goto .slot else .exitSending none "504")
      else none
  | .slot granted =>
      if s.pc = .slot then some (if granted then .goto .upstream else .exitSending none "504") else none
  | .response status => if s.pc = .upstream then some (afterResponse cfg s t status) else none
  | .detail _ =>
      match s.pc with
      | .detail status =>
          some (if retryable status then .goto .retrying else .exitSending none (toString status))
      | _ => none
  | .chunk bytes => if s.pc = .reading then some (.push bytes) else none
  | .chunkError =>
      if s.pc = .reading then some (.exitSending (some .truncated) "stream_error") else none
  | .chunkEnd => if s.pc = .reading then some (.exit (some .completed) "200") else none
  | .stall =>
      if s.pc = .reading ∧ cfg.streamIdle ≠ 0 then some (.exitSending (some .truncated) "stall") else none
  | .closed =>
      if s.pc = .reading ∧ s.gone = true then some (.exit (some .disconnected) "disconnect") else none
  | .deadline =>
      if s.pc ≠ .done ∧ cfg.requestDeadline.any (fun d => decide (d ≤ t)) = true then
        some (.exit (some .deadline) "deadline")
      else none
  | .clientReads | .clientGone => none

/-- What a task adds to the clock before its next await.  Not listed are the seconds that the code itself fixes (a
quarter of one for `POLL`, five after a connection error), which any clock of a process has left. -/
def added (cfg : StreamConfig) (e : StreamEvent) : StreamEffect → List ℕ
  -- `next_heartbeat`, at the start of `acquire_model_permit` and after each of its heartbeats
  | .goto .permit | .restore => if cfg.gated then [cfg.heartbeat] else []
  -- `enter_cooldown`; a model whose workers are exhausted is left to the governor
  | .goto .retrying =>
      match e with
      | .detail (some backoff) => [backoff]
      | _ => []
  | _ => []

/-- `Instant + Duration` does not panic. -/
def inRange (t : ℤ) (d : ℕ) : Bool := decide (t + d < 2 ^ 63 * secs 1)

/-- What the task does after an await. -/
def react (cfg : StreamConfig) (s : Streaming) (t : ℤ) (e : StreamEvent) : Option StreamEffect :=
  (s.control cfg t e).map fun f => if (added cfg e f).all (inRange t) then f else .panic

/-- `finalize_sse_observer`, where an exit calls it: the observer is taken, if it is there. -/
def finalize (s : Streaming) : Option StreamOutcome → Streaming
  | none => s
  | some outcome =>
      { s with
        observer := none
        finalised := if s.observer.isSome then outcome :: s.finalised else s.finalised }

/-- The bookkeeping of an effect. -/
def apply (s : Streaming) : StreamEffect → Streaming
  | .goto pc => { s with pc }
  | .restore => { s with pc := .permit, fallback := false }
  | .start => { s with pc := .reading, observer := some [] }
  | .push bytes =>
      match s.observer with
      | some seen => { s with pc := .relaying, observer := some (seen ++ bytes) }
      -- `expect("stream observer initialized")`: the task would end with nothing recorded
      | none => { s with pc := .done }
  | .exit outcome status =>
      { s.finalize outcome with pc := .done, recorded := status :: s.recorded }
  | .exitSending outcome status =>
      { s.finalize outcome with pc := .lastFrame, recorded := status :: s.recorded }
  -- the observer goes with the task, and nobody finalises it
  | .finish | .panic => { s with pc := .done }

/-- The frames in the channel after an event of the task. -/
def frames (s : Streaming) : StreamEvent → ℕ
  | .sent | .heartbeat | .deadline => if s.room then s.queued + 1 else s.queued
  | _ => s.queued

/-- One event, at a clock reading that is not before the last one. -/
def step (cfg : StreamConfig) (s : Streaming) (x : StreamEvent × ℤ) : Option Streaming :=
  if s.now ≤ x.2 then
    match x.1 with
    | .clientReads => if 0 < s.queued then some { s with now := x.2, queued := s.queued - 1 } else none
    | .clientGone => some { s with now := x.2, gone := true }
    | e => (s.react cfg x.2 e).map fun f => { s.apply f with now := x.2, queued := s.frames e }
  else none

end Streaming

/-- Every interleaving of the steps of one streaming task, from the moment it is spawned. -/
def streamingSystem (cfg : StreamConfig) : System Streaming (StreamEvent × ℤ) :=
  .ofStep (fun s => ∃ now fallback, s = { now, fallback }) (Streaming.step cfg)

/-- The deadline does not fire while the last frame is being sent. -/
def DeadlineInTime (s : Streaming) (x : StreamEvent × ℤ) : Prop := x.1 = .deadline → s.pc ≠ .lastFrame

/-- Both conditions can be evaluated, so that a run can be checked against them. -/
instance (s : Streaming) (x : StreamEvent × ℤ) : Decidable (DeadlineInTime s x) :=
  inferInstanceAs (Decidable (x.1 = .deadline → s.pc ≠ .lastFrame))

/-- What the task is about to add to the clock does not take it past its last `Instant`. -/
def SumsInRange (cfg : StreamConfig) (s : Streaming) (x : StreamEvent × ℤ) : Prop :=
  ∀ f ∈ s.control cfg x.2 x.1, ∀ d ∈ Streaming.added cfg x.1 f, x.2 + d < 2 ^ 63 * secs 1

namespace Streaming

variable {cfg : StreamConfig} {s s' : Streaming} {t : ℤ} {e : StreamEvent} {f : StreamEffect}
  {x : StreamEvent × ℤ}

/-! ## What can follow an await

`control` is read by cases once, here.  What may follow an await depends on where the task stands (`Legal`); every
later proof is by the phase and by the effect, and none looks into `control` again. -/

/-- Which effects an await can have, by where the task stands and by how the await ends. -/
def Legal (pc : StreamPc) (e : StreamEvent) : StreamEffect → Prop
  | .goto pc' => pc.early = true ∧ pc'.early = true ∨ pc.relays = true ∧ pc' = .reading
  | .restore | .start | .exit none _ | .exitSending none _ => pc.early = true
  | .push _ => pc = .reading
  | .exit (some _) _ => pc.relays = true ∨ e = .deadline ∧ pc ≠ .done
  | .exitSending (some _) _ => pc.relays = true
  | .finish => e = .sent ∧ pc = .lastFrame
  | .panic => False

/-- An iteration that has sent its chunk goes on, or ends with the chunk it was told was the last. -/
theorem afterSend_legal {ok : Bool} {pc : StreamPc} (h : afterSend ok pc = some f) : Legal pc .sent f := by
  cases pc with
  | connecting => cases ok <;> cases h <;> simp [Legal, StreamPc.early]
  | retrying => cases ok <;> cases h <;> simp [Legal, StreamPc.early]
  | relaying => cases ok <;> cases h <;> simp [Legal, StreamPc.relays, StreamPc.early]
  | lastFrame =>
      cases h
      exact ⟨rfl, rfl⟩
  | _ => cases h

/-- The upstream's answer is relayed, retried, or ends the task; what it asks the task to wait is of no matter here. -/
theorem afterResponse_legal (cfg : StreamConfig) (s : Streaming) (t : ℤ) (status : Option ℕ) :
    Legal .upstream e (afterResponse cfg s t status) := by
  unfold afterResponse
  split
  · exact .inl ⟨rfl, rfl⟩
  · split
    · rfl
    · split
      · split
        · rfl
        · exact .inl ⟨rfl, rfl⟩
      · split
        · rfl
        · exact .inl ⟨rfl, rfl⟩

/-- **What the task may do, said once.** -/
theorem control_legal (h : control cfg s t e = some f) : Legal s.pc e f := by
  cases e with
  | sent =>
      simp only [control, Option.ite_none_right_eq_some] at h
      exact afterSend_legal h.2
  -- a heartbeat is sent while the task waits; where the channel is full, the task ends
  | heartbeat =>
      simp only [control, Option.ite_none_right_eq_some, Option.some.injEq] at h
      obtain ⟨hpc, rfl⟩ := h
      have hearly : s.pc.early = true := by
        rcases hpc with ⟨hp, -⟩ | hp
        · rw [hp]
          rfl
        · rw [hp]
          rfl
      split
      · exact .inl ⟨hearly, hearly⟩
      · exact hearly
  | permit granted =>
      simp only [control, Option.ite_none_right_eq_some, Option.some.injEq] at h
      obtain ⟨⟨hpc, -⟩, rfl⟩ := h
      rw [hpc]
      cases granted with
      | true => exact .inl ⟨rfl, rfl⟩
      | false => exact rfl
  | slot granted =>
      simp only [control, Option.ite_none_right_eq_some, Option.some.injEq] at h
      obtain ⟨hpc, rfl⟩ := h
      rw [hpc]
      cases granted with
      | true => exact .inl ⟨rfl, rfl⟩
      | false => exact rfl
  | response status =>
      simp only [control, Option.ite_none_right_eq_some, Option.some.injEq] at h
      obtain ⟨hpc, rfl⟩ := h
      rw [hpc]
      exact afterResponse_legal cfg s t status
  -- the body of an answer that is no stream: the backoff may be one that `Instant` cannot add
  | detail backoff =>
      cases hpc : s.pc with
      | detail status =>
          simp only [control, hpc, Option.some.injEq] at h
          subst h
          split
          · exact .inl ⟨rfl, rfl⟩
          · exact rfl
      | _ =>
          simp only [control, hpc] at h
          cases h
  -- from the first chunk on there is no attempt to come, so an end is an outcome
  | chunk bytes =>
      simp only [control, Option.ite_none_right_eq_some, Option.some.injEq] at h
      obtain ⟨hpc, rfl⟩ := h
      exact hpc
  | chunkError =>
      simp only [control, Option.ite_none_right_eq_some, Option.some.injEq] at h
      obtain ⟨hpc, rfl⟩ := h
      rw [hpc]
      rfl
  | chunkEnd =>
      simp only [control, Option.ite_none_right_eq_some, Option.some.injEq] at h
      obtain ⟨hpc, rfl⟩ := h
      rw [hpc]
      exact .inl rfl
  | stall =>
      simp only [control, Option.ite_none_right_eq_some, Option.some.injEq] at h
      obtain ⟨⟨hpc, -⟩, rfl⟩ := h
      rw [hpc]
      rfl
  | closed =>
      simp only [control, Option.ite_none_right_eq_some, Option.some.injEq] at h
      obtain ⟨⟨hpc, -⟩, rfl⟩ := h
      rw [hpc]
      exact .inl rfl
  -- the deadline can strike wherever the task is not done
  | deadline =>
      simp only [control, Option.ite_none_right_eq_some, Option.some.injEq] at h
      obtain ⟨⟨hpc, -⟩, rfl⟩ := h
      exact .inr ⟨rfl, hpc⟩
  | clientReads => cases h
  | clientGone => cases h

/-- Only a task that waits for its upstream adds to the clock. -/
theorem early_of_added (hlegal : Legal s.pc e f) (hadded : added cfg e f ≠ []) : s.pc.early = true := by
  cases f with
  | goto pc' =>
      rcases hlegal with ⟨hpc, -⟩ | ⟨-, rfl⟩
      · exact hpc
      · exact absurd rfl hadded
  | restore => exact hlegal
  | _ => exact absurd rfl hadded

/-- **What the task does, said once**: what `control` says, or it panics, and that in the early part. -/
theorem react_cases (h : react cfg s t e = some f) :
    SumsInRange cfg s (e, t) ∧ Legal s.pc e f ∨
    ¬ SumsInRange cfg s (e, t) ∧ s.pc.early = true ∧ f = .panic := by
  obtain ⟨f', hf', rfl⟩ := Option.map_eq_some_iff.mp h
  have hiff : SumsInRange cfg s (e, t) ↔ (added cfg e f').all (inRange t) = true := by
    simp only [SumsInRange, hf', Option.mem_some_iff, forall_eq', List.all_eq_true, inRange, decide_eq_true_eq]
  rw [hiff]
  by_cases hrange : (added cfg e f').all (inRange t) = true
  · rw [if_pos hrange]
    exact .inl ⟨hrange, control_legal hf'⟩
  · rw [if_neg hrange]
    have hadded : added cfg e f' ≠ [] := by
      intro hnil
      rw [hnil] at hrange
      exact hrange rfl
    exact .inr ⟨hrange, early_of_added (control_legal hf') hadded, rfl⟩

/-! ## The phases of a task

The invariant of the task.  Before the upstream stream begins there is no observer and nothing is recorded; while it
is relayed there is an observer that nobody has finalised; while the last frame is being sent, the outcome is
recorded; and a task that is over has recorded one outcome, or two, or, where a sum panicked, none. -/

/-- **`Phase s`** — what has been recorded, and who has the observer, by where the task stands. -/
inductive Phase (s : Streaming) : Prop
  | early (hpc : s.pc.early = true) (hobserver : s.observer = none) (hfinalised : s.finalised = [])
      (hrecorded : s.recorded = [])
  | relays (hpc : s.pc.relays = true) (hobserver : s.observer.isSome = true) (hfinalised : s.finalised = [])
      (hrecorded : s.recorded = [])
  | last (hpc : s.pc = .lastFrame) (hobserver : s.observer = none) (hfinalised : s.finalised.length ≤ 1)
      (hrecorded : s.recorded.length = 1)
  | done (hpc : s.pc = .done) (hfinalised : s.finalised.length ≤ 1)

/-- The constructors of `Phase` overlap in nothing but the place of the task, so the place gives back the facts. -/
theorem Phase.of_early (h : Phase s) (hpc : s.pc.early = true) :
    s.observer = none ∧ s.finalised = [] ∧ s.recorded = [] := by
  cases h with
  | early _ hobserver hfinalised hrecorded => exact ⟨hobserver, hfinalised, hrecorded⟩
  | relays hother => cases hs : s.pc <;> simp_all [StreamPc.early, StreamPc.relays]
  | last hother =>
      rw [hother] at hpc
      cases hpc
  | done hother =>
      rw [hother] at hpc
      cases hpc

theorem Phase.of_relays (h : Phase s) (hpc : s.pc.relays = true) :
    s.observer.isSome = true ∧ s.finalised = [] ∧ s.recorded = [] := by
  cases h with
  | early hother => cases hs : s.pc <;> simp_all [StreamPc.early, StreamPc.relays]
  | relays _ hobserver hfinalised hrecorded => exact ⟨hobserver, hfinalised, hrecorded⟩
  | last hother =>
      rw [hother] at hpc
      cases hpc
  | done hother =>
      rw [hother] at hpc
      cases hpc

theorem Phase.of_last (h : Phase s) (hpc : s.pc = .lastFrame) :
    s.observer = none ∧ s.finalised.length ≤ 1 ∧ s.recorded.length = 1 := by
  cases h with
  | early hother =>
      rw [hpc] at hother
      cases hother
  | relays hother =>
      rw [hpc] at hother
      cases hother
  | last _ hobserver hfinalised hrecorded => exact ⟨hobserver, hfinalised, hrecorded⟩
  | done hother =>
      rw [hpc] at hother
      cases hother

/-- However often an exit calls `finalize_sse_observer`, the observer it takes is there only once. -/
theorem Phase.finalised_le (h : Phase s) : s.finalised.length ≤ 1 := by
  cases h with
  | early _ _ hfinalised _ => simp [hfinalised]
  | relays _ _ hfinalised _ => simp [hfinalised]
  | last _ _ hfinalised _ => exact hfinalised
  | done _ hfinalised => exact hfinalised

/-- The observer is taken once: there is none after it has been finalised. -/
theorem Phase.finalize_le (h : Phase s) (hpc : s.pc ≠ .done) (outcome : Option StreamOutcome) :
    (s.finalize outcome).finalised.length ≤ 1 := by
  cases outcome with
  | none => exact h.finalised_le
  | some o =>
      show (if s.observer.isSome then o :: s.finalised else s.finalised).length ≤ 1
      split
      · rename_i hsome
        cases h with
        | early _ hobserver _ _ => simp [hobserver] at hsome
        | relays _ _ hfinalised _ => simp [hfinalised]
        | last _ hobserver _ _ => simp [hobserver] at hsome
        | done hdone _ => exact absurd hdone hpc
      · exact h.finalised_le

/-- The early part, the relay and the two last places are apart. -/
theorem ne_done_of_early {pc : StreamPc} (h : pc.early = true) : pc ≠ .done ∧ pc ≠ .lastFrame := by
  constructor <;> rintro rfl <;> cases h

theorem ne_done_of_relays {pc : StreamPc} (h : pc.relays = true) : pc ≠ .done ∧ pc ≠ .lastFrame := by
  constructor <;> rintro rfl <;> cases h

/-! ## One step

One event at a time: the client's change the channel only, and an effect of the task leads from phase to phase. The
deadline is an event like any other, so that it may come at every await. -/

/-- Every effect leads from a phase to a phase. -/
theorem phase_apply (h : Phase s) (hlegal : Legal s.pc e f) : Phase (s.apply f) := by
  cases f with
  | goto pc' =>
      -- within the early part, or on to the next chunk
      rcases hlegal with ⟨hpc, hpc'⟩ | ⟨hpc, rfl⟩
      · obtain ⟨hobserver, hfinalised, hrecorded⟩ := h.of_early hpc
        exact .early hpc' hobserver hfinalised hrecorded
      · obtain ⟨hobserver, hfinalised, hrecorded⟩ := h.of_relays hpc
        exact .relays rfl hobserver hfinalised hrecorded
  | restore =>
      obtain ⟨hobserver, hfinalised, hrecorded⟩ := h.of_early hlegal
      exact .early rfl hobserver hfinalised hrecorded
  | start =>
      obtain ⟨-, hfinalised, hrecorded⟩ := h.of_early hlegal
      exact .relays rfl rfl hfinalised hrecorded
  | push bytes =>
      have hrelays : s.pc.relays = true := by
        rw [show s.pc = .reading from hlegal]
        rfl
      obtain ⟨hobserver, hfinalised, hrecorded⟩ := h.of_relays hrelays
      obtain ⟨seen, hseen⟩ := Option.isSome_iff_exists.mp hobserver
      simp only [apply, hseen]
      exact .relays rfl rfl hfinalised hrecorded
  | exit outcome status =>
      have hpc : s.pc ≠ .done := by
        cases outcome with
        | none => exact (ne_done_of_early hlegal).1
        | some o =>
            rcases hlegal with hrelays | ⟨-, hne⟩
            · exact (ne_done_of_relays hrelays).1
            · exact hne
      exact .done rfl (h.finalize_le hpc outcome)
  | exitSending outcome status =>
      cases outcome with
      | none =>
          obtain ⟨hobserver, hfinalised, hrecorded⟩ := h.of_early hlegal
          refine .last rfl hobserver (h.finalize_le (ne_done_of_early hlegal).1 none) ?_
          show (status :: s.recorded).length = 1
          rw [hrecorded]
          rfl
      | some o =>
          obtain ⟨-, -, hrecorded⟩ := h.of_relays hlegal
          refine .last rfl rfl (h.finalize_le (ne_done_of_relays hlegal).1 (some o)) ?_
          show (status :: s.recorded).length = 1
          rw [hrecorded]
          rfl
  | finish =>
      -- the frame has gone out; its outcome was recorded before
      obtain ⟨-, hfinalised, -⟩ := h.of_last hlegal.2
      exact .done rfl hfinalised
  | panic => exact hlegal.elim

/-- **Exactly one outcome** when the task ends, and an observer that is finalised at most once. -/
def OneOutcome (s : Streaming) : Prop := (s.pc = .done → s.recorded.length = 1) ∧ s.finalised.length ≤ 1

/-- A task ends with one outcome, but for a deadline that fires after one has been recorded. -/
theorem outcome_apply_iff (h : Phase s) (hlegal : Legal s.pc e f) :
    ((s.apply f).pc = .done → (s.apply f).recorded.length = 1) ↔ (e = .deadline → s.pc ≠ .lastFrame) := by
  cases f with
  | goto pc' =>
      rcases hlegal with ⟨hpc, hpc'⟩ | ⟨hpc, rfl⟩
      · exact iff_of_true (fun hdone => absurd hdone (ne_done_of_early hpc').1) fun _ => (ne_done_of_early hpc).2
      · exact iff_of_true (fun hdone => by cases hdone) fun _ => (ne_done_of_relays hpc).2
  | restore => exact iff_of_true (fun hdone => by cases hdone) fun _ => (ne_done_of_early hlegal).2
  | start => exact iff_of_true (fun hdone => by cases hdone) fun _ => (ne_done_of_early hlegal).2
  | push bytes =>
      have hreading : s.pc = .reading := hlegal
      have hrelays : s.pc.relays = true := by
        rw [hreading]
        rfl
      obtain ⟨seen, hseen⟩ := Option.isSome_iff_exists.mp (h.of_relays hrelays).1
      refine iff_of_true ?_ fun _ => (ne_done_of_relays hrelays).2
      simp only [apply, hseen]
      intro hdone
      cases hdone
  | exit outcome status =>
      have hlength : (s.apply (.exit outcome status)).recorded.length = s.recorded.length + 1 := by
        cases outcome <;> rfl
      rw [hlength]
      cases outcome with
      | none =>
          obtain ⟨-, -, hrecorded⟩ := h.of_early hlegal
          refine iff_of_true (fun _ => by rw [hrecorded]; rfl) fun _ => (ne_done_of_early hlegal).2
      | some o =>
          cases h with
          | early hpc _ _ hrecorded =>
              exact iff_of_true (fun _ => by rw [hrecorded]; rfl) fun _ => (ne_done_of_early hpc).2
          | relays hpc _ _ hrecorded =>
              exact iff_of_true (fun _ => by rw [hrecorded]; rfl) fun _ => (ne_done_of_relays hpc).2
          | last hpc _ _ hrecorded =>
              -- only the deadline gets here, and there is an outcome already
              have hdeadline : e = .deadline := by
                rcases hlegal with hrelays | ⟨hdeadline, -⟩
                · exact absurd hpc (ne_done_of_relays hrelays).2
                · exact hdeadline
              refine iff_of_false (fun hone => ?_) fun hne => hne hdeadline hpc
              have htwo := hone rfl
              omega
          | done hpc _ =>
              -- a task that is over has no deadline
              rcases hlegal with hrelays | ⟨-, hne⟩
              · exact absurd hpc (ne_done_of_relays hrelays).1
              · exact absurd hpc hne
  | exitSending outcome status =>
      refine iff_of_true (fun hdone => by cases hdone) fun _ => ?_
      cases outcome with
      | none => exact (ne_done_of_early hlegal).2
      | some o => exact (ne_done_of_relays hlegal).2
  | finish =>
      obtain ⟨rfl, hpc⟩ := hlegal
      exact iff_of_true (fun _ => (h.of_last hpc).2.2) fun hdeadline => by cases hdeadline
  | panic => exact hlegal.elim

/-- **Every event, said once**: the client's, an effect of the task, or a panic. -/
theorem step_cases (h : s.step cfg x = some s') :
    (∃ queued gone, (x.1 = .clientReads ∨ x.1 = .clientGone) ∧ s' = { s with now := x.2, queued, gone }) ∨
    (∃ f queued, SumsInRange cfg s x ∧ Legal s.pc x.1 f ∧ s' = { s.apply f with now := x.2, queued }) ∨
    (∃ queued, ¬ SumsInRange cfg s x ∧ s.pc.early = true ∧ s' = { s with pc := .done, now := x.2, queued }) := by
  obtain ⟨e, t⟩ := x
  simp only [step, Option.ite_none_right_eq_some] at h
  obtain ⟨-, h⟩ := h
  have htask : (s.react cfg t e).map (fun f => { s.apply f with now := t, queued := s.frames e }) = some s' →
      (∃ f queued, SumsInRange cfg s (e, t) ∧ Legal s.pc e f ∧ s' = { s.apply f with now := t, queued }) ∨
      ∃ queued, ¬ SumsInRange cfg s (e, t) ∧ s.pc.early = true ∧ s' = { s with pc := .done, now := t, queued } := by
    intro hmap
    obtain ⟨f, hf, rfl⟩ := Option.map_eq_some_iff.mp hmap
    rcases react_cases hf with ⟨hrange, hlegal⟩ | ⟨hrange, hearly, rfl⟩
    · exact .inl ⟨f, s.frames e, hrange, hlegal, rfl⟩
    · exact .inr ⟨s.frames e, hrange, hearly, rfl⟩
  cases e with
  | clientReads =>
      simp only [Option.ite_none_right_eq_some, Option.some.injEq] at h
      exact .inl ⟨_, _, .inl rfl, h.2.symm⟩
  | clientGone =>
      obtain rfl := Option.some.inj h
      exact .inl ⟨_, _, .inr rfl, rfl⟩
  | _ => exact .inr (htask h)

/-- The phase does not depend on the channel. -/
theorem Phase.channel (h : Phase s) (now : ℤ) (queued : ℕ) (gone : Bool) :
    Phase { s with now, queued, gone } := by
  cases h with
  | early hpc hobserver hfinalised hrecorded => exact .early hpc hobserver hfinalised hrecorded
  | relays hpc hobserver hfinalised hrecorded => exact .relays hpc hobserver hfinalised hrecorded
  | last hpc hobserver hfinalised hrecorded => exact .last hpc hobserver hfinalised hrecorded
  | done hpc hfinalised => exact .done hpc hfinalised

/-- What `step_cases` says, for the phase. -/
theorem phase_step (h : Phase s) (hstep : s.step cfg x = some s') : Phase s' := by
  rcases step_cases hstep with ⟨queued, gone, -, rfl⟩ | ⟨f, queued, -, hlegal, rfl⟩ | ⟨queued, -, -, rfl⟩
  · exact h.channel _ _ _
  · exact (phase_apply h hlegal).channel x.2 queued (s.apply f).gone
  · exact .done rfl h.finalised_le

/-- The client's events put no durations on the clock. -/
theorem sumsInRange_of_client (hclient : x.1 = .clientReads ∨ x.1 = .clientGone) : SumsInRange cfg s x := by
  obtain ⟨e, t⟩ := x
  rintro f hf
  rcases hclient with rfl | rfl <;> cases hf

/-! ## Whole runs

The outcome of a run is known from its steps: the two conditions are on the state before a step, and a step that meets
both keeps the one outcome.  The converse holds too, as a deadline that is late or a sum that panics leaves a number
of outcomes that no later step repairs. -/

/-- **Exactly one outcome per streaming request.**  Along a run the task never ends with another number of outcomes
than one, and never finalises its observer twice, exactly if the deadline never fires during the send of the last
frame, and no duration that the task adds to the clock takes it out of its range. -/
theorem one_outcome_iff (cfg : StreamConfig) (now : ℤ) (fallback : Bool) (es : List (StreamEvent × ℤ))
    (s' : Streaming) :
    ((streamingSystem cfg).within OneOutcome).Run { now, fallback } es s' ↔
      ((streamingSystem cfg).restrict fun s x => DeadlineInTime s x ∧ SumsInRange cfg s x).Run
        { now, fallback } es s' := by
  refine System.Run.within_iff (K := Phase) (fun hphase hstep => phase_step hphase hstep) ?_
    (.early rfl rfl rfl rfl) ⟨fun hdone => (by cases hdone), Nat.zero_le 1⟩
  intro s x s' hphase hone hstep
  have hfinalised := (phase_step hphase hstep).finalised_le
  rcases step_cases hstep with
    ⟨queued, gone, hclient, rfl⟩ | ⟨f, queued, hrange, hlegal, rfl⟩ | ⟨queued, hrange, hearly, rfl⟩
  · refine iff_of_true hone ⟨fun hdeadline => ?_, sumsInRange_of_client hclient⟩
    rcases hclient with hx | hx
    · cases hdeadline.symm.trans hx
    · cases hdeadline.symm.trans hx
  · have hiff := outcome_apply_iff hphase hlegal
    exact ⟨fun hafter => ⟨hiff.mp hafter.1, hrange⟩, fun hcond => ⟨hiff.mpr hcond.1, hfinalised⟩⟩
  · -- a panic leaves the task without an outcome, for there was none in the early part
    refine iff_of_false (fun hafter => ?_) fun hcond => hrange hcond.2
    have hnone := (hphase.of_early hearly).2.2
    have hlength := hafter.1 rfl
    rw [hnone] at hlength
    cases hlength

/-- A heartbeat every five seconds, 300 seconds to wait for a slot, 100 seconds for the request. -/
def slowClient : StreamConfig where
  requestDeadline := some (secs 100)
  deadline := secs 300
  streamIdle := 0
  heartbeat := secs 5
  gated := true

/-- A run of a task, evaluated. -/
theorem reachable_of_events {now : ℤ} {events : List (StreamEvent × ℤ)} {recorded : List String}
    (h : (System.exec (step slowClient) { now, fallback := false } events).any (fun s =>
      decide (s.pc = .done) && decide (s.recorded = recorded)) = true) (hlength : recorded.length ≠ 1) :
    ∃ s, (streamingSystem slowClient).Reachable s ∧ s.pc = .done ∧ s.recorded = recorded ∧ ¬ OneOutcome s := by
  obtain ⟨s, hreach, hend⟩ := System.reachable_of_exec
    (show (streamingSystem slowClient).init { now, fallback := false } from ⟨now, false, rfl⟩) h
  simp only [Bool.and_eq_true, decide_eq_true_eq] at hend
  refine ⟨s, hreach, hend.1, hend.2, fun hone => ?_⟩
  have hrecorded := hone.1 hend.1
  rw [hend.2] at hrecorded
  exact hlength hrecorded

/-- **Two outcomes, or none.**  A client that reads nothing fills the channel; the wait for a permit gives up with a
504, whose error frame cannot go out, and the deadline records a second outcome.  And a 429 with the longest
`Retry-After` there is ends the task when it cools the lane. -/
theorem outcome_twice_or_never :
    (∃ s, (streamingSystem slowClient).Reachable s ∧ s.pc = .done ∧ s.recorded = ["deadline", "504"] ∧
      ¬ OneOutcome s) ∧
    ∃ s, (streamingSystem slowClient).Reachable s ∧ s.pc = .done ∧ s.recorded = [] ∧ ¬ OneOutcome s := by
  constructor
  · let heartbeats : List (StreamEvent × ℤ) :=
      (List.range 16).map fun i : ℕ => (StreamEvent.heartbeat, (secs (5 * (i + 1)) : ℤ))
    have hrun : (System.exec (step slowClient) { now := 0, fallback := false }
        ((StreamEvent.sent, 1) :: heartbeats ++ [(StreamEvent.deadline, (secs 100 : ℤ))])).any (fun s =>
          decide (s.pc = .done) && decide (s.recorded = ["deadline", "504"])) = true := by
      decide +kernel
    exact reachable_of_events hrun (by decide)
  · have hrun : (System.exec (step slowClient) { now := 0, fallback := false }
        [(.sent, 1), (.permit true, 2), (.slot true, 3), (.response (some 429), 4),
          (.detail (some (secs (2 ^ 64 - 1))), 5)]).any (fun s =>
            decide (s.pc = .done) && decide (s.recorded = [])) = true := by
      decide +kernel
    exact reachable_of_events hrun (by decide)

end Streaming

end Flock
