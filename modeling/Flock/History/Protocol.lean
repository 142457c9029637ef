/-
# Flock.History.Protocol — appends, retention changes and compactions, one atomic step at a time.

`days`, the cutoff, the generation and the pending and running flags are separate variables.  An append
reads `days` under the index lock and may ask for a compaction much later; a retention change stores
`days` first and asks afterwards; asking stores the cutoff, bumps the generation and sets the pending
flag under the control lock; whoever wins the running flag loads the generation and then the cutoff,
prepares a replacement off-lock, and renames it only if the control lock shows the same generation.
Each of these is one step of a thread, and any interleaving is a run.

The thread that wins the running flag spawns the compaction and returns; here it goes on as the
compaction.  What the index prunes and what the file system answers is the environment's choice.

Ghosts: which call wrote the cutoff, whether a cutoff waits for its generation, and the renames.
-/
import Flock.Lib.Transition

namespace Flock.Retention

open Lib (System)

/-- `COMPACT_AFTER_EXPIRED_SAMPLES`. -/
def compactAfterExpiredSamples : ℕ := 288

/-- Seconds in a day. -/
def daySecs : ℕ := 86400

/-- A call that may ask for a compaction: its time, and the retention it goes by. -/
structure Issue where
  t : ℕ
  days : ℕ
  deriving DecidableEq, Repr

/-- `t.saturating_sub(days.saturating_mul(86_400))`. -/
def Issue.cutoff (i : Issue) : ℕ := i.t - i.days * daySecs

/-- What a compaction was spawned with. -/
structure Job where
  generation : ℕ
  cutoff : ℕ
  claimedDrops : ℕ
  /-- Ghost: the call that wrote the cutoff. -/
  writer : Option Issue
  deriving DecidableEq, Repr

/-- How `compact_if_authorized` came out. -/
inductive Outcome where
  | durable
  | syncPending
  | deferred
  | superseded
  | failed
  deriving DecidableEq, Repr

/-- Where a thread stands: what it does next. -/
inductive Pc where
  -- `append`, once the index is updated
  | loadPending (i : Issue)
  | loadDropped (i : Issue)
  -- `reconfigure_retention` with days above 0, once `days` is stored
  | prune (i : Issue) (raised : Bool)
  -- `reconfigure_retention` with 0 days
  | disable
  | disableStore
  | disableBump
  | disableMark (generation : ℕ)
  | disableUnlock
  -- `request_compaction`
  | request (i : Issue) (raised : Bool)
  | storeCutoff (i : Issue) (raised : Bool)
  | bump
  | mark (generation : ℕ)
  | unlock
  -- `start_pending_compaction`
  | start
  | claimRunning
  | loadGeneration
  | loadCutoff (generation : ℕ)
  | loadClaimed (generation cutoff : ℕ) (writer : Option Issue)
  -- the compaction
  | prepare (job : Job)
  | authorize (job : Job)
  | rename (job : Job) (days : ℕ)
  | sync (job : Job)
  | claimDrops (job : Job)
  | checkGeneration (job : Job)
  | clearPending (job : Job)
  | recheckGeneration (job : Job)
  | recheckDays (job : Job)
  | rearm (job : Job)
  | release (job : Job) (outcome : Outcome)
  | newerGeneration (job : Job)
  | newerDays
  | newerPending
  | restart
  | done
  deriving DecidableEq, Repr

/-- Ghost: a rename of a replacement over the canonical file. -/
structure Rename where
  cutoff : ℕ
  issue : Issue
  /-- The retention in force when the compaction was authorised. -/
  days : ℕ
  deriving DecidableEq, Repr

/-- The shared variables. -/
structure Vars where
  days : ℕ
  pending : Bool
  running : Bool
  cutoff : ℕ
  generation : ℕ
  /-- Who holds the control lock. -/
  control : Option ℕ
  controlGeneration : ℕ
  droppedSinceCompact : ℕ
  /-- Ghost: the call that wrote `cutoff`. -/
  writer : Option Issue
  /-- Ghost: `cutoff` is written and its generation is not bumped yet. -/
  midway : Bool
  deriving DecidableEq, Repr

/-- What the environment decides in a step. -/
structure Choice where
  /-- Points that fall out of the index. -/
  pruned : ℕ := 0
  /-- How the preparation comes out, if it does not succeed. -/
  stopped : Option Outcome := none
  /-- Whether a file operation succeeds. -/
  ok : Bool := true
  deriving DecidableEq, Repr

namespace Vars

variable (v : Vars)

/-- The test of the authorisation closure, under the control lock. -/
def authorizes (job : Job) : Bool :=
  v.controlGeneration == job.generation && v.generation == job.generation && v.pending &&
    decide (0 < v.days)

/-- One step of thread `id`. -/
def move (id : ℕ) (pc : Pc) (choice : Choice) : Option (Vars × Pc) :=
  match pc with
  | .loadPending i => some (v, if v.pending then .request i false else .loadDropped i)
  | .loadDropped i =>
      some (v, if v.droppedSinceCompact > compactAfterExpiredSamples then .request i false else .done)
  | .prune i raised =>
      some ({ v with droppedSinceCompact := v.droppedSinceCompact + choice.pruned },
        .request i raised)
  | .disable =>
      if v.control = none then some ({ v with control := some id }, .disableStore) else none
  | .disableStore => some ({ v with days := 0 }, .disableBump)
  | .disableBump =>
      some ({ v with generation := v.generation + 1 }, .disableMark (v.generation + 1))
  | .disableMark g => some ({ v with controlGeneration := g, pending := false }, .disableUnlock)
  | .disableUnlock => some ({ v with control := none }, .done)
  | .request i raised =>
      if v.control = none then some ({ v with control := some id }, .storeCutoff i raised) else none
  | .storeCutoff i _ =>
      some ({ v with cutoff := i.cutoff, writer := some i, midway := true }, .bump)
  | .bump =>
      some ({ v with generation := v.generation + 1, midway := false }, .mark (v.generation + 1))
  | .mark g => some ({ v with controlGeneration := g, pending := true }, .unlock)
  | .unlock => some ({ v with control := none }, .start)
  | .start => some (v, if v.pending then .claimRunning else .done)
  | .claimRunning =>
      if v.running then some (v, .done) else some ({ v with running := true }, .loadGeneration)
  | .loadGeneration => some (v, .loadCutoff v.generation)
  | .loadCutoff g => some (v, .loadClaimed g v.cutoff v.writer)
  | .loadClaimed g c w => some (v, .prepare ⟨g, c, v.droppedSinceCompact, w⟩)
  | .prepare job =>
      some (v, match choice.stopped with
        | some outcome => .release job outcome
        | none => .authorize job)
  | .authorize job =>
      if v.control = none then
        if v.authorizes job then some ({ v with control := some id }, .rename job v.days)
        else some (v, .release job .superseded)
      else none
  | .rename job _ =>
      some ({ v with control := none }, if choice.ok then .sync job else .release job .failed)
  | .sync job => some (v, if choice.ok then .claimDrops job else .release job .syncPending)
  | .claimDrops job =>
      some ({ v with droppedSinceCompact := v.droppedSinceCompact - job.claimedDrops },
        .checkGeneration job)
  | .checkGeneration job =>
      some (v, if v.generation = job.generation then .clearPending job else .release job .durable)
  | .clearPending job => some ({ v with pending := false }, .recheckGeneration job)
  | .recheckGeneration job =>
      some (v, if v.generation = job.generation then .release job .durable else .recheckDays job)
  | .recheckDays job => some (v, if 0 < v.days then .rearm job else .release job .durable)
  | .rearm job => some ({ v with pending := true }, .release job .durable)
  | .release job outcome =>
      some ({ v with running := false },
        match outcome with
        | .durable | .superseded => .restart
        | .syncPending => .newerGeneration job
        | .deferred | .failed => .done)
  | .newerGeneration job =>
      some (v, if v.generation = job.generation then .done else .newerDays)
  | .newerDays => some (v, if 0 < v.days then .newerPending else .done)
  | .newerPending => some (v, if v.pending then .restart else .done)
  | .restart => some (v, if v.pending then .start else .done)
  | .done => none

end Vars

/-- The shared variables, the threads by number, and the renames so far. -/
structure State where
  vars : Vars
  threads : List Pc
  /-- Ghost: newest first. -/
  renames : List Rename

/-- A new call, or a step of a thread. -/
inductive Event where
  /-- `append` at `t`, where the newest stored or indexed sample is at `newest`. -/
  | append (t newest pruned : ℕ)
  | reconfigureRetention (days now : ℕ)
  | run (id : ℕ) (choice : Choice)

namespace State

variable (s : State)

/-- A new thread. -/
def spawn (v : Vars) (pc : Pc) : State := { s with vars := v, threads := s.threads ++ [pc] }

/-- `append` up to the point where the index lock is released: the time is moved up to the newest
sample, `days` is read, expired points are dropped. -/
def append (t newest pruned : ℕ) : State :=
  let i : Issue := ⟨max t newest, s.vars.days⟩
  if 0 < i.days then
    s.spawn { s.vars with droppedSinceCompact := s.vars.droppedSinceCompact + pruned }
      (.loadPending i)
  else s.spawn s.vars .done

/-- The first step of `reconfigure_retention`. -/
def reconfigureRetention (days now : ℕ) : State :=
  if days = 0 then s.spawn s.vars .disable
  else s.spawn { s.vars with days := days } (.prune ⟨now, days⟩ (decide (s.vars.days < days)))

/-- What a step adds to the renames. -/
def renamed (pc : Pc) (choice : Choice) : List Rename :=
  match pc with
  | .rename job days =>
      if choice.ok then job.writer.toList.map fun i => ⟨job.cutoff, i, days⟩ else []
  | _ => []

/-- One event. -/
def step : Event → Option State
  | .append t newest pruned => some (s.append t newest pruned)
  | .reconfigureRetention days now => some (s.reconfigureRetention days now)
  | .run id choice =>
      (s.threads[id]?).bind fun pc =>
        (s.vars.move id pc choice).map fun (v, pc') =>
          ⟨v, s.threads.set id pc', renamed pc choice ++ s.renames⟩

end State

/-- After `History::open`: the retention of the store, and whether the file needs a compaction. -/
def openState (days cutoff : ℕ) (pending : Bool) : State where
  vars :=
    { days, pending, running := false, cutoff, generation := if pending then 1 else 0,
      control := none, controlGeneration := if pending then 1 else 0, droppedSinceCompact := 0,
      writer := none, midway := false }
  threads := []
  renames := []

/-- Runs from any `History::open`. -/
def system : System State Event :=
  .ofStep (fun s => ∃ days cutoff pending, s = openState days cutoff pending) State.step

end Flock.Retention
