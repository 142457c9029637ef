/-
# Flock.Router.Acquire — how one attempt on a candidate passes the gates.

The model of `acquire` and `admit_model` in `router.rs`, and of what the dispatcher's task does for the one waiter
that `acquire` puts in its queue.  The breaker, the buckets, the governor and the pool are shared with every other
request, so each gate finds a state of its own: `Gates` holds what one call finds, in the order it asks, with the
readings of the clock.  A call whose rounds run out is still waiting.

Counters are not part of the model.
-/
import Flock.Coalescer.Merge
import Flock.RateLimit
import Flock.Router.Outcomes
import Flock.Router.Select
import Flock.Streaming

namespace Flock

/-! ## The gates -/

/-- `RouteError`. -/
inductive RouteError where
  /-- No provider could serve: every candidate failed or was gated. -/
  | unavailable (reason : String)
  /-- A provider was chosen but its token bucket was dry. -/
  | rateLimited (provider : String)
  /-- The request waited past its deadline for a slot or permit. -/
  | deadline
  /-- The client went away while queued. -/
  | clientGone
  deriving DecidableEq, Repr

/-- The status of the answer that `buffered` makes of it. -/
def RouteError.httpStatus : RouteError → ℕ
  | .deadline => 504
  | .clientGone | .rateLimited _ | .unavailable _ => 502

/-- `AcquireCtx`; whether the client is gone is an answer of the rounds. -/
structure AcquireCtx where
  deadline : ℤ
  heartbeat : ℕ
  gatedPath : Bool
  preferLane : Option ℕ
  session : Option String

/-- A round of the wait for a permit: the governor that is asked, and the readings of the clock. -/
structure PermitRound where
  governor : Governor
  admitAt : ℤ
  /-- the reading before the sleep -/
  checkedAt : ℤ
  /-- the reading after it -/
  wokeAt : ℤ
  clientGone : Bool := false
  /-- the reading that the next heartbeat counts from -/
  beatAt : ℤ := wokeAt

/-- A round of the dispatcher's task for the waiter, or the client going away meanwhile. -/
inductive SlotRound where
  /-- the pool that the handle holds, which is generation `gen` of it -/
  | reserve (gen : ℕ) (pool : Pool) (now checkedAt : ℤ)
  | clientGone

/-- What one call of `acquire` finds. -/
structure Gates where
  /-- The runtime of the provider, by its pool handle; `none` where it is not registered. -/
  runtime : Option ℕ
  circuit : CircuitBreaker
  circuitAt : ℤ
  limiter : ProviderRateLimiter
  limiterAt : ℤ
  governorEnabled : Bool
  governorOverride : Option ℕ
  permitAt : ℤ
  permits : List PermitRound
  slots : List SlotRound
  baseUrl : String

namespace AcquireCtx

/-- The loop of `admit_model`. -/
def pollPermit (ctx : AcquireCtx) (model : String) (pinned : Option ℕ) (nextHeartbeat : ℤ) :
    List PermitRound → Option (Except RouteError Unit)
  | [] => none
  | r :: rest =>
      if (r.governor.admitAt model pinned r.admitAt).1 then some (.ok ())
      else if r.checkedAt + governorPoll > ctx.deadline then some (.error .deadline)
      else if r.wokeAt ≥ nextHeartbeat then
        if r.clientGone then some (.error .clientGone)
        else ctx.pollPermit model pinned (r.beatAt + ctx.heartbeat) rest
      else ctx.pollPermit model pinned nextHeartbeat rest

/-- `admit_model`: a path that is not gated needs no permit. -/
def admitModel (ctx : AcquireCtx) (model : String) (g : Gates) : Option (Except RouteError Unit) :=
  if g.governorEnabled && model != "none" && ctx.gatedPath then
    ctx.pollPermit model g.governorOverride (g.permitAt + ctx.heartbeat) g.permits
  else some (.ok ())

/-- What comes back from the dispatcher: the generation, the lane and the key of the slot.  A reply that is dropped
is the caller's `Deadline`. -/
def awaitSlot (ctx : AcquireCtx) : List SlotRound → Option (Except RouteError (ℕ × ℕ × String))
  | [] => none
  | .clientGone :: _ => some (.error .clientGone)
  | .reserve gen pool now checkedAt :: rest =>
      match (pool.reserve now ctx.preferLane).2 with
      | .ready lane key _ _ => some (.ok (gen, lane, key))
      | .wait wait => if checkedAt + wait > ctx.deadline then some (.error .deadline) else ctx.awaitSlot rest

/-- `acquire`: what it returns, with the target of the attempt. -/
def acquire (ctx : AcquireCtx) (candidate : RouteCandidate) (g : Gates) :
    Option (Except RouteError (Acquired × Target)) :=
  match g.runtime with
  | none => some (.error (.unavailable ("unknown provider " ++ candidate.provider)))
  | some handle =>
      if (g.circuit.allow g.circuitAt).1 = false then
        some (.error (.unavailable ("circuit open for " ++ candidate.provider)))
      else if (g.limiter.allow candidate.provider g.limiterAt).1 = false then
        some (.error (.rateLimited candidate.provider))
      else
        match ctx.admitModel candidate.model g with
        | none => none
        | some (.error e) => some (.error e)
        | some (.ok ()) =>
            match ctx.awaitSlot g.slots with
            | none => none
            | some (.error e) => some (.error e)
            | some (.ok (gen, lane, key)) =>
                some (.ok (⟨candidate.provider, candidate.model, candidate.strategy, handle, gen, lane, ctx.session⟩,
                  ⟨g.baseUrl, candidate.model, key⟩))

variable {ctx : AcquireCtx} {candidate : RouteCandidate} {g : Gates}

/-- What `acquire` returns carries the candidate's own names. -/
theorem acquire_ok {acq : Acquired} {target : Target} (h : ctx.acquire candidate g = some (.ok (acq, target))) :
    acq.provider = candidate.provider ∧ acq.model = candidate.model ∧ target.model = acq.model := by
  unfold acquire at h
  split at h
  · cases h
  · split at h
    · cases h
    · split at h
      · cases h
      · split at h
        · cases h
        · cases h
        · split at h
          · cases h
          · cases h
          · cases h
            exact ⟨rfl, rfl, rfl⟩

end AcquireCtx

end Flock
