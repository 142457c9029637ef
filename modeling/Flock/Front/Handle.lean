/-
# Flock.Front.Handle — the entry point of `/v1/*`, with any number of requests in it.

`handle` is sequential code between the moments it touches what requests share: the setup flag, the published
settings, the counter of requests in flight, the table of model labels, the length of the pool, and the set of models
that have rejected the injected field.  `Handler` is where one request stands between two such moments, and
`Handler.step` is one of them with the local code behind it; the steps of different requests interleave freely, with
saves and with the end of the setup between them.

A guard is taken with the counter and dropped on every way out: by the handler itself, by whoever drops its future
when the client hangs up, by the unwinding of a panic, or by the task a stream runs in.

Everything that leaves the front door is written down (`Handed`): a use of the models cache, the catalogue request
behind it, a call of the router, an attempt of a stream.
-/
import Flock.Front.Request
import Flock.Lib.Transition

namespace Flock.Front

open Lib (System)

/-! ## What a handler says and sends -/

/-- The responses that end a request. -/
inductive Answer where
  | setupRequired
  | overloaded (maxInflight : ℕ)
  | unauthorized
  | invalidDeadline
  | deadlineExceeded
  /-- The head of an event stream. -/
  | eventStream
  /-- What came of the upstream, or of waiting for it. -/
  | relayed (status : ℕ)
  deriving DecidableEq

/-- The error envelope: status, code and message. -/
def Answer.error : Answer → Option (ℕ × String × String)
  | .setupRequired =>
      some (503, "setup_required",
        "first-time setup has not been completed; open the dashboard to create the superuser")
  | .overloaded maxInflight =>
      some (503, "overloaded",
        "proxy at capacity (" ++ toString maxInflight ++ " concurrent requests); retry shortly")
  | .unauthorized =>
      some (401, "unauthorized", "missing or invalid proxy API key (Authorization: Bearer ...)")
  | .invalidDeadline =>
      some (400, "invalid_deadline", "X-Nim-Proxy-Deadline-Ms must be one unsigned decimal millisecond value")
  | .deadlineExceeded => some (504, "deadline_exceeded", "proxy request deadline exceeded")
  | .eventStream | .relayed _ => none

/-- `upstream_request`: what an attempt of a stream sends. -/
structure Outgoing where
  method : String
  url : String
  authorization : String
  contentType : Option (List UInt8)
  accept : Option (List UInt8)
  /-- An empty body is left out. -/
  body : Option (List UInt8)
  deriving DecidableEq

def upstreamRequest (cfg : Config) (r : Request) (key : String) (body : List UInt8) : Outgoing where
  method := r.method
  url := cfg.baseUrl ++ r.pathQuery
  authorization := "Bearer " ++ key
  contentType := r.headers.get "content-type"
  accept := r.headers.get "accept"
  body := if body.isEmpty then none else some body

/-- What a handler hands on, to the models cache, to the upstream or to the router. -/
inductive Handed where
  /-- `models`: the request is answered from the cache, or waits to refresh it. -/
  | models
  /-- `fetch_models`, with the key of a slot. -/
  | catalogue (url key : String)
  /-- The fields of `ExecuteCtx` that come from the request. -/
  | execute (method pathQuery : String) (contentType accept : Option String) (body : List UInt8)
      (model session : String) (prefer : Option ℕ)
  /-- An attempt of a stream, under the label of its model. -/
  | attempt (model : String) (request : Outgoing)
  deriving DecidableEq

/-! ## One request -/

/-- A request that was let in: the settings it read, what it made of the counter, its client, its deadline. -/
structure Work where
  request : Request
  cfg : Config
  rank : ℕ
  client : String
  deadline : Option Instant

/-- Where a request stands. -/
inductive Handler where
  | arrived (r : Request) (accepted : Instant)
  | configured (r : Request) (accepted : Instant) (cfg : Config)
  | counted (r : Request) (accepted : Instant) (cfg : Config) (rank : ℕ)
  /-- The quarter of a second before a 401. -/
  | sleeping (rank : ℕ)
  | admitted (w : Work)
  | labelled (w : Work) (model : String)
  | hinted (w : Work) (model : String) (prefer : Option ℕ)
  | models (w : Work)
  | buffered (w : Work)
  /-- The task of a stream: the body it sends, the body kept for a retry, and whether an attempt is out. -/
  | streaming (w : Work) (model : String) (body : List UInt8) (fallback : Option (List UInt8)) (attempt : Bool)
  /-- The guard is about to be dropped. -/
  | leaving (rank : ℕ) (answer : Option Answer)

/-- What requests share. -/
structure Shared where
  setupRequired : Bool
  cfg : Config
  /-- The length of the serving pool. -/
  lanes : ℕ
  inflight : ℕ := 0
  labels : Finset String := ∅
  noInject : Finset String := ∅

/-- The moments of one request. -/
inductive Touch where
  /-- `state.cfg()` -/
  | read
  /-- `inflight.fetch_add` -/
  | enter
  | decide
  /-- the 250 ms are over -/
  | wake
  /-- `label_model` -/
  | label
  /-- `state.pool().len()` -/
  | hint
  /-- the lock of `no_inject`, and the branch into one of the three paths -/
  | route
  /-- a request goes upstream with this key -/
  | send (key : String)
  /-- a connection error or a retryable status -/
  | retry
  /-- a 400 while the untouched body is kept -/
  | reject
  | finish (status : ℕ)
  /-- the request deadline -/
  | expire
  /-- the client hangs up while the handler awaits -/
  | hangUp
  /-- a sum past the end of the clock (a `max_wait` or a `Retry-After` of that size), or a catalogue that cannot be
  merged -/
  | panic
  /-- the guard is dropped -/
  | leave
  deriving DecidableEq

/-- What a moment does. -/
structure Effect where
  shared : Shared
  next : Option Handler
  answer : Option Answer := none
  handed : Option (Work × Handed) := none

section Step

variable {ν : Type} (json : BodyCodec ν) (sha256Hex : String → String) (hash : List String → UInt64)
  (render : Json ν → String)

/-- The local code behind `fetch_add`: load is shed, the client is looked up, the deadline is read. -/
def judge (r : Request) (accepted : Instant) (cfg : Config) (rank : ℕ) : Handler :=
  if cfg.maxInflight < rank then .leaving rank (some (.overloaded cfg.maxInflight))
  else
    match clientOf sha256Hex cfg.clients r.headers with
    | none => .sleeping rank
    | some client =>
        match parseRequestDeadline r.headers accepted with
        | .error _ => .leaving rank (some .invalidDeadline)
        | .ok deadline => .admitted ⟨r, cfg, rank, client, deadline⟩

/-- The sticky-lane hint of a body; `none`: the remainder panics. -/
def hint (r : Request) (lanes : ℕ) : Option (Option ℕ) :=
  match json.fromSlice r.body with
  | none => some none
  | some v => (affinity hash render v lanes).toOption

/-- The hand-over of `buffered`. -/
def execute (w : Work) (prefer : Option ℕ) : Handed :=
  .execute w.request.method w.request.pathQuery ((w.request.headers.get "content-type").bind headerText)
    ((w.request.headers.get "accept").bind headerText) w.request.body (w.request.rawModel json)
    (w.client ++ ":" ++ w.request.rawModel json) prefer

/-- One moment of a request. -/
def Handler.step (sh : Shared) : Handler → Touch → Option Effect
  | .arrived r accepted, .read => some { shared := sh, next := some (.configured r accepted sh.cfg) }
  | .configured r accepted cfg, .enter =>
      some
        { shared := { sh with inflight := sh.inflight + 1 }
          next := some (.counted r accepted cfg (sh.inflight + 1)) }
  | .counted r accepted cfg rank, .decide =>
      some { shared := sh, next := some (judge sha256Hex r accepted cfg rank) }
  | .sleeping rank, .wake => some { shared := sh, next := some (.leaving rank (some .unauthorized)) }
  | .sleeping rank, .hangUp => some { shared := sh, next := some (.leaving rank none) }
  | .admitted w, .label =>
      let labelled := labelModel sh.labels (w.request.rawModel json)
      some { shared := { sh with labels := labelled.2 }, next := some (.labelled w labelled.1) }
  | .labelled w model, .hint =>
      if w.request.isCatalogProbe then
        some { shared := sh, next := some (.models w), handed := some (w, .models) }
      else
        match Front.hint json hash render w.request sh.lanes with
        | none => some { shared := sh, next := some (.leaving w.rank none) }
        | some prefer => some { shared := sh, next := some (.hinted w model prefer) }
  | .hinted w model prefer, .route =>
      if w.request.wantsStream json then
        match w.request.inject json w.cfg.strictPassthrough sh.noInject model with
        | none => some { shared := sh, next := some (.leaving w.rank none) }
        | some (body, fallback) =>
            -- the guard moves into the task, and the client has its response
            some
              { shared := sh, next := some (.streaming w model body fallback false)
                answer := some .eventStream }
      else some { shared := sh, next := some (.buffered w), handed := some (w, execute json w prefer) }
  -- `wait_deadline`, on the way into the stream or the router
  | .hinted w _ _, .panic => some { shared := sh, next := some (.leaving w.rank none) }
  | .models w, .send key =>
      some
        { shared := sh, next := some (.models w)
          handed := some (w, .catalogue (w.cfg.baseUrl ++ "/v1/models") key) }
  | .models w, .finish status => some { shared := sh, next := some (.leaving w.rank (some (.relayed status))) }
  | .models w, .expire =>
      if w.deadline.isSome then
        some { shared := sh, next := some (.leaving w.rank (some .deadlineExceeded)) }
      else none
  | .models w, .hangUp | .models w, .panic => some { shared := sh, next := some (.leaving w.rank none) }
  | .buffered w, .finish status => some { shared := sh, next := some (.leaving w.rank (some (.relayed status))) }
  | .buffered w, .expire =>
      if w.deadline.isSome then
        some { shared := sh, next := some (.leaving w.rank (some .deadlineExceeded)) }
      else none
  | .buffered w, .hangUp | .buffered w, .panic => some { shared := sh, next := some (.leaving w.rank none) }
  | .streaming w model body fallback false, .send key =>
      some
        { shared := sh, next := some (.streaming w model body fallback true)
          handed := some (w, .attempt model (upstreamRequest w.cfg w.request key body)) }
  | .streaming w model body fallback true, .retry =>
      some { shared := sh, next := some (.streaming w model body fallback false) }
  | .streaming w model _ (some fallback) true, .reject =>
      some
        { shared := { sh with noInject := insert model sh.noInject }
          next := some (.streaming w model fallback none false) }
  -- the task ends, whatever ended it: its client has had the response
  | .streaming w _ _ _ _, .finish _ => some { shared := sh, next := some (.leaving w.rank none) }
  | .streaming w _ _ _ _, .expire =>
      if w.deadline.isSome then some { shared := sh, next := some (.leaving w.rank none) } else none
  | .leaving _ answer, .leave =>
      some { shared := { sh with inflight := sh.inflight - 1 }, next := none, answer := answer }
  | _, _ => none

/-! ## The process -/

/-- The requests inside, by number of arrival, the answers that were given, and what was handed on, newest first. -/
structure FrontState where
  shared : Shared
  arrivals : ℕ := 0
  handlers : ℕ → Option Handler := fun _ => none
  answers : List (ℕ × Answer) := []
  handed : List (ℕ × Work × Handed) := []

inductive FrontEvent where
  /-- `setup_required.store(false)` -/
  | claim
  /-- a settings save publishes its configuration -/
  | publish (cfg : Config)
  /-- and rebuilds the pool -/
  | resize (lanes : ℕ)
  | arrive (r : Request) (accepted : Instant)
  | touch (id : ℕ) (e : Touch)

namespace FrontState

/-- What one moment of a request leaves behind. -/
def apply (s : FrontState) (id : ℕ) (f : Effect) : FrontState :=
  { s with
    shared := f.shared
    handlers := Function.update s.handlers id f.next
    answers := f.answer.toList.map (fun a => (id, a)) ++ s.answers
    handed := f.handed.toList.map (fun h => (id, h)) ++ s.handed }

/-- A request comes in. -/
def receive (s : FrontState) (r : Request) (accepted : Instant) : FrontState :=
  { s with
    arrivals := s.arrivals + 1
    handlers := Function.update s.handlers s.arrivals (some (.arrived r accepted)) }

@[simp] theorem handlers_receive_self (s : FrontState) (r : Request) (accepted : Instant) :
    (s.receive r accepted).handlers s.arrivals = some (.arrived r accepted) := Function.update_self ..

theorem handlers_receive_of_ne {s : FrontState} {id : ℕ} (h : id ≠ s.arrivals) (r : Request) (accepted : Instant) :
    (s.receive r accepted).handlers id = s.handlers id := Function.update_of_ne h ..

@[simp] theorem handlers_apply_self (s : FrontState) (id : ℕ) (f : Effect) :
    (s.apply id f).handlers id = f.next := Function.update_self ..

theorem handlers_apply_of_ne {id id' : ℕ} (h : id' ≠ id) (s : FrontState) (f : Effect) :
    (s.apply id f).handlers id' = s.handlers id' := Function.update_of_ne h ..

/-- One step of the process; who comes before the claim is turned away uncounted. -/
def step (s : FrontState) : FrontEvent → Option FrontState
  | .claim => some { s with shared := { s.shared with setupRequired := false } }
  | .publish cfg => some { s with shared := { s.shared with cfg := cfg } }
  | .resize lanes => some { s with shared := { s.shared with lanes := lanes } }
  | .arrive r accepted =>
      if s.shared.setupRequired then
        some { s with arrivals := s.arrivals + 1, answers := (s.arrivals, .setupRequired) :: s.answers }
      else some (s.receive r accepted)
  | .touch id e =>
      (s.handlers id).bind fun h => (h.step json sha256Hex hash render s.shared e).map (s.apply id)

end FrontState

/-- The runs of a process, from its boot. -/
def frontSystem : System FrontState FrontEvent :=
  .ofStep (fun s => ∃ setupRequired cfg lanes, s = { shared := ⟨setupRequired, cfg, lanes, 0, ∅, ∅⟩ })
    (FrontState.step json sha256Hex hash render)

end Step

end Flock.Front
