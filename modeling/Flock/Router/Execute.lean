/-
# Flock.Router.Execute — one buffered request across the candidates.

The model of `execute_buffered`.  A call cycles over its candidates; a turn of the loop reads the clock, acquires an
attempt and sends it, and `Turn` holds what the turn finds: the gates, the upstream's reply, and the readings that
the outcome is recorded with.  `step` is one turn, so a run of a call is a list of turns, and the call has returned
once `result` is there.

Two logs are kept of a run: the attempts that were acquired, with the replies they got, and the calls of
`finish_success` and `finish_failure`.  The reader of JSON is a parameter.
-/
import Flock.Router.Acquire

namespace Flock

open Lib (System)

variable {ν : Type}

/-! ## What a body is -/

/-- A `message` or a `delta` that carries generated content. -/
def partHasSubstance (part : Json ν) : Bool :=
  ((part.get "tool_calls").bind Json.asArray).any (fun calls => !calls.isEmpty) ||
    ((part.get "content").bind Json.asStr).any fun s => !Text.isEmpty (Text.trim s)

/-- `has_substance`: a body without a `choices` envelope is no chat completion, and passes. -/
def hasSubstance (json : BodyCodec ν) (body : List UInt8) : Bool :=
  match json.fromSlice body with
  | none => true
  | some value =>
      match (value.get "choices").bind Json.asArray with
      | none => true
      | some choices =>
          choices.any fun choice =>
            ((choice.get "message").toList ++ (choice.get "delta").toList).any partHasSubstance

/-- `is_chat_completions_path`: the path, without its query and its fragment. -/
def isChatCompletionsPath (pathQuery : String) : Bool :=
  let path := pathQuery.toList.takeWhile fun c => c != '?' && c != '#'
  path == "/v1/chat/completions".toList || "/chat/completions".toList.isSuffixOf path

/-- `is_worker_exhausted`. -/
def isWorkerExhausted (body : String) : Bool :=
  body.toList.tails.any "Worker local total request limit".toList.isPrefixOf

/-- What the substance guard inspects: a 2xx on a chat-completions path. -/
def guarded (path : String) (status : ℕ) : Bool :=
  decide (200 ≤ status) && decide (status < 300) && isChatCompletionsPath path

/-! ## A turn -/

/-- The head of an upstream response, and what its body turns out to be. -/
structure UpstreamResponse where
  status : ℕ
  contentType : Option String
  /-- `Retry-After`, where it is text. -/
  retryAfter : Option String
  /-- `text()`; `none` where the read fails -/
  text : Option String
  /-- `bytes()`; `none` where the read fails -/
  bytes : Option (List UInt8)
  /-- A `StatusCode` has three digits. -/
  valid : 100 ≤ status ∧ status < 1000
  deriving DecidableEq

/-- How a `send` ends. -/
inductive UpstreamReply where
  | connectError (e : String)
  | response (r : UpstreamResponse)
  deriving DecidableEq

/-- What one turn of the loop finds. -/
structure Turn where
  /-- The reading at the head of the loop. -/
  now : ℤ
  gates : Gates
  reply : UpstreamReply
  /-- The readings of `finish_success` and `finish_failure`. -/
  latencyMs : ℚ
  recordedAt : ℤ
  recordedUnix : ℕ

/-- `ExecuteOutcome`. -/
inductive ExecuteOutcome where
  | response (r : UpstreamResponse)
  | buffered (status : ℕ) (contentType : String) (body : List UInt8)
  | coalesced (shared : SharedResponse)
  deriving DecidableEq

namespace ExecuteOutcome

def status : ExecuteOutcome → ℕ
  | .response r => r.status
  | .buffered status _ _ => status
  | .coalesced shared => shared.status

/-- The body that reaches the client, where it has arrived. -/
def body : ExecuteOutcome → Option (List UInt8)
  | .response r => r.bytes
  | .buffered _ _ body => some body
  | .coalesced shared => some shared.body

end ExecuteOutcome

/-- A call of `finish_success` or of `finish_failure`, and the attempt it is for. -/
structure Finish where
  attempt : ℕ
  acq : Acquired
  success : Bool
  outcome : UpstreamOutcome

/-- What the call does to the router. -/
def Finish.record (f : Finish) (r : Routed) : Routed :=
  if f.success then r.finishSuccess f.acq f.outcome else r.finishFailure f.acq f.outcome

/-- An attempt that was acquired, the request it sent and the reply it got. -/
structure Attempt where
  number : ℕ
  acq : Acquired
  sent : UpstreamRequest
  reply : UpstreamReply

/-- What `register` and the wait of a follower give a call: the leader's response (`none` where it died
unpublished), or the lead. -/
inductive Registration where
  | follow (shared : Option SharedResponse)
  | lead
  deriving DecidableEq

/-- A call, up to its loop. -/
structure BufferedCall where
  request : BufferedRequest
  model : String
  routing : RoutingCfg
  /-- What `select` gave. -/
  candidates : List RouteCandidate
  /-- The first candidate has a runtime, whose coalescer is asked. -/
  owned : Bool
  registration : Registration
  ctx : AcquireCtx
  start : ℤ

/-- The variables of the loop, and the logs. -/
structure Exec where
  /-- No reading of the clock is before this. -/
  clock : ℤ
  lead : Bool
  attempts : ℕ := 0
  emptyCount : ℕ := 0
  lastError : RouteError := .unavailable "no candidate attempted"
  /-- The calls of `record_empty_strike`. -/
  strikes : List (String × String) := []
  finishes : List Finish := []
  /-- What `Lead::complete` published. -/
  published : Option SharedResponse := none
  result : Option (Except RouteError ExecuteOutcome) := none
  log : List Attempt := []

namespace Exec

/-- A return with an error drops the lead. -/
def fail (s : Exec) (e : RouteError) : Exec := { s with lead := false, result := some (.error e) }

/-- `finish_success` or `finish_failure`, for the attempt of this turn. -/
def finish (s : Exec) (acq : Acquired) (t : Turn) (success : Bool) (status : ℕ) (exhausted : Bool)
    (retryAfter : Option ℕ) : Exec :=
  { s with
    finishes := s.finishes ++ [⟨s.attempts, acq, success,
      ⟨status, exhausted, retryAfter, t.latencyMs, t.recordedAt, t.recordedUnix⟩⟩] }

/-- `Lead::complete`, and the return that goes with it. -/
def publish (s : Exec) (shared : SharedResponse) : Exec :=
  { s with lead := false, published := some shared, result := some (.ok (.coalesced shared)) }

/-- A return with a response. -/
def respond (s : Exec) (out : ExecuteOutcome) : Exec := { s with result := some (.ok out) }

/-- A connection-level failure. -/
def connectFailed (s : Exec) (acq : Acquired) (t : Turn) (e : String) : Exec :=
  { s.finish acq t false 0 false none with lastError := .unavailable (acq.provider ++ ": " ++ e) }

/-- A status that is retried: the body is sniffed for worker exhaustion. -/
def retryLater (s : Exec) (acq : Acquired) (t : Turn) (r : UpstreamResponse) : Exec :=
  let retryAfter := (r.retryAfter.bind (Text.parseUnsigned 64)).map secs
  let exhausted := isWorkerExhausted (r.text.getD "")
  { s.finish acq t false r.status exhausted retryAfter with
    lastError := .unavailable (acq.provider ++ ": upstream " ++ toString r.status) }

end Exec

namespace BufferedCall

/-- A lone candidate retries until the deadline; several are bounded by `max_retries`. -/
def maxAttempts (c : BufferedCall) : ℕ :=
  if c.candidates.length = 1 then 2 ^ 64 - 1 else max c.routing.maxRetries 1

/-- An empty completion: the lead is dropped, the provider and model are struck, and the call fails over unless
every candidate has come back empty. -/
def emptyAnswer (c : BufferedCall) (s : Exec) (acq : Acquired) (t : Turn) (r : UpstreamResponse) : Exec :=
  let s := Exec.finish { s with lead := false } acq t false r.status false none
  let s := { s with strikes := s.strikes ++ [(acq.provider, c.model)], emptyCount := s.emptyCount + 1 }
  if s.emptyCount ≥ c.candidates.length then
    s.fail (.unavailable ("all candidates returned empty completions for model '" ++ c.model ++ "'"))
  else
    { s with
      lastError := .unavailable ("empty completion from " ++ acq.provider ++ " for model '" ++ c.model ++ "'") }

/-- A 2xx chat completion is read before it counts. -/
def chatAnswer (json : BodyCodec ν) (c : BufferedCall) (s : Exec) (acq : Acquired) (t : Turn)
    (r : UpstreamResponse) : Exec :=
  match r.bytes with
  | none => s.fail (.unavailable "upstream body stalled")
  | some body =>
      if hasSubstance json body then
        let contentType := r.contentType.getD "application/json"
        let s := s.finish acq t true r.status false none
        if s.lead then s.publish ⟨r.status, contentType, body⟩
        else s.respond (.buffered r.status contentType body)
      else c.emptyAnswer s acq t r

/-- Any other answer counts as a success at its headers; only a leader reads the body. -/
def otherAnswer (s : Exec) (acq : Acquired) (t : Turn) (r : UpstreamResponse) : Exec :=
  let s := s.finish acq t true r.status false none
  if s.lead then
    match r.bytes with
    | none => s.fail (.unavailable "upstream body stalled")
    | some body => s.publish ⟨r.status, r.contentType.getD "", body⟩
  else s.respond (.response r)

/-- What becomes of an attempt. -/
def settle (json : BodyCodec ν) (c : BufferedCall) (s : Exec) (acq : Acquired) (t : Turn) : UpstreamReply → Exec
  | .connectError e => s.connectFailed acq t e
  | .response r =>
      if retryableStatus r.status then s.retryLater acq t r
      else if guarded c.request.pathQuery.text r.status then c.chatAnswer json s acq t r
      else otherAnswer s acq t r

/-- What becomes of a turn whose `acquire` fails. A dry bucket is slept on for 50 ms. -/
def refuse (s : Exec) (t : Turn) : RouteError → Exec
  | .rateLimited p => { s with lastError := .rateLimited p, clock := t.now + millis 50 }
  | .unavailable p => { s with lastError := .unavailable p }
  | e => s.fail e

/-- One turn of the loop; `none` where the call has returned, or still waits to acquire. -/
def step (json : BodyCodec ν) (c : BufferedCall) (s : Exec) (t : Turn) : Option Exec :=
  if s.result.isSome ∨ t.now < s.clock then none
  else
    let s := { s with clock := t.now }
    if t.now ≥ c.ctx.deadline then some (s.fail .deadline)
    else if s.attempts ≥ c.maxAttempts then some (s.fail s.lastError)
    else
      match c.candidates[s.attempts % c.candidates.length]? with
      | none => none
      | some candidate =>
          let s := { s with attempts := s.attempts + 1 }
          match c.ctx.acquire candidate t.gates with
          | none => none
          | some (.error e) => some (refuse s t e)
          | some (.ok (acq, target)) =>
              let attempt := ⟨s.attempts, acq, c.request.upstream json target, t.reply⟩
              some (c.settle json { s with log := s.log ++ [attempt] } acq t t.reply)

/-- The call up to its loop: a follower of a leader that publishes has its answer. -/
def enter (c : BufferedCall) : Exec :=
  if c.candidates.isEmpty then
    { clock := c.start, lead := false,
      result := some (.error (.unavailable ("no provider serves model '" ++ c.model ++ "'"))) }
  else if c.routing.enableCoalescing && c.owned then
    match c.registration with
    | .follow (some shared) => { clock := c.start, lead := false, result := some (.ok (.coalesced shared)) }
    | .follow none => { clock := c.start, lead := false }
    | .lead => { clock := c.start, lead := true }
  else { clock := c.start, lead := false }

end BufferedCall

/-- `execute_buffered`, over the turns its loop takes. -/
def executeBuffered (json : BodyCodec ν) (c : BufferedCall) (turns : List Turn) : Option Exec :=
  System.exec (c.step json) c.enter turns

/-- The runs of the loop of a call. -/
def executeSystem (json : BodyCodec ν) (c : BufferedCall) : System Exec Turn :=
  .ofStep (fun s => s = c.enter) (c.step json)

/-! ## What an attempt comes to -/

namespace UpstreamReply

/-- A connection error, a retryable status or an empty completion. -/
def failed (json : BodyCodec ν) (path : String) : UpstreamReply → Bool
  | .connectError _ => true
  | .response r =>
      retryableStatus r.status || guarded path r.status && r.bytes.any fun body => !hasSubstance json body

/-- A 2xx on a chat-completions path whose body does not arrive. -/
def stalled (path : String) : UpstreamReply → Bool
  | .connectError _ => false
  | .response r => guarded path r.status && r.bytes.isNone

end UpstreamReply

/-- The outcome hands on a response. -/
def ExecuteOutcome.Relays (path : String) (r : UpstreamResponse) : ExecuteOutcome → Prop
  | .response r' => r' = r ∧ guarded path r.status = false
  | .buffered status contentType body =>
      status = r.status ∧ contentType = r.contentType.getD "application/json" ∧ r.bytes = some body
  | .coalesced shared =>
      shared.status = r.status ∧ r.bytes = some shared.body ∧
        shared.contentType = r.contentType.getD (if guarded path r.status then "application/json" else "")

namespace BufferedCall

variable {json : BodyCodec ν} {c : BufferedCall} {s s' : Exec} {acq : Acquired} {t : Turn} {reply : UpstreamReply}
  {r : UpstreamResponse}

/-- One outcome was recorded, for the attempt of this turn. -/
def Records (s : Exec) (acq : Acquired) (s' : Exec) : Prop :=
  ∃ f, s'.finishes = s.finishes ++ [f] ∧ f.attempt = s.attempts ∧ f.acq = acq

/-- The three ways an attempt can go: the call goes on to the next candidate or gives up; the body of a chat
completion stalls; the response counts, and is handed on unless its body stalls. -/
inductive Settles (json : BodyCodec ν) (path : String) (s : Exec) (acq : Acquired) (reply : UpstreamReply)
    (s' : Exec) : Prop
  | failed (hreply : reply.failed json path = true) (hrecords : Records s acq s')
      (hpublished : s'.published = s.published) (hresult : s'.result = none ∨ ∃ e, s'.result = some (.error e))
  | stalled (hreply : reply.stalled path = true) (hfinishes : s'.finishes = s.finishes)
      (hpublished : s'.published = s.published) (hresult : ∃ e, s'.result = some (.error e))
  | given (hreply : reply.failed json path = false) (hthere : reply.stalled path = false)
      (hrecords : Records s acq s') (hpublished : s'.published = s.published)
      (hresult : ∃ e, s'.result = some (.error e))
  | answered {r : UpstreamResponse} {out : ExecuteOutcome} (hresponse : reply = .response r)
      (hreply : reply.failed json path = false) (hthere : reply.stalled path = false)
      (hrecords : Records s acq s')
      (hpublished : s'.published = s.published ∨ ∃ shared, out = .coalesced shared ∧ s'.published = some shared)
      (hresult : s'.result = some (.ok out)) (hrelays : out.Relays path r)

/-- A guarded status is not retried. -/
theorem not_retryable_of_guarded {path : String} {status : ℕ} (h : guarded path status = true) :
    retryableStatus status = false := by
  simp only [guarded, Bool.and_eq_true, decide_eq_true_eq] at h
  simp only [retryableStatus, List.mem_cons, List.not_mem_nil, or_false, decide_eq_false_iff_not]
  omega

theorem emptyAnswer_settles (hresult : s.result = none) (hguarded : guarded c.request.pathQuery.text r.status = true)
    {body : List UInt8} (hbytes : r.bytes = some body) (hempty : hasSubstance json body = false) :
    Settles json c.request.pathQuery.text s acq (.response r) (c.emptyAnswer s acq t r) := by
  have hreply : (UpstreamReply.response r).failed json c.request.pathQuery.text = true := by
    simp [UpstreamReply.failed, hguarded, hbytes, hempty]
  unfold emptyAnswer
  dsimp only
  split
  · exact .failed hreply ⟨_, rfl, rfl, rfl⟩ rfl (.inr ⟨_, rfl⟩)
  · exact .failed hreply ⟨_, rfl, rfl, rfl⟩ rfl (.inl hresult)

theorem chatAnswer_settles (hresult : s.result = none)
    (hguarded : guarded c.request.pathQuery.text r.status = true) :
    Settles json c.request.pathQuery.text s acq (.response r) (c.chatAnswer json s acq t r) := by
  have hretry := not_retryable_of_guarded hguarded
  unfold chatAnswer
  split
  · rename_i hbytes
    exact .stalled (by simp [UpstreamReply.stalled, hguarded, hbytes]) rfl rfl ⟨_, rfl⟩
  · rename_i body hbytes
    cases hsubstance : hasSubstance json body with
    | false => exact emptyAnswer_settles hresult hguarded hbytes hsubstance
    | true =>
        have hgood : (UpstreamReply.response r).failed json c.request.pathQuery.text = false := by
          simp [UpstreamReply.failed, hretry, hbytes, hsubstance]
        have hthere : (UpstreamReply.response r).stalled c.request.pathQuery.text = false := by
          simp [UpstreamReply.stalled, hbytes]
        rw [if_pos rfl]
        dsimp only
        split
        · refine .answered rfl hgood hthere ⟨_, rfl, rfl, rfl⟩ (.inr ⟨_, rfl, rfl⟩) rfl ⟨rfl, hbytes, ?_⟩
          rw [if_pos hguarded]
        · exact .answered rfl hgood hthere ⟨_, rfl, rfl, rfl⟩ (.inl rfl) rfl ⟨rfl, rfl, hbytes⟩

theorem otherAnswer_settles {path : String} (hretry : retryableStatus r.status = false)
    (hguarded : guarded path r.status = false) :
    Settles json path s acq (.response r) (otherAnswer s acq t r) := by
  have hgood : (UpstreamReply.response r).failed json path = false := by
    simp [UpstreamReply.failed, hretry, hguarded]
  have hthere : (UpstreamReply.response r).stalled path = false := by
    simp [UpstreamReply.stalled, hguarded]
  unfold otherAnswer
  dsimp only
  split
  · split
    · exact .given hgood hthere ⟨_, rfl, rfl, rfl⟩ rfl ⟨_, rfl⟩
    · rename_i body hbytes
      refine .answered rfl hgood hthere ⟨_, rfl, rfl, rfl⟩ (.inr ⟨_, rfl, rfl⟩) rfl ⟨rfl, hbytes, ?_⟩
      rw [hguarded, if_neg (by decide)]
  · exact .answered rfl hgood hthere ⟨_, rfl, rfl, rfl⟩ (.inl rfl) rfl ⟨rfl, hguarded⟩

/-- **What becomes of an attempt, said once.** -/
theorem settle_settles (hresult : s.result = none) :
    Settles json c.request.pathQuery.text s acq reply (c.settle json s acq t reply) := by
  cases reply with
  | connectError e => exact .failed rfl ⟨_, rfl, rfl, rfl⟩ rfl (.inl hresult)
  | response r =>
      unfold settle
      dsimp only
      split
      · rename_i hretry
        exact .failed (by simp [UpstreamReply.failed, hretry]) ⟨_, rfl, rfl, rfl⟩ rfl (.inl hresult)
      · rename_i hretry
        split
        · rename_i hguarded
          exact chatAnswer_settles hresult hguarded
        · rename_i hguarded
          exact otherAnswer_settles (by simpa using hretry) (by simpa using hguarded)

/-- Settling an attempt is no attempt, and reads no clock. -/
theorem settle_frame (s : Exec) (acq : Acquired) (t : Turn) (reply : UpstreamReply) :
    (c.settle json s acq t reply).log = s.log ∧ (c.settle json s acq t reply).attempts = s.attempts ∧
      (c.settle json s acq t reply).clock = s.clock := by
  cases reply with
  | connectError e => exact ⟨rfl, rfl, rfl⟩
  | response r =>
      unfold settle
      dsimp only
      split
      · exact ⟨rfl, rfl, rfl⟩
      · split
        · unfold chatAnswer emptyAnswer
          dsimp only
          split
          · exact ⟨rfl, rfl, rfl⟩
          · split
            · split <;> exact ⟨rfl, rfl, rfl⟩
            · split <;> exact ⟨rfl, rfl, rfl⟩
        · unfold otherAnswer
          dsimp only
          split
          · split <;> exact ⟨rfl, rfl, rfl⟩
          · exact ⟨rfl, rfl, rfl⟩

/-! ## A turn, said once -/

/-- A turn that acquires nothing: the call goes on, or returns an error. -/
structure Idle (c : BufferedCall) (s s' : Exec) : Prop where
  log : s'.log = s.log
  finishes : s'.finishes = s.finishes
  published : s'.published = s.published
  attempts_ge : s.attempts ≤ s'.attempts
  attempts_le : s'.attempts = s.attempts ∨ s'.attempts ≤ c.maxAttempts
  result : s'.result = none ∨ ∃ e, s'.result = some (.error e)

/-- The state in which a turn has acquired an attempt. -/
def acquired (s : Exec) (t : Turn) (acq : Acquired) (sent : UpstreamRequest) : Exec :=
  { s with clock := t.now, attempts := s.attempts + 1, log := s.log ++ [⟨s.attempts + 1, acq, sent, t.reply⟩] }

theorem refuse_idle (hresult : s.result = none) (hlt : s.attempts < c.maxAttempts) (e : RouteError) :
    Idle c s (refuse { s with clock := t.now, attempts := s.attempts + 1 } t e) := by
  cases e with
  | unavailable p => exact ⟨rfl, rfl, rfl, Nat.le_succ _, .inr hlt, .inl hresult⟩
  | rateLimited p => exact ⟨rfl, rfl, rfl, Nat.le_succ _, .inr hlt, .inl hresult⟩
  | deadline => exact ⟨rfl, rfl, rfl, Nat.le_succ _, .inr hlt, .inr ⟨_, rfl⟩⟩
  | clientGone => exact ⟨rfl, rfl, rfl, Nat.le_succ _, .inr hlt, .inr ⟨_, rfl⟩⟩

/-- **What a turn can do.** -/
theorem step_cases (h : c.step json s t = some s') : s.result = none ∧ (Idle c s s' ∨
    ∃ acq sent, s.attempts < c.maxAttempts ∧ s' = c.settle json (acquired s t acq sent) acq t t.reply) := by
  unfold step at h
  split at h
  · cases h
  · rename_i hopen
    have hresult : s.result = none := by
      rw [not_or] at hopen
      simpa using hopen.1
    refine ⟨hresult, ?_⟩
    dsimp only at h
    split at h
    · obtain rfl := Option.some.inj h
      exact .inl ⟨rfl, rfl, rfl, le_rfl, .inl rfl, .inr ⟨_, rfl⟩⟩
    · split at h
      · obtain rfl := Option.some.inj h
        exact .inl ⟨rfl, rfl, rfl, le_rfl, .inl rfl, .inr ⟨_, rfl⟩⟩
      · rename_i hbudget
        have hlt : s.attempts < c.maxAttempts := by omega
        split at h
        · cases h
        · split at h
          · cases h
          · obtain rfl := Option.some.inj h
            exact .inl (refuse_idle hresult hlt _)
          · rename_i acq target _
            obtain rfl := Option.some.inj h
            exact .inr ⟨acq, c.request.upstream json target, hlt, rfl⟩

/-- The run rule of a call. -/
theorem executeBuffered_run {turns : List Turn} (h : executeBuffered json c turns = some s) :
    (executeSystem json c).Run c.enter turns s := System.run_of_exec h

/-- A call that has its answer before the loop takes no turn. -/
theorem eq_enter {turns : List Turn} (h : executeBuffered json c turns = some s)
    (hanswered : c.enter.result ≠ none) : s = c.enter := by
  cases turns with
  | nil => exact (Option.some.inj h).symm
  | cons t turns =>
      obtain ⟨s₁, hstep, -⟩ := Option.bind_eq_some_iff.mp h
      exact absurd (step_cases hstep).1 hanswered

/-! ## Every attempt is recorded once -/

/-- **`Booked path s`** — the outcomes that were recorded are those of the attempts whose body did not stall, in
their order, and the attempts are numbered in theirs. -/
structure Booked (path : String) (s : Exec) : Prop where
  finishes : s.finishes.map (fun f => (f.attempt, f.acq)) =
    (s.log.filter fun a => !a.reply.stalled path).map fun a => (a.number, a.acq)
  ordered : s.log.Pairwise fun a b => a.number < b.number
  numbered : ∀ a ∈ s.log, a.number ≤ s.attempts

/-- A call comes to its loop with nothing done, unless it has returned already. -/
theorem enter_eq (c : BufferedCall) :
    ∃ lead result, c.enter = { clock := c.start, lead := lead, result := result } := by
  unfold enter
  split
  · exact ⟨_, _, rfl⟩
  · split
    · split <;> exact ⟨_, _, rfl⟩
    · exact ⟨_, none, rfl⟩

theorem booked_enter (path : String) (c : BufferedCall) : Booked path c.enter := by
  obtain ⟨lead, result, henter⟩ := enter_eq c
  rw [henter]
  refine ⟨rfl, .nil, ?_⟩
  intro a ha
  cases ha

/-- The outcomes after an attempt: one more, unless its body has stalled. -/
theorem Settles.finishes {path : String} {m : Exec} (h : Settles json path m acq reply s') :
    s'.finishes.map (fun f => (f.attempt, f.acq)) = m.finishes.map (fun f => (f.attempt, f.acq)) ++
      if reply.stalled path = true then [] else [(m.attempts, acq)] := by
  have hrecorded : reply.stalled path = false → Records m acq s' →
      s'.finishes.map (fun f => (f.attempt, f.acq)) = m.finishes.map (fun f => (f.attempt, f.acq)) ++
        if reply.stalled path = true then [] else [(m.attempts, acq)] := by
    rintro hthere ⟨f, hf, hattempt, hacq⟩
    rw [hf, hthere, if_neg (by decide), List.map_append, List.map_singleton, hattempt, hacq]
  cases h with
  | failed hreply hrecords =>
      -- a failed reply has no body that stalls
      refine hrecorded ?_ hrecords
      cases reply with
      | connectError e => rfl
      | response r =>
          simp only [UpstreamReply.failed, Bool.or_eq_true, Bool.and_eq_true] at hreply
          rcases hreply with hretry | ⟨-, hempty⟩
          · cases hguarded : guarded path r.status with
            | false => simp [UpstreamReply.stalled, hguarded]
            | true => simp [not_retryable_of_guarded hguarded] at hretry
          · cases hbytes : r.bytes with
            | none => simp [hbytes] at hempty
            | some body => simp [UpstreamReply.stalled, hbytes]
  | stalled hreply hfinishes => rw [hfinishes, hreply, if_pos rfl, List.append_nil]
  | given hreply hthere hrecords => exact hrecorded hthere hrecords
  | answered hresponse hreply hthere hrecords => exact hrecorded hthere hrecords

theorem booked_step (hbefore : Booked c.request.pathQuery.text s) (h : c.step json s t = some s') :
    Booked c.request.pathQuery.text s' := by
  obtain ⟨hresult, hidle | ⟨acq, sent, -, rfl⟩⟩ := step_cases h
  · refine ⟨?_, ?_, ?_⟩
    · rw [hidle.finishes, hidle.log]
      exact hbefore.finishes
    · rw [hidle.log]
      exact hbefore.ordered
    · rw [hidle.log]
      intro a ha
      exact (hbefore.numbered a ha).trans hidle.attempts_ge
  · obtain ⟨hlog, hattempts, -⟩ := @settle_frame ν json c (acquired s t acq sent) acq t t.reply
    have hsettles : Settles json c.request.pathQuery.text (acquired s t acq sent) acq t.reply _ :=
      settle_settles (t := t) (c := c) (by exact hresult)
    refine ⟨?_, ?_, ?_⟩
    · rw [hsettles.finishes, hlog]
      show s.finishes.map _ ++ _ = ((s.log ++ [_]).filter _).map _
      rw [List.filter_append, List.map_append, ← hbefore.finishes]
      congr 1
      cases hstalled : t.reply.stalled c.request.pathQuery.text <;> simp [hstalled, acquired]
    · rw [hlog]
      refine List.pairwise_append.mpr ⟨hbefore.ordered, List.pairwise_singleton _ _, ?_⟩
      intro a ha b hb
      obtain rfl := List.mem_singleton.mp hb
      exact Nat.lt_succ_of_le (hbefore.numbered a ha)
    · rw [hlog, hattempts]
      intro a ha
      rcases List.mem_append.mp ha with hold | hnew
      · exact (hbefore.numbered a hold).trans (Nat.le_succ _)
      · obtain rfl := List.mem_singleton.mp hnew
        exact le_rfl

theorem executeBuffered_booked {turns : List Turn} (h : executeBuffered json c turns = some s) :
    Booked c.request.pathQuery.text s :=
  (executeBuffered_run h).preserves booked_step (booked_enter _ c)

end BufferedCall

/-- For whom outcomes were recorded under the number of an attempt. -/
def Exec.recorded (s : Exec) (number : ℕ) : List Acquired :=
  (s.finishes.filter fun f => f.attempt = number).map (·.acq)

/-- Among entries numbered in their order, a number is that of one. -/
theorem filter_number_eq {log : List Attempt} (hordered : log.Pairwise fun a b => a.number < b.number)
    {a : Attempt} (ha : a ∈ log) : log.filter (fun b => b.number = a.number) = [a] := by
  induction log with
  | nil => cases ha
  | cons b rest ih =>
      obtain ⟨hhead, hrest⟩ := List.pairwise_cons.mp hordered
      rcases List.mem_cons.mp ha with rfl | ha
      · rw [List.filter_cons_of_pos (by simp)]
        have hnone : rest.filter (fun b => b.number = a.number) = [] := by
          apply List.filter_eq_nil_iff.mpr
          intro b hb
          have := hhead b hb
          simp only [decide_eq_true_eq]
          omega
        rw [hnone]
      · have hne : b.number ≠ a.number := Nat.ne_of_lt (hhead a ha)
        rw [List.filter_cons_of_neg (by simpa using hne), ih hrest ha]

/-- What is recorded for an attempt: one outcome, or none where its body has stalled. -/
theorem BufferedCall.Booked.recorded {path : String} {s : Exec} (h : Booked path s) {a : Attempt} (ha : a ∈ s.log) :
    s.recorded a.number = if a.reply.stalled path = true then [] else [a.acq] := by
  have hpairs : s.recorded a.number =
      ((s.finishes.map fun f => (f.attempt, f.acq)).filter fun x => x.1 = a.number).map (·.2) := by
    unfold Exec.recorded
    rw [List.filter_map, List.map_map]
    rfl
  have hlog : ((s.log.filter fun a => !a.reply.stalled path).map fun a => (a.number, a.acq)).filter
        (fun x => x.1 = a.number) =
      ((s.log.filter fun b => b.number = a.number).filter fun a => !a.reply.stalled path).map
        fun a => (a.number, a.acq) := by
    rw [List.filter_map, List.filter_filter, List.filter_filter]
    congr 2
    funext b
    exact Bool.and_comm _ _
  rw [hpairs, h.finishes, hlog, filter_number_eq h.ordered ha]
  cases hstalled : a.reply.stalled path <;> simp [hstalled]

/-- **Which attempts are recorded once.**  At the end of any turn, and so where the call returns, every attempt it
acquired has had exactly one call of `finish_success` or `finish_failure`, with its own slot, if and only if the
body of no 2xx answer on a chat-completions path failed to arrive. -/
theorem attempts_recorded_once_iff {json : BodyCodec ν} {c : BufferedCall} {turns : List Turn} {s : Exec}
    (h : executeBuffered json c turns = some s) :
    (∀ a ∈ s.log, s.recorded a.number = [a.acq]) ↔
      ∀ a ∈ s.log, a.reply.stalled c.request.pathQuery.text = false := by
  have hbooked := BufferedCall.executeBuffered_booked h
  constructor
  · intro honce a ha
    by_contra hstalled
    rw [Bool.not_eq_false] at hstalled
    have hnone := (honce a ha).symm.trans (hbooked.recorded ha)
    rw [if_pos hstalled] at hnone
    cases hnone
  · intro hthere a ha
    rw [hbooked.recorded ha, hthere a ha, if_neg (by decide)]

/-! A chat completion on the one provider there is. -/

/-- `POST /v1/chat/completions` with an empty object. -/
def chatRequest : BufferedRequest where
  method := httpPost
  pathQuery := ⟨"/v1/chat/completions", by decide +kernel⟩
  contentType := some "application/json"
  accept := none
  body := [123, 125]

/-- A call of it that waits for 600 s, among these providers. -/
def chatCall (providers : List String) : BufferedCall where
  request := chatRequest
  model := "m"
  routing := {}
  candidates := providers.map fun p => ⟨p, "m", .hybrid⟩
  owned := true
  registration := .follow none
  ctx := ⟨secs 600, secs 5, true, none, none⟩
  start := 0

/-- Gates that let an attempt through; `tokens` are in the bucket of each provider. -/
def openGates (tokens : ℚ) : Gates where
  runtime := some 0
  circuit := .astmatrixDefaults
  circuitAt := 0
  limiter := ⟨fun _ => some ⟨tokens, 60, 1, 0⟩⟩
  limiterAt := 0
  governorEnabled := false
  governorOverride := none
  permitAt := 0
  permits := []
  slots := [.reserve 0 (.new [⟨"nvapi-1", 40, true⟩] 0) 0 0]
  baseUrl := "https://integrate.api.nvidia.com"

/-- A 200 with this body. -/
def okResponse (bytes : Option (List UInt8)) : UpstreamResponse :=
  ⟨200, some "application/json", none, none, bytes, by decide⟩

/-- A turn at this time that is answered so. -/
def answeredTurn (now : ℤ) (reply : UpstreamReply) : Turn := ⟨now, openGates 60, reply, 1, now, 1⟩

theorem attempts_recorded_once_iff_chat : ∃ s,
    executeBuffered embeddingJson (chatCall ["nvidia"]) [answeredTurn 0 (.response (okResponse (some [123, 125])))] =
      some s ∧
    ((∀ a ∈ s.log, s.recorded a.number = [a.acq]) ↔
      ∀ a ∈ s.log, a.reply.stalled (chatCall ["nvidia"]).request.pathQuery.text = false) := by
  have hsome : (executeBuffered embeddingJson (chatCall ["nvidia"])
      [answeredTurn 0 (.response (okResponse (some [123, 125])))]).isSome = true := by decide +kernel
  obtain ⟨s, hs⟩ := Option.isSome_iff_exists.mp hsome
  exact ⟨s, hs, attempts_recorded_once_iff hs⟩

/-- The body of a 200 stalls: the call returns, and nothing was recorded of its one attempt. -/
theorem stalled_body_not_recorded : ∃ s a,
    executeBuffered embeddingJson (chatCall ["nvidia"]) [answeredTurn 0 (.response (okResponse none))] = some s ∧
    s.result = some (.error (.unavailable "upstream body stalled")) ∧ a ∈ s.log ∧ s.recorded a.number = [] := by
  have heval : (executeBuffered embeddingJson (chatCall ["nvidia"])
      [answeredTurn 0 (.response (okResponse none))]).any (fun s =>
        decide (s.result = some (.error (.unavailable "upstream body stalled"))) &&
          s.log.any fun a => (s.recorded a.number).isEmpty) = true := by decide +kernel
  obtain ⟨s, hs, htest⟩ := (Option.any_eq_true _ _).mp heval
  simp only [Bool.and_eq_true, decide_eq_true_eq, List.any_eq_true, List.isEmpty_iff] at htest
  obtain ⟨hresult, a, ha, hnone⟩ := htest
  exact ⟨s, a, hs, hresult, ha, hnone⟩

end Flock
