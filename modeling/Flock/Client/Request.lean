/-
# Flock.Client.Request — the request loop of the two SDKs.

`FlockClient.request` takes a key, fetches, reports how that ended, and tries again if it may.  Where every key is
parked it sleeps until the first park ends, looks once more, and gives up if there is still none.  A client with one
key backs off between tries; with more it goes to the next key at once.

The loop is the same in both SDKs but for the time limit (Python tries again, TypeScript throws) and for what a delay
that is too long does: `setTimeout` takes it for one millisecond, `time.sleep` raises, and so does Python's parser of
`Retry-After` before the 429 is reported to the pool.

Requests that run side by side share the pool, so what one of them is told to wait for can be gone when it wakes; alone
it always finds a key, as long as its sleeps last (`lone_request`).  The clocks are those of `Client.KeyPool`; a sleep
may last longer than it should, and how much shorter is said by `Sdk.sleep`.
-/
import Flock.Client.Fairness
import Mathlib.Data.Rat.Floor

namespace Flock.Client

open Lib (System)

/-! ## One request

The loop of `request` is cut at its awaits, and at its calls of the pool, which other requests may come between. Where
a request stands between two of them is its `Phase`. -/

/-- `RETRYABLE_STATUS_CODES`. -/
def retryableStatusCodes : List ℕ := [429, 500, 502, 503, 504]

/-- How a fetch ends. -/
inductive Outcome where
  /-- a success whose body is read -/
  | ok
  /-- a success whose body cannot be read -/
  | malformed
  /-- any other status, and what `Retry-After` says -/
  | status (code : ℕ) (retryAfterMs : ℚ)
  /-- a 429 on whose `Retry-After` `parse_retry_after_ms` raises; in Python only -/
  | unparsed
  /-- the time limit; in Python perhaps after the head of a success -/
  | timeout (served : Bool)
  /-- any other exception -/
  | failed
  deriving DecidableEq

/-- What a request throws. -/
inductive RequestError where
  /-- "NIM API error", with the status -/
  | api (status : ℕ)
  /-- "Request timed out" -/
  | timedOut
  /-- whatever else a fetch raises -/
  | other
  /-- what `time.sleep` raises -/
  | sleep
  /-- "All API keys are rate limited" -/
  | rateLimited
  /-- "Max retries exceeded" -/
  | maxRetries
  deriving DecidableEq

/-- The error of a fetch that ends so. -/
def Outcome.error? : Outcome → Option RequestError
  | .ok => none
  | .malformed | .unparsed | .failed => some .other
  | .status code _ => some (.api code)
  | .timeout _ => some .timedOut

/-- What a request returns whose last fetch ends so. -/
def Outcome.result (o : Outcome) : Except RequestError Unit :=
  match o.error? with
  | none => .ok ()
  | some error => .error error

/-- Whether the loop goes on after it, where tries are left. -/
def Sdk.retries (sdk : Sdk) : Outcome → Bool
  | .status code _ => decide (code ∈ retryableStatusCodes)
  | .timeout _ => sdk == .python
  | .ok | .malformed | .unparsed | .failed => false

/-- What the pool is told.  The parser raises before `record_rate_limit` is called. -/
def Outcome.report (now : ℚ) (key : String) : Outcome → Option Call
  | .ok | .malformed | .timeout true => some (.recordSuccess now key)
  | .status code retryAfterMs =>
      if code = 429 then some (.recordRateLimit now key (some retryAfterMs))
      else some (.recordFailure now key ("HTTP " ++ toString code))
  | .unparsed | .timeout false | .failed => none

/-! ## Sleep -/

/-- How long a sleep lasts, on the SDK's clock; none where it raises.  `setTimeout` cuts off the fraction, and takes
what is below one millisecond or above 31 bits for one millisecond.  `time.sleep` takes nothing below zero, and nothing
from 2^63 nanoseconds on. -/
def Sdk.sleep (sdk : Sdk) (delay : ℚ) : Option ℚ :=
  match sdk with
  | .typescript => some (if 1 ≤ delay ∧ delay ≤ 2 ^ 31 - 1 then ⌊delay⌋ else 1)
  | .python => if 0 ≤ delay ∧ delay * 10 ^ 9 < 2 ^ 63 then some delay else none

/-- The delays that a sleep lasts out. -/
def Sdk.LastsOut (sdk : Sdk) (delay : ℚ) : Prop :=
  match sdk with
  | .typescript => delay ≤ 1 ∨ delay ≤ 2 ^ 31 - 1 ∧ (⌊delay⌋ : ℚ) = delay
  | .python => 0 ≤ delay ∧ delay * 10 ^ 9 < 2 ^ 63

/-- A sleep can be checked by evaluation. -/
instance (sdk : Sdk) (delay : ℚ) : Decidable (sdk.LastsOut delay) :=
  match sdk with
  | .typescript => inferInstanceAs (Decidable (_ ∨ _))
  | .python => inferInstanceAs (Decidable (_ ∧ _))

/-- Where a sleep of the full length comes from. -/
theorem Sdk.lastsOut_iff {sdk : Sdk} {delay : ℚ} :
    sdk.LastsOut delay ↔ ∃ slept, sdk.sleep delay = some slept ∧ delay ≤ slept := by
  cases sdk with
  | python =>
      unfold LastsOut sleep
      constructor
      · intro h
        exact ⟨delay, if_pos h, le_rfl⟩
      · rintro ⟨slept, hslept, -⟩
        by_contra hno
        rw [if_neg hno] at hslept
        cases hslept
  | typescript =>
      unfold LastsOut sleep
      simp only [Option.some.injEq, exists_eq_left']
      by_cases hrange : 1 ≤ delay ∧ delay ≤ 2 ^ 31 - 1
      · rw [if_pos hrange]
        constructor
        · rintro (hone | ⟨-, hwhole⟩)
          · obtain rfl : delay = 1 := le_antisymm hone hrange.1
            exact (Int.floor_one (R := ℚ)).symm ▸ le_of_eq Int.cast_one.symm
          · exact hwhole.ge
        · exact fun hle => .inr ⟨hrange.2, le_antisymm (Int.floor_le delay) hle⟩
      · rw [if_neg hrange]
        constructor
        · rintro (hone | ⟨hle, -⟩)
          · exact hone
          · exact le_of_lt (not_le.mp fun hge => hrange ⟨hge, hle⟩)
        · exact .inl

/-- The only sleeps that raise are Python's. -/
theorem Sdk.python_of_sleep {sdk : Sdk} {delay : ℚ} (h : sdk.sleep delay = none) : sdk = .python := by
  cases sdk with
  | typescript => cases h
  | python => rfl

/-! ## The loop -/

/-- `earliestRetryAt`. -/
def KeyPool.earliestRetryAt (p : KeyPool) : Option ℚ := (p.keys.filterMap (·.rateLimitedUntil)).min?

/-- `FlockClient`, without the pool. -/
structure ClientConfig where
  sdk : Sdk
  apiKeys : List String
  maxRetries : ℤ := 3
  retryDelay : ℚ

/-- Where a request stands. -/
inductive Phase where
  /-- at the head of the loop -/
  | looping
  /-- there was no key -/
  | starved
  /-- until the first park ends -/
  | sleeping (wake : ℚ)
  /-- it has a key, and backs off if it has to -/
  | granted (key : String) (wake : ℚ)
  | fetching (key : String)
  | done (result : Except RequestError Unit)

/-- One call of `request`. -/
structure RequestCall where
  attempt : ℕ := 0
  lastError : Option RequestError := none
  phase : Phase := .looping
  /-- Ghost: the keys it has tried, and how that ended; the last first. -/
  tries : List (String × Outcome) := []

/-- What goes over the wire. -/
inductive Wire where
  | sent (id : ℕ) (key : String) (now : ℚ)
  | ended (id : ℕ) (key : String) (outcome : Outcome) (now : ℚ)
  deriving DecidableEq

/-- A client, and the requests that run on it. -/
structure ClientState where
  pool : KeyPool
  now : ℚ
  calls : ℕ → Option RequestCall := fun _ => none
  /-- Ghost: the last first. -/
  wire : List Wire := []

/-- What can happen to a client: the clock goes on, a request begins, or one of them makes its next operation. -/
inductive ClientEvent where
  | tick (now : ℚ)
  | call (id : ℕ)
  | pick (id : ℕ)
  | measure (id : ℕ)
  | wake (id : ℕ)
  | send (id : ℕ)
  | ended (id : ℕ) (outcome : Outcome)

/-- The request an event belongs to; the clock belongs to none. -/
def ClientEvent.id : ClientEvent → Option ℕ
  | .tick _ => none
  | .call id | .pick id | .measure id | .wake id | .send id | .ended id _ => some id

/-- How long the request backs off before its next try, if that does not raise; `rotated` says that it need not. -/
def RequestCall.backoff (cfg : ClientConfig) (c : RequestCall) : Option ℚ :=
  let rotated := decide (0 < c.attempt ∧ 1 < cfg.apiKeys.length)
  if 0 < c.attempt ∧ rotated = false then
    -- in Python `2 ** 1024` is no float
    if cfg.sdk = .python ∧ 1024 < c.attempt then none
    else cfg.sdk.sleep (cfg.retryDelay * 2 ^ (c.attempt - 1))
  else some 0

/-- The request has a key. -/
def RequestCall.grant (cfg : ClientConfig) (c : RequestCall) (now : ℚ) (key : String) : RequestCall :=
  match c.backoff cfg with
  | some slept => { c with phase := .granted key (now + slept) }
  | none => { c with phase := .done (.error .sleep) }

/-- A fetch has ended: the loop goes on, or the request with it. -/
def RequestCall.ended (cfg : ClientConfig) (c : RequestCall) (key : String) (o : Outcome) : RequestCall :=
  let tries := (key, o) :: c.tries
  if cfg.sdk.retries o = true ∧ (c.attempt : ℤ) < cfg.maxRetries then
    { attempt := c.attempt + 1, lastError := o.error?, phase := .looping, tries }
  else { c with phase := .done o.result, tries }

namespace ClientState

/-- The others stay where they are. -/
def setCall (s : ClientState) (id : ℕ) (c : RequestCall) : ClientState :=
  { s with calls := Function.update s.calls id (some c) }

/-- How long a request is to sleep that found every key parked. -/
def wait (cfg : ClientConfig) (s : ClientState) : ℚ :=
  match s.pool.earliestRetryAt with
  | none => cfg.retryDelay
  | some first => max 0 (first - s.now)

/-- One operation of a request. -/
def advance (cfg : ClientConfig) (s : ClientState) (id : ℕ) (c : RequestCall) : ClientEvent → Option ClientState
  | .pick _ =>
      match c.phase with
      | .looping =>
          if (c.attempt : ℤ) ≤ cfg.maxRetries then
            match s.pool.nextAvailable s.now with
            | (pool, some key) => some { s.setCall id (c.grant cfg s.now key) with pool := pool }
            | (pool, none) => some { s.setCall id { c with phase := .starved } with pool := pool }
          else some (s.setCall id { c with phase := .done (.error (c.lastError.getD .maxRetries)) })
      | _ => none
  | .measure _ =>
      match c.phase with
      | .starved =>
          match cfg.sdk.sleep (s.wait cfg) with
          | some slept => some (s.setCall id { c with phase := .sleeping (s.now + slept) })
          | none => some (s.setCall id { c with phase := .done (.error .sleep) })
      | _ => none
  | .wake _ =>
      match c.phase with
      | .sleeping wake =>
          if wake ≤ s.now then
            match s.pool.nextAvailable s.now with
            | (pool, some key) => some { s.setCall id (c.grant cfg s.now key) with pool := pool }
            | (pool, none) =>
                some { s.setCall id { c with phase := .done (.error (c.lastError.getD .rateLimited)) } with
                  pool := pool }
          else none
      | _ => none
  | .send _ =>
      match c.phase with
      | .granted key wake =>
          if wake ≤ s.now then
            some { s.setCall id { c with phase := .fetching key } with wire := .sent id key s.now :: s.wire }
          else none
      | _ => none
  | .ended _ o =>
      match c.phase with
      | .fetching key =>
          -- in TypeScript the timer is off by the time a success is known, and the parser does not raise
          if (o = .timeout true ∨ o = .unparsed) ∧ cfg.sdk = .typescript then none
          else
            let pool := (o.report s.now key).elim s.pool (Usage.act cfg.sdk s.pool)
            some { s.setCall id (c.ended cfg key o) with pool, wire := .ended id key o s.now :: s.wire }
      | _ => none
  | .tick _ | .call _ => none

/-- One event; the clock never goes back. -/
def step (cfg : ClientConfig) (s : ClientState) (e : ClientEvent) : Option ClientState :=
  match e with
  | .tick now => if s.now ≤ now then some { s with now } else none
  | .call id =>
      match s.calls id with
      | some _ => none
      | none => some (s.setCall id {})
  | e => e.id.bind fun id => (s.calls id).bind fun c => s.advance cfg id c e

end ClientState

/-- The sleep that a request may begin where it stands so lasts as long as it should; a mere backoff does not raise. -/
def RequestCall.SleepsAt (cfg : ClientConfig) (s : ClientState) (c : RequestCall) : Phase → Prop
  | .starved => cfg.sdk.LastsOut (s.wait cfg)
  | .looping | .sleeping _ => (c.backoff cfg).isSome = true
  | .granted _ _ | .fetching _ | .done _ => True

instance (cfg : ClientConfig) (s : ClientState) (c : RequestCall) : ∀ phase, Decidable (c.SleepsAt cfg s phase)
  | .starved => inferInstanceAs (Decidable (cfg.sdk.LastsOut _))
  | .looping | .sleeping _ => inferInstanceAs (Decidable (_ = true))
  | .granted _ _ | .fetching _ | .done _ => inferInstanceAs (Decidable True)

/-- So it is of the request whose event this is. -/
def ClientState.Sleeps (cfg : ClientConfig) (s : ClientState) (e : ClientEvent) : Prop :=
  ∀ c ∈ e.id.bind s.calls, c.SleepsAt cfg s c.phase

instance (cfg : ClientConfig) (s : ClientState) (e : ClientEvent) : Decidable (s.Sleeps cfg e) :=
  inferInstanceAs (Decidable (∀ c ∈ e.id.bind s.calls, c.SleepsAt cfg s c.phase))

/-- `new FlockClient`: the keys are split, and there has to be one. -/
def ClientConfig.Opens (cfg : ClientConfig) : Prop :=
  (∃ raw, cfg.apiKeys = registered cfg.sdk raw) ∧ cfg.apiKeys ≠ []

/-- A client from its constructor on. -/
def clientSystem (cfg : ClientConfig) : System ClientState ClientEvent :=
  .ofStep (fun s => cfg.Opens ∧ ∃ now, s = { pool := .new cfg.sdk cfg.apiKeys, now }) (ClientState.step cfg)

/-! ## A request

A request that finds both its keys parked.  The run meets `Sleeps` at every step, so it is an example for the results
on all runs as well as for those on runs whose sleeps last. -/

/-- A client with two keys, that tries twice more. -/
def twoKeys : ClientConfig := { sdk := .typescript, apiKeys := ["a", "b"], maxRetries := 2, retryDelay := 1000 }

def twoKeysBoot : ClientState := { pool := .new .typescript ["a", "b"], now := 0 }

/-- Both keys get a 429; the request sleeps for the one that comes back first, and is answered. -/
def parkedRequest : List ClientEvent :=
  [.call 0, .pick 0, .send 0, .ended 0 (.status 429 60000), .pick 0, .send 0, .ended 0 (.status 429 500), .pick 0,
    .measure 0, .tick 500, .wake 0, .send 0, .ended 0 .ok]

/-- The request returned its answer. -/
def Phase.answered : Phase → Bool
  | .done (.ok _) => true
  | _ => false

/-- Its keys come out of `splitKeys` as they were. -/
theorem twoKeys_opens : twoKeys.Opens := ⟨⟨["a", "b"], by decide +kernel⟩, by decide⟩

/-- The run that `parkedRequest` makes, by evaluation: three fetches, the third once the shorter park is over. -/
theorem exists_parkedRequest : ∃ s c, ((clientSystem twoKeys).restrict (ClientState.Sleeps twoKeys)).Run twoKeysBoot
    parkedRequest s ∧ s.calls 0 = some c ∧ c.phase = .done (.ok ()) ∧ s.wire =
      [.ended 0 "b" .ok 500, .sent 0 "b" 500, .ended 0 "b" (.status 429 500) 0, .sent 0 "b" 0,
        .ended 0 "a" (.status 429 60000) 0, .sent 0 "a" 0] := by
  have hexec : (System.exec (System.guardStep (ClientState.Sleeps twoKeys) (ClientState.step twoKeys)) twoKeysBoot
      parkedRequest).any (fun s =>
        decide (s.wire =
          [.ended 0 "b" .ok 500, .sent 0 "b" 500, .ended 0 "b" (.status 429 500) 0, .sent 0 "b" 0,
            .ended 0 "a" (.status 429 60000) 0, .sent 0 "a" 0]) &&
        (s.calls 0).any fun c => c.phase.answered) = true := by
    decide +kernel
  obtain ⟨s, hrun, hend⟩ := @System.run_of_exec_any _ _ _ _ (clientSystem twoKeys).init _ _ hexec
  simp only [Bool.and_eq_true, decide_eq_true_eq, Option.any_eq_true] at hend
  obtain ⟨hwire, c, hc, hanswered⟩ := hend
  unfold Phase.answered at hanswered
  split at hanswered
  · rename_i hphase
    exact ⟨s, c, hrun.restrict_of_guardStep, hc, hphase, hwire⟩
  · cases hanswered

/-! ## What a request can do

Each operation of a request, and what it does to the request, to the pool and to the wire, said once.  The later
proofs go by the constructors of `Moves` and do not look into `advance` again. -/

variable {cfg : ClientConfig} {s s' : ClientState} {c c' : RequestCall} {id : ℕ} {e : ClientEvent}

/-- One operation of a request: where it stands after it, the pool, and what goes over the wire. -/
inductive Moves (cfg : ClientConfig) (s : ClientState) (id : ℕ) (c : RequestCall) :
    RequestCall → KeyPool → List Wire → Prop
  | picked (key : String) : c.phase = .looping → (c.attempt : ℤ) ≤ cfg.maxRetries →
      (s.pool.nextAvailable s.now).2 = some key →
      Moves cfg s id c (c.grant cfg s.now key) (s.pool.nextAvailable s.now).1 []
  | starved : c.phase = .looping → (c.attempt : ℤ) ≤ cfg.maxRetries → (s.pool.nextAvailable s.now).2 = none →
      Moves cfg s id c { c with phase := .starved } (s.pool.nextAvailable s.now).1 []
  | exhausted : c.phase = .looping → cfg.maxRetries < c.attempt →
      Moves cfg s id c { c with phase := .done (.error (c.lastError.getD .maxRetries)) } s.pool []
  | measured (slept : ℚ) : c.phase = .starved → cfg.sdk.sleep (s.wait cfg) = some slept →
      Moves cfg s id c { c with phase := .sleeping (s.now + slept) } s.pool []
  | refused : c.phase = .starved → cfg.sdk.sleep (s.wait cfg) = none →
      Moves cfg s id c { c with phase := .done (.error .sleep) } s.pool []
  | woken (wake : ℚ) (key : String) : c.phase = .sleeping wake → wake ≤ s.now →
      (s.pool.nextAvailable s.now).2 = some key →
      Moves cfg s id c (c.grant cfg s.now key) (s.pool.nextAvailable s.now).1 []
  | gaveUp (wake : ℚ) : c.phase = .sleeping wake → wake ≤ s.now → (s.pool.nextAvailable s.now).2 = none →
      Moves cfg s id c { c with phase := .done (.error (c.lastError.getD .rateLimited)) }
        (s.pool.nextAvailable s.now).1 []
  | sent (key : String) (wake : ℚ) : c.phase = .granted key wake → wake ≤ s.now →
      Moves cfg s id c { c with phase := .fetching key } s.pool [.sent id key s.now]
  | ended (key : String) (o : Outcome) : c.phase = .fetching key →
      Moves cfg s id c (c.ended cfg key o) ((o.report s.now key).elim s.pool (Usage.act cfg.sdk s.pool))
        [.ended id key o s.now]

/-- Every operation is one of those. -/
theorem ClientState.advance_cases (h : s.advance cfg id c e = some s') :
    ∃ c' pool new, Moves cfg s id c c' pool new ∧ s' = { s.setCall id c' with pool, wire := new ++ s.wire } := by
  cases e with
  -- neither the clock nor a new call is a move of a request
  | tick | call => cases h
  | pick =>
      simp only [ClientState.advance] at h
      split at h
      -- a pick: the budget of tries first, then the rotation
      · rename_i hphase
        split at h
        · rename_i hle
          split at h
          · rename_i pool key hnext
            cases h
            have hpool : (s.pool.nextAvailable s.now).1 = pool := by rw [hnext]
            exact ⟨_, _, _, .picked key hphase hle (by rw [hnext]), by rw [hpool]; rfl⟩
          · rename_i pool hnext
            cases h
            have hpool : (s.pool.nextAvailable s.now).1 = pool := by rw [hnext]
            exact ⟨_, _, _, .starved hphase hle (by rw [hnext]), by rw [hpool]; rfl⟩
        · rename_i hlt
          cases h
          exact ⟨_, _, _, .exhausted hphase (not_le.mp hlt), rfl⟩
      · cases h
  -- no key: how long until one is free, and whether that can be slept at all
  | measure =>
      simp only [ClientState.advance] at h
      split at h
      · rename_i hphase
        split at h
        · rename_i slept hslept
          cases h
          exact ⟨_, _, _, .measured slept hphase hslept, rfl⟩
        · rename_i hnone
          cases h
          exact ⟨_, _, _, .refused hphase hnone, rfl⟩
      · cases h
  -- after the sleep the rotation is asked once more, and then the request gives up
  | wake =>
      simp only [ClientState.advance] at h
      split at h
      · rename_i wake hphase
        split at h
        · rename_i hle
          split at h
          · rename_i pool key hnext
            cases h
            have hpool : (s.pool.nextAvailable s.now).1 = pool := by rw [hnext]
            exact ⟨_, _, _, .woken wake key hphase hle (by rw [hnext]), by rw [hpool]; rfl⟩
          · rename_i pool hnext
            cases h
            have hpool : (s.pool.nextAvailable s.now).1 = pool := by rw [hnext]
            exact ⟨_, _, _, .gaveUp wake hphase hle (by rw [hnext]), by rw [hpool]; rfl⟩
        · cases h
      · cases h
  | send =>
      simp only [ClientState.advance] at h
      split at h
      · rename_i key wake hphase
        split at h
        · rename_i hle
          cases h
          exact ⟨_, _, _, .sent key wake hphase hle, rfl⟩
        · cases h
      · cases h
  -- the outcome of a fetch, after which the request is on its own again
  | ended _ o =>
      simp only [ClientState.advance] at h
      split at h
      · rename_i key hphase
        split at h
        · cases h
        · cases h
          exact ⟨_, _, _, .ended key o hphase, rfl⟩
      · cases h

/-- A request that is handed a key goes on with it; or it is over, where Python cannot sleep so long. -/
theorem RequestCall.grant_cases (cfg : ClientConfig) (c : RequestCall) (now : ℚ) (key : String) :
    (∃ wake, c.grant cfg now key = { c with phase := .granted key wake }) ∨
      cfg.sdk = .python ∧ c.backoff cfg = none ∧ c.grant cfg now key = { c with phase := .done (.error .sleep) } := by
  unfold RequestCall.grant
  cases hbackoff : c.backoff cfg with
  | some slept => exact .inl ⟨_, rfl⟩
  | none =>
      refine .inr ⟨?_, rfl, rfl⟩
      unfold RequestCall.backoff at hbackoff
      dsimp only at hbackoff
      split at hbackoff
      · split at hbackoff
        · rename_i hfloat
          exact hfloat.1
        · exact Sdk.python_of_sleep hbackoff
      · cases hbackoff

/-! ## Tries

A request counts its tries by `attempt`, and forgets what they were but for the last error.  The ghost field `tries`
keeps them, so that the invariant can say that all of them but the last could be tried again. -/

/-- A request in its loop: whatever it has tried may be tried again. -/
structure RequestCall.Live (cfg : ClientConfig) (c : RequestCall) : Prop where
  retried : ∀ t ∈ c.tries, cfg.sdk.retries t.2 = true
  attempt : c.tries.length = c.attempt
  bound : (c.attempt : ℤ) ≤ max 0 cfg.maxRetries
  lastError : c.lastError = c.tries.head?.bind (·.2.error?)

/-- What a request returns that has made these tries: what the last one says; and without one, that every key is
parked, or that there is no try to make. -/
structure Concludes (cfg : ClientConfig) (tries : List (String × Outcome)) (r : Except RequestError Unit) : Prop where
  result : ∀ t, tries.head? = some t → r = t.2.result
  untried : tries = [] → r = .error .rateLimited ∨ r = .error .maxRetries ∧ cfg.maxRetries < 0

/-- A request that is over: only its last try was final, and says what it returns, unless a sleep raised. -/
structure RequestCall.Over (cfg : ClientConfig) (c : RequestCall) (r : Except RequestError Unit) : Prop where
  retried : ∀ t ∈ c.tries.tail, cfg.sdk.retries t.2 = true
  bound : (c.tries.length : ℤ) ≤ max 0 (cfg.maxRetries + 1)
  result : cfg.sdk = .python ∧ r = .error .sleep ∨ Concludes cfg c.tries r

/-- What holds of a request, wherever it stands: only in the loop and at its end can it have used all its tries. -/
def RequestCall.Sound (cfg : ClientConfig) (c : RequestCall) : Prop :=
  match c.phase with
  | .done r => c.Over cfg r
  | .looping => c.Live cfg
  | _ => c.Live cfg ∧ (c.attempt : ℤ) ≤ cfg.maxRetries

/-- What may be tried again is an error. -/
theorem Sdk.error_of_retries {sdk : Sdk} {o : Outcome} (h : sdk.retries o = true) :
    ∃ error, o.error? = some error ∧ o.result = .error error := by
  cases o with
  | status code d => exact ⟨_, rfl, rfl⟩
  | timeout served => exact ⟨_, rfl, rfl⟩
  | ok | malformed | unparsed | failed => cases h

namespace RequestCall

/-- Where it stands does not matter to what it has tried. -/
theorem Live.congr (h : c.Live cfg) (hattempt : c'.attempt = c.attempt) (herror : c'.lastError = c.lastError)
    (htries : c'.tries = c.tries) : c'.Live cfg := by
  refine ⟨?_, ?_, ?_, ?_⟩
  · rw [htries]
    exact h.retried
  · rw [htries, hattempt]
    exact h.attempt
  · rw [hattempt]
    exact h.bound
  · rw [herror, htries]
    exact h.lastError

/-- In its loop a request has made fewer tries than it may. -/
theorem Live.length_le (h : c.Live cfg) : (c.tries.length : ℤ) ≤ max 0 (cfg.maxRetries + 1) := by
  have hbound := h.bound
  rw [h.attempt]
  omega

/-- A sleep raises: all its tries could be tried again. -/
theorem Live.refused (h : c.Live cfg) (hsdk : cfg.sdk = .python) :
    RequestCall.Over cfg { c with phase := .done (.error .sleep) } (.error .sleep) :=
  ⟨fun t ht => h.retried t (List.mem_of_mem_tail ht), h.length_le, .inl ⟨hsdk, rfl⟩⟩

/-- It is handed a key. -/
theorem Live.grant (h : c.Live cfg) (hle : (c.attempt : ℤ) ≤ cfg.maxRetries) (now : ℚ) (key : String) :
    (c.grant cfg now key).Sound cfg := by
  rcases c.grant_cases cfg now key with ⟨wake, hgrant⟩ | ⟨hsdk, -, hgrant⟩
  · rw [hgrant]
    exact ⟨h.congr rfl rfl rfl, hle⟩
  · rw [hgrant]
    exact h.refused hsdk

/-- It gives up: what it throws is its last error, or that of a request that has tried nothing. -/
theorem Live.give_up (h : c.Live cfg) (fallback : RequestError)
    (hfallback : c.tries = [] → fallback = .rateLimited ∨ fallback = .maxRetries ∧ cfg.maxRetries < 0) :
    RequestCall.Over cfg { c with phase := .done (.error (c.lastError.getD fallback)) }
      (.error (c.lastError.getD fallback)) := by
  refine ⟨fun t ht => h.retried t (List.mem_of_mem_tail ht), h.length_le, .inr ⟨fun t ht => ?_, fun hnil => ?_⟩⟩
  · have ht : c.tries.head? = some t := ht
    obtain ⟨error, herror, hresult⟩ := Sdk.error_of_retries (h.retried t (List.mem_of_head? ht))
    rw [hresult, h.lastError, ht, Option.bind_some, herror, Option.getD_some]
  · have hnil : c.tries = [] := hnil
    have hnone : c.lastError = none := by rw [h.lastError, hnil]; rfl
    rw [hnone, Option.getD_none]
    rcases hfallback hnil with rfl | ⟨rfl, hneg⟩
    · exact .inl rfl
    · exact .inr ⟨rfl, hneg⟩

/-- A fetch of it has ended. -/
theorem Live.ended (h : c.Live cfg) (hle : (c.attempt : ℤ) ≤ cfg.maxRetries) (key : String) (o : Outcome) :
    (c.ended cfg key o).Sound cfg := by
  unfold RequestCall.ended
  split
  · rename_i hmore
    obtain ⟨hretries, hlt⟩ := hmore
    refine ⟨fun t ht => ?_, ?_, ?_, rfl⟩
    · rcases List.mem_cons.mp ht with rfl | hold
      · exact hretries
      · exact h.retried t hold
    · show c.tries.length + 1 = c.attempt + 1
      rw [h.attempt]
    · show ((c.attempt + 1 : ℕ) : ℤ) ≤ max 0 cfg.maxRetries
      omega
  · -- the last try: its own error is the one that is thrown
    refine ⟨h.retried, ?_, .inr ⟨fun t ht => ?_, fun hnil => by cases hnil⟩⟩
    · show ((c.tries.length + 1 : ℕ) : ℤ) ≤ max 0 (cfg.maxRetries + 1)
      rw [h.attempt]
      omega
    · obtain rfl := Option.some.inj ht
      rfl

/-- One operation. -/
theorem Sound.moves {pool : KeyPool} {new : List Wire} (h : c.Sound cfg) (hmoves : Moves cfg s id c c' pool new) :
    c'.Sound cfg := by
  unfold RequestCall.Sound at h
  cases hmoves with
  | picked key hphase hle =>
      rw [hphase] at h
      exact h.grant hle s.now key
  | starved hphase hle =>
      rw [hphase] at h
      exact ⟨h.congr rfl rfl rfl, hle⟩
  | exhausted hphase hlt =>
      rw [hphase] at h
      -- a loop that has turned once ends in `ended`, so this one has not turned at all
      have hneg : cfg.maxRetries < 0 := by
        have hbound := h.bound
        omega
      exact h.give_up .maxRetries fun _ => .inr ⟨rfl, hneg⟩
  | woken wake key hphase =>
      rw [hphase] at h
      exact h.1.grant h.2 s.now key
  | measured slept hphase | sent key wake hphase =>
      rw [hphase] at h
      exact ⟨h.1.congr rfl rfl rfl, h.2⟩
  | refused hphase hnone =>
      rw [hphase] at h
      exact h.1.refused (Sdk.python_of_sleep hnone)
  | gaveUp wake hphase =>
      rw [hphase] at h
      exact h.1.give_up .rateLimited fun _ => .inl rfl
  | ended key o hphase =>
      rw [hphase] at h
      exact h.1.ended h.2 key o

end RequestCall

/-- What a step does to the requests. -/
theorem ClientState.step_calls (h : s.step cfg e = some s') :
    ((∃ now, s' = { s with now } ∧ s.now ≤ now) ∨ ∃ id, e.id = some id ∧
      (s.calls id = none ∧ s' = s.setCall id {} ∨
        ∃ c c' pool new, s.calls id = some c ∧ Moves cfg s id c c' pool new ∧
          s' = { s.setCall id c' with pool, wire := new ++ s.wire })) := by
  cases e with
  | tick now =>
      simp only [ClientState.step] at h
      split at h
      · rename_i hle
        cases h
        exact .inl ⟨now, rfl, hle⟩
      · cases h
  | call id =>
      simp only [ClientState.step] at h
      split at h
      · cases h
      · rename_i hnone
        cases h
        exact .inr ⟨id, rfl, .inl ⟨hnone, rfl⟩⟩
  | _ =>
      obtain ⟨c, hc, hadvance⟩ := Option.bind_eq_some_iff.mp h
      obtain ⟨c', pool, new, hmoves, rfl⟩ := ClientState.advance_cases hadvance
      exact .inr ⟨_, rfl, .inr ⟨c, c', pool, new, hc, hmoves, rfl⟩⟩

/-- A request after an update is the one that was put there, or an old one. -/
theorem ClientState.calls_setCall {id' : ℕ} (h : (s.setCall id c).calls id' = some c') :
    id' = id ∧ c' = c ∨ id' ≠ id ∧ s.calls id' = some c' := by
  have h : Function.update s.calls id (some c) id' = some c' := h
  by_cases heq : id' = id
  · rw [heq, Function.update_self] at h
    exact .inl ⟨heq, (Option.some.inj h).symm⟩
  · rw [Function.update_of_ne heq] at h
    exact .inr ⟨heq, h⟩

/-- Every request of a client is sound, wherever the others stand. -/
theorem request_sound (h : (clientSystem cfg).Reachable s) (hc : s.calls id = some c) : c.Sound cfg := by
  refine h.invariant (I := fun s => ∀ id c, s.calls id = some c → c.Sound cfg) ?_ ?_ id c hc
  · rintro s ⟨-, now, rfl⟩ id c hc
    cases hc
  · intro s e s' hs hstep id' c' hc'
    rcases ClientState.step_calls hstep with ⟨now, rfl, -⟩ | ⟨id, -, ⟨-, rfl⟩ | ⟨c, c₁, pool, new, hc, hmoves, rfl⟩⟩
    · exact hs id' c' hc'
    · rcases ClientState.calls_setCall hc' with ⟨-, rfl⟩ | ⟨-, hold⟩
      · exact ⟨by simp, rfl, by simp, rfl⟩
      · exact hs id' c' hold
    · rcases ClientState.calls_setCall hc' with ⟨-, rfl⟩ | ⟨-, hold⟩
      · exact (hs id c hc).moves hmoves
      · exact hs id' c' hold

/-! ## What went over the wire

`tries` is what a request knows of itself.  That it is also what went over the wire is an invariant of its own. -/

namespace Wire

/-- A try of this request that has ended. -/
def tryOf (id : ℕ) : Wire → Option (String × Outcome)
  | .ended id' key o _ => if id' = id then some (key, o) else none
  | .sent .. => none

/-- A fetch of this request. -/
def isSentBy (id : ℕ) : Wire → Bool
  | .sent id' _ _ => id' == id
  | .ended .. => false

end Wire

/-- It waits for the end of a fetch. -/
def RequestCall.isFetching (c : RequestCall) : Bool :=
  match c.phase with
  | .fetching _ => true
  | _ => false

/-- The wire knows the tries of a request, and the fetch it waits for. -/
def Wired (wire : List Wire) (id : ℕ) (c : Option RequestCall) : Prop :=
  wire.filterMap (Wire.tryOf id) = c.elim [] (·.tries) ∧
    wire.countP (Wire.isSentBy id) = c.elim 0 fun c => c.tries.length + c.isFetching.toNat

/-- A request that is handed a key has sent nothing yet. -/
theorem RequestCall.grant_tries (cfg : ClientConfig) (c : RequestCall) (now : ℚ) (key : String) :
    (c.grant cfg now key).tries = c.tries ∧ (c.grant cfg now key).isFetching = false := by
  rcases c.grant_cases cfg now key with ⟨wake, hgrant⟩ | ⟨-, -, hgrant⟩
  · rw [hgrant]
    exact ⟨rfl, rfl⟩
  · rw [hgrant]
    exact ⟨rfl, rfl⟩

/-- A fetch that ends is the newest try. -/
theorem RequestCall.ended_tries (cfg : ClientConfig) (c : RequestCall) (key : String) (o : Outcome) :
    (c.ended cfg key o).tries = (key, o) :: c.tries ∧ (c.ended cfg key o).isFetching = false := by
  unfold RequestCall.ended
  split <;> exact ⟨rfl, rfl⟩

/-- An operation keeps the wire and the tries of its own request in step. -/
theorem Wired.moves {wire new : List Wire} {pool : KeyPool} (h : Wired wire id (some c))
    (hmoves : Moves cfg s id c c' pool new) : Wired (new ++ wire) id (some c') := by
  obtain ⟨htries, hsent⟩ := h
  -- what is not over the wire is not counted
  have hquiet : new = [] → c.isFetching = false → c'.isFetching = false → c'.tries = c.tries →
      Wired (new ++ wire) id (some c') := by
    intro hnew hbefore hafter hsame
    subst hnew
    refine ⟨htries.trans hsame.symm, hsent.trans ?_⟩
    show c.tries.length + c.isFetching.toNat = c'.tries.length + c'.isFetching.toNat
    rw [hbefore, hafter, hsame]
  cases hmoves with
  | picked key hphase | woken wake key hphase =>
      obtain ⟨hsame, hidle⟩ := c.grant_tries cfg s.now key
      exact hquiet rfl (by rw [RequestCall.isFetching, hphase]) hidle hsame
  | starved hphase | exhausted hphase | measured slept hphase | refused hphase | gaveUp wake hphase =>
      exact hquiet rfl (by rw [RequestCall.isFetching, hphase]) rfl rfl
  | sent key wake hphase =>
      refine ⟨htries, ?_⟩
      rw [List.singleton_append, List.countP_cons, hsent]
      simp [Wire.isSentBy, RequestCall.isFetching, hphase]
  | ended key o hphase =>
      obtain ⟨htries', hfetching⟩ := c.ended_tries cfg key o
      refine ⟨?_, ?_⟩
      · rw [List.singleton_append, List.filterMap_cons_some (b := (key, o)) (by simp [Wire.tryOf]), htries]
        exact htries'.symm
      · rw [List.singleton_append, List.countP_cons, hsent, Option.elim_some, Option.elim_some, htries', hfetching]
        simp [Wire.isSentBy, RequestCall.isFetching, hphase]

/-- The others stay as they are. -/
theorem Wired.others {wire new : List Wire} {pool : KeyPool} {id' : ℕ} {o : Option RequestCall} (h : Wired wire id' o)
    (hne : id' ≠ id) (hmoves : Moves cfg s id c c' pool new) : Wired (new ++ wire) id' o := by
  obtain ⟨htries, hsent⟩ := h
  cases hmoves with
  | sent key wake hphase => exact ⟨htries, by simpa [Wire.isSentBy, hne.symm] using hsent⟩
  | ended key o hphase => exact ⟨by simpa [Wire.tryOf, hne.symm] using htries, hsent⟩
  | _ => exact ⟨htries, hsent⟩

/-- So they are in every reachable state, for every request. -/
theorem request_wired (h : (clientSystem cfg).Reachable s) (id : ℕ) : Wired s.wire id (s.calls id) := by
  refine h.invariant (I := fun s => ∀ id, Wired s.wire id (s.calls id)) ?_ ?_ id
  · rintro s ⟨-, now, rfl⟩ id
    exact ⟨rfl, rfl⟩
  · intro s e s' hs hstep id'
    rcases ClientState.step_calls hstep with ⟨now, rfl, -⟩ | ⟨id, -, ⟨hnone, rfl⟩ | ⟨c, c₁, pool, new, hc, hmoves, rfl⟩⟩
    · exact hs id'
    · show Wired s.wire id' (Function.update s.calls id (some {}) id')
      by_cases heq : id' = id
      · have hid := hs id
        rw [hnone] at hid
        rw [heq, Function.update_self]
        exact ⟨hid.1, hid.2⟩
      · rw [Function.update_of_ne heq]
        exact hs id'
    · show Wired (new ++ s.wire) id' (Function.update s.calls id (some c₁) id')
      by_cases heq : id' = id
      · have hid := hs id
        rw [hc] at hid
        rw [heq, Function.update_self]
        exact hid.moves hmoves
      · rw [Function.update_of_ne heq]
        exact (hs id').others heq hmoves

/-- What holds of a request says how many fetches it sends, and what it returns. -/
theorem RequestCall.Sound.spec (h : c.Sound cfg) :
    ((c.tries.length + c.isFetching.toNat : ℕ) : ℤ) ≤ max 0 (cfg.maxRetries + 1) ∧
    (∀ t ∈ c.tries.tail, cfg.sdk.retries t.2 = true) ∧
    ∀ r, c.phase = .done r → c.isFetching = false ∧
      (cfg.sdk = .python ∧ r = .error .sleep ∨ Concludes cfg c.tries r) := by
  unfold RequestCall.Sound at h
  -- a request that is on its way: so many tries as attempts, and each of them to be tried again
  have hlive : c.Live cfg → (c.isFetching = true → (c.attempt : ℤ) ≤ cfg.maxRetries) →
      ((c.tries.length + c.isFetching.toNat : ℕ) : ℤ) ≤ max 0 (cfg.maxRetries + 1) ∧
      ∀ t ∈ c.tries.tail, cfg.sdk.retries t.2 = true := by
    intro hlive hle
    refine ⟨?_, fun t ht => hlive.retried t (List.mem_of_mem_tail ht)⟩
    have hbound := hlive.bound
    rw [hlive.attempt]
    cases hfetching : c.isFetching with
    | true =>
        have hroom := hle hfetching
        simp only [Bool.toNat_true]
        omega
    | false =>
        simp only [Bool.toNat_false]
        omega
  cases hphase : c.phase with
  -- a request that is over has kept its account
  | done r =>
      rw [hphase] at h
      have hidle : c.isFetching = false := by rw [RequestCall.isFetching, hphase]
      refine ⟨by rw [hidle]; exact h.bound, h.retried, fun r' hr => ?_⟩
      obtain rfl := Phase.done.inj hr
      exact ⟨hidle, h.result⟩
  | looping =>
      rw [hphase] at h
      have hidle : c.isFetching = false := by rw [RequestCall.isFetching, hphase]
      obtain ⟨hbound, hretried⟩ := hlive h fun hfetching => by rw [hidle] at hfetching; cases hfetching
      exact ⟨hbound, hretried, fun r hr => by cases hr⟩
  | _ =>
      rw [hphase] at h
      obtain ⟨hbound, hretried⟩ := hlive h.1 fun _ => h.2
      exact ⟨hbound, hretried, fun r hr => by cases hr⟩

/-- **Tries are bounded, and only the last one is final.**  In every reachable state of a client, however its requests
interleave: a request sends at most `maxRetries + 1` fetches; every fetch of it but the last that ended could be tried
again; and a request that is over waits for none, and returns what its last fetch says, or has found every key parked
before it could send one, or was to sleep longer than Python can. -/
theorem request_tries (h : (clientSystem cfg).Reachable s) (hc : s.calls id = some c) :
    (s.wire.countP (Wire.isSentBy id) : ℤ) ≤ max 0 (cfg.maxRetries + 1) ∧
    (∀ t ∈ (s.wire.filterMap (Wire.tryOf id)).tail, cfg.sdk.retries t.2 = true) ∧
    ∀ r, c.phase = .done r →
      s.wire.countP (Wire.isSentBy id) = (s.wire.filterMap (Wire.tryOf id)).length ∧
      (cfg.sdk = .python ∧ r = .error .sleep ∨ Concludes cfg (s.wire.filterMap (Wire.tryOf id)) r) := by
  obtain ⟨htries, hsent⟩ := request_wired h id
  rw [hc, Option.elim_some] at htries hsent
  obtain ⟨hbound, hretried, hdone⟩ := (request_sound h hc).spec
  rw [htries, hsent]
  refine ⟨hbound, hretried, fun r hr => ?_⟩
  obtain ⟨hidle, hresult⟩ := hdone r hr
  exact ⟨by rw [hidle]; rfl, hresult⟩

theorem request_tries_parked : ∃ s c, (clientSystem twoKeys).Reachable s ∧ s.calls 0 = some c ∧
    c.phase = .done (.ok ()) ∧ (s.wire.countP (Wire.isSentBy 0) : ℤ) ≤ max 0 (twoKeys.maxRetries + 1) ∧
    (∀ t ∈ (s.wire.filterMap (Wire.tryOf 0)).tail, twoKeys.sdk.retries t.2 = true) ∧
    ∀ r, c.phase = .done r →
      s.wire.countP (Wire.isSentBy 0) = (s.wire.filterMap (Wire.tryOf 0)).length ∧
      (twoKeys.sdk = .python ∧ r = .error .sleep ∨ Concludes twoKeys (s.wire.filterMap (Wire.tryOf 0)) r) := by
  obtain ⟨s, c, hrun, hc, hphase, -⟩ := exists_parkedRequest
  have hreach : (clientSystem twoKeys).Reachable s := ⟨_, _, ⟨twoKeys_opens, 0, rfl⟩, hrun.of_restrict⟩
  exact ⟨s, c, hreach, hc, hphase, request_tries hreach hc⟩

/-! ## What the pool counts

The counters belong to the pool, and the pool is told by every request.  Each report goes to one counter of one key,
and each `ended` on the wire makes one report at most, so the two are counted against each other. -/

/-- The counters of a key. -/
inductive Counter where
  | success
  | failure
  | rateLimit
  deriving DecidableEq

/-- The counter of a key, by its name. -/
def KeyState.count (st : KeyState) : Counter → ℕ
  | .success => st.successCount
  | .failure => st.failureCount
  | .rateLimit => st.rateLimitCount

/-- The counter a fetch goes to that ends so; a 429 that is not reported goes to none. -/
def Outcome.counter : Outcome → Option Counter
  | .ok | .malformed | .timeout true => some .success
  | .status code _ => some (if code = 429 then .rateLimit else .failure)
  | .unparsed | .timeout false | .failed => none

/-- A fetch with this key that goes to this counter. -/
def Wire.counts (key : String) (counter : Counter) : Wire → Bool
  | .ended _ key' o _ => decide (key' = key ∧ o.counter = some counter)
  | .sent .. => false

/-- A key is there once, so a report changes one state of the list. -/
theorem mem_modifyKey {key : String} {f : KeyState → KeyState} {st : KeyState} :
    ∀ {l : List KeyState}, (l.map (·.key)).Nodup → st ∈ modifyKey key f l →
      st.key ≠ key ∧ st ∈ l ∨ ∃ st₀ ∈ l, st₀.key = key ∧ st = f st₀
  | [], _, h => by cases h
  | x :: rest, hnodup, h => by
      rw [List.map_cons, List.nodup_cons] at hnodup
      unfold modifyKey at h
      split at h
      · rename_i hx
        rcases List.mem_cons.mp h with rfl | hrest
        · exact .inr ⟨x, List.mem_cons_self, hx, rfl⟩
        · refine .inl ⟨fun heq => hnodup.1 ?_, List.mem_cons_of_mem _ hrest⟩
          rw [hx, ← heq]
          exact List.mem_map_of_mem hrest
      · rename_i hx
        rcases List.mem_cons.mp h with rfl | hrest
        · exact .inl ⟨hx, List.mem_cons_self⟩
        · rcases mem_modifyKey hnodup.2 hrest with ⟨hne, hold⟩ | ⟨st₀, hold, hkey, rfl⟩
          · exact .inl ⟨hne, List.mem_cons_of_mem _ hold⟩
          · exact .inr ⟨st₀, List.mem_cons_of_mem _ hold, hkey, rfl⟩

/-- A report goes to one counter of one key. -/
theorem count_report {sdk : Sdk} {p : KeyPool} {now : ℚ} {key : String} {o : Outcome} {st : KeyState}
    (h : st ∈ ((o.report now key).elim p (Usage.act sdk p)).keys) :
    ∃ st₀ ∈ p.keys, st₀.key = st.key ∧ ∀ counter,
      st.count counter = st₀.count counter + (decide (key = st.key ∧ o.counter = some counter)).toNat := by
  -- a report that changes the state of its key
  have hmodify : ∀ {f : KeyState → KeyState} (hf : ∀ s, (f s).key = s.key) (counter₀ : Counter),
      st ∈ (p.modify key f hf).keys → o.counter = some counter₀ →
      (∀ st₀ counter, (f st₀).count counter = KeyState.count st₀ counter + (decide (counter₀ = counter)).toNat) →
      ∃ st₀ ∈ p.keys, st₀.key = st.key ∧ ∀ counter,
        st.count counter = st₀.count counter + (decide (key = st.key ∧ o.counter = some counter)).toNat := by
    intro f hf counter₀ hmem hcounter hcount
    rcases mem_modifyKey p.distinct hmem with ⟨hne, hold⟩ | ⟨st₀, hold, hkey, rfl⟩
    · exact ⟨st, hold, rfl, fun counter => by simp [hne.symm]⟩
    · refine ⟨st₀, hold, (hf st₀).symm, fun counter => ?_⟩
      rw [hcount, hcounter, hf, hkey]
      simp
  have hsilent : o.counter = none → st ∈ p.keys → ∃ st₀ ∈ p.keys, st₀.key = st.key ∧ ∀ counter,
      st.count counter = st₀.count counter + (decide (key = st.key ∧ o.counter = some counter)).toNat :=
    fun hcounter hmem => ⟨st, hmem, rfl, fun counter => by simp [hcounter]⟩
  have hsuccess : ∀ st₀ counter, KeyState.count { st₀ with
      successCount := st₀.successCount + 1, rateLimitedUntil := none, lastFailureReason := none } counter =
      KeyState.count st₀ counter + (decide (Counter.success = counter)).toNat := by
    intro st₀ counter
    cases counter <;> rfl
  cases o with
  | ok | malformed => exact hmodify (by intro st₀; rfl) .success h rfl hsuccess
  | timeout served =>
      cases served with
      | true => exact hmodify (by intro st₀; rfl) .success h rfl hsuccess
      | false => exact hsilent rfl h
  | unparsed | failed => exact hsilent rfl h
  | status code d =>
      simp only [Outcome.report] at h
      by_cases hcode : code = 429
      · rw [if_pos hcode] at h
        refine hmodify (by intro st₀; rfl) .rateLimit h (by simp [Outcome.counter, hcode]) fun st₀ counter => ?_
        cases counter <;> rfl
      · rw [if_neg hcode] at h
        refine hmodify (by intro st₀; rfl) .failure h (by simp [Outcome.counter, hcode]) fun st₀ counter => ?_
        cases counter <;> rfl

/-- **The statistics are exact.**  In every reachable state of a client, however its requests interleave, every counter
of every key is the number of fetches with that key that ended so; a fetch that runs into the time limit or into another
exception is in none of them, and neither is a 429 on whose `Retry-After` Python's parser raises. -/
theorem key_stats_exact (h : (clientSystem cfg).Reachable s) :
    ∀ st ∈ s.pool.keys, ∀ counter, st.count counter = s.wire.countP (Wire.counts st.key counter) := by
  refine h.invariant
    (I := fun s => ∀ st ∈ s.pool.keys, ∀ counter, st.count counter = s.wire.countP (Wire.counts st.key counter)) ?_ ?_
  · rintro s ⟨-, now, rfl⟩ st hst counter
    obtain ⟨key, -, rfl⟩ := List.mem_map.mp hst
    cases counter <;> rfl
  · intro s e s' hs hstep
    have hsame : ∀ st ∈ (s.pool.nextAvailable s.now).1.keys, ∀ counter,
        st.count counter = s.wire.countP (Wire.counts st.key counter) := by
      rw [KeyPool.keys_nextAvailable]
      exact hs
    rcases ClientState.step_calls hstep with ⟨now, rfl, -⟩ | ⟨id, -, ⟨-, rfl⟩ | ⟨c, c₁, pool, new, -, hmoves, rfl⟩⟩
    · exact hs
    · exact hs
    · cases hmoves with
      -- the cursor moves, the counters do not
      | picked | starved | woken | gaveUp => exact hsame
      | exhausted | measured | refused => exact hs
      | sent key wake hphase =>
          intro st hst counter
          show _ = (Wire.sent id key s.now :: s.wire).countP _
          rw [List.countP_cons_of_neg (by simp [Wire.counts])]
          exact hs st hst counter
      | ended key o hphase =>
          intro st hst counter
          obtain ⟨st₀, hold, hkey, hcount⟩ := count_report hst
          show _ = (Wire.ended id key o s.now :: s.wire).countP _
          rw [hcount, hs st₀ hold counter, hkey, List.countP_cons]
          congr 1
          by_cases hhit : key = st.key ∧ o.counter = some counter <;> simp [Wire.counts, hhit]

theorem key_stats_exact_parked : ∃ s, (clientSystem twoKeys).Reachable s ∧ s.wire.length = 6 ∧
    ∀ st ∈ s.pool.keys, ∀ counter, st.count counter = s.wire.countP (Wire.counts st.key counter) := by
  obtain ⟨s, c, hrun, -, -, hwire⟩ := exists_parkedRequest
  have hreach : (clientSystem twoKeys).Reachable s := ⟨_, _, ⟨twoKeys_opens, 0, rfl⟩, hrun.of_restrict⟩
  exact ⟨s, hreach, by rw [hwire]; rfl, key_stats_exact hreach⟩

end Flock.Client
