/-
# Flock.Router.Outcomes — what one upstream outcome does to the router, on the two request paths.

A buffered request records its outcome through `finish_failure` or `finish_success`, as `retryable_status` says; a
streaming request through `record_attempt`.  Both write the breaker of the registered runtime and the healthy
flag; `Feed` is that part alone, and each path is seen to feed it one bit, its own reading of the status
(`recordBuffered_feed`, `recordAttempt_feed`).  The readings differ on the 5xx statuses that are not in the list
of `retryable_status`.

Counters and the write-behind persistence are not part of this state.
-/
import Flock.Governor
import Flock.Router.System

namespace Flock

/-- The router with the governors of its runtimes and the operator's pins. -/
structure Routed where
  router : Router
  governors : ℕ → Governor
  governorOverrides : List (String × ℕ)

/-- `Acquired`, as far as the outcome is recorded from it: the slot is a lane of one generation of a pool
handle. -/
structure Acquired where
  provider : String
  model : String
  strategy : Strategy
  slotPool : ℕ
  slotGen : ℕ
  slotLane : ℕ
  session : Option String

/-- One upstream outcome, and when it is recorded. A status of 0 is a connection failure. -/
structure UpstreamOutcome where
  status : ℕ
  workerExhausted : Bool
  /-- `Retry-After`, in nanoseconds. -/
  retryAfter : Option ℕ
  latencyMs : ℚ
  now : ℤ
  nowUnix : ℕ

/-- `retryable_status`. -/
def retryableStatus (status : ℕ) : Bool := status ∈ [429, 500, 502, 503, 504]

/-- The test of `finish_failure` and of `record_attempt`: the provider failed. -/
def providerFailed (status : ℕ) : Bool := status == 0 || status == 429 || decide (status ≥ 500)

namespace Routed

/-- The breaker and the healthy flag after a failure, or after a success. -/
def mark (r : Routed) (provider : String) (a : ℕ) (failed : Bool) (o : UpstreamOutcome) : Routed :=
  let router := r.router.setCircuit a fun c => if failed then c.recordFailure o.now o.nowUnix else c.recordSuccess
  { r with router := { router with health := router.health.recordHealth provider (!failed) o.nowUnix } }

/-- `health.record_latency`. -/
def measure (r : Routed) (provider : String) (o : UpstreamOutcome) : Routed :=
  { r with router := { r.router with health := r.router.health.recordLatency provider o.latencyMs } }

/-- `note_exhausted` on the governor of a runtime. -/
def exhaust (r : Routed) (a : ℕ) (model : String) (now : ℤ) : Routed :=
  let g := (r.router.objs a).governor
  let governor := (r.governors g).noteExhaustedAt model (r.governorOverrides.lookup model) now
  { r with governors := Function.update r.governors g governor }

/-- `slot.pool.penalize(slot.lane, backoff)`. -/
def cool (r : Routed) (acq : Acquired) (backoff : ℕ) (now : ℤ) : Routed :=
  let h := r.router.pools acq.slotPool
  let h := h.setGen acq.slotGen ((h.gens acq.slotGen).penalize acq.slotLane now backoff)
  { r with router := Fleet.setHandle r.router acq.slotPool h }

/-- `finish_success`. -/
def finishSuccess (r : Routed) (acq : Acquired) (o : UpstreamOutcome) : Routed :=
  match r.router.runtimes acq.provider with
  | none => r
  | some a =>
      let r := (r.mark acq.provider a false o).measure acq.provider o
      match acq.strategy, acq.session with
      | .stickyAffinity, some session =>
          let ttl := r.router.routing.stickyTtl
          let health := r.router.health.setSticky session acq.provider ttl o.nowUnix
          { r with router := { r.router with health } }
      | _, _ => r

/-- The lane cooldown of `finish_failure`: 5 s after a connection failure, `Retry-After` or 10 s after a 429 or a
5xx, none where the model's workers are exhausted. -/
def cooldownFor (status : ℕ) (workerExhausted : Bool) (retryAfter : Option ℕ) : Option ℕ :=
  if workerExhausted then none
  else if status = 0 then some (secs 5)
  else if status = 429 ∨ status ≥ 500 then some (retryAfter.getD (secs 10))
  else none

/-- `finish_failure`. -/
def finishFailure (r : Routed) (acq : Acquired) (o : UpstreamOutcome) : Routed :=
  match r.router.runtimes acq.provider with
  | none => r
  | some a =>
      let r := if providerFailed o.status then r.mark acq.provider a true o else r
      let r := match cooldownFor o.status o.workerExhausted o.retryAfter with
        | some backoff => r.cool acq backoff o.now
        | none => r
      if o.workerExhausted then r.exhaust a acq.model o.now else r

/-- `record_attempt`. -/
def recordAttempt (r : Routed) (provider model : String) (o : UpstreamOutcome) : Routed :=
  match r.router.runtimes provider with
  | none => r
  | some a =>
      let r := (r.mark provider a (providerFailed o.status) o).measure provider o
      if o.workerExhausted then r.exhaust a model o.now else r

/-- What `execute_buffered` records of one attempt off the chat path: a connection failure has no status to
classify, no body to sniff and no `Retry-After`; a status that is not retryable is a success. -/
def recordBuffered (r : Routed) (acq : Acquired) (o : UpstreamOutcome) : Routed :=
  if o.status = 0 then r.finishFailure acq { o with workerExhausted := false, retryAfter := none }
  else if retryableStatus o.status then r.finishFailure acq o
  else r.finishSuccess acq o

/-! ## The part both paths feed -/

/-- The breaker of the runtime registered under a name, and its healthy flag. -/
abbrev Feed := Option (CircuitBreaker × Option Bool)

/-- One outcome, read as a failure or as a success. -/
def Feed.take (failed : Bool) (o : UpstreamOutcome) (v : Feed) : Feed :=
  v.map fun x =>
    (if failed then x.1.recordFailure o.now o.nowUnix else x.1.recordSuccess, some !failed)

/-- The part of the state that is fed. -/
def feed (r : Routed) (provider : String) : Feed :=
  (r.router.runtimes provider).map fun a => ((r.router.objs a).circuit, r.router.health.healthy provider)

/-- How the buffered path reads a status. -/
def bufferedFailed (status : ℕ) : Bool := status == 0 || retryableStatus status

variable {r : Routed} {acq : Acquired} {provider model : String} {o : UpstreamOutcome} {a : ℕ}

theorem feed_mark (hreg : r.router.runtimes provider = some a) (failed : Bool) :
    (r.mark provider a failed o).feed provider = (r.feed provider).take failed o := by
  have hreg' : (r.mark provider a failed o).router.runtimes provider = some a := hreg
  unfold feed
  rw [hreg, hreg']
  simp [mark, Router.setCircuit, HealthDb.recordHealth, Feed.take]

theorem feed_unregistered (h : r.router.runtimes provider = none) : r.feed provider = none := by
  unfold feed
  rw [h]
  rfl

theorem finishSuccess_feed (r : Routed) (acq : Acquired) (o : UpstreamOutcome) :
    (r.finishSuccess acq o).feed acq.provider = (r.feed acq.provider).take false o := by
  unfold finishSuccess
  split
  · rename_i hnone
    rw [feed_unregistered hnone]
    rfl
  · rename_i a hreg
    have hmark := feed_mark (o := o) hreg false
    dsimp only
    split <;> exact hmark

theorem finishFailure_feed (r : Routed) (acq : Acquired) (o : UpstreamOutcome)
    (hfailed : providerFailed o.status = true) :
    (r.finishFailure acq o).feed acq.provider = (r.feed acq.provider).take true o := by
  unfold finishFailure
  split
  · rename_i hnone
    rw [feed_unregistered hnone]
    rfl
  · rename_i a hreg
    have hmark := feed_mark (o := o) hreg true
    dsimp only
    rw [if_pos hfailed]
    split <;> split <;> exact hmark

/-- A retryable status is a failure by the other test too. -/
theorem providerFailed_of_bufferedFailed {status : ℕ} (h : bufferedFailed status = true) :
    providerFailed status = true := by
  simp [bufferedFailed, retryableStatus] at h
  simp [providerFailed]
  omega

/-- **The buffered path feeds its reading of the status.** -/
theorem recordBuffered_feed (r : Routed) (acq : Acquired) (o : UpstreamOutcome) :
    (r.recordBuffered acq o).feed acq.provider = (r.feed acq.provider).take (bufferedFailed o.status) o := by
  unfold recordBuffered
  by_cases hzero : o.status = 0
  · have hfailed : bufferedFailed o.status = true := by simp [bufferedFailed, hzero]
    rw [if_pos hzero, hfailed]
    exact finishFailure_feed r acq { o with workerExhausted := false, retryAfter := none }
      (providerFailed_of_bufferedFailed hfailed)
  · rw [if_neg hzero]
    cases hretry : retryableStatus o.status with
    | true =>
        have hfailed : bufferedFailed o.status = true := by simp [bufferedFailed, hretry]
        rw [if_pos rfl, finishFailure_feed _ _ _ (providerFailed_of_bufferedFailed hfailed), hfailed]
    | false =>
        have hfailed : bufferedFailed o.status = false := by simp [bufferedFailed, hzero, hretry]
        rw [if_neg (by decide), finishSuccess_feed, hfailed]

/-- **The streaming path feeds the other one.** -/
theorem recordAttempt_feed (r : Routed) (provider model : String) (o : UpstreamOutcome) :
    (r.recordAttempt provider model o).feed provider =
      (r.feed provider).take (providerFailed o.status) o := by
  unfold recordAttempt
  split
  · rename_i hnone
    rw [feed_unregistered hnone]
    rfl
  · rename_i a hreg
    have hmark := feed_mark (o := o) hreg (providerFailed o.status)
    dsimp only
    split <;> exact hmark

/-! ## Sequences of outcomes -/

/-- Outcomes recorded on the buffered path, each with the attempt it ends. -/
def bufferedRun (r : Routed) (provider : String) (os : List (Acquired × UpstreamOutcome)) : Routed :=
  os.foldl (fun r x => r.recordBuffered { x.1 with provider := provider } x.2) r

/-- The same outcomes on the streaming path. -/
def streamingRun (r : Routed) (provider : String) (os : List (Acquired × UpstreamOutcome)) : Routed :=
  os.foldl (fun r x => r.recordAttempt provider x.1.model x.2) r

/-- The two readings of a status agree: it is below 500, or one of the four that are retried. -/
def Agreed (status : ℕ) : Prop := status < 500 ∨ status ∈ [500, 502, 503, 504]

theorem agreed_iff (status : ℕ) : Agreed status ↔ bufferedFailed status = providerFailed status := by
  rw [Bool.eq_iff_iff]
  simp [Agreed, bufferedFailed, retryableStatus, providerFailed]
  omega

/-- Two readings leave different healthy flags. -/
theorem Feed.take_inj {v : Feed} (hv : v.isSome = true) {f g : Bool} (h : v.take f o = v.take g o) : f = g := by
  obtain ⟨x, rfl⟩ := Option.isSome_iff_exists.mp hv
  simp only [Feed.take, Option.map_some, Option.some.injEq, Prod.mk.injEq] at h
  simpa using h.2

theorem bufferedRun_concat (r : Routed) (provider : String) (os : List (Acquired × UpstreamOutcome))
    (x : Acquired × UpstreamOutcome) :
    (r.bufferedRun provider (os ++ [x])).feed provider =
      ((r.bufferedRun provider os).feed provider).take (bufferedFailed x.2.status) x.2 := by
  unfold bufferedRun
  rw [List.foldl_append]
  exact recordBuffered_feed _ { x.1 with provider := provider } x.2

theorem streamingRun_concat (r : Routed) (provider : String) (os : List (Acquired × UpstreamOutcome))
    (x : Acquired × UpstreamOutcome) :
    (r.streamingRun provider (os ++ [x])).feed provider =
      ((r.streamingRun provider os).feed provider).take (providerFailed x.2.status) x.2 := by
  unfold streamingRun
  rw [List.foldl_append]
  exact recordAttempt_feed _ provider x.1.model x.2

theorem bufferedRun_isSome (r : Routed) (provider : String) (os : List (Acquired × UpstreamOutcome)) :
    ((r.bufferedRun provider os).feed provider).isSome = (r.feed provider).isSome := by
  induction os using List.reverseRecOn with
  | nil => rfl
  | append_singleton os x ih =>
      rw [bufferedRun_concat, Feed.take, Option.isSome_map, ih]

/-- **Exactly where both paths feed the breaker alike.**  Recording any sequence of outcomes leaves the same
breaker and the same healthy flag on both paths, after each of them, if and only if the provider is not
registered or the two readings agree on every status. -/
theorem feeds_alike_iff (r : Routed) (provider : String) (os : List (Acquired × UpstreamOutcome)) :
    (∀ ps, ps <+: os →
      (r.bufferedRun provider ps).feed provider = (r.streamingRun provider ps).feed provider) ↔
    r.router.runtimes provider = none ∨ ∀ x ∈ os, Agreed x.2.status := by
  have hreg : r.router.runtimes provider = none ↔ (r.feed provider).isSome = false := by
    unfold feed
    cases r.router.runtimes provider <;> simp
  rw [hreg]
  induction os using List.reverseRecOn with
  | nil =>
      simp only [List.prefix_nil, List.not_mem_nil, false_imp_iff, implies_true, or_true, iff_true]
      rintro ps rfl
      rfl
  | append_singleton os x ih =>
      have hsplit : (∀ ps, ps <+: os ++ [x] →
            (r.bufferedRun provider ps).feed provider = (r.streamingRun provider ps).feed provider) ↔
          (∀ ps, ps <+: os →
            (r.bufferedRun provider ps).feed provider = (r.streamingRun provider ps).feed provider) ∧
          (r.bufferedRun provider (os ++ [x])).feed provider =
            (r.streamingRun provider (os ++ [x])).feed provider := by
        constructor
        · intro h
          exact ⟨fun ps hps => h ps (hps.trans (List.prefix_append os [x])), h _ (List.prefix_refl _)⟩
        · rintro ⟨h, hlast⟩ ps hps
          rcases List.prefix_concat_iff.mp hps with rfl | hps
          · exact hlast
          · exact h ps hps
      rw [hsplit]
      constructor
      · rintro ⟨h, hlast⟩
        have heq := h os (List.prefix_refl os)
        rw [bufferedRun_concat, streamingRun_concat, ← heq] at hlast
        cases hsome : (r.feed provider).isSome with
        | false => exact .inl rfl
        | true =>
            -- the last outcome is read alike, or the healthy flags differ
            have hread := Feed.take_inj (by rw [bufferedRun_isSome, hsome]) hlast
            have hbefore := (ih.mp h).resolve_left (by rw [hsome]; decide)
            refine .inr fun y hy => ?_
            rcases List.mem_append.mp hy with hy | hy
            · exact hbefore y hy
            · rw [List.mem_singleton.mp hy]
              exact (agreed_iff x.2.status).mpr hread
      · intro h
        have hbefore : (r.feed provider).isSome = false ∨ ∀ y ∈ os, Agreed y.2.status :=
          h.imp_right fun h y hy => h y (List.mem_append_left _ hy)
        have hall := ih.mpr hbefore
        refine ⟨hall, ?_⟩
        rw [bufferedRun_concat, streamingRun_concat, ← hall os (List.prefix_refl os)]
        rcases h with hnone | h
        · have hempty : (r.bufferedRun provider os).feed provider = none := by
            rw [← Option.isSome_eq_false_iff.trans Option.isNone_iff_eq_none, bufferedRun_isSome, hnone]
          rw [hempty]
          rfl
        · have hread := (agreed_iff x.2.status).mp (h x (by simp))
          rw [hread]

/-- A router with one provider. -/
def single : Routed where
  router := ((Router.empty {}).build (fun _ => none) { name := "nvidia" } 0).1.register "nvidia" 0
  governors := fun _ => .empty
  governorOverrides := []

/-- One answer with a status, on the one provider. -/
def answered (status : ℕ) : Acquired × UpstreamOutcome :=
  (⟨"nvidia", "m", .hybrid, 0, 0, 0, none⟩, ⟨status, false, none, 1, 0, 1⟩)

/-- A 501 is a success of the buffered path and a failure of the streaming one. -/
theorem not_implemented_fed_differently :
    (single.bufferedRun "nvidia" [answered 501]).feed "nvidia" =
      some (.astmatrixDefaults, some true) ∧
    (single.streamingRun "nvidia" [answered 501]).feed "nvidia" =
      some ({ CircuitBreaker.astmatrixDefaults with failures := 1 }, some false) := by
  decide

end Routed

end Flock
