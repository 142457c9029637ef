/-
# Flock.Router.Backoff — a `Retry-After`, on its way to two clocks.

An upstream names its back-off in decimal seconds, and every `u64` is accepted.  Nothing bounds the number before it
is added to the monotone clock, whose seconds are an `i64`, and in milliseconds to the unix time, an `u64`.

    streaming   backoff_for       enter_cooldown    penalize
    buffered    execute_buffered  finish_failure    penalize, PersistOp::Cooldown

The first sum panics outside its range; the second wraps in a release build.
-/
import Flock.Router.Cooldowns
import Flock.Router.Execute

namespace Flock

namespace UpstreamResponse

/-- The header, as both paths parse it. -/
def retryAfterSecs (r : UpstreamResponse) : Option ℕ := r.retryAfter.bind (Text.parseUnsigned 64)

/-- `backoff_for`. -/
def backoffFor (r : UpstreamResponse) : ℕ := (r.retryAfterSecs.map secs).getD (secs 10)

/-- `is_worker_exhausted`, of the text of the answer. -/
def exhausted (r : UpstreamResponse) : Bool := isWorkerExhausted (r.text.getD "")

/-- The call of `finish_failure` that `execute_buffered` makes for an answer it retries. -/
def failureCall (r : UpstreamResponse) (acq : Acquired) (wall : ℕ) : FailureCall :=
  ⟨acq, r.status, r.exhausted, r.retryAfterSecs, wall⟩

end UpstreamResponse

namespace Routed

/-- `enter_cooldown`; `none`: `Instant::now() + backoff` panics. -/
def enterCooldown (r : Routed) (acq : Acquired) (backoff : ℕ) (now : ℤ) : Option Routed :=
  if now + backoff < 2 ^ 63 * secs 1 then some (r.cool acq backoff now) else none

/-- What `streaming` does to the lane on an answer that it retries.  A model whose workers are exhausted is left to
the governor. -/
def streamingBackOff (r : Routed) (acq : Acquired) (resp : UpstreamResponse) (now : ℤ) : Option Routed :=
  if resp.exhausted then some r else r.enterCooldown acq resp.backoffFor now

end Routed

namespace FailureCall

theorem written_singleton (origin : ℤ) (c : FailureCall) :
    written origin [c] = (c.backoff origin).toList.map fun b => (c, b) := by
  unfold written
  rw [List.filterMap_cons, List.filterMap_nil]
  cases c.backoff origin with
  | none => rfl
  | some b => rfl

end FailureCall

namespace PersistedRouted

variable {origin : ℤ} {s : PersistedRouted} {acq : Acquired} {l : Lane} {a n wall : ℕ} {resp : UpstreamResponse}

/-- The lane after a back-off of `n` seconds, or as it was. -/
def cooledFor (l : Lane) (resp : UpstreamResponse) (n : ℕ) (now : ℤ) : Lane :=
  if resp.exhausted then l else l.coolUntil (now + secs n)

/-- **`BackOffTotal origin s acq l resp n wall`** — on both paths an answer that asks for `n` seconds cools the lane
until `n` seconds from now, and the buffered path queues that moment, in milliseconds since the epoch. -/
structure BackOffTotal (origin : ℤ) (s : PersistedRouted) (acq : Acquired) (l : Lane) (resp : UpstreamResponse)
    (n wall : ℕ) : Prop where
  streaming : ∃ r, s.routed.streamingBackOff acq resp (origin + wall) = some r ∧
    r.lane acq = some (cooledFor l resp n (origin + wall))
  buffered : (s.finishFailure origin (resp.failureCall acq wall)).routed.lane acq =
    some (cooledFor l resp n (origin + wall))
  persisted : (s.finishFailure origin (resp.failureCall acq wall)).queue =
    s.queue ++ if resp.exhausted then [] else [⟨acq.provider, l.key, (unixNow wall + n) * 1000⟩]

/-- The back-off that `finish_failure` writes for an answer that is retried. -/
theorem backoff_failureCall (hretry : retryableStatus resp.status = true) (hn : resp.retryAfterSecs = some n) :
    (resp.failureCall acq wall).backoff origin =
      if resp.exhausted then none
      else if origin + wall + secs n < 2 ^ 63 * secs 1 then some (secs n) else none := by
  have hstatus : resp.status ≠ 0 ∧ (resp.status = 429 ∨ resp.status ≥ 500) := by
    simp only [retryableStatus, List.mem_cons, List.not_mem_nil, or_false, decide_eq_true_eq] at hretry
    omega
  have hcooldown : Routed.cooldownFor resp.status resp.exhausted (resp.retryAfterSecs.map secs) =
      if resp.exhausted then none else some (secs n) := by
    unfold Routed.cooldownFor
    rw [if_neg hstatus.1, if_pos hstatus.2, hn]
    rfl
  show (Routed.cooldownFor resp.status resp.exhausted (resp.retryAfterSecs.map secs)).filter
    (fun b => decide ((resp.failureCall acq wall).Fits origin b)) = _
  rw [hcooldown]
  split
  · rfl
  · rw [Option.filter_some]
    simp only [decide_eq_true_eq]
    rfl

/-- The milliseconds that are queued are right as long as they are an `u64`. -/
theorem untilUnixMs_secs_iff (nowUnix n : ℕ) :
    untilUnixMs nowUnix (secs n) = (nowUnix + n) * 1000 ↔ (nowUnix + n) * 1000 < 2 ^ 64 := by
  have hmillis : asMillis (secs n) = n * 1000 := by
    unfold asMillis secs millis
    omega
  unfold untilUnixMs
  rw [hmillis]
  omega

/-- The streaming path. -/
theorem streaming_iff (hlane : s.routed.lane acq = some l) (hn : resp.retryAfterSecs = some n) (now : ℤ) :
    (∃ r, s.routed.streamingBackOff acq resp now = some r ∧ r.lane acq = some (cooledFor l resp n now)) ↔
      resp.exhausted = true ∨ now + secs n < 2 ^ 63 * secs 1 := by
  have hbackoff : resp.backoffFor = secs n := by
    unfold UpstreamResponse.backoffFor
    rw [hn]
    rfl
  unfold Routed.streamingBackOff cooledFor
  cases hexhausted : resp.exhausted with
  | true =>
      refine iff_of_true ⟨s.routed, rfl, ?_⟩ (.inl rfl)
      rw [hlane]
      rfl
  | false =>
      rw [hbackoff]
      unfold Routed.enterCooldown
      by_cases hfits : now + (secs n : ℕ) < 2 ^ 63 * secs 1
      · refine iff_of_true ⟨s.routed.cool acq (secs n) now, if_pos hfits, ?_⟩ (.inr hfits)
        rw [Routed.lane_cool, hlane]
        rfl
      · refine iff_of_false ?_ (by simpa using hfits)
        rintro ⟨r, hr, -⟩
        rw [if_neg (by decide), if_neg hfits] at hr
        cases hr

/-- The buffered path: the lane, and what is queued. -/
theorem finishFailure_failureCall (hreg : s.routed.router.runtimes acq.provider = some a)
    (hlane : s.routed.lane acq = some l) (hretry : retryableStatus resp.status = true)
    (hn : resp.retryAfterSecs = some n) (origin : ℤ) (wall : ℕ) :
    ((s.finishFailure origin (resp.failureCall acq wall)).routed.lane acq = some
      (if resp.exhausted = false ∧ origin + wall + secs n < 2 ^ 63 * secs 1 then l.coolUntil (origin + wall + secs n)
        else l)) ∧
    (s.finishFailure origin (resp.failureCall acq wall)).queue = s.queue ++
      if resp.exhausted = false ∧ origin + wall + secs n < 2 ^ 63 * secs 1 then
        [⟨acq.provider, l.key, untilUnixMs (unixNow wall) (secs n)⟩] else [] := by
  obtain ⟨-, hcooled, hqueue⟩ :=
    @finishFailure_spec origin s acq l a (resp.failureCall acq wall) hreg hlane ⟨rfl, rfl, rfl, rfl⟩
  rw [FailureCall.written_singleton, backoff_failureCall hretry hn] at hcooled hqueue
  cases hexhausted : resp.exhausted with
  | true =>
      rw [hexhausted, if_pos rfl] at hcooled hqueue
      rw [if_neg (by simp), if_neg (by simp)]
      exact ⟨hcooled, hqueue⟩
  | false =>
      rw [hexhausted, if_neg (by decide)] at hcooled hqueue
      by_cases hfits : origin + wall + secs n < 2 ^ 63 * secs 1
      · rw [if_pos hfits] at hcooled hqueue
        rw [if_pos ⟨rfl, hfits⟩, if_pos ⟨rfl, hfits⟩]
        exact ⟨hcooled, hqueue⟩
      · rw [if_neg hfits] at hcooled hqueue
        rw [if_neg (fun h => hfits h.2), if_neg (fun h => hfits h.2)]
        exact ⟨hcooled, hqueue⟩

/-- **When a back-off is computed**: exactly if the monotone clock has `n` more seconds, and the milliseconds of the
unix time of its end are an `u64`. -/
theorem back_off_total_iff (hreg : s.routed.router.runtimes acq.provider = some a) (hlane : s.routed.lane acq = some l)
    (hretry : retryableStatus resp.status = true) (hn : resp.retryAfterSecs = some n) (origin : ℤ) (wall : ℕ) :
    BackOffTotal origin s acq l resp n wall ↔ resp.exhausted = true ∨
      origin + wall + secs n < 2 ^ 63 * secs 1 ∧ (unixNow wall + n) * 1000 < 2 ^ 64 := by
  have hstreaming := @streaming_iff s acq l n resp hlane hn (origin + wall)
  obtain ⟨hcooled, hqueue⟩ := finishFailure_failureCall hreg hlane hretry hn origin wall
  cases hexhausted : resp.exhausted with
  | true =>
      rw [hexhausted, if_neg (by simp)] at hcooled hqueue
      refine iff_of_true ⟨hstreaming.mpr (.inl hexhausted), ?_, ?_⟩ (.inl rfl)
      · rw [hcooled, cooledFor, if_pos hexhausted]
      · rw [hqueue, if_pos hexhausted]
  | false =>
      constructor
      · intro h
        have hfits := (hstreaming.mp h.streaming).resolve_left (by simp [hexhausted])
        have hpersisted := h.persisted
        rw [hqueue, if_pos ⟨hexhausted, hfits⟩, if_neg (by simp [hexhausted])] at hpersisted
        have hop := List.append_cancel_left hpersisted
        have hms : untilUnixMs (unixNow wall) (secs n) = (unixNow wall + n) * 1000 :=
          congrArg CooldownOp.untilUnixMs (List.singleton_inj.mp hop)
        exact .inr ⟨hfits, (untilUnixMs_secs_iff _ _).mp hms⟩
      · intro h
        obtain ⟨hfits, hms⟩ := h.resolve_left nofun
        rw [if_pos ⟨hexhausted, hfits⟩] at hcooled hqueue
        refine ⟨hstreaming.mpr (.inr hfits), ?_, ?_⟩
        · rw [hcooled, cooledFor, if_neg (by simp [hexhausted])]
        · rw [hqueue, if_neg (by simp [hexhausted]), (untilUnixMs_secs_iff _ _).mpr hms]

/-- A rate limit, with the header as text. -/
def limited (retryAfter : String) : UpstreamResponse where
  status := 429
  contentType := none
  retryAfter := some retryAfter
  text := some ""
  bytes := some []
  valid := by decide

/-- A minute, a thousand seconds after the epoch. -/
theorem back_off_total_iff_minute :
    ∃ l, oneKey.routed.lane (failed 0 none).acq = some l ∧
      BackOffTotal 0 oneKey (failed 0 none).acq l (limited "60") 60 1000000000000 := by
  have hlane : oneKey.routed.lane (failed 0 none).acq = some ⟨"k", 60, [], 0⟩ := by decide +kernel
  refine ⟨_, hlane, (@back_off_total_iff oneKey (failed 0 none).acq _ 0 60 (limited "60") (by decide +kernel) hlane
    (by decide) (by decide +kernel) 0 1000000000000).mpr (.inr ?_)⟩
  decide

/-- **The longest header that is accepted** ends no cooldown: the streaming task panics, and `finish_failure` panics
before it queues anything. -/
theorem back_off_panics :
    (limited "18446744073709551615").retryAfterSecs = some (2 ^ 64 - 1) ∧
    oneKey.routed.streamingBackOff (failed 0 none).acq (limited "18446744073709551615") 1000000000000 = none ∧
    ∃ l, oneKey.routed.lane (failed 0 none).acq = some l ∧
      ¬ BackOffTotal 0 oneKey (failed 0 none).acq l (limited "18446744073709551615") (2 ^ 64 - 1) 1000000000000 := by
  have hsecs : (limited "18446744073709551615").retryAfterSecs = some (2 ^ 64 - 1) := by decide +kernel
  have hlane : oneKey.routed.lane (failed 0 none).acq = some ⟨"k", 60, [], 0⟩ := by decide +kernel
  have hexhausted : (limited "18446744073709551615").exhausted = false := by decide +kernel
  have hpanics : oneKey.routed.streamingBackOff (failed 0 none).acq (limited "18446744073709551615") 1000000000000 =
      none := by
    unfold Routed.streamingBackOff Routed.enterCooldown UpstreamResponse.backoffFor
    rw [hexhausted, hsecs, if_neg (by decide), if_neg (by decide)]
  refine ⟨hsecs, hpanics, _, hlane, fun h => ?_⟩
  obtain ⟨r, hr, -⟩ := h.streaming
  have hnone := hpanics.symm.trans hr
  cases hnone

end PersistedRouted

end Flock
