/-
# Flock.Router.Answers — which response a buffered request is answered with.

The loop of `execute_buffered` hands on the response of the first attempt that neither failed to connect, nor got a
retryable status, nor came back empty.  A leader publishes that response to the requests of its key, and the key
fixes the path, so what holds of the response by its path holds for a follower too.  The runs of the coalescer are
those in which a leader publishes only what its own call came to.

A response is judged at one place, where it has just come in.  So the two properties, that it is the first good one
and that it is good, are read off the log of attempts and need nothing about the providers.
-/
import Flock.Router.Execute

namespace Flock

open Lib (System)

variable {ν : Type} {json : BodyCodec ν} {c : BufferedCall} {s s' : Exec} {t : Turn} {out : ExecuteOutcome}
  {turns : List Turn}

/-- **`FirstGood json path log out`** — every attempt but the last failed, the last did not, and its response is
handed on. -/
def FirstGood (json : BodyCodec ν) (path : String) (log : List Attempt) (out : ExecuteOutcome) : Prop :=
  ∃ earlier last r, log = earlier ++ [last] ∧ (∀ a ∈ earlier, a.reply.failed json path = true) ∧
    last.reply.failed json path = false ∧ last.reply = .response r ∧ out.Relays path r

/-- **`Sound json path out`** — the status is not retried, and a 2xx chat completion has a body with substance. -/
def ExecuteOutcome.Sound (json : BodyCodec ν) (path : String) (out : ExecuteOutcome) : Prop :=
  retryableStatus out.status = false ∧
    (guarded path out.status = true → ∃ body, out.body = some body ∧ hasSubstance json body = true)

/-- What has not failed may be handed on. -/
theorem ExecuteOutcome.Relays.sound {path : String} {r : UpstreamResponse} (h : out.Relays path r)
    (hgood : (UpstreamReply.response r).failed json path = false) : out.Sound json path := by
  simp only [UpstreamReply.failed, Bool.or_eq_false_iff, Bool.and_eq_false_iff] at hgood
  obtain ⟨hretry, hempty⟩ := hgood
  have hbody : ∀ body, r.bytes = some body → guarded path r.status = true → hasSubstance json body = true := by
    intro body hbytes hguarded
    rcases hempty with hoff | hempty
    · rw [hguarded] at hoff
      cases hoff
    · simpa [hbytes] using hempty
  cases out with
  | response r' =>
      obtain ⟨rfl, hoff⟩ := h
      refine ⟨hretry, fun hguarded => ?_⟩
      have hboth : true = false := hguarded.symm.trans hoff
      cases hboth
  | buffered status contentType body =>
      obtain ⟨rfl, -, hbytes⟩ := h
      exact ⟨hretry, fun hguarded => ⟨body, rfl, hbody body hbytes hguarded⟩⟩
  | coalesced shared =>
      obtain ⟨hstatus, hbytes, -⟩ := h
      refine ⟨?_, fun hguarded => ⟨shared.body, rfl, hbody shared.body hbytes ?_⟩⟩
      · show retryableStatus shared.status = false
        rw [hstatus]
        exact hretry
      · rw [← hstatus]
        exact hguarded

/-- The first good response is a good one. -/
theorem FirstGood.sound {path : String} {log : List Attempt} (h : FirstGood json path log out) :
    out.Sound json path := by
  obtain ⟨earlier, last, r, -, -, hgood, hreply, hrelays⟩ := h
  rw [hreply] at hgood
  exact hrelays.sound hgood

namespace BufferedCall

/-! ## The loop

The log grows by one attempt a turn, and every attempt in it but the last was followed by another turn. -/

/-- **`Answering json c s`** — a call that goes on has seen failures only, and one that is answered has the response
of its first good attempt. -/
structure Answering (json : BodyCodec ν) (c : BufferedCall) (s : Exec) : Prop where
  budget : s.attempts ≤ c.maxAttempts
  failing : s.result = none → ∀ a ∈ s.log, a.reply.failed json c.request.pathQuery.text = true
  answered : ∀ out, s.result = some (.ok out) → FirstGood json c.request.pathQuery.text s.log out
  published : ∀ shared, s.published = some shared → s.result = some (.ok (.coalesced shared))

/-- A call starts with an empty log. -/
theorem enter_frame (c : BufferedCall) :
    c.enter.attempts = 0 ∧ c.enter.log = [] ∧ c.enter.published = none := by
  obtain ⟨lead, result, henter⟩ := enter_eq c
  rw [henter]
  exact ⟨rfl, rfl, rfl⟩

/-- A call that is not answered by a leader comes to its loop with nothing done. -/
theorem answering_enter (hopen : ∀ out, c.enter.result ≠ some (.ok out)) : Answering json c c.enter := by
  obtain ⟨hattempts, hlog, hpublished⟩ := enter_frame c
  refine ⟨by omega, ?_, ?_, ?_⟩
  · rw [hlog]
    intro _ a ha
    cases ha
  · intro out hout
    exact absurd hout (hopen out)
  · intro shared hshared
    rw [hpublished] at hshared
    cases hshared

/-- A call that fails with this attempt, or goes on. -/
theorem answering_unanswered (hbefore : Answering json c s) (hresult : s.result = none)
    (hbudget : s'.attempts ≤ c.maxAttempts) (hpublished : s'.published = s.published)
    (hfailing : s'.result = none → ∀ a ∈ s'.log, a.reply.failed json c.request.pathQuery.text = true)
    (herror : s'.result = none ∨ ∃ e, s'.result = some (.error e)) : Answering json c s' := by
  refine ⟨hbudget, hfailing, ?_, ?_⟩
  · intro out hout
    rcases herror with hnone | ⟨e, he⟩
    · rw [hnone] at hout
      cases hout
    · rw [he] at hout
      cases hout
  · intro shared hshared
    -- whoever has published has returned
    have hearlier := hbefore.published shared (hpublished ▸ hshared)
    rw [hresult] at hearlier
    cases hearlier

/-- A call that ends with an error. -/
theorem answering_ended (hbefore : Answering json c s) (hresult : s.result = none)
    (hbudget : s'.attempts ≤ c.maxAttempts) (hpublished : s'.published = s.published)
    (herror : ∃ e, s'.result = some (.error e)) : Answering json c s' := by
  refine answering_unanswered hbefore hresult hbudget hpublished ?_ (.inr herror)
  obtain ⟨e, he⟩ := herror
  intro hnone
  rw [he] at hnone
  cases hnone

theorem answering_step (hbefore : Answering json c s) (h : c.step json s t = some s') : Answering json c s' := by
  obtain ⟨hresult, hidle | ⟨acq, sent, hlt, rfl⟩⟩ := step_cases h
  -- no attempt was made in this turn: the log is the one of before
  · refine answering_unanswered hbefore hresult ?_ hidle.published ?_ hidle.result
    · rcases hidle.attempts_le with hsame | hle
      · rw [hsame]
        exact hbefore.budget
      · exact hle
    · intro _
      rw [hidle.log]
      exact hbefore.failing hresult
  -- an attempt was made, and how it was settled decides
  · obtain ⟨hlog, hattempts, -⟩ := @settle_frame ν json c (acquired s t acq sent) acq t t.reply
    have hsettles : Settles json c.request.pathQuery.text (acquired s t acq sent) acq t.reply _ :=
      settle_settles (t := t) (c := c) (by exact hresult)
    have hbudget : (acquired s t acq sent).attempts ≤ c.maxAttempts := hlt
    have hfirst := hbefore.failing hresult
    cases hsettles with
    | failed hreply _ hpublished hnext =>
        refine answering_unanswered hbefore hresult (hattempts ▸ hbudget) hpublished ?_ hnext
        rw [hlog]
        intro _ a ha
        rcases List.mem_append.mp ha with hold | hnew
        · exact hfirst a hold
        · obtain rfl := List.mem_singleton.mp hnew
          exact hreply
    | stalled _ _ hpublished hnext =>
        exact answering_ended hbefore hresult (hattempts ▸ hbudget) hpublished hnext
    | given _ _ _ hpublished hnext =>
        exact answering_ended hbefore hresult (hattempts ▸ hbudget) hpublished hnext
    -- the answer is handed on: all attempts before it failed
    | @answered r out hresponse hreply _ _ hpublished hok hrelays =>
        refine ⟨hattempts ▸ hbudget, ?_, ?_, ?_⟩
        · intro hnone
          rw [hok] at hnone
          cases hnone
        · intro out' hout'
          obtain rfl : out = out' := by
            rw [hok] at hout'
            exact Except.ok.inj (Option.some.inj hout')
          rw [hlog]
          exact ⟨s.log, _, r, rfl, hfirst, hreply, hresponse, hrelays⟩
        · intro shared hshared
          -- whatever has been published was published now
          rcases hpublished with hsame | ⟨shared', rfl, hnew⟩
          · have hearlier := hbefore.published shared (hsame ▸ hshared)
            rw [hresult] at hearlier
            cases hearlier
          · obtain rfl : shared' = shared := Option.some.inj (hnew.symm.trans hshared)
            exact hok

theorem executeBuffered_answering (h : executeBuffered json c turns = some s)
    (hopen : ∀ out, c.enter.result ≠ some (.ok out)) : Answering json c s :=
  (executeBuffered_run h).preserves answering_step (answering_enter hopen)

end BufferedCall

/-! ## Followers -/

/-- A call of a leader publishes this to the requests of its key. -/
def Publishes (json : BodyCodec ν) (request : BufferedRequest) (shared : SharedResponse) : Prop :=
  ∃ c turns s, c.request = request ∧ c.registration = .lead ∧ executeBuffered json c turns = some s ∧
    s.published = some shared

/-- The runs of one coalescer whose leaders are calls of `execute_buffered`. -/
def servingSystem (json : BodyCodec ν) (sha256 : List UInt8 → List UInt8) (ttl : ℕ) :
    System (Coalescing BufferedRequest) (CoalescerEvent BufferedRequest × ℤ) :=
  (mergeSystem sha256 ttl).restrict (Coalescing.Publishing (Publishes json))

/-- A follower with this request has received this response, and no leader's request collides with its own. -/
def Delivered (json : BodyCodec ν) (sha256 : List UInt8 → List UInt8) (ttl : ℕ) (request : BufferedRequest)
    (shared : SharedResponse) : Prop :=
  ∃ st rx, (servingSystem json sha256 ttl).Reachable st ∧ (request, rx, shared) ∈ st.received ∧
    ∀ l ∈ st.leaders, NoCollision sha256 l.request request

/-- Who has published was answered so, and was no follower. -/
theorem Publishes.firstGood {request : BufferedRequest} {shared : SharedResponse} (h : Publishes json request shared) :
    ∃ c turns s, c.request = request ∧ executeBuffered json c turns = some s ∧ s.result = some (.ok (.coalesced shared)) ∧
      FirstGood json request.pathQuery.text s.log (.coalesced shared) := by
  obtain ⟨c, turns, s, rfl, hlead, hexec, hpublished⟩ := h
  have hopen : ∀ out, c.enter.result ≠ some (.ok out) := by
    intro out
    unfold BufferedCall.enter
    rw [hlead]
    split
    · simp
    · split <;> simp
  have hanswering := BufferedCall.executeBuffered_answering hexec hopen
  have hok := hanswering.published shared hpublished
  exact ⟨c, turns, s, rfl, hexec, hok, hanswering.answered _ hok⟩

/-- What a follower has received is what the call of a leader with the same method, path and body came to. -/
theorem Delivered.firstGood {sha256 : List UInt8 → List UInt8} {ttl : ℕ} {request : BufferedRequest}
    {shared : SharedResponse} (h : Delivered json sha256 ttl request shared) :
    ∃ leader turns s, executeBuffered json leader turns = some s ∧
      leader.request.method = request.method ∧ leader.request.pathQuery = request.pathQuery ∧
      leader.request.body = request.body ∧
      FirstGood json request.pathQuery.text s.log (.coalesced shared) := by
  obtain ⟨st, rx, hreach, hreceived, hno⟩ := h
  obtain ⟨l, hl, hkey, hpublishes⟩ := Coalescing.received_published hreach hreceived
  obtain ⟨hmethod, hpath, hbody⟩ := BufferedRequest.key_inj (hno l hl) hkey
  obtain ⟨c, turns, s, hrequest, hexec, -, hgood⟩ := hpublishes.firstGood
  refine ⟨c, turns, s, hexec, ?_, ?_, ?_, ?_⟩
  · rw [hrequest, hmethod]
  · rw [hrequest, hpath]
  · rw [hrequest, hbody]
  · rw [← hpath]
    exact hgood

/-- Who follows a leader that publishes takes no turn. -/
theorem BufferedCall.enter_coalesced (h : c.enter.result = some (.ok out)) :
    ∃ shared, c.registration = .follow (some shared) ∧ out = .coalesced shared := by
  unfold enter at h
  split at h
  · cases h
  · split at h
    · split at h
      · rename_i shared hfollow
        exact ⟨shared, hfollow, (Except.ok.inj (Option.some.inj h)).symm⟩
      · cases h
      · cases h
    · cases h

/-- **What a buffered request is answered with.**  The status is not retried, and a 2xx chat completion has a body
with substance.  The response is that of the first attempt that did not fail: of this call or, for a follower, of
the call of a leader with the same method, path and body.  Several candidates get `max 1 max_retries` attempts at
most. -/
theorem executeBuffered_answers {sha256 : List UInt8 → List UInt8} {ttl : ℕ}
    (h : executeBuffered json c turns = some s) (hok : s.result = some (.ok out))
    (hfollow : ∀ shared, c.enter.result = some (.ok (.coalesced shared)) →
      Delivered json sha256 ttl c.request shared) :
    out.Sound json c.request.pathQuery.text ∧
      (FirstGood json c.request.pathQuery.text s.log out ∨
        s.log = [] ∧ ∃ shared leader turns' s', c.registration = .follow (some shared) ∧ out = .coalesced shared ∧
          executeBuffered json leader turns' = some s' ∧ leader.request.method = c.request.method ∧
          leader.request.pathQuery = c.request.pathQuery ∧ leader.request.body = c.request.body ∧
          FirstGood json c.request.pathQuery.text s'.log out) ∧
      (2 ≤ c.candidates.length → s.attempts ≤ max 1 c.routing.maxRetries) := by
  by_cases hserved : ∃ out', c.enter.result = some (.ok out')
  · obtain ⟨out', hout'⟩ := hserved
    obtain rfl := BufferedCall.eq_enter h (by rw [hout']; simp)
    obtain rfl : out' = out := Except.ok.inj (Option.some.inj (hout'.symm.trans hok))
    obtain ⟨shared, hreg, rfl⟩ := BufferedCall.enter_coalesced hok
    obtain ⟨leader, turns', s', hexec, hmethod, hpath, hbody, hgood⟩ := (hfollow shared hok).firstGood
    obtain ⟨hattempts, hlog, -⟩ := BufferedCall.enter_frame c
    refine ⟨hgood.sound, .inr ⟨hlog, shared, leader, turns', s', hreg, rfl, hexec, hmethod, hpath, hbody, hgood⟩, ?_⟩
    intro _
    omega
  · have hopen : ∀ out, c.enter.result ≠ some (.ok out) := fun out' hout' => hserved ⟨out', hout'⟩
    have hanswering := BufferedCall.executeBuffered_answering h hopen
    have hgood := hanswering.answered out hok
    refine ⟨hgood.sound, .inl hgood, ?_⟩
    intro hseveral
    have hbudget := hanswering.budget
    unfold BufferedCall.maxAttempts at hbudget
    rw [if_neg (by omega), max_comm] at hbudget
    exact hbudget

/-! A chat completion that one leader fetches for a follower. -/

/-- A digest that is SHA-256 on the request. -/
def chatDigest (bytes : List UInt8) : List UInt8 :=
  if bytes = chatRequest.preimage then
    [237, 221, 54, 170, 55, 124, 117, 178, 207, 107, 16, 82, 54, 116, 157, 237,
      139, 120, 136, 215, 109, 251, 182, 19, 183, 1, 153, 67, 5, 13, 218, 196]
  else List.replicate 33 0 ++ bytes

/-- What the leader publishes. -/
def chatShared : SharedResponse := ⟨200, "application/json", [123, 125]⟩

theorem chat_publishes : Publishes embeddingJson chatRequest chatShared := by
  have heval : (executeBuffered embeddingJson { chatCall ["nvidia"] with registration := .lead }
      [answeredTurn 0 (.response (okResponse (some [123, 125])))]).any
        (fun s => decide (s.published = some chatShared)) = true := by decide +kernel
  obtain ⟨s, hs, hpublished⟩ := (Option.any_eq_true _ _).mp heval
  exact ⟨_, _, s, rfl, rfl, hs, of_decide_eq_true hpublished⟩

/-- A leader with the request sends only this response. -/
def sendsChat (s : Coalescing BufferedRequest) (x : CoalescerEvent BufferedRequest × ℤ) : Bool :=
  match x.1 with
  | .send tx resp => decide (resp = chatShared) && (s.leaders[tx]?).any fun l => decide (l.request = chatRequest)
  | _ => true

theorem publishing_of_sendsChat (s : Coalescing BufferedRequest) (x : CoalescerEvent BufferedRequest × ℤ)
    (h : sendsChat s x = true) : Coalescing.Publishing (Publishes embeddingJson) s x := by
  rintro tx resp l hsend hget
  unfold sendsChat at h
  rw [hsend] at h
  simp only [hget, Option.any_some, Bool.and_eq_true, decide_eq_true_eq] at h
  rw [h.1, h.2]
  exact chat_publishes

theorem chat_delivered : Delivered embeddingJson chatDigest (secs 5) chatRequest chatShared := by
  have hexec : (System.exec (System.guardStep (fun s x => sendsChat s x = true)
      (Coalescing.step (BufferedRequest.key chatDigest))) (.new (secs 5) 0)
      [(.register chatRequest, 1), (.register chatRequest, 2), (.send 0 chatShared, 3), (.wait 0, 4)]).any
        (fun st : Coalescing BufferedRequest => decide ((chatRequest, 0, chatShared) ∈ st.received) &&
          st.leaders.all fun l => decide (l.request = chatRequest)) = true := by decide +kernel
  obtain ⟨st, hrun, hend⟩ := System.run_of_exec_any hexec
  simp only [Bool.and_eq_true, decide_eq_true_eq, List.all_eq_true] at hend
  have hserving : (servingSystem embeddingJson chatDigest (secs 5)).Run (.new (secs 5) 0) _ st :=
    (System.Run.restrict_of_guardStep hrun).restrict_mono publishing_of_sendsChat
  refine ⟨st, 0, ⟨_, _, ⟨0, rfl⟩, hserving⟩, hend.1, fun l hl => ?_⟩
  rw [hend.2 l hl]
  exact fun h => rfl

/-- A call that has followed the leader. -/
def followerCall : BufferedCall := { chatCall ["nvidia"] with registration := .follow (some chatShared) }

theorem followerCall_enter : followerCall.enter.result = some (.ok (.coalesced chatShared)) := rfl

theorem executeBuffered_answers_follower :
    executeBuffered embeddingJson followerCall [] = some followerCall.enter ∧
      (ExecuteOutcome.coalesced chatShared).Sound embeddingJson chatRequest.pathQuery.text := by
  have hexec : executeBuffered embeddingJson followerCall [] = some followerCall.enter := rfl
  have hfollow : ∀ shared, followerCall.enter.result = some (.ok (.coalesced shared)) →
      Delivered embeddingJson chatDigest (secs 5) followerCall.request shared := by
    intro shared hshared
    have heq := Except.ok.inj (Option.some.inj (followerCall_enter.symm.trans hshared))
    obtain rfl : chatShared = shared := ExecuteOutcome.coalesced.inj heq
    exact chat_delivered
  exact ⟨hexec, (executeBuffered_answers hexec followerCall_enter hfollow).1⟩

end Flock
