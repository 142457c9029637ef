/-
# Flock.Front.Admission — what holds of the requests inside, in every reachable state.

The counter of requests in flight is a counter of guards (`Lib.Counts`): every request that has passed `fetch_add`
holds one until it is dropped, those that are about to be turned away included.  So of the requests that were let in
under a cap of at most `c` there are never more than `c` at work.  What is handed on was handed on for a request that
came in after the setup (`ArrivedIn`) and was let in, by the settings that request read.

A request reads the settings once, on its way in, and keeps what it read.  So `let in` is about the settings of that
moment, and a save in between does not concern it.
-/
import Flock.Front.Handle
import Flock.Lib.Seating
import Flock.Models

namespace Flock.Front

open Lib (System Counts)
open Catalogue (asciiBytes)

/-! ## What a handler holds -/

namespace Handler

/-- What the counter was when the guard was taken. -/
def rank : Handler → Option ℕ
  | .arrived .. | .configured .. => none
  | .counted _ _ _ rank | .sleeping rank | .leaving rank _ => some rank
  | .admitted w | .labelled w _ | .hinted w _ _ | .models w | .buffered w | .streaming w _ _ _ _ => some w.rank

/-- The request, once it has been let in. -/
def work : Handler → Option Work
  | .admitted w | .labelled w _ | .hinted w _ _ | .models w | .buffered w | .streaming w _ _ _ _ => some w
  | _ => none

end Handler

section Step

variable {ν : Type} {json : BodyCodec ν} {sha256Hex : String → String} {hash : List String → UInt64}
  {render : Json ν → String} {sh : Shared} {h : Handler} {e : Touch} {f : Effect}

/-- Where `judge` sends a request it keeps its guard. -/
theorem rank_judge (r : Request) (accepted : Instant) (cfg : Config) (rank : ℕ) :
    (judge sha256Hex r accepted cfg rank).rank = some rank := by
  unfold judge
  split
  · rfl
  · split
    · rfl
    · split <;> rfl

/-- **The counter and the guard, moment by moment.** -/
inductive GuardStep (sh : Shared) (h : Handler) (f : Effect) : Prop
  | outside (next : Handler) : h.rank = none → f.next = some next → next.rank = none →
      f.shared.inflight = sh.inflight → GuardStep sh h f
  | enter (next : Handler) : h.rank = none → f.next = some next → next.rank = some (sh.inflight + 1) →
      f.shared.inflight = sh.inflight + 1 → GuardStep sh h f
  | keep (next : Handler) : f.next = some next → next.rank = h.rank → f.shared.inflight = sh.inflight →
      GuardStep sh h f
  | leave (rank : ℕ) : h.rank = some rank → f.next = none → f.shared.inflight = sh.inflight - 1 →
      GuardStep sh h f

/-- Every moment of a handler keeps to it. -/
theorem Handler.step_guard (hs : h.step json sha256Hex hash render sh e = some f) : GuardStep sh h f := by
  unfold Handler.step at hs
  split at hs <;> (try split at hs) <;> (try split at hs) <;> cases hs
  -- a request keeps its guard from the counter until it leaves
  all_goals first
    | exact .outside _ rfl rfl rfl rfl
    | exact .enter _ rfl rfl rfl rfl
    | exact .keep _ rfl (rank_judge ..) rfl
    | exact .keep _ rfl rfl rfl
    | exact .leave _ rfl rfl rfl

/-! ## What was checked

A handler remembers what it is at work on.  What `handle` has checked by then is a property of that memory alone, so
later changes of the shared state cannot invalidate it. -/

/-- What `handle` has checked of a request it lets in, against the settings that request read. -/
structure Work.Sound (sha256Hex : String → String) (w : Work) : Prop where
  under : w.rank ≤ w.cfg.maxInflight
  client : clientOf sha256Hex w.cfg.clients w.request.headers = some w.client
  deadline : ∃ accepted, parseRequestDeadline w.request.headers accepted = .ok w.deadline

/-- A body with the injected field: where the settings and the request allow it, and nothing else is changed. -/
structure Injected (json : BodyCodec ν) (w : Work) (body : List UInt8) : Prop where
  stream : w.request.wantsStream json = true
  allowed : w.cfg.strictPassthrough = false
  path : w.request.path = "/v1/chat/completions"
  field : ∃ fields, w.request.bareFields json = some fields ∧
    json.toVec (.obj (insertField "stream_options" Request.includeUsage fields)) = some body

/-- The body a stream sends, and what it keeps: the client's own, or one with the injected field beside it. -/
def Bodies (json : BodyCodec ν) (w : Work) (body : List UInt8) (fallback : Option (List UInt8)) : Prop :=
  (body = w.request.body ∧ fallback = none) ∨ (Injected json w body ∧ fallback = some w.request.body)

/-- What holds of a request where it stands. -/
def Handler.Sound (json : BodyCodec ν) (sha256Hex : String → String) : Handler → Prop
  | .admitted w | .labelled w _ | .hinted w _ _ | .buffered w => w.Sound sha256Hex
  | .models w => w.Sound sha256Hex ∧ w.request.isCatalogProbe = true
  | .streaming w _ body fallback _ => w.Sound sha256Hex ∧ Bodies json w body fallback
  | _ => True

/-- What is handed on for a request. -/
def Handed.For (json : BodyCodec ν) (w : Work) : Handed → Prop
  | .models => w.request.isCatalogProbe = true
  | .catalogue url _ => url = w.cfg.baseUrl ++ "/v1/models" ∧ w.request.isCatalogProbe = true
  | .attempt _ request => ∃ key body, request = upstreamRequest w.cfg w.request key body ∧
      (body = w.request.body ∨ Injected json w body)
  | x => ∃ prefer, x = Front.execute json w prefer

/-- What `judge` lets in was checked. -/
theorem judge_sound (r : Request) (accepted : Instant) (cfg : Config) (rank : ℕ) :
    (judge sha256Hex r accepted cfg rank).Sound json sha256Hex := by
  unfold judge
  split
  · trivial
  · rename_i hcap
    split
    · trivial
    · rename_i client hclient
      split
      · trivial
      · rename_i deadline hdeadline
        exact ⟨not_lt.mp hcap, hclient, accepted, hdeadline⟩

/-- The body with the injected field, and the untouched one that is kept for a retry. -/
theorem inject_bodies {w : Work} {noInject : Finset String} {model : String} {body : List UInt8}
    {fallback : Option (List UInt8)} (hstream : w.request.wantsStream json = true)
    (h : w.request.inject json w.cfg.strictPassthrough noInject model = some (body, fallback)) :
    Bodies json w body fallback := by
  unfold Request.inject at h
  split at h
  · rename_i hasks
    simp only [Bool.and_eq_true, Bool.not_eq_true', beq_iff_eq] at hasks
    split at h
    · rename_i fields hfields
      split at h
      · cases h
        exact .inl ⟨rfl, rfl⟩
      · obtain ⟨bytes, hbytes, heq⟩ := Option.map_eq_some_iff.mp h
        cases heq
        exact .inr ⟨⟨hstream, hasks.1.2, hasks.2, fields, hfields, hbytes⟩, rfl⟩
    · cases h
      exact .inl ⟨rfl, rfl⟩
  · cases h
    exact .inl ⟨rfl, rfl⟩

/-- After a rejection the untouched body is sent, and no other is kept. -/
theorem rejected_sound {w : Work} {model : String} {body fallback : List UInt8}
    (h : (Handler.streaming w model body (some fallback) true).Sound json sha256Hex) :
    (Handler.streaming w model fallback none false).Sound json sha256Hex := by
  obtain ⟨hw, ⟨-, hkept⟩ | ⟨-, hkept⟩⟩ := h
  · cases hkept
  · obtain rfl := Option.some.inj hkept
    exact ⟨hw, .inl ⟨rfl, rfl⟩⟩

/-- **What one moment keeps.** -/
theorem Handler.step_sound (hs : h.step json sha256Hex hash render sh e = some f) (hsound : h.Sound json sha256Hex)
    {next : Handler} (hnext : f.next = some next) : next.Sound json sha256Hex := by
  unfold Handler.step at hs
  split at hs <;> (try split at hs) <;> (try split at hs) <;> cases hs <;> cases hnext
  -- three moments check or change something; the others move on with what was checked
  all_goals first
    | exact judge_sound ..
    | exact ⟨hsound, inject_bodies ‹_› ‹_›⟩
    | exact rejected_sound hsound
    | trivial

/-- The body of an attempt is one of two. -/
theorem attempt_for {w : Work} {model key : String} {body : List UInt8} {fallback : Option (List UInt8)}
    (h : Bodies json w body fallback) :
    (Handed.attempt model (upstreamRequest w.cfg w.request key body)).For json w := by
  refine ⟨key, body, rfl, ?_⟩
  rcases h with ⟨hbody, -⟩ | ⟨hbody, -⟩
  · exact .inl hbody
  · exact .inr hbody

/-- What is handed on is handed on by a request at work. -/
theorem Handler.work_of_handed (hs : h.step json sha256Hex hash render sh e = some f) {w : Work} {x : Handed}
    (hx : f.handed = some (w, x)) : h.work = some w := by
  unfold Handler.step at hs
  split at hs <;> (try split at hs) <;> (try split at hs) <;> cases hs <;> cases hx <;> rfl

/-- What is handed on, and for whom. -/
theorem Handler.step_handed (hs : h.step json sha256Hex hash render sh e = some f) (hsound : h.Sound json sha256Hex)
    {w : Work} {x : Handed} (hx : f.handed = some (w, x)) : w.Sound sha256Hex ∧ x.For json w := by
  unfold Handler.step at hs
  split at hs <;> (try split at hs) <;> (try split at hs) <;> cases hs <;> cases hx
  all_goals first
    | exact ⟨hsound, ‹_›⟩
    | exact ⟨hsound, _, rfl⟩
    | exact ⟨hsound.1, rfl, hsound.2⟩
    | exact ⟨hsound.1, attempt_for hsound.2⟩

/-- Whose handler it is, while it still knows. -/
def Handler.request : Handler → Option Request
  | .arrived r _ | .configured r _ _ | .counted r _ _ _ => some r
  | h => h.work.map Work.request

/-- `judge` keeps the request. -/
theorem request_judge (r : Request) (accepted : Instant) (cfg : Config) (rank : ℕ) {r' : Request}
    (h : (judge sha256Hex r accepted cfg rank).request = some r') : r' = r := by
  unfold judge at h
  split at h
  · cases h
  · split at h
    · cases h
    · split at h <;> cases h
      rfl

theorem Handler.step_request {sh : Shared} {h : Handler} {t : Touch} {f : Effect}
    (hs : h.step json sha256Hex hash render sh t = some f) {next : Handler} (hnext : f.next = some next)
    {r : Request} (hr : next.request = some r) : h.request = some r := by
  unfold Handler.step at hs
  split at hs <;> (try split at hs) <;> (try split at hs) <;> cases hs <;> cases hnext
  all_goals first
    | exact congrArg some (request_judge _ _ _ _ hr).symm
    | exact hr
    | cases hr

theorem Handler.request_of_work {h : Handler} {w : Work} (hw : h.work = some w) : h.request = some w.request := by
  cases h <;> cases hw <;> rfl

/-- A request at work holds its guard, and was checked. -/
theorem rank_of_work {w : Work} (hsound : h.Sound json sha256Hex) (hw : h.work = some w) :
    h.rank = some w.rank ∧ w.Sound sha256Hex := by
  cases h <;> cases hw
  case models => exact ⟨rfl, hsound.1⟩
  case streaming => exact ⟨rfl, hsound.1⟩
  all_goals exact ⟨rfl, hsound⟩

/-- Only a claim changes the setup flag, and only a save the rest of the settings. -/
theorem Handler.step_settings (hs : h.step json sha256Hex hash render sh e = some f) :
    f.shared.setupRequired = sh.setupRequired ∧ f.shared.cfg = sh.cfg ∧ f.shared.lanes = sh.lanes := by
  unfold Handler.step at hs
  split at hs <;> (try split at hs) <;> (try split at hs) <;> cases hs <;> exact ⟨rfl, rfl, rfl⟩

end Step

/-! ## Every reachable state

The invariants of one handler, for all of them, and the counter as the number of guards. -/

section Reachable

variable {ν : Type} {json : BodyCodec ν} {sha256Hex : String → String} {hash : List String → UInt64}
  {render : Json ν → String} {s s' : FrontState} {e : FrontEvent}

/-- What holds of every reachable state. -/
structure FrontState.Sound (json : BodyCodec ν) (sha256Hex : String → String) (s : FrontState) : Prop where
  counts : Counts s.shared.inflight fun id => (s.handlers id).bind Handler.rank
  /-- Numbers of arrival are not used twice, and nobody comes in before the claim. -/
  inside : ∀ id h, s.handlers id = some h → id < s.arrivals ∧ s.shared.setupRequired = false
  sound : ∀ id h, s.handlers id = some h → h.Sound json sha256Hex
  handed : ∀ id w x, (id, w, x) ∈ s.handed →
    id < s.arrivals ∧ s.shared.setupRequired = false ∧ w.Sound sha256Hex ∧ x.For json w

/-- The guards, where one handler is replaced. -/
theorem rank_update (handlers : ℕ → Option Handler) (id : ℕ) (next : Option Handler) (id' : ℕ) :
    (Function.update handlers id next id').bind Handler.rank =
      Function.update (fun id => (handlers id).bind Handler.rank) id (next.bind Handler.rank) id' := by
  by_cases h : id' = id
  · subst h
    rw [Function.update_self, Function.update_self]
  · rw [Function.update_of_ne h, Function.update_of_ne h]

/-- The counter follows the guards. -/
theorem counts_apply {id : ℕ} {h : Handler} {f : Effect}
    (hcounts : Counts s.shared.inflight fun id => (s.handlers id).bind Handler.rank)
    (hid : s.handlers id = some h) (hguard : GuardStep s.shared h f) :
    Counts (s.apply id f).shared.inflight fun id' => ((s.apply id f).handlers id').bind Handler.rank := by
  have hrank : (s.handlers id).bind Handler.rank = h.rank := by rw [hid, Option.bind_some]
  show Counts f.shared.inflight fun id' => (Function.update s.handlers id f.next id').bind Handler.rank
  -- a guard that stays, or stays away, leaves every reading as it was
  have hsame : ∀ next, f.next = some next → next.rank = h.rank → f.shared.inflight = s.shared.inflight →
      Counts f.shared.inflight fun id' => (Function.update s.handlers id f.next id').bind Handler.rank := by
    intro next hnext hkeep hcounter
    rw [hcounter]
    refine hcounts.congr fun id' => ?_
    rw [rank_update, hnext, Option.bind_some, hkeep, ← hrank, Function.update_eq_self]
  cases hguard with
  | outside next hnone hnext hkeep hcounter => exact hsame next hnext (hkeep.trans hnone.symm) hcounter
  | keep next hnext hkeep hcounter => exact hsame next hnext hkeep hcounter
  | enter next hnone hnext htaken hcounter =>
      rw [hcounter]
      refine (hcounts.enter (hrank.trans hnone)).congr fun id' => ?_
      rw [rank_update, hnext, Option.bind_some, htaken]
  | leave rank hheld hnext hcounter =>
      rw [hcounter]
      refine (hcounts.leave (hrank.trans hheld)).2.congr fun id' => ?_
      rw [rank_update, hnext, Option.bind_none]

theorem sound_boot (setupRequired : Bool) (cfg : Config) (lanes : ℕ) :
    FrontState.Sound json sha256Hex { shared := ⟨setupRequired, cfg, lanes, 0, ∅, ∅⟩ } where
  counts := Counts.zero
  inside _ _ h := by cases h
  sound _ _ h := by cases h
  handed _ _ _ h := by cases h

/-- One moment of one request. -/
theorem FrontState.Sound.apply {id : ℕ} {h : Handler} {f : Effect} {t : Touch} (hs : s.Sound json sha256Hex)
    (hid : s.handlers id = some h) (hstep : h.step json sha256Hex hash render s.shared t = some f) :
    (s.apply id f).Sound json sha256Hex := by
  have hguard := Handler.step_guard hstep
  have hsound := hs.sound id h hid
  obtain ⟨hlt, hclaimed⟩ := hs.inside id h hid
  have hflag : f.shared.setupRequired = false := (Handler.step_settings hstep).1.trans hclaimed
  refine ⟨counts_apply hs.counts hid hguard, ?_, ?_, ?_⟩
  · intro id' h' hid'
    by_cases heq : id' = id
    · subst heq
      exact ⟨hlt, hflag⟩
    · have hold : s.handlers id' = some h' := by
        rwa [FrontState.handlers_apply_of_ne heq] at hid'
      exact ⟨(hs.inside id' h' hold).1, hflag⟩
  · intro id' h' hid'
    by_cases heq : id' = id
    · subst heq
      rw [FrontState.handlers_apply_self] at hid'
      exact Handler.step_sound hstep hsound hid'
    · rw [FrontState.handlers_apply_of_ne heq] at hid'
      exact hs.sound id' h' hid'
  · intro id' w x hx
    rcases List.mem_append.mp hx with hnew | hold
    · obtain ⟨⟨w', x'⟩, hmem, heq⟩ := List.mem_map.mp hnew
      cases heq
      obtain ⟨hw, hfor⟩ := Handler.step_handed hstep hsound (Option.mem_toList.mp hmem)
      exact ⟨hlt, hflag, hw, hfor⟩
    · obtain ⟨hlt', -, hw, hfor⟩ := hs.handed id' w x hold
      exact ⟨hlt', hflag, hw, hfor⟩

/-- Someone comes in. -/
theorem FrontState.Sound.receive (hs : s.Sound json sha256Hex) (hclaimed : s.shared.setupRequired = false)
    (r : Request) (accepted : Instant) : (s.receive r accepted).Sound json sha256Hex := by
  have hfresh : s.handlers s.arrivals = none := by
    by_contra hne
    obtain ⟨h, hh⟩ := Option.ne_none_iff_exists'.mp hne
    exact absurd (hs.inside _ h hh).1 (lt_irrefl _)
  refine ⟨?_, ?_, ?_, ?_⟩
  · refine hs.counts.congr fun id => ?_
    by_cases heq : id = s.arrivals
    · subst heq
      rw [FrontState.handlers_receive_self, hfresh]
      rfl
    · rw [FrontState.handlers_receive_of_ne heq]
  · intro id h hid
    refine ⟨?_, hclaimed⟩
    by_cases heq : id = s.arrivals
    · subst heq
      exact Nat.lt_succ_self _
    · rw [FrontState.handlers_receive_of_ne heq] at hid
      exact Nat.lt_succ_of_lt (hs.inside id h hid).1
  · intro id h hid
    by_cases heq : id = s.arrivals
    · subst heq
      rw [FrontState.handlers_receive_self] at hid
      cases hid
      trivial
    · rw [FrontState.handlers_receive_of_ne heq] at hid
      exact hs.sound id h hid
  · intro id w x hx
    obtain ⟨hlt, hflag, hw, hfor⟩ := hs.handed id w x hx
    exact ⟨Nat.lt_succ_of_lt hlt, hflag, hw, hfor⟩

/-- **Every step keeps it.** -/
theorem FrontState.Sound.step (hs : s.Sound json sha256Hex)
    (h : s.step json sha256Hex hash render e = some s') : s'.Sound json sha256Hex := by
  cases e with
  | claim =>
      cases h
      exact ⟨hs.counts, fun id h hid => ⟨(hs.inside id h hid).1, rfl⟩, hs.sound, fun id w x hx =>
        ⟨(hs.handed id w x hx).1, rfl, (hs.handed id w x hx).2.2⟩⟩
  | publish cfg =>
      cases h
      exact ⟨hs.counts, hs.inside, hs.sound, hs.handed⟩
  | resize lanes =>
      cases h
      exact ⟨hs.counts, hs.inside, hs.sound, hs.handed⟩
  | arrive r accepted =>
      simp only [FrontState.step] at h
      split at h
      · -- turned away before the counter
        cases h
        exact ⟨hs.counts, fun id h hid => ⟨Nat.lt_succ_of_lt (hs.inside id h hid).1, (hs.inside id h hid).2⟩,
          hs.sound, fun id w x hx => ⟨Nat.lt_succ_of_lt (hs.handed id w x hx).1, (hs.handed id w x hx).2⟩⟩
      · rename_i hclaimed
        cases h
        exact hs.receive (by simpa using hclaimed) r accepted
  | touch id t =>
      obtain ⟨h', hid, heffect⟩ := Option.bind_eq_some_iff.mp h
      obtain ⟨f, hstep, rfl⟩ := Option.map_eq_some_iff.mp heffect
      exact hs.apply hid hstep

/-- **What holds of every reachable state.** -/
theorem reachable_sound (h : (frontSystem json sha256Hex hash render).Reachable s) : s.Sound json sha256Hex := by
  refine h.invariant ?_ ?_
  · rintro _ ⟨setupRequired, cfg, lanes, rfl⟩
    exact sound_boot ..
  · intro s e s' hs hstep
    exact hs.step hstep

/-- **The cap on requests at work.**  The counter of requests in flight is the number of guards that are out, and
however requests and saves interleave, of the requests that were let in under a cap of at most `c` no more than `c` are
at work. -/
theorem inflight_capped (h : (frontSystem json sha256Hex hash render).Reachable s) :
    s.shared.inflight = {id | ((s.handlers id).bind Handler.rank).isSome = true}.ncard ∧
      ∀ (c : ℕ) (ids : Finset ℕ),
        (∀ id ∈ ids, ∃ w, (s.handlers id).bind Handler.work = some w ∧ w.cfg.maxInflight ≤ c) → ids.card ≤ c := by
  have hs := reachable_sound h
  refine ⟨hs.counts.ncard_eq.symm, fun c ids hids => hs.counts.card_le c ids fun id hid => ?_⟩
  obtain ⟨w, hw, hcap⟩ := hids id hid
  obtain ⟨h', hid', hwork⟩ := Option.bind_eq_some_iff.mp hw
  obtain ⟨hrank, hsound⟩ := rank_of_work (hs.sound id h' hid') hwork
  exact ⟨w.rank, by rw [hid', Option.bind_some, hrank], hsound.under.trans hcap⟩

end Reachable

/-! A stream, under settings without client authentication. -/

/-- A body that asks for a stream, and the same with the injected field. -/
def streamBody : List UInt8 := asciiBytes "\x7b\"model\":\"m\",\"stream\":true\x7d"

/-- The same body with the field. -/
def injectedBody : List UInt8 :=
  asciiBytes "\x7b\"model\":\"m\",\"stream\":true,\"stream_options\":\x7b\"include_usage\":true\x7d\x7d"

/-- The fields of the first. -/
def streamFields : List (String × Json JsonNumber) := [("model", .str "m"), ("stream", .bool true)]

/-- The fields of the second. -/
def injectedFields : List (String × Json JsonNumber) :=
  [("model", .str "m"), ("stream", .bool true), ("stream_options", .obj [("include_usage", .bool true)])]

/-- The reader of the two bodies, and the printer of the second. -/
def streamCodec : BodyCodec JsonNumber where
  fromSlice body :=
    if body = streamBody then some (.obj streamFields)
    else if body = injectedBody then some (.obj injectedFields) else none
  toVec
    | .obj [("model", .str "m"), ("stream", .bool true), ("stream_options", .obj [("include_usage", .bool true)])] =>
        some injectedBody
    | _ => none

/-- Settings that ask for no client key. -/
def openConfig : Config where
  baseUrl := "http://up"
  maxWait := 300
  heartbeat := 10
  modelsTtl := 300
  streamIdle := 120
  requestTimeout := 300
  strictPassthrough := false
  clients := none
  maxInflight := 1
  governor := {}

/-- A request that asks for a stream. -/
def streamRequest : Request := ⟨"POST", "/v1/chat/completions", none, [], streamBody⟩

/-- The first second of the clock. -/
def firstSecond : Instant := ⟨1, 0, by decide, by decide, by decide⟩

/-- The request is let in, and its first attempt goes out. -/
def firstAttempt : List FrontEvent :=
  [.claim, .arrive streamRequest firstSecond] ++
    [Touch.read, .enter, .decide, .label, .hint, .route, .send "k"].map (.touch 0)

/-- The process starts unclaimed, with one lane. -/
def openBoot : FrontState := { shared := ⟨true, openConfig, 1, 0, ∅, ∅⟩ }

/-- The runs of the front under this codec. -/
abbrev openSystem : System FrontState FrontEvent := frontSystem streamCodec id (fun _ => 7) (fun _ => "")

/-- In the run, one attempt goes out. -/
theorem exists_first_attempt : ∃ s, openSystem.Run openBoot firstAttempt s ∧
    (s.handed.map fun x => (x.1, x.2.2) : List (ℕ × Handed)) =
      [(0, .attempt "m" (upstreamRequest openConfig streamRequest "k" injectedBody))] := by
  obtain ⟨s, hrun, hP⟩ := @System.run_of_exec_any _ _ openBoot firstAttempt
    (fun s => ∃ setupRequired cfg lanes, s = { shared := ⟨setupRequired, cfg, lanes, 0, ∅, ∅⟩ })
    (FrontState.step streamCodec id (fun _ => 7) fun _ => "")
    (fun s => (s.handed.map fun x => (x.1, x.2.2) : List (ℕ × Handed)) ==
      [(0, .attempt "m" (upstreamRequest openConfig streamRequest "k" injectedBody))]) (by decide +kernel)
  exact ⟨s, hrun, by simpa using hP⟩

/-- It was handed on by a request at work. -/
theorem exists_handed_attempt : ∃ s w, openSystem.Run openBoot firstAttempt s ∧
    (0, w, .attempt "m" (upstreamRequest openConfig streamRequest "k" injectedBody)) ∈ s.handed := by
  obtain ⟨s, hrun, hlog⟩ := exists_first_attempt
  have hmem : (0, Handed.attempt "m" (upstreamRequest openConfig streamRequest "k" injectedBody)) ∈
      (s.handed.map fun x => (x.1, x.2.2) : List (ℕ × Handed)) := by
    rw [hlog]
    exact List.mem_singleton_self _
  obtain ⟨⟨id, w, x⟩, hx, heq⟩ := List.mem_map.mp hmem
  cases heq
  exact ⟨s, w, hrun, hx⟩

/-- The counter is the number of guards at the end of some run, and the bound holds there. -/
theorem inflight_capped_stream : ∃ s, openSystem.Reachable s ∧
    s.shared.inflight = {id | ((s.handlers id).bind Handler.rank).isSome = true}.ncard ∧
    ∀ (c : ℕ) (ids : Finset ℕ),
      (∀ id ∈ ids, ∃ w, (s.handlers id).bind Handler.work = some w ∧ w.cfg.maxInflight ≤ c) → ids.card ≤ c := by
  obtain ⟨s, hrun, -⟩ := exists_first_attempt
  have hreach : openSystem.Reachable s := ⟨_, _, ⟨true, openConfig, 1, rfl⟩, hrun⟩
  exact ⟨s, hreach, inflight_capped hreach⟩

section Handed

variable {ν : Type} {json : BodyCodec ν} {sha256Hex : String → String} {hash : List String → UInt64}
  {render : Json ν → String} {s s' : FrontState} {es : List FrontEvent} {e : FrontEvent} {id : ℕ} {r : Request}

/-- **`ArrivedIn s₀ es id r`** — the request came in by an event of this run, as the `id`-th, and the setup was over
by then. -/
def ArrivedIn (json : BodyCodec ν) (sha256Hex : String → String) (hash : List String → UInt64)
    (render : Json ν → String) (s₀ : FrontState) (es : List FrontEvent) (id : ℕ) (r : Request) : Prop :=
  ∃ es₁ accepted es₂ s₁, es = es₁ ++ .arrive r accepted :: es₂ ∧
    (frontSystem json sha256Hex hash render).Run s₀ es₁ s₁ ∧ s₁.arrivals = id ∧ s₁.shared.setupRequired = false

/-- An arrival stays in the history. -/
theorem ArrivedIn.snoc {s₀ : FrontState} (h : ArrivedIn json sha256Hex hash render s₀ es id r) (e : FrontEvent) :
    ArrivedIn json sha256Hex hash render s₀ (es ++ [e]) id r := by
  obtain ⟨es₁, accepted, es₂, s₁, rfl, hrun, hid, hopen⟩ := h
  exact ⟨es₁, accepted, es₂ ++ [e], s₁, by simp, hrun, hid, hopen⟩

/-- Who is inside or was served since `s₀` came in by an event of the run. -/
structure Arrivals (json : BodyCodec ν) (sha256Hex : String → String) (hash : List String → UInt64)
    (render : Json ν → String) (s₀ : FrontState) (es : List FrontEvent) (s : FrontState) : Prop where
  inside : ∀ id h r, s.handlers id = some h → h.request = some r → ArrivedIn json sha256Hex hash render s₀ es id r
  handed : ∀ id w x, (id, w, x) ∈ s.handed → ArrivedIn json sha256Hex hash render s₀ es id w.request

/-- Whoever comes in adds its arrival; the others have theirs. -/
theorem Arrivals.step {s₀ : FrontState} (hrun : (frontSystem json sha256Hex hash render).Run s₀ es s)
    (hs : Arrivals json sha256Hex hash render s₀ es s) (h : s.step json sha256Hex hash render e = some s') :
    Arrivals json sha256Hex hash render s₀ (es ++ [e]) s' := by
  cases e with
  -- nobody comes in or goes on
  | claim | publish | resize =>
      cases h
      exact ⟨fun id h r hid hr => (hs.inside id h r hid hr).snoc _, fun id w x hx => (hs.handed id w x hx).snoc _⟩
  | arrive r accepted =>
      simp only [FrontState.step] at h
      split at h
      · cases h
        exact ⟨fun id h r hid hr => (hs.inside id h r hid hr).snoc _, fun id w x hx => (hs.handed id w x hx).snoc _⟩
      · rename_i hclaimed
        cases h
        refine ⟨fun id h r' hid hr => ?_, fun id w x hx => (hs.handed id w x hx).snoc _⟩
        by_cases heq : id = s.arrivals
        · -- the newcomer: this is its event
          subst heq
          rw [FrontState.handlers_receive_self] at hid
          cases hid
          obtain rfl := Option.some.inj hr
          exact ⟨es, accepted, [], s, rfl, hrun, rfl, by simpa using hclaimed⟩
        · rw [FrontState.handlers_receive_of_ne heq] at hid
          exact (hs.inside id h r' hid hr).snoc _
  -- a request that goes on is the request it was
  | touch id t =>
      obtain ⟨h', hid, heffect⟩ := Option.bind_eq_some_iff.mp h
      obtain ⟨f, hstep, rfl⟩ := Option.map_eq_some_iff.mp heffect
      refine ⟨fun id' next r' hid' hr => ?_, fun id' w x hx => ?_⟩
      · by_cases heq : id' = id
        · subst heq
          rw [FrontState.handlers_apply_self] at hid'
          exact (hs.inside id' h' r' hid (Handler.step_request hstep hid' hr)).snoc _
        · rw [FrontState.handlers_apply_of_ne heq] at hid'
          exact (hs.inside id' next r' hid' hr).snoc _
      · rcases List.mem_append.mp hx with hnew | hold
        · obtain ⟨⟨w', x'⟩, hmem, hpair⟩ := List.mem_map.mp hnew
          cases hpair
          have hwork := Handler.work_of_handed hstep (Option.mem_toList.mp hmem)
          exact (hs.inside _ h' _ hid (Handler.request_of_work hwork)).snoc _
        · exact (hs.handed id' w x hold).snoc _

/-- Along a run from a state that nobody is in and that has handed nothing on. -/
theorem arrivals_of_run {s₀ : FrontState} (hinside : ∀ id, s₀.handlers id = none) (hhanded : s₀.handed = [])
    (hrun : (frontSystem json sha256Hex hash render).Run s₀ es s) :
    Arrivals json sha256Hex hash render s₀ es s := by
  induction hrun with
  | nil =>
      refine ⟨fun id h r hid _ => ?_, fun id w x hx => ?_⟩
      · rw [hinside id] at hid
        cases hid
      · rw [hhanded] at hx
        cases hx
  | snoc hbefore hstep ih => exact ih.step hbefore hstep

end Handed

end Flock.Front
