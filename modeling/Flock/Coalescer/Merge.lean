/-
# Flock.Coalescer.Merge — which requests a coalescer merges.

The key of a buffered request is a digest of its method, its path and its body; the request that goes upstream is
assembled elsewhere, from these and from two headers of the client.  A follower takes the response to the
leader's upstream request, so what matters is how far the two would have agreed: `merged_requests_agree`.

SHA-256 is a parameter, like the JSON reader and printer that put the provider's model id into the body.  A
method and a path hold no line break, which is what the `http` types they come from allow.
-/
import Flock.Auth.Basic
import Flock.Coalescer
import Flock.Json

namespace Flock

open Lib (System)

/-! ## The key -/

/-- A text without a line break: a `Method`, or a `PathAndQuery`. -/
structure LineText where
  text : String
  noBreak : (10 : UInt8) ∉ utf8 text
  deriving DecidableEq

/-- What of a client's request `execute_buffered` keys on or sends on. -/
structure BufferedRequest where
  method : LineText
  pathQuery : LineText
  contentType : Option String
  accept : Option String
  body : List UInt8
  deriving DecidableEq

/-- What `coalesce_key` digests. -/
def coalescePreimage (method path : String) (body : List UInt8) : List UInt8 :=
  utf8 method ++ 10 :: (utf8 path ++ 10 :: body)

/-- `coalesce_key`. -/
def coalesceKey (sha256 : List UInt8 → List UInt8) (method path : String) (body : List UInt8) : String :=
  hex (sha256 (coalescePreimage method path body))

namespace BufferedRequest

/-- The key a request registers. -/
def key (sha256 : List UInt8 → List UInt8) (r : BufferedRequest) : String :=
  coalesceKey sha256 r.method.text r.pathQuery.text r.body

/-- The bytes that are digested for it. -/
def preimage (r : BufferedRequest) : List UInt8 :=
  coalescePreimage r.method.text r.pathQuery.text r.body

end BufferedRequest

/-- The two requests are no collision of the digest. -/
def NoCollision (sha256 : List UInt8 → List UInt8) (a b : BufferedRequest) : Prop :=
  sha256 a.preimage = sha256 b.preimage → a.preimage = b.preimage

/-- A text ends at its first break. -/
theorem append_break_inj {xs ys zs ws : List UInt8} (hxs : (10 : UInt8) ∉ xs) (hys : (10 : UInt8) ∉ ys)
    (h : xs ++ 10 :: zs = ys ++ 10 :: ws) : xs = ys ∧ zs = ws := by
  induction xs generalizing ys with
  | nil =>
      cases ys with
      | nil => exact ⟨rfl, (List.cons.inj h).2⟩
      | cons y ys =>
          obtain ⟨rfl, -⟩ := List.cons.inj h
          simp at hys
  | cons x xs ih =>
      cases ys with
      | nil =>
          obtain ⟨rfl, -⟩ := List.cons.inj h
          simp at hxs
      | cons y ys =>
          obtain ⟨rfl, hrest⟩ := List.cons.inj h
          obtain ⟨rfl, rfl⟩ := ih (List.not_mem_of_not_mem_cons hxs) (List.not_mem_of_not_mem_cons hys) hrest
          exact ⟨rfl, rfl⟩

/-- **What a key stands for.**  Requests of one key that are no collision of the digest have the same method, the
same path and the same body. -/
theorem BufferedRequest.key_inj {sha256 : List UInt8 → List UInt8} {a b : BufferedRequest}
    (hno : NoCollision sha256 a b) (h : a.key sha256 = b.key sha256) :
    a.method = b.method ∧ a.pathQuery = b.pathQuery ∧ a.body = b.body := by
  have hpreimage : a.preimage = b.preimage := hno (hex_injective h)
  obtain ⟨hmethod, hrest⟩ := append_break_inj a.method.noBreak b.method.noBreak hpreimage
  obtain ⟨hpath, hbody⟩ := append_break_inj a.pathQuery.noBreak b.pathQuery.noBreak hrest
  obtain ⟨⟨m, hm⟩, ⟨p, hp⟩, ct, ac, body⟩ := a
  obtain ⟨⟨m', hm'⟩, ⟨p', hp'⟩, ct', ac', body'⟩ := b
  obtain rfl := utf8_injective hmethod
  obtain rfl := utf8_injective hpath
  exact ⟨rfl, rfl, hbody⟩

/-! ## The upstream request -/

/-- `serde_json` on a request body. -/
structure BodyCodec (ν : Type) where
  fromSlice : List UInt8 → Option (Json ν)
  toVec : Json ν → Option (List UInt8)

/-- An assignment to a field of a map that is kept in the order of its names. -/
def insertField {ν : Type} (name : String) (v : Json ν) : List (String × Json ν) → List (String × Json ν)
  | [] => [(name, v)]
  | (k, w) :: rest =>
      if k = name then (name, v) :: rest
      else if name < k then (name, v) :: (k, w) :: rest
      else (k, w) :: insertField name v rest

/-- `rewrite_body_model`. -/
def rewriteBodyModel {ν : Type} (json : BodyCodec ν) (body : List UInt8) (model : String) : List UInt8 :=
  match json.fromSlice body with
  | some (.obj fields) =>
      if ((Json.obj fields).get "model").bind Json.asStr = some model then body
      else (json.toVec (.obj (insertField "model" (.str model) fields))).getD body
  | _ => body

/-- What an attempt takes from the candidate it has acquired, and from its slot. -/
structure Target where
  baseUrl : String
  model : String
  slotKey : String
  deriving DecidableEq

/-- The request that goes upstream. -/
structure UpstreamRequest where
  method : String
  url : String
  authorization : String
  contentType : Option String
  accept : Option String
  body : List UInt8
  deriving DecidableEq

/-- The request assembly of `execute_buffered`. -/
def BufferedRequest.upstream {ν : Type} (json : BodyCodec ν) (target : Target) (r : BufferedRequest) :
    UpstreamRequest where
  method := r.method.text
  url := target.baseUrl ++ r.pathQuery.text
  authorization := "Bearer " ++ target.slotKey
  contentType := r.contentType
  accept := r.accept
  body := rewriteBodyModel json r.body target.model

/-! ## Runs -/

/-- The runs of one coalescer, under the keys of buffered requests. -/
def mergeSystem (sha256 : List UInt8 → List UInt8) (ttl : ℕ) :
    System (Coalescing BufferedRequest) (CoalescerEvent BufferedRequest × ℤ) :=
  coalescerSystem (BufferedRequest.key sha256) ttl

namespace Coalescing

variable {ρ : Type*} {key : ρ → String} {s s' : Coalescing ρ} {t : ℤ} {e : CoalescerEvent ρ} {rx : ℕ} {r : ρ}

/-- Channel `rx` is that of a leader of the key of `r`. -/
def Attached (key : ρ → String) (s : Coalescing ρ) (r : ρ) (rx : ℕ) : Prop :=
  ∃ l, s.leaders[rx]? = some l ∧ key l.request = key r

/-- `b` has received what `a` published. -/
def Receives (s : Coalescing ρ) (b a : ρ) : Prop :=
  ∃ rx resp l, (b, rx, resp) ∈ s.received ∧ s.leaders[rx]? = some l ∧ l.request = a ∧ l.value = some resp

/-- **`Keyed key s`** — entries, followers and receipts are under the key of their leader. -/
structure Keyed (key : ρ → String) (s : Coalescing ρ) : Prop where
  sound : Sound key s
  waiting : ∀ r rx, (r, rx) ∈ s.waiting → Attached key s r rx
  received : ∀ r rx resp, (r, rx, resp) ∈ s.received → Attached key s r rx

theorem keyed_new {ttl : ℕ} {now : ℤ} : Keyed key (new ttl now) where
  sound := sound_new
  waiting r rx h := by cases h
  received r rx resp h := by cases h

/-- No step takes a leader away, or its request. -/
theorem request_moves (hmoves : Moves key s t e s') {l : Leader ρ} (hget : s.leaders[rx]? = some l) :
    ∃ l', s'.leaders[rx]? = some l' ∧ l'.request = l.request := by
  cases hmoves with
  | follow hentry hyoung => exact ⟨l, hget, rfl⟩
  | lead hold => exact ⟨l, leader_append hget, rfl⟩
  | @send tx resp m hm hlive =>
      obtain ⟨l', hget', hrequest, -⟩ := leader_set { m with value := some resp } hm rfl rfl hget
      exact ⟨l', hget', hrequest⟩
  | @drop tx m hm =>
      obtain ⟨l', hget', hrequest, -⟩ := leader_set { m with dropped := true } hm rfl rfl hget
      exact ⟨l', hget', hrequest⟩
  | receive hwait hget' hvalue => exact ⟨l, hget, rfl⟩
  | leave => exact ⟨l, hget, rfl⟩

theorem attached_moves (hmoves : Moves key s t e s') (h : Attached key s r rx) : Attached key s' r rx := by
  obtain ⟨l, hget, hkey⟩ := h
  obtain ⟨l', hget', hrequest⟩ := request_moves hmoves hget
  exact ⟨l', hget', by rw [hrequest, hkey]⟩

theorem keyed_moves (h : Keyed key s) (hmoves : Moves key s t e s') : Keyed key s' := by
  have hkeep : ∀ {r rx}, Attached key s r rx → Attached key s' r rx := attached_moves hmoves
  have hsound := sound_moves h.sound hmoves
  cases hmoves with
  | @follow q f hentry hyoung =>
      refine ⟨hsound, ?_, fun r rx resp hr => hkeep (h.received r rx resp hr)⟩
      intro r rx hr
      rcases List.mem_append.mp hr with hbefore | hnew
      · exact hkeep (h.waiting r rx hbefore)
      · -- the channel came with the entry of the follower's own key
        obtain ⟨rfl, rfl⟩ := Prod.mk.inj (List.mem_singleton.mp hnew)
        obtain ⟨l, hget, hkey, -⟩ := h.sound _ f hentry
        exact ⟨l, hget, hkey⟩
  | lead hold =>
      exact ⟨hsound, fun r rx hr => hkeep (h.waiting r rx hr), fun r rx resp hr => hkeep (h.received r rx resp hr)⟩
  | send hget hlive =>
      exact ⟨hsound, fun r rx hr => hkeep (h.waiting r rx hr), fun r rx resp hr => hkeep (h.received r rx resp hr)⟩
  | drop hget =>
      exact ⟨hsound, fun r rx hr => hkeep (h.waiting r rx hr), fun r rx resp hr => hkeep (h.received r rx resp hr)⟩
  | @receive i rx r l resp hwait hget hvalue =>
      refine ⟨hsound, fun r rx hr => hkeep (h.waiting r rx (List.mem_of_mem_eraseIdx hr)), ?_⟩
      intro r' rx' resp' hr
      rcases List.mem_append.mp hr with hbefore | hnew
      · exact hkeep (h.received r' rx' resp' hbefore)
      · obtain ⟨rfl, hpair⟩ := Prod.mk.inj (List.mem_singleton.mp hnew)
        obtain ⟨rfl, rfl⟩ := Prod.mk.inj hpair
        exact hkeep (h.waiting r' rx' (List.mem_of_getElem? hwait))
  | leave =>
      exact ⟨hsound, fun r rx hr => hkeep (h.waiting r rx (List.mem_of_mem_eraseIdx hr)),
        fun r rx resp hr => hkeep (h.received r rx resp hr)⟩

theorem reachable_keyed {ttl : ℕ} (h : (coalescerSystem key ttl).Reachable s) : Keyed key s := by
  refine System.Reachable.invariant (I := Keyed key) ?_ ?_ h
  · rintro s ⟨now, rfl⟩
    exact keyed_new
  · intro s x s' hbefore hstep
    exact keyed_moves hbefore (step_moves hstep).2

/-- Who receives a response has the key of whom it is from. -/
theorem Receives.key_eq {ttl : ℕ} {a b : ρ} (h : (coalescerSystem key ttl).Reachable s) (hr : Receives s b a) :
    key a = key b := by
  obtain ⟨rx, resp, l, hmem, hget, rfl, -⟩ := hr
  obtain ⟨l', hget', hkey⟩ := (reachable_keyed h).received b rx resp hmem
  obtain rfl : l = l' := Option.some.inj (hget.symm.trans hget')
  exact hkey

/-- Whatever a leader publishes meets `P`. -/
def Publishing (P : ρ → SharedResponse → Prop) (s : Coalescing ρ) (x : CoalescerEvent ρ × ℤ) : Prop :=
  ∀ tx resp l, x.1 = .send tx resp → s.leaders[tx]? = some l → P l.request resp

/-- **`Told key P s`** — what is on a channel meets `P`, and so does what was received from it, by a request of
the leader's key. -/
structure Told (key : ρ → String) (P : ρ → SharedResponse → Prop) (s : Coalescing ρ) : Prop where
  keyed : Keyed key s
  published : ∀ (tx : ℕ) (l : Leader ρ) (resp : SharedResponse),
    s.leaders[tx]? = some l → l.value = some resp → P l.request resp
  received : ∀ r rx resp, (r, rx, resp) ∈ s.received →
    ∃ l, s.leaders[rx]? = some l ∧ key l.request = key r ∧ P l.request resp

theorem told_moves {P : ρ → SharedResponse → Prop} (h : Told key P s) (hmoves : Moves key s t e s')
    (hpub : Publishing P s (e, t)) : Told key P s' := by
  have hkept : ∀ r rx resp, (r, rx, resp) ∈ s.received →
      ∃ l, s'.leaders[rx]? = some l ∧ key l.request = key r ∧ P l.request resp := by
    intro r rx resp hr
    obtain ⟨l, hget, hkey, hP⟩ := h.received r rx resp hr
    obtain ⟨l', hget', hrequest⟩ := request_moves hmoves hget
    exact ⟨l', hget', by rw [hrequest, hkey], by rw [hrequest]; exact hP⟩
  have hkeyed := keyed_moves h.keyed hmoves
  cases hmoves with
  | follow hentry hyoung => exact ⟨hkeyed, h.published, hkept⟩
  | lead hold =>
      refine ⟨hkeyed, ?_, hkept⟩
      intro tx l resp hget hvalue
      rcases leader_of_append hget with hbefore | ⟨-, rfl⟩
      · exact h.published tx l resp hbefore hvalue
      · cases hvalue
  | @send tx resp m hm hlive =>
      refine ⟨hkeyed, ?_, hkept⟩
      intro tx' l resp' hget hvalue
      dsimp only at hget
      rw [getElem?_set_leader hm] at hget
      split at hget
      · -- the channel that was just written
        obtain rfl := Option.some.inj hget
        obtain rfl := Option.some.inj hvalue
        exact hpub tx resp m rfl hm
      · exact h.published tx' l resp' hget hvalue
  | @drop tx m hm =>
      refine ⟨hkeyed, ?_, hkept⟩
      intro tx' l resp' hget hvalue
      dsimp only at hget
      rw [getElem?_set_leader hm] at hget
      split at hget
      · obtain rfl := Option.some.inj hget
        exact h.published tx m resp' hm hvalue
      · exact h.published tx' l resp' hget hvalue
  | @receive i rx r l resp hwait hget hvalue =>
      refine ⟨hkeyed, h.published, ?_⟩
      intro r' rx' resp' hr
      rcases List.mem_append.mp hr with hbefore | hnew
      · exact hkept r' rx' resp' hbefore
      · obtain ⟨rfl, hpair⟩ := Prod.mk.inj (List.mem_singleton.mp hnew)
        obtain ⟨rfl, rfl⟩ := Prod.mk.inj hpair
        -- the follower waited on a channel of its own key
        obtain ⟨l', hget', hkey⟩ := h.keyed.waiting r' rx' (List.mem_of_getElem? hwait)
        obtain rfl : l = l' := Option.some.inj (hget.symm.trans hget')
        exact ⟨l, hget, hkey, h.published rx' l resp' hget hvalue⟩
  | leave => exact ⟨hkeyed, h.published, hkept⟩

/-- **What is received was published**, by a leader of the receiver's key. -/
theorem received_published {ttl : ℕ} {P : ρ → SharedResponse → Prop} {resp : SharedResponse}
    (h : ((coalescerSystem key ttl).restrict (Publishing P)).Reachable s) (hr : (r, rx, resp) ∈ s.received) :
    ∃ l ∈ s.leaders, key l.request = key r ∧ P l.request resp := by
  have htold : Told key P s := by
    refine System.Reachable.invariant (I := Told key P) ?_ ?_ h
    · rintro s ⟨now, rfl⟩
      refine ⟨keyed_new, ?_, ?_⟩
      · intro tx l resp hget
        cases hget
      · intro r rx resp hr
        cases hr
    · rintro s x s' hbefore ⟨hstep, hpub⟩
      exact told_moves hbefore (step_moves hstep).2 hpub
  obtain ⟨l, hget, hkey, hP⟩ := htold.received r rx resp hr
  exact ⟨l, List.mem_of_getElem? hget, hkey, hP⟩

end Coalescing

open Coalescing (Receives)

/-- **Coalescing merges requests that agree but for two headers.**  Whoever receives another's response would have
sent the same method, URL, authorization and body to any target: the two upstream requests are the same exactly
if the two clients sent the same Content-Type and Accept. -/
theorem merged_requests_agree {sha256 : List UInt8 → List UInt8} {ttl : ℕ} {s : Coalescing BufferedRequest}
    {a b : BufferedRequest} {ν : Type} (json : BodyCodec ν) (target : Target)
    (h : (mergeSystem sha256 ttl).Reachable s) (hno : NoCollision sha256 a b) (hr : Receives s b a) :
    b.upstream json target =
        { a.upstream json target with contentType := b.contentType, accept := b.accept } ∧
      (b.upstream json target = a.upstream json target ↔
        b.contentType = a.contentType ∧ b.accept = a.accept) := by
  obtain ⟨hmethod, hpath, hbody⟩ := BufferedRequest.key_inj hno (hr.key_eq h)
  have hsame : b.upstream json target =
      { a.upstream json target with contentType := b.contentType, accept := b.accept } := by
    unfold BufferedRequest.upstream
    rw [hmethod, hpath, hbody]
  refine ⟨hsame, ?_⟩
  rw [hsame]
  constructor
  · intro heq
    exact ⟨congrArg UpstreamRequest.contentType heq, congrArg UpstreamRequest.accept heq⟩
  · rintro ⟨hcontent, haccept⟩
    rw [hcontent, haccept]
    rfl

/-! An embedding request that is sent twice, with another Accept the second time. -/

def httpPost : LineText := ⟨"POST", by decide +kernel⟩

/-- `POST /v1/embeddings` with an empty object. -/
def embedding (accept : String) : BufferedRequest where
  method := httpPost
  pathQuery := ⟨"/v1/embeddings", by decide +kernel⟩
  contentType := some "application/json"
  accept := some accept
  body := [123, 125]

/-- A digest without collisions that is SHA-256 on the two requests. -/
def embeddingDigest (bytes : List UInt8) : List UInt8 :=
  if bytes = (embedding "text/csv").preimage then
    [195, 54, 148, 11, 148, 237, 208, 160, 191, 84, 252, 182, 222, 125, 98, 235, 55, 151, 54, 135,
      193, 41, 86, 253, 77, 89, 99, 110, 29, 81, 229, 143]
  else List.replicate 33 0 ++ bytes

/-- The empty object, read and printed with a model. -/
def embeddingJson : BodyCodec ℕ where
  fromSlice body := if body = [123, 125] then some (.obj []) else none
  toVec _ := some (utf8 "\x7b\"model\":\"m\"\x7d")

def embeddingTarget : Target := ⟨"https://integrate.api.nvidia.com", "m", "nvapi-1"⟩

/-- What the leader publishes. -/
def embeddingResponse : SharedResponse := ⟨200, "application/json", [123, 125]⟩

theorem embedding_received : ∃ s, (mergeSystem embeddingDigest (secs 5)).Reachable s ∧
    Receives s (embedding "text/csv") (embedding "application/json") := by
  have hexec : (System.exec (Coalescing.step (BufferedRequest.key embeddingDigest)) (.new (secs 5) 0)
      [(.register (embedding "application/json"), 1), (.register (embedding "text/csv"), 2),
        (.send 0 embeddingResponse, 3), (.wait 0, 4)]).any (fun s : Coalescing BufferedRequest =>
          decide (s.received = [(embedding "text/csv", 0, embeddingResponse)]) &&
            decide (s.leaders = [⟨embedding "application/json", 1, some embeddingResponse, false⟩])) = true := by
    decide +kernel
  obtain ⟨s, hreach, hend⟩ := System.reachable_of_exec
    (show (mergeSystem embeddingDigest (secs 5)).init (.new (secs 5) 0) from ⟨0, rfl⟩) hexec
  simp only [Bool.and_eq_true, decide_eq_true_eq] at hend
  obtain ⟨hreceived, hleaders⟩ := hend
  refine ⟨s, hreach, 0, embeddingResponse, _, ?_, by rw [hleaders]; rfl, rfl, rfl⟩
  rw [hreceived]
  exact List.mem_singleton.mpr rfl

theorem embeddings_no_collision :
    NoCollision embeddingDigest (embedding "application/json") (embedding "text/csv") := fun _ => rfl

theorem merged_requests_agree_embedding : ∃ s, (mergeSystem embeddingDigest (secs 5)).Reachable s ∧
    (embedding "text/csv").upstream embeddingJson embeddingTarget =
      { (embedding "application/json").upstream embeddingJson embeddingTarget with
        contentType := some "application/json", accept := some "text/csv" } := by
  obtain ⟨s, hreach, hr⟩ := embedding_received
  exact ⟨s, hreach, (merged_requests_agree embeddingJson embeddingTarget hreach embeddings_no_collision hr).1⟩

theorem embeddingDigest_injective : Function.Injective embeddingDigest := by
  intro xs ys h
  unfold embeddingDigest at h
  split at h <;> split at h
  · simp_all
  · simpa using congrArg List.length h
  · simpa using congrArg List.length h
  · exact List.append_cancel_left h

/-- The follower asked for CSV, and gets the answer to a request for JSON. -/
theorem accept_not_compared : ∃ s, Function.Injective embeddingDigest ∧
    (mergeSystem embeddingDigest (secs 5)).Reachable s ∧
    Receives s (embedding "text/csv") (embedding "application/json") ∧
    (embedding "text/csv").upstream embeddingJson embeddingTarget ≠
      (embedding "application/json").upstream embeddingJson embeddingTarget := by
  obtain ⟨s, hreach, hr⟩ := embedding_received
  refine ⟨s, embeddingDigest_injective, hreach, hr, ?_⟩
  intro hsame
  have haccept := congrArg UpstreamRequest.accept hsame
  revert haccept
  decide

end Flock
