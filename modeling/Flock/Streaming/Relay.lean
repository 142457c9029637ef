/-
# Flock.Streaming.Relay — what the client of a streaming request is sent.

The task of `Flock.Streaming`, with the frames themselves: the ones in the channel, the ones the client has read, and
the chunks that came from the upstream.  The control frames are comments of the event stream, and an error goes out as
an event of its own followed by `[DONE]`.

So the body of the response is the comments, then the upstream's bytes, then one error at most (`relay_exact`); and the
messages that a client reads in it are the upstream's, unless the upstream broke off inside one (`relay_messages`).

The frames are the refinement of the counter that `Flock.Streaming` keeps of its channel (`queued`): the task sees how
many there are, the client sees which.
-/
import Flock.Observation.Sse
import Flock.Streaming

namespace Flock

open History (Bytes newline)
open Lib (System)

/-- The chunk an await ends with. -/
def StreamEvent.chunk? : StreamEvent → Option Bytes
  | .chunk bytes => some bytes
  | _ => none

namespace Streaming

/-! ## Frames

Every frame is made of whole lines, and ends with an empty one, but for the chunks, which are as the upstream cut
them. -/

/-- What goes into the channel. -/
inductive Frame where
  | connected
  | heartbeat
  | retrying
  | chunk (bytes : Bytes)
  | error (code message : String)
  deriving DecidableEq, Repr

/-- `proxy_error_json`, printed; a `serde_json` map is ordered by its keys. -/
def proxyErrorJson (code message : String) : String :=
  "\x7b\"error\":\x7b\"code\":" ++ Json.quote code ++ ",\"message\":" ++ Json.quote message ++
    ",\"type\":\"proxy_error\"\x7d\x7d"

namespace Frame

/-- The static control frames. -/
def control : Frame → Bool
  | .connected | .heartbeat | .retrying => true
  | .chunk _ | .error _ _ => false

/-- The bytes of a frame; those of an error are `sse_error_with_code`. -/
def bytes : Frame → Bytes
  | .connected => History.utf8 ": connected\n\n".toList
  | .heartbeat => History.utf8 ": heartbeat\n\n".toList
  | .retrying => History.utf8 ": retrying\n\n".toList
  | .chunk bytes => bytes
  | .error code message => History.utf8 ("data: " ++ proxyErrorJson code message ++ "\n\ndata: [DONE]\n\n").toList

/-- What a frame relays. -/
def chunk? : Frame → Option Bytes
  | .chunk bytes => some bytes
  | _ => none

/-- `sse_error`. -/
def sseError (message : String) : Frame := .error "upstream_unavailable" message

end Frame

/-! ## The channel

The channel is a queue.  What was sent is what the client has read, followed by what is in the queue, so a client that
reads slowly sees the same in the end. -/

/-- The task, its channel, and what has gone through. -/
structure Relay where
  task : Streaming
  /-- The chunks that were read from the upstream. -/
  upstream : List Bytes := []
  /-- The error frame a terminal exit sends. -/
  last : Option Frame := none
  /-- The frames the client has not read. -/
  channel : List Frame := []
  received : List Frame := []
  deriving DecidableEq

/-- An event of the task or of its client; `text` is the body of an error response. -/
structure RelayEvent where
  event : StreamEvent
  now : ℤ
  text : String := ""
  deriving DecidableEq, Repr

namespace Relay

variable (statusText : ℕ → String)

/-- The error frame of a terminal exit; `statusText` prints a status with its reason. -/
def exitFrame (pc : StreamPc) (text : String) : StreamEvent → Option Frame
  | .heartbeat | .permit _ | .slot _ => some (.sseError "proxy timed out waiting for an upstream slot")
  | .response _ => some (.sseError "upstream unavailable, retries exhausted")
  | .detail _ =>
      match pc with
      | .detail status => some (.sseError ("upstream error " ++ statusText status ++ ": " ++ text))
      | _ => none
  | .stall => some (.sseError "upstream stream stalled")
  | .chunkError => some (.sseError "upstream stream interrupted")
  | _ => none

/-- What an event puts into the channel if there is room. -/
def offered (r : Relay) : StreamEvent → Option Frame
  | .sent =>
      match r.task.pc with
      | .connecting => some .connected
      | .retrying => some .retrying
      | .relaying => r.upstream.getLast?.map .chunk
      | .lastFrame => r.last
      | _ => none
  | .heartbeat => some .heartbeat
  | .deadline => some (.error "deadline_exceeded" "proxy request deadline exceeded")
  | _ => none

/-- What it puts there. -/
def emitted (r : Relay) (e : StreamEvent) : Option Frame := if r.task.room then r.offered e else none

/-- One event. -/
def step (cfg : StreamConfig) (r : Relay) (x : RelayEvent) : Option Relay :=
  (r.task.step cfg (x.event, x.now)).map fun task =>
    match x.event with
    | .clientReads => { r with task, channel := r.channel.tail, received := r.received ++ r.channel.head?.toList }
    | .clientGone => { r with task }
    | e =>
        { r with
          task
          upstream := r.upstream ++ e.chunk?.toList
          last := if r.task.pc = .lastFrame then r.last else exitFrame statusText r.task.pc x.text e
          channel := r.channel ++ (r.emitted e).toList }

/-- Everything the client was sent, in order; it has read the front of it. -/
def sent (r : Relay) : List Frame := r.received ++ r.channel

/-- The body of the response, as far as it has been sent. -/
def body (r : Relay) : Bytes := r.sent.flatMap Frame.bytes

/-- The upstream's share of it. -/
def relayed (r : Relay) : Bytes := (r.sent.filterMap Frame.chunk?).flatten

end Relay

/-- Every interleaving of the steps of a streaming task with its upstream and its client. -/
def relaySystem (statusText : ℕ → String) (cfg : StreamConfig) : System Relay RelayEvent :=
  .ofStep (fun r => ∃ now fallback, r = { task := { now, fallback } }) (Relay.step statusText cfg)

namespace Relay

variable {statusText : ℕ → String} {cfg : StreamConfig} {r r' : Relay} {x : RelayEvent} {f : StreamEffect}
  {controls tail : List Frame} {chunks : List Bytes}

/-- **Every event, said once**: the client's, or an effect of the task. -/
theorem step_cases (h : r.step statusText cfg x = some r') :
    (∃ now queued gone, r'.task = { r.task with now, queued, gone } ∧ r'.upstream = r.upstream ∧ r'.last = r.last ∧
      r'.sent = r.sent ∧ (r.task.queued = r.channel.length → queued = r'.channel.length)) ∨
    (∃ f, r.task.react cfg x.now x.event = some f ∧
      r' =
        { task := { r.task.apply f with now := x.now, queued := r.task.frames x.event }
          upstream := r.upstream ++ x.event.chunk?.toList
          last := if r.task.pc = .lastFrame then r.last else exitFrame statusText r.task.pc x.text x.event
          channel := r.channel ++ (r.emitted x.event).toList
          received := r.received }) := by
  obtain ⟨e, now, text⟩ := x
  obtain ⟨task, htask, rfl⟩ := Option.map_eq_some_iff.mp h
  simp only [Streaming.step, Option.ite_none_right_eq_some] at htask
  obtain ⟨-, htask⟩ := htask
  cases e with
  | clientReads =>
      simp only [Option.ite_none_right_eq_some, Option.some.injEq] at htask
      obtain ⟨hqueued, rfl⟩ := htask
      refine .inl ⟨now, r.task.queued - 1, r.task.gone, rfl, rfl, rfl, ?_, fun hlength => ?_⟩
      · cases hchannel : r.channel with
        | nil => simp [sent, hchannel]
        | cons f rest => simp [sent, hchannel]
      · show r.task.queued - 1 = r.channel.tail.length
        rw [List.length_tail, hlength]
  | clientGone =>
      obtain rfl := Option.some.inj htask
      exact .inl ⟨now, r.task.queued, true, rfl, rfl, rfl, rfl, id⟩
  | _ =>
      obtain ⟨f, hf, rfl⟩ := Option.map_eq_some_iff.mp htask
      exact .inr ⟨f, hf, rfl⟩

/-! ## What has been sent

The log of what was sent, taken apart: the comments first, then the chunks, then an error.  `Stage` says for every
place of the task which of the three there can be by now. -/

/-- **`Log r controls chunks tail`** — the client was sent control frames, the first of them `connected`, then the
chunks, then the tail. -/
structure Log (r : Relay) (controls : List Frame) (chunks : List Bytes) (tail : List Frame) : Prop where
  sent : r.sent = controls ++ chunks.map .chunk ++ tail
  plain : ∀ f ∈ controls, f.control = true
  connected : controls = [] ∧ chunks = [] ∨ controls.head? = some .connected

/-- What sends nothing leaves the log as it is. -/
theorem Log.quiet (h : Log r controls chunks tail) (hsent : r'.sent = r.sent) : Log r' controls chunks tail :=
  ⟨hsent.trans h.sent, h.plain, h.connected⟩

/-- Another control frame, before any chunk. -/
theorem Log.comment {c : Frame} (h : Log r controls [] []) (hsent : r'.sent = r.sent ++ [c]) (hc : c.control = true)
    (hfirst : controls = [] → c = .connected) : Log r' (controls ++ [c]) [] [] := by
  refine ⟨by simp [hsent, h.sent], fun f hf => ?_, .inr ?_⟩
  · rcases List.mem_append.mp hf with hold | hnew
    · exact h.plain f hold
    · rw [List.mem_singleton.mp hnew]
      exact hc
  · rcases h.connected with ⟨hnil, -⟩ | hhead
    · simp [hnil, hfirst hnil]
    · obtain ⟨first, rest, rfl⟩ := List.exists_cons_of_ne_nil (l := controls) (by rintro rfl; cases hhead)
      simpa using hhead

/-- Another chunk. -/
theorem Log.chunk {b : Bytes} (h : Log r controls chunks []) (hcontrols : controls ≠ [])
    (hsent : r'.sent = r.sent ++ [.chunk b]) : Log r' controls (chunks ++ [b]) [] :=
  ⟨by simp [hsent, h.sent], h.plain, .inr (h.connected.resolve_left fun hnone => hcontrols hnone.1)⟩

/-- The error. -/
theorem Log.error {f : Frame} (h : Log r controls chunks []) (hsent : r'.sent = r.sent ++ [f]) :
    Log r' controls chunks [f] :=
  ⟨by simp [hsent, h.sent], h.plain, h.connected⟩

/-- What the upstream has to do with it, by where the task stands. -/
def Stage (r : Relay) (controls : List Frame) (chunks : List Bytes) (tail : List Frame) : StreamPc → Prop
  | .connecting => controls = [] ∧ chunks = [] ∧ tail = [] ∧ r.upstream = []
  | .permit | .slot | .upstream | .detail _ | .retrying =>
      controls ≠ [] ∧ chunks = [] ∧ tail = [] ∧ r.upstream = []
  | .reading => controls ≠ [] ∧ chunks = r.upstream ∧ tail = []
  | .relaying => controls ≠ [] ∧ tail = [] ∧ ∃ b, r.upstream = chunks ++ [b]
  | .lastFrame => chunks = r.upstream ∧ tail = [] ∧ ∃ message, r.last = some (.sseError message)
  | .done =>
      (chunks = r.upstream ∨ ∃ b, r.upstream = chunks ++ [b]) ∧
      (tail = [] ∨ ∃ code message, tail = [.error code message])

/-- **`Exact r`** — the log of a relay, the observer's share of it, and what `completed` stands for. -/
structure Exact (r : Relay) : Prop where
  log : ∃ controls chunks tail, Log r controls chunks tail ∧ Stage r controls chunks tail r.task.pc ∧
    (.completed ∈ r.task.finalised → r.task.pc = .done ∧ chunks = r.upstream ∧ tail = [])
  queued : r.task.queued = r.channel.length
  seen : ∀ seen, r.task.observer = some seen → seen = r.upstream.flatten

/-! ## One step

By effect: a step adds a frame, or none, and goes to another stage.  The observer gets each chunk before it is sent,
so what it has seen is ahead of the log by one chunk at most. -/

/-- As long as a task is not over there is no error in the log, and at most one chunk is still to be sent. -/
theorem Stage.going {pc : StreamPc} (h : Stage r controls chunks tail pc) (hpc : pc ≠ .done) :
    tail = [] ∧ (chunks = r.upstream ∨ ∃ b, r.upstream = chunks ++ [b]) := by
  cases pc with
  | connecting => exact ⟨h.2.2.1, .inl (h.2.1.trans h.2.2.2.symm)⟩
  | permit | slot | upstream | detail | retrying => exact ⟨h.2.2.1, .inl (h.2.1.trans h.2.2.2.symm)⟩
  | reading => exact ⟨h.2.2, .inl h.2.1⟩
  | relaying => exact ⟨h.2.1, .inr h.2.2⟩
  | lastFrame => exact ⟨h.2.1, .inl h.1⟩
  | done => exact absurd rfl hpc

/-- The frames a step adds, and what it leaves alone. -/
structure Adds (r : Relay) (frame : Option Frame) (r' : Relay) : Prop where
  received : r'.received = r.received
  channel : r'.channel = r.channel ++ frame.toList
  queued : r'.task.queued = r.task.queued + frame.toList.length

/-- The frame goes to the end of what was sent. -/
theorem Adds.sent {frame : Option Frame} (h : Adds r frame r') : r'.sent = r.sent ++ frame.toList := by
  rw [Relay.sent, Relay.sent, h.received, h.channel, List.append_assoc]

/-- The counter of the task goes with the queue. -/
theorem Adds.length {frame : Option Frame} (h : Adds r frame r') (hqueued : r.task.queued = r.channel.length) :
    r'.task.queued = r'.channel.length := by
  rw [h.queued, h.channel, List.length_append, hqueued]

/-- The task ends. -/
theorem Exact.over {frame : Option Frame} (h : Exact r) (hpc : r.task.pc ≠ .done) (hadds : Adds r frame r')
    (hframe : frame = none ∨ ∃ code message, frame = some (.error code message)) (hdone : r'.task.pc = .done)
    (hupstream : r'.upstream = r.upstream) (hfinalised : .completed ∈ r'.task.finalised → .completed ∈ r.task.finalised)
    (hobserver : ∀ seen, r'.task.observer = some seen → r.task.observer = some seen) : Exact r' := by
  obtain ⟨⟨controls, chunks, tail, hlog, hstage, hcompleted⟩, hqueued, hseen⟩ := h
  obtain ⟨rfl, hchunks⟩ := hstage.going hpc
  refine ⟨⟨controls, chunks, frame.toList, ?_, ?_, fun hmem => ?_⟩, hadds.length hqueued, fun seen hsome => ?_⟩
  · rcases hframe with rfl | ⟨code, message, rfl⟩
    · exact hlog.quiet (by simpa using hadds.sent)
    · exact hlog.error hadds.sent
  · rw [hdone]
    refine ⟨hupstream ▸ hchunks, ?_⟩
    rcases hframe with rfl | ⟨code, message, rfl⟩
    · exact .inl rfl
    · exact .inr ⟨code, message, rfl⟩
  · exact absurd (hcompleted (hfinalised hmem)).1 hpc
  · rw [hupstream]
    exact hseen seen (hobserver seen hsome)

/-- An error frame waits for its send. -/
theorem Exact.failing (h : Exact r) (hpc : r.task.pc.early = true ∨ r.task.pc = .reading) (hadds : Adds r none r')
    (hlastFrame : r'.task.pc = .lastFrame) (hupstream : r'.upstream = r.upstream)
    (hlast : ∃ message, r'.last = some (.sseError message))
    (hfinalised : .completed ∈ r'.task.finalised → .completed ∈ r.task.finalised)
    (hobserver : ∀ seen, r'.task.observer = some seen → r.task.observer = some seen) : Exact r' := by
  obtain ⟨⟨controls, chunks, tail, hlog, hstage, hcompleted⟩, hqueued, hseen⟩ := h
  have hne : r.task.pc ≠ .done := by
    rcases hpc with hearly | hreading
    · exact (ne_done_of_early hearly).1
    · rw [hreading]
      simp
  have hall : tail = [] ∧ chunks = r.upstream := by
    cases hr : r.task.pc with
    | connecting | permit | slot | upstream | detail | retrying =>
        rw [hr] at hstage
        exact ⟨hstage.2.2.1, hstage.2.1.trans hstage.2.2.2.symm⟩
    | reading =>
        rw [hr] at hstage
        exact ⟨hstage.2.2, hstage.2.1⟩
    | relaying | lastFrame | done => simp [hr, StreamPc.early] at hpc
  obtain ⟨rfl, hchunks⟩ := hall
  refine ⟨⟨controls, chunks, [], hlog.quiet (by simpa using hadds.sent), ?_, fun hmem => ?_⟩,
    hadds.length hqueued, fun seen hsome => ?_⟩
  · rw [hlastFrame]
    exact ⟨hchunks.trans hupstream.symm, rfl, hlast⟩
  · exact absurd (hcompleted (hfinalised hmem)).1 hne
  · rw [hupstream]
    exact hseen seen (hobserver seen hsome)

/-- Before the upstream has answered: between two awaits, with a control frame or without. -/
theorem Exact.waiting {frame : Option Frame} (h : Exact r) (hpc : r.task.pc.early = true) (hadds : Adds r frame r')
    (hframe : ∀ c, frame = some c → c.control = true)
    (hfirst : r.task.pc = .connecting → frame = some .connected)
    (hearly : r'.task.pc.early = true ∧ r'.task.pc ≠ .connecting) (hupstream : r'.upstream = r.upstream)
    (hfinalised : r'.task.finalised = r.task.finalised) (hobserver : r'.task.observer = r.task.observer) :
    Exact r' := by
  obtain ⟨⟨controls, chunks, tail, hlog, hstage, hcompleted⟩, hqueued, hseen⟩ := h
  -- until now there have been comments only
  have hstart : chunks = [] ∧ tail = [] ∧ r.upstream = [] ∧ (controls = [] → r.task.pc = .connecting) := by
    cases hr : r.task.pc with
    | connecting =>
        rw [hr] at hstage
        exact ⟨hstage.2.1, hstage.2.2.1, hstage.2.2.2, fun _ => rfl⟩
    | permit | slot | upstream | detail | retrying =>
        rw [hr] at hstage
        exact ⟨hstage.2.1, hstage.2.2.1, hstage.2.2.2, fun hnil => absurd hnil hstage.1⟩
    | reading | relaying | lastFrame | done => simp [hr, StreamPc.early] at hpc
  obtain ⟨rfl, rfl, hnone, hconnecting⟩ := hstart
  -- the first of them is `connected`
  have hstage' : controls ++ frame.toList ≠ [] := by
    intro hnil
    obtain ⟨rfl, hframe⟩ := List.append_eq_nil_iff.mp hnil
    rw [hfirst (hconnecting rfl)] at hframe
    cases hframe
  -- one comment more, or none
  have hlog' : Log r' (controls ++ frame.toList) [] [] := by
    cases frame with
    | none => exact (List.append_nil controls).symm ▸ hlog.quiet (by simpa using hadds.sent)
    | some c =>
        exact hlog.comment hadds.sent (hframe c rfl) fun hnil => Option.some.inj (hfirst (hconnecting hnil))
  -- the upstream has still said nothing
  refine ⟨⟨_, [], [], hlog', ?_, fun hmem => ?_⟩, hadds.length hqueued, fun seen hsome => ?_⟩
  · have hupstream' : r'.upstream = [] := hupstream.trans hnone
    cases hr : r'.task.pc with
    | permit | slot | upstream | detail | retrying => exact ⟨hstage', rfl, rfl, hupstream'⟩
    | connecting => exact absurd hr hearly.2
    | reading | relaying | lastFrame | done => simp [hr, StreamPc.early] at hearly
  · have hdone := (hcompleted (hfinalised ▸ hmem)).1
    exact absurd hdone (ne_done_of_early hpc).1
  · rw [hupstream]
    exact hseen seen (hobserver ▸ hsome)

/-- The observer goes when it is finalised. -/
theorem observer_finalize {s : Streaming} (outcome : Option StreamOutcome) {seen : Bytes}
    (h : (s.finalize outcome).observer = some seen) : s.observer = some seen := by
  cases outcome with
  | none => exact h
  | some o => cases h

/-- A terminal exit does not finalise the observer as completed. -/
theorem finalised_finalize {s : Streaming} {outcome : Option StreamOutcome} (hne : outcome ≠ some .completed)
    (h : .completed ∈ (s.finalize outcome).finalised) : .completed ∈ s.finalised := by
  cases outcome with
  | none => exact h
  | some o =>
      simp only [finalize] at h
      split at h
      · rcases List.mem_cons.mp h with heq | hold
        · exact absurd (congrArg some heq.symm) hne
        · exact hold
      · exact h

/-- The state after an effect. -/
def after (statusText : ℕ → String) (r : Relay) (x : RelayEvent) (f : StreamEffect) : Relay where
  task := { r.task.apply f with now := x.now, queued := r.task.frames x.event }
  upstream := r.upstream ++ x.event.chunk?.toList
  last := if r.task.pc = .lastFrame then r.last else exitFrame statusText r.task.pc x.text x.event
  channel := r.channel ++ (r.emitted x.event).toList
  received := r.received

/-- What a step puts into the channel, it adds. -/
theorem adds_after (x : RelayEvent) (f : StreamEffect) (hsend : x.event = .sent → (r.offered .sent).isSome = true) :
    Adds r (r.emitted x.event) (r.after statusText x f) := by
  refine ⟨rfl, rfl, ?_⟩
  show r.task.frames x.event = _
  obtain ⟨e, now, text⟩ := x
  have hsome : ∀ frame, (if r.task.room then r.task.queued + 1 else r.task.queued) =
      r.task.queued + (if r.task.room then some frame else none : Option Frame).toList.length := by
    intro frame
    split <;> rfl
  cases e with
  | sent =>
      obtain ⟨frame, hframe⟩ := Option.isSome_iff_exists.mp (hsend rfl)
      simp only [emitted, hframe]
      exact hsome frame
  | heartbeat | deadline => exact hsome _
  | _ => simp [frames, emitted, offered]

/-- An event that offers nothing emits nothing. -/
theorem emitted_of_quiet {e : StreamEvent} (h : r.offered e = none) : r.emitted e = none := by
  simp [emitted, h]

/-- A send that is over. -/
theorem exact_sent {now : ℤ} {text : String} (h : Exact r) (hf : r.task.control cfg now .sent = some f) :
    Exact (r.after statusText ⟨.sent, now, text⟩ f) := by
  simp only [control, Option.ite_none_right_eq_some, Bool.or_eq_true] at hf
  obtain ⟨hready, hf⟩ := hf
  have hpending : (r.offered .sent).isSome = true := by
    obtain ⟨controls, chunks, tail, -, hstage, -⟩ := h.log
    cases hr : r.task.pc with
    | connecting | retrying => simp [offered, hr]
    | relaying =>
        rw [hr] at hstage
        obtain ⟨-, -, b, hb⟩ := hstage
        simp [offered, hr, hb]
    | lastFrame =>
        rw [hr] at hstage
        obtain ⟨-, -, message, hlast⟩ := hstage
        simp [offered, hr, hlast]
    | permit | slot | upstream | detail | reading | done => simp [hr, afterSend] at hf
  have hadds : Adds r (r.emitted .sent) (r.after statusText ⟨.sent, now, text⟩ f) :=
    adds_after ⟨.sent, now, text⟩ f fun _ => hpending
  cases hgone : r.task.gone with
  | true =>
      -- nothing goes out to a client that is gone, and the task is over
      have hnone : r.emitted .sent = none := by simp [emitted, room, hgone]
      rw [hnone] at hadds
      rw [hgone] at hf
      cases hr : r.task.pc with
      | connecting | retrying =>
          rw [hr] at hf
          cases hf
          exact h.over (by simp [hr]) hadds (.inl rfl) rfl (by simp [after, StreamEvent.chunk?]) id fun _ hsome => hsome
      | relaying =>
          rw [hr] at hf
          cases hf
          exact h.over (by simp [hr]) hadds (.inl rfl) rfl (by simp [after, StreamEvent.chunk?])
            (finalised_finalize (by simp)) fun _ => observer_finalize _
      | lastFrame =>
          rw [hr] at hf
          cases hf
          exact h.over (by simp [hr]) hadds (.inl rfl) rfl (by simp [after, StreamEvent.chunk?]) id fun _ hsome => hsome
      | permit | slot | upstream | detail | reading | done => simp [hr, afterSend] at hf
  | false =>
      -- the queue has room, so what the task offers is what goes out
      have hroom : r.task.room = true := by simpa [hgone] using hready
      have hout : r.emitted .sent = r.offered .sent := by simp [emitted, hroom]
      rw [hgone] at hf
      cases hr : r.task.pc with
      | connecting | retrying =>
          rw [hout] at hadds
          simp only [offered, hr] at hadds
          rw [hr] at hf
          cases hf
          exact h.waiting (by rw [hr]; rfl) hadds (by simp [Frame.control]) (by simp [hr]) ⟨rfl, by simp [after, apply]⟩
            (by simp [after, StreamEvent.chunk?]) rfl rfl
      | relaying =>
          -- the chunk that waited is no longer the one left out
          rw [hout] at hadds
          simp only [offered, hr] at hadds
          rw [hr] at hf
          cases hf
          obtain ⟨⟨controls, chunks, tail, hlog, hstage, hcompleted⟩, hqueued, hseen⟩ := h
          rw [hr] at hstage
          obtain ⟨hcontrols, rfl, b, hb⟩ := hstage
          rw [hb, List.getLast?_concat] at hadds
          refine ⟨⟨controls, chunks ++ [b], [], hlog.chunk hcontrols hadds.sent, ⟨hcontrols, ?_, rfl⟩, fun hmem => ?_⟩,
            hadds.length hqueued, fun seen hsome => ?_⟩
          · simp [after, StreamEvent.chunk?, hb]
          · rw [(hcompleted hmem).1] at hr
            cases hr
          · simpa [after, StreamEvent.chunk?] using hseen seen hsome
      | lastFrame =>
          rw [hout] at hadds
          simp only [offered, hr] at hadds
          rw [hr] at hf
          cases hf
          obtain ⟨controls, chunks, tail, -, hstage, -⟩ := h.log
          rw [hr] at hstage
          obtain ⟨-, -, message, hlast⟩ := hstage
          exact h.over (by simp [hr]) hadds (.inr ⟨_, message, hlast⟩) rfl (by simp [after, StreamEvent.chunk?]) id
            fun _ hsome => hsome
      | permit | slot | upstream | detail | reading | done => simp [hr, afterSend] at hf

/-- **`Early r pc text e f`** — what an await before the upstream's answer can lead to, and what it sends. -/
inductive Early (statusText : ℕ → String) (r : Relay) (x : RelayEvent) : StreamEffect → Prop
  | goto {pc : StreamPc} (hpc : pc.early = true ∧ pc ≠ .connecting)
      (hframe : r.emitted x.event = none ∨ r.emitted x.event = some .heartbeat) : Early statusText r x (.goto pc)
  | restore (hframe : r.emitted x.event = none) : Early statusText r x .restore
  | start (hframe : r.emitted x.event = none) : Early statusText r x .start
  | exitSending {status : String} (hframe : r.emitted x.event = none)
      (hlast : ∃ message, exitFrame statusText r.task.pc x.text x.event = some (.sseError message)) :
      Early statusText r x (.exitSending none status)

/-- What `control` can do there. -/
theorem early_of_control (hpc : r.task.pc.early = true) (hf : r.task.control cfg x.now x.event = some f)
    (hsend : x.event ≠ .sent) (hdeadline : x.event ≠ .deadline) : Early statusText r x f := by
  obtain ⟨e, now, text⟩ := x
  cases e with
  | sent => exact absurd rfl hsend
  | deadline => exact absurd rfl hdeadline
  -- a task that waits stays in this phase, with a heartbeat or without; only a full channel ends it
  | heartbeat =>
      simp only [control, Option.ite_none_right_eq_some, Option.some.injEq] at hf
      obtain ⟨hwaits, rfl⟩ := hf
      cases hroom : r.task.room with
      | true =>
          have hne : r.task.pc ≠ .connecting := by rcases hwaits with ⟨h, -⟩ | h <;> simp [h]
          exact .goto ⟨hpc, hne⟩ (.inr (by simp [emitted, hroom, offered]))
      | false => exact .exitSending (by simp [emitted, hroom]) ⟨_, rfl⟩
  | permit granted =>
      simp only [control, Option.ite_none_right_eq_some, Option.some.injEq] at hf
      obtain ⟨-, rfl⟩ := hf
      cases granted with
      | true => exact .goto ⟨rfl, by simp⟩ (.inl (emitted_of_quiet rfl))
      | false => exact .exitSending (emitted_of_quiet rfl) ⟨_, rfl⟩
  | slot granted =>
      simp only [control, Option.ite_none_right_eq_some, Option.some.injEq] at hf
      obtain ⟨-, rfl⟩ := hf
      cases granted with
      | true => exact .goto ⟨rfl, by simp⟩ (.inl (emitted_of_quiet rfl))
      | false => exact .exitSending (emitted_of_quiet rfl) ⟨_, rfl⟩
  -- an answer: retried, refused with a message, or the stream starts
  | response status =>
      simp only [control, Option.ite_none_right_eq_some, Option.some.injEq] at hf
      obtain ⟨-, rfl⟩ := hf
      unfold afterResponse
      split
      · exact .goto ⟨rfl, by simp⟩ (.inl (emitted_of_quiet rfl))
      · split
        · exact .restore (emitted_of_quiet rfl)
        · split
          · split
            · exact .exitSending (emitted_of_quiet rfl) ⟨_, rfl⟩
            · exact .goto ⟨rfl, by simp⟩ (.inl (emitted_of_quiet rfl))
          · split
            · exact .start (emitted_of_quiet rfl)
            · exact .goto ⟨rfl, by simp⟩ (.inl (emitted_of_quiet rfl))
  | detail backoff =>
      cases hr : r.task.pc with
      | detail status =>
          simp only [control, hr, Option.some.injEq] at hf
          subst hf
          split
          · exact .goto ⟨rfl, by simp⟩ (.inl (emitted_of_quiet rfl))
          · exact .exitSending (emitted_of_quiet rfl) ⟨_, by rw [hr]; rfl⟩
      | _ => simp [control, hr] at hf
  -- chunks come after this phase
  | chunk _ | chunkError | chunkEnd | stall | closed =>
      simp only [control, Option.ite_none_right_eq_some] at hf
      obtain ⟨hreading, -⟩ := hf
      first
        | (rw [hreading] at hpc; cases hpc)
        | (rw [hreading.1] at hpc; cases hpc)
  | clientReads | clientGone => cases hf

/-- Before the upstream has answered, an await other than a send. -/
theorem exact_early (h : Exact r) (hpc : r.task.pc.early = true ∧ r.task.pc ≠ .connecting)
    (hf : r.task.control cfg x.now x.event = some f) (hsend : x.event ≠ .sent) (hdeadline : x.event ≠ .deadline) :
    Exact (r.after statusText x f) := by
  have hadds : Adds r (r.emitted x.event) (r.after statusText x f) :=
    adds_after x f fun hx => absurd hx hsend
  -- in this phase no chunk is read, so the upstream has said nothing
  have hupstream : (r.after statusText x f).upstream = r.upstream := by
    cases hx : x.event with
    | chunk bytes =>
        rw [hx] at hf
        simp only [control, Option.ite_none_right_eq_some] at hf
        simp [hf.1, StreamPc.early] at hpc
    | _ => simp [after, StreamEvent.chunk?, hx]
  have hlast : (r.after statusText x f).last = exitFrame statusText r.task.pc x.text x.event :=
    if_neg (ne_done_of_early hpc.1).2
  have hcases : Early statusText r x f := early_of_control hpc.1 hf hsend hdeadline
  cases hcases with
  | goto hpc' hframe =>
      refine h.waiting hpc.1 hadds (fun c hc => ?_) (fun hr => absurd hr hpc.2) hpc' hupstream rfl rfl
      rcases hframe with hnone | hheartbeat
      · rw [hnone] at hc
        cases hc
      · rw [hheartbeat] at hc
        cases hc
        rfl
  | restore hframe =>
      rw [hframe] at hadds
      exact h.waiting hpc.1 hadds (fun c hc => by cases hc) (fun hr => absurd hr hpc.2) ⟨rfl, by simp [after, apply]⟩
        hupstream rfl rfl
  | exitSending hframe hmessage =>
      rw [hframe] at hadds
      exact h.failing (.inl hpc.1) hadds rfl hupstream (hlast ▸ hmessage) id fun _ hsome => hsome
  -- the first chunk finds a stage with controls alone
  | start hframe =>
      rw [hframe] at hadds
      obtain ⟨⟨controls, chunks, tail, hlog, hstage, hcompleted⟩, hqueued, -⟩ := h
      have hnone : controls ≠ [] ∧ chunks = [] ∧ tail = [] ∧ r.upstream = [] := by
        cases hr : r.task.pc with
        | permit | slot | upstream | detail | retrying =>
            rw [hr] at hstage
            exact hstage
        | connecting => exact absurd hr hpc.2
        | reading | relaying | lastFrame | done => simp [hr, StreamPc.early] at hpc
      obtain ⟨hcontrols, rfl, rfl, hnone⟩ := hnone
      refine ⟨⟨controls, [], [], hlog.quiet (by simpa using hadds.sent), ⟨hcontrols, ?_, rfl⟩, fun hmem => ?_⟩,
        hadds.length hqueued, fun seen hsome => ?_⟩
      · exact (hupstream.trans hnone).symm
      · exact absurd (hcompleted hmem).1 (ne_done_of_early hpc.1).1
      · obtain rfl := Option.some.inj hsome
        rw [hupstream, hnone]
        rfl

/-- A chunk is pushed into the observer, and waits for its send. -/
theorem push_cases (s : Streaming) (bytes : Bytes) :
    (∃ seen, s.observer = some seen ∧
      s.apply (.push bytes) = { s with pc := .relaying, observer := some (seen ++ bytes) }) ∨
    s.observer = none ∧ s.apply (.push bytes) = { s with pc := .done } := by
  cases hobserver : s.observer with
  | some seen => exact .inl ⟨seen, rfl, by simp [apply, hobserver]⟩
  | none => exact .inr ⟨rfl, by simp [apply, hobserver]⟩

/-- The chunk is in the observer, and not yet sent. -/
theorem Exact.pushed {bytes : Bytes} {now : ℤ} {text : String} (h : Exact r) (hpc : r.task.pc = .reading)
    (hadds : Adds r none (r.after statusText ⟨.chunk bytes, now, text⟩ (.push bytes))) :
    Exact (r.after statusText ⟨.chunk bytes, now, text⟩ (.push bytes)) := by
  obtain ⟨⟨controls, chunks, tail, hlog, hstage, hcompleted⟩, hqueued, hseen⟩ := h
  -- so far the chunks are the upstream's, and nothing but them has followed the comments
  rw [hpc] at hstage
  obtain ⟨hcontrols, rfl, rfl⟩ := hstage
  have htask : (r.after statusText ⟨.chunk bytes, now, text⟩ (.push bytes)).task =
    { r.task.apply (.push bytes) with now, queued := r.task.queued } := rfl
  have hupstream : (r.after statusText ⟨.chunk bytes, now, text⟩ (.push bytes)).upstream = r.upstream ++ [bytes] := rfl
  have hlog' := hlog.quiet (by simpa using hadds.sent)
  have hincomplete : .completed ∉ r.task.finalised := by
    intro hmem
    rw [(hcompleted hmem).1] at hpc
    cases hpc
  -- the observer is there, and reads the chunk, or it has been finalised before
  rcases push_cases r.task bytes with ⟨before, hbefore, happly⟩ | ⟨hnone, happly⟩
  · rw [happly] at htask
    refine ⟨⟨controls, r.upstream, [], hlog', ?_, fun hmem => ?_⟩, hadds.length hqueued, fun seen hsome => ?_⟩
    · rw [htask]
      exact ⟨hcontrols, rfl, bytes, hupstream⟩
    · rw [htask] at hmem
      exact absurd hmem hincomplete
    · rw [htask] at hsome
      obtain rfl := Option.some.inj hsome
      rw [hupstream, hseen before hbefore]
      simp
  · rw [happly] at htask
    refine ⟨⟨controls, r.upstream, [], hlog', ?_, fun hmem => ?_⟩, hadds.length hqueued, fun seen hsome => ?_⟩
    · rw [htask]
      exact ⟨.inr ⟨bytes, hupstream⟩, .inl rfl⟩
    · rw [htask] at hmem
      exact absurd hmem hincomplete
    · rw [htask] at hsome
      have hsome' : r.task.observer = some seen := hsome
      rw [hnone] at hsome'
      cases hsome'

/-- While the upstream's stream is being read. -/
theorem exact_reading (h : Exact r) (hpc : r.task.pc = .reading) (hf : r.task.control cfg x.now x.event = some f)
    (hdeadline : x.event ≠ .deadline) : Exact (r.after statusText x f) := by
  have hsend : x.event ≠ .sent := by
    intro hx
    simp [hx, control, hpc, afterSend] at hf
  have hadds : Adds r (r.emitted x.event) (r.after statusText x f) :=
    adds_after x f fun hx => absurd hx hsend
  have hlast : (r.after statusText x f).last = exitFrame statusText r.task.pc x.text x.event :=
    if_neg (by simp [hpc])
  have hne : r.task.pc ≠ .done := by simp [hpc]
  obtain ⟨e, now, text⟩ := x
  cases e with
  | chunk bytes =>
      rw [emitted_of_quiet rfl] at hadds
      simp only [control, Option.ite_none_right_eq_some, Option.some.injEq] at hf
      obtain ⟨-, rfl⟩ := hf
      exact h.pushed hpc hadds
  | chunkError =>
      rw [emitted_of_quiet rfl] at hadds
      simp only [control, Option.ite_none_right_eq_some, Option.some.injEq] at hf
      obtain ⟨-, rfl⟩ := hf
      exact h.failing (.inr hpc) hadds rfl (by simp [after, StreamEvent.chunk?]) ⟨_, hlast⟩
        (finalised_finalize (by simp)) fun _ => observer_finalize _
  | stall =>
      rw [emitted_of_quiet rfl] at hadds
      simp only [control, Option.ite_none_right_eq_some, Option.some.injEq] at hf
      obtain ⟨-, rfl⟩ := hf
      exact h.failing (.inr hpc) hadds rfl (by simp [after, StreamEvent.chunk?]) ⟨_, hlast⟩
        (finalised_finalize (by simp)) fun _ => observer_finalize _
  | closed =>
      rw [emitted_of_quiet rfl] at hadds
      simp only [control, Option.ite_none_right_eq_some, Option.some.injEq] at hf
      obtain ⟨-, rfl⟩ := hf
      exact h.over hne hadds (.inl rfl) rfl (by simp [after, StreamEvent.chunk?]) (finalised_finalize (by simp))
        fun _ => observer_finalize _
  | chunkEnd =>
      rw [emitted_of_quiet rfl] at hadds
      simp only [control, Option.ite_none_right_eq_some, Option.some.injEq] at hf
      obtain ⟨-, rfl⟩ := hf
      obtain ⟨⟨controls, chunks, tail, hlog, hstage, -⟩, hqueued, -⟩ := h
      rw [hpc] at hstage
      obtain ⟨-, rfl, rfl⟩ := hstage
      -- `completed`: the one way out of the read loop where all chunks have been sent
      have hupstream : (r.after statusText ⟨.chunkEnd, now, text⟩ (.exit (some .completed) "200")).upstream =
          r.upstream := by
        simp [after, StreamEvent.chunk?]
      exact ⟨⟨controls, r.upstream, [], hlog.quiet (by simpa using hadds.sent), ⟨.inl hupstream.symm, .inl rfl⟩,
        fun _ => ⟨rfl, hupstream.symm, rfl⟩⟩, hadds.length hqueued, fun seen hsome => by cases hsome⟩
  | sent => exact absurd rfl hsend
  | deadline => exact absurd rfl hdeadline
  | heartbeat | permit | slot | response | detail | clientReads | clientGone => simp [control, hpc] at hf

/-- The deadline. -/
theorem exact_deadline {now : ℤ} {text : String} (h : Exact r) (hf : r.task.control cfg now .deadline = some f) :
    Exact (r.after statusText ⟨.deadline, now, text⟩ f) := by
  have hadds : Adds r (r.emitted .deadline) (r.after statusText ⟨.deadline, now, text⟩ f) :=
    adds_after ⟨.deadline, now, text⟩ f fun hx => by cases hx
  simp only [control, Option.ite_none_right_eq_some, Option.some.injEq] at hf
  obtain ⟨⟨hne, -⟩, rfl⟩ := hf
  have hframe : r.emitted .deadline = none ∨ ∃ code message, r.emitted .deadline = some (.error code message) := by
    unfold emitted
    split
    · exact .inr ⟨_, _, rfl⟩
    · exact .inl rfl
  exact h.over hne hadds hframe rfl (by simp [after, StreamEvent.chunk?]) (finalised_finalize (by simp))
    fun _ => observer_finalize _

/-- What the task does to go on, if no sum is out of range. -/
theorem exact_control (h : Exact r) (hf : r.task.control cfg x.now x.event = some f) :
    Exact (r.after statusText x f) := by
  obtain ⟨e, now, text⟩ := x
  by_cases hsend : e = .sent
  · subst hsend
    exact exact_sent h hf
  · by_cases hdeadline : e = .deadline
    · subst hdeadline
      exact exact_deadline h hf
    · -- only the awaits of the two parts of the task are left
      cases hr : r.task.pc with
      | permit | slot | upstream | detail | retrying =>
          exact exact_early h (by simp [hr, StreamPc.early]) hf hsend hdeadline
      | reading => exact exact_reading h hr hf hdeadline
      | connecting | relaying | lastFrame | done => cases e <;> simp_all [control]

/-- **A panic cuts the task short**: what it would have gone on from is what it ends in. -/
theorem Exact.panics (h : Exact (r.after statusText x f)) (hadded : added cfg x.event f ≠ []) :
    Exact (r.after statusText x .panic) := by
  obtain ⟨⟨controls, chunks, tail, hlog, hstage, hcompleted⟩, hqueued, hseen⟩ := h
  have hkept : (r.after statusText x f).task.pc ≠ .done ∧
      (r.after statusText x f).task.finalised = r.task.finalised ∧
      (r.after statusText x f).task.observer = r.task.observer := by
    cases f with
    | goto pc =>
        refine ⟨?_, rfl, rfl⟩
        rintro rfl
        exact hadded rfl
    | restore => exact ⟨nofun, rfl, rfl⟩
    | _ => exact absurd rfl hadded
  obtain ⟨hne, hfinalised, hobserver⟩ := hkept
  obtain ⟨rfl, hchunks⟩ := hstage.going hne
  refine ⟨⟨controls, chunks, [], hlog.quiet rfl, ⟨hchunks, .inl rfl⟩, fun hmem => ?_⟩, hqueued, fun seen hsome => ?_⟩
  · exact absurd (hcompleted (hfinalised ▸ hmem)).1 hne
  · exact hseen seen (hobserver ▸ hsome)

/-- **One step keeps the log exact.** -/
theorem exact_step (h : Exact r) (hstep : r.step statusText cfg x = some r') : Exact r' := by
  rcases step_cases hstep with ⟨now, queued, gone, htask, hupstream, hlast, hsent, hlength⟩ | ⟨f, hf, rfl⟩
  · -- the client reads or leaves, and time passes: the task stays where it is
    obtain ⟨⟨controls, chunks, tail, hlog, hstage, hcompleted⟩, hqueued, hseen⟩ := h
    refine ⟨⟨controls, chunks, tail, hlog.quiet hsent, ?_, ?_⟩, ?_, ?_⟩
    · rw [htask]
      unfold Stage at hstage ⊢
      rw [hupstream, hlast]
      exact hstage
    · rw [htask, hupstream]
      exact hcompleted
    · rw [htask]
      exact hlength hqueued
    · rw [htask, hupstream]
      exact hseen
  · show Exact (r.after statusText x f)
    obtain ⟨f', hf', rfl⟩ := Option.map_eq_some_iff.mp hf
    have hexact : Exact (r.after statusText x f') := exact_control h hf'
    split
    · exact hexact
    · rename_i hrange
      have hadded : added cfg x.event f' ≠ [] := by
        intro hnil
        rw [hnil] at hrange
        exact hrange rfl
      exact hexact.panics hadded

/-! ## Whole runs

The log is exact from the boot of the task on, whatever the client does. -/

theorem exact_start (now : ℤ) (fallback : Bool) : Exact { task := { now, fallback } } where
  log := ⟨[], [], [], ⟨rfl, by simp, .inl ⟨rfl, rfl⟩⟩, ⟨rfl, rfl, rfl, rfl⟩, fun h => by cases h⟩
  queued := rfl
  seen := fun seen h => by cases h

theorem exact_of_reachable (h : (relaySystem statusText cfg).Reachable r) : Exact r :=
  System.Reachable.invariant (I := Exact) (by rintro s ⟨now, fallback, rfl⟩; exact exact_start now fallback)
    (fun hexact hstep => exact_step hexact hstep) h

/-- **The relay is exact.**  In every state of a streaming request the client was sent control frames, `connected`
first; then the chunks of the upstream, in order, none twice and none left out but the one that waits for its send when
the task stands at it or ends at it; then one error at most.  Where the stream is reported as completed the client was
sent all of it, and no error; and the observer has seen the chunks that came. -/
theorem relay_exact (h : (relaySystem statusText cfg).Reachable r) : ∃ controls chunks tail,
    r.sent = controls ++ chunks.map .chunk ++ tail ∧
    (∀ f ∈ controls, f.control = true) ∧ (controls = [] ∧ chunks = [] ∨ controls.head? = some .connected) ∧
    (chunks = r.upstream ∨ (r.task.pc = .relaying ∨ r.task.pc = .done) ∧ ∃ b, r.upstream = chunks ++ [b]) ∧
    (tail = [] ∨ r.task.pc = .done ∧ ∃ code message, tail = [.error code message]) ∧
    (.completed ∈ r.task.finalised → chunks = r.upstream ∧ tail = []) ∧
    ∀ seen, r.task.observer = some seen → seen = r.upstream.flatten := by
  obtain ⟨⟨controls, chunks, tail, hlog, hstage, hcompleted⟩, -, hseen⟩ := exact_of_reachable h
  refine ⟨controls, chunks, tail, hlog.sent, hlog.plain, hlog.connected, ?_, ?_, fun hmem => (hcompleted hmem).2, hseen⟩
  · cases hr : r.task.pc with
    | relaying =>
        rw [hr] at hstage
        exact .inr ⟨.inl rfl, hstage.2.2⟩
    | done =>
        rw [hr] at hstage
        exact hstage.1.imp_right fun hlate => ⟨.inr rfl, hlate⟩
    | connecting | permit | slot | upstream | detail | retrying =>
        rw [hr] at hstage
        exact .inl (hstage.2.1.trans hstage.2.2.2.symm)
    | reading =>
        rw [hr] at hstage
        exact .inl hstage.2.1
    | lastFrame =>
        rw [hr] at hstage
        exact .inl hstage.1
  · by_cases hdone : r.task.pc = .done
    · rw [hdone] at hstage
      exact hstage.2.imp_right fun herror => ⟨hdone, herror⟩
    · exact .inl (hstage.going hdone).1

/-- A response of two chunks, for a client that has read none of it. -/
def twoChunks : List RelayEvent :=
  [⟨.sent, 0, ""⟩, ⟨.permit true, 1, ""⟩, ⟨.slot true, 1, ""⟩, ⟨.response (some 200), 2, ""⟩,
    ⟨.chunk (History.utf8 "data: 1\n\n".toList), 3, ""⟩, ⟨.sent, 3, ""⟩,
    ⟨.chunk (History.utf8 "data: 2\n\n".toList), 4, ""⟩, ⟨.sent, 4, ""⟩]

/-- Settings without a request deadline. -/
def unhurried : StreamConfig := ⟨none, 100, 0, secs 5, false⟩

def fresh : Relay := { task := { now := 0, fallback := false } }

def completed (r : Relay) : Bool := r.task.finalised.contains .completed

/-- The client was sent whole events, and an error after them. -/
def interrupted (r : Relay) : Bool :=
  decide (r.sent.getLast? = some (.sseError "upstream stream interrupted")) && decide (Sse.Whole r.relayed)

/-- A stream that the upstream ends. -/
theorem relay_exact_completed : ∃ r, (relaySystem toString unhurried).Reachable r ∧ .completed ∈ r.task.finalised ∧
    ∃ controls chunks tail, r.sent = controls ++ chunks.map .chunk ++ tail ∧ chunks = r.upstream ∧ tail = [] := by
  have hexec : (System.exec (step toString unhurried) fresh (twoChunks ++ [⟨.chunkEnd, 5, ""⟩])).any completed =
      true := by
    decide +kernel
  obtain ⟨r, hreach, hend⟩ := System.reachable_of_exec
    (show (relaySystem toString unhurried).init fresh from ⟨0, false, rfl⟩) hexec
  have hcompleted : .completed ∈ r.task.finalised := by simpa [completed] using hend
  obtain ⟨controls, chunks, tail, hsent, -, -, -, -, hwhole, -⟩ := relay_exact hreach
  exact ⟨r, hreach, hcompleted, controls, chunks, tail, hsent, hwhole hcompleted⟩

end Relay

/-! ## What a client reads in it

The client reads an event stream.  A comment gives no message, a whole event gives its own, and an error gives two,
its text and `[DONE]`; so the messages of the body are those of the upstream's share, if the upstream stopped between
two events or was read to its end. -/

end Streaming

namespace Sse

/-- The messages of an event stream: the data of its events, but for the ones without. -/
def messages (bytes : Bytes) : List Bytes := ((events bytes).map data).filter (!·.isEmpty)

theorem Whole.messages_append {bytes : Bytes} (h : Whole bytes) (rest : Bytes) :
    messages (bytes ++ rest) = messages bytes ++ messages rest := by
  unfold messages
  rw [(h.splits_append rest).1, List.map_append, List.filter_append]

/-- The line of an event that has no other. -/
def dataLine (d : Bytes) : Bytes := dataField ++ History.utf8 [' '] ++ d

/-- An event of one `data:` line. -/
theorem messages_dataLine {d : Bytes} (hd : newline ∉ d) (hne : d ≠ []) (hlast : d.getLast? ≠ some carriageReturn) :
    messages (dataLine d ++ [newline, newline]) = [d] ∧ Whole (dataLine d ++ [newline, newline]) := by
  have hline : newline ∉ dataLine d := by
    intro hmem
    rcases List.mem_append.mp hmem with hfield | hmem
    · revert hfield
      decide
    · exact hd hmem
  have hreturn : stripReturn (dataLine d) = dataLine d := by
    unfold stripReturn dataLine
    rw [List.getLast?_append_of_ne_nil _ hne, if_neg hlast]
  have hpayload : payload (dataLine d) = some d := by
    have hfield : List.isPrefixOf? dataField (dataLine d) = some (History.utf8 [' '] ++ d) :=
      List.isPrefixOf?_eq_some_iff_append_eq.mpr (List.append_assoc _ _ _).symm
    have hstrip : List.isPrefixOf? (History.utf8 [' ']) (History.utf8 [' '] ++ d) = some d :=
      List.isPrefixOf?_eq_some_iff_append_eq.mpr rfl
    unfold payload
    rw [hreturn, hfield, Option.map_some, stripBlank, hstrip, Option.getD_some]
  have hblank : blank (dataLine d) = false := by
    unfold blank
    rw [hreturn]
    rfl
  obtain ⟨hevents, hwhole⟩ := splits_line hline hblank
  refine ⟨?_, hwhole⟩
  have hdata : data [dataLine d] = d := by
    unfold data
    rw [List.filterMap_cons_some hpayload, List.filterMap_nil, List.intercalate_singleton]
  unfold messages
  rw [hevents, List.map_singleton, hdata]
  simp [hne]

end Sse

namespace Streaming

namespace Frame

/-- A comment is whole, and has no message. -/
theorem control_bytes {f : Frame} (h : f.control = true) : Sse.Whole f.bytes ∧ Sse.messages f.bytes = [] := by
  cases f with
  | connected | heartbeat | retrying => decide
  | chunk _ | error _ _ => cases h

/-- The text of an error is one line, and ends with its own brace. -/
theorem proxyErrorJson_line (code message : String) :
    '\n' ∉ (proxyErrorJson code message).toList ∧
      ∃ front, (proxyErrorJson code message).toList = front ++ ['\x7d'] := by
  have hquote : ∀ s, '\n' ∉ (Json.quote s).toList := by
    intro s
    unfold Json.quote
    rw [String.toList_ofList]
    exact Lib.Format.quoted.oneLine s
  have hend : ",\"type\":\"proxy_error\"\x7d\x7d".toList = ",\"type\":\"proxy_error\"\x7d".toList ++ ['\x7d'] := by
    decide
  unfold proxyErrorJson
  simp only [String.toList_append, List.mem_append, not_or]
  refine ⟨⟨⟨⟨⟨by decide, hquote code⟩, by decide⟩, hquote message⟩, by decide⟩, ?_⟩
  rw [hend, ← List.append_assoc]
  exact ⟨_, rfl⟩

/-- An error is two events. -/
theorem error_bytes (code message : String) :
    Sse.messages (Frame.error code message).bytes = [History.utf8 (proxyErrorJson code message).toList, Sse.done] := by
  obtain ⟨hline, front, hfront⟩ := proxyErrorJson_line code message
  have hlast : History.utf8 (proxyErrorJson code message).toList = History.utf8 front ++ History.utf8 ['\x7d'] := by
    rw [hfront, History.utf8_append]
  have hbytes : (Frame.error code message).bytes =
      (Sse.dataLine (History.utf8 (proxyErrorJson code message).toList) ++ [newline, newline]) ++
        (Sse.dataLine Sse.done ++ [newline, newline]) := by
    have hopen : History.utf8 "data: ".toList = Sse.dataField ++ History.utf8 [' '] := by decide
    have hclose : History.utf8 "\n\ndata: [DONE]\n\n".toList =
        [newline, newline] ++ (Sse.dataLine Sse.done ++ [newline, newline]) := by decide
    simp only [bytes, String.toList_append, History.utf8_append, hopen, hclose, Sse.dataLine, List.append_assoc]
  obtain ⟨hmessages, hwhole⟩ := Sse.messages_dataLine (History.newline_notMem_utf8 hline)
    (by rw [hlast]; exact List.append_ne_nil_of_right_ne_nil _ (by decide))
    (by rw [hlast, List.getLast?_append_of_ne_nil _ (by decide)]; decide)
  obtain ⟨hdone, -⟩ := Sse.messages_dataLine (d := Sse.done) (by decide) (by decide) (by decide)
  rw [hbytes, hwhole.messages_append, hmessages, hdone]
  rfl

end Frame

namespace Relay

variable {statusText : ℕ → String} {cfg : StreamConfig} {r : Relay} {controls tail : List Frame} {chunks : List Bytes}

/-- Comments, one after the other. -/
theorem messages_controls (h : ∀ f ∈ controls, f.control = true) (rest : Bytes) :
    Sse.messages (controls.flatMap Frame.bytes ++ rest) = Sse.messages rest := by
  induction controls with
  | nil => rfl
  | cons f controls ih =>
      obtain ⟨hwhole, hnone⟩ := Frame.control_bytes (h f List.mem_cons_self)
      rw [List.flatMap_cons, List.append_assoc, hwhole.messages_append, hnone, List.nil_append,
        ih fun f' hf' => h f' (List.mem_cons_of_mem f hf')]

theorem Log.body_eq (h : Log r controls chunks tail) :
    r.body = controls.flatMap Frame.bytes ++ (chunks.flatten ++ tail.flatMap Frame.bytes) := by
  have hchunks : (chunks.map Frame.chunk).flatMap Frame.bytes = chunks.flatten := by
    rw [List.flatMap_map, List.flatten_eq_flatMap]
    rfl
  rw [body, h.sent, List.append_assoc, List.flatMap_append, List.flatMap_append, hchunks]

/-- **The comments are not read**: what is left of the body is the upstream's, and the tail. -/
theorem Log.messages (h : Log r controls chunks tail) :
    Sse.messages r.body = Sse.messages (chunks.flatten ++ tail.flatMap Frame.bytes) := by
  rw [h.body_eq, messages_controls h.plain]

/-- The upstream's share by its chunks. -/
theorem Log.relayed (h : Log r controls chunks tail) (htail : tail.filterMap Frame.chunk? = []) :
    r.relayed = chunks.flatten := by
  have hcontrols : controls.filterMap Frame.chunk? = [] := by
    rw [List.filterMap_eq_nil_iff]
    intro f hf
    have hplain := h.plain f hf
    cases f with
    | connected | heartbeat | retrying => rfl
    | chunk _ | error _ _ => cases hplain
  have hchunks : (chunks.map Frame.chunk).filterMap Frame.chunk? = chunks := by
    rw [List.filterMap_map]
    exact List.filterMap_some
  rw [Relay.relayed, h.sent, List.filterMap_append, List.filterMap_append, hcontrols, hchunks, htail, List.nil_append,
    List.append_nil]

/-- An error comes last, and alone. -/
theorem Stage.ended {pc : StreamPc} (h : Stage r controls chunks tail pc) :
    tail = [] ∨ ∃ code message, tail = [.error code message] := by
  by_cases hdone : pc = .done
  · subst hdone
    exact h.2
  · exact .inl (h.going hdone).1

/-- No error was sent. -/
theorem Log.tail_eq_nil (h : Log r controls chunks tail)
    (hended : tail = [] ∨ ∃ code message, tail = [.error code message])
    (hnone : ∀ code message, Frame.error code message ∉ r.sent) : tail = [] := by
  refine hended.resolve_right ?_
  rintro ⟨code, message, rfl⟩
  exact hnone code message (by simp [h.sent])

/-- The error that was sent. -/
theorem Log.tail_eq_error {front : List Frame} {code message : String} (h : Log r controls chunks tail)
    (hended : tail = [] ∨ ∃ code message, tail = [.error code message])
    (hlast : r.sent = front ++ [.error code message]) : tail = [.error code message] := by
  have hsent := h.sent.symm.trans hlast
  rcases hended with rfl | ⟨code', message', rfl⟩
  · -- neither a control frame nor a chunk is an error
    have hmem : Frame.error code message ∈ controls ++ chunks.map .chunk := by
      rw [List.append_nil] at hsent
      simp [hsent]
    rcases List.mem_append.mp hmem with hcontrol | hchunk
    · exact absurd (h.plain _ hcontrol) (by simp [Frame.control])
    · simp at hchunk
  · simpa using congrArg List.getLast? hsent

/-- **What a client reads.**  As long as it was sent no error, the messages in the body are the ones in the upstream's
bytes, whatever comments were sent before them; where the stream is reported as completed they are all of the
upstream's; and where an error was sent after whole events they are the upstream's, the text of the error and
`[DONE]`. -/
theorem relay_messages (h : (relaySystem statusText cfg).Reachable r) :
    ((∀ code message, Frame.error code message ∉ r.sent) → Sse.messages r.body = Sse.messages r.relayed) ∧
    (.completed ∈ r.task.finalised → Sse.messages r.body = Sse.messages r.upstream.flatten) ∧
    ∀ front code message, r.sent = front ++ [.error code message] → Sse.Whole r.relayed →
      Sse.messages r.body =
        Sse.messages r.relayed ++ [History.utf8 (proxyErrorJson code message).toList, Sse.done] := by
  obtain ⟨⟨controls, chunks, tail, hlog, hstage, hcompleted⟩, -, -⟩ := exact_of_reachable h
  have hquiet : tail = [] → Sse.messages r.body = Sse.messages chunks.flatten := by
    rintro rfl
    simpa using hlog.messages
  have hended := Stage.ended hstage
  refine ⟨fun hnone => ?_, fun hmem => ?_, fun front code message hlast hwhole => ?_⟩
  · have htail := hlog.tail_eq_nil hended hnone
    rw [hquiet htail, hlog.relayed (by rw [htail]; rfl)]
  · obtain ⟨-, hall, htail⟩ := hcompleted hmem
    rw [hquiet htail, hall]
  · have htail := hlog.tail_eq_error hended hlast
    have hrelayed : r.relayed = chunks.flatten := hlog.relayed (by rw [htail]; rfl)
    rw [hrelayed] at hwhole ⊢
    rw [hlog.messages, htail, hwhole.messages_append, List.flatMap_singleton, Frame.error_bytes]

/-- The upstream breaks off after two whole events. -/
theorem exists_interrupted : ∃ r, (relaySystem toString unhurried).Reachable r ∧ Sse.Whole r.relayed ∧
    ∃ front, r.sent = front ++ [.error "upstream_unavailable" "upstream stream interrupted"] := by
  have hexec : (System.exec (step toString unhurried) fresh
      (twoChunks ++ [⟨.chunkError, 5, ""⟩, ⟨.sent, 5, ""⟩])).any interrupted = true := by
    decide +kernel
  obtain ⟨r, hreach, hend⟩ := System.reachable_of_exec
    (show (relaySystem toString unhurried).init fresh from ⟨0, false, rfl⟩) hexec
  simp only [interrupted, Bool.and_eq_true, decide_eq_true_eq] at hend
  obtain ⟨hlast, hwhole⟩ := hend
  exact ⟨r, hreach, hwhole, List.getLast?_eq_some_iff.mp hlast⟩

theorem relay_messages_interrupted : ∃ r, (relaySystem toString unhurried).Reachable r ∧
    Sse.messages r.body = Sse.messages r.relayed ++
      [History.utf8 (proxyErrorJson "upstream_unavailable" "upstream stream interrupted").toList, Sse.done] := by
  obtain ⟨r, hreach, hwhole, front, hsent⟩ := exists_interrupted
  exact ⟨r, hreach, (relay_messages hreach).2.2 front _ _ hsent hwhole⟩

end Relay

end Streaming

end Flock
