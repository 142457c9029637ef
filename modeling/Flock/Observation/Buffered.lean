/-
# Flock.Observation.Buffered — the observer of a reply in one piece.

`observe_buffered` reads a whole reply, and counts its tool calls.  A stream says the same things bit by bit, in any
order and some of them again and again, and numbers its tool calls.  Where it says in the end what the reply says
(`Retold`) the two are observed alike (`buffered_eq_streamed`).

The two observers keep different books on tool calls: a stream keeps the pairs it has seen, so that a repeated one
counts once, and a reply keeps a number.  They agree where no pair is repeated and no number is too large, which is
what the bounds of the theorem are for.
-/
import Flock.Observation.Order

namespace Flock

open History (U64 Bytes)
open Lib (Flat)
open Std (ExtTreeMap)

/-! ## The observer

`observe_buffered` as it is written: the usage, then each choice with its message, then the count of the calls. -/

namespace ObservationState

/-- The message of a choice; with the state, the tool calls so far. -/
def observeMessage (acc : ObservationState × U64) (message : Option StoreJson) : ObservationState × U64 :=
  match message with
  | none => acc
  | some (.obj message) =>
      match message.lookup "tool_calls" with
      | none => acc
      | some (.arr toolCalls) =>
          match checkedAdd acc.2 (Fin.ofNat (2 ^ 64) toolCalls.length) with
          | none => (acc.1.invalidateTools, acc.2)
          | some next => (acc.1, next)
      | some _ => (acc.1.invalidateTools, acc.2)
  | some _ => (acc.1.invalidateTools, acc.2)

/-- One choice of a reply. -/
def observeBufferedChoice (acc : ObservationState × U64) (choice : StoreJson) : ObservationState × U64 :=
  match choice.asObject with
  | none => (acc.1.invalidateTools, acc.2)
  | some choice =>
      match (choice.lookup "index").bind Json.asU64 with
      | none => (acc.1.invalidateTools, acc.2)
      | some index =>
          let s := acc.1.finishFor index fun seen => SeenFinish.observe seen (choice.lookup "finish_reason")
          observeMessage (s, acc.2) (choice.lookup "message")

/-- `ObservationState::observe_buffered`. -/
def observeBuffered (s : ObservationState) (value : StoreJson) : ObservationState :=
  let s := { s with usage := s.usage.observe (value.get "usage") }
  match value.get "choices" with
  | none => s
  | some (.arr choices) =>
      let (s, calls) := choices.foldl observeBufferedChoice ({ s with toolsPresent := true }, 0)
      { s with bufferedToolCalls := calls }
  | some _ => s.invalidateTools

end ObservationState

/-- `observe_buffered`; `fromSlice` is `serde_json::from_slice`. -/
def observeBuffered (fromSlice : Bytes → Option StoreJson) (body : Bytes) : ResponseObservations :=
  (((fromSlice body).map ({} : ObservationState).observeBuffered).getD {}).finish .completed false none

/-! ## What a reply says

A reply is taken apart into the same marks as an event of a stream, so that the two can be compared mark by mark. -/

namespace Mark

/-- The marks of a message, whose tool calls are numbered as they come. -/
def ofMessage (index : U64) (message : Option StoreJson) : List Mark :=
  match message with
  | none => []
  | some (.obj message) =>
      match message.lookup "tool_calls" with
      | none => []
      | some (.arr toolCalls) => (List.range toolCalls.length).map fun n => toolPair (index, Fin.ofNat (2 ^ 64) n)
      | some _ => [toolsInvalid]
  | some _ => [toolsInvalid]

/-- The marks of a choice of a reply. -/
def ofReplyChoice (choice : StoreJson) : List Mark :=
  match choice.asObject with
  | none => [toolsInvalid]
  | some choice =>
      match (choice.lookup "index").bind Json.asU64 with
      | none => [toolsInvalid]
      | some index => finish index (choice.lookup "finish_reason") :: ofMessage index (choice.lookup "message")

/-- The marks of a reply. -/
def ofReply (value : StoreJson) : List Mark :=
  usage (value.get "usage") ::
    match value.get "choices" with
    | none => []
    | some (.arr items) => choices :: items.flatMap ofReplyChoice
    | some _ => [toolsInvalid]

/-- The marks that the observer of a reply takes one by one. -/
def quiet (marks : List Mark) : List Mark := marks.filter fun m => m.pair.isNone

/-- How many tool calls there are. -/
def callCount (marks : List Mark) : ℕ := (marks.filterMap pair).length

theorem quiet_append (marks marks' : List Mark) : quiet (marks ++ marks') = quiet marks ++ quiet marks' :=
  List.filter_append ..

theorem callCount_append (marks marks' : List Mark) :
    callCount (marks ++ marks') = callCount marks + callCount marks' := by
  unfold callCount
  rw [List.filterMap_append, List.length_append]

end Mark

namespace ObservationState

open Mark (quiet callCount ofMessage ofReplyChoice ofReply)

variable {s : ObservationState} {calls : U64}

/-- So many calls of one choice are so many. -/
theorem callCount_range (index : U64) (n : ℕ) :
    callCount ((List.range n).map fun k => Mark.toolPair (index, Fin.ofNat (2 ^ 64) k)) = n := by
  simp [callCount, Mark.pair, Function.comp_def]

/-- And none of them is a mark that the observer takes one by one. -/
theorem quiet_range (index : U64) (n : ℕ) :
    quiet ((List.range n).map fun k => Mark.toolPair (index, Fin.ofNat (2 ^ 64) k)) = [] := by
  simp [quiet, Mark.pair]

/-- A message adds its calls to the count, as long as this does not overflow. -/
theorem observeMessage_eq (index : U64) (message : Option StoreJson)
    (h : calls.val + callCount (ofMessage index message) < 2 ^ 64) :
    observeMessage (s, calls) message =
      ((quiet (ofMessage index message)).foldl mark s, ⟨calls.val + callCount (ofMessage index message), h⟩) := by
  revert h
  unfold observeMessage ofMessage
  cases message with
  | none => exact fun h => rfl
  | some message =>
      cases message with
      | obj fields =>
          dsimp only
          cases fields.lookup "tool_calls" with
          | none => exact fun h => rfl
          | some toolCalls =>
              cases toolCalls with
              | arr toolCalls =>
                  dsimp only
                  rw [callCount_range, quiet_range]
                  intro h
                  have hlength : (Fin.ofNat (2 ^ 64) toolCalls.length).val = toolCalls.length :=
                    Nat.mod_eq_of_lt (by omega)
                  unfold checkedAdd
                  rw [dif_pos (by rw [hlength]; exact h)]
                  exact congrArg (Prod.mk s) (Fin.ext (congrArg (calls.val + ·) hlength))
              | _ => exact fun h => rfl
      | _ => exact fun h => rfl

theorem observeBufferedChoice_eq (choice : StoreJson) (h : calls.val + callCount (ofReplyChoice choice) < 2 ^ 64) :
    observeBufferedChoice (s, calls) choice =
      ((quiet (ofReplyChoice choice)).foldl mark s, ⟨calls.val + callCount (ofReplyChoice choice), h⟩) := by
  revert h
  unfold observeBufferedChoice ofReplyChoice
  cases choice.asObject with
  | none => exact fun h => rfl
  | some choice =>
      dsimp only
      cases (choice.lookup "index").bind Json.asU64 with
      | none => exact fun h => rfl
      | some index => exact fun h => observeMessage_eq index (choice.lookup "message") h

/-- All choices, one behind the other. -/
theorem foldl_observeBufferedChoice (choices : List StoreJson)
    (h : calls.val + callCount (choices.flatMap ofReplyChoice) < 2 ^ 64) :
    choices.foldl observeBufferedChoice (s, calls) =
      ((quiet (choices.flatMap ofReplyChoice)).foldl mark s,
        ⟨calls.val + callCount (choices.flatMap ofReplyChoice), h⟩) := by
  induction choices generalizing s calls with
  | nil => rfl
  | cons choice choices ih =>
      have hsum := h
      rw [List.flatMap_cons, Mark.callCount_append] at hsum
      rw [List.foldl_cons, observeBufferedChoice_eq choice (by omega), ih (by simpa [Nat.add_assoc] using hsum)]
      simp only [List.flatMap_cons, Mark.quiet_append, Mark.callCount_append, List.foldl_append, Nat.add_assoc]

/-- **A reply is its marks**, of which it counts the tool calls. -/
theorem observeBuffered_eq (value : StoreJson) (h : callCount (ofReply value) < 2 ^ 64) :
    ({} : ObservationState).observeBuffered value =
      { (quiet (ofReply value)).foldl mark {} with bufferedToolCalls := ⟨callCount (ofReply value), h⟩ } := by
  revert h
  unfold observeBuffered ofReply
  cases value.get "choices" with
  | none => exact fun h => rfl
  | some choices =>
      cases choices with
      | arr items =>
          intro h
          dsimp only
          have hitems : callCount (items.flatMap ofReplyChoice) < 2 ^ 64 := h
          rw [@foldl_observeBufferedChoice _ 0 items (by simpa using hitems)]
          simp [quiet, callCount, Mark.pair, mark]
          rfl
      | _ => exact fun h => rfl

end ObservationState

/-! ## What the count stands for

A stream's count is the number of different pairs.  In a reply the calls of a choice are numbered from zero, and the
choices have indexes of their own, so the pairs of a reply are all different. -/

open Mark (quiet callCount ofMessage ofReplyChoice ofReply)

variable {marks : List Mark} {value : StoreJson}

theorem indexes_quiet (marks : List Mark) : indexes (quiet marks) = indexes marks := by
  unfold indexes quiet
  rw [List.filterMap_filter]
  congr 2
  funext m
  cases m <;> rfl

theorem usages_quiet (marks : List Mark) : usages (quiet marks) = usages marks := by
  unfold usages quiet
  rw [List.filterMap_filter]
  congr 2
  funext m
  cases m <;> rfl

theorem reasons_quiet (i : U64) (marks : List Mark) : reasons i (quiet marks) = reasons i marks := by
  unfold reasons quiet
  rw [List.filterMap_filter]
  congr 2
  funext m
  cases m <;> rfl

theorem pairs_quiet (marks : List Mark) : pairs (quiet marks) = ∅ := by
  unfold pairs quiet
  rw [List.filterMap_filter]
  have hnone : (fun m : Mark => if m.pair.isNone = true then m.pair else none) = fun _ => none := by
    funext m
    cases m <;> rfl
  rw [hnone]
  simp

/-- The tool calls of a message are numbered from zero. -/
theorem filterMap_pair_ofMessage (index : U64) (message : Option StoreJson) : ∃ n,
    (ofMessage index message).filterMap Mark.pair = (List.range n).map fun k => (index, Fin.ofNat (2 ^ 64) k) := by
  have hcalls (n : ℕ) : ((List.range n).map fun k => Mark.toolPair (index, Fin.ofNat (2 ^ 64) k)).filterMap Mark.pair =
      (List.range n).map fun k => (index, Fin.ofNat (2 ^ 64) k) := by
    simp [Mark.pair, Function.comp_def]
  unfold ofMessage
  split
  · exact ⟨0, rfl⟩
  · split
    · exact ⟨0, rfl⟩
    · exact ⟨_, hcalls _⟩
    · exact ⟨0, rfl⟩
  · exact ⟨0, rfl⟩

/-- The tool calls of a choice are of its index. -/
theorem filterMap_pair_ofReplyChoice (choice : StoreJson) :
    (ofReplyChoice choice).filterMap Mark.pair = [] ∨ ∃ index n, (choice.get "index").bind Json.asU64 = some index ∧
      (ofReplyChoice choice).filterMap Mark.pair = (List.range n).map fun k => (index, Fin.ofNat (2 ^ 64) k) := by
  cases choice with
  | obj fields =>
      cases hindex : (fields.lookup "index").bind Json.asU64 with
      | none =>
          left
          simp [ofReplyChoice, Json.asObject, hindex, Mark.pair]
      | some index =>
          obtain ⟨n, hn⟩ := filterMap_pair_ofMessage index (fields.lookup "message")
          refine .inr ⟨index, n, hindex, ?_⟩
          simp only [ofReplyChoice, Json.asObject, hindex]
          exact hn
  | _ => exact .inl rfl

/-- A call belongs to the index of its choice. -/
theorem index_of_mem_pairs {choice : StoreJson} {pair : U64 × U64}
    (h : pair ∈ (ofReplyChoice choice).filterMap Mark.pair) : (choice.get "index").bind Json.asU64 = some pair.1 := by
  rcases filterMap_pair_ofReplyChoice choice with hnil | ⟨index, n, hindex, hblock⟩
  · rw [hnil] at h
    cases h
  · rw [hblock] at h
    obtain ⟨k, -, rfl⟩ := List.mem_map.mp h
    exact hindex

/-- The marks of a reply that are of one kind only its choices have. -/
theorem filterMap_ofReply {β : Type} {f : Mark → Option β} (husage : ∀ u, f (.usage u) = none)
    (hchoices : f .choices = none) (hinvalid : f .toolsInvalid = none) (value : StoreJson) :
    (ofReply value).filterMap f =
      (((value.get "choices").bind Json.asArray).getD []).flatMap fun choice => (ofReplyChoice choice).filterMap f := by
  unfold ofReply
  rw [List.filterMap_cons_none (husage _)]
  cases value.get "choices" with
  | none => rfl
  | some choices =>
      cases choices with
      | arr items =>
          dsimp only
          rw [List.filterMap_cons_none hchoices, List.filterMap_flatMap]
          rfl
      | _ => simp [hinvalid, Json.asArray]

/-- **The indexes that a reply mentions** are those of its choices. -/
theorem filterMap_index_ofReply (value : StoreJson) :
    (ofReply value).filterMap Mark.index = SseObserver.choiceIndexes value := by
  have hmessage (index : U64) (message : Option StoreJson) : (ofMessage index message).filterMap Mark.index = [] := by
    unfold ofMessage
    split
    · rfl
    · split
      · rfl
      · simp [Mark.index]
      · rfl
    · rfl
  have hchoice (choice : StoreJson) : (ofReplyChoice choice).filterMap Mark.index =
      ((choice.get "index").bind Json.asU64).toList := by
    cases choice with
    | obj fields =>
        cases hindex : (fields.lookup "index").bind Json.asU64 with
        | none => simp [ofReplyChoice, Json.asObject, Json.get, hindex, Mark.index]
        | some index => simp [ofReplyChoice, Json.asObject, Json.get, hindex, Mark.index, hmessage]
    | _ => rfl
  rw [filterMap_ofReply (fun _ => rfl) rfl rfl]
  simp only [hchoice]
  exact (List.filterMap_eq_flatMap_toList ..).symm

/-- **Where the choices have indexes of their own** no tool call is marked twice. -/
theorem nodup_pairs (hdistinct : (SseObserver.choiceIndexes value).Nodup)
    (hcalls : callCount (ofReply value) < 2 ^ 64) :
    ((ofReply value).filterMap Mark.pair).Nodup := by
  rw [filterMap_ofReply (fun _ => rfl) rfl rfl]
  unfold callCount at hcalls
  rw [filterMap_ofReply (fun _ => rfl) rfl rfl] at hcalls
  set items := ((value.get "choices").bind Json.asArray).getD []
  rw [List.nodup_flatMap]
  refine ⟨fun choice hchoice => ?_, ?_⟩
  · rcases filterMap_pair_ofReplyChoice choice with hnil | ⟨index, n, -, hblock⟩
    · rw [hnil]
      exact List.nodup_nil
    · have hlength : n ≤ (items.flatMap fun choice => (ofReplyChoice choice).filterMap Mark.pair).length := by
        have hsub := List.sublist_flatten_of_mem
          (List.mem_map_of_mem (f := fun choice => (ofReplyChoice choice).filterMap Mark.pair) hchoice)
        have hle := hsub.length_le
        rw [hblock, List.length_map, List.length_range] at hle
        exact hle
      rw [hblock]
      refine List.Nodup.map_on (fun j hj k hk hjk => ?_) List.nodup_range
      have hfin := congrArg (fun p : U64 × U64 => p.2.val) hjk
      simp only [Fin.val_ofNat] at hfin
      rw [List.mem_range] at hj hk
      rwa [Nat.mod_eq_of_lt (by omega), Nat.mod_eq_of_lt (by omega)] at hfin
  · have hindexes : items.Pairwise fun a b => ∀ i ∈ (a.get "index").bind Json.asU64,
        ∀ j ∈ (b.get "index").bind Json.asU64, i ≠ j := List.pairwise_filterMap.mp hdistinct
    refine hindexes.imp fun {a b} hne => ?_
    intro pair ha hb
    exact hne pair.1 (index_of_mem_pairs ha) pair.1 (index_of_mem_pairs hb) rfl

/-- So there are as many pairs as calls. -/
theorem card_pairs (hdistinct : (SseObserver.choiceIndexes value).Nodup) (hcalls : callCount (ofReply value) < 2 ^ 64) :
    (pairs (ofReply value)).card = callCount (ofReply value) :=
  List.toFinset_card_of_nodup (nodup_pairs hdistinct hcalls)

/-! ## Told bit by bit

`Retold` compares what is said, kind by kind, and asks nothing of the order in which a stream says it or of how often.
-/

/-- **`Retold value events`** — the events say in the end what the reply says: the same usage, the same choices with the
same finish reasons, and the tool calls of each choice numbered from zero. -/
structure Retold (value : StoreJson) (events : List StoreJson) : Prop where
  usage : usages (events.flatMap Mark.ofEvent) = usages (ofReply value)
  indexes : indexes (events.flatMap Mark.ofEvent) = indexes (ofReply value)
  reasons : ∀ i ∈ Flock.indexes (ofReply value), reasons i (events.flatMap Mark.ofEvent) = reasons i (ofReply value)
  toolCalls : pairs (events.flatMap Mark.ofEvent) = pairs (ofReply value)
  choices : .choices ∈ events.flatMap Mark.ofEvent ↔ .choices ∈ ofReply value
  invalid : .toolsInvalid ∈ events.flatMap Mark.ofEvent ↔ .toolsInvalid ∈ ofReply value

theorem mem_quiet {m : Mark} (h : m.pair = none) (marks : List Mark) : m ∈ quiet marks ↔ m ∈ marks := by
  simp [quiet, List.mem_filter, h]

/-- A reply is not a stream, which is the one thing its marks do not say. -/
theorem stream_notMem_ofReply (value : StoreJson) : .stream ∉ ofReply value := by
  have hmessage (index : U64) (message : Option StoreJson) : .stream ∉ ofMessage index message := by
    unfold ofMessage
    split
    · simp
    · split <;> simp
    · simp
  have hchoice (choice : StoreJson) : .stream ∉ ofReplyChoice choice := by
    unfold ofReplyChoice
    split
    · simp
    · split
      · simp
      · simp [hmessage]
  unfold ofReply
  split
  · simp
  · simp [hchoice]
  · simp

/-- An event that has choices is one of a stream. -/
theorem stream_mem_of_choices {events : List StoreJson} (h : .choices ∈ events.flatMap Mark.ofEvent) :
    .stream ∈ events.flatMap Mark.ofEvent := by
  obtain ⟨event, hevent, -⟩ := List.mem_flatMap.mp h
  exact List.mem_flatMap.mpr ⟨event, hevent, List.mem_cons_self⟩

/-- An estimate is for a usage without a completion count. -/
theorem UsageState.finish_of_completion {s : UsageState} (h : s.completion ≠ .absent)
    (estimate estimate' : Option U64) :
    s.finish estimate = s.finish estimate' := by
  unfold UsageState.finish
  cases hcompletion : s.completion with
  | absent => exact absurd hcompletion h
  | _ => rfl

/-- States whose marks say the same of every choice have the same finish entries. -/
theorem finishes_eq {marks marks' : List Mark} {s s' : ObservationState} (h : HoldsFinishes marks s)
    (h' : HoldsFinishes marks' s') (hindexes : indexes marks = indexes marks')
    (hreasons : ∀ i ∈ indexes marks', reasons i marks = reasons i marks') : s.finishes = s'.finishes := by
  apply ExtTreeMap.ext_getElem?
  intro i
  rw [h.entry, h'.entry, hindexes]
  split
  · rename_i hi
    rw [hreasons i hi]
  · rfl

/-- **The same reply is observed alike** in one piece and bit by bit.  The choices have indexes of their own, there are
at most 128 of them and of their tool calls, and the reply counts its completion tokens. -/
theorem buffered_eq_streamed {fromSlice : Bytes → Option StoreJson} {fromStr : List Char → Option StoreJson}
    {body : Bytes} {chunks : List Bytes} (hvalue : fromSlice body = some value)
    (hclean : (chunks.foldl (SseObserver.push fromStr) {}).unterminated = false)
    (hretold : Retold value (chunks.foldl (SseObserver.push fromStr) {}).passed)
    (hdistinct : (SseObserver.choiceIndexes value).Nodup) (hchoices : (SseObserver.choiceIndexes value).length ≤ 128)
    (hcalls : callCount (ofReply value) ≤ 128) (hcompletion : (usages (ofReply value)).completion ≠ .absent) :
    (chunks.foldl (SseObserver.push fromStr) {}).finish fromStr .completed = observeBuffered fromSlice body := by
  set o := chunks.foldl (SseObserver.push fromStr) {} with ho
  have hobserved : o.Observed := by
    rw [ho, SseObserver.foldl_push]
    exact SseObserver.observed_push _
  have hstream : Represents (o.passed.flatMap Mark.ofEvent) o.state := hobserved.represents
  set s := (quiet (ofReply value)).foldl ObservationState.mark {} with hs
  have hreply : Represents (quiet (ofReply value)) s := represents_foldl _
  have hfew : (indexes (ofReply value)).card ≤ maxIndexedStreamObservations := by
    unfold indexes
    rw [filterMap_index_ofReply]
    exact (List.toFinset_card_le _).trans hchoices
  have hcard : (pairs (o.passed.flatMap Mark.ofEvent)).card = callCount (ofReply value) := by
    rw [hretold.toolCalls, card_pairs hdistinct (by omega)]
  have hentries := hstream.finishes (by rwa [hretold.indexes])
  have hentries' := hreply.finishes (by rwa [indexes_quiet])
  have hfinishes : o.state.finishes = s.finishes := by
    refine finishes_eq hentries hentries' (by rw [hretold.indexes, indexes_quiet]) fun i hi => ?_
    rw [reasons_quiet]
    exact hretold.reasons i (by rwa [indexes_quiet] at hi)
  have husage : o.state.usage = s.usage := by rw [hstream.usage, hreply.usage, usages_quiet, hretold.usage]
  have hinvalid : o.state.toolsInvalid = s.toolsInvalid := by
    rw [Bool.eq_iff_iff, hstream.toolsInvalid, hreply.toolsInvalid, mem_quiet rfl, pairs_quiet, hretold.invalid, hcard]
    simp [maxIndexedStreamObservations, hcalls]
  have hpresent : o.state.toolsPresent = s.toolsPresent := by
    rw [Bool.eq_iff_iff, hstream.toolsPresent, hreply.toolsPresent, mem_quiet rfl, hretold.choices]
  -- the one difference: a reply has not observed a stream, and its calls are counted elsewhere
  have hnone : s.observedStream = false := by
    rw [Bool.eq_false_iff, Ne, hreply.observedStream, mem_quiet rfl]
    exact stream_notMem_ofReply value
  have hpairs : o.state.toolPairs.card = callCount (ofReply value) := by
    rw [hstream.toolPairs (by rw [hcard]; exact hcalls), hcard]
  rw [SseObserver.finish_of_clean hclean]
  unfold observeBuffered
  rw [hvalue, Option.map_some, Option.getD_some, ObservationState.observeBuffered_eq value (by omega), ← hs]
  have hestimate : o.state.usage.finish (some o.completionEvents) = s.usage.finish none := by
    rw [husage]
    exact UsageState.finish_of_completion (by rwa [hreply.usage, usages_quiet]) _ _
  unfold ObservationState.finish
  dsimp only
  rw [hestimate, hfinishes, hentries.overflowed, hentries'.overflowed, hinvalid, hpresent, hnone, hpairs]
  cases hyes : s.toolsPresent with
  | false => simp
  | true =>
      have hobservedStream : o.state.observedStream = true :=
        hstream.observedStream.mpr (stream_mem_of_choices (hstream.toolsPresent.mp (hpresent.trans hyes)))
      have hcount : Fin.ofNat (2 ^ 64) (callCount (ofReply value)) = ⟨callCount (ofReply value), by omega⟩ :=
        Fin.ext (Nat.mod_eq_of_lt (by omega))
      rw [hobservedStream, hcount]
      simp

/-! ## A reply with a tool call -/

def sevenTokens : String × StoreJson := ("usage", .obj [("completion_tokens", .num (.int 7))])

def toolReply : StoreJson :=
  .obj
    [("choices", .arr [.obj [("index", .num (.int 0)), ("message", .obj [("tool_calls", .arr [.obj []])])]]),
      sevenTokens]

def toolReplyText : List Char :=
  ("\x7b\"choices\":[\x7b\"index\":0,\"message\":\x7b\"tool_calls\":[\x7b\x7d]\x7d\x7d]," ++
    "\"usage\":\x7b\"completion_tokens\":7\x7d\x7d").toList

def callEvent : StoreJson :=
  .obj
    [("choices", .arr
      [.obj [("delta", .obj [("tool_calls", .arr [.obj [("index", .num (.int 0))]])]), ("index", .num (.int 0))]])]

def callText : List Char :=
  ("\x7b\"choices\":[\x7b\"delta\":\x7b\"tool_calls\":[\x7b\"index\":0\x7d]\x7d," ++
    "\"index\":0\x7d]\x7d").toList

def tokensText : List Char := "\x7b\"usage\":\x7b\"completion_tokens\":7\x7d\x7d".toList

/-- A reader of the three texts. -/
def readCalls (text : List Char) : Option StoreJson :=
  if text = toolReplyText then some toolReply
  else if text = callText then some callEvent
  else if text = tokensText then some (.obj [sevenTokens])
  else none

def dataEvent (text : List Char) : Bytes := History.utf8 ("data:".toList ++ text ++ ['\n', '\n'])

set_option maxRecDepth 4000 in
theorem passed_call : ([dataEvent callText, dataEvent tokensText].foldl (SseObserver.push readCalls) {}).passed =
    [callEvent, .obj [sevenTokens]] := by rfl

theorem marks_call : [callEvent, .obj [sevenTokens]].flatMap Mark.ofEvent =
    [.stream, .usage none, .choices, .finish 0 none, .toolPair (0, 0), .stream, .usage (some sevenTokens.2)] := by rfl

theorem marks_toolReply : ofReply toolReply =
    [.usage (some sevenTokens.2), .choices, .finish 0 none, .toolPair (0, 0)] := by rfl

/-- The call comes first, and the usage last. -/
theorem retold_toolReply : Retold toolReply [callEvent, .obj [sevenTokens]] := by
  refine ⟨?_, ?_, fun i _ => ?_, ?_, ?_, ?_⟩
  all_goals rw [marks_call, marks_toolReply]
  · rfl
  · rfl
  · simp [reasons, List.filterMap_cons, Mark.reasonOf]
  · rfl
  · simp
  · simp

set_option maxRecDepth 4000 in
theorem buffered_eq_streamed_call :
    ([dataEvent callText, dataEvent tokensText].foldl (SseObserver.push readCalls) {}).finish readCalls .completed =
      observeBuffered (fun body => (History.ofUtf8 body).bind readCalls) (History.utf8 toolReplyText) := by
  have hvalue : (History.ofUtf8 (History.utf8 toolReplyText)).bind readCalls = some toolReply := by
    rw [History.ofUtf8_utf8, Option.bind_some]
    exact if_pos rfl
  exact buffered_eq_streamed hvalue rfl (passed_call ▸ retold_toolReply) (by decide) (by decide) (by decide) (by decide)

end Flock
