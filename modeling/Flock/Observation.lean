/-
# Flock.Observation — what is taken from a stream as it passes.

The model of `ObservationState` in `observation.rs`: the usage, the finish reasons and the tool calls of a response,
merged from the events of a stream one by one.  What two events say of the same thing has to agree, or is invalid.
-/
import Mathlib.Data.Finset.Card
import Flock.Lib.Flat
import Flock.Config.Json
import Flock.History.Json
import Flock.Streaming

namespace Flock

open History (U64)
open Lib (Flat)
open Std (ExtTreeMap)

/-! ## Reading a value -/

namespace Json

/-- `Value::is_null`. -/
def isNull {ν : Type} : Json ν → Bool
  | .null => true
  | _ => false

/-- `Value::as_object`. -/
def asObject {ν : Type} : Json ν → Option (List (String × Json ν))
  | .obj fields => some fields
  | _ => none

/-- `Value::as_u64`. -/
def asU64 : Json JsonNumber → Option U64
  | .num (.int n) => if h : 0 ≤ n ∧ n < 2 ^ 64 then some ⟨n.toNat, by omega⟩ else none
  | _ => none

end Json

/-- `u64::checked_add`. -/
def checkedAdd (a b : U64) : Option U64 := if h : a.val + b.val < 2 ^ 64 then some ⟨a.val + b.val, h⟩ else none

/-- `u64::saturating_add`. -/
def satAdd (a b : U64) : U64 := ⟨min (a.val + b.val) (2 ^ 64 - 1), by omega⟩

/-! ## Results -/

/-- `Observation`. -/
inductive Observation where
  | measured (n : U64)
  | estimated (n : U64)
  | unavailable
  | invalid
  deriving DecidableEq, Repr

/-- `UsageObservations`. -/
structure UsageObservations where
  cachedTokens : Observation
  completionTokens : Observation
  promptTokens : Observation
  reasoningTokens : Observation
  totalTokens : Observation
  deriving DecidableEq, Repr

/-- `FinishReason`. -/
inductive FinishReason where
  | contentFilter
  | functionCall
  | length
  | other
  | stop
  | toolCalls
  deriving DecidableEq, Repr

/-- `FinishResult`. -/
inductive FinishResult where
  | measured (reason : FinishReason)
  | unavailable
  | invalid
  deriving DecidableEq, Repr

/-- `FinishObservation`. -/
structure FinishObservation where
  choiceIndex : U64
  result : FinishResult
  deriving DecidableEq, Repr

/-- `ResponseObservations`. -/
structure ResponseObservations where
  finishReasons : List FinishObservation
  toolCalls : Observation
  usage : UsageObservations
  deriving DecidableEq, Repr

/-! ## What was seen -/

/-- The `match` of both `observe` methods. -/
def Lib.Flat.merge {α : Type} [DecidableEq α] : Flat α → Flat α → Flat α
  | .absent, next => next
  | .value a, .value b => if a = b then .value a else .invalid
  | _, _ => .invalid

/-- An `observe` method: what is missing or null says nothing. -/
def observed {α : Type} [DecidableEq α] (read : StoreJson → Flat α) (seen : Flat α) (value : Option StoreJson) :
    Flat α :=
  match value with
  | none => seen
  | some .null => seen
  | some value => seen.merge (read value)

/-- `SeenNumber`. -/
abbrev SeenNumber := Flat U64

/-- What a number is seen as. -/
def SeenNumber.next (value : StoreJson) : SeenNumber := value.asU64.elim .invalid .value

/-- `SeenNumber::observe`. -/
def SeenNumber.observe : SeenNumber → Option StoreJson → SeenNumber := observed SeenNumber.next

/-- `SeenNumber::result`. -/
def SeenNumber.result : SeenNumber → Observation
  | .absent => .unavailable
  | .invalid => .invalid
  | .value value => .measured value

/-- `SeenFinish`. -/
abbrev SeenFinish := Flat FinishReason

/-- What a finish reason is seen as. -/
def SeenFinish.next (value : StoreJson) : SeenFinish :=
  match value.asStr with
  | some "content_filter" => .value .contentFilter
  | some "function_call" => .value .functionCall
  | some "length" => .value .length
  | some "stop" => .value .stop
  | some "tool_calls" => .value .toolCalls
  | some _ => .value .other
  | none => .invalid

/-- `SeenFinish::observe`. -/
def SeenFinish.observe : SeenFinish → Option StoreJson → SeenFinish := observed SeenFinish.next

/-- `SeenFinish::result`. -/
def SeenFinish.result (seen : SeenFinish) (incomplete : Bool) : FinishResult :=
  if incomplete then .unavailable
  else match seen with
    | .absent => .unavailable
    | .invalid => .invalid
    | .value reason => .measured reason

/-! ## Usage -/

/-- `UsageState`. -/
structure UsageState where
  cached : SeenNumber := .absent
  completion : SeenNumber := .absent
  prompt : SeenNumber := .absent
  reasoning : SeenNumber := .absent
  total : SeenNumber := .absent
  deriving DecidableEq

/-- A number in the details of a usage. -/
def SeenNumber.observeDetail (seen : SeenNumber) (details : Option StoreJson) (name : String) : SeenNumber :=
  match details with
  | none => seen
  | some .null => seen
  | some (.obj details) => SeenNumber.observe seen (details.lookup name)
  | some _ => .invalid

/-- `UsageState::observe`. -/
def UsageState.observe (s : UsageState) (usage : Option StoreJson) : UsageState :=
  match usage with
  | none => s
  | some .null => s
  | some (.obj usage) =>
      { prompt := SeenNumber.observe s.prompt (usage.lookup "prompt_tokens")
        completion := SeenNumber.observe s.completion (usage.lookup "completion_tokens")
        total := SeenNumber.observe s.total (usage.lookup "total_tokens")
        cached := SeenNumber.observeDetail s.cached (usage.lookup "prompt_tokens_details") "cached_tokens"
        reasoning :=
          SeenNumber.observeDetail s.reasoning (usage.lookup "completion_tokens_details") "reasoning_tokens" }
  | some _ => ⟨.invalid, .invalid, .invalid, .invalid, .invalid⟩

/-- A part is invalid where it is not known to be within its whole. -/
def Observation.within (part whole : Observation) : Observation :=
  match part, whole with
  | .measured value, .measured parent => if value ≤ parent then .measured value else .invalid
  | .measured _, _ => .invalid
  | part, _ => part

/-- A total is invalid where it is less than its parts, or they overflow. -/
def Observation.covering (total prompt completion : Observation) : Observation :=
  match prompt, completion with
  | .measured prompt, .measured completion =>
      match checkedAdd prompt completion, total with
      | none, _ => .invalid
      | some sum, .measured value => if value < sum then .invalid else .measured value
      | some _, total => total
  | _, _ => total

/-- `UsageState::finish`. -/
def UsageState.finish (s : UsageState) (estimate : Option U64) : UsageObservations :=
  let prompt := SeenNumber.result s.prompt
  let completion := SeenNumber.result s.completion
  { cachedTokens := (SeenNumber.result s.cached).within prompt
    completionTokens :=
      match completion, estimate.filter (0 < ·) with
      | .unavailable, some count => .estimated count
      | completion, _ => completion
    promptTokens := prompt
    reasoningTokens := (SeenNumber.result s.reasoning).within completion
    totalTokens := (SeenNumber.result s.total).covering prompt completion }

/-- `unavailable_usage`. -/
def unavailableUsage : UsageObservations := ⟨.unavailable, .unavailable, .unavailable, .unavailable, .unavailable⟩

/-! ## The state -/

/-- `MAX_INDEXED_STREAM_OBSERVATIONS`. -/
def maxIndexedStreamObservations : ℕ := 128

/-- `ObservationState`; a stream leaves `bufferedToolCalls` as it is. -/
structure ObservationState where
  finishes : ExtTreeMap U64 SeenFinish compare := ∅
  finishesOverflowed : Bool := false
  bufferedToolCalls : U64 := 0
  observedStream : Bool := false
  toolsInvalid : Bool := false
  toolsPresent : Bool := false
  toolPairs : Finset (U64 × U64) := ∅
  usage : UsageState := {}

namespace ObservationState

/-- `finish_for`, with what is then done to the entry. -/
def finishFor (s : ObservationState) (index : U64) (update : SeenFinish → SeenFinish) : ObservationState :=
  if s.finishes.contains index || s.finishes.size < maxIndexedStreamObservations then
    { s with finishes := s.finishes.insert index (update (s.finishes.getD index .absent)) }
  else { s with finishesOverflowed := true }

/-- `remember_tool_pair`. -/
def rememberToolPair (s : ObservationState) (pair : U64 × U64) : ObservationState :=
  if pair ∈ s.toolPairs ∨ s.toolPairs.card < maxIndexedStreamObservations then
    { s with toolPairs := insert pair s.toolPairs }
  else { s with toolsInvalid := true }

/-- `self.tools_invalid = true`. -/
def invalidateTools (s : ObservationState) : ObservationState := { s with toolsInvalid := true }

/-- One tool call of a choice of this index. -/
def observeToolCall (index : U64) (s : ObservationState) (toolCall : StoreJson) : ObservationState :=
  match toolCall.asObject with
  | none => s.invalidateTools
  | some toolCall =>
      match (toolCall.lookup "index").bind Json.asU64 with
      | none => s.invalidateTools
      | some toolIndex => s.rememberToolPair (index, toolIndex)

/-- The tool calls of a delta. -/
def observeDelta (index : U64) (s : ObservationState) (delta : Option StoreJson) : ObservationState :=
  match delta with
  | none => s
  | some (.obj delta) =>
      match delta.lookup "tool_calls" with
      | none => s
      | some (.arr toolCalls) => toolCalls.foldl (observeToolCall index) s
      | some _ => s.invalidateTools
  | some _ => s.invalidateTools

/-- One choice of an event; with it, whether the event is still countable. -/
def observeChoice (acc : ObservationState × Bool) (choice : StoreJson) : ObservationState × Bool :=
  match choice.asObject with
  | none => (acc.1.invalidateTools, false)
  | some choice =>
      match (choice.lookup "index").bind Json.asU64 with
      | none => (acc.1.invalidateTools, false)
      | some index =>
          let finish := choice.lookup "finish_reason"
          let s := acc.1.finishFor index fun seen => SeenFinish.observe seen finish
          (observeDelta index s (choice.lookup "delta"), acc.2 && finish.all Json.isNull)

/-- `observe_stream`; whether the event counts towards the estimate comes with it. -/
def observeStream (s : ObservationState) (value : StoreJson) : ObservationState × Bool :=
  let s := { s with observedStream := true, usage := s.usage.observe (value.get "usage") }
  match value.get "choices" with
  | none => (s, false)
  | some (.arr choices) => choices.foldl observeChoice ({ s with toolsPresent := true }, !choices.isEmpty)
  | some _ => (s.invalidateTools, false)

/-- `remember_choice_indexes`. -/
def rememberChoiceIndexes (s : ObservationState) (value : StoreJson) : ObservationState :=
  match (value.get "choices").bind Json.asArray with
  | none => s
  | some choices =>
      choices.foldl (fun s choice =>
        match (choice.get "index").bind Json.asU64 with
        | some index => s.finishFor index id
        | none => s) s

/-- `finish`. -/
def finish (s : ObservationState) (outcome : StreamOutcome) (incomplete : Bool) (estimate : Option U64) :
    ResponseObservations where
  usage :=
    match outcome with
    | .disconnected | .truncated => unavailableUsage
    | .completed | .deadline => s.usage.finish estimate
  toolCalls :=
    if incomplete then .unavailable
    else if s.toolsInvalid then .invalid
    else if !s.toolsPresent then .unavailable
    else if s.observedStream then .measured (Fin.ofNat (2 ^ 64) s.toolPairs.card)
    else .measured s.bufferedToolCalls
  finishReasons := s.finishes.toList.map fun entry =>
    ⟨entry.1,
      if incomplete then entry.2.result true
      else if s.finishesOverflowed then .invalid
      else entry.2.result false⟩

end ObservationState

end Flock
