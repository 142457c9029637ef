/-
# Flock.Observation.Order — what a stream said does not depend on the order of its events.

An event leaves MARKS, one for each thing it says.  What the state holds after a list of marks is told by the marks as
a collection: what was said of the usage and of each choice is joined, the indexes and the pairs are sets.  The caps
are no exception: a set of pairs that is too large is invalid, whichever of them are kept.

The state is a table of at most 128 choices, a table of at most 128 tool calls, and some flags.  Each event is taken
apart into marks (`Mark`), each mark does one thing to one field, and marks of different kinds commute; so the state
represents a set of things that were said (`Represents`), and a permutation of the marks says the same.  Only the caps
could tell an order, as a full table takes no new index: the bound on the indexes is what keeps them out.
-/
import Mathlib.Data.List.Perm.Basic
import Flock.Observation.Sse

namespace Flock

open History (U64 Bytes)
open Lib (Flat filterMap_concat)
open Std (ExtTreeMap)

/-! ## What is said is joined -/

section Joins

variable {α : Type} [DecidableEq α] {read : StoreJson → Flat α}

theorem Lib.Flat.merge_eq_sup (seen : Flat α) {next : Flat α} (h : next ≠ ⊥) : seen.merge next = seen ⊔ next := by
  cases seen with
  | absent => rfl
  | invalid => cases next <;> rfl
  | value a =>
      cases next with
      | absent => exact absurd rfl h
      | value b => rfl
      | invalid => rfl

/-- An observation joins what it says alone. -/
theorem observed_eq_sup (hread : ∀ value, read value ≠ ⊥) (seen : Flat α) (value : Option StoreJson) :
    observed read seen value = seen ⊔ observed read ⊥ value := by
  cases value with
  | none => exact (sup_bot_eq seen).symm
  | some value =>
      cases value with
      | null => exact (sup_bot_eq seen).symm
      | _ => exact Flat.merge_eq_sup seen (hread _)

end Joins

/-- An observation says something, be it only that there was a field. -/
theorem SeenNumber.next_ne_bot (value : StoreJson) : SeenNumber.next value ≠ ⊥ := by
  unfold SeenNumber.next
  cases value.asU64 <;> exact nofun

theorem SeenFinish.next_ne_bot (value : StoreJson) : SeenFinish.next value ≠ ⊥ := by
  unfold SeenFinish.next
  split <;> exact nofun

/-- So it is for a number, whether it is a field of the usage or of one of its details. -/
theorem SeenNumber.observe_eq_sup (seen : SeenNumber) (value : Option StoreJson) :
    SeenNumber.observe seen value = seen ⊔ SeenNumber.observe ⊥ value :=
  observed_eq_sup SeenNumber.next_ne_bot seen value

theorem SeenNumber.observeDetail_eq_sup (seen : SeenNumber) (details : Option StoreJson) (name : String) :
    SeenNumber.observeDetail seen details name = seen ⊔ SeenNumber.observeDetail ⊥ details name := by
  cases details with
  | none => exact (sup_bot_eq seen).symm
  | some details =>
      cases details with
      | null => exact (sup_bot_eq seen).symm
      | obj fields => exact SeenNumber.observe_eq_sup seen _
      | _ => exact (Flat.sup_invalid seen).symm

/-- Finish reasons may come in any order. -/
theorem SeenFinish.observe_right_comm (seen : SeenFinish) (a b : Option StoreJson) :
    SeenFinish.observe (SeenFinish.observe seen a) b = SeenFinish.observe (SeenFinish.observe seen b) a := by
  have hsup := observed_eq_sup SeenFinish.next_ne_bot
  show observed _ (observed _ seen a) b = observed _ (observed _ seen b) a
  rw [hsup (observed _ seen a), hsup seen a, hsup (observed _ seen b), hsup seen b]
  exact sup_right_comm _ _ _

instance : RightCommutative SeenFinish.observe := ⟨SeenFinish.observe_right_comm⟩

namespace UsageState

/-- Field by field. -/
def join (s t : UsageState) : UsageState :=
  ⟨s.cached ⊔ t.cached, s.completion ⊔ t.completion, s.prompt ⊔ t.prompt, s.reasoning ⊔ t.reasoning, s.total ⊔ t.total⟩

/-- A join is associative and commutative, so its arguments may be swapped. -/
theorem join_right_comm (s t u : UsageState) : (s.join t).join u = (s.join u).join t := by
  unfold join
  dsimp only
  congr 1 <;> exact sup_right_comm _ _ _

/-- A usage is joined to what was said before. -/
theorem observe_eq_join (s : UsageState) (usage : Option StoreJson) :
    s.observe usage = s.join (UsageState.observe {} usage) := by
  have hbot (seen : SeenNumber) : seen = seen ⊔ .absent := (sup_bot_eq seen).symm
  have hnothing : s = s.join {} := by
    cases s
    unfold join
    congr 1 <;> exact hbot _
  cases usage with
  | none => exact hnothing
  | some usage =>
      cases usage with
      | null => exact hnothing
      | obj fields =>
          unfold join observe
          dsimp only
          congr 1
          · exact SeenNumber.observeDetail_eq_sup _ _ _
          · exact SeenNumber.observe_eq_sup _ _
          · exact SeenNumber.observe_eq_sup _ _
          · exact SeenNumber.observeDetail_eq_sup _ _ _
          · exact SeenNumber.observe_eq_sup _ _
      | _ =>
          unfold join observe
          dsimp only
          congr 1 <;> exact (Flat.sup_invalid _).symm

/-- Usages may come in any order. -/
theorem observe_right_comm (s : UsageState) (a b : Option StoreJson) :
    (s.observe a).observe b = (s.observe b).observe a := by
  rw [observe_eq_join (s.observe a), observe_eq_join s a, observe_eq_join (s.observe b), observe_eq_join s b]
  exact join_right_comm _ _ _

instance : RightCommutative UsageState.observe := ⟨observe_right_comm⟩

end UsageState

/-! ## Marks

`observe_stream` goes through an event field by field.  Its marks are what it would write down, in the order in which
it does. -/

/-- One thing an event says. -/
inductive Mark where
  | stream
  | usage (usage : Option StoreJson)
  | choices
  | finish (index : U64) (reason : Option StoreJson)
  | toolPair (pair : U64 × U64)
  | toolsInvalid

namespace Mark

/-- The mark of a tool call of a choice of this index. -/
def ofToolCall (index : U64) (toolCall : StoreJson) : Mark :=
  match (toolCall.asObject.bind fun toolCall => toolCall.lookup "index").bind Json.asU64 with
  | none => toolsInvalid
  | some toolIndex => toolPair (index, toolIndex)

/-- The marks of a delta. -/
def ofDelta (index : U64) (delta : Option StoreJson) : List Mark :=
  match delta with
  | none => []
  | some (.obj delta) =>
      match delta.lookup "tool_calls" with
      | none => []
      | some (.arr toolCalls) => toolCalls.map (ofToolCall index)
      | some _ => [toolsInvalid]
  | some _ => [toolsInvalid]

/-- The marks of a choice. -/
def ofChoice (choice : StoreJson) : List Mark :=
  match choice.asObject with
  | none => [toolsInvalid]
  | some choice =>
      match (choice.lookup "index").bind Json.asU64 with
      | none => [toolsInvalid]
      | some index => finish index (choice.lookup "finish_reason") :: ofDelta index (choice.lookup "delta")

/-- The marks of an event. -/
def ofEvent (value : StoreJson) : List Mark :=
  stream :: usage (value.get "usage") ::
    match value.get "choices" with
    | none => []
    | some (.arr items) => choices :: items.flatMap ofChoice
    | some _ => [toolsInvalid]

end Mark

namespace ObservationState

/-- What a mark does to the state. -/
def mark (s : ObservationState) : Mark → ObservationState
  | .stream => { s with observedStream := true }
  | .usage usage => { s with usage := s.usage.observe usage }
  | .choices => { s with toolsPresent := true }
  | .finish index reason => s.finishFor index fun seen => SeenFinish.observe seen reason
  | .toolPair pair => s.rememberToolPair pair
  | .toolsInvalid => s.invalidateTools

/-- One call of a tool is one mark. -/
theorem observeToolCall_eq_mark (index : U64) (s : ObservationState) (toolCall : StoreJson) :
    observeToolCall index s toolCall = s.mark (Mark.ofToolCall index toolCall) := by
  unfold observeToolCall Mark.ofToolCall
  cases toolCall.asObject with
  | none => rfl
  | some toolCall =>
      simp only [Option.bind_some]
      cases (toolCall.lookup "index").bind Json.asU64 <;> rfl

theorem observeDelta_eq_marks (index : U64) (s : ObservationState) (delta : Option StoreJson) :
    observeDelta index s delta = (Mark.ofDelta index delta).foldl mark s := by
  unfold observeDelta Mark.ofDelta
  cases delta with
  | none => rfl
  | some delta =>
      cases delta with
      | obj fields =>
          dsimp only
          cases fields.lookup "tool_calls" with
          | none => rfl
          | some calls =>
              cases calls with
              | arr toolCalls =>
                  dsimp only
                  rw [List.foldl_map]
                  congr 1
                  exact funext₂ fun s call => observeToolCall_eq_mark index s call
              | _ => rfl
      | _ => rfl

/-- Whether a choice can be counted. -/
def countableChoice (choice : StoreJson) : Bool :=
  match choice.asObject with
  | none => false
  | some choice =>
      ((choice.lookup "index").bind Json.asU64).isSome && (choice.lookup "finish_reason").all Json.isNull

/-- A choice is its marks, and whether it can be counted is known without the state. -/
theorem observeChoice_eq (acc : ObservationState × Bool) (choice : StoreJson) :
    observeChoice acc choice = ((Mark.ofChoice choice).foldl mark acc.1, acc.2 && countableChoice choice) := by
  unfold observeChoice Mark.ofChoice countableChoice
  cases choice.asObject with
  | none => simp [mark]
  | some choice =>
      dsimp only
      cases (choice.lookup "index").bind Json.asU64 with
      | none => simp [mark]
      | some index =>
          dsimp only
          rw [observeDelta_eq_marks]
          simp [mark]

theorem foldl_observeChoice (choices : List StoreJson) (s : ObservationState) (countable : Bool) :
    choices.foldl observeChoice (s, countable) =
      ((choices.flatMap Mark.ofChoice).foldl mark s, countable && choices.all countableChoice) := by
  induction choices generalizing s countable with
  | nil => simp
  | cons choice choices ih =>
      rw [List.foldl_cons, observeChoice_eq, ih, List.flatMap_cons, List.foldl_append, List.all_cons, Bool.and_assoc]

/-- Whether an event counts towards the estimate. -/
def countable (value : StoreJson) : Bool :=
  match value.get "choices" with
  | some (.arr choices) => !choices.isEmpty && choices.all countableChoice
  | _ => false

/-- **An event is its marks**, and whether it counts is its own matter. -/
theorem observeStream_eq (s : ObservationState) (value : StoreJson) :
    s.observeStream value = ((Mark.ofEvent value).foldl mark s, countable value) := by
  unfold observeStream Mark.ofEvent countable
  cases value.get "choices" with
  | none => rfl
  | some choices =>
      cases choices with
      | arr items => exact foldl_observeChoice items _ _
      | _ => rfl

end ObservationState

/-! ## What the marks say together

The four kinds of things that are said, each as what remains of a list of marks: a set of indexes, a set of pairs, a
join of usages, and for each index a join of reasons. -/

namespace Mark

/-- What a mark is about: a choice, a tool call, the usage, or the end of one choice. -/
def index : Mark → Option U64
  | .finish index _ => some index
  | _ => none

def pair : Mark → Option (U64 × U64)
  | .toolPair pair => some pair
  | _ => none

def usageOf : Mark → Option (Option StoreJson)
  | .usage u => some u
  | _ => none

/-- What a mark says of the end of this choice. -/
def reasonOf (index : U64) : Mark → Option (Option StoreJson)
  | .finish index' reason => if index' = index then some reason else none
  | _ => none

end Mark

/-- The indexes that marks mention. -/
def indexes (marks : List Mark) : Finset U64 := (marks.filterMap Mark.index).toFinset

/-- The tool calls that marks mention. -/
def pairs (marks : List Mark) : Finset (U64 × U64) := (marks.filterMap Mark.pair).toFinset

/-- All that is said of the usage. -/
def usages (marks : List Mark) : UsageState := (marks.filterMap Mark.usageOf).foldl UsageState.observe {}

/-- All that is said of the end of a choice. -/
def reasons (index : U64) (marks : List Mark) : SeenFinish :=
  (marks.filterMap (Mark.reasonOf index)).foldl SeenFinish.observe .absent

/-- The entries of the state are the choices that the marks mention, with what they say of each. -/
structure HoldsFinishes (marks : List Mark) (s : ObservationState) : Prop where
  overflowed : s.finishesOverflowed = false
  size : s.finishes.size = (indexes marks).card
  entry (i : U64) : s.finishes[i]? = if i ∈ indexes marks then some (reasons i marks) else none

/-- **`Represents marks s`** — the state holds what the marks say. -/
structure Represents (marks : List Mark) (s : ObservationState) : Prop where
  usage : s.usage = usages marks
  buffered : s.bufferedToolCalls = 0
  observedStream : s.observedStream = true ↔ .stream ∈ marks
  toolsPresent : s.toolsPresent = true ↔ .choices ∈ marks
  toolsInvalid : s.toolsInvalid = true ↔
    .toolsInvalid ∈ marks ∨ maxIndexedStreamObservations < (pairs marks).card
  toolPairs : (pairs marks).card ≤ maxIndexedStreamObservations → s.toolPairs = pairs marks
  finishes : (indexes marks).card ≤ maxIndexedStreamObservations → HoldsFinishes marks s

section Concat

variable {marks : List Mark} {s : ObservationState}

theorem represents_nil : Represents [] {} where
  usage := rfl
  buffered := rfl
  observedStream := by simp
  toolsPresent := by simp
  toolsInvalid := by simp [pairs, maxIndexedStreamObservations]
  toolPairs _ := rfl
  finishes _ := ⟨rfl, rfl, fun i => by simp [indexes]⟩

theorem toFinset_concat {α : Type} [DecidableEq α] (l : List α) (a : α) :
    (l ++ [a]).toFinset = insert a l.toFinset := by
  ext b
  simp

/-- A mark that says nothing of a kind leaves what is said of it. -/
theorem filterMap_concat_of_none {β : Type} {f : Mark → Option β} {m : Mark} (h : f m = none) (marks : List Mark) :
    (marks ++ [m]).filterMap f = marks.filterMap f := by
  rw [filterMap_concat, h]
  exact List.append_nil _

/-- What is said of each of the four kinds stays as it is under a mark of another kind. -/
theorem indexes_concat_of_none {m : Mark} (h : m.index = none) (marks : List Mark) :
    indexes (marks ++ [m]) = indexes marks := congrArg List.toFinset (filterMap_concat_of_none h marks)

theorem pairs_concat_of_none {m : Mark} (h : m.pair = none) (marks : List Mark) :
    pairs (marks ++ [m]) = pairs marks := congrArg List.toFinset (filterMap_concat_of_none h marks)

theorem usages_concat_of_none {m : Mark} (h : m.usageOf = none) (marks : List Mark) :
    usages (marks ++ [m]) = usages marks := congrArg (List.foldl _ _) (filterMap_concat_of_none h marks)

theorem reasons_concat_of_none {m : Mark} (h : m.index = none) (i : U64) (marks : List Mark) :
    reasons i (marks ++ [m]) = reasons i marks := by
  apply congrArg (List.foldl _ _)
  apply filterMap_concat_of_none
  cases m with
  | finish => cases h
  | _ => rfl

/-- A mark of the end of a choice adds its index. -/
theorem indexes_concat_finish (marks : List Mark) (index : U64) (reason : Option StoreJson) :
    indexes (marks ++ [.finish index reason]) = insert index (indexes marks) := by
  unfold indexes
  rw [filterMap_concat]
  exact toFinset_concat _ _

/-- A mark of a tool call adds its pair. -/
theorem pairs_concat_toolPair (marks : List Mark) (pair : U64 × U64) :
    pairs (marks ++ [.toolPair pair]) = insert pair (pairs marks) := by
  unfold pairs
  rw [filterMap_concat]
  exact toFinset_concat _ _

theorem usages_concat_usage (marks : List Mark) (usage : Option StoreJson) :
    usages (marks ++ [.usage usage]) = (usages marks).observe usage := by
  unfold usages
  rw [filterMap_concat]
  exact List.foldl_append

/-- A reason is observed for its own choice only. -/
theorem reasons_concat_finish (marks : List Mark) (i index : U64) (reason : Option StoreJson) :
    reasons i (marks ++ [.finish index reason]) =
      if index = i then SeenFinish.observe (reasons i marks) reason else reasons i marks := by
  unfold reasons
  by_cases h : index = i
  · rw [filterMap_concat, Mark.reasonOf, if_pos h, if_pos h]
    exact List.foldl_append
  · rw [filterMap_concat_of_none (if_neg h), if_neg h]

/-- A choice that was not mentioned has nothing said of it. -/
theorem reasons_of_notMem {i : U64} (h : i ∉ indexes marks) : reasons i marks = .absent := by
  have hnone : marks.filterMap (Mark.reasonOf i) = [] := by
    apply List.filterMap_eq_nil_iff.mpr
    intro mark hmark
    cases mark with
    | finish index reason =>
        refine if_neg ?_
        rintro rfl
        exact h (List.mem_toFinset.mpr (List.mem_filterMap.mpr ⟨_, hmark, rfl⟩))
    | _ => rfl
  rw [reasons, hnone]
  rfl

/-- A mark of no choice leaves the entries as they are. -/
theorem HoldsFinishes.concat (h : HoldsFinishes marks s) {m : Mark} (hindex : m.index = none) {s' : ObservationState}
    (hfinishes : s'.finishes = s.finishes) (hoverflowed : s'.finishesOverflowed = s.finishesOverflowed) :
    HoldsFinishes (marks ++ [m]) s' where
  overflowed := hoverflowed.trans h.overflowed
  size := by rw [hfinishes, h.size, indexes_concat_of_none hindex]
  entry i := by rw [hfinishes, h.entry, indexes_concat_of_none hindex, reasons_concat_of_none hindex]

/-- A choice that has an entry, or for which there is room, gets one. -/
theorem finishFor_of_kept {index : U64} (f : SeenFinish → SeenFinish)
    (h : s.finishes.contains index = true ∨ s.finishes.size < maxIndexedStreamObservations) :
    s.finishFor index f =
      { s with finishes := s.finishes.insert index (f (s.finishes.getD index .absent)) } :=
  if_pos (by simpa using h)

/-- As long as the choices are few, none is left out. -/
theorem HoldsFinishes.finish (h : HoldsFinishes marks s) (index : U64) (reason : Option StoreJson)
    (hfew : (insert index (indexes marks)).card ≤ maxIndexedStreamObservations) :
    HoldsFinishes (marks ++ [.finish index reason])
      (s.finishFor index fun seen => SeenFinish.observe seen reason) := by
  have hcontains : s.finishes.contains index = decide (index ∈ indexes marks) := by
    rw [ExtTreeMap.contains_eq_isSome_getElem?, h.entry]
    split <;> simp_all
  have hkept : s.finishes.contains index = true ∨ s.finishes.size < maxIndexedStreamObservations := by
    rw [hcontains, h.size, decide_eq_true_eq]
    by_cases hin : index ∈ indexes marks
    · exact .inl hin
    · rw [Finset.card_insert_of_notMem hin] at hfew
      exact .inr (by omega)
  rw [finishFor_of_kept _ hkept]
  refine ⟨h.overflowed, ?_, fun i => ?_⟩
  · show (s.finishes.insert index _).size = _
    rw [ExtTreeMap.size_insert, h.size, indexes_concat_finish]
    by_cases hin : index ∈ indexes marks
    · rw [Finset.insert_eq_of_mem hin, hcontains, if_pos (by simpa using hin)]
    · rw [Finset.card_insert_of_notMem hin, hcontains, if_neg (by simpa using hin)]
  · show (s.finishes.insert index _)[i]? = _
    rw [ExtTreeMap.getElem?_insert, ExtTreeMap.getD_eq_getD_getElem?, h.entry, h.entry, indexes_concat_finish,
      reasons_concat_finish]
    simp only [Std.LawfulEqOrd.compare_eq_iff_eq]
    by_cases hi : index = i
    · subst hi
      rw [if_pos rfl, if_pos (Finset.mem_insert_self _ _), if_pos rfl]
      by_cases hin : index ∈ indexes marks
      · rw [if_pos hin, Option.getD_some]
      · rw [if_neg hin, Option.getD_none, reasons_of_notMem hin]
    · rw [if_neg hi, if_neg hi]
      simp [Finset.mem_insert, Ne.symm hi]

theorem finishFor_frame (s : ObservationState) (index : U64) (f : SeenFinish → SeenFinish) :
    (s.finishFor index f).usage = s.usage ∧ (s.finishFor index f).bufferedToolCalls = s.bufferedToolCalls ∧
      (s.finishFor index f).observedStream = s.observedStream ∧
      (s.finishFor index f).toolsPresent = s.toolsPresent ∧ (s.finishFor index f).toolsInvalid = s.toolsInvalid ∧
      (s.finishFor index f).toolPairs = s.toolPairs := by
  unfold ObservationState.finishFor
  split <;> exact ⟨rfl, rfl, rfl, rfl, rfl, rfl⟩

theorem Represents.finish (h : Represents marks s) (index : U64) (reason : Option StoreJson) :
    Represents (marks ++ [.finish index reason])
      (s.finishFor index fun seen => SeenFinish.observe seen reason) := by
  obtain ⟨husage, hbuffered, hstream, hpresent, hinvalid, hpairs⟩ :=
    finishFor_frame s index fun seen => SeenFinish.observe seen reason
  refine ⟨?_, hbuffered.trans h.buffered, ?_, ?_, ?_, ?_, fun hfew => ?_⟩
  · rw [husage, h.usage, usages_concat_of_none rfl]
  · rw [hstream, h.observedStream]
    simp
  · rw [hpresent, h.toolsPresent]
    simp
  · rw [hinvalid, h.toolsInvalid, pairs_concat_of_none rfl]
    simp
  · rw [hpairs, pairs_concat_of_none rfl]
    exact h.toolPairs
  · rw [indexes_concat_finish] at hfew
    have hfewer := le_trans (Finset.card_le_card (Finset.subset_insert _ _)) hfew
    exact (h.finishes hfewer).finish index reason hfew

/-- A tool call: too many pairs are invalid, whichever are kept. -/
theorem Represents.toolPair (h : Represents marks s) (pair : U64 × U64) :
    Represents (marks ++ [.toolPair pair]) (s.rememberToolPair pair) := by
  have husage : s.usage = usages (marks ++ [.toolPair pair]) := by rw [h.usage, usages_concat_of_none rfl]
  have hmono : (pairs marks).card ≤ (insert pair (pairs marks)).card :=
    Finset.card_le_card (Finset.subset_insert _ _)
  unfold ObservationState.rememberToolPair
  split
  -- the pair is in the table, or there is room for it
  · rename_i hkept
    refine ⟨husage, h.buffered, by simpa using h.observedStream, by simpa using h.toolsPresent, ?_, ?_,
      fun hfew => (h.finishes (by rwa [indexes_concat_of_none rfl] at hfew)).concat rfl rfl rfl⟩
    · -- the pairs are too many only if they were before
      have hback (hmany : maxIndexedStreamObservations < (insert pair (pairs marks)).card) :
          maxIndexedStreamObservations < (pairs marks).card := by
        by_contra hfew
        rw [h.toolPairs (not_lt.mp hfew)] at hkept
        by_cases hin : pair ∈ pairs marks
        · rw [Finset.insert_eq_of_mem hin] at hmany
          exact hfew hmany
        · have hroom := hkept.resolve_left hin
          rw [Finset.card_insert_of_notMem hin] at hmany
          omega
      have hiff : maxIndexedStreamObservations < (insert pair (pairs marks)).card ↔
          maxIndexedStreamObservations < (pairs marks).card := ⟨hback, fun hmany => hmany.trans_le hmono⟩
      rw [pairs_concat_toolPair, hiff]
      simpa using h.toolsInvalid
    · rw [pairs_concat_toolPair]
      intro hfew
      show insert pair s.toolPairs = _
      rw [h.toolPairs (hmono.trans hfew)]
  -- the table is full, and the pair is a new one: from here on the pairs are too many
  · rename_i hfull
    obtain ⟨hnew, hroom⟩ := not_or.mp hfull
    have hmany : maxIndexedStreamObservations < (insert pair (pairs marks)).card := by
      by_contra hfew
      have hsame := h.toolPairs (hmono.trans (not_lt.mp hfew))
      rw [hsame] at hnew hroom
      rw [Finset.card_insert_of_notMem hnew] at hfew
      omega
    refine ⟨husage, h.buffered, by simpa using h.observedStream, by simpa using h.toolsPresent, ?_, ?_,
      fun hfew => (h.finishes (by rwa [indexes_concat_of_none rfl] at hfew)).concat rfl rfl rfl⟩
    · rw [pairs_concat_toolPair]
      exact ⟨fun _ => .inr hmany, fun _ => rfl⟩
    · rw [pairs_concat_toolPair]
      exact fun hfew => absurd hmany (not_lt.mpr hfew)

/-- A mark of neither a choice nor a tool call. -/
theorem Represents.other (h : Represents marks s) {m : Mark} (hindex : m.index = none) (hpair : m.pair = none)
    {s' : ObservationState} (husage : s'.usage = usages (marks ++ [m]))
    (hstream : s'.observedStream = true ↔ s.observedStream = true ∨ .stream = m)
    (hpresent : s'.toolsPresent = true ↔ s.toolsPresent = true ∨ .choices = m)
    (hinvalid : s'.toolsInvalid = true ↔ s.toolsInvalid = true ∨ .toolsInvalid = m)
    (hrest : s'.bufferedToolCalls = s.bufferedToolCalls ∧ s'.toolPairs = s.toolPairs ∧ s'.finishes = s.finishes ∧
      s'.finishesOverflowed = s.finishesOverflowed) : Represents (marks ++ [m]) s' := by
  obtain ⟨hbuffered, hpairs, hfinishes, hoverflowed⟩ := hrest
  refine ⟨husage, hbuffered.trans h.buffered, ?_, ?_, ?_, ?_, fun hfew => ?_⟩
  · rw [hstream, h.observedStream, List.mem_append, List.mem_singleton]
  · rw [hpresent, h.toolsPresent, List.mem_append, List.mem_singleton]
  · rw [hinvalid, h.toolsInvalid, List.mem_append, List.mem_singleton, pairs_concat_of_none hpair, or_right_comm]
  · rw [pairs_concat_of_none hpair, hpairs]
    exact h.toolPairs
  · rw [indexes_concat_of_none hindex] at hfew
    exact (h.finishes hfew).concat hindex hfinishes hoverflowed

/-- **One mark more.** -/
theorem Represents.mark (h : Represents marks s) (m : Mark) : Represents (marks ++ [m]) (s.mark m) := by
  have hsame {m : Mark} (hm : m.usageOf = none) : s.usage = usages (marks ++ [m]) := by
    rw [h.usage, usages_concat_of_none hm]
  cases m with
  | finish index reason => exact h.finish index reason
  | toolPair pair => exact h.toolPair pair
  | usage usage =>
      refine h.other rfl rfl ?_ ?_ ?_ ?_ ?_
      · rw [usages_concat_usage, ← h.usage]
        rfl
      · simp [ObservationState.mark]
      · simp [ObservationState.mark]
      · simp [ObservationState.mark]
      · exact ⟨rfl, rfl, rfl, rfl⟩
  | stream =>
      refine h.other rfl rfl (hsame rfl) ?_ ?_ ?_ ?_
      · simp [ObservationState.mark]
      · simp [ObservationState.mark]
      · simp [ObservationState.mark]
      · exact ⟨rfl, rfl, rfl, rfl⟩
  | choices =>
      refine h.other rfl rfl (hsame rfl) ?_ ?_ ?_ ?_
      · simp [ObservationState.mark]
      · simp [ObservationState.mark]
      · simp [ObservationState.mark]
      · exact ⟨rfl, rfl, rfl, rfl⟩
  | toolsInvalid =>
      refine h.other rfl rfl (hsame rfl) ?_ ?_ ?_ ?_
      · simp [ObservationState.mark, ObservationState.invalidateTools]
      · simp [ObservationState.mark, ObservationState.invalidateTools]
      · simp [ObservationState.mark, ObservationState.invalidateTools]
      · exact ⟨rfl, rfl, rfl, rfl⟩

end Concat

/-- **Whatever the marks**, the state holds what they say. -/
theorem represents_foldl (marks : List Mark) : Represents marks (marks.foldl ObservationState.mark {}) := by
  induction marks using List.reverseRecOn with
  | nil => exact represents_nil
  | append_singleton marks m ih =>
      rw [List.foldl_append]
      exact ih.mark m

/-! ## The order of the marks

Whatever is read off a list of marks is a set or a join, so a permutation leaves it as it is. -/

section Perm

variable {marks marks' : List Mark} {s s' : ObservationState}

/-- A permutation of the marks leaves each of the four as it is. -/
theorem indexes_perm (h : marks.Perm marks') : indexes marks = indexes marks' :=
  List.toFinset_eq_of_perm _ _ (h.filterMap _)

theorem pairs_perm (h : marks.Perm marks') : pairs marks = pairs marks' :=
  List.toFinset_eq_of_perm _ _ (h.filterMap _)

theorem usages_perm (h : marks.Perm marks') : usages marks = usages marks' := (h.filterMap _).foldl_eq _

theorem reasons_perm (h : marks.Perm marks') (i : U64) : reasons i marks = reasons i marks' :=
  (h.filterMap _).foldl_eq _

/-- **Two states that hold the same marks** are finished alike, whatever the order of the marks. -/
theorem Represents.finish_eq (h : Represents marks s) (h' : Represents marks' s') (hperm : marks.Perm marks')
    (hfew : (indexes marks).card ≤ maxIndexedStreamObservations) (outcome : StreamOutcome) (incomplete : Bool)
    (estimate : Option U64) : s.finish outcome incomplete estimate = s'.finish outcome incomplete estimate := by
  have hfinishes := h.finishes hfew
  have hfinishes' := h'.finishes (by rwa [← indexes_perm hperm])
  have hentries : s.finishes = s'.finishes := by
    apply ExtTreeMap.ext_getElem?
    intro i
    rw [hfinishes.entry, hfinishes'.entry, indexes_perm hperm, reasons_perm hperm]
  have husage : s.usage = s'.usage := by rw [h.usage, h'.usage, usages_perm hperm]
  have hstream : s.observedStream = s'.observedStream := by
    rw [Bool.eq_iff_iff, h.observedStream, h'.observedStream, hperm.mem_iff]
  have hpresent : s.toolsPresent = s'.toolsPresent := by
    rw [Bool.eq_iff_iff, h.toolsPresent, h'.toolsPresent, hperm.mem_iff]
  have hinvalid : s.toolsInvalid = s'.toolsInvalid := by
    rw [Bool.eq_iff_iff, h.toolsInvalid, h'.toolsInvalid, hperm.mem_iff, pairs_perm hperm]
  unfold ObservationState.finish
  rw [hentries, husage, hstream, hpresent, hinvalid, h.buffered, h'.buffered, hfinishes.overflowed,
    hfinishes'.overflowed]
  cases hvalid : s'.toolsInvalid with
  | true => simp
  | false =>
      -- the pairs are all there
      have hpairs : (pairs marks').card ≤ maxIndexedStreamObservations := by
        by_contra hmany
        exact absurd (h'.toolsInvalid.mpr (.inr (not_le.mp hmany))) (by simp [hvalid])
      rw [h'.toolPairs hpairs, h.toolPairs (by rwa [pairs_perm hperm]), pairs_perm hperm]

end Perm

/-! ## The order of the events

From marks to events: the marks of a list of events are those of each, one behind the other, and a permutation of the
events is one of the marks. -/

namespace SseObserver

variable {fromStr : List Char → Option StoreJson}

/-- The indexes of the choices of an event. -/
def choiceIndexes (value : StoreJson) : List U64 :=
  (((value.get "choices").bind Json.asArray).getD []).filterMap fun choice => (choice.get "index").bind Json.asU64

/-- A delta mentions no other choice. -/
theorem filterMap_index_ofDelta (index : U64) (delta : Option StoreJson) :
    (Mark.ofDelta index delta).filterMap Mark.index = [] := by
  have hcall (call : StoreJson) : (Mark.ofToolCall index call).index = none := by
    unfold Mark.ofToolCall
    split <;> rfl
  unfold Mark.ofDelta
  split
  · rfl
  · split
    · rfl
    · rw [List.filterMap_map]
      exact List.filterMap_eq_nil_iff.mpr fun call _ => hcall call
    · rfl
  · rfl

/-- **The indexes that an event mentions** are those of its choices. -/
theorem filterMap_index_ofEvent (value : StoreJson) :
    (Mark.ofEvent value).filterMap Mark.index = choiceIndexes value := by
  have hchoice (choice : StoreJson) : (Mark.ofChoice choice).filterMap Mark.index =
      ((choice.get "index").bind Json.asU64).toList := by
    unfold Mark.ofChoice
    cases choice with
    | obj fields =>
        show List.filterMap _ (match (fields.lookup "index").bind Json.asU64 with | none => _ | some index => _) =
          ((fields.lookup "index").bind Json.asU64).toList
        cases (fields.lookup "index").bind Json.asU64 with
        | none => rfl
        | some index => exact congrArg (index :: ·) (filterMap_index_ofDelta index _)
    | _ => rfl
  unfold Mark.ofEvent choiceIndexes
  show List.filterMap Mark.index (match value.get "choices" with | none => _ | some (.arr items) => _ | some _ => _) = _
  cases value.get "choices" with
  | none => rfl
  | some choices =>
      cases choices with
      | arr items =>
          show (items.flatMap Mark.ofChoice).filterMap Mark.index = items.filterMap _
          induction items with
          | nil => rfl
          | cons item items ih =>
              rw [List.flatMap_cons, List.filterMap_append, ih, hchoice, List.filterMap_cons]
              cases (item.get "index").bind Json.asU64 <;> rfl
      | _ => rfl

/-- What is passed on leaves the marks of all its events. -/
theorem state_foldl_marks (events : List StoreJson) (o : SseObserver) :
    (events.foldl observe o).state = (events.flatMap Mark.ofEvent).foldl ObservationState.mark o.state := by
  induction events generalizing o with
  | nil => rfl
  | cons value events ih =>
      rw [List.foldl_cons, ih, List.flatMap_cons, List.foldl_append]
      show List.foldl _ (o.state.observeStream value).1 _ = _
      rw [ObservationState.observeStream_eq]

/-- One event more or less, up to the bound of the counter. -/
theorem completionEvents_observe (o : SseObserver) (value : StoreJson) :
    (o.observe value).completionEvents.val =
      min (o.completionEvents.val + if ObservationState.countable value = true then 1 else 0) (2 ^ 64 - 1) := by
  have hlt := o.completionEvents.isLt
  unfold SseObserver.observe
  rw [ObservationState.observeStream_eq]
  cases ObservationState.countable value with
  | true => rfl
  | false =>
      show o.completionEvents.val = min (o.completionEvents.val + 0) _
      omega

/-- The count of the countable events, as far as it goes. -/
theorem completionEvents_foldl (events : List StoreJson) (o : SseObserver) :
    (events.foldl observe o).completionEvents.val =
      min (o.completionEvents.val + events.countP ObservationState.countable) (2 ^ 64 - 1) := by
  induction events generalizing o with
  | nil =>
      have hlt := o.completionEvents.isLt
      show o.completionEvents.val = min (o.completionEvents.val + 0) _
      omega
  | cons value events ih =>
      rw [List.foldl_cons, ih, completionEvents_observe, List.countP_cons]
      omega

/-- What was observed is what the events mark. -/
theorem Observed.represents {o : SseObserver} (h : o.Observed) :
    Represents (o.passed.flatMap Mark.ofEvent) o.state := by
  rw [h.state, state_foldl_marks]
  exact represents_foldl _

/-- A stream that ends with a whole event is finished with its own count. -/
theorem finish_of_clean {o : SseObserver} (h : o.unterminated = false) :
    o.finish fromStr .completed = o.state.finish .completed false (some o.completionEvents) := by
  unfold SseObserver.finish
  simp [h]

/-- **Observation does not depend on the order.**  Two streams that end cleanly, with the same events in any order and
at most 128 choice indexes between them, are observed alike. -/
theorem finish_perm {chunks chunks' : List Bytes}
    (hperm : (chunks.foldl (push fromStr) {}).passed.Perm (chunks'.foldl (push fromStr) {}).passed)
    (hfew : ((chunks.foldl (push fromStr) {}).passed.flatMap choiceIndexes).toFinset.card ≤ 128)
    (hclean : (chunks.foldl (push fromStr) {}).unterminated = false)
    (hclean' : (chunks'.foldl (push fromStr) {}).unterminated = false) :
    (chunks.foldl (push fromStr) {}).finish fromStr .completed =
      (chunks'.foldl (push fromStr) {}).finish fromStr .completed := by
  have hobserved : (chunks.foldl (push fromStr) {}).Observed := by
    rw [foldl_push]
    exact observed_push _
  have hobserved' : (chunks'.foldl (push fromStr) {}).Observed := by
    rw [foldl_push]
    exact observed_push _
  have hcount : (chunks.foldl (push fromStr) {}).completionEvents =
      (chunks'.foldl (push fromStr) {}).completionEvents := by
    apply Fin.ext
    rw [hobserved.completionEvents, hobserved'.completionEvents, completionEvents_foldl, completionEvents_foldl,
      hperm.countP_eq]
  have hindexes : indexes ((chunks.foldl (push fromStr) {}).passed.flatMap Mark.ofEvent) =
      ((chunks.foldl (push fromStr) {}).passed.flatMap choiceIndexes).toFinset := by
    unfold indexes
    rw [List.filterMap_flatMap]
    simp only [filterMap_index_ofEvent]
  rw [finish_of_clean hclean, finish_of_clean hclean', hcount]
  exact hobserved.represents.finish_eq hobserved'.represents (hperm.flatMap_right _) (by rwa [hindexes]) _ _ _

/-- A reader of two texts. -/
def readTwo (text : List Char) : Option StoreJson :=
  if text = "\x7b\"usage\":0\x7d".toList then some (.obj [("usage", .num (.int 0))])
  else if text = "\x7b\"choices\":[]\x7d".toList then some (.obj [("choices", .arr [])])
  else none

def usageEvent : Bytes := History.utf8 "data:\x7b\"usage\":0\x7d\n\n".toList

def choicesEvent : Bytes := History.utf8 "data:\x7b\"choices\":[]\x7d\n\n".toList

theorem passed_usage_choices : ([usageEvent, choicesEvent].foldl (push readTwo) {}).passed =
    [.obj [("usage", .num (.int 0))], .obj [("choices", .arr [])]] := by rfl

theorem passed_choices_usage : ([choicesEvent, usageEvent].foldl (push readTwo) {}).passed =
    [.obj [("choices", .arr [])], .obj [("usage", .num (.int 0))]] := by rfl

/-- The usage may come first or last. -/
theorem finish_perm_two : ([usageEvent, choicesEvent].foldl (push readTwo) {}).finish readTwo .completed =
    ([choicesEvent, usageEvent].foldl (push readTwo) {}).finish readTwo .completed := by
  apply finish_perm
  · rw [passed_usage_choices, passed_choices_usage]
    exact .swap _ _ []
  · rw [passed_usage_choices]
    decide
  · rfl
  · rfl

end SseObserver

end Flock
