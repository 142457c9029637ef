/-
# Flock.Observation.Bound — what the observer keeps is bounded.

The line and the data of an event share one limit.  `push` looks at the two together before it keeps a byte.  At the
end of a line the payload goes from the one to the other: a line feed may come before it, but the name of its field
stays behind, which is longer.  So the sum does not grow there, and `finish_line` has always room for what it keeps.

A moment is between two bytes.  Inside `finish_line` the payload is copied before the line is cleared.

The indexed observations are bounded apart from this, by the caps of the tables they go to, whatever the events say.
-/
import Flock.Observation.Order

namespace Flock

open History (U64 Bytes newline)

/-! ## The indexed observations

Two tables grow with what a stream says: the finish entries, one for each choice, and the pairs of a choice and a tool
call.  Both are looked at before anything is put in. -/

namespace ObservationState

/-- **`Capped s`** — neither the finish entries nor the tool pairs are more than the cap. -/
structure Capped (s : ObservationState) : Prop where
  finishes : s.finishes.size ≤ maxIndexedStreamObservations
  toolPairs : s.toolPairs.card ≤ maxIndexedStreamObservations

variable {s : ObservationState}

/-- At the beginning there is nothing. -/
theorem capped_empty : Capped {} := ⟨Nat.zero_le _, Nat.zero_le _⟩

/-- A known choice takes no room, and a new one is let in only where there is some. -/
theorem Capped.finishFor (h : s.Capped) (index : U64) (f : SeenFinish → SeenFinish) : (s.finishFor index f).Capped := by
  unfold ObservationState.finishFor
  split
  · rename_i hroom
    refine ⟨?_, h.toolPairs⟩
    show (s.finishes.insert index _).size ≤ _
    rw [Std.ExtTreeMap.size_insert]
    rw [Bool.or_eq_true, decide_eq_true_eq] at hroom
    have hsize := h.finishes
    split
    · exact hsize
    · rename_i hnew
      rcases hroom with hknown | hfew
      · exact absurd hknown (by simpa using hnew)
      · omega
  · exact ⟨h.finishes, h.toolPairs⟩

/-- A known pair takes no room, and a new one is let in only where there is some. -/
theorem Capped.rememberToolPair (h : s.Capped) (pair : U64 × U64) : (s.rememberToolPair pair).Capped := by
  unfold ObservationState.rememberToolPair
  split
  · rename_i hroom
    refine ⟨h.finishes, ?_⟩
    show (insert pair s.toolPairs).card ≤ _
    rcases hroom with hknown | hfew
    · rw [Finset.insert_eq_of_mem hknown]
      exact h.toolPairs
    · exact le_trans (Finset.card_insert_le _ _) hfew
  · exact ⟨h.finishes, h.toolPairs⟩

/-- A mark changes one of the two tables, or none. -/
theorem Capped.mark (h : s.Capped) (m : Mark) : (s.mark m).Capped := by
  cases m with
  | finish index reason => exact h.finishFor index fun seen => SeenFinish.observe seen reason
  | toolPair pair => exact h.rememberToolPair pair
  | stream => exact ⟨h.finishes, h.toolPairs⟩
  | usage usage => exact ⟨h.finishes, h.toolPairs⟩
  | choices => exact ⟨h.finishes, h.toolPairs⟩
  | toolsInvalid => exact ⟨h.finishes, h.toolPairs⟩

/-- A value of the stream is a sequence of marks. -/
theorem Capped.observeStream (h : s.Capped) (value : StoreJson) : (s.observeStream value).1.Capped := by
  rw [observeStream_eq]
  exact List.foldlRecOn _ _ h fun s hs m _ => hs.mark m

/-- The indexes of an event cut short are put into the same tables. -/
theorem Capped.rememberChoiceIndexes (h : s.Capped) (value : StoreJson) : (s.rememberChoiceIndexes value).Capped := by
  unfold ObservationState.rememberChoiceIndexes
  split
  · exact h
  · refine List.foldlRecOn _ _ h fun s hs choice _ => ?_
    split
    · exact hs.finishFor _ _
    · exact hs

end ObservationState

/-! ## The two buffers

A byte goes to the line, and the end of a line moves its payload to the data.  Only the first can make the sum grow,
and it is the one that is checked. -/

namespace SseObserver

open Sse

variable {fromStr : List Char → Option StoreJson} {o : SseObserver} {byte : UInt8}

/-- What the size check of `finish_line` looks for: the payload of the line does not fit the event. -/
def SizeCheckFires (o : SseObserver) : Prop :=
  o.discardedEvent = false ∧ ∃ data, List.isPrefixOf? dataField (stripReturn o.currentLine) = some data ∧
    (stripBlank data).length + (if o.currentData.isEmpty then 0 else 1) > maxEventBytes - o.currentData.length

/-- **`Bounded o`** — the two buffers are within the limit together, and empty while an event is discarded. -/
structure Bounded (o : SseObserver) : Prop where
  retained : o.retainedLen ≤ maxEventBytes
  discarded : o.discardedEvent = true → o.currentData = [] ∧ o.currentLine = []

/-- Two empty buffers are within it. -/
theorem bounded_of_empty (hdata : o.currentData = []) (hline : o.currentLine = []) : o.Bounded := by
  refine ⟨?_, fun _ => ⟨hdata, hline⟩⟩
  unfold retainedLen
  rw [hdata, hline]
  exact Nat.zero_le _

/-- **The payload has room**: the name of the field is longer than the line feed before it. -/
theorem Bounded.room (h : o.Bounded) {data : Bytes}
    (hline : List.isPrefixOf? dataField (stripReturn o.currentLine) = some data) :
    o.currentData.length + (if o.currentData.isEmpty then 0 else 1) + (stripBlank data).length ≤ maxEventBytes := by
  have hpayload : payload o.currentLine = some (stripBlank data) := by
    unfold payload
    rw [hline]
    rfl
  have hshorter := length_payload hpayload
  have hretained : o.currentData.length + o.currentLine.length ≤ maxEventBytes := h.retained
  split <;> omega

/-- So the size check does not fire. -/
theorem Bounded.not_sizeCheckFires (h : o.Bounded) : ¬ o.SizeCheckFires := by
  rintro ⟨-, data, hline, hfires⟩
  have hroom := h.room hline
  omega

/-- Keeping the payload of a line keeps the bound. -/
theorem Bounded.keep (h : o.Bounded) (hkept : o.discardedEvent = false) {data : Bytes}
    (hline : List.isPrefixOf? dataField (stripReturn o.currentLine) = some data) :
    ({ o with currentLine := stripReturn o.currentLine }.keep (stripBlank data)).Bounded := by
  have hroom := h.room hline
  unfold SseObserver.keep
  dsimp only
  rw [if_neg (by omega)]
  refine ⟨?_, fun hyes => absurd hyes (by simp [hkept])⟩
  show (o.currentData ++ _ ++ stripBlank data).length + 0 ≤ maxEventBytes
  rw [List.length_append, List.length_append]
  by_cases hempty : o.currentData.isEmpty = true
  · rw [if_pos hempty] at hroom ⊢
    simpa using hroom
  · rw [if_neg hempty] at hroom ⊢
    exact hroom

theorem Bounded.finishLine (h : o.Bounded) (fromStr : List Char → Option StoreJson) :
    (o.finishLine fromStr).Bounded := by
  unfold SseObserver.finishLine
  by_cases hdiscarded : o.discardedEvent = true
  · rw [if_pos hdiscarded]
    exact bounded_of_empty (h.discarded hdiscarded).1 rfl
  · rw [if_neg hdiscarded]
    have hkept : o.discardedEvent = false := Bool.eq_false_iff.mpr hdiscarded
    dsimp only
    split
    · obtain ⟨-, hdata, hline, -⟩ := classifyEvent_eq fromStr { o with currentLine := stripReturn o.currentLine }
      exact bounded_of_empty hdata hline
    · split
      · rename_i data hline
        exact h.keep hkept hline
      · refine ⟨?_, fun hyes => absurd hyes hdiscarded⟩
        exact le_trans (Nat.le_add_right _ _) h.retained

/-- **One byte keeps the bound.** -/
theorem Bounded.pushByte (h : o.Bounded) (fromStr : List Char → Option StoreJson) (byte : UInt8) :
    (o.pushByte fromStr byte).Bounded := by
  unfold SseObserver.pushByte
  by_cases hnewline : byte = newline
  · rw [if_pos hnewline]
    exact h.finishLine fromStr
  · rw [if_neg hnewline]
    by_cases hdiscarded : o.discardedEvent = true
    · obtain ⟨hdata, hline⟩ := h.discarded hdiscarded
      rw [if_pos hdiscarded]
      split <;> exact bounded_of_empty hdata hline
    · rw [if_neg hdiscarded]
      by_cases hfull : o.retainedLen = maxEventBytes
      · rw [if_pos hfull]
        exact bounded_of_empty rfl rfl
      · rw [if_neg hfull]
        refine ⟨?_, fun hyes => absurd hyes hdiscarded⟩
        have hretained := h.retained
        show o.currentData.length + (o.currentLine ++ [byte]).length ≤ maxEventBytes
        rw [List.length_append, List.length_singleton]
        unfold retainedLen at hretained hfull
        omega

theorem capped_pushByte (h : o.state.Capped) (fromStr : List Char → Option StoreJson) (byte : UInt8) :
    (o.pushByte fromStr byte).state.Capped := by
  obtain ⟨o', ho', hstate, -, -⟩ := pushByte_observes fromStr o byte
  rw [hstate]
  rcases ho' with rfl | ⟨value, rfl⟩
  · exact h
  · exact h.observeStream value

/-- Any stream, up to any byte. -/
theorem bounded_push (fromStr : List Char → Option StoreJson) (bytes : Bytes) :
    (push fromStr {} bytes).Bounded ∧ (push fromStr {} bytes).state.Capped := by
  induction bytes using List.reverseRecOn with
  | nil => exact ⟨bounded_of_empty rfl rfl, ObservationState.capped_empty⟩
  | append_singleton bytes byte ih =>
      rw [push, List.foldl_append]
      exact ⟨ih.1.pushByte fromStr byte, capped_pushByte ih.2 fromStr byte⟩

/-- And after the end of the stream. -/
theorem capped_rememberUnterminatedIndexes (h : o.state.Capped) (fromStr : List Char → Option StoreJson) :
    (o.rememberUnterminatedIndexes fromStr).state.Capped := by
  unfold SseObserver.rememberUnterminatedIndexes
  exact List.foldlRecOn _ _ h fun s hs value _ => hs.rememberChoiceIndexes value

/-- **The observer is bounded.**  Some chunks have been pushed, and `n` bytes of the next: the two buffers hold at most
1 MiB together, there are at most 128 finish entries and 128 tool pairs, the last look at an unterminated event
included, and the size check of `finish_line` does not fire, if the line ends here. -/
theorem observer_bounded (fromStr : List Char → Option StoreJson) (chunks : List Bytes) (chunk : Bytes) (n : ℕ) :
    let o := push fromStr (chunks.foldl (push fromStr) {}) (chunk.take n)
    o.currentData.length + o.currentLine.length ≤ 1048576 ∧ o.state.finishes.size ≤ 128 ∧
      o.state.toolPairs.card ≤ 128 ∧ (o.rememberUnterminatedIndexes fromStr).state.finishes.size ≤ 128 ∧
      ¬ o.SizeCheckFires := by
  have hbytes : push fromStr (chunks.foldl (push fromStr) {}) (chunk.take n) =
      push fromStr {} (chunks.flatten ++ chunk.take n) := by
    rw [foldl_push]
    exact List.foldl_append.symm
  intro o
  obtain ⟨hbounded, hcapped⟩ : o.Bounded ∧ o.state.Capped := by
    show (push fromStr _ _).Bounded ∧ (push fromStr _ _).state.Capped
    rw [hbytes]
    exact bounded_push fromStr _
  exact ⟨hbounded.retained, hcapped.finishes, hcapped.toolPairs,
    (capped_rememberUnterminatedIndexes hcapped fromStr).finishes, hbounded.not_sizeCheckFires⟩

end SseObserver

end Flock
