/-
# Flock.Observation.Published — what is published of a stream agrees with itself.

The five usage fields are merged one by one while the stream passes, and looked at together only at its end.  What is
published then fits together whatever was merged (`UsageState.finish_consistent`).  Where no completion count came,
the countable events stand in for it, but only if nothing of an event was left over at the end (`Sse.NothingLeft`).

Left over is what the observer keeps: lines that bear no data are forgotten as they come, and an event beyond the
limit is not read at all.
-/
import Flock.Observation.Order

namespace Flock

open History (U64 Bytes newline ofUtf8 utf8 ofUtf8_utf8)
open Lib (Flat pieces_of_splitOnP)

/-! ## One usage

The fields are totals and their parts: prompt and completion make the total, cached tokens are part of the prompt and
reasoning tokens of the completion.  A field that does not fit is published as inconsistent or unavailable, never as
measured. -/

/-- **`Consistent u`** — no part is more than its whole, as far as both were measured. -/
structure UsageObservations.Consistent (u : UsageObservations) : Prop where
  total : ∀ prompt completion total, u.promptTokens = .measured prompt → u.completionTokens = .measured completion →
    u.totalTokens = .measured total → ∃ sum, checkedAdd prompt completion = some sum ∧ sum ≤ total
  cached : ∀ value, u.cachedTokens = .measured value → ∃ prompt, u.promptTokens = .measured prompt ∧ value ≤ prompt
  reasoning : ∀ value, u.reasoningTokens = .measured value →
    ∃ completion, u.completionTokens = .measured completion ∧ value ≤ completion

/-- A part that is measured is within its whole. -/
theorem Observation.within_eq_measured {part whole : Observation} {value : U64}
    (h : part.within whole = .measured value) : ∃ parent, whole = .measured parent ∧ value ≤ parent := by
  cases part with
  | measured value' =>
      cases whole with
      | measured parent =>
          simp only [Observation.within] at h
          split at h
          · rename_i hle
            cases h
            exact ⟨parent, rfl, hle⟩
          · cases h
      | _ => cases h
  | _ => cases h

/-- A total that is measured covers the two parts. -/
theorem Observation.covering_eq_measured {total : Observation} {prompt completion value : U64}
    (h : total.covering (.measured prompt) (.measured completion) = .measured value) :
    ∃ sum, checkedAdd prompt completion = some sum ∧ sum ≤ value := by
  simp only [Observation.covering] at h
  cases hsum : checkedAdd prompt completion with
  | none =>
      rw [hsum] at h
      cases h
  | some sum =>
      rw [hsum] at h
      cases total with
      | measured value' =>
          dsimp only at h
          split at h
          · cases h
          · rename_i hle
            cases h
            exact ⟨sum, rfl, not_lt.mp hle⟩
      | _ => cases h

namespace UsageState

variable {s : UsageState} {estimate : Option U64} {value : U64}

/-- An estimate stands in for a count only where there is none. -/
theorem completionTokens_eq_measured :
    (s.finish estimate).completionTokens = .measured value ↔ SeenNumber.result s.completion = .measured value := by
  unfold UsageState.finish
  cases hcount : SeenNumber.result s.completion with
  | unavailable => cases estimate.filter (0 < ·) <;> simp
  | measured _ => simp
  | estimated _ => simp
  | invalid => simp

/-- An estimate needs a count that is not zero, and no completion count at all. -/
theorem completionTokens_eq_estimated :
    (s.finish estimate).completionTokens = .estimated value ↔
      s.completion = .absent ∧ estimate = some value ∧ 0 < value := by
  have hfilter : estimate.filter (0 < ·) = some value ↔ estimate = some value ∧ 0 < value := by
    rw [Option.filter_eq_some_iff, decide_eq_true_eq]
  unfold UsageState.finish
  cases hcount : s.completion with
  | absent =>
      rw [← hfilter]
      cases estimate.filter (0 < ·) <;> simp [SeenNumber.result]
  | value _ => simp [SeenNumber.result]
  | invalid => simp [SeenNumber.result]

/-- **Whatever was merged, what is published fits together.** -/
theorem finish_consistent (s : UsageState) (estimate : Option U64) : (s.finish estimate).Consistent where
  total prompt completion total hprompt hcompletion htotal := by
    rw [completionTokens_eq_measured] at hcompletion
    have hprompt : SeenNumber.result s.prompt = .measured prompt := hprompt
    have htotal : (SeenNumber.result s.total).covering (SeenNumber.result s.prompt)
      (SeenNumber.result s.completion) = .measured total := htotal
    rw [hprompt, hcompletion] at htotal
    exact Observation.covering_eq_measured htotal
  cached value h := Observation.within_eq_measured h
  reasoning value h := by
    obtain ⟨completion, hcompletion, hle⟩ := Observation.within_eq_measured h
    exact ⟨completion, completionTokens_eq_measured.mpr hcompletion, hle⟩

theorem unavailable_consistent : unavailableUsage.Consistent := by
  constructor <;> exact nofun

end UsageState

/-! ## The completion counts of the events

A completion count is absent at the end if no event carried one.  What an event carries is in its field `usage`, and
nowhere else. -/

/-- An event says something of the completion tokens. -/
def carriesCompletion (value : StoreJson) : Bool :=
  match value.get "usage" with
  | none => false
  | some .null => false
  | some (.obj usage) => !(usage.lookup "completion_tokens").all Json.isNull
  | some _ => true

/-- A field that is missing or null is not observed. -/
theorem SeenNumber.observe_absent (value : Option StoreJson) :
    SeenNumber.observe .absent value = .absent ↔ value.all Json.isNull = true := by
  cases value with
  | none => exact iff_of_true rfl rfl
  | some value =>
      cases value with
      | null => exact iff_of_true rfl rfl
      | num n => exact iff_of_false (SeenNumber.next_ne_bot (.num n)) (by simp [Json.isNull])
      | _ => exact iff_of_false nofun (by simp [Json.isNull])

/-- The completion count of one event. -/
theorem completion_observe (value : StoreJson) :
    (UsageState.observe {} (value.get "usage")).completion = .absent ↔ carriesCompletion value = false := by
  unfold carriesCompletion
  cases value.get "usage" with
  | none => exact iff_of_true rfl rfl
  | some usage =>
      cases usage with
      | null => exact iff_of_true rfl rfl
      | obj fields =>
          rw [Bool.not_eq_false']
          exact SeenNumber.observe_absent _
      | _ => exact iff_of_false nofun nofun

theorem completion_join (s t : UsageState) :
    (s.join t).completion = .absent ↔ s.completion = .absent ∧ t.completion = .absent :=
  sup_eq_bot_iff (a := s.completion) (b := t.completion)

/-- A stream has no completion count if none of its events has one. -/
theorem completion_foldl (usages : List (Option StoreJson)) (s : UsageState) :
    (usages.foldl UsageState.observe s).completion = .absent ↔
      s.completion = .absent ∧ ∀ usage ∈ usages, (UsageState.observe {} usage).completion = .absent := by
  induction usages generalizing s with
  | nil => simp
  | cons usage usages ih =>
      rw [List.foldl_cons, ih, UsageState.observe_eq_join, completion_join, List.forall_mem_cons, and_assoc]

section Marks

variable {m : Mark}

/-- A delta says nothing of the usage. -/
theorem usageOf_ofDelta {index : U64} {delta : Option StoreJson} (h : m ∈ Mark.ofDelta index delta) :
    m.usageOf = none := by
  unfold Mark.ofDelta at h
  split at h
  · cases h
  · split at h
    · cases h
    · obtain ⟨call, -, rfl⟩ := List.mem_map.mp h
      unfold Mark.ofToolCall
      split <;> rfl
    · obtain rfl := List.mem_singleton.mp h
      rfl
  · obtain rfl := List.mem_singleton.mp h
    rfl

theorem usageOf_ofChoice {choice : StoreJson} (h : m ∈ Mark.ofChoice choice) : m.usageOf = none := by
  unfold Mark.ofChoice at h
  split at h
  · obtain rfl := List.mem_singleton.mp h
    rfl
  · split at h
    · obtain rfl := List.mem_singleton.mp h
      rfl
    · rcases List.mem_cons.mp h with rfl | h
      · rfl
      · exact usageOf_ofDelta h

/-- **What an event says of the usage** is in its one field. -/
theorem filterMap_usageOf_ofEvent (value : StoreJson) :
    (Mark.ofEvent value).filterMap Mark.usageOf = [value.get "usage"] := by
  have hchoices : ∀ items : List StoreJson, (items.flatMap Mark.ofChoice).filterMap Mark.usageOf = [] := by
    intro items
    apply List.filterMap_eq_nil_iff.mpr
    intro m hm
    obtain ⟨choice, -, hm⟩ := List.mem_flatMap.mp hm
    exact usageOf_ofChoice hm
  unfold Mark.ofEvent
  split
  · rfl
  · rename_i items _
    exact congrArg (value.get "usage" :: ·) (hchoices items)
  · rfl

end Marks

/-- The usages of a stream are those of its events, in order. -/
theorem usages_flatMap_ofEvent (values : List StoreJson) :
    usages (values.flatMap Mark.ofEvent) = (values.map fun value => value.get "usage").foldl UsageState.observe {} := by
  unfold usages
  rw [List.filterMap_flatMap]
  simp only [filterMap_usageOf_ofEvent]
  exact congrArg _ (List.flatMap_pure_eq_map (fun value : StoreJson => value.get "usage") values)

/-! ## The end of a stream

The observer keeps a line that is open and the lines of an event that is.  A stream that ends in between may have had
more to say, so nothing is estimated then. -/

namespace Sse

/-- The last line is a blank one, or there is none. -/
def AtBoundary (bytes : Bytes) : Prop := openEvent bytes = [] ∧ openLine bytes = []

/-- **`NothingLeft bytes`** — no line is open, and the lines since the last blank one have no data and fit. -/
structure NothingLeft (bytes : Bytes) : Prop where
  line : openLine bytes = []
  data : kept (openEvent bytes) = []
  fits : Fits (openEvent bytes)

/-- The values of the events that fit. -/
def values (fromStr : List Char → Option StoreJson) (bytes : Bytes) : List StoreJson :=
  ((events bytes).filter (Fits ·)).filterMap (value fromStr)

end Sse

/-- **`Published boundary values outcome r`** — `r` agrees with itself, is silent about a stream that broke off, and
estimates the completion tokens only of a completed stream that ended at a boundary and had no count, by the number
of its countable values. -/
structure Published (boundary : Prop) (values : List StoreJson) (outcome : StreamOutcome) (r : ResponseObservations) :
    Prop where
  consistent : r.usage.Consistent
  silent : outcome = .disconnected ∨ outcome = .truncated →
    r.usage = unavailableUsage ∧ r.toolCalls = .unavailable ∧ ∀ f ∈ r.finishReasons, f.result = .unavailable
  estimated : ∀ n, r.usage.completionTokens = .estimated n →
    outcome = .completed ∧ boundary ∧ (∀ value ∈ values, carriesCompletion value = false) ∧
      n.val = min (values.countP ObservationState.countable) (2 ^ 64 - 1) ∧ 0 < n.val

namespace SseObserver

open Sse

variable {fromStr : List Char → Option StoreJson} {o : SseObserver} {outcome : StreamOutcome} {n : U64}

/-- **Nothing is left over** exactly if the stream is settled. -/
theorem unterminated_iff (hnewline : ∀ text, fromStr ('\n' :: text) = fromStr text)
    (hdone : fromStr "[DONE]".toList = none) (bytes : Bytes) :
    (push fromStr {} bytes).unterminated = false ↔ NothingLeft bytes := by
  have htracks := tracks_push hnewline hdone bytes
  by_cases hfits : Fits (openEvent bytes ++ [openLine bytes])
  · have hkeeps := htracks.keeps hfits
    unfold unterminated
    rw [hkeeps.discarded, hkeeps.currentData, hkeeps.currentLine, Bool.false_or, Bool.or_eq_false_iff,
      Bool.not_eq_false', Bool.not_eq_false', List.isEmpty_iff, List.isEmpty_iff]
    exact ⟨fun h => ⟨h.2, h.1, (fits_concat.mp hfits).1⟩, fun h => ⟨h.data, h.line⟩⟩
  · have hdiscards := htracks.discards hfits
    refine iff_of_false (by simp [unterminated, hdiscards.discarded]) fun h => hfits ?_
    rw [h.line]
    exact (fits_concat_of_blank (Nat.zero_le _)).mpr h.fits

/-- An ending that is not clean makes every estimate unavailable. -/
theorem finish_of_not_completed (h : outcome ≠ .completed) :
    o.finish fromStr outcome = o.state.finish outcome true none := by
  cases outcome with
  | completed => exact absurd rfl h
  | deadline => rfl
  | disconnected => rfl
  | truncated => rfl

theorem finish_silent (h : outcome = .disconnected ∨ outcome = .truncated) :
    (o.finish fromStr outcome).usage = unavailableUsage ∧ (o.finish fromStr outcome).toolCalls = .unavailable ∧
      ∀ f ∈ (o.finish fromStr outcome).finishReasons, f.result = .unavailable := by
  have hbroken : outcome ≠ .completed := by rcases h with rfl | rfl <;> exact nofun
  rw [finish_of_not_completed hbroken]
  refine ⟨?_, rfl, fun f hf => ?_⟩
  · rcases h with rfl | rfl <;> rfl
  · obtain ⟨entry, -, rfl⟩ := List.mem_map.mp hf
    rfl

/-- Whatever the ending, what is published agrees with itself. -/
theorem finish_consistent (o : SseObserver) (fromStr : List Char → Option StoreJson) (outcome : StreamOutcome) :
    (o.finish fromStr outcome).usage.Consistent := by
  unfold SseObserver.finish ObservationState.finish
  cases outcome with
  | completed => exact UsageState.finish_consistent _ _
  | deadline => exact UsageState.finish_consistent _ _
  | disconnected => exact UsageState.unavailable_consistent
  | truncated => exact UsageState.unavailable_consistent

/-- When the completion tokens are estimated. -/
theorem finish_estimated : (o.finish fromStr outcome).usage.completionTokens = .estimated n ↔
    outcome = .completed ∧ o.unterminated = false ∧ o.state.usage.completion = .absent ∧ o.completionEvents = n ∧
      0 < n := by
  cases outcome with
  | completed =>
      cases hend : o.unterminated with
      | false =>
          rw [finish_of_clean hend]
          show (o.state.usage.finish _).completionTokens = _ ↔ _
          rw [UsageState.completionTokens_eq_estimated, Option.some.injEq]
          simp
      | true =>
          unfold SseObserver.finish
          rw [hend]
          show (UsageState.finish _ none).completionTokens = _ ↔ _
          rw [UsageState.completionTokens_eq_estimated]
          simp
  | deadline =>
      have hother : StreamOutcome.deadline ≠ .completed := nofun
      rw [finish_of_not_completed hother]
      show (UsageState.finish _ none).completionTokens = _ ↔ _
      rw [UsageState.completionTokens_eq_estimated]
      simp
  | disconnected => exact iff_of_false nofun fun h => nomatch h.1
  | truncated => exact iff_of_false nofun fun h => nomatch h.1

/-- **When the completion tokens of a stream are estimated**, in terms of its bytes. -/
theorem estimated_iff (hnewline : ∀ text, fromStr ('\n' :: text) = fromStr text)
    (hdone : fromStr "[DONE]".toList = none) (bytes : Bytes) :
    ((push fromStr {} bytes).finish fromStr outcome).usage.completionTokens = .estimated n ↔
      outcome = .completed ∧ NothingLeft bytes ∧ (∀ value ∈ values fromStr bytes, carriesCompletion value = false) ∧
        n.val = min ((values fromStr bytes).countP ObservationState.countable) (2 ^ 64 - 1) ∧ 0 < n.val := by
  have hobserved : (push fromStr {} bytes).Observed := observed_push bytes
  have hpassed : (push fromStr {} bytes).passed = values fromStr bytes := (tracks_push hnewline hdone bytes).passed
  have hcount : (push fromStr {} bytes).completionEvents = n ↔
      n.val = min ((values fromStr bytes).countP ObservationState.countable) (2 ^ 64 - 1) := by
    rw [← hpassed, Fin.ext_iff, hobserved.completionEvents, completionEvents_foldl, eq_comm]
    show n.val = min (0 + _) _ ↔ _
    rw [Nat.zero_add]
  have hcarries : (push fromStr {} bytes).state.usage.completion = .absent ↔
      ∀ value ∈ values fromStr bytes, carriesCompletion value = false := by
    rw [hobserved.represents.usage, usages_flatMap_ofEvent, completion_foldl, hpassed, List.forall_mem_map]
    simp only [completion_observe]
    exact and_iff_right trivial
  rw [finish_estimated, unterminated_iff hnewline hdone, hcount, hcarries]
  rfl

/-- **What is published of a stream agrees with itself.**  It is estimated only at the end of a completed stream of
which nothing is left over, and where no event that fits the limit had a count. -/
theorem usage_published (hnewline : ∀ text, fromStr ('\n' :: text) = fromStr text)
    (hdone : fromStr "[DONE]".toList = none) (chunks : List Bytes) (outcome : StreamOutcome) :
    Published (NothingLeft chunks.flatten) (values fromStr chunks.flatten) outcome
      ((chunks.foldl (push fromStr) {}).finish fromStr outcome) := by
  rw [foldl_push]
  exact ⟨finish_consistent _ _ _, finish_silent, fun n h => (estimated_iff hnewline hdone _).mp h⟩

/-! ## Estimates short of a boundary, and behind a lost count

The two conditions are needed as they stand: `boundary` alone is not what the code looks at, as a line that bears no
data leaves nothing behind, and an event that was too long may have carried the count. -/

/-- The white space of JSON. -/
def isJsonSpace (c : Char) : Bool := c == ' ' || c == '\n' || c == '\r' || c == '\t'

def choiceText : List Char := "\x7b\"choices\":[\x7b\"index\":0\x7d]\x7d".toList

def countText : List Char := "\x7b\"usage\":\x7b\"completion_tokens\":7\x7d\x7d".toList

def choiceValue : StoreJson := .obj [("choices", .arr [.obj [("index", .num (.int 0))]])]

def countValue : StoreJson := .obj [("usage", .obj [("completion_tokens", .num (.int 7))])]

/-- A reader of the two texts, with white space around them. -/
def readTrimmed (text : List Char) : Option StoreJson :=
  let trimmed := ((text.dropWhile isJsonSpace).reverse.dropWhile isJsonSpace).reverse
  if trimmed = choiceText then some choiceValue
  else if trimmed = countText then some countValue
  else none

theorem readTrimmed_newline (text : List Char) : readTrimmed ('\n' :: text) = readTrimmed text := rfl

theorem readTrimmed_done : readTrimmed "[DONE]".toList = none := by decide +kernel

/-- A stream, given by its lines. -/
def unlines (lines : List Bytes) : Bytes := lines.flatMap fun line => line ++ [newline]

/-- Lines put together are those lines. -/
theorem splitOnP_unlines {lines : List Bytes} (h : ∀ line ∈ lines, newline ∉ line) :
    (unlines lines).splitOnP (· == newline) = lines ++ [[]] := by
  induction lines with
  | nil => rfl
  | cons line lines ih =>
      obtain ⟨hline, hlines⟩ := List.forall_mem_cons.mp h
      have hwhole : line.splitOnP (· == newline) = [line] :=
        List.splitOnP_eq_singleton fun byte hbyte => beq_eq_false_iff_ne.mpr fun heq => hline (heq ▸ hbyte)
      have hcut : unlines (line :: lines) = line ++ newline :: unlines lines := by
        unfold unlines
        rw [List.flatMap_cons, List.append_assoc, List.singleton_append]
      rw [hcut, List.splitOnP_append_cons (p := (· == newline)) _ _ (beq_self_eq_true newline), hwhole, ih hlines]
      rfl

theorem lines_unlines {lines : List Bytes} (h : ∀ line ∈ lines, newline ∉ line) :
    Sse.lines (unlines lines) = lines ∧ openLine (unlines lines) = [] := pieces_of_splitOnP (splitOnP_unlines h)

/-- The line of an event that counts. -/
def choiceLine : Bytes := utf8 ("data:".toList ++ choiceText)

/-- The line of a count, with `n + 1` blanks behind it. -/
def countLine (n : ℕ) : Bytes := utf8 ("data:".toList ++ (countText ++ List.replicate (n + 1) ' '))

theorem utf8_replicate (n : ℕ) : utf8 (List.replicate n ' ') = List.replicate n 32 := by
  induction n with
  | zero => rfl
  | succ n ih =>
      rw [List.replicate_succ, List.replicate_succ, ← ih]
      rfl

theorem utf8_append (a b : List Char) : utf8 (a ++ b) = utf8 a ++ utf8 b := List.flatMap_append

theorem countLine_eq (n : ℕ) : countLine n = dataField ++ (utf8 countText ++ List.replicate (n + 1) 32) := by
  unfold countLine
  rw [utf8_append, utf8_append, utf8_replicate]
  rfl

theorem newline_notMem_countLine (n : ℕ) : newline ∉ countLine n := by
  rw [countLine_eq, List.mem_append, List.mem_append]
  rintro (h | h | h)
  · exact absurd h (by decide)
  · exact absurd h (by decide +kernel)
  · exact absurd (List.eq_of_mem_replicate h) (by decide)

theorem payload_countLine (n : ℕ) :
    payload (countLine n) = some (utf8 (countText ++ List.replicate (n + 1) ' ')) := by
  have hlast : (countLine n).getLast? = some 32 := by
    rw [countLine_eq, List.replicate_succ', ← List.append_assoc, ← List.append_assoc, List.getLast?_concat]
  have hreturn : stripReturn (countLine n) = countLine n := by
    unfold stripReturn
    rw [hlast]
    exact if_neg (by decide)
  have hprefix : List.isPrefixOf? dataField (countLine n) = some (utf8 countText ++ List.replicate (n + 1) 32) :=
    List.isPrefixOf?_eq_some_iff_append_eq.mpr (countLine_eq n).symm
  unfold payload
  rw [hreturn, hprefix, utf8_append, utf8_replicate]
  rfl

/-- Blanks behind a JSON text do not matter to its reader. -/
theorem readTrimmed_countText (n : ℕ) : readTrimmed (countText ++ List.replicate n ' ') = some countValue := by
  have hfront : (countText ++ List.replicate n ' ').dropWhile isJsonSpace = countText ++ List.replicate n ' ' := rfl
  have hback : (List.replicate n ' ' ++ countText.reverse).dropWhile isJsonSpace = countText.reverse := by
    rw [List.dropWhile_append_of_pos fun c hc => by rw [List.eq_of_mem_replicate hc]; rfl]
    decide +kernel
  unfold readTrimmed
  dsimp only
  rw [hfront, List.reverse_append, List.reverse_replicate, hback, List.reverse_reverse, if_neg (by decide +kernel),
    if_pos rfl]

theorem value_countLine (n : ℕ) : value readTrimmed [countLine n] = some countValue := by
  have hdata : data [countLine n] = utf8 (countText ++ List.replicate (n + 1) ' ') := by
    unfold data
    rw [List.filterMap_cons_some (payload_countLine n), List.filterMap_nil, List.intercalate_singleton]
  have hdone : utf8 (countText ++ List.replicate (n + 1) ' ') ≠ done := by
    rw [utf8_append]
    intro h
    exact absurd (List.cons.inj h).1 (by decide)
  unfold value
  rw [hdata, if_neg hdone, ofUtf8_utf8, Option.bind_some, readTrimmed_countText]

theorem blank_countLine (n : ℕ) : blank (countLine n) = false := by
  rw [Bool.eq_false_iff, ne_eq, blank_iff, countLine_eq]
  rintro (h | h)
  · cases h
  · exact absurd (List.cons.inj h).1 (by decide)

/-- The line is too long. -/
theorem not_fits_countLine {n : ℕ} (h : maxEventBytes ≤ n) : ¬ Fits [countLine n] := by
  intro hfits
  have hlength : (countLine n).length = dataField.length + ((utf8 countText).length + (n + 1)) := by
    rw [countLine_eq, List.length_append, List.length_append, List.length_replicate]
  have hline : (kept []).length + (countLine n).length ≤ maxEventBytes := (@fits_concat [] _ |>.mp hfits).2
  omega

/-- An event that counts, and then the name of the next event, and no more of it. -/
def namedEvent : Bytes := unlines [choiceLine, [], utf8 "event: next".toList]

/-- An event that counts, and then one with a count, which is too long. -/
def longEvent (n : ℕ) : Bytes := unlines [choiceLine, [], countLine n, []]

/-- The long stream has two events, and nothing is left over. -/
theorem events_longEvent (n : ℕ) : events (longEvent n) = [[choiceLine], [countLine n]] ∧
    openEvent (longEvent n) = [] ∧ openLine (longEvent n) = [] := by
  have hnewline : ∀ line ∈ [choiceLine, [], countLine n, []], newline ∉ line := by
    simp only [List.forall_mem_cons]
    exact ⟨by decide +kernel, by simp, newline_notMem_countLine n, by simp, by simp⟩
  obtain ⟨hlines, hopen⟩ := lines_unlines hnewline
  have hsplit : [choiceLine, [], countLine n, []].splitOnP blank = [[choiceLine], [countLine n]] ++ [[]] := by
    have hchoice : blank choiceLine = false := by decide +kernel
    have hnil : blank [] = true := rfl
    simp [List.splitOnP_cons_eq_if_modifyHead, hchoice, hnil, blank_countLine]
  obtain ⟨hevents, hevent⟩ := pieces_of_splitOnP hsplit
  unfold events openEvent longEvent
  rw [hlines]
  exact ⟨hevents, hevent, hopen⟩

theorem value_choiceLine : value readTrimmed [choiceLine] = some choiceValue := rfl

/-- One event that counts. -/
theorem estimated_of_values {bytes : Bytes} (hsettled : NothingLeft bytes) (hvalues : values readTrimmed bytes = [choiceValue]) :
    ((push readTrimmed {} bytes).finish readTrimmed .completed).usage.completionTokens = .estimated 1 := by
  refine (estimated_iff readTrimmed_newline readTrimmed_done bytes).mpr ⟨rfl, hsettled, ?_, ?_, Nat.one_pos⟩
  · rw [hvalues]
    exact fun value hvalue => List.mem_singleton.mp hvalue ▸ rfl
  · rw [hvalues]
    rfl

/-- The second of them is not read. -/
theorem values_longEvent {n : ℕ} (h : maxEventBytes ≤ n) : values readTrimmed (longEvent n) = [choiceValue] := by
  unfold values
  rw [(events_longEvent n).1, List.filter_cons_of_pos (by decide +kernel),
    List.filter_cons_of_neg (by simpa using not_fits_countLine h), List.filter_nil,
    List.filterMap_cons_some value_choiceLine, List.filterMap_nil]

/-- **Neither is a boundary reached, nor was no count carried.**  The estimate is made behind the name of an event, and
after an event with a count that is too long to be read. -/
theorem not_published_literally :
    ¬ Published (AtBoundary namedEvent) ((events namedEvent).filterMap (value readTrimmed)) .completed
        ((push readTrimmed {} namedEvent).finish readTrimmed .completed) ∧
      ¬ Published (AtBoundary (longEvent maxEventBytes))
          ((events (longEvent maxEventBytes)).filterMap (value readTrimmed)) .completed
          ((push readTrimmed {} (longEvent maxEventBytes)).finish readTrimmed .completed) := by
  constructor
  -- the stream ends inside an event that has no data: nothing is lost, and yet it is not at a boundary
  · intro h
    have hevents : events namedEvent = [[choiceLine]] := by decide +kernel
    have hopen : openEvent namedEvent = [utf8 "event: next".toList] := by decide +kernel
    have hsettled : NothingLeft namedEvent := by
      refine ⟨by decide +kernel, ?_, ?_⟩
      · rw [hopen]
        decide +kernel
      · rw [hopen]
        decide +kernel
    have hvalues : values readTrimmed namedEvent = [choiceValue] := by
      unfold values
      rw [hevents, List.filter_cons_of_pos (by decide +kernel), List.filter_nil,
        List.filterMap_cons_some value_choiceLine, List.filterMap_nil]
    obtain ⟨-, hboundary, -⟩ := h.estimated 1 (estimated_of_values hsettled hvalues)
    rw [hboundary.1] at hopen
    cases hopen
  -- the event is too long to be read, and counts by the text of the proposition
  · intro h
    obtain ⟨hevents, hevent, hline⟩ := events_longEvent maxEventBytes
    have hsettled : NothingLeft (longEvent maxEventBytes) := by
      refine ⟨hline, ?_, ?_⟩
      · rw [hevent]
        rfl
      · rw [hevent]
        exact fits_nil
    obtain ⟨-, -, hcarries, -⟩ := h.estimated 1 (estimated_of_values hsettled (values_longEvent (le_refl _)))
    have hcount := hcarries countValue (List.mem_filterMap.mpr ⟨[countLine maxEventBytes], by rw [hevents]; simp,
      value_countLine maxEventBytes⟩)
    cases hcount

/-- In two chunks, with a comment at the end. -/
theorem published_comment :
    Published (NothingLeft [choiceLine, utf8 "\n\n: end\n".toList].flatten)
      (values readTrimmed [choiceLine, utf8 "\n\n: end\n".toList].flatten) .completed
      (([choiceLine, utf8 "\n\n: end\n".toList].foldl (push readTrimmed) {}).finish readTrimmed .completed) :=
  usage_published readTrimmed_newline readTrimmed_done _ _

end SseObserver

end Flock
