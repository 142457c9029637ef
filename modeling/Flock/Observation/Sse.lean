/-
# Flock.Observation.Sse — the observer of an event stream, and what it has to find there.

The model of `SseObserver`: bytes arrive in chunks of any size, and the observer keeps the line it is in and the data
of the event it is in, and no more than `maxEventBytes` of the two.  An event that needs more is discarded up to the
blank line that ends it.

A reference splitter takes the whole stream apart at once.  Both find the same events, whatever the chunks.

`serde_json::from_str` is a parameter.

The bound is on what is kept, not on what an event has: a carriage return, a comment or another field of the event is
dropped at the end of its line and takes no room after that.  `Fits` says it for one event, of its lines alone; so
which events are passed on is a question about the stream and not about the observer.
-/
import Flock.Lib.Pieces
import Flock.Observation

namespace Flock

open History (U64 Bytes newline ofUtf8 utf8)
open Lib (closedPieces openPiece pieces_concat_of_pos pieces_concat_of_neg pieces_append_of_closed pieces_of_closed
  filterMap_concat intercalate_dropWhile_concat intercalate_eq_replicate_append)

/-! ## The observer -/

/-- `MAX_EVENT_BYTES`. -/
def maxEventBytes : ℕ := 1048576

namespace Sse

/-- `b'\r'`. -/
def carriageReturn : UInt8 := 13

/-- `b"data:"`. -/
def dataField : Bytes := utf8 "data:".toList

/-- `b"[DONE]"`. -/
def done : Bytes := utf8 "[DONE]".toList

/-- `data.strip_prefix(b" ").unwrap_or(data)`. -/
def stripBlank (data : Bytes) : Bytes := (List.isPrefixOf? (utf8 [' ']) data).getD data

/-- A line without the one carriage return at its end. -/
def stripReturn (line : Bytes) : Bytes := if line.getLast? = some carriageReturn then line.dropLast else line

end Sse

/-- `SseObserver`.  `passed` is not in the source: what was passed to `observe_stream`. -/
structure SseObserver where
  state : ObservationState := {}
  currentData : Bytes := []
  currentLine : Bytes := []
  discardedEvent : Bool := false
  discardedLineHasContent : Bool := false
  discardedLineEndsCr : Bool := false
  completionEvents : U64 := 0
  passed : List StoreJson := []

namespace SseObserver

open Sse

variable (fromStr : List Char → Option StoreJson)

/-- The call of `observe_stream`, and the count. -/
def observe (o : SseObserver) (value : StoreJson) : SseObserver :=
  { o with
    state := (o.state.observeStream value).1
    completionEvents :=
      if (o.state.observeStream value).2 then satAdd o.completionEvents 1 else o.completionEvents
    passed := o.passed ++ [value] }

/-- `classify_event`. -/
def classifyEvent (o : SseObserver) : SseObserver :=
  let o :=
    if o.currentData ≠ done then
      match (ofUtf8 o.currentData).bind fromStr with
      | some value => o.observe value
      | none => o
    else o
  { o with currentData := [], currentLine := [] }

/-- The event is discarded; its line has content. -/
def discard (o : SseObserver) : SseObserver :=
  { o with
    currentData := []
    currentLine := []
    discardedEvent := true
    discardedLineHasContent := true
    discardedLineEndsCr := false }

/-- A data line that is kept. -/
def keep (o : SseObserver) (data : Bytes) : SseObserver :=
  let separator := if o.currentData.isEmpty then 0 else 1
  if data.length + separator > maxEventBytes - o.currentData.length then o.discard
  else
    { o with
      currentData := o.currentData ++ (if separator = 1 then [newline] else []) ++ data
      currentLine := [] }

/-- `finish_line`. -/
def finishLine (o : SseObserver) : SseObserver :=
  if o.discardedEvent then
    { o with
      currentLine := []
      discardedEvent := o.discardedLineHasContent
      discardedLineHasContent := false
      discardedLineEndsCr := false }
  else
    let o := { o with currentLine := stripReturn o.currentLine }
    if o.currentLine.isEmpty then o.classifyEvent fromStr
    else
      match List.isPrefixOf? dataField o.currentLine with
      | some data => o.keep (stripBlank data)
      | none => { o with currentLine := [] }

/-- `retained_len`. -/
def retainedLen (o : SseObserver) : ℕ := o.currentData.length + o.currentLine.length

/-- The loop body of `push`. -/
def pushByte (o : SseObserver) (byte : UInt8) : SseObserver :=
  if byte = newline then o.finishLine fromStr
  else if o.discardedEvent then
    if byte = carriageReturn then
      { o with
        discardedLineHasContent := o.discardedLineHasContent || o.discardedLineEndsCr
        discardedLineEndsCr := true }
    else { o with discardedLineHasContent := true, discardedLineEndsCr := false }
  else if o.retainedLen = maxEventBytes then o.discard
  else { o with currentLine := o.currentLine ++ [byte] }

/-- `push`. -/
def push (o : SseObserver) (bytes : Bytes) : SseObserver := bytes.foldl (pushByte fromStr) o

/-- `remember_unterminated_indexes`. -/
def rememberUnterminatedIndexes (o : SseObserver) : SseObserver :=
  let texts := o.currentData :: ((List.isPrefixOf? dataField o.currentLine).map stripBlank).toList
  let values := texts.filterMap fun data => (ofUtf8 data).bind fromStr
  { o with state := values.foldl ObservationState.rememberChoiceIndexes o.state }

/-- The stream did not end with a blank line. -/
def unterminated (o : SseObserver) : Bool := o.discardedEvent || !o.currentData.isEmpty || !o.currentLine.isEmpty

/-- `finish`. -/
def finish (o : SseObserver) (outcome : StreamOutcome) : ResponseObservations :=
  let unterminated := o.unterminated
  let o := if outcome = .completed ∧ unterminated = true then o.rememberUnterminatedIndexes fromStr else o
  o.state.finish outcome (outcome != .completed || unterminated)
    (if outcome = .completed ∧ unterminated = false then some o.completionEvents else none)

end SseObserver

/-! ## The reference splitter

It is what the format says: lines end at a line feed, events at a blank line, and the data of an event are its `data:`
payloads, joined.  It takes the whole stream and knows no bound. -/

namespace Sse

/-- An event ends at a line that has nothing but a carriage return. -/
def blank (line : Bytes) : Bool := (stripReturn line).isEmpty

/-- The lines that a line feed ends. -/
def lines (bytes : Bytes) : List Bytes := closedPieces (· == newline) bytes

/-- The lines of each event that a blank line ends. -/
def events (bytes : Bytes) : List (List Bytes) := closedPieces blank (lines bytes)

/-- What a `data:` line carries. -/
def payload (line : Bytes) : Option Bytes := (List.isPrefixOf? dataField (stripReturn line)).map stripBlank

/-- The data of an event: its payloads, joined by line feeds. -/
def data (event : List Bytes) : Bytes := [newline].intercalate (event.filterMap payload)

/-- The JSON value of an event, if it has one. -/
def value (fromStr : List Char → Option StoreJson) (event : List Bytes) : Option StoreJson :=
  if data event = done then none else (ofUtf8 (data event)).bind fromStr

/-- What is kept of the data: leading empty payloads leave nothing. -/
def kept (event : List Bytes) : Bytes := [newline].intercalate ((event.filterMap payload).dropWhile List.isEmpty)

/-- **`Fits event`** — what is kept of the lines before a line, and that line, are never more than an event may
have. -/
def Fits (event : List Bytes) : Prop :=
  ∀ n, (h : n < event.length) → (kept (event.take n)).length + event[n].length ≤ maxEventBytes

/-- Only finitely many prefixes are to be looked at. -/
instance (event : List Bytes) : Decidable (Fits event) :=
  inferInstanceAs (Decidable (∀ n, (h : n < event.length) → _ ≤ maxEventBytes))

/-! ## What fits

Whether an event fits is decided line by line, as the observer does it. -/

/-- A line of another field keeps nothing. -/
theorem kept_concat_of_none {line : Bytes} (h : payload line = none) (event : List Bytes) :
    kept (event ++ [line]) = kept event := by
  unfold kept
  rw [filterMap_concat, h, Option.toList_none, List.append_nil]

/-- A further payload is joined by a line feed, unless nothing is kept so far. -/
theorem kept_concat_of_some {line d : Bytes} (h : payload line = some d) (event : List Bytes) :
    kept (event ++ [line]) = kept event ++ (if kept event = [] then [] else [newline]) ++ d := by
  unfold kept
  rw [filterMap_concat, h]
  exact intercalate_dropWhile_concat _ d

/-- A line loses its carriage return at most. -/
theorem length_stripReturn_le (line : Bytes) : (stripReturn line).length ≤ line.length := by
  unfold stripReturn
  split
  · rw [List.length_dropLast]
    omega
  · exact le_refl _

/-- A payload loses its leading blank at most. -/
theorem length_stripBlank_le (d : Bytes) : (stripBlank d).length ≤ d.length := by
  unfold stripBlank
  cases h : List.isPrefixOf? (utf8 [' ']) d with
  | none => exact le_refl _
  | some rest =>
      rw [← List.isPrefixOf?_eq_some_iff_append_eq.mp h, List.length_append]
      exact Nat.le_add_left _ _

/-- A payload is shorter than its line by the name of the field, at least. -/
theorem length_payload {line d : Bytes} (h : payload line = some d) : d.length + 5 ≤ line.length := by
  obtain ⟨rest, hrest, rfl⟩ := Option.map_eq_some_iff.mp h
  have hline : dataField ++ rest = stripReturn line := List.isPrefixOf?_eq_some_iff_append_eq.mp hrest
  have hlength : 5 + rest.length = (stripReturn line).length := by
    rw [← hline, List.length_append]
    rfl
  have hreturn := length_stripReturn_le line
  have hblank := length_stripBlank_le rest
  omega

theorem fits_nil : Fits [] := fun n h => absurd h (Nat.not_lt_zero n)

/-- One line more fits if there is room for the whole of it, next to what is kept. -/
theorem fits_concat {event : List Bytes} {line : Bytes} :
    Fits (event ++ [line]) ↔ Fits event ∧ (kept event).length + line.length ≤ maxEventBytes := by
  unfold Fits
  constructor
  · intro h
    refine ⟨fun n hn => ?_, ?_⟩
    · have hline := h n (by rw [List.length_append]; omega)
      rwa [List.take_append_of_le_length hn.le, List.getElem_append_left hn] at hline
    · have hline := h event.length (by simp)
      rwa [List.take_left, List.getElem_concat_length rfl] at hline
  · rintro ⟨hevent, hline⟩ n hn
    rw [List.length_append, List.length_singleton] at hn
    rcases Nat.lt_succ_iff_lt_or_eq.mp hn with hlt | rfl
    · rw [List.take_append_of_le_length hlt.le, List.getElem_append_left hlt]
      exact hevent n hlt
    · rw [List.take_left, List.getElem_concat_length rfl]
      exact hline

/-- **Between two lines** there is room for the next. -/
theorem length_kept_of_fits {event : List Bytes} (h : Fits event) : (kept event).length + 4 ≤ maxEventBytes := by
  induction event using List.reverseRecOn with
  | nil => decide
  | append_singleton event line ih =>
      obtain ⟨hevent, hline⟩ := fits_concat.mp h
      cases hpayload : payload line with
      | none =>
          rw [kept_concat_of_none hpayload]
          exact ih hevent
      | some d =>
          have hlength := length_payload hpayload
          have hseparator : (if kept event = [] then [] else [newline]).length ≤ 1 := by split <;> simp
          rw [kept_concat_of_some hpayload, List.length_append, List.length_append]
          omega

/-- A line that does not fit is not blank. -/
theorem fits_concat_of_blank {event : List Bytes} {line : Bytes} (h : line.length ≤ 1) :
    Fits (event ++ [line]) ↔ Fits event := by
  refine ⟨fun hfits => (fits_concat.mp hfits).1, fun hfits => fits_concat.mpr ⟨hfits, ?_⟩⟩
  have hkept := length_kept_of_fits hfits
  omega

/-! ## The value of an event

The observer joins payloads only once something is kept, so an event whose first payloads are empty is handed to the
JSON reader without its leading line feeds.  The reader does not mind. -/

/-- A line feed is one character of its own. -/
theorem ofUtf8_newline_cons (bytes : Bytes) : ofUtf8 (newline :: bytes) = (ofUtf8 bytes).map ('\n' :: ·) := by
  have hdecode := ByteArray.utf8Decode?_utf8Encode_singleton_append (l := bytes.toByteArray) (c := '\n')
  have hbytes : (newline :: bytes).toByteArray = ['\n'].utf8Encode ++ bytes.toByteArray := by
    rw [show newline :: bytes = [newline] ++ bytes from rfl, List.toByteArray_append]
    rfl
  unfold ofUtf8
  rw [hbytes, hdecode]
  simp [Function.comp_def]

section Value

variable {fromStr : List Char → Option StoreJson}

/-- Any number of leading line feeds can be dropped. -/
theorem fromStr_replicate (hnewline : ∀ text, fromStr ('\n' :: text) = fromStr text) (n : ℕ) (bytes : Bytes) :
    (ofUtf8 (List.replicate n newline ++ bytes)).bind fromStr = (ofUtf8 bytes).bind fromStr := by
  induction n with
  | zero => rfl
  | succ n ih =>
      rw [List.replicate_succ, List.cons_append, ofUtf8_newline_cons, ← ih]
      cases ofUtf8 (List.replicate n newline ++ bytes) with
      | none => rfl
      | some text => exact hnewline text

/-- **What is kept has the same value**: line feeds before a JSON text do not matter. -/
theorem value_eq (hnewline : ∀ text, fromStr ('\n' :: text) = fromStr text)
    (hdone : fromStr "[DONE]".toList = none) (event : List Bytes) :
    value fromStr event = if kept event = done then none else (ofUtf8 (kept event)).bind fromStr := by
  obtain ⟨n, hdata⟩ : ∃ n, data event = List.replicate n newline ++ kept event :=
    intercalate_eq_replicate_append (event.filterMap payload)
  have hsame : (ofUtf8 (data event)).bind fromStr = (ofUtf8 (kept event)).bind fromStr := by
    rw [hdata]
    exact fromStr_replicate hnewline n _
  have hnone : (ofUtf8 done).bind fromStr = none := by
    rw [done, History.ofUtf8_utf8]
    exact hdone
  unfold value
  rw [hsame]
  by_cases hkept : kept event = done
  · rw [if_pos hkept, hkept, hnone, ite_self]
  · rw [if_neg hkept]
    by_cases hmarker : data event = done
    · -- the marker has no line feed
      have hzero : n = 0 := by
        by_contra hne
        obtain ⟨m, rfl⟩ := Nat.exists_eq_succ_of_ne_zero hne
        rw [hdata, List.replicate_succ] at hmarker
        exact absurd (List.cons.inj hmarker).1 (by decide)
      rw [hzero] at hdata
      exact absurd (hdata.symm.trans hmarker) hkept
    · rw [if_neg hmarker]

end Value

/-! ## One byte more

What one byte does to the splitter: inside a line it lengthens the line, a line feed ends the line, and at a blank
line it ends the event. -/

/-- The lines since the last blank line. -/
def openEvent (bytes : Bytes) : List Bytes := openPiece blank (lines bytes)

/-- What comes after the last line feed. -/
def openLine (bytes : Bytes) : Bytes := openPiece (· == newline) bytes

/-- The two blank lines: the empty one, and the one of a carriage return. -/
theorem blank_iff {line : Bytes} : blank line = true ↔ line = [] ∨ line = [carriageReturn] := by
  unfold blank
  rw [List.isEmpty_iff]
  constructor
  · intro h
    unfold stripReturn at h
    split at h
    · rename_i hlast
      right
      obtain ⟨init, rfl⟩ := List.getLast?_eq_some_iff.mp hlast
      rw [List.dropLast_concat] at h
      rw [h]
      rfl
    · exact .inl h
  · rintro (rfl | rfl) <;> rfl

/-- A byte inside a line touches neither the events nor the lines before it. -/
theorem splits_byte {byte : UInt8} (h : byte ≠ newline) (bytes : Bytes) :
    events (bytes ++ [byte]) = events bytes ∧ openEvent (bytes ++ [byte]) = openEvent bytes ∧
      openLine (bytes ++ [byte]) = openLine bytes ++ [byte] := by
  obtain ⟨hclosed, hopen⟩ := pieces_concat_of_neg (p := (· == newline)) (by simpa using h) bytes
  unfold events openEvent lines
  rw [hclosed]
  exact ⟨rfl, rfl, hopen⟩

/-- A line feed at a blank line ends the event. -/
theorem splits_newline_of_blank {bytes : Bytes} (h : blank (openLine bytes) = true) :
    events (bytes ++ [newline]) = events bytes ++ [openEvent bytes] ∧ openEvent (bytes ++ [newline]) = [] ∧
      openLine (bytes ++ [newline]) = [] := by
  obtain ⟨hclosed, hopen⟩ := pieces_concat_of_pos (p := (· == newline)) (a := newline) (by simp) bytes
  unfold events openEvent lines
  rw [hclosed]
  obtain ⟨hevents, hevent⟩ := pieces_concat_of_pos h (closedPieces (· == newline) bytes)
  exact ⟨hevents, hevent, hopen⟩

/-- A line feed at any other line adds the line to the event. -/
theorem splits_newline {bytes : Bytes} (h : blank (openLine bytes) = false) :
    events (bytes ++ [newline]) = events bytes ∧ openEvent (bytes ++ [newline]) = openEvent bytes ++ [openLine bytes] ∧
      openLine (bytes ++ [newline]) = [] := by
  obtain ⟨hclosed, hopen⟩ := pieces_concat_of_pos (p := (· == newline)) (a := newline) (by simp) bytes
  unfold events openEvent lines
  rw [hclosed]
  obtain ⟨hevents, hevent⟩ := pieces_concat_of_neg h (closedPieces (· == newline) bytes)
  exact ⟨hevents, hevent, hopen⟩

/-- Every event has ended. -/
def Whole (bytes : Bytes) : Prop := openEvent bytes = [] ∧ openLine bytes = []

instance (bytes : Bytes) : Decidable (Whole bytes) := inferInstanceAs (Decidable (_ ∧ _))

/-- **After whole events** a stream starts anew. -/
theorem Whole.splits_append {bytes : Bytes} (h : Whole bytes) (rest : Bytes) :
    events (bytes ++ rest) = events bytes ++ events rest ∧ openEvent (bytes ++ rest) = openEvent rest ∧
      openLine (bytes ++ rest) = openLine rest := by
  obtain ⟨hclosed, hopen⟩ := pieces_append_of_closed h.2 rest
  unfold events openEvent lines
  rw [hclosed]
  obtain ⟨hevents, hevent⟩ := pieces_append_of_closed (p := blank) h.1 (closedPieces (· == newline) rest)
  exact ⟨hevents, hevent, hopen⟩

/-- An event of one line. -/
theorem splits_line {line : Bytes} (hline : newline ∉ line) (hblank : blank line = false) :
    events (line ++ [newline, newline]) = [[line]] ∧ Whole (line ++ [newline, newline]) := by
  have hne : ∀ x ∈ line, (x == newline) = false := by
    intro x hx
    rw [beq_eq_false_iff_ne]
    rintro rfl
    exact hline hx
  obtain ⟨hclosed, hopen⟩ := pieces_of_closed hne (by simp : (newline == newline) = true)
  have hsplit : line ++ [newline, newline] = line ++ [newline] ++ [newline] := by simp
  have hlines : lines (line ++ [newline, newline]) = [line] ++ [[]] := by
    obtain ⟨hclosed', -⟩ := pieces_concat_of_pos (p := (· == newline)) (a := newline) (by simp) (line ++ [newline])
    unfold lines
    rw [hsplit, hclosed', hclosed, hopen]
  have hlast : openLine (line ++ [newline, newline]) = [] := by
    rw [hsplit]
    exact (pieces_concat_of_pos (p := (· == newline)) (a := newline) (by simp) (line ++ [newline])).2
  obtain ⟨hevents, hevent⟩ := pieces_of_closed (p := blank) (l := [line]) (a := [])
    (fun x hx => List.mem_singleton.mp hx ▸ hblank) rfl
  unfold events Whole openEvent
  rw [hlines]
  exact ⟨hevents, hevent, hlast⟩

end Sse

/-! ## The observer keeps to the splitter

The observer is in one of two states of mind.  It keeps the open event, and then its buffers are those of the
splitter; or it discards it, and then it only has to notice the blank line, for which two bits about the line are
enough. -/

namespace SseObserver

open Sse

variable {fromStr : List Char → Option StoreJson} {o : SseObserver} {event : List Bytes} {line : Bytes} {byte : UInt8}

/-- The observer keeps the event, and is in this line. -/
structure Keeps (o : SseObserver) (event : List Bytes) (line : Bytes) : Prop where
  discarded : o.discardedEvent = false
  currentData : o.currentData = kept event
  currentLine : o.currentLine = line

/-- The observer discards the event, and is in this line. -/
structure Discards (o : SseObserver) (line : Bytes) : Prop where
  discarded : o.discardedEvent = true
  currentData : o.currentData = []
  currentLine : o.currentLine = []
  blank : o.discardedLineHasContent = false →
    line = [] ∧ o.discardedLineEndsCr = false ∨ line = [carriageReturn] ∧ o.discardedLineEndsCr = true
  content : o.discardedLineHasContent = true → line ≠ [] ∧ line ≠ [carriageReturn]

/-- A byte inside a line passes nothing on. -/
theorem passed_pushByte (h : byte ≠ newline) (o : SseObserver) : (o.pushByte fromStr byte).passed = o.passed := by
  unfold pushByte
  rw [if_neg h]
  split
  · split <;> rfl
  · split <;> rfl

/-- A discarding observer keeps discarding inside a line; it remembers whether the line has content. -/
theorem Discards.pushByte (fromStr : List Char → Option StoreJson) (h : o.Discards line) (hbyte : byte ≠ newline) :
    (o.pushByte fromStr byte).Discards (line ++ [byte]) := by
  unfold SseObserver.pushByte
  rw [if_neg hbyte, if_pos h.discarded]
  split
  · rename_i hreturn
    subst hreturn
    refine ⟨h.discarded, h.currentData, h.currentLine, fun hcontent => ?_, fun hcontent => ?_⟩
    · obtain ⟨hno, hend⟩ := Bool.or_eq_false_iff.mp hcontent
      rcases h.blank hno with ⟨rfl, -⟩ | ⟨-, hend'⟩
      · exact .inr ⟨rfl, rfl⟩
      · rw [hend'] at hend
        cases hend
    · refine ⟨by simp, fun hline => ?_⟩
      -- a lone carriage return was an empty line before
      have hnil : line = [] := by simpa using congrArg List.dropLast hline
      rcases Bool.or_eq_true_iff.mp hcontent with hyes | hend
      · exact (h.content hyes).1 hnil
      · cases hno : o.discardedLineHasContent with
        | true => exact (h.content hno).1 hnil
        | false =>
            rcases h.blank hno with ⟨-, hend'⟩ | ⟨hline', -⟩
            · rw [hend] at hend'
              cases hend'
            · rw [hnil] at hline'
              cases hline'
  · rename_i hother
    refine ⟨h.discarded, h.currentData, h.currentLine, fun hcontent => (by cases hcontent), fun _ => ?_⟩
    refine ⟨by simp, fun hline => ?_⟩
    have hlast : byte = carriageReturn := by simpa using congrArg List.getLast? hline
    exact hother hlast

/-- A line that is already two bytes long when it is discarded is not a blank one. -/
theorem discard_discards (o : SseObserver) (h : 2 ≤ line.length) : o.discard.Discards line := by
  refine ⟨rfl, rfl, rfl, fun hcontent => (by cases hcontent), fun _ => ⟨?_, ?_⟩⟩
  · rintro rfl
    cases h
  · rintro rfl
    exact absurd h (by decide)

/-- A keeping observer takes the byte as long as there is room, and discards the event when there is none. -/
theorem Keeps.pushByte (fromStr : List Char → Option StoreJson) (h : o.Keeps event line) (hbyte : byte ≠ newline)
    (hfits : Fits (event ++ [line])) :
    if (Sse.kept event).length + (line ++ [byte]).length ≤ maxEventBytes then
      (o.pushByte fromStr byte).Keeps event (line ++ [byte])
    else (o.pushByte fromStr byte).Discards (line ++ [byte]) := by
  obtain ⟨hevent, hline⟩ := fits_concat.mp hfits
  have hroom := length_kept_of_fits hevent
  have hretained : o.retainedLen = (Sse.kept event).length + line.length := by
    rw [retainedLen, h.currentData, h.currentLine]
  have hlength : (line ++ [byte]).length = line.length + 1 := List.length_append
  have hkept : ¬ o.discardedEvent = true := by simp [h.discarded]
  unfold SseObserver.pushByte
  rw [if_neg hbyte, if_neg hkept, hretained, hlength]
  by_cases hfull : (Sse.kept event).length + line.length = maxEventBytes
  · rw [if_neg (by omega), if_pos hfull]
    exact discard_discards o (by omega)
  · rw [if_pos (by omega), if_neg hfull]
    exact ⟨h.discarded, h.currentData, by rw [h.currentLine]⟩

/-- The end of a line, while the event is discarded: the blank line makes room for the next event. -/
theorem Discards.finishLine (fromStr : List Char → Option StoreJson) (h : o.Discards line) :
    (o.finishLine fromStr).passed = o.passed ∧
      if Sse.blank line = true then (o.finishLine fromStr).Keeps [] []
      else (o.finishLine fromStr).Discards [] := by
  unfold SseObserver.finishLine
  rw [if_pos h.discarded]
  refine ⟨rfl, ?_⟩
  cases hcontent : o.discardedLineHasContent with
  | false =>
      have hblank : Sse.blank line = true := by
        rw [blank_iff]
        rcases h.blank hcontent with ⟨rfl, -⟩ | ⟨rfl, -⟩
        · exact .inl rfl
        · exact .inr rfl
      rw [if_pos hblank]
      exact ⟨rfl, h.currentData, rfl⟩
  | true =>
      have hblank : ¬ Sse.blank line = true := by
        rw [blank_iff]
        rintro (rfl | rfl)
        · exact (h.content hcontent).1 rfl
        · exact (h.content hcontent).2 rfl
      rw [if_neg hblank]
      exact ⟨rfl, h.currentData, rfl, fun _ => .inl ⟨rfl, rfl⟩, fun hyes => by cases hyes⟩

/-- What the end of an event passes on, and that both buffers are empty then. -/
theorem classifyEvent_eq (fromStr : List Char → Option StoreJson) (o : SseObserver) :
    (o.classifyEvent fromStr).passed = o.passed ++
        (if o.currentData = done then none else (ofUtf8 o.currentData).bind fromStr).toList ∧
      (o.classifyEvent fromStr).currentData = [] ∧ (o.classifyEvent fromStr).currentLine = [] ∧
      (o.classifyEvent fromStr).discardedEvent = o.discardedEvent := by
  unfold classifyEvent
  by_cases hdone : o.currentData = done
  · simp [hdone]
  · cases hvalue : (ofUtf8 o.currentData).bind fromStr with
    | none => simp [hdone]
    | some value => simp [hdone, observe]

/-- The end of an event that was kept: its value is passed on, if it has one. -/
theorem Keeps.finishLine_of_blank (h : o.Keeps event line) (hblank : Sse.blank line = true)
    (hnewline : ∀ text, fromStr ('\n' :: text) = fromStr text) (hdone : fromStr "[DONE]".toList = none) :
    (o.finishLine fromStr).passed = o.passed ++ (value fromStr event).toList ∧
      (o.finishLine fromStr).Keeps [] [] := by
  have hline : (stripReturn o.currentLine).isEmpty = true := by
    rw [h.currentLine]
    exact hblank
  have hkept : ¬ o.discardedEvent = true := by simp [h.discarded]
  unfold SseObserver.finishLine
  rw [if_neg hkept, if_pos hline]
  obtain ⟨hpassed, hdata, hline', hdiscarded⟩ :=
    classifyEvent_eq fromStr { o with currentLine := stripReturn o.currentLine }
  refine ⟨?_, ?_, ?_, ?_⟩
  · rw [value_eq hnewline hdone, hpassed, h.currentData]
  · exact hdiscarded.trans h.discarded
  · exact hdata
  · exact hline'

/-- Where there is room, a data line is kept. -/
theorem keep_of_room {d : Bytes}
    (h : (o.currentData ++ (if o.currentData = [] then [] else [newline]) ++ d).length ≤ maxEventBytes) :
    o.keep d =
      { o with
        currentData := o.currentData ++ (if o.currentData = [] then [] else [newline]) ++ d
        currentLine := [] } := by
  unfold keep
  by_cases hdata : o.currentData = []
  · have hroom : ¬ d.length > maxEventBytes := by simpa [hdata] using h
    simp [hdata, hroom]
  · rw [if_neg hdata, List.length_append, List.length_append, List.length_singleton] at h
    have hroom : ¬ d.length + 1 > maxEventBytes - o.currentData.length := by omega
    simp [hdata, hroom]

/-- The end of a line that is not blank, while the event is kept. -/
theorem Keeps.finishLine (fromStr : List Char → Option StoreJson) (h : o.Keeps event line)
    (hblank : Sse.blank line = false) (hfits : Fits (event ++ [line])) :
    (o.finishLine fromStr).passed = o.passed ∧ (o.finishLine fromStr).Keeps (event ++ [line]) [] := by
  have hline : (stripReturn line).isEmpty = false := hblank
  have hroom := length_kept_of_fits hfits
  have hkept : ¬ o.discardedEvent = true := by simp [h.discarded]
  unfold SseObserver.finishLine
  rw [if_neg hkept]
  simp only [h.currentLine, hline, Bool.false_eq_true, if_false]
  cases hprefix : List.isPrefixOf? dataField (stripReturn line) with
  | none =>
      have hpayload : payload line = none := by rw [payload, hprefix]; rfl
      exact ⟨rfl, h.discarded, by rw [kept_concat_of_none hpayload]; exact h.currentData, rfl⟩
  | some rest =>
      have hpayload : payload line = some (stripBlank rest) := by rw [payload, hprefix]; rfl
      rw [kept_concat_of_some hpayload, ← h.currentData] at hroom
      have hkeep := keep_of_room (o := { o with currentLine := stripReturn line }) (d := stripBlank rest)
        (le_trans (Nat.le_add_right _ 4) hroom)
      dsimp only at hkeep ⊢
      rw [hkeep]
      exact ⟨rfl, h.discarded, by rw [kept_concat_of_some hpayload, ← h.currentData], rfl⟩

/-! ## A whole stream

The two states of mind, joined: which of the two it is, is said by `Fits` of the open event. -/

/-- **`Tracks bytes o`** — the observer passed on the events of these bytes, and stands where they end. -/
structure Tracks (fromStr : List Char → Option StoreJson) (bytes : Bytes) (o : SseObserver) : Prop where
  passed : o.passed = ((events bytes).filter (Fits ·)).filterMap (value fromStr)
  keeps : Fits (openEvent bytes ++ [openLine bytes]) → o.Keeps (openEvent bytes) (openLine bytes)
  discards : ¬ Fits (openEvent bytes ++ [openLine bytes]) → o.Discards (openLine bytes)

theorem tracks_nil : Tracks fromStr [] {} :=
  ⟨rfl, fun _ => ⟨rfl, rfl, rfl⟩, fun h => absurd (fits_concat.mpr ⟨fits_nil, Nat.zero_le _⟩) h⟩

variable {bytes : Bytes}

/-- A byte inside a line. -/
theorem Tracks.pushByte (h : Tracks fromStr bytes o) (hbyte : byte ≠ newline) :
    Tracks fromStr (bytes ++ [byte]) (o.pushByte fromStr byte) := by
  obtain ⟨hevents, hevent, hline⟩ := splits_byte hbyte bytes
  have hpassed : (o.pushByte fromStr byte).passed = _ := (passed_pushByte hbyte o).trans h.passed
  by_cases hfits : Fits (openEvent bytes ++ [openLine bytes])
  · have hnext := (h.keeps hfits).pushByte fromStr hbyte hfits
    refine ⟨by rw [hpassed, hevents], fun hfits' => ?_, fun hfits' => ?_⟩
    · rw [hevent, hline] at hfits' ⊢
      rwa [if_pos (fits_concat.mp hfits').2] at hnext
    · rw [hevent, hline] at hfits'
      rw [hline]
      rwa [if_neg fun hle => hfits' (fits_concat.mpr ⟨(fits_concat.mp hfits).1, hle⟩)] at hnext
  · have hnext := (h.discards hfits).pushByte fromStr hbyte
    refine ⟨by rw [hpassed, hevents], fun hfits' => ?_, fun _ => by rwa [hline]⟩
    -- the line has only got longer
    rw [hevent, hline] at hfits'
    obtain ⟨hopen, hlength⟩ := fits_concat.mp hfits'
    rw [List.length_append] at hlength
    exact absurd (fits_concat.mpr ⟨hopen, by omega⟩) hfits

/-- A line feed. -/
theorem Tracks.finishLine (h : Tracks fromStr bytes o) (hnewline : ∀ text, fromStr ('\n' :: text) = fromStr text)
    (hdone : fromStr "[DONE]".toList = none) : Tracks fromStr (bytes ++ [newline]) (o.finishLine fromStr) := by
  cases hblank : blank (openLine bytes) with
  | true =>
      obtain ⟨hevents, hevent, hline⟩ := splits_newline_of_blank hblank
      -- an event that starts anew has room
      have hnil : Fits ([] ++ [[]]) := fits_concat.mpr ⟨fits_nil, Nat.zero_le _⟩
      have hshort : (openLine bytes).length ≤ 1 := by
        rcases blank_iff.mp hblank with hempty | hreturn
        · rw [hempty]; decide
        · rw [hreturn]; decide
      by_cases hfits : Fits (openEvent bytes ++ [openLine bytes])
      · obtain ⟨hpassed, hnext⟩ := (h.keeps hfits).finishLine_of_blank hblank hnewline hdone
        refine ⟨?_, fun _ => by rwa [hevent, hline], fun hno => ?_⟩
        -- the event that ends here fitted, and is passed on if it has a value
        · have hopen := (fits_concat_of_blank hshort).mp hfits
          rw [hpassed, h.passed, hevents, List.filter_append, List.filterMap_append,
            List.filter_cons_of_pos (by simpa using hopen), List.filter_nil]
          cases hvalue : value fromStr (openEvent bytes) <;> simp [hvalue]
        · rw [hevent, hline] at hno
          exact absurd hnil hno
      · obtain ⟨hpassed, hnext⟩ := (h.discards hfits).finishLine fromStr
        rw [if_pos hblank] at hnext
        refine ⟨?_, fun _ => by rwa [hevent, hline], fun hno => ?_⟩
        -- it did not fit, and its end only makes room for the next one
        · have hopen := mt (fits_concat_of_blank hshort).mpr hfits
          rw [hpassed, h.passed, hevents, List.filter_append, List.filter_cons_of_neg (by simpa using hopen),
            List.filter_nil, List.append_nil]
        · rw [hevent, hline] at hno
          exact absurd hnil hno
  | false =>
      -- the line is one more of the event, and whether it fits has been decided by its bytes
      obtain ⟨hevents, hevent, hline⟩ := splits_newline hblank
      have hroom : Fits (openEvent bytes ++ [openLine bytes] ++ [[]]) ↔ Fits (openEvent bytes ++ [openLine bytes]) :=
        fits_concat_of_blank (Nat.zero_le _)
      by_cases hfits : Fits (openEvent bytes ++ [openLine bytes])
      · obtain ⟨hpassed, hnext⟩ := (h.keeps hfits).finishLine fromStr hblank hfits
        refine ⟨by rw [hpassed, h.passed, hevents], fun _ => by rwa [hevent, hline], fun hno => ?_⟩
        rw [hevent, hline] at hno
        exact absurd (hroom.mpr hfits) hno
      · obtain ⟨hpassed, hnext⟩ := (h.discards hfits).finishLine fromStr
        rw [if_neg (by simp [hblank])] at hnext
        refine ⟨by rw [hpassed, h.passed, hevents], fun hyes => ?_, fun _ => by rwa [hline]⟩
        rw [hevent, hline] at hyes
        exact absurd (hroom.mp hyes) hfits

/-- **Every stream is tracked**, from its first byte on. -/
theorem tracks_push (hnewline : ∀ text, fromStr ('\n' :: text) = fromStr text)
    (hdone : fromStr "[DONE]".toList = none) (bytes : Bytes) : Tracks fromStr bytes (push fromStr {} bytes) := by
  induction bytes using List.reverseRecOn with
  | nil => exact tracks_nil
  | append_singleton bytes byte ih =>
      rw [push, List.foldl_append]
      show Tracks fromStr (bytes ++ [byte]) ((push fromStr {} bytes).pushByte fromStr byte)
      by_cases hbyte : byte = History.newline
      · subst hbyte
        rw [SseObserver.pushByte, if_pos rfl]
        exact ih.finishLine hnewline hdone
      · exact ih.pushByte hbyte

/-- Chunks are pushed as their bytes are. -/
theorem foldl_push (chunks : List Bytes) (o : SseObserver) :
    chunks.foldl (push fromStr) o = push fromStr o chunks.flatten := List.foldl_flatten.symm

/-- What was observed has been passed on, and only that. -/
structure Observed (o : SseObserver) : Prop where
  state : o.state = (o.passed.foldl observe {}).state
  completionEvents : o.completionEvents = (o.passed.foldl observe {}).completionEvents

theorem Observed.observe (h : o.Observed) (value : StoreJson) : (o.observe value).Observed := by
  constructor
  · show (o.state.observeStream value).1 = ((o.passed ++ [value]).foldl SseObserver.observe {}).state
    rw [List.foldl_append, h.state]
    rfl
  · show _ = ((o.passed ++ [value]).foldl SseObserver.observe {}).completionEvents
    rw [List.foldl_append]
    unfold SseObserver.observe
    rw [h.state, h.completionEvents]
    rfl

/-- To keep a line is to observe nothing. -/
theorem keep_observes (o : SseObserver) (d : Bytes) : (o.keep d).state = o.state ∧
    (o.keep d).completionEvents = o.completionEvents ∧ (o.keep d).passed = o.passed := by
  unfold keep
  by_cases hroom : d.length + (if o.currentData.isEmpty then 0 else 1) > maxEventBytes - o.currentData.length
  · simp only [if_pos hroom]
    exact ⟨rfl, rfl, rfl⟩
  · simp only [if_neg hroom, and_self]

/-- Of what is observed, a byte changes nothing, or it ends an event. -/
theorem pushByte_observes (fromStr : List Char → Option StoreJson) (o : SseObserver) (byte : UInt8) :
    ∃ o' : SseObserver, (o' = o ∨ ∃ value, o' = o.observe value) ∧ (o.pushByte fromStr byte).state = o'.state ∧
      (o.pushByte fromStr byte).completionEvents = o'.completionEvents ∧
      (o.pushByte fromStr byte).passed = o'.passed := by
  unfold SseObserver.pushByte
  split
  · unfold SseObserver.finishLine
    split
    · exact ⟨o, .inl rfl, rfl, rfl, rfl⟩
    · dsimp only
      split
      · -- a blank line
        unfold classifyEvent
        split
        · dsimp only
          split
          · rename_i value _
            exact ⟨o.observe value, .inr ⟨value, rfl⟩, rfl, rfl, rfl⟩
          · exact ⟨o, .inl rfl, rfl, rfl, rfl⟩
        · exact ⟨o, .inl rfl, rfl, rfl, rfl⟩
      · split
        · obtain ⟨hstate, hcount, hpassed⟩ := keep_observes { o with currentLine := stripReturn o.currentLine } _
          exact ⟨o, .inl rfl, hstate, hcount, hpassed⟩
        · exact ⟨o, .inl rfl, rfl, rfl, rfl⟩
  · split
    · split <;> exact ⟨o, .inl rfl, rfl, rfl, rfl⟩
    · split <;> exact ⟨o, .inl rfl, rfl, rfl, rfl⟩

/-- So it is of any stream of bytes. -/
theorem observed_push (bytes : Bytes) : (push fromStr {} bytes).Observed := by
  induction bytes using List.reverseRecOn with
  | nil => exact ⟨rfl, rfl⟩
  | append_singleton bytes byte ih =>
      rw [push, List.foldl_append]
      show ((push fromStr {} bytes).pushByte fromStr byte).Observed
      obtain ⟨o', ho', hstate, hcount, hpassed⟩ := pushByte_observes fromStr (push fromStr {} bytes) byte
      have hobserved : o'.Observed := by
        rcases ho' with rfl | ⟨value, rfl⟩
        · exact ih
        · exact ih.observe value
      exact ⟨by rw [hstate, hpassed, hobserved.state], by rw [hcount, hpassed, hobserved.completionEvents]⟩

/-- The state is what the values make of it, one after the other. -/
theorem state_foldl_observe (values : List StoreJson) (o : SseObserver) :
    (values.foldl SseObserver.observe o).state =
      values.foldl (fun s value => (s.observeStream value).1) o.state := by
  induction values generalizing o with
  | nil => rfl
  | cons value values ih => exact ih (o.observe value)

/-- **The observer is the splitter.**  However a stream is cut into chunks, the values that go to `observe_stream` are
those of its events, in order, less the events that do not fit. -/
theorem passed_eq_events (hnewline : ∀ text, fromStr ('\n' :: text) = fromStr text)
    (hdone : fromStr "[DONE]".toList = none) (chunks : List Bytes) :
    (chunks.foldl (push fromStr) {}).passed = ((events chunks.flatten).filter (Fits ·)).filterMap (value fromStr) ∧
      (chunks.foldl (push fromStr) {}).state =
        (chunks.foldl (push fromStr) {}).passed.foldl (fun s value => (s.observeStream value).1) {} := by
  rw [foldl_push]
  exact ⟨(tracks_push hnewline hdone _).passed, (observed_push _).state.trans (state_foldl_observe _ _)⟩

end SseObserver

/-- A reader of the empty object. -/
def readEmptyObject (text : List Char) : Option StoreJson :=
  if text.dropWhile (· == '\n') = "\x7b\x7d".toList then some (.obj []) else none

namespace SseObserver

/-- Two chunks, cut inside a line. -/
theorem passed_eq_events_emptyObject :
    ([utf8 "data:\ndata: \x7b".toList, utf8 "\x7d\r\n\ndata: [DONE]\n\n".toList].foldl
      (push readEmptyObject) {}).passed = [Json.obj []] :=
  (passed_eq_events (fun _ => rfl) rfl _).1.trans rfl

end SseObserver

end Flock
