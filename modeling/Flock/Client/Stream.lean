/-
# Flock.Client.Stream — how the TypeScript SDK reads a stream.

`stream` decodes what arrives, cuts it at its line feeds, and yields the JSON value of each `data: ` line but the
marker's; a line that is not over waits for the rest of it.  What is yielded depends on the bytes alone, not on the
chunks they arrive in (`read_eq`).

Behind the proxy these are the bytes of `Streaming.Relay`.  The SDK passes over the comments, and yields what the
upstream's bytes yield (`sdk_reads_relay`).

`JSON.parse` is a parameter.
-/
import Flock.Client.KeyPool
import Flock.Streaming.Relay
import Flock.Text.Decoder

namespace Flock.Client

open History (Bytes)
open Lib (closedPieces openPiece pieces_append pieces_append_of_closed pieces_of_closed pieces_concat_of_pos
  pieces_concat_of_neg)
open Streaming (Frame Relay proxyErrorJson relaySystem)
open Text (TextDecoder byteOrderMark readBytes replacement)

universe u

variable {V : Type u} (parse : List Char → Option V)

/-! ## The reader -/

/-- The loop body over the lines. -/
def streamValue (line : List Char) : Option V :=
  let trimmed := Sdk.typescript.trim (String.ofList line)
  if trimmed = "" ∨ trimmed = "data: [DONE]" then none
  else (List.isPrefixOf? "data: ".toList trimmed.toList).bind parse

/-- The values of the lines that are over. -/
def streamValues (text : List Char) : List V := (closedPieces (· == '\n') text).filterMap (streamValue parse)

/-- The locals of `stream`, and what it has yielded. -/
structure SdkStream (V : Type u) where
  decoder : TextDecoder := {}
  buffer : List Char := []
  yielded : List V := []

namespace SdkStream

/-- The loop body over what `reader.read()` returns. -/
def push (s : SdkStream V) (value : Bytes) : SdkStream V :=
  let (decoder, text) := s.decoder.decode value
  { decoder
    buffer := openPiece (· == '\n') (s.buffer ++ text)
    yielded := s.yielded ++ streamValues parse (s.buffer ++ text) }

/-- `stream`, as far as it has read. -/
def read (chunks : List Bytes) : SdkStream V := chunks.foldl (push parse) {}

end SdkStream

/-! ## Chunks -/

variable {parse}

theorem streamValues_append {text : List Char} (h : openPiece (· == '\n') text = []) (rest : List Char) :
    streamValues parse (text ++ rest) = streamValues parse text ++ streamValues parse rest := by
  unfold streamValues
  rw [(pieces_append_of_closed h rest).1, List.filterMap_append]

theorem streamValues_line {line : List Char} (h : '\n' ∉ line) (rest : List Char) :
    streamValues parse (line ++ '\n' :: rest) = (streamValue parse line).toList ++ streamValues parse rest := by
  have hline : ∀ c ∈ line, (c == '\n') = false := by
    intro c hc
    rw [beq_eq_false_iff_ne]
    rintro rfl
    exact h hc
  obtain ⟨hclosed, hopen⟩ := pieces_of_closed hline (by simp : ('\n' == '\n') = true)
  have hsplit : line ++ '\n' :: rest = line ++ ['\n'] ++ rest := by simp
  have hvalue : streamValues parse (line ++ ['\n']) = (streamValue parse line).toList := by
    unfold streamValues
    rw [hclosed]
    cases hline' : streamValue parse line <;> simp [hline']
  rw [hsplit, streamValues_append hopen, hvalue]

/-- **What is read depends on the bytes alone.** -/
theorem SdkStream.read_eq (chunks : List Bytes) : SdkStream.read parse chunks =
    { decoder := (({} : TextDecoder).decode chunks.flatten).1
      buffer := openPiece (· == '\n') (({} : TextDecoder).decode chunks.flatten).2
      yielded := streamValues parse (({} : TextDecoder).decode chunks.flatten).2 } := by
  induction chunks using List.reverseRecOn with
  | nil => rfl
  | append_singleton chunks value ih =>
      have hstep : SdkStream.read parse (chunks ++ [value]) = (SdkStream.read parse chunks).push parse value := by
        simp [SdkStream.read]
      rw [hstep, ih, List.flatten_concat, TextDecoder.decode_append]
      set text := (({} : TextDecoder).decode chunks.flatten).2
      set decoder := (({} : TextDecoder).decode chunks.flatten).1
      obtain ⟨hclosed, hopen⟩ := pieces_append (p := (· == '\n')) text (decoder.decode value).2
      unfold SdkStream.push streamValues
      rw [hclosed, hopen, List.filterMap_append]

theorem readBytes_utf8 (text : List Char) : readBytes [] (History.utf8 text) = ([], text) := Text.readBytes_utf8 text

/-- **The cut does not matter.**  The SDK reads a response as if it had come in one chunk; and where its bytes are
UTF-8, wherever they are cut, inside a character or inside a line, it yields what the lines of the text yield, but for
a byte order mark in front. -/
theorem sdk_stream_cut (chunks : List Bytes) :
    SdkStream.read parse chunks = SdkStream.read parse [chunks.flatten] ∧
    ∀ text, chunks.flatten = History.utf8 text → (SdkStream.read parse chunks).yielded =
      streamValues parse (if text.head? = some byteOrderMark then text.tail else text) := by
  refine ⟨?_, fun text htext => ?_⟩
  · rw [SdkStream.read_eq, SdkStream.read_eq, List.flatten_singleton]
  · rw [SdkStream.read_eq, htext, TextDecoder.decode_start, readBytes_utf8]

/-- An event of one accented letter. -/
def accented : List Char := ['d', 'a', 't', 'a', ':', ' ', '"', Char.ofNat 0xE9, '"', '\n', '\n']

/-- The letter is cut in two. -/
theorem sdk_stream_cut_inside :
    (SdkStream.read some [(History.utf8 accented).take 8, (History.utf8 accented).drop 8]).yielded =
      [['"', Char.ofNat 0xE9, '"']] :=
  ((sdk_stream_cut _).2 accented (by decide)).trans (by decide)

/-! ## Behind the proxy -/

/-- The bytes end between two characters, and their text between two lines. -/
def Ended (bytes : Bytes) : Prop := (readBytes [] bytes).1 = [] ∧ openPiece (· == '\n') (readBytes [] bytes).2 = []

theorem Ended.append {bytes rest : Bytes} (h : Ended bytes) (hrest : Ended rest) : Ended (bytes ++ rest) := by
  obtain ⟨hpending, hopen⟩ := h
  unfold Ended
  rw [Text.readBytes_append, hpending]
  exact ⟨hrest.1, (pieces_append_of_closed hopen _).2.trans hrest.2⟩

theorem Ended.values {bytes : Bytes} (h : Ended bytes) (rest : Bytes) :
    streamValues parse (readBytes [] (bytes ++ rest)).2 =
      streamValues parse (readBytes [] bytes).2 ++ streamValues parse (readBytes [] rest).2 := by
  rw [Text.readBytes_append, h.1, streamValues_append h.2]

/-- A line feed at the end. -/
theorem ended_of_openLine {bytes : Bytes} (h : Sse.openLine bytes = []) : Ended bytes := by
  induction bytes using List.reverseRecOn with
  | nil => exact ⟨rfl, rfl⟩
  | append_singleton front b _ =>
      by_cases hb : b = History.newline
      · subst hb
        have hbyte : readBytes (readBytes [] front).1 [History.newline] =
            ([], (if (readBytes [] front).1 = [] then [] else [replacement]) ++ ['\n']) := by
          rw [readBytes, readBytes, History.newline, Text.readByte_newline, List.append_nil]
        unfold Ended
        rw [Text.readBytes_append, hbyte, ← List.append_assoc]
        exact ⟨rfl, (pieces_concat_of_pos (p := (· == '\n')) (a := '\n') (by simp) _).2⟩
      · rw [(Sse.splits_byte hb front).2.2] at h
        simp at h

theorem streamValues_newline (rest : List Char) : streamValues parse ('\n' :: rest) = streamValues parse rest :=
  @streamValues_line V parse [] List.not_mem_nil rest

/-- A comment. -/
theorem comment_values (line : List Char) (hline : '\n' ∉ line) (hvalue : streamValue parse line = none) :
    Ended (History.utf8 (line ++ ['\n', '\n'])) ∧
      streamValues parse (readBytes [] (History.utf8 (line ++ ['\n', '\n']))).2 = [] := by
  rw [Ended, readBytes_utf8]
  refine ⟨⟨rfl, ?_⟩, ?_⟩
  · have hsplit : line ++ ['\n', '\n'] = (line ++ ['\n']) ++ ['\n'] := by simp
    rw [hsplit]
    exact (pieces_concat_of_pos (p := (· == '\n')) (a := '\n') (by simp) _).2
  · rw [streamValues_line hline, hvalue, streamValues_newline]
    rfl

theorem control_values (parse : List Char → Option V) {f : Frame} (h : f.control = true) :
    Ended f.bytes ∧ streamValues parse (readBytes [] f.bytes).2 = [] := by
  cases f with
  | connected => exact comment_values ": connected".toList (by decide) rfl
  | heartbeat => exact comment_values ": heartbeat".toList (by decide) rfl
  | retrying => exact comment_values ": retrying".toList (by decide) rfl
  | chunk _ | error _ _ => cases h

/-- A `data: ` line that ends with a brace. -/
theorem streamValue_data (front : List Char) :
    streamValue parse ("data: ".toList ++ (front ++ ['\x7d'])) = parse (front ++ ['\x7d']) := by
  set line := "data: ".toList ++ (front ++ ['\x7d']) with hline
  have hstart : line = 'd' :: ("ata: ".toList ++ (front ++ ['\x7d'])) := rfl
  have hend : line.reverse = '\x7d' :: ("data: ".toList ++ front).reverse := by simp [hline]
  have htrim : Sdk.typescript.trim (String.ofList line) = String.ofList line := by
    unfold Sdk.trim
    rw [String.toList_ofList, hstart, List.dropWhile_cons_of_neg (by decide), ← hstart, hend,
      List.dropWhile_cons_of_neg (by decide), ← hend, List.reverse_reverse]
  have hmarker : ¬(String.ofList line = "" ∨ String.ofList line = "data: [DONE]") := by
    rintro (hempty | hdone)
    · have hnil := congrArg String.toList hempty
      rw [String.toList_ofList, hstart] at hnil
      cases hnil
    · have hlast := congrArg (fun s => s.toList.reverse.head?) hdone
      simp only [String.toList_ofList, hend, List.head?_cons] at hlast
      exact absurd (Option.some.inj hlast) (by decide)
  have hfield : List.isPrefixOf? "data: ".toList (String.ofList line).toList = some (front ++ ['\x7d']) :=
    List.isPrefixOf?_eq_some_iff_append_eq.mpr String.toList_ofList.symm
  unfold streamValue
  rw [htrim]
  exact (if_neg hmarker).trans (by rw [hfield, Option.bind_some])

/-- The text of an error yields the error, and nothing for the marker. -/
theorem error_values (code message : String) : streamValues parse (readBytes [] (Frame.error code message).bytes).2 =
    (parse (proxyErrorJson code message).toList).toList := by
  obtain ⟨hline, front, hfront⟩ := Frame.proxyErrorJson_line code message
  have htext : ("data: " ++ proxyErrorJson code message ++ "\n\ndata: [DONE]\n\n").toList =
      ("data: ".toList ++ (proxyErrorJson code message).toList) ++
        '\n' :: '\n' :: ("data: [DONE]".toList ++ ['\n', '\n']) := by
    simp only [String.toList_append]
    rfl
  have hdata : '\n' ∉ "data: ".toList ++ (proxyErrorJson code message).toList := by
    rw [List.mem_append, not_or]
    exact ⟨by decide, hline⟩
  have hdone : streamValue parse "data: [DONE]".toList = none := rfl
  have hbytes : (Frame.error code message).bytes = History.utf8 _ := congrArg History.utf8 htext
  rw [hbytes, readBytes_utf8, streamValues_line hdata, streamValues_newline, streamValues_line (by decide), hdone,
    streamValues_newline, hfront, streamValue_data]
  exact List.append_nil _

theorem controls_values (parse : List Char → Option V) {controls : List Frame} (h : ∀ f ∈ controls, f.control = true) :
    Ended (controls.flatMap Frame.bytes) ∧ streamValues parse (readBytes [] (controls.flatMap Frame.bytes)).2 = [] := by
  induction controls with
  | nil => exact ⟨⟨rfl, rfl⟩, rfl⟩
  | cons f controls ih =>
      obtain ⟨hended, hnone⟩ := control_values parse (h f List.mem_cons_self)
      obtain ⟨hended', hnone'⟩ := ih fun f' hf' => h f' (List.mem_cons_of_mem f hf')
      rw [List.flatMap_cons]
      exact ⟨hended.append hended', by rw [hended.values, hnone, hnone']; rfl⟩

section Relayed

variable {statusText : ℕ → String} {cfg : StreamConfig} {r : Relay} {controls tail : List Frame}
  {sent chunks : List Bytes}

/-- The text of a body does not start with a byte order mark: it starts with a comment, or with an error. -/
theorem body_head (hlog : r.Log controls sent tail) (htail : tail = [] ∨ ∃ code message, tail = [.error code message]) :
    (readBytes [] r.body).2.head? ≠ some byteOrderMark := by
  rw [hlog.body_eq]
  rcases hlog.connected with ⟨rfl, rfl⟩ | hfirst
  · rcases htail with rfl | ⟨code, message, rfl⟩
    · simp [readBytes]
    · have hbytes : (Frame.error code message).bytes = History.utf8 _ := rfl
      simp only [List.flatMap_nil, List.flatten_nil, List.nil_append, List.flatMap_singleton, hbytes, readBytes_utf8,
        String.toList_append, List.append_assoc]
      exact fun hmark => absurd (Option.some.inj hmark) (by decide)
  · obtain ⟨first, rest, rfl⟩ := List.exists_cons_of_ne_nil (l := controls) (by rintro rfl; cases hfirst)
    obtain rfl := Option.some.inj hfirst
    have hbytes : Frame.connected.bytes = History.utf8 _ := rfl
    rw [List.flatMap_cons, List.append_assoc, Text.readBytes_append, hbytes, readBytes_utf8]
    exact fun hmark => absurd (Option.some.inj hmark) (by decide)

/-- The comments yield nothing. -/
theorem read_log (hlog : r.Log controls sent tail) (htail : tail = [] ∨ ∃ code message, tail = [.error code message])
    (hbody : chunks.flatten = r.body) : (SdkStream.read parse chunks).yielded =
      streamValues parse (readBytes [] (sent.flatten ++ tail.flatMap Frame.bytes)).2 := by
  obtain ⟨hended, hnone⟩ := controls_values parse hlog.plain
  rw [SdkStream.read_eq, hbody, TextDecoder.decode_start, if_neg (body_head hlog htail), hlog.body_eq, hended.values,
    hnone, List.nil_append]

/-- **What the SDK yields behind the proxy.**  However the body is cut: as long as no error was sent it yields what the
upstream's bytes yield, whatever comments were sent before them; where the stream is reported as completed they are all
of the upstream's; and an error that was sent after a whole line is yielded after them, and the marker is not. -/
theorem sdk_reads_relay (h : (relaySystem statusText cfg).Reachable r) (hbody : chunks.flatten = r.body) :
    ((∀ code message, Frame.error code message ∉ r.sent) →
      (SdkStream.read parse chunks).yielded = streamValues parse (readBytes [] r.relayed).2) ∧
    (.completed ∈ r.task.finalised →
      (SdkStream.read parse chunks).yielded = streamValues parse (readBytes [] r.upstream.flatten).2) ∧
    ∀ front code message, r.sent = front ++ [.error code message] → Sse.openLine r.relayed = [] →
      (SdkStream.read parse chunks).yielded =
        streamValues parse (readBytes [] r.relayed).2 ++ (parse (proxyErrorJson code message).toList).toList := by
  obtain ⟨⟨controls, sent, tail, hlog, hstage, hcompleted⟩, -, -⟩ := Relay.exact_of_reachable h
  have hended := Relay.Stage.ended hstage
  have hquiet : tail = [] →
      (SdkStream.read parse chunks).yielded = streamValues parse (readBytes [] sent.flatten).2 := by
    rintro rfl
    simpa using read_log hlog hended hbody
  refine ⟨fun hnone => ?_, fun hmem => ?_, fun front code message hlast hwhole => ?_⟩
  · have htail := hlog.tail_eq_nil hended hnone
    rw [hquiet htail, hlog.relayed (by rw [htail]; rfl)]
  · obtain ⟨-, hall, htail⟩ := hcompleted hmem
    rw [hquiet htail, hall]
  · have htail := hlog.tail_eq_error hended hlast
    have hrelayed : r.relayed = sent.flatten := hlog.relayed (by rw [htail]; rfl)
    rw [hrelayed] at hwhole ⊢
    rw [read_log hlog hended hbody, htail, (ended_of_openLine hwhole).values, List.flatMap_singleton, error_values]

/-- An upstream that breaks off, read byte by byte. -/
theorem sdk_reads_relay_interrupted : ∃ r, (relaySystem toString Relay.unhurried).Reachable r ∧
    (SdkStream.read some (r.body.map fun b => [b])).yielded = streamValues some (readBytes [] r.relayed).2 ++
      [(proxyErrorJson "upstream_unavailable" "upstream stream interrupted").toList] := by
  obtain ⟨r, hreach, hwhole, front, hsent⟩ := Relay.exists_interrupted
  have hbody : (r.body.map fun b => [b]).flatten = r.body := by rw [← List.flatMap_def, List.flatMap_singleton']
  exact ⟨r, hreach, (sdk_reads_relay hreach hbody).2.2 front _ _ hsent hwhole.2⟩

end Relayed

end Flock.Client
