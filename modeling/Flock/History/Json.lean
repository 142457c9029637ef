/-
# Flock.History.Json — the record lines, written out.

The codec relies on `Serde.Faithful` of `serde_json`, and recovery on `Serde.Lexical`.  Here are the lines
themselves, compact and with the fields in the order of the structs, as a printer and its reader, and
both proved of them.  Metric values are exact rationals: a whole number prints as `serde_json` prints it,
a fraction as a quotient, which no `f64` needs.  The reader takes what the printer writes, after JSON
white space.
-/
import Mathlib.Data.List.TakeWhile
import Flock.Lib.Format
import Flock.History.Lines

namespace Flock.History

open Lib (Mark Block Format)

/-! ## The text of a record -/

namespace Json

/-- A `u64`. -/
def u64 : Format U64 :=
  Format.nat.convert (fun n => if h : n < 2 ^ 64 then some ⟨n, h⟩ else none) Fin.val fun n => by simp

theorem exists_cons_print_u64 (n : U64) : ∃ c cs, u64.print n = c :: cs ∧ c ≠ ']' := by
  obtain ⟨c, cs, hcons, hdigit⟩ := Format.exists_cons_print_nat n.val
  exact ⟨c, cs, hcons, fun h => absurd (h ▸ hdigit) (by decide)⟩

/-- A metric value: `2.0`, or a quotient. -/
def value : Format ℚ :=
  (Format.int.seq (Format.optional ⟨'.', ['0'], by decide, by decide⟩ ⟨'/', [], by decide, by decide⟩
    Format.nat (by decide))).convert
    (fun (num, den) => some (mkRat num (den.getD 1)))
    (fun q => (q.num, if q.den = 1 then none else some q.den)) (by
      intro q
      by_cases hwhole : q.den = 1
      · simpa [hwhole] using q.mkRat_self
      · simp [hwhole])

/-- `Vec<usize>`. -/
def numbers : Block (List U64) :=
  Format.lead ⟨'[', [], by decide, by decide⟩
    (Format.items u64 ']' (by decide) (by decide) (by decide) exists_cons_print_u64)

/-- `Capacity`. -/
def capacity : Format Capacity :=
  (Format.trail
    (((Format.lead ⟨'{', "\"capacity_rpm\":".toList, by decide, by decide⟩ u64).seq
      (Format.lead ⟨',', "\"enabled_keys\":".toList, by decide, by decide⟩ u64)).seq
      (Format.lead ⟨',', "\"key_rpms\":".toList, by decide, by decide⟩ numbers.toFormat))
    ⟨'}', [], by decide, by decide⟩).convert
    (fun ((rpm, keys), rpms) => some ⟨rpm, keys, rpms⟩)
    (fun c => ((c.capacityRpm, c.enabledKeys), c.keyRpms)) fun _ => rfl

/-- One label. -/
def label : Format (String × String) :=
  Format.quoted.seq (Format.lead ⟨':', [], by decide, by decide⟩ Format.quoted)

theorem exists_cons_print_label (l : String × String) : ∃ c cs, label.print l = c :: cs ∧ c ≠ '}' :=
  ⟨'"', _, rfl, by decide⟩

/-- `BTreeMap<String, String>`. -/
def labels : Format Labels :=
  (Format.lead ⟨'{', [], by decide, by decide⟩
    (Format.items label '}' (by decide) (by decide) (by decide) exists_cons_print_label)).convert
    (fun entries => some (entries.foldl (fun acc e => acc.insert e.1 e.2) ∅))
    (fun m => m.toList) fun m => congrArg some (Lib.foldl_insert_toList m)

/-- `EncodedStateEntry`. -/
def entry : Format (RawStateEntry ℚ) :=
  (Format.trail
    ((((Format.lead ⟨'{', "\"kind\":".toList, by decide, by decide⟩ Format.quoted).seq
      (Format.lead ⟨',', "\"metric\":".toList, by decide, by decide⟩ Format.quoted)).seq
      (Format.lead ⟨',', "\"labels\":".toList, by decide, by decide⟩ labels)).seq
      (Format.lead ⟨',', "\"value\":".toList, by decide, by decide⟩ value))
    ⟨'}', [], by decide, by decide⟩).convert
    (fun (((kind, metric), labels), value) => some ⟨kind, metric, labels, value⟩)
    (fun e => (((e.kind, e.metric), e.labels), e.value)) fun _ => rfl

theorem exists_cons_print_entry (e : RawStateEntry ℚ) : ∃ c cs, entry.print e = c :: cs ∧ c ≠ ']' :=
  ⟨'{', _, rfl, by decide⟩

/-- `Vec<EncodedStateEntry>`. -/
def state : Block (List (RawStateEntry ℚ)) :=
  Format.lead ⟨'[', [], by decide, by decide⟩
    (Format.items entry ']' (by decide) (by decide) (by decide) exists_cons_print_entry)

/-- `EncodedBoot`, `EncodedSample` and `EncodedCheckpoint`. -/
def record : Format (EncodedRecord ℚ) :=
  (((((((Format.lead ⟨'{', "\"format\":".toList, by decide, by decide⟩ Format.quoted).seq
    (Format.lead ⟨',', "\"v\":".toList, by decide, by decide⟩ u64)).seq
    (Format.lead ⟨',', "\"kind\":".toList, by decide, by decide⟩ Format.quoted)).seq
    (Format.lead ⟨',', "\"timestamp\":".toList, by decide, by decide⟩ u64)).seq
    (Format.lead ⟨',', "\"boot_id\":".toList, by decide, by decide⟩ Format.quoted)).seq
    (Format.lead ⟨',', "\"capacity\":".toList, by decide, by decide⟩ capacity)).seq
    (Format.optional ⟨'}', [], by decide, by decide⟩
      ⟨',', "\"state\":".toList, by decide, by decide⟩
      (state.toFormat.trail ⟨'}', [], by decide, by decide⟩) (by decide))).convert
    (fun ((((((format, v), kind), timestamp), bootId), capacity), state) =>
      some ⟨format, v, kind, timestamp, bootId, capacity, state⟩)
    (fun e => ((((((e.format, e.v), e.kind), e.timestamp), e.bootId), e.capacity), e.state))
    fun _ => rfl

end Json

/-! ## Bytes -/

/-- The UTF-8 bytes of a text. -/
def utf8 (text : List Char) : Bytes := text.flatMap String.utf8EncodeChar

/-- The text of some bytes, if they are UTF-8. -/
def ofUtf8 (line : Bytes) : Option (List Char) := line.toByteArray.utf8Decode?.map Array.toList

theorem utf8_append (text text' : List Char) : utf8 (text ++ text') = utf8 text ++ utf8 text' := List.flatMap_append

theorem ofUtf8_utf8 (text : List Char) : ofUtf8 (utf8 text) = some text := by
  have h : (utf8 text).toByteArray.utf8Decode? = some text.toArray := List.utf8Decode?_utf8Encode
  simp [ofUtf8, h]

theorem validUtf8_utf8 (text : List Char) : validUtf8 (utf8 text) = true :=
  ByteArray.validateUTF8_eq_true_iff.mpr ByteArray.isValidUTF8_utf8Encode

/-- An ASCII byte stands for nothing but its own character. -/
theorem eq_newline_of_mem_utf8EncodeChar {c : Char} (h : newline ∈ String.utf8EncodeChar c) :
    c = '\n' := by
  obtain ⟨i, hi, hbyte⟩ := List.mem_iff_getElem.mp h
  have hfirst : (String.utf8EncodeChar c)[i].IsUTF8FirstByte := by
    rw [hbyte]
    decide
  obtain rfl := UInt8.isUTF8FirstByte_getElem_utf8EncodeChar.mp hfirst
  -- the text then starts with a line feed, and decoding it gives that
  have hsplit : String.utf8EncodeChar c =
      String.utf8EncodeChar '\n' ++ (String.utf8EncodeChar c).tail := by
    rw [← List.cons_head_tail String.utf8EncodeChar_ne_nil, List.head_eq_getElem, hbyte]
    rfl
  have hdecode : ByteArray.utf8DecodeChar? (String.utf8EncodeChar c).toByteArray 0 = some c := by
    simpa using ByteArray.utf8DecodeChar?_utf8EncodeChar_append (b := ByteArray.empty) (c := c)
  rw [hsplit, List.toByteArray_append, ByteArray.utf8DecodeChar?_utf8EncodeChar_append] at hdecode
  exact (Option.some.inj hdecode).symm

theorem newline_notMem_utf8 {text : List Char} (h : '\n' ∉ text) : newline ∉ utf8 text := by
  intro hmem
  obtain ⟨c, hc, hbyte⟩ := List.mem_flatMap.mp hmem
  exact h (eq_newline_of_mem_utf8EncodeChar hbyte ▸ hc)

/-- The bytes of a text start the bytes of another only if it starts the other. -/
theorem chars_of_utf8 : ∀ {text text' : List Char}, utf8 text <+: utf8 text' → text <+: text'
  | [], _, _ => List.nil_prefix
  | c :: rest, [], h => by
      have hnil : utf8 (c :: rest) = [] := List.prefix_nil.mp h
      simp [utf8, String.utf8EncodeChar_ne_nil] at hnil
  | c :: rest, c' :: rest', h => by
      obtain ⟨more, hmore⟩ := h
      have hbytes : String.utf8EncodeChar c ++ (utf8 rest ++ more) =
          String.utf8EncodeChar c' ++ utf8 rest' := by
        simpa [utf8] using hmore
      -- both sides decode to their own first character
      have hfirst := congrArg (fun bytes : Bytes => bytes.toByteArray.utf8DecodeChar? 0) hbytes
      simp only [List.toByteArray_append, ByteArray.utf8DecodeChar?_utf8EncodeChar_append,
        Option.some.injEq] at hfirst
      subst hfirst
      have hrest : utf8 rest <+: utf8 rest' := ⟨more, List.append_cancel_left hbytes⟩
      exact List.cons_prefix_cons.mpr ⟨rfl, chars_of_utf8 hrest⟩

/-! ## The codec's JSON -/

/-- White space of JSON: no form feed. -/
def isJsonSpace (b : UInt8) : Bool := b == 32 || b == 9 || b == 10 || b == 13

namespace Json

theorem closed_record : record.Closed := by
  refine Format.Closed.convert (Format.Closed.seq (Format.Closed.optional ?_ _) _) _
  exact Format.closed_trail _ _

/-- Read a line. -/
def parse (line : Bytes) : Option (EncodedRecord ℚ) :=
  let line := line.dropWhile isJsonSpace
  match (ofUtf8 line).bind record.read with
  | some (e, []) => if utf8 (record.print e) = line then some e else none
  | _ => none

theorem parse_print (e : EncodedRecord ℚ) : parse (utf8 (record.print e)) = some e := by
  have hstart : (utf8 (record.print e)).dropWhile isJsonSpace = utf8 (record.print e) := rfl
  have hread := closed_record e []
  rw [List.append_nil] at hread
  simp [parse, hstart, ofUtf8_utf8, hread]

/-- What is read was printed, after white space. -/
theorem print_of_parse {line : Bytes} {e : EncodedRecord ℚ} (h : parse line = some e) :
    utf8 (record.print e) = line.dropWhile isJsonSpace := by
  rw [parse] at h
  split at h
  · split at h
    · rename_i heq
      obtain rfl := Option.some.inj h
      exact heq
    · cases h
  · cases h

end Json

/-- The lines of the canonical history. -/
def json : Serde ℚ where
  toVec e := some (utf8 (Json.record.print e))
  fromSlice line :=
    match Json.parse line with
    | some e => .ok e.toRaw
    | none => .error ⟨line.isEmpty, !line.isEmpty, false⟩
  trustworthyTimestamp line := (Json.parse line).map EncodedRecord.timestamp

/-- **The codec's JSON is faithful.** -/
theorem json_faithful : json.Faithful where
  isSome_toVec _ := rfl
  validUtf8_of_toVec := by
    rintro e _ ⟨⟩
    exact validUtf8_utf8 _
  newline_notMem_of_toVec := by
    rintro e _ ⟨⟩
    exact newline_notMem_utf8 (Json.record.oneLine e)
  head_of_toVec := by
    rintro e _ ⟨⟩
    rfl
  fromSlice_of_toVec := by
    rintro e _ - ⟨⟩
    simp [json, Json.parse_print]

theorem json_fromSlice_eq_ok {line : Bytes} {raw : RawRecord ℚ} (h : json.fromSlice line = .ok raw) :
    ∃ e, Json.parse line = some e ∧ raw = e.toRaw := by
  simp only [json] at h
  split at h
  · rename_i e heq
    exact ⟨e, heq, (Except.ok.inj h).symm⟩
  · cases h

/-- **The codec's JSON can be cut and joined.** -/
theorem json_lexical : json.Lexical where
  trustworthyTimestamp_of_toVec := by
    intro _ line raw _ h
    obtain ⟨e, hparse, rfl⟩ := json_fromSlice_eq_ok h
    simp [json, hparse, EncodedRecord.toRaw]
  fromSlice_space := by
    intro space line raw hspace h
    obtain ⟨e, hparse, rfl⟩ := json_fromSlice_eq_ok h
    cases hjson : space.all isJsonSpace with
    | true =>
        have hdrop : (space ++ line).dropWhile isJsonSpace = line.dropWhile isJsonSpace :=
          List.dropWhile_append_of_pos (List.all_eq_true.mp hjson)
        refine .inl ?_
        have hsame : Json.parse (space ++ line) = Json.parse line := by
          simp only [Json.parse, hdrop]
        simp [json, hsame, hparse]
    | false =>
        -- what is left of the white space is no white space of JSON, and no record starts with it
        have hleft : space.dropWhile isJsonSpace ≠ [] := by
          intro hnil
          have hall := List.all_eq_true.mpr (List.dropWhile_eq_nil_iff.mp hnil)
          rw [hjson] at hall
          cases hall
        refine .inr ⟨⟨(space ++ line).isEmpty, !(space ++ line).isEmpty, false⟩, ?_⟩
        cases hother : Json.parse (space ++ line) with
        | none => simp [json, hother]
        | some e' =>
            have hprint := Json.print_of_parse hother
            obtain ⟨b, rest, hrest⟩ := List.exists_cons_of_ne_nil hleft
            have hmem : b ∈ space := (List.dropWhile_sublist isJsonSpace).mem (by simp [hrest])
            rw [List.dropWhile_append, hrest] at hprint
            have hb : b = 0x7b := (List.head_eq_of_cons_eq hprint).symm
            exact absurd (List.all_eq_true.mp hspace b hmem) (by simp [hb, isAsciiWhitespace])
  fromSlice_of_prefix := by
    rintro e _ cut ⟨⟩ hcut hne
    refine ⟨⟨cut.isEmpty, !cut.isEmpty, false⟩, ?_⟩
    cases hparse : Json.parse cut with
    | none => simp [json, hparse]
    | some e' =>
        have hprint := Json.print_of_parse hparse
        have hstart : cut.dropWhile isJsonSpace = cut := by
          obtain ⟨rest, hrest⟩ := hcut
          cases cut with
          | nil => rfl
          | cons b more =>
              have hb : b = 0x7b := List.head_eq_of_cons_eq hrest
              rw [hb]
              rfl
        rw [hstart] at hprint
        rw [← hprint] at hcut
        have hsame : e' = e := Json.closed_record.eq_of_prefix (chars_of_utf8 hcut)
        rw [hsame] at hprint
        exact absurd hprint.symm hne

/-! ## The codec -/

/-- **The canonical codec.** A record is refused for a value that is not finite or a series that occurs
twice, and for nothing else; any other has a line without a line feed, which decodes to the record.  Every
line that decodes holds a record that has a line of its own. -/
theorem codec_round_trips {ν : Type} [F64 ν] {S : Serde ν} (hS : S.Faithful) :
    (∀ r : Record ν, (∃ error, encodeRecord S r = .error error) ↔ r.Refused) ∧
      (∀ (r : Record ν) (line : Bytes), encodeRecord S r = .ok line →
        newline ∉ line ∧ decodeRecord S line = .ok r) ∧
      ∀ (line : Bytes) (r : Record ν), decodeRecord S line = .ok r →
        ∃ line', encodeRecord S r = .ok line' ∧ decodeRecord S line' = .ok r := by
  refine ⟨?_, ?_, ?_⟩
  · intro r
    constructor
    · rintro ⟨error, herror⟩
      by_contra hnot
      obtain ⟨line, hline, -⟩ := hS.restores ((encodable_iff_not_refused r).mpr hnot)
      rw [herror] at hline
      cases hline
    · intro hrefused
      cases hencode : encodeRecord S r with
      | error error => exact ⟨error, rfl⟩
      | ok line =>
          have hencodable := encodable_of_encodeRecord hencode
          exact absurd hrefused ((encodable_iff_not_refused r).mp hencodable)
  · intro r line hline
    obtain ⟨line', hline', hnewline, -, hdecode⟩ := hS.restores (encodable_of_encodeRecord hline)
    obtain rfl : line = line' := Except.ok.inj (hline.symm.trans hline')
    exact ⟨hnewline, hdecode⟩
  · intro line r hdecode
    obtain ⟨hencodable, -⟩ := decodeRecord_eq_ok hdecode
    obtain ⟨line', hline', -, -, hdecode'⟩ := hS.restores hencodable
    exact ⟨line', hline', hdecode'⟩

/-- A gauge. -/
def sampledGauge : StateEntry ℚ := ⟨.gauge, "g", ∅, 2⟩

/-- Sampled twice it is refused, and once it is written and read back. -/
theorem codec_round_trips_json :
    (∃ error, encodeRecord json (.sample ⟨7, "a", ⟨40, 1, [40]⟩, [sampledGauge, sampledGauge]⟩) =
      .error error) ∧
      ∃ line, encodeRecord json (.sample ⟨7, "a", ⟨40, 1, [40]⟩, [sampledGauge]⟩) = .ok line ∧
        newline ∉ line ∧
        decodeRecord json line = .ok (.sample ⟨7, "a", ⟨40, 1, [40]⟩, [sampledGauge]⟩) := by
  obtain ⟨hrefused, hread, -⟩ := codec_round_trips json_faithful
  refine ⟨(hrefused _).mpr (.inr (by simp)), ?_⟩
  have hline : encodeRecord json (.sample ⟨7, "a", ⟨40, 1, [40]⟩, [sampledGauge]⟩) =
      .ok (utf8 (Json.record.print
        ⟨format, version, "sample", 7, "a", ⟨40, 1, [40]⟩, some [sampledGauge.encoded]⟩)) := rfl
  exact ⟨_, hline, hread _ _ hline⟩

end Flock.History
