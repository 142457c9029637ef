/-
# Flock.History.Rereading — a number that comes back as its neighbour.

The workspace builds `serde_json` without `float_roundtrip`.  It writes the shortest digits that name a float,
and reads digits as an integer, rounded to a float, divided by a power of ten, rounded again.  For most floats
the two roundings meet; for some of sixteen or seventeen digits they do not, and the line of a sample is read
as a sample with another value.

`rereadingJson` is the codec's JSON with one such number.  It has everything that `serde_json` has
(`Serde.Plain`, `Serde.Lexical`); what it lacks is `Serde.Faithful`.
-/
import Flock.History.Appends
import Flock.Lib.Binary64

namespace Flock.History

open Lib (nearest)

/-- `31.245270191439438`. -/
def seventeenDigits : ℚ := 31245270191439438 / 10 ^ 15

/-- `31.24527019143944`, the float above it. -/
def sixteenDigits : ℚ := 3124527019143944 / 10 ^ 14

/-- They are two floats. -/
example : nearest seventeenDigits ≠ nearest sixteenDigits := by decide +kernel

/-- The integer of the longer one has no float of its own, and what it is rounded to, divided, is the shorter
one. -/
example : nearest (nearest 31245270191439438 / 10 ^ 15) = nearest sixteenDigits := by decide +kernel

/-- What `serde_json` reads for the digits of a number. -/
def reread (value : ℚ) : ℚ := if value = seventeenDigits then sixteenDigits else value

/-- The same of an entry. -/
def RawStateEntry.reread (e : RawStateEntry ℚ) : RawStateEntry ℚ := { e with value := History.reread e.value }

/-- The same of a line's fields. -/
def RawRecord.reread (raw : RawRecord ℚ) : RawRecord ℚ :=
  { raw with
    state := match raw.state with
      | .missing => .missing
      | .null => .null
      | .entries state => .entries (state.map RawStateEntry.reread) }

/-- The JSON of the codec, read as `serde_json` reads it. -/
def rereadingJson : Serde ℚ := { json with fromSlice := fun line => (json.fromSlice line).map RawRecord.reread }

theorem rereadingJson_fromSlice_of_ok {line : Bytes} {raw : RawRecord ℚ} (h : json.fromSlice line = .ok raw) :
    rereadingJson.fromSlice line = .ok raw.reread := by
  simp only [rereadingJson, h]
  rfl

theorem rereadingJson_fromSlice_of_error {line : Bytes} {error : SerdeError}
    (h : json.fromSlice line = .error error) : rereadingJson.fromSlice line = .error error := by
  simp only [rereadingJson, h]
  rfl

theorem rereadingJson_fromSlice_eq_ok {line : Bytes} {raw : RawRecord ℚ}
    (h : rereadingJson.fromSlice line = .ok raw) : ∃ raw', json.fromSlice line = .ok raw' ∧ raw = raw'.reread := by
  cases hslice : json.fromSlice line with
  | error error =>
      rw [rereadingJson_fromSlice_of_error hslice] at h
      cases h
  | ok raw' =>
      rw [rereadingJson_fromSlice_of_ok hslice] at h
      exact ⟨raw', rfl, (Except.ok.inj h).symm⟩

/-- A line of the codec is read as what was written, its numbers apart. -/
theorem rereadingJson_fromSlice_of_toVec {e : EncodedRecord ℚ} {line : Bytes}
    (h : rereadingJson.toVec e = some line) : rereadingJson.fromSlice line = .ok e.toRaw.reread :=
  rereadingJson_fromSlice_of_ok (json_faithful.fromSlice_of_toVec e line (fun _ _ _ _ => rfl) h)

/-- It is a JSON as the history needs one: whatever has no number is read back. -/
theorem rereadingJson_plain : rereadingJson.Plain where
  isSome_toVec := json_faithful.isSome_toVec
  validUtf8_of_toVec := json_faithful.validUtf8_of_toVec
  newline_notMem_of_toVec := json_faithful.newline_notMem_of_toVec
  head_of_toVec := json_faithful.head_of_toVec
  fromSlice_of_bare := by
    intro e line hbare hvec
    rw [rereadingJson_fromSlice_of_toVec hvec]
    obtain ⟨format, v, kind, timestamp, bootId, capacity, state⟩ := e
    cases state with
    | none => rfl
    | some state =>
        obtain rfl : state = [] := hbare state rfl
        rfl
  header_of_fromSlice := by
    intro e line raw _ hvec hslice
    obtain rfl : e.toRaw.reread = raw :=
      Except.ok.inj ((rereadingJson_fromSlice_of_toVec hvec).symm.trans hslice)
    exact ⟨rfl, rfl⟩

/-- And it reads lines as lines: what is added in front of one or cut off it is noticed. -/
theorem rereadingJson_lexical : rereadingJson.Lexical where
  trustworthyTimestamp_of_toVec := by
    intro e line raw hvec hslice
    obtain ⟨raw', hslice', rfl⟩ := rereadingJson_fromSlice_eq_ok hslice
    exact json_lexical.trustworthyTimestamp_of_toVec e line raw' hvec hslice'
  fromSlice_space := by
    intro space line raw hspace hslice
    obtain ⟨raw', hslice', rfl⟩ := rereadingJson_fromSlice_eq_ok hslice
    rcases json_lexical.fromSlice_space space line raw' hspace hslice' with hsame | ⟨error, herror⟩
    · exact .inl (rereadingJson_fromSlice_of_ok hsame)
    · exact .inr ⟨error, rereadingJson_fromSlice_of_error herror⟩
  fromSlice_of_prefix := by
    intro e line cut hvec hcut hne
    obtain ⟨error, herror⟩ := json_lexical.fromSlice_of_prefix e line cut hvec hcut hne
    exact ⟨error, rereadingJson_fromSlice_of_error herror⟩

/-! ## The record a line is read as -/

/-- An entry as its line is read. -/
def StateEntry.reread (e : StateEntry ℚ) : StateEntry ℚ := { e with value := History.reread e.value }

/-- A record as its line is read. -/
def Record.reread : Record ℚ → Record ℚ
  | .boot r => .boot r
  | .sample r => .sample { r with state := r.state.map StateEntry.reread }
  | .checkpoint r => .checkpoint r

theorem encodable_reread {r : Record ℚ} (hr : r.Encodable) : r.reread.Encodable := by
  cases r with
  | boot r => trivial
  | checkpoint r => trivial
  | sample r =>
      have hids : (r.state.map StateEntry.reread).map StateEntry.seriesId = r.state.map StateEntry.seriesId := by
        rw [List.map_map]
        rfl
      exact ⟨fun _ _ => rfl, by rw [hids]; exact StateOk.nodup hr, by simp⟩

theorem toRaw_reread (r : Record ℚ) : r.encoded.toRaw.reread = r.reread.encoded.toRaw := by
  cases r with
  | boot r => rfl
  | checkpoint r => rfl
  | sample r =>
      have hentries : (r.state.map StateEntry.encoded).map RawStateEntry.reread =
          (r.state.map StateEntry.reread).map StateEntry.encoded := by
        rw [List.map_map, List.map_map]
        rfl
      simp only [Record.encoded, Record.reread, EncodedRecord.toRaw, RawRecord.reread, hentries]

/-- **What a line is read as.** -/
theorem decodeRecord_rereadingJson {r : Record ℚ} {line : Bytes}
    (hline : encodeRecord rereadingJson r = .ok line) : decodeRecord rereadingJson line = .ok r.reread := by
  have hvec := toVec_of_encodeRecord hline
  refine decodeRecord_of_fromSlice (encodable_reread (encodable_of_encodeRecord hline))
    (rereadingJson_plain.validUtf8_of_toVec _ line hvec) ?_
  rw [rereadingJson_fromSlice_of_toVec hvec, toRaw_reread]

/-- **What a file is read as.** -/
theorem scanned_rereadingJson {rs : List (Record ℚ)} (hrs : ∀ r ∈ rs, r.Encodable) {file : Bytes} {sc : Scan ℚ}
    (h : Scanned rereadingJson file sc) :
    Scanned rereadingJson (file ++ fileOf rereadingJson rs) ((rs.map Record.reread).foldl Scan.next sc) := by
  induction rs generalizing file sc with
  | nil => simpa [fileOf] using h
  | cons r rest ih =>
      obtain ⟨line, hline, hnl, hhead, -⟩ := line_of_encodable rereadingJson_plain (hrs r List.mem_cons_self)
      have hfirst := h.line hnl fun index =>
        Scan.scanLine_of_decode hhead (decodeRecord_rereadingJson hline) index sc
      have hrest := ih (fun r' hr' => hrs r' (List.mem_cons_of_mem _ hr')) hfirst
      simpa [fileOf, recordLine, hline] using hrest

theorem validateCanonical_rereadingJson {rs : List (Record ℚ)} (hne : rs ≠ []) (hrs : ∀ r ∈ rs, r.Encodable) :
    validateCanonical rereadingJson (fileOf rereadingJson rs) =
      .ok ((rs.map Record.reread).foldl Scan.next {}).closeEpoch := by
  have hscanned := scanned_rereadingJson hrs scanned_nil
  rw [List.nil_append] at hscanned
  exact hscanned.validate (Scan.sawNonblank_foldl_next (by simpa using hne) _)

theorem restores_of_reread_eq {r : Record ℚ} (hr : r.Encodable) (hsame : r.reread = r) :
    rereadingJson.Restores r := by
  obtain ⟨line, hline, hnl, hhead, -⟩ := line_of_encodable rereadingJson_plain hr
  refine ⟨line, hline, hnl, hhead, ?_⟩
  rw [decodeRecord_rereadingJson hline, hsame]

end Flock.History
