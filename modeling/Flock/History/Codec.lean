/-
# Flock.History.Codec — the records of the canonical history and their JSON lines.

`serde_json` is not part of this repository: `Serde` is what the codec calls of it.  What holds of it for
every line it writes is `Serde.Plain`.  That a record is read back as it was is NOT among it, since the
workspace builds `serde_json` without `float_roundtrip`: a value of sixteen or seventeen digits can come back
as its neighbour.  `Serde.Restores` says it of one record, `Serde.ReadsBack` of one state, and
`Serde.Faithful` of everything.  The struct layer (field presence, defaults, the derived `Deserialize`) is on
the other side of that boundary; format and version, record kinds, the state field and the checks on state
entries are the codec's own and are written out.
-/
import Flock.History.Exposition

namespace Flock.History

/-- `Vec<u8>`. -/
abbrev Bytes := List UInt8

/-! ## Records -/

/-- `codec::Capacity`. -/
structure Capacity where
  capacityRpm : U64
  enabledKeys : U64
  keyRpms : List U64
  deriving DecidableEq, Repr

/-- `StateKind`. -/
inductive StateKind where
  | counter
  | gauge
  deriving DecidableEq, Repr

/-- `StateEntry`: one series of a sampled state. -/
structure StateEntry (ν : Type) where
  kind : StateKind
  metric : String
  labels : Labels
  value : ν
  deriving DecidableEq

/-- `BootRecord`. -/
structure BootRecord where
  timestamp : U64
  bootId : String
  capacity : Capacity
  deriving DecidableEq, Repr

/-- `SampleRecord`. -/
structure SampleRecord (ν : Type) where
  timestamp : U64
  bootId : String
  capacity : Capacity
  state : List (StateEntry ν)
  deriving DecidableEq

/-- `CheckpointRecord`. -/
structure CheckpointRecord where
  timestamp : U64
  bootId : String
  capacity : Capacity
  deriving DecidableEq, Repr

/-- `Record`. -/
inductive Record (ν : Type) where
  | boot (r : BootRecord)
  | sample (r : SampleRecord ν)
  | checkpoint (r : CheckpointRecord)
  deriving DecidableEq

variable {ν : Type}

namespace Record

/-- `record_timestamp`. -/
def timestamp : Record ν → U64
  | boot r => r.timestamp
  | sample r => r.timestamp
  | checkpoint r => r.timestamp

/-- `record_boot_id`. -/
def bootId : Record ν → String
  | boot r => r.bootId
  | sample r => r.bootId
  | checkpoint r => r.bootId

/-- `matches!(record, Record::Boot(_))`. -/
def isBoot : Record ν → Bool
  | boot _ => true
  | sample _ => false
  | checkpoint _ => false

@[simp] theorem timestamp_boot (r : BootRecord) : (boot r : Record ν).timestamp = r.timestamp := rfl
@[simp] theorem timestamp_sample (r : SampleRecord ν) : (sample r).timestamp = r.timestamp := rfl
@[simp] theorem timestamp_checkpoint (r : CheckpointRecord) :
    (checkpoint r : Record ν).timestamp = r.timestamp := rfl
@[simp] theorem bootId_boot (r : BootRecord) : (boot r : Record ν).bootId = r.bootId := rfl
@[simp] theorem bootId_sample (r : SampleRecord ν) : (sample r).bootId = r.bootId := rfl
@[simp] theorem bootId_checkpoint (r : CheckpointRecord) :
    (checkpoint r : Record ν).bootId = r.bootId := rfl
@[simp] theorem isBoot_boot (r : BootRecord) : (boot r : Record ν).isBoot = true := rfl
@[simp] theorem isBoot_sample (r : SampleRecord ν) : (sample r).isBoot = false := rfl
@[simp] theorem isBoot_checkpoint (r : CheckpointRecord) :
    (checkpoint r : Record ν).isBoot = false := rfl

end Record

/-! ## JSON -/

/-- `RawStateEntry`, and `EncodedStateEntry` on the way out. -/
structure RawStateEntry (ν : Type) where
  kind : String
  metric : String
  labels : Labels
  value : ν
  deriving DecidableEq

/-- `StateField`: the `state` key is absent, `null`, or a list. -/
inductive StateField (ν : Type) where
  | missing
  | null
  | entries (state : List (RawStateEntry ν))
  deriving DecidableEq

/-- `matches!(state, StateField::Missing)`. -/
def StateField.isMissing {ν : Type} : StateField ν → Bool
  | missing => true
  | null => false
  | entries _ => false

/-- `RawRecord`: what a line deserializes into. -/
structure RawRecord (ν : Type) where
  format : String
  v : U64
  kind : String
  timestamp : U64
  bootId : String
  capacity : Capacity
  state : StateField ν
  deriving DecidableEq

/-- `EncodedBoot`, `EncodedSample` and `EncodedCheckpoint`: what is serialized.  Only a sample has a
`state` field. -/
structure EncodedRecord (ν : Type) where
  format : String
  v : U64
  kind : String
  timestamp : U64
  bootId : String
  capacity : Capacity
  state : Option (List (RawStateEntry ν))
  deriving DecidableEq

/-- The record that reads the same fields back. -/
def EncodedRecord.toRaw (e : EncodedRecord ν) : RawRecord ν where
  format := e.format
  v := e.v
  kind := e.kind
  timestamp := e.timestamp
  bootId := e.bootId
  capacity := e.capacity
  state := match e.state with
    | none => .missing
    | some state => .entries state

/-- What `decode_record` asks of a `serde_json::Error`. -/
structure SerdeError where
  isEof : Bool
  isSyntax : Bool
  /-- The message contains `number out of range`. -/
  numberOutOfRange : Bool
  deriving DecidableEq, Repr

/-- The calls into `serde_json`. -/
structure Serde (ν : Type) where
  /-- `serde_json::to_vec`. -/
  toVec : EncodedRecord ν → Option Bytes
  /-- `serde_json::from_slice::<RawRecord>`. -/
  fromSlice : Bytes → Except SerdeError (RawRecord ν)
  /-- `trustworthy_timestamp`: `from_slice::<Value>`, then the `timestamp` key as a `u64`. -/
  trustworthyTimestamp : Bytes → Option U64

/-- `std::str::from_utf8(line).is_ok()`. -/
def validUtf8 (line : Bytes) : Bool := line.toByteArray.validateUTF8

/-- `b'\n'`. -/
def newline : UInt8 := 10

/-- What holds of every line that is written: serializing never fails and gives one line of UTF-8 that is not
blank; what is not a number is read back as it was, so a record without an entry whole, and the format and the
version of any record that is read at all. -/
structure Serde.Plain [F64 ν] (S : Serde ν) : Prop where
  isSome_toVec : ∀ e, (S.toVec e).isSome
  validUtf8_of_toVec : ∀ e line, S.toVec e = some line → validUtf8 line = true
  newline_notMem_of_toVec : ∀ e line, S.toVec e = some line → newline ∉ line
  head_of_toVec : ∀ e line, S.toVec e = some line → line.head? = some 0x7b
  fromSlice_of_bare : ∀ e line, (∀ state ∈ e.state, state = []) → S.toVec e = some line →
    S.fromSlice line = .ok e.toRaw
  header_of_fromSlice : ∀ e line raw,
    (∀ state ∈ e.state, ∀ entry ∈ state, F64.isFinite entry.value = true) →
      S.toVec e = some line → S.fromSlice line = .ok raw → raw.format = e.format ∧ raw.v = e.v

/-- An exact codec: serializing never fails, gives one line of UTF-8 that is not blank, and deserializing
gives the fields back, every finite value to its last digit. -/
structure Serde.Faithful [F64 ν] (S : Serde ν) : Prop where
  isSome_toVec : ∀ e, (S.toVec e).isSome
  validUtf8_of_toVec : ∀ e line, S.toVec e = some line → validUtf8 line = true
  newline_notMem_of_toVec : ∀ e line, S.toVec e = some line → newline ∉ line
  head_of_toVec : ∀ e line, S.toVec e = some line → line.head? = some 0x7b
  fromSlice_of_toVec : ∀ e line,
    (∀ state ∈ e.state, ∀ entry ∈ state, F64.isFinite entry.value = true) →
      S.toVec e = some line → S.fromSlice line = .ok e.toRaw

theorem Serde.Faithful.plain [F64 ν] {S : Serde ν} (hS : S.Faithful) : S.Plain where
  isSome_toVec := hS.isSome_toVec
  validUtf8_of_toVec := hS.validUtf8_of_toVec
  newline_notMem_of_toVec := hS.newline_notMem_of_toVec
  head_of_toVec := hS.head_of_toVec
  fromSlice_of_bare e line hbare hvec := by
    refine hS.fromSlice_of_toVec e line (fun state hstate entry hentry => ?_) hvec
    rw [hbare state hstate] at hentry
    cases hentry
  header_of_fromSlice e line raw hfinite hvec hslice := by
    obtain rfl : e.toRaw = raw := Except.ok.inj ((hS.fromSlice_of_toVec e line hfinite hvec).symm.trans hslice)
    exact ⟨rfl, rfl⟩

/-! ## `decode_record` and `encode_record` -/

/-- `FORMAT`. -/
def format : String := "nimproxy-history"

/-- `VERSION`. -/
def version : U64 := 1

/-- `DecodeError`. -/
inductive DecodeError where
  | invalidUtf8
  | invalidJson
  | unsupportedFormat
  | unsupportedVersion
  | invalidRecord
  | invalidRecordKind
  | invalidState
  | duplicateSeries
  deriving DecidableEq, Repr

/-- `EncodeError`. -/
inductive EncodeError where
  | invalidState
  | duplicateSeries
  deriving DecidableEq, Repr

/-- What makes a series one of its state: the `BTreeSet` key of the codec. -/
abbrev SeriesId := StateKind × String × Labels

/-- The key of an entry. -/
def StateEntry.seriesId (e : StateEntry ν) : SeriesId := (e.kind, e.metric, e.labels)

/-- The `kind` text of an entry. -/
def StateKind.text : StateKind → String
  | counter => "counter"
  | gauge => "gauge"

/-- The kind an entry's text names. -/
def StateKind.ofText (kind : String) : Option StateKind :=
  if kind = "counter" then some counter else if kind = "gauge" then some gauge else none

theorem StateKind.ofText_text (k : StateKind) : StateKind.ofText k.text = some k := by
  cases k <;> decide

/-- An entry as it is serialized. -/
def StateEntry.encoded (e : StateEntry ν) : RawStateEntry ν := ⟨e.kind.text, e.metric, e.labels, e.value⟩

section State

variable [F64 ν]

/-- `decode_state`, with the series seen so far. -/
def decodeState (series : List SeriesId) :
    List (RawStateEntry ν) → Except DecodeError (List (StateEntry ν))
  | [] => .ok []
  | entry :: rest =>
      match StateKind.ofText entry.kind with
      | none => .error .invalidState
      | some kind =>
          if F64.isFinite entry.value then
            let key : SeriesId := (kind, entry.metric, entry.labels)
            if key ∈ series then .error .duplicateSeries
            else
              (decodeState (key :: series) rest).map
                (⟨kind, entry.metric, entry.labels, entry.value⟩ :: ·)
          else .error .invalidState

/-- `encode_state`, with the series seen so far. -/
def encodeState (series : List SeriesId) :
    List (StateEntry ν) → Except EncodeError (List (RawStateEntry ν))
  | [] => .ok []
  | entry :: rest =>
      if F64.isFinite entry.value then
        if entry.seriesId ∈ series then .error .duplicateSeries
        else (encodeState (entry.seriesId :: series) rest).map (entry.encoded :: ·)
      else .error .invalidState

/-- What `encode_state` takes: finite values, and no series twice or already seen. -/
structure StateOk (series : List SeriesId) (state : List (StateEntry ν)) : Prop where
  finite : ∀ entry ∈ state, F64.isFinite entry.value = true
  nodup : (state.map StateEntry.seriesId).Nodup
  unseen : ∀ entry ∈ state, entry.seriesId ∉ series

theorem stateOk_nil (series : List SeriesId) : StateOk series ([] : List (StateEntry ν)) :=
  ⟨by simp, by simp, by simp⟩

theorem stateOk_cons {series : List SeriesId} {entry : StateEntry ν} {rest : List (StateEntry ν)} :
    StateOk series (entry :: rest) ↔
      F64.isFinite entry.value = true ∧ entry.seriesId ∉ series ∧
        StateOk (entry.seriesId :: series) rest := by
  constructor
  · rintro ⟨hfin, hnodup, hunseen⟩
    have hdup := List.nodup_cons.mp hnodup
    refine ⟨hfin entry List.mem_cons_self, hunseen entry List.mem_cons_self, ?_, hdup.2, ?_⟩
    · exact fun e he => hfin e (List.mem_cons_of_mem _ he)
    · intro e he hmem
      rcases List.mem_cons.mp hmem with hid | hold
      · exact hdup.1 (List.mem_map.mpr ⟨e, he, hid⟩)
      · exact hunseen e (List.mem_cons_of_mem _ he) hold
  · rintro ⟨hfin, hnew, hrest⟩
    refine ⟨?_, ?_, ?_⟩
    · rintro e (_ | ⟨_, he⟩)
      · exact hfin
      · exact hrest.finite e he
    · refine List.nodup_cons.mpr ⟨fun hmem => ?_, hrest.nodup⟩
      obtain ⟨e, he, hid⟩ := List.mem_map.mp hmem
      exact hrest.unseen e he (hid ▸ List.mem_cons_self)
    · rintro e (_ | ⟨_, he⟩)
      · exact hnew
      · exact fun hmem => hrest.unseen e he (List.mem_cons_of_mem _ hmem)

/-- A state is encoded entry by entry, or refused. -/
theorem encodeState_eq_ok_iff {series : List SeriesId} {state : List (StateEntry ν)}
    {raw : List (RawStateEntry ν)} :
    encodeState series state = .ok raw ↔ raw = state.map StateEntry.encoded ∧ StateOk series state := by
  induction state generalizing series raw with
  | nil =>
      constructor
      · rintro ⟨⟩
        exact ⟨rfl, stateOk_nil series⟩
      · rintro ⟨rfl, -⟩
        rfl
  | cons entry rest ih =>
      rw [stateOk_cons, encodeState]
      by_cases hfin : F64.isFinite entry.value = true
      · by_cases hnew : entry.seriesId ∈ series
        · simp [hfin, hnew]
        · rw [if_pos hfin, if_neg hnew]
          cases htail : encodeState (entry.seriesId :: series) rest with
          | error err =>
              have hrest : ¬StateOk (entry.seriesId :: series) rest := fun hok =>
                absurd (htail.symm.trans (ih.mpr ⟨rfl, hok⟩)) (by simp)
              simp [Except.map, hrest]
          | ok tail =>
              obtain ⟨rfl, hrest⟩ := ih.mp htail
              simp [Except.map, hfin, hnew, hrest, eq_comm]
      · simp [hfin]

/-- What `encode_state` wrote, `decode_state` reads back. -/
theorem decodeState_encoded {series : List SeriesId} {state : List (StateEntry ν)}
    (hok : StateOk series state) :
    decodeState series (state.map StateEntry.encoded) = .ok state := by
  induction state generalizing series with
  | nil => rfl
  | cons entry rest ih =>
      obtain ⟨hfin, hnew, hrest⟩ := stateOk_cons.mp hok
      have hkind : StateKind.ofText entry.encoded.kind = some entry.kind := entry.kind.ofText_text
      have hfin' : F64.isFinite entry.encoded.value = true := hfin
      have hnew' : (entry.kind, entry.encoded.metric, entry.encoded.labels) ∉ series := hnew
      simp only [List.map_cons, decodeState, hkind, hfin', hnew', if_true, if_false]
      exact congrArg (Except.map _) (ih hrest)

/-- `decode_record`. -/
def decodeRecord (S : Serde ν) (line : Bytes) : Except DecodeError (Record ν) :=
  if !validUtf8 line then .error .invalidUtf8
  else
    match S.fromSlice line with
    | .error error =>
        if error.isEof || (error.isSyntax && !error.numberOutOfRange) then .error .invalidJson
        else .error .invalidRecord
    | .ok raw =>
        if raw.format ≠ format then .error .unsupportedFormat
        else if raw.v ≠ version then .error .unsupportedVersion
        else if raw.kind = "boot" ∧ raw.state.isMissing then
          .ok (.boot ⟨raw.timestamp, raw.bootId, raw.capacity⟩)
        else if raw.kind = "checkpoint" ∧ raw.state.isMissing then
          .ok (.checkpoint ⟨raw.timestamp, raw.bootId, raw.capacity⟩)
        else if raw.kind = "sample" then
          match raw.state with
          | .entries state =>
              (decodeState [] state).map fun state =>
                .sample ⟨raw.timestamp, raw.bootId, raw.capacity, state⟩
          | .missing | .null => .error .invalidRecord
        else if raw.kind = "boot" ∨ raw.kind = "checkpoint" then .error .invalidRecord
        else .error .invalidRecordKind

/-- `encode_record`. -/
def encodeRecord (S : Serde ν) (record : Record ν) : Except EncodeError Bytes :=
  let toVec (e : EncodedRecord ν) : Except EncodeError Bytes :=
    match S.toVec e with
    | some line => .ok line
    | none => .error .invalidState
  match record with
  | .boot r => toVec ⟨format, version, "boot", r.timestamp, r.bootId, r.capacity, none⟩
  | .sample r =>
      match encodeState [] r.state with
      | .ok state =>
          toVec ⟨format, version, "sample", r.timestamp, r.bootId, r.capacity, some state⟩
      | .error error => .error error
  | .checkpoint r => toVec ⟨format, version, "checkpoint", r.timestamp, r.bootId, r.capacity, none⟩

/-- What `encode_record` takes. -/
def Record.Encodable : Record ν → Prop
  | .boot _ => True
  | .sample r => StateOk [] r.state
  | .checkpoint _ => True

/-- The fields an encodable record is written as. -/
def Record.encoded : Record ν → EncodedRecord ν
  | .boot r => ⟨format, version, "boot", r.timestamp, r.bootId, r.capacity, none⟩
  | .sample r => ⟨format, version, "sample", r.timestamp, r.bootId, r.capacity,
      some (r.state.map StateEntry.encoded)⟩
  | .checkpoint r => ⟨format, version, "checkpoint", r.timestamp, r.bootId, r.capacity, none⟩

/-- `encode_record` is `to_vec` of these fields. -/
theorem encodeRecord_eq_ok_iff {S : Serde ν} {r : Record ν} (hr : r.Encodable) {line : Bytes} :
    encodeRecord S r = .ok line ↔ S.toVec r.encoded = some line := by
  have htoVec : ∀ e : EncodedRecord ν,
      (match S.toVec e with
        | some line => .ok line
        | none => .error .invalidState : Except EncodeError Bytes) = .ok line ↔ S.toVec e = some line := by
    intro e
    cases S.toVec e <;> simp
  cases r with
  | boot r => exact htoVec _
  | checkpoint r => exact htoVec _
  | sample r =>
      have hstate : encodeState [] r.state = .ok (r.state.map StateEntry.encoded) :=
        encodeState_eq_ok_iff.mpr ⟨rfl, hr⟩
      simp only [encodeRecord, hstate]
      exact htoVec _

theorem Record.Encodable.finite {r : Record ν} (hr : r.Encodable) :
    ∀ state ∈ r.encoded.state, ∀ entry ∈ state, F64.isFinite entry.value = true := by
  cases r with
  | boot r => simp [encoded]
  | checkpoint r => simp [encoded]
  | sample r =>
      rintro state ⟨⟩ entry hentry
      obtain ⟨e, he, rfl⟩ := List.mem_map.mp hentry
      exact StateOk.finite hr e he

/-- What `encode_record` wrote could be encoded. -/
theorem encodable_of_encodeRecord {S : Serde ν} {r : Record ν} {line : Bytes}
    (h : encodeRecord S r = .ok line) : r.Encodable := by
  cases r with
  | boot r => trivial
  | checkpoint r => trivial
  | sample r =>
      cases hstate : encodeState [] r.state with
      | error error => simp [encodeRecord, hstate] at h
      | ok raw => exact (encodeState_eq_ok_iff.mp hstate).2

/-- A record is encoded as the JSON of its fields. -/
theorem toVec_of_encodeRecord {S : Serde ν} {r : Record ν} {line : Bytes} (h : encodeRecord S r = .ok line) :
    S.toVec r.encoded = some line :=
  (encodeRecord_eq_ok_iff (encodable_of_encodeRecord h)).mp h

/-- An encodable record has a line, which is not blank and holds no line feed. -/
theorem line_of_encodable {S : Serde ν} (hS : S.Plain) {r : Record ν} (hr : r.Encodable) :
    ∃ line, encodeRecord S r = .ok line ∧ newline ∉ line ∧ line.head? = some 0x7b ∧
      S.toVec r.encoded = some line := by
  obtain ⟨line, hvec⟩ := Option.isSome_iff_exists.mp (hS.isSome_toVec r.encoded)
  exact ⟨line, (encodeRecord_eq_ok_iff hr).mpr hvec, hS.newline_notMem_of_toVec _ line hvec,
    hS.head_of_toVec _ line hvec, hvec⟩

/-- A line that gives the fields back decodes to the record. -/
theorem decodeRecord_of_fromSlice {S : Serde ν} {r : Record ν} (hr : r.Encodable) {line : Bytes}
    (hutf : validUtf8 line = true) (hslice : S.fromSlice line = .ok r.encoded.toRaw) :
    decodeRecord S line = .ok r := by
  cases r with
  | boot r => simp [decodeRecord, hutf, hslice, Record.encoded, EncodedRecord.toRaw, StateField.isMissing]
  | checkpoint r =>
      simp [decodeRecord, hutf, hslice, Record.encoded, EncodedRecord.toRaw, StateField.isMissing]
  | sample r =>
      simp [decodeRecord, hutf, hslice, Record.encoded, EncodedRecord.toRaw, StateField.isMissing,
        decodeState_encoded hr, Except.map]

/-! ## Records that are read back -/

/-- **`S.Restores r`** — the record has a line; the line is not blank, holds no line feed, and decodes to the
record. -/
def Serde.Restores (S : Serde ν) (r : Record ν) : Prop :=
  ∃ line, encodeRecord S r = .ok line ∧ newline ∉ line ∧ line.head? = some 0x7b ∧
    decodeRecord S line = .ok r

/-- **`S.ReadsBack state`** — a sample of the state is read back as it was written, at any time and in any
epoch. -/
def Serde.ReadsBack (S : Serde ν) (state : List (StateEntry ν)) : Prop :=
  ∀ timestamp bootId capacity, S.Restores (.sample ⟨timestamp, bootId, capacity, state⟩)

/-- A record without an entry is always read back. -/
theorem Serde.Plain.restores {S : Serde ν} (hS : S.Plain) {r : Record ν} (hr : r.Encodable)
    (hbare : ∀ state ∈ r.encoded.state, state = []) : S.Restores r := by
  obtain ⟨line, hencode, hnl, hhead, hvec⟩ := line_of_encodable hS hr
  exact ⟨line, hencode, hnl, hhead, decodeRecord_of_fromSlice hr (hS.validUtf8_of_toVec _ line hvec)
    (hS.fromSlice_of_bare _ line hbare hvec)⟩

theorem Serde.Plain.restores_boot {S : Serde ν} (hS : S.Plain) (r : BootRecord) : S.Restores (.boot r) :=
  hS.restores trivial (by simp [Record.encoded])

theorem Serde.Plain.restores_checkpoint {S : Serde ν} (hS : S.Plain) (r : CheckpointRecord) :
    S.Restores (.checkpoint r) := hS.restores trivial (by simp [Record.encoded])

theorem Serde.Plain.readsBack_nil {S : Serde ν} (hS : S.Plain) : S.ReadsBack [] :=
  fun _ _ _ => hS.restores (stateOk_nil []) (by simp [Record.encoded])

/-- **The round trip.** An exact codec reads every encodable record back. -/
theorem Serde.Faithful.restores {S : Serde ν} (hS : S.Faithful) {r : Record ν} (hr : r.Encodable) :
    S.Restores r := by
  obtain ⟨line, hencode, hnl, hhead, hvec⟩ := line_of_encodable hS.plain hr
  exact ⟨line, hencode, hnl, hhead, decodeRecord_of_fromSlice hr (hS.validUtf8_of_toVec _ line hvec)
    (hS.fromSlice_of_toVec _ line hr.finite hvec)⟩

theorem Serde.Faithful.restores_all {S : Serde ν} (hS : S.Faithful) {rs : List (Record ν)}
    (hrs : ∀ r ∈ rs, r.Encodable) : ∀ r ∈ rs, S.Restores r := fun r hr => hS.restores (hrs r hr)

theorem Serde.Faithful.readsBack {S : Serde ν} (hS : S.Faithful) {state : List (StateEntry ν)}
    (hstate : StateOk [] state) : S.ReadsBack state := fun _ _ _ => hS.restores hstate

/-- A line of a record that is read back is read as that record. -/
theorem decodeRecord_of_restores {S : Serde ν} {r : Record ν} (h : S.Restores r) {line : Bytes}
    (hline : encodeRecord S r = .ok line) : decodeRecord S line = .ok r := by
  obtain ⟨line', hencode, -, -, hdecode⟩ := h
  obtain rfl : line = line' := Except.ok.inj (hline.symm.trans hencode)
  exact hdecode

/-- What `decode_state` refuses is the state's fault. -/
theorem decodeState_error {series : List SeriesId} {raw : List (RawStateEntry ν)} {error : DecodeError}
    (h : decodeState series raw = .error error) : error = .invalidState ∨ error = .duplicateSeries := by
  induction raw generalizing series with
  | nil => cases h
  | cons entry rest ih =>
      rw [decodeState] at h
      split at h
      · exact .inl (Except.error.inj h).symm
      · rename_i kind _
        split at h
        · by_cases hseen : (kind, entry.metric, entry.labels) ∈ series
          · rw [if_pos hseen] at h
            exact .inr (Except.error.inj h).symm
          · rw [if_neg hseen] at h
            cases htail : decodeState ((kind, entry.metric, entry.labels) :: series) rest with
            | error error' =>
                rw [htail] at h
                obtain rfl : error' = error := Except.error.inj h
                exact ih htail
            | ok tail =>
                rw [htail] at h
                cases h
        · exact .inl (Except.error.inj h).symm

/-- A line is refused as of another format or version for what its fields say. -/
theorem header_of_unsupported {S : Serde ν} {line : Bytes} {error : DecodeError}
    (h : decodeRecord S line = .error error) (herror : error = .unsupportedFormat ∨ error = .unsupportedVersion) :
    ∃ raw, S.fromSlice line = .ok raw ∧ ¬(raw.format = format ∧ raw.v = version) := by
  rw [decodeRecord] at h
  split at h
  · rcases herror with rfl | rfl <;> cases h
  cases hslice : S.fromSlice line with
  | error serde =>
      simp only [hslice] at h
      split at h <;> (rcases herror with rfl | rfl <;> cases h)
  | ok raw =>
      refine ⟨raw, rfl, ?_⟩
      rintro ⟨hformat, hversion⟩
      simp only [hslice, hformat, hversion, ne_eq, not_true_eq_false, if_false] at h
      -- past the header every refusal is another one
      split at h
      · cases h
      split at h
      · cases h
      split at h
      · split at h
        · rename_i state _
          cases hstate : decodeState [] state with
          | error error' =>
              rw [hstate] at h
              obtain rfl : error' = error := Except.error.inj h
              rcases decodeState_error hstate with rfl | rfl <;> rcases herror with h' | h' <;> cases h'
          | ok state =>
              rw [hstate] at h
              cases h
        · rcases herror with rfl | rfl <;> cases h
        · rcases herror with rfl | rfl <;> cases h
      split at h <;> (rcases herror with rfl | rfl <;> cases h)

/-- What was written is of no other format and no other version, whatever became of its numbers. -/
theorem Serde.Plain.supported {S : Serde ν} (hS : S.Plain) {r : Record ν} {line : Bytes}
    (hline : encodeRecord S r = .ok line) :
    decodeRecord S line ≠ .error .unsupportedFormat ∧ decodeRecord S line ≠ .error .unsupportedVersion := by
  have hwritten : r.encoded.format = format ∧ r.encoded.v = version := by cases r <;> exact ⟨rfl, rfl⟩
  have hread : ∀ raw, S.fromSlice line = .ok raw → raw.format = format ∧ raw.v = version := by
    intro raw hslice
    obtain ⟨hformat, hversion⟩ := hS.header_of_fromSlice _ line raw (encodable_of_encodeRecord hline).finite
      (toVec_of_encodeRecord hline) hslice
    exact ⟨hformat.trans hwritten.1, hversion.trans hwritten.2⟩
  constructor
  · intro h
    obtain ⟨raw, hslice, hnot⟩ := header_of_unsupported h (.inl rfl)
    exact hnot (hread raw hslice)
  · intro h
    obtain ⟨raw, hslice, hnot⟩ := header_of_unsupported h (.inr rfl)
    exact hnot (hread raw hslice)

/-- A record that is read back is one whose line decodes to it. -/
theorem Serde.Plain.restores_iff {S : Serde ν} (hS : S.Plain) {r : Record ν} (hr : r.Encodable) :
    S.Restores r ↔ ∃ line, encodeRecord S r = .ok line ∧ decodeRecord S line = .ok r := by
  constructor
  · rintro ⟨line, hencode, -, -, hdecode⟩
    exact ⟨line, hencode, hdecode⟩
  · rintro ⟨line, hencode, hdecode⟩
    obtain ⟨line', hencode', hnl, hhead, -⟩ := line_of_encodable hS hr
    obtain rfl : line = line' := Except.ok.inj (hencode.symm.trans hencode')
    exact ⟨line, hencode, hnl, hhead, hdecode⟩

theorem Serde.Restores.encodable {S : Serde ν} {r : Record ν} (h : S.Restores r) : r.Encodable := by
  obtain ⟨line, hencode, -⟩ := h
  exact encodable_of_encodeRecord hencode

/-- What `decode_state` read could be encoded. -/
theorem stateOk_of_decodeState {series : List SeriesId} {raw : List (RawStateEntry ν)}
    {state : List (StateEntry ν)} (h : decodeState series raw = .ok state) : StateOk series state := by
  induction raw generalizing series state with
  | nil =>
      obtain rfl : [] = state := Except.ok.inj h
      exact stateOk_nil series
  | cons entry rest ih =>
      rw [decodeState] at h
      cases hkind : StateKind.ofText entry.kind with
      | none => simp [hkind] at h
      | some kind =>
          simp only [hkind] at h
          split at h
          · rename_i hfin
            split at h
            · cases h
            · rename_i hnew
              cases htail : decodeState ((kind, entry.metric, entry.labels) :: series) rest with
              | error error => simp [htail, Except.map] at h
              | ok tail =>
                  rw [htail] at h
                  obtain rfl := Except.ok.inj h
                  exact stateOk_cons.mpr ⟨hfin, hnew, ih htail⟩
          · cases h

/-- **What `decode_record` accepts**: a record of this format and version, with the time of its fields, that
could be encoded. -/
theorem decodeRecord_eq_ok {S : Serde ν} {line : Bytes} {r : Record ν} (h : decodeRecord S line = .ok r) :
    r.Encodable ∧ ∃ raw, S.fromSlice line = .ok raw ∧ raw.timestamp = r.timestamp := by
  rw [decodeRecord] at h
  split at h
  · cases h
  cases hslice : S.fromSlice line with
  | error error =>
      simp only [hslice] at h
      split at h <;> cases h
  | ok raw =>
      simp only [hslice] at h
      -- the checks of the format and the version
      split at h
      · cases h
      split at h
      · cases h
      -- the kinds, a boot and a checkpoint without a state
      split at h
      · obtain rfl := Except.ok.inj h
        exact ⟨trivial, raw, rfl, rfl⟩
      split at h
      · obtain rfl := Except.ok.inj h
        exact ⟨trivial, raw, rfl, rfl⟩
      split at h
      · cases hstate : raw.state with
        | missing => simp [hstate] at h
        | null => simp [hstate] at h
        | entries state =>
            simp only [hstate] at h
            cases hdecode : decodeState [] state with
            | error error => simp [hdecode, Except.map] at h
            | ok entries =>
                rw [hdecode] at h
                obtain rfl := Except.ok.inj h
                exact ⟨stateOk_of_decodeState hdecode, raw, rfl, rfl⟩
      split at h <;> cases h

/-- `encode_record` refuses this record: a sample with a value that is not finite, or with a series twice. -/
def Record.Refused : Record ν → Prop
  | .boot _ => False
  | .sample r => (∃ entry ∈ r.state, F64.isFinite entry.value = false) ∨
      ¬ (r.state.map StateEntry.seriesId).Nodup
  | .checkpoint _ => False

theorem encodable_iff_not_refused (r : Record ν) : r.Encodable ↔ ¬ r.Refused := by
  cases r with
  | boot r => simp [Record.Encodable, Record.Refused]
  | checkpoint r => simp [Record.Encodable, Record.Refused]
  | sample r =>
      simp only [Record.Encodable, Record.Refused, not_or, not_exists, not_and, Bool.not_eq_false,
        not_not]
      constructor
      · intro hok
        exact ⟨hok.finite, hok.nodup⟩
      · rintro ⟨hfinite, hnodup⟩
        exact ⟨hfinite, hnodup, by simp⟩

end State

end Flock.History
