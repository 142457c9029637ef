/-
# Flock.Auth.Credentials — credentials as they come in: base64, hexadecimal and form text.

A Basic header is base64.  A login form is `application/x-www-form-urlencoded`, and one field is read out of it at a
time.  The decoders are written by hand here, so each is compared with an encoder: `Lib.Base64`, `hex` and
`Lib.FormText`.
-/
import Flock.Auth.Basic
import Flock.Lib.Base64
import Flock.Lib.FormText
import Flock.Text.Lossy

namespace Flock

open Lib.FormText (Serializer)

/-! ## Text as bytes -/

theorem utf8_eq_flatMap (s : String) : utf8 s = s.toList.flatMap String.utf8EncodeChar := by
  unfold utf8
  rw [String.toUTF8_eq_toByteArray, ← String.utf8Encode_toList, List.utf8Encode, List.data_toByteArray]

/-- A byte for each ASCII character. -/
def asciiBytes (cs : List Char) : List UInt8 := cs.map fun c => UInt8.ofNat c.toNat

theorem utf8_of_ascii {cs : List Char} (h : ∀ c ∈ cs, c.toNat < 0x80) : utf8 (String.ofList cs) = asciiBytes cs := by
  rw [utf8_eq_flatMap, String.toList_ofList]
  induction cs with
  | nil => rfl
  | cons c cs ih =>
      have hsize : c.utf8Size = 1 := Char.utf8Size_eq_one_iff.mpr (Nat.le_of_lt_succ (h c List.mem_cons_self))
      rw [List.flatMap_cons, String.utf8EncodeChar_eq_singleton hsize, ih fun d hd => h d (List.mem_cons_of_mem _ hd)]
      rfl

/-! ## Base64 -/

/-- `val`. -/
def base64Val (c : UInt8) : Option ℕ :=
  if 0x41 ≤ c ∧ c ≤ 0x5A then some (c.toNat - 0x41)
  else if 0x61 ≤ c ∧ c ≤ 0x7A then some (c.toNat - 0x61 + 26)
  else if 0x30 ≤ c ∧ c ≤ 0x39 then some (c.toNat - 0x30 + 52)
  else if c = 0x2B then some 62
  else if c = 0x2F then some 63
  else none

/-- `u8::is_ascii_whitespace`. -/
def isAsciiWhitespace (c : UInt8) : Bool := c == 0x20 || c == 0x09 || c == 0x0A || c == 0x0C || c == 0x0D

/-- The digits of a chunk as one number: 24 bits at most. -/
def base64Acc (chunk : List UInt8) : Option ℕ := chunk.foldlM (fun acc c => (base64Val c).map (64 * acc + ·)) 0

/-- How many bytes a chunk of so many digits has. -/
def base64Bytes : ℕ → Option ℕ
  | 4 => some 3
  | 3 => some 2
  | 2 => some 1
  | _ => none

/-- One chunk of `base64_decode`. -/
def base64Chunk (chunk : List UInt8) : Option (List UInt8) :=
  match base64Acc chunk, base64Bytes chunk.length with
  | some acc, some n =>
      some ((List.range n).map fun i => UInt8.ofNat (acc * 64 ^ (4 - chunk.length) / 2 ^ (16 - i * 8)))
  | _, _ => none

/-- The chunks, of four digits but for the last. -/
def base64Chunks : List UInt8 → Option (List UInt8)
  | [] => some []
  | a :: b :: c :: d :: rest =>
      match base64Chunk [a, b, c, d], base64Chunks rest with
      | some bytes, some more => some (bytes ++ more)
      | _, _ => none
  | chunk => base64Chunk chunk

/-- `base64_decode`. -/
def base64Decode (s : String) : Option (List UInt8) :=
  base64Chunks ((utf8 s).filter fun c => c != 0x3D && !isAsciiWhitespace c)

/-- The byte of a digit. -/
def digitByte (n : ℕ) : UInt8 := UInt8.ofNat (Lib.Base64.digit n).toNat

theorem base64Val_digitByte : ∀ n < 64, base64Val (digitByte n) = some n := by decide

/-- A digit is neither white space nor padding. -/
theorem keeps_digitByte : ∀ n < 64, (digitByte n != 0x3D && !isAsciiWhitespace (digitByte n)) = true := by decide

theorem base64Acc_digits {ns : List ℕ} (h : ∀ n ∈ ns, n < 64) :
    base64Acc (ns.map digitByte) = some (ns.foldl (fun acc n => 64 * acc + n) 0) := by
  have hfrom : ∀ acc, (ns.map digitByte).foldlM (fun acc c => (base64Val c).map (64 * acc + ·)) acc =
      some (ns.foldl (fun acc n => 64 * acc + n) acc) := by
    induction ns with
    | nil => exact fun acc => rfl
    | cons n ns ih =>
        intro acc
        rw [List.map_cons, List.foldlM_cons, base64Val_digitByte n (h n List.mem_cons_self), List.foldl_cons]
        exact ih (fun m hm => h m (List.mem_cons_of_mem _ hm)) (64 * acc + n)
  exact hfrom 0

/-- A byte is known from a number that has it in its lowest eight bits. -/
theorem ofNat_eq_of_mod {b : UInt8} {n : ℕ} (h : n % 256 = b.toNat) : UInt8.ofNat n = b := by
  rw [← UInt8.toNat_inj, UInt8.toNat_ofNat']
  exact h

theorem base64Chunk_digits {ns : List ℕ} (h : ∀ n ∈ ns, n < 64) :
    base64Chunk (ns.map digitByte) = (base64Bytes ns.length).map fun count => (List.range count).map fun i =>
      UInt8.ofNat (ns.foldl (fun acc n => 64 * acc + n) 0 * 64 ^ (4 - ns.length) / 2 ^ (16 - i * 8)) := by
  unfold base64Chunk
  rw [base64Acc_digits h, List.length_map]
  cases base64Bytes ns.length with
  | none => rfl
  | some count => rfl

/-- **One group is read back**, of one, two or three bytes. -/
theorem base64Chunk_sextets (group : List UInt8) (hpos : 0 < group.length) (hle : group.length ≤ 3) :
    base64Chunk ((Lib.Base64.sextets group).map digitByte) = some group := by
  have hchunk := base64Chunk_digits fun n (hn : n ∈ Lib.Base64.sextets group) => Lib.Base64.lt_of_mem_sextets hn
  match group with
  | [] => cases hpos
  -- one byte: two digits, of which the last four bits are zero
  | [a] =>
      have ha := a.toNat_lt
      refine hchunk.trans (congrArg some ?_)
      have hfirst : UInt8.ofNat ((64 * (64 * 0 + a.toNat / 4) + a.toNat % 4 * 16) * 64 ^ 2 / 2 ^ 16) = a :=
        ofNat_eq_of_mod (by omega)
      exact congrArg ([·]) hfirst
  -- two bytes: three digits, of which the last two bits are zero
  | [a, b] =>
      have ha := a.toNat_lt
      have hb := b.toNat_lt
      refine hchunk.trans (congrArg some ?_)
      generalize hacc : 64 * (64 * (64 * 0 + a.toNat / 4) + (a.toNat % 4 * 16 + b.toNat / 16)) + b.toNat % 16 * 4 = acc
      have hfirst : UInt8.ofNat (acc * 64 ^ 1 / 2 ^ 16) = a := ofNat_eq_of_mod (by omega)
      have hsecond : UInt8.ofNat (acc * 64 ^ 1 / 2 ^ 8) = b := ofNat_eq_of_mod (by omega)
      subst hacc
      exact congrArg₂ ([·, ·]) hfirst hsecond
  -- three bytes: four digits, and all of their bits
  | [a, b, c] =>
      have ha := a.toNat_lt
      have hb := b.toNat_lt
      have hc := c.toNat_lt
      refine hchunk.trans (congrArg some ?_)
      generalize hacc : 64 * (64 * (64 * (64 * 0 + a.toNat / 4) + (a.toNat % 4 * 16 + b.toNat / 16)) +
        (b.toNat % 16 * 4 + c.toNat / 64)) + c.toNat % 64 = acc
      have hfirst : UInt8.ofNat (acc * 64 ^ 0 / 2 ^ 16) = a := ofNat_eq_of_mod (by omega)
      have hsecond : UInt8.ofNat (acc * 64 ^ 0 / 2 ^ 8) = b := ofNat_eq_of_mod (by omega)
      have hthird : UInt8.ofNat (acc * 64 ^ 0 / 2 ^ 0) = c := ofNat_eq_of_mod (by omega)
      subst hacc
      exact congrArg₂ (· :: ·) hfirst (congrArg₂ ([·, ·]) hsecond hthird)
  | _ :: _ :: _ :: _ :: rest =>
      simp only [List.length_cons] at hle
      omega

/-- The digits of some bytes, read chunk by chunk. -/
theorem base64Chunks_sextets (bytes : List UInt8) :
    base64Chunks ((Lib.Base64.sextets bytes).map digitByte) = some bytes := by
  induction bytes using Lib.Base64.sextets.induct with
  | case1 => rfl
  | case2 a => exact base64Chunk_sextets [a] (Nat.succ_pos 0) (Nat.le_add_left 1 2)
  | case3 a b => exact base64Chunk_sextets [a, b] (Nat.succ_pos 1) (Nat.le_add_left 2 1)
  | case4 a b c rest ih =>
      -- four digits of this group, and then the chunks of the others
      have hread := base64Chunk_sextets [a, b, c] (Nat.succ_pos 2) le_rfl
      simp only [Lib.Base64.sextets, List.map_cons, List.map_nil] at hread ⊢
      rw [base64Chunks, hread, ih]
      rfl

/-- **`base64_decode` reads what was encoded**, with padding or without. -/
theorem base64Decode_encode (padded : Bool) (bytes : List UInt8) :
    base64Decode (String.ofList (Lib.Base64.encode padded bytes)) = some bytes := by
  have hascii : ∀ c ∈ Lib.Base64.encode padded bytes, c.toNat < 0x80 := by
    intro c hc
    rcases List.mem_append.mp hc with hc | hc
    · obtain ⟨n, hn, rfl⟩ := List.mem_map.mp hc
      exact (Lib.Base64.digit_ascii n (Lib.Base64.lt_of_mem_sextets hn)).1
    · rw [Lib.Base64.eq_of_mem_padding hc]
      decide
  -- all digits are kept, and all that was added to them is dropped
  have hdigits : ((Lib.Base64.sextets bytes).map digitByte).filter (fun c => c != 0x3D && !isAsciiWhitespace c) =
      (Lib.Base64.sextets bytes).map digitByte := by
    refine List.filter_eq_self.mpr fun c hc => ?_
    obtain ⟨n, hn, rfl⟩ := List.mem_map.mp hc
    exact keeps_digitByte n (Lib.Base64.lt_of_mem_sextets hn)
  have hpadding : (asciiBytes (if padded then Lib.Base64.padding bytes else [])).filter
      (fun c => c != 0x3D && !isAsciiWhitespace c) = [] := by
    refine List.filter_eq_nil_iff.mpr fun c hc => ?_
    obtain ⟨d, hd, rfl⟩ := List.mem_map.mp hc
    rw [Lib.Base64.eq_of_mem_padding hd]
    decide
  have hbytes : asciiBytes (Lib.Base64.encode padded bytes) = (Lib.Base64.sextets bytes).map digitByte ++
      asciiBytes (if padded then Lib.Base64.padding bytes else []) := by
    unfold asciiBytes Lib.Base64.encode
    rw [List.map_append, List.map_map]
    rfl
  unfold base64Decode
  rw [utf8_of_ascii hascii, hbytes, List.filter_append, hdigits, hpadding, List.append_nil, base64Chunks_sextets]

/-! ## Form text -/

/-- What a plus sign stands for. -/
def plusToBlank (c : Char) : Char := if c = '+' then ' ' else c

/-- The byte of two digits. -/
def hexByte (hi lo : UInt8) : Option UInt8 :=
  match hexVal (Char.ofNat hi.toNat), hexVal (Char.ofNat lo.toNat) with
  | some h, some l => some (UInt8.ofNat (16 * h + l))
  | _, _ => none

/-- The loop of `url_decode`.  An escape is read where two bytes are left behind its sign; the last two bytes of a text
stay as they are. -/
def percentDecode : List UInt8 → List UInt8
  | b :: hi :: lo :: rest =>
      match if b = 0x25 then hexByte hi lo else none with
      | some byte => byte :: percentDecode rest
      | none => b :: percentDecode (hi :: lo :: rest)
  | bytes => bytes

/-- `url_decode`. -/
def urlDecode (s : String) : String :=
  Text.fromUtf8Lossy (percentDecode (utf8 (String.ofList (s.toList.map plusToBlank))))

/-- `form_field`. -/
def formField (body field : String) : Option String :=
  (Text.split '&' body).findSome? fun pair =>
    match Text.splitOnce '=' pair with
    | some (k, v) => if k = field then some (urlDecode v) else none
    | none => none

/-- The text of a form of names and values. -/
def formBody (N V : Serializer) (fields : List (String × String)) : String :=
  String.ofList (Lib.FormText.body N V (fields.map fun f => (utf8 f.1, utf8 f.2)))

/-- A name of unreserved characters, and a value as a browser writes it. -/
example : formBody Lib.FormText.unreserved Lib.FormText.urlencoded [("user~", "€ 1"), ("user~", "")] =
    "user~=%E2%82%AC+1&user~=" := by decide +kernel

theorem hexByte_digits : ∀ b : UInt8, hexByte (UInt8.ofNat (Lib.FormText.upperHexDigit (b.toNat / 16)).toNat)
    (UInt8.ofNat (Lib.FormText.upperHexDigit (b.toNat % 16)).toNat) = some b :=
  Lib.FormText.forall_byte (by decide +kernel)

theorem plusToBlank_digit : ∀ n < 16, plusToBlank (Lib.FormText.upperHexDigit n) = Lib.FormText.upperHexDigit n := by
  decide

theorem percentDecode_cons {b : UInt8} (h : b ≠ 0x25) (bytes : List UInt8) :
    percentDecode (b :: bytes) = b :: percentDecode bytes := by
  match bytes with
  | [] => rfl
  | [_] => rfl
  | hi :: lo :: rest =>
      rw [percentDecode, if_neg h]

theorem percentDecode_escape {b hi lo : UInt8} (h : hexByte hi lo = some b) (bytes : List UInt8) :
    percentDecode (0x25 :: hi :: lo :: bytes) = b :: percentDecode bytes := by
  rw [percentDecode, if_pos rfl, h]

section Form

variable {S N V : Serializer}

/-- One byte is read, whatever comes behind it. -/
theorem percentDecode_byteText (b : UInt8) (bytes : List UInt8) :
    percentDecode (asciiBytes ((S.byteText b).map plusToBlank) ++ bytes) = b :: percentDecode bytes := by
  unfold Serializer.byteText
  split
  · -- a plus sign
    rename_i hblank
    subst hblank
    exact percentDecode_cons (by decide) bytes
  · split
    · -- a byte that was left as it is, so neither a plus sign nor the sign of an escape
      rename_i hplain
      have hmark : ∀ b : UInt8, Char.ofNat b.toNat = '+' ∨ b = 0x25 → b ∈ Lib.FormText.marks :=
        Lib.FormText.forall_byte (by decide +kernel)
      have hplus : plusToBlank (Char.ofNat b.toNat) = Char.ofNat b.toNat :=
        if_neg fun heq => S.unmarked b hplain (hmark b (.inl heq))
      have hbyte : UInt8.ofNat (Char.ofNat b.toNat).toNat = b := by
        rw [Serializer.toNat_ofNat_byte, UInt8.ofNat_toNat]
      have hsign : b ≠ 0x25 := fun heq => S.unmarked b hplain (hmark b (.inr heq))
      rw [List.map_singleton, hplus]
      show percentDecode (UInt8.ofNat (Char.ofNat b.toNat).toNat :: bytes) = _
      rw [hbyte, percentDecode_cons hsign]
    · -- an escape, with both of its digits behind it
      have hb := b.toNat_lt
      have hfirst := plusToBlank_digit (b.toNat / 16) (by omega)
      have hsecond := plusToBlank_digit (b.toNat % 16) (by omega)
      rw [List.map_cons, List.map_cons, List.map_singleton, hfirst, hsecond]
      exact percentDecode_escape (hexByte_digits b) bytes

theorem percentDecode_text (bytes : List UInt8) :
    percentDecode (asciiBytes ((S.text bytes).map plusToBlank)) = bytes := by
  induction bytes with
  | nil => rfl
  | cons b bytes ih =>
      have hread := percentDecode_byteText (S := S) b (asciiBytes ((S.text bytes).map plusToBlank))
      unfold Serializer.text asciiBytes at *
      rw [List.flatMap_cons, List.map_append, List.map_append, hread, ih]

/-- **A value is read back**, whatever its characters are. -/
theorem urlDecode_text (value : String) : urlDecode (String.ofList (S.text (utf8 value))) = value := by
  have hascii : ∀ c ∈ (S.text (utf8 value)).map plusToBlank, c.toNat < 0x80 := by
    intro c hc
    obtain ⟨d, hd, rfl⟩ := List.mem_map.mp hc
    have hlt := (Serializer.isTextChar_of_mem_text hd).1
    unfold plusToBlank
    split
    · decide
    · exact hlt
  unfold urlDecode Text.fromUtf8Lossy
  rw [String.toList_ofList, utf8_of_ascii hascii, percentDecode_text, utf8_eq_flatMap, Text.decodeLossy_utf8,
    String.ofList_toList]

/-- A plain name is its own text. -/
theorem text_of_plain_name {name : String} (h : ∀ b ∈ utf8 name, N.plain b = true) :
    String.ofList (N.text (utf8 name)) = name := by
  have hascii : ∀ c ∈ N.text (utf8 name), c.toNat < 0x80 := fun c hc => (Serializer.isTextChar_of_mem_text hc).1
  refine utf8_injective ?_
  rw [utf8_of_ascii hascii, Serializer.text_of_plain h, asciiBytes, List.map_map]
  refine (List.map_congr_left fun b _ => ?_).trans (List.map_id _)
  show UInt8.ofNat (Char.ofNat b.toNat).toNat = b
  rw [Serializer.toNat_ofNat_byte, UInt8.ofNat_toNat]

/-- The pairs of a form are its fields. -/
theorem split_formBody {fields : List (String × String)} (h : fields ≠ []) :
    Text.split '&' (formBody N V fields) =
      fields.map fun f => String.ofList (Lib.FormText.field N V (utf8 f.1, utf8 f.2)) := by
  have hmark : ∀ piece ∈ (fields.map fun f => (utf8 f.1, utf8 f.2)).map (Lib.FormText.field N V), '&' ∉ piece := by
    intro piece hpiece hmem
    obtain ⟨bytes, -, rfl⟩ := List.mem_map.mp hpiece
    rcases List.mem_append.mp hmem with hname | hvalue
    · exact (Serializer.isTextChar_of_mem_text hname).2.1 rfl
    · rcases List.mem_cons.mp hvalue with heq | hvalue
      · exact absurd heq (by decide)
      · exact (Serializer.isTextChar_of_mem_text hvalue).2.1 rfl
  unfold Text.split formBody Lib.FormText.body
  rw [String.toList_ofList, List.splitOn_intercalate '&' hmark (by simpa using h), List.map_map, List.map_map]
  rfl

/-- What `form_field` makes of one pair. -/
theorem splitOnce_field (f : String × String) :
    Text.splitOnce '=' (String.ofList (Lib.FormText.field N V (utf8 f.1, utf8 f.2))) =
      some (String.ofList (N.text (utf8 f.1)), String.ofList (V.text (utf8 f.2))) :=
  Text.splitOnce_append (fun hmem => (Serializer.isTextChar_of_mem_text hmem).2.2 rfl) _

/-- **The first field of that name is read**, and nothing is where there is none. -/
theorem formField_formBody {field : String} (h : ∀ b ∈ utf8 field, N.plain b = true) (fields : List (String × String)) :
    formField (formBody N V fields) field = (fields.find? fun f => f.1 = field).map (·.2) := by
  -- the code compares the text of a name, and no other name has the text of this one
  have hname : ∀ name : String, String.ofList (N.text (utf8 name)) = field ↔ name = field := by
    intro name
    constructor
    · intro heq
      have htext : String.ofList (N.text (utf8 name)) = String.ofList (N.text (utf8 field)) :=
        heq.trans (text_of_plain_name h).symm
      rw [← urlDecode_text (S := N) name, htext, urlDecode_text]
    · rintro rfl
      exact text_of_plain_name h
  rcases eq_or_ne fields [] with rfl | hfields
  · -- the empty text is one pair, without an equals sign
    rfl
  unfold formField
  rw [split_formBody hfields, List.findSome?_map]
  clear hfields
  induction fields with
  | nil => rfl
  | cons f fields ih =>
      rw [List.findSome?_cons, List.find?_cons, Function.comp_apply, splitOnce_field f]
      dsimp only
      by_cases hf : f.1 = field
      · rw [if_pos ((hname f.1).mpr hf), urlDecode_text, decide_eq_true hf]
        rfl
      · rw [if_neg fun heq => hf ((hname f.1).mp heq), decide_eq_false hf]
        exact ih

end Form

/-- **Credential decoding.**  Bytes are read back from base64, with padding or without, and from hexadecimal.  A form
field is read back from a form, whatever its value, if nothing in its name is escaped: the first of that name, or
none. -/
theorem credential_decoding :
    (∀ (padded : Bool) (bytes : List UInt8),
      base64Decode (String.ofList (Lib.Base64.encode padded bytes)) = some bytes) ∧
    (∀ bytes : List UInt8, unhex (hex bytes) = some bytes) ∧
    ∀ (N V : Serializer) (fields : List (String × String)) (field : String), (∀ b ∈ utf8 field, N.plain b = true) →
      formField (formBody N V fields) field = (fields.find? fun f => f.1 = field).map (·.2) :=
  ⟨base64Decode_encode, unhex_hex, fun _ _ fields _ h => formField_formBody h fields⟩

/-- The first field of a name, with an escaped character of three bytes, a blank, and an escape that breaks off. -/
example : formField "user=%E2%82%AC+1%4&user=x" "user" = some "€ 1%4" := by decide +kernel

end Flock
