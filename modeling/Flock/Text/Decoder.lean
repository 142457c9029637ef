/-
# Flock.Text.Decoder — `TextDecoder` in its streaming mode.

Bytes arrive in chunks of any size, and a character may begin in one chunk and end in another: the decoder keeps the
bytes of a character that is not over.  A byte that cannot go on with it ends it.  What was kept becomes one
replacement character, and the byte is read again.

Decoding does not depend on the chunks (`decode_append`), a line feed is always read as one (`readByte_newline`), and
text is read back (`readBytes_utf8`).
-/
import Flock.Text.Lossy

namespace Flock.Text

/-- U+FFFD. -/
def replacement : Char := Char.ofNat 0xFFFD

/-- U+FEFF. -/
def byteOrderMark : Char := Char.ofNat 0xFEFF

/-- How many bytes a character has that begins so. -/
def charLen (lead : UInt8) : ℕ := if lead < 0xE0 then 2 else if lead < 0xF0 then 3 else 4

/-- The character of some bytes. -/
def decodedChar (bytes : List UInt8) : Char := (bytes.toByteArray.utf8DecodeChar? 0).getD replacement

/-- A byte between two characters: what is kept of it, and what it is read as. -/
def readLead (b : UInt8) : List UInt8 × List Char :=
  if b < 0x80 then ([], [decodedChar [b]])
  else if 0xC2 ≤ b && b ≤ 0xF4 then ([b], [])
  else ([], [replacement])

/-- A byte after those that are kept. -/
def readByte (pending : List UInt8) (b : UInt8) : List UInt8 × List Char :=
  match pending with
  | [] => readLead b
  | lead :: more =>
      if (if more.isEmpty then isSecond lead b else isContinuation b) then
        if more.length + 2 = charLen lead then ([], [decodedChar (lead :: more ++ [b])])
        else (lead :: more ++ [b], [])
      else ((readLead b).1, replacement :: (readLead b).2)

def readBytes : List UInt8 → List UInt8 → List UInt8 × List Char
  | pending, [] => (pending, [])
  | pending, b :: bytes =>
      ((readBytes (readByte pending b).1 bytes).1,
        (readByte pending b).2 ++ (readBytes (readByte pending b).1 bytes).2)

/-- `TextDecoder`: the bytes that are kept, and whether a byte order mark would be text. -/
structure TextDecoder where
  pending : List UInt8 := []
  bomSeen : Bool := false
  deriving DecidableEq, Repr

/-- `decode(value, { stream: true })`. -/
def TextDecoder.decode (d : TextDecoder) (value : List UInt8) : TextDecoder × List Char :=
  let (pending, text) := readBytes d.pending value
  if d.bomSeen || text.isEmpty then ({ d with pending }, text)
  else ({ pending, bomSeen := true }, if text.head? = some byteOrderMark then text.tail else text)

/-! ## Chunks -/

theorem readBytes_append (pending bytes rest : List UInt8) :
    readBytes pending (bytes ++ rest) =
      ((readBytes (readBytes pending bytes).1 rest).1,
        (readBytes pending bytes).2 ++ (readBytes (readBytes pending bytes).1 rest).2) := by
  induction bytes generalizing pending with
  | nil => rfl
  | cons b bytes ih =>
      rw [List.cons_append, readBytes, ih, readBytes]
      simp only [List.append_assoc]

/-- **Two chunks are decoded as one.** -/
theorem TextDecoder.decode_append (d : TextDecoder) (value rest : List UInt8) :
    d.decode (value ++ rest) =
      (((d.decode value).1.decode rest).1, (d.decode value).2 ++ ((d.decode value).1.decode rest).2) := by
  unfold TextDecoder.decode
  rw [readBytes_append]
  cases hbom : d.bomSeen with
  | true => simp
  | false =>
      cases htext : (readBytes d.pending value).2 with
      | nil => simp only [htext, List.nil_append, List.isEmpty_nil, Bool.or_true, if_true]
      | cons c text => by_cases hmark : c = byteOrderMark <;> simp [htext, hmark]

/-! ## Line feeds -/

/-- **A line feed** is one, whatever was kept. -/
theorem readByte_newline (pending : List UInt8) :
    readByte pending 0x0A = ([], (if pending = [] then [] else [replacement]) ++ ['\n']) := by
  have hlead : readLead 0x0A = ([], ['\n']) := by decide
  cases pending with
  | nil => exact hlead
  | cons lead more =>
      have hnot : (if more.isEmpty then isSecond lead 0x0A else isContinuation 0x0A) = false := by
        have hcontinuation : isContinuation 0x0A = false := by decide
        have hsecond : isSecond lead 0x0A = false := by
          unfold isSecond
          rw [hcontinuation, Bool.and_false]
          split_ifs <;> decide
        rw [hsecond, hcontinuation, ite_self]
      simp only [readByte, hnot, hlead]
      rfl

/-! ## Text -/

theorem isContinuation_iff (b : UInt8) : isContinuation b = true ↔ 0x80 ≤ b.toNat ∧ b.toNat ≤ 0xBF := by
  simp [isContinuation, UInt8.le_iff_toNat_le]

theorem decodedChar_encode (c : Char) : decodedChar (String.utf8EncodeChar c) = c := by
  have h : (String.utf8EncodeChar c).toByteArray.utf8DecodeChar? 0 = some c := by
    simpa using ByteArray.utf8DecodeChar?_utf8EncodeChar_append (b := ByteArray.empty) (c := c)
  rw [decodedChar, h, Option.getD_some]

theorem isSecond_iff (lead b : UInt8) : isSecond lead b = true ↔
    lead.toNat = 0xE0 ∧ 0xA0 ≤ b.toNat ∧ b.toNat ≤ 0xBF ∨ lead.toNat = 0xED ∧ 0x80 ≤ b.toNat ∧ b.toNat ≤ 0x9F ∨
    lead.toNat = 0xF0 ∧ 0x90 ≤ b.toNat ∧ b.toNat ≤ 0xBF ∨ lead.toNat = 0xF4 ∧ 0x80 ≤ b.toNat ∧ b.toNat ≤ 0x8F ∨
    (0xC2 ≤ lead.toNat ∧ lead.toNat < 0xF4 ∧ lead.toNat ≠ 0xE0 ∧ lead.toNat ≠ 0xED ∧ lead.toNat ≠ 0xF0) ∧
      0x80 ≤ b.toNat ∧ b.toNat ≤ 0xBF := by
  have hE0 : lead = 0xE0 ↔ lead.toNat = 0xE0 := UInt8.toNat_inj.symm
  have hED : lead = 0xED ↔ lead.toNat = 0xED := UInt8.toNat_inj.symm
  have hF0 : lead = 0xF0 ↔ lead.toNat = 0xF0 := UInt8.toNat_inj.symm
  have hF4 : lead = 0xF4 ↔ lead.toNat = 0xF4 := UInt8.toNat_inj.symm
  unfold isSecond
  split_ifs <;> simp_all [isContinuation_iff, UInt8.le_iff_toNat_le]
  omega

theorem charLen_eq (lead : UInt8) :
    charLen lead = if lead.toNat < 0xE0 then 2 else if lead.toNat < 0xF0 then 3 else 4 := by
  simp only [charLen, UInt8.lt_iff_toNat_lt]
  rfl

theorem readLead_of_ascii {b : UInt8} (h : b.toNat < 0x80) : readLead b = ([], [decodedChar [b]]) :=
  if_pos (UInt8.lt_iff_toNat_lt.mpr h)

theorem readLead_of_lead {b : UInt8} (h : 0xC2 ≤ b.toNat ∧ b.toNat ≤ 0xF4) : readLead b = ([b], []) := by
  have hascii : ¬ b < 0x80 := fun hb => by
    have := UInt8.lt_iff_toNat_lt.mp hb
    change b.toNat < 0x80 at this
    omega
  have hlead : (0xC2 ≤ b && b ≤ 0xF4) = true := by
    simp only [Bool.and_eq_true, decide_eq_true_eq, UInt8.le_iff_toNat_le]
    exact h
  rw [readLead, if_neg hascii, if_pos hlead]

/-- The second byte of a character, which may be its last. -/
theorem readByte_second {lead b : UInt8} (h : isSecond lead b = true) : readByte [lead] b =
    if charLen lead = 2 then ([], [decodedChar [lead, b]]) else ([lead, b], []) := by
  simp [readByte, h, eq_comm]

/-- The third. -/
theorem readByte_third {lead second b : UInt8} (h : isContinuation b = true) : readByte [lead, second] b =
    if charLen lead = 3 then ([], [decodedChar [lead, second, b]]) else ([lead, second, b], []) := by
  simp [readByte, h, eq_comm]

/-- The fourth. -/
theorem readByte_fourth {lead second third b : UInt8} (h : isContinuation b = true) : readByte [lead, second, third] b =
    if charLen lead = 4 then ([], [decodedChar [lead, second, third, b]]) else ([lead, second, third, b], []) := by
  simp [readByte, h, eq_comm]

section Steps

variable {pending kept : List UInt8} {b : UInt8} {c : Char}

theorem readBytes_of_kept (h : readByte pending b = (kept, [])) (bytes : List UInt8) :
    readBytes pending (b :: bytes) = readBytes kept bytes := by
  rw [readBytes, h]
  rfl

theorem readBytes_of_done (h : readByte pending b = ([], [c])) (bytes : List UInt8) :
    readBytes pending (b :: bytes) = ((readBytes [] bytes).1, c :: (readBytes [] bytes).2) := by
  rw [readBytes, h]
  rfl

end Steps

/-- **A character is read back**, whatever comes behind it. -/
theorem readBytes_encode (c : Char) (bytes : List UInt8) :
    readBytes [] (String.utf8EncodeChar c ++ bytes) = ((readBytes [] bytes).1, c :: (readBytes [] bytes).2) := by
  have hchar := decodedChar_encode c
  have hvalid : c.val.toNat < 0xD800 ∨ 0xDFFF < c.val.toNat ∧ c.val.toNat < 0x110000 := c.valid
  have hbyte : ∀ n < 256, (UInt8.ofNat n).toNat = n := fun n hn => UInt8.toNat_ofNat_of_lt' hn
  simp only [String.utf8EncodeChar] at hchar ⊢
  set v := c.val.toNat
  split_ifs at hchar ⊢ with h1 h2 h3
  -- one byte, below 0x80: it is done at once
  · have hlead := hbyte v (by omega)
    exact readBytes_of_done (hchar ▸ readLead_of_ascii (by omega)) bytes
  -- the lead byte is kept, and with the second the character is there
  · have hlead := hbyte (v / 64 % 0x20 + 0xC0) (by omega)
    have hsecond := hbyte (v % 0x40 + 0x80) (by omega)
    generalize UInt8.ofNat (v / 64 % 0x20 + 0xC0) = lead at *
    generalize UInt8.ofNat (v % 0x40 + 0x80) = second at *
    have hlen : charLen lead = 2 := by rw [charLen_eq, if_pos (by omega)]
    have hfirst : readByte [] lead = ([lead], []) := readLead_of_lead (by omega)
    have hlast : readByte [lead] second = ([], [c]) := by
      rw [readByte_second ((isSecond_iff lead second).mpr (by omega)), if_pos hlen, hchar]
    rw [List.cons_append, List.cons_append, readBytes_of_kept hfirst, readBytes_of_done hlast, List.nil_append]
  -- two bytes are kept
  · have hlead := hbyte (v / 4096 % 0x10 + 0xE0) (by omega)
    have hsecond := hbyte (v / 64 % 0x40 + 0x80) (by omega)
    have hthird := hbyte (v % 0x40 + 0x80) (by omega)
    generalize UInt8.ofNat (v / 4096 % 0x10 + 0xE0) = lead at *
    generalize UInt8.ofNat (v / 64 % 0x40 + 0x80) = second at *
    generalize UInt8.ofNat (v % 0x40 + 0x80) = third at *
    have hlen : charLen lead = 3 := by rw [charLen_eq, if_neg (by omega), if_pos (by omega)]
    have hfirst : readByte [] lead = ([lead], []) := readLead_of_lead (by omega)
    have hnext : readByte [lead] second = ([lead, second], []) := by
      rw [readByte_second ((isSecond_iff lead second).mpr (by omega)), if_neg (by omega)]
    have hlast : readByte [lead, second] third = ([], [c]) := by
      rw [readByte_third ((isContinuation_iff third).mpr (by omega)), if_pos hlen, hchar]
    rw [List.cons_append, List.cons_append, List.cons_append, readBytes_of_kept hfirst, readBytes_of_kept hnext,
      readBytes_of_done hlast, List.nil_append]
  -- three bytes are kept
  · have hlead := hbyte (v / 262144 % 0x08 + 0xF0) (by omega)
    have hsecond := hbyte (v / 4096 % 0x40 + 0x80) (by omega)
    have hthird := hbyte (v / 64 % 0x40 + 0x80) (by omega)
    have hfourth := hbyte (v % 0x40 + 0x80) (by omega)
    generalize UInt8.ofNat (v / 262144 % 0x08 + 0xF0) = lead at *
    generalize UInt8.ofNat (v / 4096 % 0x40 + 0x80) = second at *
    generalize UInt8.ofNat (v / 64 % 0x40 + 0x80) = third at *
    generalize UInt8.ofNat (v % 0x40 + 0x80) = fourth at *
    have hlen : charLen lead = 4 := by rw [charLen_eq, if_neg (by omega), if_neg (by omega)]
    have hfirst : readByte [] lead = ([lead], []) := readLead_of_lead (by omega)
    have hnext : readByte [lead] second = ([lead, second], []) := by
      rw [readByte_second ((isSecond_iff lead second).mpr (by omega)), if_neg (by omega)]
    have hthen : readByte [lead, second] third = ([lead, second, third], []) := by
      rw [readByte_third ((isContinuation_iff third).mpr (by omega)), if_neg (by omega)]
    have hlast : readByte [lead, second, third] fourth = ([], [c]) := by
      rw [readByte_fourth ((isContinuation_iff fourth).mpr (by omega)), if_pos hlen, hchar]
    rw [List.cons_append, List.cons_append, List.cons_append, List.cons_append, readBytes_of_kept hfirst,
      readBytes_of_kept hnext, readBytes_of_kept hthen, readBytes_of_done hlast, List.nil_append]

/-- **Text is read back.** -/
theorem readBytes_utf8 (cs : List Char) : readBytes [] (cs.flatMap String.utf8EncodeChar) = ([], cs) := by
  induction cs with
  | nil => rfl
  | cons c cs ih => rw [List.flatMap_cons, readBytes_encode, ih]

/-- **A decoder at its start** reads text back, but for a byte order mark in front. -/
theorem TextDecoder.decode_start (value : List UInt8) : (({} : TextDecoder).decode value).2 =
    if (readBytes [] value).2.head? = some byteOrderMark then (readBytes [] value).2.tail
    else (readBytes [] value).2 := by
  unfold TextDecoder.decode
  cases htext : (readBytes [] value).2 with
  | nil => simp [htext]
  | cons c text => simp [htext]

/-- A character of three bytes breaks off behind its second, in the next chunk. -/
example : (readBytes (readBytes [] [0x41, 0xE2]).1 [0x82, 0x42]).2 = [replacement, 'B'] := by decide +kernel

end Flock.Text
