/-
# Flock.Text.Lossy — `String::from_utf8_lossy`.

Text is read as far as it is UTF-8.  Where it is not, the longest part that could begin a character becomes one
replacement character, or else the one byte does.
-/
import Flock.Text.Slices

namespace Flock.Text

/-- A continuation byte. -/
def isContinuation (b : UInt8) : Bool := 0x80 ≤ b && b ≤ 0xBF

/-- The second byte of a character, for its first. -/
def isSecond (lead b : UInt8) : Bool :=
  if lead = 0xE0 then 0xA0 ≤ b && b ≤ 0xBF
  else if lead = 0xED then 0x80 ≤ b && b ≤ 0x9F
  else if lead = 0xF0 then 0x90 ≤ b && b ≤ 0xBF
  else if lead = 0xF4 then 0x80 ≤ b && b ≤ 0x8F
  else 0xC2 ≤ lead && lead ≤ 0xF4 && isContinuation b

/-- How many bytes one replacement stands for, where no character begins. -/
def invalidLen : List UInt8 → ℕ
  | lead :: second :: rest =>
      -- of two bytes there is no beginning but the first
      if lead < 0xE0 || !isSecond lead second then 1
      else if lead < 0xF0 then 2
      else if (rest.head?.map isContinuation).getD false then 3
      else 2
  | _ => 1

/-- The characters, of which the bytes of the first `skip` are done with. -/
def decodeLossy : ℕ → List UInt8 → List Char
  | _, [] => []
  | skip + 1, _ :: bytes => decodeLossy skip bytes
  | 0, b :: bytes =>
      match (b :: bytes).toByteArray.utf8DecodeChar? 0 with
      | some c => c :: decodeLossy (c.utf8Size - 1) bytes
      | none => Char.ofNat 0xFFFD :: decodeLossy (invalidLen (b :: bytes) - 1) bytes

/-- `String::from_utf8_lossy`. -/
def fromUtf8Lossy (bytes : List UInt8) : String := String.ofList (decodeLossy 0 bytes)

theorem decodeLossy_skip (done bytes : List UInt8) : decodeLossy done.length (done ++ bytes) = decodeLossy 0 bytes := by
  induction done with
  | nil => rfl
  | cons b done ih => exact ih

theorem decodeLossy_append (c : Char) (bytes : List UInt8) :
    decodeLossy 0 (String.utf8EncodeChar c ++ bytes) = c :: decodeLossy 0 bytes := by
  have hdecode : (String.utf8EncodeChar c ++ bytes).toByteArray.utf8DecodeChar? 0 = some c := by
    rw [List.toByteArray_append]
    exact ByteArray.utf8DecodeChar?_utf8EncodeChar_append
  have hsize := String.length_utf8EncodeChar c
  cases hbytes : String.utf8EncodeChar c with
  | nil => exact absurd hbytes String.utf8EncodeChar_ne_nil
  | cons b tail =>
      rw [hbytes] at hdecode hsize
      have htail : c.utf8Size - 1 = tail.length := by
        rw [← hsize, List.length_cons, Nat.add_sub_cancel]
      rw [List.cons_append] at hdecode ⊢
      rw [decodeLossy, hdecode]
      dsimp only
      rw [htail, decodeLossy_skip]

/-- **Text is read back.** -/
theorem decodeLossy_utf8 (cs : List Char) : decodeLossy 0 (cs.flatMap String.utf8EncodeChar) = cs := by
  induction cs with
  | nil => rfl
  | cons c cs ih => rw [List.flatMap_cons, decodeLossy_append, ih]

/-- A lone continuation byte, and a character of three bytes that breaks off behind its second. -/
example : decodeLossy 0 [0x41, 0x80, 0xE2, 0x82, 0x42] = ['A', Char.ofNat 0xFFFD, Char.ofNat 0xFFFD, 'B'] := by
  decide +kernel

end Flock.Text
