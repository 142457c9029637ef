/-
# Flock.Lib.FormText — bytes as form text: `application/x-www-form-urlencoded`.

A serializer leaves some characters as they are, writes a blank as a plus sign, and every other byte as `%` and two
digits.  Serializers differ in what they leave (`urlencoded`, `unreserved`); whatever it is, it is visible ASCII without
the marks of the format.  Fields are a name and a value, each serialized, with `=` between them, and `&` between fields.
-/
import Mathlib.Data.List.Basic

namespace Flock.Lib.FormText

/-- The bytes of `%`, `&`, `+` and `=`. -/
def marks : List UInt8 := [0x25, 0x26, 0x2B, 0x3D]

/-- **`Serializer`** — the bytes that stay as they are. -/
structure Serializer where
  plain : UInt8 → Bool
  visible : ∀ b, plain b = true → 0x20 < b.toNat ∧ b.toNat < 0x7F
  unmarked : ∀ b, plain b = true → b ∉ marks

def isAlphanumeric (b : UInt8) : Bool :=
  (0x30 ≤ b.toNat && b.toNat ≤ 0x39) || (0x41 ≤ b.toNat && b.toNat ≤ 0x5A) || (0x61 ≤ b.toNat && b.toNat ≤ 0x7A)

theorem forall_byte {P : UInt8 → Prop} (h : ∀ n < 256, P (UInt8.ofNat n)) (b : UInt8) : P b := by
  have hb := h b.toNat b.toNat_lt
  rwa [UInt8.ofNat_toNat] at hb

/-- What a browser leaves: letters, digits and `* - . _`. -/
def urlencoded : Serializer where
  plain b := isAlphanumeric b || b == 0x2A || b == 0x2D || b == 0x2E || b == 0x5F
  visible := forall_byte (by decide +kernel)
  unmarked := forall_byte (by decide +kernel)

/-- The unreserved characters of a URI: letters, digits and `- . _ ~`. -/
def unreserved : Serializer where
  plain b := isAlphanumeric b || b == 0x2D || b == 0x2E || b == 0x5F || b == 0x7E
  visible := forall_byte (by decide +kernel)
  unmarked := forall_byte (by decide +kernel)

/-- A hexadecimal digit, upper case. -/
def upperHexDigit (n : ℕ) : Char := if n < 10 then Char.ofNat (0x30 + n) else Char.ofNat (0x41 + (n - 10))

namespace Serializer

variable (S : Serializer)

def byteText (b : UInt8) : List Char :=
  if b = 0x20 then ['+']
  else if S.plain b then [Char.ofNat b.toNat]
  else ['%', upperHexDigit (b.toNat / 16), upperHexDigit (b.toNat % 16)]

def text (bytes : List UInt8) : List Char := bytes.flatMap S.byteText

/-- A character that may be in a serialized text. -/
def IsTextChar (c : Char) : Prop := c.toNat < 0x80 ∧ c ≠ '&' ∧ c ≠ '='

variable {S}

theorem upperHexDigit_isTextChar : ∀ n < 16, IsTextChar (upperHexDigit n) := by
  have h : ∀ n < 16, (upperHexDigit n).toNat < 0x80 ∧ upperHexDigit n ≠ '&' ∧ upperHexDigit n ≠ '=' := by decide
  exact h

theorem toNat_ofNat_byte (b : UInt8) : (Char.ofNat b.toNat).toNat = b.toNat :=
  forall_byte (P := fun b => (Char.ofNat b.toNat).toNat = b.toNat) (by decide +kernel) b

theorem plain_isTextChar {b : UInt8} (h : S.plain b = true) : IsTextChar (Char.ofNat b.toNat) := by
  have hmark : ∀ b : UInt8, Char.ofNat b.toNat = '&' ∨ Char.ofNat b.toNat = '=' → b ∈ marks :=
    forall_byte (by decide +kernel)
  have hvisible := (S.visible b h).2
  refine ⟨by rw [toNat_ofNat_byte]; omega, fun heq => ?_, fun heq => ?_⟩
  · exact S.unmarked b h (hmark b (.inl heq))
  · exact S.unmarked b h (hmark b (.inr heq))

/-- **No mark is in a text.** -/
theorem isTextChar_of_mem_text {bytes : List UInt8} {c : Char} (h : c ∈ S.text bytes) : IsTextChar c := by
  obtain ⟨b, -, hc⟩ := List.mem_flatMap.mp h
  have hb := b.toNat_lt
  unfold byteText at hc
  -- a plus sign, the byte itself, or the three characters of an escape
  split at hc
  · obtain rfl := List.mem_singleton.mp hc
    exact ⟨by decide, by decide, by decide⟩
  · split at hc
    · rename_i hplain
      obtain rfl := List.mem_singleton.mp hc
      exact plain_isTextChar hplain
    · simp only [List.mem_cons, List.not_mem_nil, or_false] at hc
      rcases hc with rfl | rfl | rfl
      · exact ⟨by decide, by decide, by decide⟩
      · exact upperHexDigit_isTextChar _ (by omega)
      · exact upperHexDigit_isTextChar _ (by omega)

/-- Plain bytes are their own text. -/
theorem text_of_plain {bytes : List UInt8} (h : ∀ b ∈ bytes, S.plain b = true) :
    S.text bytes = bytes.map fun b => Char.ofNat b.toNat := by
  induction bytes with
  | nil => rfl
  | cons b bytes ih =>
      have hplain := h b List.mem_cons_self
      have hvisible := (S.visible b hplain).1
      have hblank : b ≠ 0x20 := by
        rintro rfl
        exact absurd hvisible (by decide)
      have hbyte : S.byteText b = [Char.ofNat b.toNat] := by
        unfold byteText
        rw [if_neg hblank, if_pos hplain]
      have hrest := ih fun b hb => h b (List.mem_cons_of_mem _ hb)
      unfold text at hrest ⊢
      rw [List.flatMap_cons, hbyte, hrest]
      rfl

end Serializer

/-- The text of one field.  Its name and its value may be serialized differently. -/
def field (N V : Serializer) (f : List UInt8 × List UInt8) : List Char := N.text f.1 ++ '=' :: V.text f.2

/-- The text of a form. -/
def body (N V : Serializer) (fields : List (List UInt8 × List UInt8)) : List Char :=
  ['&'].intercalate (fields.map (field N V))

end Flock.Lib.FormText
