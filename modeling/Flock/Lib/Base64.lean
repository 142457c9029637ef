/-
# Flock.Lib.Base64 — the base64 encoding of bytes.

Three bytes are four digits of six bits.  A last group of one byte has two digits, one of two bytes has three; what is
left of the last digit is zero, and the group may be padded to four.
-/
import Mathlib.Data.List.Basic

namespace Flock.Lib.Base64

/-- The digit of six bits. -/
def digit (n : ℕ) : Char :=
  if n < 26 then Char.ofNat (0x41 + n)
  else if n < 52 then Char.ofNat (0x61 + (n - 26))
  else if n < 62 then Char.ofNat (0x30 + (n - 52))
  else if n = 62 then '+'
  else '/'

/-- The bytes, six bits at a time. -/
def sextets : List UInt8 → List ℕ
  | [] => []
  | [a] => [a.toNat / 4, a.toNat % 4 * 16]
  | [a, b] => [a.toNat / 4, a.toNat % 4 * 16 + b.toNat / 16, b.toNat % 16 * 4]
  | a :: b :: c :: rest =>
      a.toNat / 4 :: (a.toNat % 4 * 16 + b.toNat / 16) :: (b.toNat % 16 * 4 + c.toNat / 64) :: c.toNat % 64 ::
        sextets rest

/-- What fills the last group. -/
def padding (bytes : List UInt8) : List Char := List.replicate ((3 - bytes.length % 3) % 3) '='

/-- The encoding. -/
def encode (padded : Bool) (bytes : List UInt8) : List Char :=
  (sextets bytes).map digit ++ if padded then padding bytes else []

theorem lt_of_mem_sextets {bytes : List UInt8} {n : ℕ} (h : n ∈ sextets bytes) : n < 64 := by
  induction bytes using sextets.induct with
  | case1 => cases h
  | case2 a =>
      have ha := a.toNat_lt
      simp only [sextets, List.mem_cons, List.not_mem_nil, or_false] at h
      omega
  | case3 a b =>
      have ha := a.toNat_lt
      have hb := b.toNat_lt
      simp only [sextets, List.mem_cons, List.not_mem_nil, or_false] at h
      omega
  | case4 a b c rest ih =>
      have ha := a.toNat_lt
      have hb := b.toNat_lt
      have hc := c.toNat_lt
      rw [sextets] at h
      simp only [List.mem_cons] at h
      rcases h with h | h | h | h | h
      · omega
      · omega
      · omega
      · omega
      · exact ih h

/-- Every digit is a letter, a digit, a plus sign or a slash. -/
theorem digit_ascii : ∀ n < 64, (digit n).toNat < 0x80 ∧ 0x20 < (digit n).toNat ∧ digit n ≠ '=' := by decide

theorem eq_of_mem_padding {padded : Bool} {bytes : List UInt8} {c : Char}
    (h : c ∈ if padded then padding bytes else []) : c = '=' := by
  cases padded with
  | false => cases h
  | true => exact List.eq_of_mem_replicate h

end Flock.Lib.Base64
