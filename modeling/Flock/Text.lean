/-
# Flock.Text — the string functions of the source's standard library.

`str` is UTF-8: `len` counts BYTES, `chars` are scalar values, `trim` removes Unicode white space.
Everything is written over the list of characters, so that it computes.
-/
import Mathlib.Algebra.Order.Ring.Nat
import Mathlib.Data.List.Basic

namespace Flock.Text

/-- `char::is_whitespace`: the Unicode property `White_Space`. -/
def isWhitespace (c : Char) : Bool :=
  let n := c.toNat
  (0x09 ≤ n && n ≤ 0x0D) || n == 0x20 || n == 0x85 || n == 0xA0 || n == 0x1680 ||
    (0x2000 ≤ n && n ≤ 0x200A) || n == 0x2028 || n == 0x2029 || n == 0x202F || n == 0x205F ||
    n == 0x3000

/-- `char::is_ascii_alphabetic`. -/
def isAsciiAlphabetic (c : Char) : Bool :=
  let n := c.toNat
  (0x41 ≤ n && n ≤ 0x5A) || (0x61 ≤ n && n ≤ 0x7A)

/-- `char::is_ascii_digit`. -/
def isAsciiDigit (c : Char) : Bool := let n := c.toNat; 0x30 ≤ n && n ≤ 0x39

/-- `char::is_ascii_alphanumeric`. -/
def isAsciiAlphanumeric (c : Char) : Bool := isAsciiAlphabetic c || isAsciiDigit c

/-- `char::is_ascii_hexdigit`. -/
def isAsciiHexdigit (c : Char) : Bool :=
  let n := c.toNat
  isAsciiDigit c || (0x41 ≤ n && n ≤ 0x46) || (0x61 ≤ n && n ≤ 0x66)

/-- `str::is_ascii`. -/
def isAscii (s : String) : Bool := s.toList.all fun c => c.toNat < 0x80

/-- `char::to_ascii_lowercase`. -/
def lowerChar (c : Char) : Char :=
  if 0x41 ≤ c.toNat ∧ c.toNat ≤ 0x5A then Char.ofNat (c.toNat + 0x20) else c

/-- `char::to_ascii_uppercase`. -/
def upperChar (c : Char) : Char :=
  if 0x61 ≤ c.toNat ∧ c.toNat ≤ 0x7A then Char.ofNat (c.toNat - 0x20) else c

/-- `str::to_ascii_lowercase`. -/
def toAsciiLowercase (s : String) : String := String.ofList (s.toList.map lowerChar)

/-- `str::to_ascii_uppercase`. -/
def toAsciiUppercase (s : String) : String := String.ofList (s.toList.map upperChar)

/-- `str::len`. -/
def len (s : String) : ℕ := s.utf8ByteSize

/-- `str::is_empty`. -/
def isEmpty (s : String) : Bool := s.toList.isEmpty

/-- `str::trim`. -/
def trim (s : String) : String :=
  String.ofList (((s.toList.dropWhile isWhitespace).reverse.dropWhile isWhitespace).reverse)

/-- `str::split(c)`: never empty, and empty pieces are kept. -/
def split (c : Char) (s : String) : List String := (s.toList.splitOn c).map String.ofList

/-- `str::strip_prefix`. -/
def stripStart (p s : String) : Option String :=
  if p.toList.isPrefixOf s.toList then some (String.ofList (s.toList.drop p.toList.length))
  else none

/-- `str::starts_with`. -/
def startsWith (p s : String) : Bool := p.toList.isPrefixOf s.toList

/-- `str::trim_end_matches(c)`. -/
def trimEndMatches (c : Char) (s : String) : String :=
  String.ofList ((s.toList.reverse.dropWhile (· == c)).reverse)

/-- `str::split_once(c)`: at the first `c`. -/
def splitOnce (c : Char) (s : String) : Option (String × String) :=
  match s.toList.span (· != c) with
  | (before, _ :: after) => some (String.ofList before, String.ofList after)
  | (_, []) => none

/-- `str::split_once(p)` for a character predicate, over the characters. -/
def splitOnceP (p : Char → Bool) (cs : List Char) : Option (List Char × List Char) :=
  match cs.span (fun c => !p c) with
  | (before, _ :: after) => some (before, after)
  | (_, []) => none

/-- `rfind(c)` and the two slices right after it: up to and including the last `c`, and the rest. -/
def splitAfterLast (c : Char) (cs : List Char) : Option (List Char × List Char) :=
  let rest := (cs.reverse.takeWhile (· != c)).reverse
  if rest.length = cs.length then none else some (cs.take (cs.length - rest.length), rest)

/-- `str::split_whitespace`: the maximal runs of other characters. -/
def splitWhitespace (cs : List Char) : List (List Char) :=
  (cs.splitOnP isWhitespace).filter fun piece => !piece.isEmpty

/-- `str::strip_suffix`. -/
def stripEnd (p cs : List Char) : Option (List Char) :=
  if p.isSuffixOf cs then some (cs.take (cs.length - p.length)) else none

/-- `str::lines`: a line ends in `\n` or `\r\n`; a last piece without a terminator is a line unless it
is empty, and keeps a bare `\r`. -/
def lines (cs : List Char) : List (List Char) :=
  let pieces := cs.splitOn '\n'
  let ended := pieces.dropLast.map fun piece => (stripEnd ['\r'] piece).getD piece
  ended ++ pieces.getLast?.toList.filter fun piece => !piece.isEmpty

/-- `str::len` of the string of these characters. -/
def byteLen (cs : List Char) : ℕ := (cs.map Char.utf8Size).sum

/-- The value of a string of ASCII digits; `none` if it is empty or has anything else. -/
def digitsValue (cs : List Char) : Option ℕ :=
  if cs.isEmpty || !cs.all isAsciiDigit then none
  else some (cs.foldl (fun n c => 10 * n + (c.toNat - 0x30)) 0)

/-- `str::parse` into an unsigned integer of `bits` bits: a plus sign is allowed, overflow is an
error. -/
def parseUnsigned (bits : ℕ) (s : String) : Option ℕ :=
  let digits := match s.toList with
    | '+' :: rest => rest
    | cs => cs
  (digitsValue digits).filter (· < 2 ^ bits)

theorem isEmpty_iff (s : String) : isEmpty s = true ↔ s = "" := by
  rw [isEmpty, List.isEmpty_iff]
  constructor
  · intro h
    exact String.toList_injective (by simpa using h)
  · rintro rfl
    rfl

end Flock.Text
