/-
# Flock.Lib.Format — one-line texts that are printed and read back.

A `Format` is a printer and a reader with two proofs: the reader takes exactly what the printer wrote off
the front of a text, and what is printed holds no line feed.  Decimal numbers end where the digits end, so
the first law is for texts that do not go on with a digit (`Stops`); a `Block` is a format whose own text
never starts with one, and so may follow a number.

The formats here are those of compact JSON: literals, decimal numbers, quoted strings, comma-separated
items, an optional last field.  Nothing here names a particular program.
-/
import Mathlib.Data.List.Basic
import Mathlib.Tactic.IntervalCases

namespace Flock.Lib

/-- The text does not go on with a digit. -/
def Stops (text : List Char) : Prop := ∀ c ∈ text.head?, c.isDigit = false

/-- A character that is no digit stops a number. -/
theorem stops_cons {c : Char} (h : c.isDigit = false) (text : List Char) : Stops (c :: text) := by
  rintro _ ⟨⟩
  exact h

/-- **`Format α`** — how an `α` is printed, and how it is read off the front of a text. -/
structure Format (α : Type) where
  print : α → List Char
  read : List Char → Option (α × List Char)
  read_print : ∀ x rest, Stops rest → read (print x ++ rest) = some (x, rest)
  oneLine : ∀ x, '\n' ∉ print x

/-- A format whose text never starts with a digit. -/
structure Block (α : Type) extends Format α where
  stops : ∀ x rest, Stops (print x ++ rest)

/-- A text that may follow a number: it starts with something that is no digit, and holds no line
feed. -/
structure Mark where
  first : Char
  rest : List Char
  notDigit : first.isDigit = false
  oneLine : '\n' ∉ first :: rest

/-- The text of a mark. -/
def Mark.text (m : Mark) : List Char := m.first :: m.rest

namespace Format

variable {α β : Type}

/-! ## Literals

A literal is its own text; it is read by taking it off. -/

/-- Take a literal off the front of a text. -/
def strip : List Char → List Char → Option (List Char)
  | [], text => some text
  | c :: lit, d :: text => if c = d then strip lit text else none
  | _ :: _, [] => none

/-- What was put in front can be taken off. -/
theorem strip_append (lit rest : List Char) : strip lit (lit ++ rest) = some rest := by
  induction lit with
  | nil => rfl
  | cons c lit ih => simp [strip, ih]

/-- A mark, then the format. -/
def lead (m : Mark) (f : Format α) : Block α where
  print x := m.text ++ f.print x
  read text := (strip m.text text).bind f.read
  read_print := by
    intro x rest hrest
    rw [List.append_assoc, strip_append]
    exact f.read_print x rest hrest
  oneLine := by
    intro x hmem
    rcases List.mem_append.mp hmem with h | h
    · exact m.oneLine h
    · exact f.oneLine x h
  stops _ _ := stops_cons m.notDigit _

/-- The format, then a mark. -/
def trail (f : Format α) (m : Mark) : Format α where
  print x := f.print x ++ m.text
  read text := (f.read text).bind fun (x, text) => (strip m.text text).map fun text => (x, text)
  read_print := by
    intro x rest _
    rw [List.append_assoc, f.read_print x (m.text ++ rest) (stops_cons m.notDigit _)]
    simp [strip_append]
  oneLine := by
    intro x hmem
    rcases List.mem_append.mp hmem with h | h
    · exact f.oneLine x h
    · exact m.oneLine h

/-! ## Sequences and other types

Two formats in a row need no separator if the second is a block, since the first reader stops there by itself. -/

/-- One format after another. -/
def seq (f : Format α) (g : Block β) : Format (α × β) where
  print x := f.print x.1 ++ g.print x.2
  read text := (f.read text).bind fun (x, text) => (g.read text).map fun (y, text) => ((x, y), text)
  read_print := by
    rintro ⟨x, y⟩ rest hrest
    rw [List.append_assoc, f.read_print x _ (g.stops y rest)]
    simp [g.read_print y rest hrest]
  oneLine := by
    rintro ⟨x, y⟩ hmem
    rcases List.mem_append.mp hmem with h | h
    · exact f.oneLine x h
    · exact g.oneLine y h

/-- The same text for another type: `get` reads what `put` gives back. -/
def convert (f : Format α) (get : α → Option β) (put : β → α) (h : ∀ y, get (put y) = some y) :
    Format β where
  print y := f.print (put y)
  read text := (f.read text).bind fun (x, text) => (get x).map fun y => (y, text)
  read_print := by
    intro y rest hrest
    simp [f.read_print (put y) rest hrest, h y]
  oneLine y := f.oneLine (put y)

/-! ## Formats that end by themselves

A number does not know where it ends, and all else does.  A format that ends by itself is told from any other text of
its own, so a list of them can be compared item by item. -/

/-- Whatever follows, the reader stops where the printer did. -/
def Closed (f : Format α) : Prop := ∀ x rest, f.read (f.print x ++ rest) = some (x, rest)

/-- A mark in front changes nothing. -/
theorem Closed.lead {f : Format α} (h : f.Closed) (m : Mark) : (Format.lead m f).toFormat.Closed := by
  intro x rest
  show (strip m.text (m.text ++ f.print x ++ rest)).bind f.read = some (x, rest)
  rw [List.append_assoc, strip_append]
  exact h x rest

/-- A mark at the end makes it so. -/
theorem closed_trail (f : Format α) (m : Mark) : (f.trail m).Closed := by
  intro x rest
  show (f.read (f.print x ++ m.text ++ rest)).bind _ = some (x, rest)
  rw [List.append_assoc, f.read_print x (m.text ++ rest) (stops_cons m.notDigit _)]
  simp [strip_append]

theorem Closed.seq {g : Block β} (h : g.toFormat.Closed) (f : Format α) : (f.seq g).Closed := by
  rintro ⟨x, y⟩ rest
  show (f.read (f.print x ++ g.print y ++ rest)).bind _ = some ((x, y), rest)
  rw [List.append_assoc, f.read_print x _ (g.stops y rest)]
  simp [h y rest]

theorem Closed.convert {f : Format α} (h : f.Closed) {get : α → Option β} {put : β → α}
    (hget : ∀ y, get (put y) = some y) : (f.convert get put hget).Closed := by
  intro y rest
  show (f.read (f.print (put y) ++ rest)).bind _ = some (y, rest)
  simp [h (put y) rest, hget y]

/-- No text of the format starts another. -/
theorem Closed.eq_of_prefix {f : Format α} (h : f.Closed) {x y : α} (hcut : f.print x <+: f.print y) :
    x = y := by
  obtain ⟨rest, hrest⟩ := hcut
  have hx := h x rest
  have hy := h y []
  rw [hrest] at hx
  rw [List.append_nil, hx] at hy
  exact (Prod.mk.inj (Option.some.inj hy)).1

/-! ## Numbers

Numbers are printed without leading zeros, and only that is read back. -/

/-- A decimal number. -/
def nat : Format ℕ where
  print n := Nat.toDigits 10 n
  read text :=
    if (text.takeWhile Char.isDigit).isEmpty then none
    else some (Nat.ofDigitChars 10 (text.takeWhile Char.isDigit) 0, text.dropWhile Char.isDigit)
  read_print := by
    intro n rest hrest
    have hdigits : ∀ c ∈ Nat.toDigits 10 n, c.isDigit = true := fun c hc =>
      Nat.isDigit_of_mem_toDigits (by decide) (by decide) hc
    have hnil : rest.takeWhile Char.isDigit = [] ∧ rest.dropWhile Char.isDigit = rest := by
      cases rest with
      | nil => exact ⟨rfl, rfl⟩
      | cons c cs =>
          have hc := hrest c rfl
          simp [hc]
    have htake : (Nat.toDigits 10 n ++ rest).takeWhile Char.isDigit = Nat.toDigits 10 n := by
      rw [List.takeWhile_append_of_pos hdigits, hnil.1, List.append_nil]
    have hdrop : (Nat.toDigits 10 n ++ rest).dropWhile Char.isDigit = rest := by
      rw [List.dropWhile_append_of_pos hdigits, hnil.2]
    rw [htake, hdrop, Nat.ofDigitChars_ten_toDigits]
    simp [Nat.toDigits_ne_nil]
  oneLine n hmem := absurd (Nat.isDigit_of_mem_toDigits (by decide) (by decide) hmem) (by decide)

theorem exists_cons_print_nat (n : ℕ) : ∃ c cs, nat.print n = c :: cs ∧ c.isDigit = true := by
  obtain ⟨c, cs, hcons⟩ := List.exists_cons_of_ne_nil (Nat.toDigits_ne_nil (n := n) (b := 10))
  refine ⟨c, cs, hcons, ?_⟩
  apply Nat.isDigit_of_mem_toDigits (b := 10) (n := n) (by decide) (by decide)
  simp [hcons]

/-- A decimal number with a sign if it is negative. -/
def int : Format ℤ where
  print
    | .ofNat n => nat.print n
    | .negSucc n => '-' :: nat.print (n + 1)
  read
    | '-' :: text => (nat.read text).map fun (n, text) => (-(n : ℤ), text)
    | text => (nat.read text).map fun (n, text) => ((n : ℤ), text)
  read_print := by
    rintro (n | n) rest hrest
    · have hread := nat.read_print n rest hrest
      obtain ⟨c, cs, hcons, hc⟩ := exists_cons_print_nat n
      split
      · rename_i text htext
        have hdash : c = '-' := by
          simp only [hcons, List.cons_append, List.cons.injEq] at htext
          exact htext.1
        exact absurd (hdash ▸ hc) (by decide)
      · simp [hread]
    · simp [nat.read_print (n + 1) rest hrest, Int.negSucc_eq]
  oneLine := by
    rintro (n | n)
    · exact nat.oneLine n
    · simpa using nat.oneLine (n + 1)

/-! ## Items

A list is read with fuel for its length; the closing character is told from the start of an item. -/

/-- Items with commas between them, and the closing character. -/
def printItems (f : Format α) (close : Char) : List α → List Char
  | [] => [close]
  | [x] => f.print x ++ [close]
  | x :: y :: rest => f.print x ++ ',' :: printItems f close (y :: rest)

/-- Read items up to the closing character. -/
def readItems (f : Format α) (close : Char) : ℕ → List Char → Option (List α × List Char)
  | 0, _ => none
  | fuel + 1, text =>
      match strip [close] text with
      | some text => some ([], text)
      | none =>
          match f.read text with
          | some (x, ',' :: text) => (readItems f close fuel text).map fun (xs, text) => (x :: xs, text)
          | some (x, text) => (strip [close] text).map fun text => ([x], text)
          | none => none

/-- A list is not longer than its text. -/
theorem length_le_length_printItems (f : Format α) (close : Char) (xs : List α) :
    xs.length ≤ (printItems f close xs).length := by
  fun_induction printItems f close xs with
  | case1 => simp
  | case2 x => simp
  | case3 x y rest ih =>
      simp only [List.length_cons, List.length_append] at ih ⊢
      omega

/-- With enough fuel the items come back. -/
theorem readItems_printItems {f : Format α} {close : Char} (hdigit : close.isDigit = false)
    (hcomma : close ≠ ',') (hstart : ∀ x, ∃ c cs, f.print x = c :: cs ∧ c ≠ close) (xs : List α)
    (rest : List Char) :
    ∀ fuel, xs.length < fuel → readItems f close fuel (printItems f close xs ++ rest) = some (xs, rest) := by
  -- an item's text is not taken for the end of the list
  have hopen : ∀ x text, strip [close] (f.print x ++ text) = none := by
    intro x text
    obtain ⟨c, cs, hx, hne⟩ := hstart x
    simp [hx, strip, hne.symm]
  fun_induction printItems f close xs with
  | case1 =>
      rintro (_ | fuel) hfuel
      · cases hfuel
      · simp [readItems, strip]
  | case2 x =>
      rintro (_ | fuel) hfuel
      · cases hfuel
      · have hread : f.read (f.print x ++ close :: rest) = some (x, close :: rest) :=
          f.read_print x _ (stops_cons hdigit _)
        simp [readItems, hopen, hread, strip, hcomma]
  | case3 x y ys ih =>
      rintro (_ | fuel) hfuel
      · cases hfuel
      · have htail := ih fuel (Nat.lt_of_succ_lt_succ hfuel)
        have hread : f.read (f.print x ++ ',' :: (printItems f close (y :: ys) ++ rest)) =
            some (x, ',' :: (printItems f close (y :: ys) ++ rest)) :=
          f.read_print x _ (stops_cons (by decide) _)
        simp [readItems, hopen, hread, htail]

/-- A list of items up to a closing character no item starts with. -/
def items (f : Format α) (close : Char) (hdigit : close.isDigit = false) (hcomma : close ≠ ',')
    (hline : close ≠ '\n') (hstart : ∀ x, ∃ c cs, f.print x = c :: cs ∧ c ≠ close) :
    Format (List α) where
  print := printItems f close
  read text := readItems f close (text.length + 1) text
  read_print := by
    intro xs rest _
    apply readItems_printItems hdigit hcomma hstart
    have := length_le_length_printItems f close xs
    simp only [List.length_append]
    omega
  oneLine := by
    intro xs
    fun_induction printItems f close xs with
    | case1 => simpa using hline.symm
    | case2 x => simpa using ⟨f.oneLine x, hline.symm⟩
    | case3 x y rest ih => simpa using ⟨f.oneLine x, ih⟩

/-! ## Strings

Two-character escapes for what JSON names, `\u00xx` for the other control characters, and every other character as it
is. -/

/-- How a character stands in a quoted string. -/
def escape (c : Char) : List Char :=
  if c = '"' then ['\\', '"']
  else if c = '\\' then ['\\', '\\']
  else if c = '\n' then ['\\', 'n']
  else if c = '\r' then ['\\', 'r']
  else if c = '\t' then ['\\', 't']
  else if c.toNat = 0x08 then ['\\', 'b']
  else if c.toNat = 0x0c then ['\\', 'f']
  else if c.toNat < 0x20 then
    ['\\', 'u', '0', '0', Nat.digitChar (c.toNat / 16), Nat.digitChar (c.toNat % 16)]
  else [c]

/-- The value of a hexadecimal digit. -/
def hexValue (c : Char) : Option ℕ := (List.range 16).find? fun n => Nat.digitChar n == c

/-- The character of a two-character escape. -/
def unescape (c : Char) : Option Char :=
  if c = '"' then some '"'
  else if c = '\\' then some '\\'
  else if c = 'n' then some '\n'
  else if c = 'r' then some '\r'
  else if c = 't' then some '\t'
  else if c = 'b' then some (Char.ofNat 0x08)
  else if c = 'f' then some (Char.ofNat 0x0c)
  else none

/-- Read a quoted string from after its opening quote. -/
def readQuoted : List Char → Option (List Char × List Char)
  | [] => none
  | '"' :: rest => some ([], rest)
  | '\\' :: 'u' :: '0' :: '0' :: a :: b :: rest =>
      match hexValue a, hexValue b with
      | some high, some low =>
          (readQuoted rest).map fun (cs, rest) => (Char.ofNat (16 * high + low) :: cs, rest)
      | _, _ => none
  | '\\' :: e :: rest =>
      match unescape e with
      | some c => (readQuoted rest).map fun (cs, rest) => (c :: cs, rest)
      | none => none
  | c :: rest => (readQuoted rest).map fun (cs, rest) => (c :: cs, rest)

/-- The control characters, one by one. -/
theorem readQuoted_escape_control {n : ℕ} (hn : n < 0x20) (rest : List Char) :
    readQuoted (escape (Char.ofNat n) ++ rest) =
      (readQuoted rest).map fun (cs, rest) => (Char.ofNat n :: cs, rest) := by
  interval_cases n <;> rfl

theorem readQuoted_escape (c : Char) (rest : List Char) :
    readQuoted (escape c ++ rest) = (readQuoted rest).map fun (cs, rest) => (c :: cs, rest) := by
  by_cases hcontrol : c.toNat < 0x20
  · simpa only [Char.ofNat_toNat] using readQuoted_escape_control hcontrol rest
  · by_cases hquote : c = '"'
    · subst hquote
      rfl
    · by_cases hback : c = '\\'
      · subst hback
        rfl
      · have hplain : escape c = [c] := by
          have h : ∀ d : Char, d.toNat < 0x20 → c ≠ d := fun d hd h => hcontrol (h ▸ hd)
          simp only [escape, hquote, hback, h '\n' (by decide), h '\r' (by decide),
            h '\t' (by decide), hcontrol, if_false]
          rw [if_neg (by omega), if_neg (by omega)]
        rw [hplain, List.singleton_append, readQuoted.eq_def]
        split
        all_goals simp_all

theorem readQuoted_flatMap_escape (cs rest : List Char) :
    readQuoted (cs.flatMap escape ++ '"' :: rest) = some (cs, rest) := by
  induction cs with
  | nil => rfl
  | cons c cs ih => rw [List.flatMap_cons, List.append_assoc, readQuoted_escape, ih]; rfl

theorem newline_notMem_escape (c : Char) : '\n' ∉ escape c := by
  by_cases hcontrol : c.toNat < 0x20
  · have h : ∀ n < 0x20, '\n' ∉ escape (Char.ofNat n) := by decide
    simpa only [Char.ofNat_toNat] using h c.toNat hcontrol
  · have hne : c ≠ '\n' := fun h => hcontrol (h ▸ by decide)
    simp only [escape, hne, hcontrol, if_false]
    split_ifs <;> simp_all [eq_comm]

/-- A quoted string. -/
def quoted : Format String where
  print s := '"' :: (s.toList.flatMap escape ++ ['"'])
  read text := ((strip ['"'] text).bind readQuoted).map fun (cs, text) => (String.ofList cs, text)
  read_print := by
    intro s rest _
    simp [strip, readQuoted_flatMap_escape]
  oneLine := by
    intro s hmem
    simp [newline_notMem_escape] at hmem

/-! ## Choices

A field that may be absent shows it by its first character. -/

/-- Nothing is one mark; something is another mark, then the format. -/
def optional (absent present : Mark) (f : Format α) (h : absent.first ≠ present.first) :
    Block (Option α) where
  print
    | none => absent.text
    | some x => present.text ++ f.print x
  read text :=
    match strip absent.text text with
    | some text => some (none, text)
    | none => ((lead present f).read text).map fun (x, text) => (some x, text)
  read_print := by
    rintro (_ | x) rest hrest
    · simp [strip_append]
    · have hother : strip absent.text (present.text ++ f.print x ++ rest) = none := by
        simp [Mark.text, strip, h]
      have hread : (lead present f).read (present.text ++ f.print x ++ rest) = some (x, rest) :=
        (lead present f).read_print x rest hrest
      simp only [hother, hread, Option.map_some]
  oneLine := by
    rintro (_ | x)
    · exact absent.oneLine
    · exact (lead present f).oneLine x
  stops := by
    rintro (_ | x) rest
    · exact stops_cons absent.notDigit _
    · exact stops_cons present.notDigit _

/-- It ends by itself if the format does. -/
theorem Closed.optional {f : Format α} (hf : f.Closed) {absent present : Mark}
    (h : absent.first ≠ present.first) : (optional absent present f h).toFormat.Closed := by
  rintro (_ | x) rest
  · show (match strip absent.text (absent.text ++ rest) with
      | some text => some (none, text)
      | none => _) = _
    rw [strip_append]
  · have hother : strip absent.text (present.text ++ f.print x ++ rest) = none := by
      simp [Mark.text, strip, h]
    have hread : (Format.lead present f).read (present.text ++ f.print x ++ rest) = some (x, rest) :=
      hf.lead present x rest
    show (match strip absent.text (present.text ++ f.print x ++ rest) with
      | some text => some (none, text)
      | none => ((Format.lead present f).read (present.text ++ f.print x ++ rest)).map _) = _
    simp only [hother, hread, Option.map_some]

end Format

end Flock.Lib
