/-
# Flock.Text.Slices — splitting a `str`: at its bytes, at its characters, and into numbers.

A byte offset has to fall between two characters; where it does not, a slice panics, which is `none` here.

The model keeps texts as lists of characters, so an offset is turned into a place between two of them.  What the
lemmas say is where the pieces are cut: at a byte (`splitAt`), at the first character of a kind (`span`, `splitOnce`),
or between separators.
-/
import Mathlib.Data.List.Induction
import Mathlib.Data.List.TakeDrop
import Mathlib.Data.List.TakeWhile
import Flock.Text

namespace Flock.Text

variable {cs before after : List Char} {c : Char}

/-! ## Byte offsets -/

@[simp] theorem byteLen_nil : byteLen [] = 0 := rfl

@[simp] theorem byteLen_cons (c : Char) (cs : List Char) : byteLen (c :: cs) = c.utf8Size + byteLen cs := by
  simp [byteLen]

@[simp] theorem byteLen_append (before after : List Char) :
    byteLen (before ++ after) = byteLen before + byteLen after := by
  simp [byteLen]

/-- A character has a byte at least. -/
theorem length_le_byteLen (cs : List Char) : cs.length ≤ byteLen cs := by
  induction cs with
  | nil => exact le_refl 0
  | cons c cs ih =>
      have hsize := c.utf8Size_pos
      rw [List.length_cons, byteLen_cons]
      omega

/-- **`IsCharBoundary i cs`** — byte `i` is between two characters, or at an end. -/
def IsCharBoundary (i : ℕ) (cs : List Char) : Prop := ∃ before after, cs = before ++ after ∧ byteLen before = i

/-- `str::split_at`; `none`: it panics. -/
def splitAt (i : ℕ) : List Char → Option (List Char × List Char)
  | [] => if i = 0 then some ([], []) else none
  | c :: cs =>
      if i = 0 then some ([], c :: cs)
      else if c.utf8Size ≤ i then (splitAt (i - c.utf8Size) cs).map fun (before, after) => (c :: before, after)
      else none

/-- In front of everything is a boundary. -/
theorem splitAt_zero (cs : List Char) : splitAt 0 cs = some ([], cs) := by
  cases cs with
  | nil => rfl
  | cons c cs => rfl

/-- A text is cut where its first part ends. -/
theorem splitAt_append (before after : List Char) :
    splitAt (byteLen before) (before ++ after) = some (before, after) := by
  induction before with
  | nil => exact splitAt_zero after
  | cons c before ih =>
      have hsize := c.utf8Size_pos
      rw [List.cons_append, splitAt, byteLen_cons, if_neg (by omega), if_pos (by omega), Nat.add_sub_cancel_left, ih]
      rfl

/-- What a cut gives are the two parts of the text, the first as long as asked for. -/
theorem splitAt_eq_some_iff {i : ℕ} :
    splitAt i cs = some (before, after) ↔ cs = before ++ after ∧ byteLen before = i := by
  constructor
  · intro h
    induction cs generalizing i before with
    | nil =>
        unfold splitAt at h
        split at h
        · rename_i hzero
          cases h
          exact ⟨rfl, hzero.symm⟩
        · cases h
    | cons c cs ih =>
        unfold splitAt at h
        split at h
        · rename_i hzero
          cases h
          exact ⟨rfl, hzero.symm⟩
        · split at h
          · rename_i hpos hfits
            obtain ⟨⟨before', after'⟩, hrest, heq⟩ := Option.map_eq_some_iff.mp h
            cases heq
            obtain ⟨rfl, hlen⟩ := ih hrest
            refine ⟨rfl, ?_⟩
            rw [byteLen_cons, hlen]
            omega
          · cases h
  · rintro ⟨rfl, rfl⟩
    exact splitAt_append before after

/-- A slice panics exactly off a boundary. -/
theorem isSome_splitAt_iff {i : ℕ} : (splitAt i cs).isSome = true ↔ IsCharBoundary i cs := by
  rw [Option.isSome_iff_exists]
  constructor
  · rintro ⟨⟨before, after⟩, h⟩
    exact ⟨before, after, splitAt_eq_some_iff.mp h⟩
  · rintro ⟨before, after, h⟩
    exact ⟨(before, after), splitAt_eq_some_iff.mpr h⟩

/-- One byte a character. -/
theorem byteLen_of_ascii (h : ∀ c ∈ cs, c.toNat < 0x80) : byteLen cs = cs.length := by
  induction cs with
  | nil => rfl
  | cons c cs ih =>
      have hsize : c.utf8Size = 1 := Char.utf8Size_eq_one_iff.mpr (Nat.le_of_lt_succ (h c List.mem_cons_self))
      rw [byteLen_cons, hsize, ih fun d hd => h d (List.mem_cons_of_mem _ hd), List.length_cons, Nat.add_comm]

/-- The length of the source is that of the characters' bytes. -/
theorem len_eq_byteLen (s : String) : len s = byteLen s.toList := by
  unfold len byteLen
  rw [← String.size_toByteArray, ← String.utf8Encode_toList, List.utf8Encode, List.size_toByteArray,
    List.length_flatMap]
  simp only [String.length_utf8EncodeChar]

/-- A fact about ASCII characters is one about 128 numbers. -/
theorem forall_ascii {P : Char → Prop} (h : ∀ n < 0x80, P (Char.ofNat n)) {c : Char} (hc : c.toNat < 0x80) : P c := by
  have hchar := h c.toNat hc
  rwa [Char.ofNat_toNat] at hchar

/-! ## At the ends -/

/-- A text that neither begins nor ends with white space. -/
theorem toList_trim_append (hfirst : ∀ c ∈ (before ++ after).head?, isWhitespace c = false)
    (hlast : ∀ c ∈ after, isWhitespace c = false) (hne : after ≠ []) :
    (trim (String.ofList (before ++ after))).toList = before ++ after := by
  have hstart : (before ++ after).dropWhile isWhitespace = before ++ after := by
    cases hcs : before ++ after with
    | nil => rfl
    | cons c cs =>
        have hc := hfirst c (by rw [hcs]; rfl)
        rw [List.dropWhile_cons_of_neg (by rw [hc]; decide)]
  have hend : (before ++ after).reverse.dropWhile isWhitespace = (before ++ after).reverse := by
    obtain ⟨init, c, rfl⟩ := (List.eq_nil_or_concat' after).resolve_left hne
    have hc := hlast c (by simp)
    rw [← List.append_assoc, List.reverse_append, List.reverse_singleton, List.singleton_append,
      List.dropWhile_cons_of_neg (by rw [hc]; decide)]
  unfold trim
  rw [String.toList_ofList, String.toList_ofList, hstart, hend, List.reverse_reverse]

/-! ## At the first of a kind -/

/-- A text without the character is all in front. -/
theorem span_of_notMem (h : c ∉ cs) : cs.span (· != c) = (cs, []) := by
  have hall : ∀ d ∈ cs, (d != c) = true := fun d hd => by simpa using fun heq : d = c => h (heq ▸ hd)
  rw [List.span_eq_takeWhile_dropWhile, List.takeWhile_eq_self_iff.mpr hall, List.dropWhile_eq_nil_iff.mpr hall]

/-- A text is cut at the first of them. -/
theorem span_append_cons (h : c ∉ cs) (rest : List Char) : (cs ++ c :: rest).span (· != c) = (cs, c :: rest) := by
  have hall : ∀ d ∈ cs, (d != c) = true := fun d hd => by simpa using fun heq : d = c => h (heq ▸ hd)
  rw [List.span_eq_takeWhile_dropWhile, List.takeWhile_append_of_pos hall, List.dropWhile_append_of_pos hall]
  simp

/-- `split_once` by a character, for a text that is put together so. -/
theorem splitOnce_append (h : c ∉ before) (after : List Char) :
    splitOnce c (String.ofList (before ++ c :: after)) = some (String.ofList before, String.ofList after) := by
  unfold splitOnce
  rw [String.toList_ofList, span_append_cons h]

theorem splitOnceP_append {q : Char → Bool} (h : ∀ d ∈ before, q d = false) (hc : q c = true) (after : List Char) :
    splitOnceP q (before ++ c :: after) = some (before, after) := by
  have hall : ∀ d ∈ before, (!q d) = true := fun d hd => by simp [h d hd]
  unfold splitOnceP
  rw [List.span_eq_takeWhile_dropWhile, List.takeWhile_append_of_pos hall, List.dropWhile_append_of_pos hall]
  simp [hc]

/-- What `split_once` gives, is put together so. -/
theorem splitOnceP_eq_some {q : Char → Bool} (h : splitOnceP q cs = some (before, after)) :
    ∃ c, cs = before ++ c :: after ∧ q c = true ∧ ∀ d ∈ before, q d = false := by
  unfold splitOnceP at h
  rw [List.span_eq_takeWhile_dropWhile] at h
  have hcs := (List.takeWhile_append_dropWhile (p := fun c => !q c) (l := cs)).symm
  cases hdrop : cs.dropWhile fun c => !q c with
  | nil =>
      rw [hdrop] at h
      cases h
  | cons c rest =>
      rw [hdrop] at h hcs
      obtain ⟨rfl, rfl⟩ : _ ∧ rest = after := by simpa using h
      refine ⟨c, hcs, ?_, fun d hd => by simpa using List.mem_takeWhile_imp hd⟩
      have hhead := List.head?_dropWhile_not (fun c => !q c) cs
      rw [hdrop] at hhead
      simpa using hhead

theorem splitOnceP_eq_none {q : Char → Bool} (h : ∀ d ∈ cs, q d = false) : splitOnceP q cs = none := by
  have hall : ∀ d ∈ cs, (!q d) = true := fun d hd => by simp [h d hd]
  unfold splitOnceP
  rw [List.span_eq_takeWhile_dropWhile, List.takeWhile_eq_self_iff.mpr hall, List.dropWhile_eq_nil_iff.mpr hall]

/-- A piece of a split is no longer than the text. -/
theorem length_le_of_mem_splitOn {piece : List Char} (h : piece ∈ cs.splitOn c) : piece.length ≤ cs.length := by
  induction cs generalizing piece with
  | nil =>
      obtain rfl : piece = [] := by simpa using h
      exact le_refl 0
  | cons d cs ih =>
      rw [List.splitOn_cons_eq_if_modifyHead] at h
      split at h
      · rcases List.mem_cons.mp h with rfl | hmem
        · exact Nat.zero_le _
        · exact (ih hmem).trans (Nat.le_succ _)
      · cases hsplit : cs.splitOn c with
        | nil => exact absurd hsplit (List.splitOn_ne_nil c cs)
        | cons first rest =>
            rw [hsplit] at h ih
            rcases List.mem_cons.mp h with rfl | hmem
            · exact Nat.succ_le_succ (ih List.mem_cons_self)
            · exact (ih (List.mem_cons_of_mem _ hmem)).trans (Nat.le_succ _)

/-! ## Numbers

Numbers come in as text, so a bound on what they denote is one on the digits. -/

/-- `str::parse` into an `i64`: a sign is allowed, overflow is an error. -/
def parseI64 (cs : List Char) : Option ℤ :=
  let value : Option ℤ := match cs with
    | '+' :: digits => (digitsValue digits).map Nat.cast
    | '-' :: digits => (digitsValue digits).map fun n : ℕ => -(n : ℤ)
    | digits => (digitsValue digits).map Nat.cast
  value.filter fun x => decide (-2 ^ 63 ≤ x ∧ x < 2 ^ 63)

/-- Digits without a sign are the number they denote. -/
theorem parseI64_of_digitsValue {n : ℕ} (h : digitsValue cs = some n) (hlt : n < 2 ^ 63) :
    parseI64 cs = some (n : ℤ) := by
  have hfits : (-2 ^ 63 : ℤ) ≤ n ∧ (n : ℤ) < 2 ^ 63 := by omega
  unfold parseI64
  split
  · cases h
  · cases h
  · rw [h]
    exact Option.filter_eq_some_iff.mpr ⟨rfl, decide_eq_true hfits⟩

/-- As many digits as these denote less than that power of ten. -/
theorem digitsValue_lt {n : ℕ} (h : digitsValue cs = some n) : n < 10 ^ cs.length := by
  unfold digitsValue at h
  split at h
  · cases h
  · rename_i hcond
    have hdigits : ∀ c ∈ cs, isAsciiDigit c = true := by
      have hall : cs.all isAsciiDigit = true := by
        simp only [Bool.or_eq_true, Bool.not_eq_true', not_or, Bool.not_eq_false] at hcond
        exact hcond.2
      exact List.all_eq_true.mp hall
    cases h
    clear hcond
    induction cs using List.reverseRecOn with
    | nil => exact Nat.one_pos
    | append_singleton cs c ih =>
        have hinit := ih fun d hd => hdigits d (List.mem_append_left _ hd)
        have hlast : 0x30 ≤ c.toNat ∧ c.toNat ≤ 0x39 := by simpa [isAsciiDigit] using hdigits c (by simp)
        rw [List.foldl_append, List.length_append, List.length_singleton, Nat.pow_succ]
        show 10 * _ + (c.toNat - 0x30) < _
        omega

/-- A number of at most `k` characters. -/
theorem parseI64_bounds {x : ℤ} {k : ℕ} (h : parseI64 cs = some x) (hlen : cs.length ≤ k) :
    -10 ^ k < x ∧ x < 10 ^ k := by
  have hvalue : ∀ digits : List Char, ∀ n : ℕ, digits.length ≤ k → digitsValue digits = some n → (n : ℤ) < 10 ^ k := by
    intro digits n hle hn
    have hlt := (digitsValue_lt hn).trans_le (Nat.pow_le_pow_right (by decide) hle)
    exact_mod_cast hlt
  obtain ⟨hread, -⟩ := Option.filter_eq_some_iff.mp h
  split at hread
  · obtain ⟨n, hn, rfl⟩ := Option.map_eq_some_iff.mp hread
    have hlt := hvalue _ n (by simp at hlen; omega) hn
    omega
  · obtain ⟨n, hn, rfl⟩ := Option.map_eq_some_iff.mp hread
    have hlt := hvalue _ n (by simp at hlen; omega) hn
    omega
  · obtain ⟨n, hn, rfl⟩ := Option.map_eq_some_iff.mp hread
    have hlt := hvalue _ n hlen hn
    omega

end Flock.Text
