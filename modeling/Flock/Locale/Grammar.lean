/-
# Flock.Locale.Grammar — what `canonical_locale` accepts, and what it makes of it.

    language [- Script] [- REGION]

A subtag is told by its length and its characters alone: no script is a region, so what stands behind the language
has one reading.  `canonicalLocale_text` is the parser on the grammar, `exists_tag_of_ok` says that it takes nothing
else; the rest is about tags.

Case is kept apart from structure.  A tag is its subtags as they were written; its canonical spelling changes the
letters of each, by a rule of its own, and none of the lengths.  So two texts have the same canonical spelling exactly
if they are the same but for case, and the canonical spelling of a canonical spelling is itself.
-/
import Flock.Locale
import Flock.Text.Slices

namespace Flock

open Text (isAscii isAsciiAlphabetic isAsciiDigit isWhitespace lowerChar upperChar)

/-! ## Letter case

Lowering and raising keep a letter a letter and a digit a digit, and the last of them decides. -/

/-- What the two conversions do to one character. -/
structure CaseLaws (c : Char) : Prop where
  lower_lower : lowerChar (lowerChar c) = lowerChar c
  lower_upper : lowerChar (upperChar c) = lowerChar c
  upper_lower : upperChar (lowerChar c) = upperChar c
  upper_upper : upperChar (upperChar c) = upperChar c
  alphabetic_lower : isAsciiAlphabetic (lowerChar c) = isAsciiAlphabetic c
  alphabetic_upper : isAsciiAlphabetic (upperChar c) = isAsciiAlphabetic c
  digit_lower : isAsciiDigit (lowerChar c) = isAsciiDigit c
  digit_upper : isAsciiDigit (upperChar c) = isAsciiDigit c
  upper_digit : isAsciiDigit c = true → upperChar c = c

/-- Each of the 128 characters is looked at. -/
theorem caseLaws_ascii : ∀ n < 0x80, CaseLaws (Char.ofNat n) := by
  have hlaws : ∀ n < 0x80, lowerChar (lowerChar (Char.ofNat n)) = lowerChar (Char.ofNat n) ∧
      lowerChar (upperChar (Char.ofNat n)) = lowerChar (Char.ofNat n) ∧
      upperChar (lowerChar (Char.ofNat n)) = upperChar (Char.ofNat n) ∧
      upperChar (upperChar (Char.ofNat n)) = upperChar (Char.ofNat n) ∧
      isAsciiAlphabetic (lowerChar (Char.ofNat n)) = isAsciiAlphabetic (Char.ofNat n) ∧
      isAsciiAlphabetic (upperChar (Char.ofNat n)) = isAsciiAlphabetic (Char.ofNat n) ∧
      isAsciiDigit (lowerChar (Char.ofNat n)) = isAsciiDigit (Char.ofNat n) ∧
      isAsciiDigit (upperChar (Char.ofNat n)) = isAsciiDigit (Char.ofNat n) ∧
      (isAsciiDigit (Char.ofNat n) = true → upperChar (Char.ofNat n) = Char.ofNat n) := by decide +kernel
  intro n hn
  obtain ⟨h₁, h₂, h₃, h₄, h₅, h₆, h₇, h₈, h₉⟩ := hlaws n hn
  exact ⟨h₁, h₂, h₃, h₄, h₅, h₆, h₇, h₈, h₉⟩

/-- Beyond ASCII, neither conversion does anything. -/
theorem caseLaws (c : Char) : CaseLaws c := by
  by_cases hc : c.toNat < 0x80
  · exact Text.forall_ascii caseLaws_ascii hc
  · -- no other character has a case
    have hlower : lowerChar c = c := if_neg (by omega)
    have hupper : upperChar c = c := if_neg (by omega)
    constructor <;> simp only [hlower, hupper, implies_true]

theorem ascii_of_alphabetic {c : Char} (h : isAsciiAlphabetic c = true) : c.toNat < 0x80 := by
  unfold isAsciiAlphabetic at h
  simp only [Bool.or_eq_true, Bool.and_eq_true, decide_eq_true_eq] at h
  omega

theorem ascii_of_digit {c : Char} (h : isAsciiDigit c = true) : c.toNat < 0x80 := by
  unfold isAsciiDigit at h
  simp only [Bool.and_eq_true, decide_eq_true_eq] at h
  omega

/-! ## Subtags

Every subtag consists of letters and digits of ASCII, so its bytes are its characters, and neither a dash nor white
space is among them. -/

/-- Two or three letters. -/
def IsLanguage (cs : List Char) : Prop := (cs.length = 2 ∨ cs.length = 3) ∧ ∀ c ∈ cs, isAsciiAlphabetic c = true

/-- Four letters. -/
def IsScript (cs : List Char) : Prop := cs.length = 4 ∧ ∀ c ∈ cs, isAsciiAlphabetic c = true

/-- Two letters, or three digits. -/
def IsRegion (cs : List Char) : Prop :=
  cs.length = 2 ∧ (∀ c ∈ cs, isAsciiAlphabetic c = true) ∨ cs.length = 3 ∧ ∀ c ∈ cs, isAsciiDigit c = true

/-- A character of a subtag. -/
def IsSubtagChar (c : Char) : Prop := isAsciiAlphabetic c = true ∨ isAsciiDigit c = true

variable {cs : List Char} {c : Char}

theorem IsLanguage.chars (h : IsLanguage cs) : ∀ c ∈ cs, IsSubtagChar c := fun c hc => .inl (h.2 c hc)

theorem IsScript.chars (h : IsScript cs) : ∀ c ∈ cs, IsSubtagChar c := fun c hc => .inl (h.2 c hc)

theorem IsRegion.chars (h : IsRegion cs) : ∀ c ∈ cs, IsSubtagChar c := by
  intro c hc
  rcases h with ⟨-, hletters⟩ | ⟨-, hdigits⟩
  · exact .inl (hletters c hc)
  · exact .inr (hdigits c hc)

theorem IsRegion.length (h : IsRegion cs) : cs.length = 2 ∨ cs.length = 3 := by
  rcases h with ⟨hlen, -⟩ | ⟨hlen, -⟩
  · exact .inl hlen
  · exact .inr hlen

/-- **No region is a script.** -/
theorem IsRegion.not_isScript (h : IsRegion cs) : ¬ IsScript cs := by
  rintro ⟨hlen, -⟩
  have hregion := h.length
  omega

theorem IsSubtagChar.ascii (h : IsSubtagChar c) : c.toNat < 0x80 := by
  rcases h with h | h
  · exact ascii_of_alphabetic h
  · exact ascii_of_digit h

theorem IsSubtagChar.ne_dash (h : IsSubtagChar c) : c ≠ '-' := by
  rintro rfl
  rcases h with h | h <;> cases h

theorem IsSubtagChar.not_isWhitespace (h : IsSubtagChar c) : isWhitespace c = false := by
  have hascii : ∀ n < 0x80, isAsciiAlphabetic (Char.ofNat n) = true ∨ isAsciiDigit (Char.ofNat n) = true →
      isWhitespace (Char.ofNat n) = false := by decide +kernel
  exact Text.forall_ascii (P := fun c => IsSubtagChar c → isWhitespace c = false) hascii h.ascii h

/-- The code's tests count bytes, and the grammar letters. -/
theorem subtag_iff {p : Char → Bool} (hp : ∀ c, p c = true → c.toNat < 0x80) (n : ℕ) (s : String) :
    (Text.len s == n && s.toList.all p) = true ↔ s.toList.length = n ∧ ∀ c ∈ s.toList, p c = true := by
  have hlen : (∀ c ∈ s.toList, p c = true) → Text.len s = s.toList.length := by
    intro h
    rw [Text.len_eq_byteLen]
    exact Text.byteLen_of_ascii fun c hc => hp c (h c hc)
  rw [Bool.and_eq_true, beq_iff_eq, List.all_eq_true]
  constructor
  · rintro ⟨hn, hchars⟩
    exact ⟨(hlen hchars).symm.trans hn, hchars⟩
  · rintro ⟨hn, hchars⟩
    exact ⟨(hlen hchars).trans hn, hchars⟩

/-! ## Tags

A tag is the list of its subtags, and its text is these with dashes between them.  As no subtag has a dash, the text
can be taken apart again. -/

/-- **`LocaleTag`** — a language, and perhaps a script and a region. -/
@[ext]
structure LocaleTag where
  language : List Char
  script : Option (List Char)
  region : Option (List Char)
  isLanguage : IsLanguage language
  isScript : ∀ cs ∈ script, IsScript cs
  isRegion : ∀ cs ∈ region, IsRegion cs

/-- First letter up, the rest down. -/
def titleChars : List Char → List Char
  | [] => []
  | c :: cs => upperChar c :: cs.map lowerChar

/-- The last conversion decides, in whatever order letters were raised and lowered before. -/
theorem map_lower_map_lower (cs : List Char) : (cs.map lowerChar).map lowerChar = cs.map lowerChar := by
  rw [List.map_map]
  exact List.map_congr_left fun c _ => (caseLaws c).lower_lower

theorem titleChars_map_lower (cs : List Char) : titleChars (cs.map lowerChar) = titleChars cs := by
  cases cs with
  | nil => rfl
  | cons c cs => exact congrArg₂ List.cons (caseLaws c).upper_lower (map_lower_map_lower cs)

theorem map_lower_titleChars (cs : List Char) : (titleChars cs).map lowerChar = cs.map lowerChar := by
  cases cs with
  | nil => rfl
  | cons c cs => exact congrArg₂ List.cons (caseLaws c).lower_upper (map_lower_map_lower cs)

theorem map_upper_map_lower (cs : List Char) : (cs.map lowerChar).map upperChar = cs.map upperChar := by
  rw [List.map_map]
  exact List.map_congr_left fun c _ => (caseLaws c).upper_lower

theorem map_lower_map_upper (cs : List Char) : (cs.map upperChar).map lowerChar = cs.map lowerChar := by
  rw [List.map_map]
  exact List.map_congr_left fun c _ => (caseLaws c).lower_upper

/-- What is asked of each character does not depend on its case. -/
theorem forall_mem_map_iff {f : Char → Char} {p : Char → Bool} (hf : ∀ c, p (f c) = p c) :
    (∀ c ∈ cs.map f, p c = true) ↔ ∀ c ∈ cs, p c = true := by
  rw [List.forall_mem_map]
  simp only [hf]

theorem IsLanguage.map_lower (h : IsLanguage cs) : IsLanguage (cs.map lowerChar) :=
  ⟨by rw [List.length_map]; exact h.1, (forall_mem_map_iff fun c => (caseLaws c).alphabetic_lower).mpr h.2⟩

theorem IsScript.map_lower (h : IsScript cs) : IsScript (cs.map lowerChar) :=
  ⟨by rw [List.length_map]; exact h.1, (forall_mem_map_iff fun c => (caseLaws c).alphabetic_lower).mpr h.2⟩

theorem IsScript.title (h : IsScript cs) : IsScript (titleChars cs) := by
  -- up to case it is the script itself
  have hlower := map_lower_titleChars cs
  have hmapped := h.map_lower
  rw [← hlower] at hmapped
  refine ⟨by simpa using hmapped.1, ?_⟩
  exact (forall_mem_map_iff fun c => (caseLaws c).alphabetic_lower).mp hmapped.2

theorem IsRegion.map_lower (h : IsRegion cs) : IsRegion (cs.map lowerChar) := by
  unfold IsRegion at h ⊢
  rwa [List.length_map, forall_mem_map_iff fun c => (caseLaws c).alphabetic_lower,
    forall_mem_map_iff fun c => (caseLaws c).digit_lower]

theorem IsRegion.map_upper (h : IsRegion cs) : IsRegion (cs.map upperChar) := by
  unfold IsRegion at h ⊢
  rwa [List.length_map, forall_mem_map_iff fun c => (caseLaws c).alphabetic_upper,
    forall_mem_map_iff fun c => (caseLaws c).digit_upper]

namespace LocaleTag

variable {t t' : LocaleTag}

/-- An optional subtag, behind its dash. -/
def optional : Option (List Char) → List Char
  | none => []
  | some cs => '-' :: cs

/-- `language[-Script][-REGION]`. -/
def text (t : LocaleTag) : String := String.ofList (t.language ++ optional t.script ++ optional t.region)

/-- The subtags. -/
def parts (t : LocaleTag) : List (List Char) := t.language :: (t.script.toList ++ t.region.toList)

theorem chars_of_mem_parts (h : cs ∈ t.parts) : ∀ c ∈ cs, IsSubtagChar c := by
  rcases List.mem_cons.mp h with rfl | h
  · exact t.isLanguage.chars
  · rcases List.mem_append.mp h with h | h
    · exact (t.isScript cs (Option.mem_toList.mp h)).chars
    · exact (t.isRegion cs (Option.mem_toList.mp h)).chars

/-- The text, as the subtags between dashes. -/
theorem toList_text (t : LocaleTag) : t.text.toList = ['-'].intercalate t.parts := by
  unfold text parts
  rw [String.toList_ofList]
  cases t.script <;> cases t.region <;> simp [optional, List.intercalate]

theorem splitOn_text (t : LocaleTag) : t.text.toList.splitOn '-' = t.parts := by
  rw [toList_text]
  have hdash : ∀ part ∈ t.parts, '-' ∉ part := fun part hpart hmem => (chars_of_mem_parts hpart _ hmem).ne_dash rfl
  exact List.splitOn_intercalate '-' hdash (List.cons_ne_nil _ _)

theorem toList_option_injective {o o' : Option (List Char)} (h : o.toList = o'.toList) : o = o' := by
  cases o <;> cases o' <;> simp_all

/-- The subtags behind the language have one reading. -/
theorem rest_injective {script script' region region' : Option (List Char)} (hscript : ∀ cs ∈ script, IsScript cs)
    (hregion : ∀ cs ∈ region, IsRegion cs) (hscript' : ∀ cs ∈ script', IsScript cs)
    (hregion' : ∀ cs ∈ region', IsRegion cs)
    (h : script.toList ++ region.toList = script'.toList ++ region'.toList) : script = script' ∧ region = region' := by
  -- what is first on one side as a script is not first on the other as a region
  have hapart : ∀ {cs : List Char} {region₁ region₂ : Option (List Char)}, IsScript cs →
      (∀ cs ∈ region₁, IsRegion cs) → region₁.toList ≠ cs :: region₂.toList := by
    intro cs region₁ region₂ hcs hregion₁ heq
    cases region₁ with
    | none => cases heq
    | some cs₁ =>
        obtain ⟨rfl, -⟩ := List.cons.inj heq
        exact (hregion₁ _ rfl).not_isScript hcs
  cases script with
  | none =>
      cases script' with
      | none => exact ⟨rfl, toList_option_injective h⟩
      | some cs => exact absurd h (hapart (hscript' cs rfl) hregion)
  | some cs =>
      cases script' with
      | none => exact absurd h.symm (hapart (hscript cs rfl) hregion')
      | some cs' =>
          obtain ⟨rfl, hrest⟩ := List.cons.inj h
          exact ⟨rfl, toList_option_injective hrest⟩

/-- **A text is the text of one tag.** -/
theorem text_injective : Function.Injective text := by
  intro t t' h
  have hparts : t.parts = t'.parts := by rw [← splitOn_text, h, splitOn_text]
  obtain ⟨hlanguage, hrest⟩ := List.cons.inj hparts
  obtain ⟨hscript, hregion⟩ := rest_injective t.isScript t.isRegion t'.isScript t'.isRegion hrest
  exact LocaleTag.ext hlanguage hscript hregion

/-- All letters down. -/
def lower (t : LocaleTag) : LocaleTag where
  language := t.language.map lowerChar
  script := t.script.map (List.map lowerChar)
  region := t.region.map (List.map lowerChar)
  isLanguage := t.isLanguage.map_lower
  isScript := Option.forall_mem_map.mpr fun cs hcs => (t.isScript cs hcs).map_lower
  isRegion := Option.forall_mem_map.mpr fun cs hcs => (t.isRegion cs hcs).map_lower

/-- The spelling that `canonical_locale` gives. -/
def canonical (t : LocaleTag) : LocaleTag where
  language := t.language.map lowerChar
  script := t.script.map titleChars
  region := t.region.map (List.map upperChar)
  isLanguage := t.isLanguage.map_lower
  isScript := Option.forall_mem_map.mpr fun cs hcs => (t.isScript cs hcs).title
  isRegion := Option.forall_mem_map.mpr fun cs hcs => (t.isRegion cs hcs).map_upper

/-- Lowered first, the spelling is the same. -/
theorem canonical_lower (t : LocaleTag) : t.lower.canonical = t.canonical := by
  apply LocaleTag.ext
  · exact map_lower_map_lower t.language
  · exact (Option.map_map ..).trans (Option.map_congr fun cs _ => titleChars_map_lower cs)
  · exact (Option.map_map ..).trans (Option.map_congr fun cs _ => map_upper_map_lower cs)

theorem lower_canonical (t : LocaleTag) : t.canonical.lower = t.lower := by
  apply LocaleTag.ext
  · exact map_lower_map_lower t.language
  · exact (Option.map_map ..).trans (Option.map_congr fun cs _ => map_lower_titleChars cs)
  · exact (Option.map_map ..).trans (Option.map_congr fun cs _ => map_lower_map_upper cs)

theorem canonical_canonical (t : LocaleTag) : t.canonical.canonical = t.canonical := by
  rw [← canonical_lower t.canonical, lower_canonical, canonical_lower]

/-- Lowering the tag lowers its text. -/
theorem text_lower (t : LocaleTag) : t.lower.text = Text.toAsciiLowercase t.text := by
  have hpart : ∀ part : Option (List Char),
      optional (part.map (List.map lowerChar)) = (optional part).map lowerChar := by
    intro part
    cases part <;> rfl
  unfold text Text.toAsciiLowercase
  rw [String.toList_ofList, List.map_append, List.map_append, ← hpart, ← hpart]
  rfl

/-- **Two spellings have the same letters** exactly if the canonical ones are equal. -/
theorem text_canonical_eq_iff :
    t.canonical.text = t'.canonical.text ↔ Text.toAsciiLowercase t.text = Text.toAsciiLowercase t'.text := by
  rw [← text_lower, ← text_lower]
  constructor
  · intro h
    rw [← lower_canonical t, text_injective h, lower_canonical]
  · intro h
    rw [← canonical_lower t, text_injective h, canonical_lower]

theorem mem_text {c : Char} (h : c ∈ t.text.toList) : IsSubtagChar c ∨ c = '-' := by
  have hpart : ∀ {part : Option (List Char)}, (∀ cs ∈ part, ∀ c ∈ cs, IsSubtagChar c) →
      c ∈ optional part → IsSubtagChar c ∨ c = '-' := by
    intro part hchars hmem
    cases part with
    | none => cases hmem
    | some cs =>
        rcases List.mem_cons.mp hmem with rfl | hmem
        · exact .inr rfl
        · exact .inl (hchars cs rfl c hmem)
  unfold text at h
  rw [String.toList_ofList, List.mem_append, List.mem_append] at h
  rcases h with (h | h) | h
  · exact .inl (t.isLanguage.chars c h)
  · exact hpart (fun cs hcs => (t.isScript cs hcs).chars) h
  · exact hpart (fun cs hcs => (t.isRegion cs hcs).chars) h

theorem isAscii_text (t : LocaleTag) : isAscii t.text = true := by
  unfold isAscii
  rw [List.all_eq_true]
  intro c hc
  rcases mem_text hc with h | rfl
  · exact decide_eq_true h.ascii
  · rfl

theorem toList_text_ne_nil (t : LocaleTag) : t.text.toList ≠ [] := by
  unfold text
  rw [String.toList_ofList, List.append_assoc]
  apply List.append_ne_nil_of_left_ne_nil
  rintro hnil
  have hlanguage := t.isLanguage.1
  rw [hnil] at hlanguage
  exact absurd hlanguage (by decide)

/-- There is no white space at the ends of a tag. -/
theorem trim_text (t : LocaleTag) : Text.trim t.text = t.text := by
  have hsolid : ∀ c ∈ t.text.toList, isWhitespace c = false := by
    intro c hc
    rcases mem_text hc with h | rfl
    · exact h.not_isWhitespace
    · rfl
  apply String.toList_injective
  have htrim := @Text.toList_trim_append [] t.text.toList (fun c hc => hsolid c (List.mem_of_mem_head? hc)) hsolid
    t.toList_text_ne_nil
  rwa [List.nil_append, String.ofList_toList] at htrim

theorem split_text (t : LocaleTag) : Text.split '-' t.text = t.parts.map String.ofList := by
  unfold Text.split
  rw [splitOn_text]

end LocaleTag

/-! ## The parser

The parser looks at the first subtag, then at the next one for a script, then at what is left for a region. Each of
its functions is compared with the grammar on the subtags it is given. -/

theorem isLanguage_iff (s : String) :
    ((Text.len s == 2 || Text.len s == 3) && s.toList.all isAsciiAlphabetic) = true ↔ IsLanguage s.toList := by
  rw [Bool.and_or_distrib_right, Bool.or_eq_true, subtag_iff (fun _ => ascii_of_alphabetic),
    subtag_iff (fun _ => ascii_of_alphabetic), ← or_and_right]
  rfl

theorem isScript_iff (s : String) : (Text.len s == 4 && s.toList.all isAsciiAlphabetic) = true ↔ IsScript s.toList :=
  subtag_iff (fun _ => ascii_of_alphabetic) 4 s

theorem isRegion_iff (s : String) : (Text.len s == 2 && s.toList.all isAsciiAlphabetic) = true ∨
    (Text.len s == 3 && s.toList.all isAsciiDigit) = true ↔ IsRegion s.toList := by
  rw [subtag_iff (fun _ => ascii_of_alphabetic), subtag_iff (fun _ => ascii_of_digit)]
  rfl

theorem titleCase_ofList (cs : List Char) : titleCase (String.ofList cs) = String.ofList (titleChars cs) := by
  unfold titleCase Text.toAsciiLowercase
  rw [String.toList_ofList, String.toList_ofList]
  cases cs with
  | nil => rfl
  | cons c cs =>
      show String.ofList (upperChar (lowerChar c) :: cs.map lowerChar) = _
      rw [(caseLaws c).upper_lower]
      rfl

theorem canonicalScript_of_isScript {script : String} (h : IsScript script.toList) (canonical : String)
    (rest : List String) :
    canonicalScript canonical (script :: rest) = (canonical ++ "-" ++ titleCase script, rest) :=
  if_pos ((isScript_iff script).mpr h)

/-- What is no script is left to be a region. -/
theorem canonicalScript_of_not_isScript {script : String} (h : ¬ IsScript script.toList) (canonical : String)
    (rest : List String) : canonicalScript canonical (script :: rest) = (canonical, script :: rest) :=
  if_neg ((isScript_iff script).not.mpr h)

/-- A region is the last subtag. -/
theorem canonicalRegion_singleton {region : String} (h : IsRegion region.toList) (canonical : String) :
    canonicalRegion canonical [region] = .ok (canonical ++ "-" ++ String.ofList (region.toList.map upperChar)) := by
  have htest := (isRegion_iff region).mpr h
  unfold canonicalRegion
  dsimp only
  cases halpha : Text.len region == 2 && region.toList.all isAsciiAlphabetic with
  | true => rfl
  | false =>
      have hnumeric := htest.resolve_left (by rw [halpha]; decide)
      have hdigits := ((subtag_iff (fun _ => ascii_of_digit) 3 region).mp hnumeric).2
      -- capitals of digits are the digits
      have hsame : region.toList.map upperChar = region.toList.map id :=
        List.map_congr_left fun c hc => (caseLaws c).upper_digit (hdigits c hc)
      rw [hnumeric, hsame, List.map_id, String.ofList_toList]
      rfl

/-- And what is left is a region, or nothing. -/
theorem canonicalRegion_eq_ok {canonical c : String} {rest : List String} (h : canonicalRegion canonical rest = .ok c) :
    ∃ region : Option String, rest = region.toList ∧ ∀ s ∈ region, IsRegion s.toList := by
  cases rest with
  | nil => exact ⟨none, rfl, nofun⟩
  | cons region rest =>
      unfold canonicalRegion at h
      dsimp only at h
      split at h
      · cases h
      · rename_i htest
        split at h
        · cases h
        · rename_i hlast
          have hrest : rest = [] := by simpa using hlast
          refine ⟨some region, by rw [hrest]; rfl, fun s hs => ?_⟩
          obtain rfl := Option.some.inj hs
          apply (isRegion_iff region).mp
          simpa [or_iff_not_imp_left] using htest

theorem append_dash (canonical : String) (cs : List Char) :
    canonical ++ "-" ++ String.ofList cs = canonical ++ String.ofList (LocaleTag.optional (some cs)) := by
  apply String.toList_injective
  simp [LocaleTag.optional]

/-- The script of a tag is read, if it has one. -/
theorem canonicalScript_parts (t : LocaleTag) (canonical : String) :
    canonicalScript canonical ((t.script.toList ++ t.region.toList).map String.ofList) =
      (canonical ++ String.ofList (LocaleTag.optional t.canonical.script), t.region.toList.map String.ofList) := by
  have hscript := t.isScript
  have hregion := t.isRegion
  unfold LocaleTag.canonical
  dsimp only
  cases hs : t.script with
  | none =>
      cases hr : t.region with
      | none => exact Prod.ext String.append_empty.symm rfl
      | some cs =>
          have hnot : ¬ IsScript (String.ofList cs).toList := by
            rw [String.toList_ofList]
            exact (hregion cs hr).not_isScript
          exact (canonicalScript_of_not_isScript hnot canonical []).trans (Prod.ext String.append_empty.symm rfl)
  | some cs =>
      have his : IsScript (String.ofList cs).toList := by
        rw [String.toList_ofList]
        exact hscript cs hs
      refine (canonicalScript_of_isScript his canonical _).trans (Prod.ext ?_ rfl)
      rw [titleCase_ofList]
      exact append_dash canonical (titleChars cs)

/-- And so is its region. -/
theorem canonicalRegion_parts (t : LocaleTag) (canonical : String) :
    canonicalRegion canonical (t.region.toList.map String.ofList) =
      .ok (canonical ++ String.ofList (LocaleTag.optional t.canonical.region)) := by
  have hregion := t.isRegion
  unfold LocaleTag.canonical
  dsimp only
  cases hr : t.region with
  | none => exact congrArg Except.ok String.append_empty.symm
  | some cs =>
      have his : IsRegion (String.ofList cs).toList := by
        rw [String.toList_ofList]
        exact hregion cs hr
      refine (canonicalRegion_singleton his canonical).trans (congrArg Except.ok ?_)
      rw [String.toList_ofList]
      exact append_dash canonical (cs.map upperChar)

/-- **On the grammar** `canonical_locale` gives the canonical spelling. -/
theorem canonicalLocale_text (t : LocaleTag) : canonicalLocale t.text = .ok t.canonical.text := by
  have hguard : (Text.isEmpty t.text || Text.trim t.text != t.text || !isAscii t.text) = false := by
    have hne : Text.isEmpty t.text = false := List.isEmpty_eq_false_iff.mpr t.toList_text_ne_nil
    rw [hne, t.trim_text, t.isAscii_text]
    simp
  have hlanguage : ((Text.len (String.ofList t.language) == 2 || Text.len (String.ofList t.language) == 3) &&
      (String.ofList t.language).toList.all isAsciiAlphabetic) = true := by
    rw [isLanguage_iff, String.toList_ofList]
    exact t.isLanguage
  unfold canonicalLocale
  rw [if_neg (by rw [hguard]; decide), t.split_text]
  unfold LocaleTag.parts
  rw [List.map_cons]
  dsimp only
  rw [if_pos hlanguage, canonicalScript_parts, canonicalRegion_parts]
  unfold LocaleTag.text Text.toAsciiLowercase
  rw [String.toList_ofList, String.ofList_append, String.ofList_append]
  rfl

/-- What follows the language is a script and a region, each optional. -/
theorem exists_subtags_of_ok {canonical c : String} {rest : List String}
    (h : canonicalRegion (canonicalScript canonical rest).1 (canonicalScript canonical rest).2 = .ok c) :
    ∃ script region : Option String, rest = script.toList ++ region.toList ∧ (∀ s ∈ script, IsScript s.toList) ∧
      ∀ s ∈ region, IsRegion s.toList := by
  cases rest with
  | nil => exact ⟨none, none, rfl, nofun, nofun⟩
  | cons script rest =>
      by_cases hscript : IsScript script.toList
      · rw [canonicalScript_of_isScript hscript] at h
        obtain ⟨region, rfl, hregion⟩ := canonicalRegion_eq_ok h
        refine ⟨some script, region, rfl, fun s hs => ?_, hregion⟩
        exact Option.some.inj hs ▸ hscript
      · rw [canonicalScript_of_not_isScript hscript] at h
        obtain ⟨region, hrest, hregion⟩ := canonicalRegion_eq_ok h
        exact ⟨none, region, hrest, nofun, hregion⟩

/-- **Nothing else is accepted.** -/
theorem exists_tag_of_ok {s c : String} (h : canonicalLocale s = .ok c) : ∃ t : LocaleTag, s = t.text := by
  unfold canonicalLocale at h
  split at h
  · cases h
  · split at h
    · cases h
    · rename_i language rest hsplit
      split at h
      · -- the pieces make up a tag, and the text is the pieces with dashes between them
        rename_i hlanguage
        obtain ⟨script, region, rfl, hscript, hregion⟩ := exists_subtags_of_ok h
        have hpieces : s.toList.splitOn '-' = (language :: (script.toList ++ region.toList)).map String.toList := by
          rw [← hsplit]
          unfold Text.split
          simp [Function.comp_def]
        have hjoin : ['-'].intercalate (s.toList.splitOn '-') = s.toList := List.intercalate_splitOn '-'
        refine ⟨⟨language.toList, script.map String.toList, region.map String.toList,
          (isLanguage_iff language).mp hlanguage, Option.forall_mem_map.mpr hscript,
          Option.forall_mem_map.mpr hregion⟩, ?_⟩
        apply String.toList_injective
        rw [LocaleTag.toList_text, ← hjoin, hpieces]
        unfold LocaleTag.parts
        cases script <;> cases region <;> rfl
      · cases h

/-- **The locale grammar.**  Accepted is exactly the text of a tag; the result is accepted and stays as it is; and two
accepted texts have one result exactly if they are equal up to the case of ASCII letters. -/
theorem locale_grammar :
    (∀ s, (∃ c, canonicalLocale s = .ok c) ↔ ∃ t : LocaleTag, s = t.text) ∧
    (∀ s c, canonicalLocale s = .ok c → canonicalLocale c = .ok c) ∧
    ∀ s s' c c', canonicalLocale s = .ok c → canonicalLocale s' = .ok c' →
      (c = c' ↔ Text.toAsciiLowercase s = Text.toAsciiLowercase s') := by
  refine ⟨fun s => ⟨fun ⟨c, h⟩ => exists_tag_of_ok h, ?_⟩, fun s c h => ?_, fun s s' c c' h h' => ?_⟩
  · rintro ⟨t, rfl⟩
    exact ⟨_, canonicalLocale_text t⟩
  · obtain ⟨t, rfl⟩ := exists_tag_of_ok h
    obtain rfl := Except.ok.inj ((canonicalLocale_text t).symm.trans h)
    rw [canonicalLocale_text, LocaleTag.canonical_canonical]
  · obtain ⟨t, rfl⟩ := exists_tag_of_ok h
    obtain ⟨t', rfl⟩ := exists_tag_of_ok h'
    obtain rfl := Except.ok.inj ((canonicalLocale_text t).symm.trans h)
    obtain rfl := Except.ok.inj ((canonicalLocale_text t').symm.trans h')
    exact LocaleTag.text_canonical_eq_iff

end Flock
