/-
# Flock.History.SampleLine — which lines are samples.

The grammar of a sample line, and the reader against it: what the grammar derives is read, and what is read the
grammar derives, but for one kind of line.  The reader looks for the value after the first white space behind the last
brace, and never looks at what stands between the two: a line that is GLUED there is read as if nothing were.

The grammar is written as predicates on texts, constructor by constructor, and says nothing of how a reader goes about
it.  So each function of the parser is compared with one predicate, in both directions: `labelValue` with `Escaped`,
`labelPair` with `Pair`, `parseLabels` with `LabelList`, `parseMetricKey` with `SeriesText`.
-/
import Flock.History.Exposition
import Flock.Text.Slices

namespace Flock.History

open Std (ExtTreeMap)

/-! ## The grammar -/

/-- White space only. -/
def Blank (text : List Char) : Prop := ∀ c ∈ text, Text.isWhitespace c = true

/-- No white space. -/
def Solid (text : List Char) : Prop := ∀ c ∈ text, Text.isWhitespace c = false

theorem blank_of_all {text : List Char} (h : text.all Text.isWhitespace = true) : Blank text := List.all_eq_true.mp h

theorem solid_of_all {text : List Char} (h : text.all (fun c => !Text.isWhitespace c) = true) : Solid text :=
  fun c hc => by simpa using List.all_eq_true.mp h c hc

/-- **`Escaped text value`** — what stands between the quotes, and what it means. -/
inductive Escaped : List Char → List Char → Prop
  | nil : Escaped [] []
  | plain {c : Char} {text value : List Char} (hquote : c ≠ '"') (hslash : c ≠ '\\') (h : Escaped text value) :
      Escaped (c :: text) (c :: value)
  | quote {text value : List Char} (h : Escaped text value) : Escaped ('\\' :: '"' :: text) ('"' :: value)
  | backslash {text value : List Char} (h : Escaped text value) : Escaped ('\\' :: '\\' :: text) ('\\' :: value)
  | lineFeed {text value : List Char} (h : Escaped text value) : Escaped ('\\' :: 'n' :: text) ('\n' :: value)

/-- **`Pair (name, value) text`** — `name="escaped value"`, with white space around the sign. -/
inductive Pair : List Char × List Char → List Char → Prop
  | mk {name value before after quoted : List Char} (hname : validLabelName name = true) (hbefore : Blank before)
      (hafter : Blank after) (h : Escaped quoted value) :
      Pair (name, value) (name ++ (before ++ '=' :: (after ++ '"' :: (quoted ++ ['"']))))

/-- **`LabelList pairs text`** — pairs between commas, with white space around them and a comma after the last, if
one likes. -/
inductive LabelList : List (List Char × List Char) → List Char → Prop
  | blank {text : List Char} (h : Blank text) : LabelList [] text
  | last {pair : List Char × List Char} {lead text trail : List Char} (hlead : Blank lead) (h : Pair pair text)
      (htrail : Blank trail) : LabelList [pair] (lead ++ (text ++ trail))
  | more {pair : List Char × List Char} {pairs : List (List Char × List Char)} {lead text trail rest : List Char}
      (hlead : Blank lead) (h : Pair pair text) (htrail : Blank trail) (hrest : LabelList pairs rest) :
      LabelList (pair :: pairs) (lead ++ (text ++ (trail ++ ',' :: rest)))

/-- The labels that the pairs add to others. -/
def addLabels (labels : Labels) (pairs : List (List Char × List Char)) : Labels :=
  pairs.foldl (fun labels pair => labels.insert (String.ofList pair.1) (String.ofList pair.2)) labels

/-- **`Labelled key text`** — a metric, directly followed by its labels in braces. -/
inductive Labelled : MetricKey → List Char → Prop
  | mk {metric inside : List Char} {pairs : List (List Char × List Char)} (hmetric : validMetricName metric = true)
      (h : LabelList pairs inside) (hdistinct : (pairs.map Prod.fst).Nodup) :
      Labelled ⟨String.ofList metric, addLabels ∅ pairs⟩ (metric ++ '\x7b' :: (inside ++ ['\x7d']))

/-- **`SeriesText key text`** — a metric, and its labels if it has any. -/
inductive SeriesText : MetricKey → List Char → Prop
  | bare {metric : List Char} (hmetric : validMetricName metric = true) :
      SeriesText ⟨String.ofList metric, ∅⟩ metric
  | labelled {key : MetricKey} {text : List Char} (h : Labelled key text) : SeriesText key text

section Lines

variable {ν : Type} [F64 ν]

/-- A single token that parses as a finite number. -/
structure Token (text : List Char) (value : ν) : Prop where
  nonempty : text ≠ []
  solid : Solid text
  parse : F64.parse text = some value
  finite : F64.isFinite value = true

/-- **`SampleLine key value line`** — a series, white space and a value. -/
inductive SampleLine : MetricKey → ν → List Char → Prop
  | mk {key : MetricKey} {value : ν} {series gap token : List Char} (hseries : SeriesText key series)
      (hgap : Blank gap) (hne : gap ≠ []) (htoken : Token token value) :
      SampleLine key value (series ++ (gap ++ token))

/-- **`Glued ν line`** — between the labels and the white space stands something else. -/
inductive Glued (ν : Type) [F64 ν] : List Char → Prop
  | mk {key : MetricKey} {value : ν} {series glue gap token : List Char} (hseries : Labelled key series)
      (hglue : glue ≠ []) (hsolid : Solid glue) (hbrace : '\x7d' ∉ glue) (hgap : Blank gap) (hne : gap ≠ [])
      (htoken : Token token value) (hvalue : '\x7d' ∉ token) : Glued ν (series ++ (glue ++ (gap ++ token)))

end Lines

/-! ## White space

`trim_start` takes what is blank and stops at what is not. -/

/-- All of the blank is taken, and nothing else. -/
theorem skipWhitespace_append {lead rest : List Char} (hlead : Blank lead)
    (hrest : ∀ c ∈ rest.head?, Text.isWhitespace c = false) : skipWhitespace (lead ++ rest) = rest := by
  unfold skipWhitespace
  rw [List.dropWhile_append_of_pos hlead]
  cases rest with
  | nil => rfl
  | cons c rest => exact List.dropWhile_cons_of_neg (by simpa using hrest c rfl)

/-- What is taken can be put back. -/
theorem exists_skipWhitespace (cs : List Char) :
    ∃ lead, Blank lead ∧ cs = lead ++ skipWhitespace cs ∧
      ∀ c ∈ (skipWhitespace cs).head?, Text.isWhitespace c = false := by
  refine ⟨cs.takeWhile Text.isWhitespace, fun c hc => List.all_eq_true.mp List.all_takeWhile c hc,
    (List.takeWhile_append_dropWhile ..).symm, fun c hc => ?_⟩
  have hnot := List.head?_dropWhile_not Text.isWhitespace cs
  rw [show cs.dropWhile Text.isWhitespace = skipWhitespace cs from rfl, Option.mem_def.mp hc] at hnot
  simpa using hnot

/-- White space ends a label name. -/
theorem labelNameChar_of_isWhitespace {c : Char} (h : Text.isWhitespace c = true) : labelNameChar c = false := by
  simp only [Text.isWhitespace, Bool.or_eq_true, Bool.and_eq_true, decide_eq_true_eq, beq_iff_eq] at h
  have hunderscore : c ≠ '_' := by
    rintro rfl
    revert h
    decide
  simp only [labelNameChar, Text.isAsciiAlphanumeric, Text.isAsciiAlphabetic, Text.isAsciiDigit, Bool.or_eq_false_iff,
    Bool.and_eq_false_iff, decide_eq_false_iff_not, beq_eq_false_iff_ne]
  refine ⟨⟨?_, ?_⟩, hunderscore⟩ <;> omega

/-! ## Labels

A label value has three escapes; any other character behind a backslash is an error of the line.  A quote ends the
value. -/

/-- An escaped text is unescaped, up to the quote that is not part of it. -/
theorem labelValue_of_escaped {text value : List Char} (h : Escaped text value) (acc rest : List Char) :
    labelValue acc (text ++ '"' :: rest) = some (acc.reverse ++ value, rest) := by
  induction h generalizing acc with
  | nil => simp [labelValue]
  | plain hquote hslash _ ih =>
      rw [List.cons_append, labelValue]
      · rw [ih]
        simp
      all_goals simp_all
  | quote _ ih => simp [labelValue, ih]
  | backslash _ ih => simp [labelValue, ih]
  | lineFeed _ ih => simp [labelValue, ih]

/-- What was unescaped is an escaped text, up to its quote. -/
theorem escaped_of_labelValue {acc cs value rest : List Char} (h : labelValue acc cs = some (value, rest)) :
    ∃ text v, Escaped text v ∧ cs = text ++ '"' :: rest ∧ value = acc.reverse ++ v := by
  fun_induction labelValue acc cs with
  | case1 => cases h
  | case2 acc rest' =>
      obtain ⟨rfl, rfl⟩ : acc.reverse = value ∧ rest' = rest := by simpa using h
      exact ⟨[], [], .nil, rfl, by simp⟩
  | case3 => cases h
  | case4 acc tail ih =>
      obtain ⟨text, v, hv, rfl, rfl⟩ := ih h
      exact ⟨_, _, .quote hv, rfl, by simp⟩
  | case5 acc tail hne ih =>
      obtain ⟨text, v, hv, rfl, rfl⟩ := ih h
      exact ⟨_, _, .backslash hv, rfl, by simp⟩
  | case6 acc tail hne hne' ih =>
      obtain ⟨text, v, hv, rfl, rfl⟩ := ih h
      exact ⟨_, _, .lineFeed hv, rfl, by simp⟩
  | case7 => cases h
  | case8 acc c tail hquote hend hslash ih =>
      obtain ⟨text, v, hv, rfl, rfl⟩ := ih h
      have hplain : c ≠ '\\' := by
        intro hc
        cases text with
        | nil => exact hslash _ _ hc rfl
        | cons d text => exact hslash _ _ hc rfl
      exact ⟨c :: text, c :: v, .plain hquote hplain hv, rfl, by simp⟩

theorem all_labelNameChar {name : List Char} (h : validLabelName name = true) : ∀ c ∈ name, labelNameChar c = true := by
  unfold validLabelName at h
  cases name with
  | nil => cases h
  | cons c name =>
      simp only [validName, Bool.and_eq_true, List.all_eq_true] at h
      intro d hd
      rcases List.mem_cons.mp hd with rfl | hrest
      · simp only [labelNameChar, Text.isAsciiAlphanumeric, Bool.or_eq_true] at h ⊢
        tauto
      · exact h.2 d hrest

/-- A pair is read off the front of a text. -/
theorem labelPair_of_pair {name value text : List Char} (h : Pair (name, value) text) (rest : List Char) :
    labelPair (text ++ rest) = some (name, value, rest) := by
  cases h with
  | @mk _ _ before after quoted hname hbefore hafter h =>
      let tail := before ++ '=' :: (after ++ '"' :: (quoted ++ '"' :: rest))
      have htext : name ++ (before ++ '=' :: (after ++ '"' :: (quoted ++ ['"']))) ++ rest = name ++ tail := by
        simp [tail]
      -- the name ends where the white space or the sign begins
      have hhead : ∀ c ∈ tail.head?, ¬ labelNameChar c = true := by
        intro c hc
        cases before with
        | nil =>
            obtain rfl : '=' = c := Option.some.inj hc
            decide
        | cons b before =>
            obtain rfl : b = c := Option.some.inj hc
            rw [labelNameChar_of_isWhitespace (hbefore b List.mem_cons_self)]
            decide
      have hcut : tail.takeWhile labelNameChar = [] ∧ tail.dropWhile labelNameChar = tail := by
        cases htail : tail with
        | nil => exact ⟨rfl, rfl⟩
        | cons c rest =>
            have hc := hhead c (by rw [htail]; rfl)
            exact ⟨List.takeWhile_cons_of_neg hc, List.dropWhile_cons_of_neg hc⟩
      have htake : (name ++ tail).takeWhile labelNameChar = name := by
        rw [List.takeWhile_append_of_pos (all_labelNameChar hname), hcut.1, List.append_nil]
      have hdrop : (name ++ tail).dropWhile labelNameChar = tail := by
        rw [List.dropWhile_append_of_pos (all_labelNameChar hname), hcut.2]
      have hsign : skipWhitespace tail = '=' :: (after ++ '"' :: (quoted ++ '"' :: rest)) :=
        skipWhitespace_append hbefore (by rintro _ ⟨⟩; decide)
      have hquote : skipWhitespace (after ++ '"' :: (quoted ++ '"' :: rest)) = '"' :: (quoted ++ '"' :: rest) :=
        skipWhitespace_append hafter (by rintro _ ⟨⟩; decide)
      rw [htext, labelPair]
      simp only [htake, hdrop, hname, hsign, hquote, if_true]
      rw [labelValue_of_escaped h]
      rfl

theorem pair_of_labelPair {cs name value rest : List Char} (h : labelPair cs = some (name, value, rest)) :
    ∃ text, Pair (name, value) text ∧ cs = text ++ rest := by
  simp only [labelPair] at h
  split at h
  · rename_i hname
    split at h
    · rename_i afterEq hsign
      split at h
      · rename_i quoted hquote
        obtain ⟨⟨v, r⟩, hvalue, heq⟩ := Option.map_eq_some_iff.mp h
        obtain ⟨rfl, rfl, rfl⟩ : _ = name ∧ v = value ∧ r = rest := by simpa using heq
        obtain ⟨text, v', hescaped, rfl, rfl⟩ := escaped_of_labelValue hvalue
        obtain ⟨before, hbefore, hbeforeEq, -⟩ := exists_skipWhitespace (cs.dropWhile labelNameChar)
        obtain ⟨after, hafter, hafterEq, -⟩ := exists_skipWhitespace afterEq
        refine ⟨_, .mk hname hbefore hafter hescaped, ?_⟩
        rw [hsign] at hbeforeEq
        rw [hquote] at hafterEq
        have hcs := (List.takeWhile_append_dropWhile (p := labelNameChar) (l := cs)).symm
        rw [hbeforeEq, hafterEq] at hcs
        simpa using hcs
      · cases h
    · cases h
  · cases h

/-- One round of `parse_labels`, taken apart. -/
theorem exists_round {input cs name value rest : List Char} (hinput : skipWhitespace input = cs)
    (hpair : labelPair cs = some (name, value, rest)) :
    ∃ lead text trail, Blank lead ∧ Pair (name, value) text ∧ Blank trail ∧
      input = lead ++ (text ++ (trail ++ skipWhitespace rest)) := by
  obtain ⟨lead, hlead, hin, -⟩ := exists_skipWhitespace input
  obtain ⟨text, htext, hcs⟩ := pair_of_labelPair hpair
  obtain ⟨trail, htrail, hrest, -⟩ := exists_skipWhitespace rest
  refine ⟨lead, text, trail, hlead, htext, htrail, ?_⟩
  rw [← hrest, ← hcs, ← hinput]
  exact hin

/-- The names after one pair more. -/
theorem mem_insert_label {labels : Labels} {name other value : String} :
    other ∈ labels.insert name value ↔ name = other ∨ other ∈ labels := by
  rw [ExtTreeMap.mem_insert, Std.LawfulEqOrd.compare_eq_iff_eq]

/-- **What `parse_labels` reads is a list of labels**, each name once. -/
theorem labelList_of_parseLabels {labels labels' : Labels} {input : List Char}
    (h : parseLabels labels input = some labels') :
    ∃ pairs, LabelList pairs input ∧ (pairs.map Prod.fst).Nodup ∧
      (∀ pair ∈ pairs, String.ofList pair.1 ∉ labels) ∧ labels' = addLabels labels pairs := by
  fun_induction parseLabels labels input with
  | case1 labels input hinput =>
      obtain ⟨lead, hlead, hin, -⟩ := exists_skipWhitespace input
      rw [hinput, List.append_nil] at hin
      exact ⟨[], .blank (hin ▸ hlead), List.nodup_nil, by simp, (Option.some.inj h).symm⟩
  | case2 => cases h
  | case3 => cases h
  | case4 labels input c cs hinput name value rest hpair hnew labels₁ hrest =>
      obtain ⟨lead, text, trail, hlead, htext, htrail, hin⟩ := exists_round hinput hpair
      rw [hrest, List.append_nil] at hin
      refine ⟨[(name, value)], hin ▸ .last hlead htext htrail, by simp, ?_, (Option.some.inj h).symm⟩
      intro pair hmem
      rw [List.mem_singleton.mp hmem]
      simpa [ExtTreeMap.contains_iff_mem] using hnew
  | case5 labels input c cs hinput name value rest hpair hnew labels₁ more hrest _ ih =>
      obtain ⟨lead, text, trail, hlead, htext, htrail, hin⟩ := exists_round hinput hpair
      obtain ⟨pairs, hpairs, hnodup, hfresh, heq⟩ := ih h
      rw [hrest] at hin
      refine ⟨(name, value) :: pairs, hin ▸ .more hlead htext htrail hpairs, ?_, ?_, heq⟩
      · rw [List.map_cons, List.nodup_cons]
        refine ⟨fun hmem => ?_, hnodup⟩
        obtain ⟨pair, hpair', hname⟩ := List.mem_map.mp hmem
        exact hfresh pair hpair' (mem_insert_label.mpr (.inl (congrArg String.ofList hname.symm)))
      · intro pair hmem
        rcases List.mem_cons.mp hmem with rfl | hrest'
        · simpa [ExtTreeMap.contains_iff_mem] using hnew
        · exact fun hold => hfresh pair hrest' (mem_insert_label.mpr (.inr hold))
  | case6 => cases h

/-- A pair does not start with white space. -/
theorem head_pair {pair : List Char × List Char} {text : List Char} (h : Pair pair text) (rest : List Char) :
    ∃ c cs, text ++ rest = c :: cs ∧ Text.isWhitespace c = false := by
  cases h with
  | @mk name _ before after quoted hname _ _ _ =>
      cases name with
      | nil => cases hname
      | cons c name =>
          refine ⟨c, _, rfl, ?_⟩
          cases hwhite : Text.isWhitespace c with
          | false => rfl
          | true =>
              have hchar := all_labelNameChar hname c List.mem_cons_self
              rw [labelNameChar_of_isWhitespace hwhite] at hchar
              cases hchar

section Round

variable {labels : Labels} {name value lead text trail : List Char}

/-- What one round sees of a list of labels. -/
theorem round_of_pair (hlead : Blank lead) (h : Pair (name, value) text) (htrail : Blank trail) {rest : List Char}
    (hrest : ∀ c ∈ rest.head?, Text.isWhitespace c = false) :
    (∃ c cs, skipWhitespace (lead ++ (text ++ (trail ++ rest))) = c :: cs ∧
      labelPair (c :: cs) = some (name, value, trail ++ rest)) ∧ skipWhitespace (trail ++ rest) = rest := by
  obtain ⟨c, cs, hcs, hc⟩ := head_pair h (trail ++ rest)
  refine ⟨⟨c, cs, ?_, ?_⟩, skipWhitespace_append htrail hrest⟩
  · rw [hcs]
    exact skipWhitespace_append hlead (by rintro _ ⟨⟩; exact hc)
  · rw [← hcs]
    exact labelPair_of_pair h _

/-- **One round of the list**: a fresh name is put in, and what stands behind the pair says how it goes on. -/
theorem parseLabels_round (hlead : Blank lead) (h : Pair (name, value) text) (htrail : Blank trail)
    (hnew : String.ofList name ∉ labels) {rest : List Char}
    (hrest : ∀ c ∈ rest.head?, Text.isWhitespace c = false) :
    parseLabels labels (lead ++ (text ++ (trail ++ rest))) =
      match rest with
      | [] => some (labels.insert (String.ofList name) (String.ofList value))
      | ',' :: more => parseLabels (labels.insert (String.ofList name) (String.ofList value)) more
      | _ :: _ => none := by
  obtain ⟨⟨c, cs, hinput, hpair⟩, hskip⟩ := round_of_pair hlead h htrail hrest
  rw [parseLabels]
  split
  · simp_all
  · rename_i hcons
    obtain ⟨rfl, rfl⟩ := List.cons.inj (hinput.symm.trans hcons)
    split
    · simp_all
    · rename_i hpair'
      obtain ⟨rfl, rfl, rfl⟩ : _ ∧ _ ∧ _ := by simpa using hpair.symm.trans hpair'
      rw [if_neg (by simpa [ExtTreeMap.contains_iff_mem] using hnew)]
      dsimp only
      split
      · rename_i hmore
        obtain rfl : rest = [] := hskip.symm.trans hmore
        rfl
      · rename_i more hmore
        obtain rfl : rest = ',' :: more := hskip.symm.trans hmore
        rfl
      · rename_i x more hx hmore
        obtain rfl : rest = x :: more := hskip.symm.trans hmore
        simp_all

theorem parseLabels_last (hlead : Blank lead) (h : Pair (name, value) text) (htrail : Blank trail)
    (hnew : String.ofList name ∉ labels) :
    parseLabels labels (lead ++ (text ++ trail)) = some (labels.insert (String.ofList name) (String.ofList value)) := by
  have hnil : ∀ c ∈ ([] : List Char).head?, Text.isWhitespace c = false := by simp
  simpa using parseLabels_round hlead h htrail hnew hnil

theorem parseLabels_more (hlead : Blank lead) (h : Pair (name, value) text) (htrail : Blank trail)
    (hnew : String.ofList name ∉ labels) (rest : List Char) :
    parseLabels labels (lead ++ (text ++ (trail ++ ',' :: rest))) =
      parseLabels (labels.insert (String.ofList name) (String.ofList value)) rest := by
  have hcomma : ∀ c ∈ (',' :: rest).head?, Text.isWhitespace c = false := by
    rintro _ ⟨⟩
    decide
  exact parseLabels_round hlead h htrail hnew hcomma

end Round

/-- **A list of labels is read**, if no name comes twice. -/
theorem parseLabels_of_labelList {pairs : List (List Char × List Char)} {input : List Char}
    (h : LabelList pairs input) (hdistinct : (pairs.map Prod.fst).Nodup) {labels : Labels}
    (hfresh : ∀ pair ∈ pairs, String.ofList pair.1 ∉ labels) :
    parseLabels labels input = some (addLabels labels pairs) := by
  induction h generalizing labels with
  | @blank text h =>
      have hskip : skipWhitespace (text ++ []) = [] := skipWhitespace_append h (by simp)
      rw [List.append_nil] at hskip
      rw [parseLabels]
      split
      · rfl
      · rename_i hcons
        rw [hskip] at hcons
        cases hcons
  | last hlead h htrail => exact parseLabels_last hlead h htrail (hfresh _ List.mem_cons_self)
  | @more pair pairs _ _ _ _ hlead h htrail _ ih =>
      rw [List.map_cons, List.nodup_cons] at hdistinct
      refine (parseLabels_more hlead h htrail (hfresh _ List.mem_cons_self) _).trans (ih hdistinct.2 ?_)
      intro other hother hmem
      rcases mem_insert_label.mp hmem with hsame | hold
      · exact hdistinct.1 (List.mem_map.mpr ⟨other, hother, (String.ofList_injective hsame).symm⟩)
      · exact hfresh other (List.mem_cons_of_mem _ hother) hold

/-! ## Series

A series without labels is a bare metric; with labels, the metric stands directly in front of the brace. -/

/-- The characters of a metric name. -/
theorem metricChar {metric : List Char} (h : validMetricName metric = true) {c : Char} (hc : c ∈ metric) :
    c ≠ '\x7b' ∧ c ≠ '\x7d' ∧ c ≠ '#' ∧ Text.isWhitespace c = false := by
  have hchar : (Text.isAsciiAlphanumeric c || c == '_' || c == ':') = true := by
    unfold validMetricName at h
    cases metric with
    | nil => cases hc
    | cons d metric =>
        simp only [validName, Bool.and_eq_true, List.all_eq_true] at h
        rcases List.mem_cons.mp hc with rfl | hrest
        · simp only [Text.isAsciiAlphanumeric, Bool.or_eq_true] at h ⊢
          tauto
        · exact h.2 c hrest
  have hnot {d : Char} (hd : (Text.isAsciiAlphanumeric d || d == '_' || d == ':') = false) : c ≠ d := by
    rintro rfl
    rw [hchar] at hd
    cases hd
  refine ⟨hnot (by decide), hnot (by decide), hnot (by decide), ?_⟩
  cases hwhite : Text.isWhitespace c with
  | false => rfl
  | true =>
      have hname := labelNameChar_of_isWhitespace hwhite
      have hcolon : c = ':' := by
        unfold labelNameChar at hname
        simpa [hname] using hchar
      rw [hcolon] at hwhite
      cases hwhite

/-- **What `parse_metric_key` reads** is the text of a series. -/
theorem parseMetricKey_eq_some {series : List Char} {key : MetricKey} :
    parseMetricKey series = some key ↔ SeriesText key series := by
  constructor
  -- what was parsed is a name, or a name with labels between braces
  · intro h
    by_cases hopen : '\x7b' ∈ series
    · obtain ⟨metric, inside, rfl, hmetric⟩ := List.eq_append_cons_of_mem hopen
      rw [parseMetricKey, Text.span_append_cons hmetric] at h
      dsimp only at h
      split at h
      · rename_i hlast
        obtain ⟨inside, rfl⟩ := List.getLast?_eq_some_iff.mp hlast
        split at h
        · rename_i hname
          rw [List.dropLast_concat] at h
          obtain ⟨labels, hlabels, rfl⟩ := Option.map_eq_some_iff.mp h
          obtain ⟨pairs, hpairs, hnodup, -, rfl⟩ := labelList_of_parseLabels hlabels
          exact .labelled (.mk hname hpairs hnodup)
        · cases h
      · cases h
    -- without an opening brace the whole text is the name
    · rw [parseMetricKey, Text.span_of_notMem hopen] at h
      dsimp only at h
      split at h
      · rename_i hname
        obtain rfl := Option.some.inj h
        exact .bare hname
      · cases h
  -- and these are parsed, since a name has no brace
  · intro h
    cases h with
    | bare hmetric =>
        rw [parseMetricKey, Text.span_of_notMem fun hmem => (metricChar hmetric hmem).1 rfl]
        exact if_pos hmetric
    | labelled h =>
        cases h with
        | mk hmetric hpairs hnodup =>
            rw [parseMetricKey, Text.span_append_cons fun hmem => (metricChar hmetric hmem).1 rfl]
            dsimp only
            rw [List.getLast?_concat, if_pos hmetric, List.dropLast_concat, parseLabels_of_labelList hpairs hnodup (by simp)]
            rfl

/-! ## Lines

The value stands behind the last brace of the line, or behind the first white space where there is no brace.
`splitAfterLast` finds the former, `splitOnceP` the latter. -/

theorem splitAfterLast_of_notMem {c : Char} {cs : List Char} (h : c ∉ cs) : Text.splitAfterLast c cs = none := by
  have hall : ∀ d ∈ cs.reverse, (d != c) = true := fun d hd => by
    simpa using fun heq : d = c => h (heq ▸ List.mem_reverse.mp hd)
  unfold Text.splitAfterLast
  rw [List.takeWhile_eq_self_iff.mpr hall, List.reverse_reverse]
  exact if_pos rfl

theorem splitAfterLast_append {c : Char} {rest : List Char} (h : c ∉ rest) (init : List Char) :
    Text.splitAfterLast c (init ++ c :: rest) = some (init ++ [c], rest) := by
  have hall : ∀ d ∈ rest.reverse, (d != c) = true := fun d hd => by
    simpa using fun heq : d = c => h (heq ▸ List.mem_reverse.mp hd)
  have htake : ((init ++ c :: rest).reverse.takeWhile (· != c)).reverse = rest := by
    rw [List.reverse_append, List.reverse_cons, List.append_assoc, List.takeWhile_append_of_pos hall]
    simp
  have hlength : (init ++ c :: rest).length - rest.length = (init ++ [c]).length := by
    simp
    omega
  unfold Text.splitAfterLast
  dsimp only
  rw [htake, if_neg (by simp; omega), hlength, show init ++ c :: rest = (init ++ [c]) ++ rest by simp, List.take_left]

/-- The last of its kind. -/
theorem exists_last_of_mem {c : Char} {cs : List Char} (h : c ∈ cs) :
    ∃ init rest, cs = init ++ c :: rest ∧ c ∉ rest := by
  obtain ⟨as, bs, hreverse, hnot⟩ := List.eq_append_cons_of_mem (List.mem_reverse.mpr h)
  refine ⟨bs.reverse, as.reverse, ?_, fun hmem => hnot (List.mem_reverse.mp hmem)⟩
  rw [← List.reverse_reverse cs, hreverse]
  simp

/-- What stands behind the last of a kind is known from the text. -/
theorem after_last_unique {c : Char} {init init' rest rest' : List Char} (h : init ++ c :: rest = init' ++ c :: rest')
    (hrest : c ∉ rest) (hrest' : c ∉ rest') : rest = rest' := by
  have hsame := congrArg (Text.splitAfterLast c) h
  rw [splitAfterLast_append hrest, splitAfterLast_append hrest'] at hsame
  exact (Prod.ext_iff.mp (Option.some.inj hsame)).2

section Lines

variable {ν : Type} [F64 ν] {key : MetricKey} {value : ν} {series glue gap token line : List Char}

/-- A gap and a token after something solid. -/
theorem splitOnceP_gap (hsolid : Solid glue) (hgap : Blank gap) (hne : gap ≠ []) (token : List Char) :
    ∃ rest, Text.splitOnceP Text.isWhitespace (glue ++ (gap ++ token)) = some (glue, rest ++ token) ∧ Blank rest := by
  cases gap with
  | nil => exact absurd rfl hne
  | cons c rest =>
      exact ⟨rest, Text.splitOnceP_append hsolid (hgap c List.mem_cons_self) _, fun d hd => hgap d (List.mem_cons_of_mem _ hd)⟩

/-- What `parse_exposition` does with a series and the text after it. -/
theorem parseSample_of_split {rest : List Char} (hsplit : seriesAndValue line = some (series, rest ++ token))
    (hrest : Blank rest) (htoken : Token token value) (hseries : SeriesText key series) :
    parseSample line = some (key, value) := by
  have hskip : skipWhitespace (rest ++ token) = token := by
    apply skipWhitespace_append hrest
    intro c hc
    exact htoken.solid c (List.mem_of_mem_head? hc)
  have hsolid : ∀ c ∈ token, Text.isWhitespace c = false := htoken.solid
  unfold parseSample
  rw [hsplit]
  simpa [hskip, htoken.parse, htoken.finite, htoken.nonempty, parseMetricKey_eq_some.mpr hseries] using hsolid

/-- A labelled series ends at its brace. -/
theorem Labelled.ends {text : List Char} (h : Labelled key text) : ∃ init, text = init ++ ['\x7d'] := by
  cases h with
  | @mk metric inside _ _ _ _ => exact ⟨metric ++ '\x7b' :: inside, by simp⟩

/-- **Labels are read**, whatever stands between them and the white space. -/
theorem parseSample_of_labelled (hseries : Labelled key series) (hsolid : Solid glue) (hbrace : '\x7d' ∉ glue)
    (hgap : Blank gap) (hne : gap ≠ []) (htoken : Token token value) (hvalue : '\x7d' ∉ token) :
    parseSample (series ++ (glue ++ (gap ++ token))) = some (key, value) := by
  obtain ⟨rest, hsplit, hrest⟩ := splitOnceP_gap hsolid hgap hne token
  obtain ⟨init, rfl⟩ := hseries.ends
  have hgapBrace : '\x7d' ∉ gap := fun hmem => absurd (hgap _ hmem) (by decide)
  have hafter : '\x7d' ∉ glue ++ (gap ++ token) := by simp [hbrace, hgapBrace, hvalue]
  refine parseSample_of_split ?_ hrest htoken (.labelled hseries)
  unfold seriesAndValue
  rw [List.append_assoc, List.singleton_append, splitAfterLast_append hafter]
  dsimp only
  rw [hsplit]
  rfl

/-- **A sample line is read**, if there is no brace in its value. -/
theorem parseSample_of_series (hseries : SeriesText key series) (hgap : Blank gap) (hne : gap ≠ [])
    (htoken : Token token value) (hvalue : '\x7d' ∉ token) :
    parseSample (series ++ (gap ++ token)) = some (key, value) := by
  cases hseries with
  | labelled h =>
      have hnil : Solid [] := fun c hc => absurd hc List.not_mem_nil
      exact parseSample_of_labelled h hnil List.not_mem_nil hgap hne htoken hvalue
  | bare hmetric =>
      have hsolid : Solid series := fun c hc => (metricChar hmetric hc).2.2.2
      obtain ⟨rest, hsplit, hrest⟩ := splitOnceP_gap hsolid hgap hne token
      refine parseSample_of_split ?_ hrest htoken (.bare hmetric)
      have hseriesBrace : '\x7d' ∉ series := fun hmem => (metricChar hmetric hmem).2.1 rfl
      have hgapBrace : '\x7d' ∉ gap := fun hmem => absurd (hgap _ hmem) (by decide)
      unfold seriesAndValue
      rw [splitAfterLast_of_notMem (by simp [hseriesBrace, hgapBrace, hvalue])]
      exact hsplit

/-- What is read is a series and a token. -/
theorem parseSample_eq_some (h : parseSample line = some (key, value)) :
    ∃ series valueText, seriesAndValue line = some (series, valueText) ∧ SeriesText key series ∧
      Token (skipWhitespace valueText) value := by
  obtain ⟨⟨series, valueText⟩, hsplit, h⟩ := Option.bind_eq_some_iff.mp h
  dsimp only at h
  split at h
  · cases h
  · rename_i hsingle
    obtain ⟨v, hparse, h⟩ := Option.bind_eq_some_iff.mp h
    split at h
    · cases h
    · rename_i hfinite
      obtain ⟨k, hkey, h⟩ := Option.bind_eq_some_iff.mp h
      obtain ⟨rfl, rfl⟩ : k = key ∧ v = value := by simpa using h
      rw [Bool.or_eq_true, not_or, List.isEmpty_iff, Bool.not_eq_true, List.any_eq_false] at hsingle
      have hsolid : Solid (skipWhitespace valueText) := fun c hc => by simpa using hsingle.2 c hc
      exact ⟨series, valueText, hsplit, parseMetricKey_eq_some.mp hkey,
        ⟨hsingle.1, hsolid, hparse, by simpa using hfinite⟩⟩

omit [F64 ν] in
/-- **Where a line is split.**  What is dropped stands behind the last brace. -/
theorem seriesAndValue_eq_some {valueText : List Char} (h : seriesAndValue line = some (series, valueText)) :
    ∃ glue c, line = series ++ (glue ++ c :: valueText) ∧ Text.isWhitespace c = true ∧ Solid glue ∧
      (glue = [] ∨ (∃ init, series = init ++ ['\x7d']) ∧ '\x7d' ∉ glue ++ c :: valueText) := by
  unfold seriesAndValue at h
  by_cases hbrace : '\x7d' ∈ line
  · obtain ⟨init, after, rfl, hafter⟩ := exists_last_of_mem hbrace
    rw [splitAfterLast_append hafter] at h
    obtain ⟨⟨glue, rest⟩, hrest, heq⟩ := Option.map_eq_some_iff.mp h
    obtain ⟨rfl, rfl⟩ : init ++ ['\x7d'] = series ∧ rest = valueText := by simpa using heq
    obtain ⟨c, rfl, hc, hsolid⟩ := Text.splitOnceP_eq_some hrest
    exact ⟨glue, c, by simp, hc, hsolid, .inr ⟨⟨init, rfl⟩, hafter⟩⟩
  · rw [splitAfterLast_of_notMem hbrace] at h
    obtain ⟨c, hline, hc, -⟩ := Text.splitOnceP_eq_some h
    exact ⟨[], c, hline, hc, fun d hd => absurd hd List.not_mem_nil, .inl rfl⟩

/-- **What is read is a sample line**, or glued. -/
theorem sampleLine_or_glued (h : parseSample line = some (key, value)) :
    SampleLine key value line ∨ Glued ν line := by
  obtain ⟨series, valueText, hsplit, hseries, htoken⟩ := parseSample_eq_some h
  obtain ⟨glue, c, rfl, hc, hsolid, hglue⟩ := seriesAndValue_eq_some hsplit
  obtain ⟨lead, hlead, hvalueText, -⟩ := exists_skipWhitespace valueText
  have hgap : Blank (c :: lead) := by
    intro d hd
    rcases List.mem_cons.mp hd with rfl | hrest
    · exact hc
    · exact hlead d hrest
  have hwhole : c :: valueText = (c :: lead) ++ skipWhitespace valueText := congrArg (c :: ·) hvalueText
  rw [hwhole] at hglue ⊢
  cases glue with
  | nil =>
      left
      show SampleLine key value (series ++ ((c :: lead) ++ skipWhitespace valueText))
      exact .mk hseries hgap (List.cons_ne_nil _ _) htoken
  | cons d glue =>
      obtain ⟨⟨init, rfl⟩, hbrace⟩ := hglue.resolve_left (List.cons_ne_nil _ _)
      cases hseries with
      | bare hmetric => exact absurd rfl (metricChar hmetric (List.mem_append_right _ List.mem_cons_self)).2.1
      | labelled hlabelled =>
          right
          refine .mk hlabelled (List.cons_ne_nil _ _) hsolid ?_ hgap (List.cons_ne_nil _ _) htoken ?_
          · exact fun hmem => hbrace (List.mem_append_left _ hmem)
          · exact fun hmem => hbrace (List.mem_append_right _ (List.mem_append_right _ hmem))

/-- **No glued line is a sample line.** -/
theorem not_sampleLine_of_glued (h : Glued ν line) : ¬ SampleLine key value line := by
  intro hsample
  obtain @⟨_, _, labelled, glue, gap, token, hlabelled, hglue, hsolid, hbrace, hgap, hne, -, hvalue⟩ := h
  obtain ⟨init, rfl⟩ := hlabelled.ends
  have hnone : '\x7d' ∉ gap := fun hmem => absurd (hgap _ hmem) (by decide)
  have hafter : '\x7d' ∉ glue ++ (gap ++ token) := by simp [hbrace, hnone, hvalue]
  -- behind the last brace stands the glue, and then white space
  have hline (init' rest : List Char) (hrest : '\x7d' ∉ rest)
      (heq : init ++ ['\x7d'] ++ (glue ++ (gap ++ token)) = init' ++ '\x7d' :: rest) :
      rest = glue ++ (gap ++ token) := by
    rw [List.append_assoc, List.singleton_append] at heq
    exact after_last_unique heq.symm hrest hafter
  generalize hwhole : init ++ ['\x7d'] ++ (glue ++ (gap ++ token)) = whole at hsample
  obtain @⟨series, gap', token', hseries, hgap', hne', htoken'⟩ := hsample
  have hnone' : '\x7d' ∉ gap' := fun hmem => absurd (hgap' _ hmem) (by decide)
  by_cases hlast : '\x7d' ∈ token'
  · -- a brace in the value has no white space behind it
    obtain ⟨before, rest, rfl, hrest⟩ := exists_last_of_mem hlast
    have hsame := hline (series ++ (gap' ++ before)) rest hrest (by rw [hwhole]; simp)
    obtain ⟨c, gap, rfl⟩ := List.exists_cons_of_ne_nil hne
    have hwhite := hgap c List.mem_cons_self
    have hmem : c ∈ before ++ '\x7d' :: rest := by simp [hsame]
    rw [htoken'.solid c hmem] at hwhite
    cases hwhite
  · cases hseries with
    | bare hmetric =>
        have hmem : '\x7d' ∈ series ++ (gap' ++ token') := by simp [← hwhole]
        rcases List.mem_append.mp hmem with hin | hin
        · exact (metricChar hmetric hin).2.1 rfl
        · rcases List.mem_append.mp hin with hin | hin
          · exact hnone' hin
          · exact hlast hin
    | labelled hlabelled' =>
        obtain ⟨init', rfl⟩ := hlabelled'.ends
        have hsame := hline init' (gap' ++ token') (by simp [hnone', hlast]) (by rw [hwhole]; simp)
        obtain ⟨c, gap', rfl⟩ := List.exists_cons_of_ne_nil hne'
        obtain ⟨d, glue, rfl⟩ := List.exists_cons_of_ne_nil hglue
        obtain ⟨rfl, -⟩ := List.cons.inj hsame
        have hwhite := hgap' c List.mem_cons_self
        rw [hsolid c List.mem_cons_self] at hwhite
        cases hwhite

/-- A glued line is read nevertheless. -/
theorem parseSample_of_glued (h : Glued ν line) : ∃ (key : MetricKey) (value : ν), parseSample line = some (key, value) := by
  cases h with
  | mk hseries _ hsolid hbrace hgap hne htoken hvalue =>
      exact ⟨_, _, parseSample_of_labelled hseries hsolid hbrace hgap hne htoken hvalue⟩

/-- A glued line is neither blank nor a comment. -/
theorem head_of_glued (h : Glued ν line) : line ≠ [] ∧ line.head? ≠ some '#' := by
  cases h with
  | mk hseries =>
      cases hseries with
      | @mk metric _ _ hmetric =>
          cases metric with
          | nil => cases hmetric
          | cons c metric =>
              refine ⟨List.cons_ne_nil _ _, fun hhead => ?_⟩
              exact (metricChar hmetric List.mem_cons_self).2.2.1 (Option.some.inj hhead)

/-! ## The reader, line by line

The reader of an exposition goes line by line, with limits on its series and on its families.  A line is counted if it
is read as a sample and fits. -/

/-- The reader turns the line into a sample. -/
def Reading.Counts (r : Reading ν) (line : List Char) : Prop :=
  ∃ (key : MetricKey) (value : ν), r.line line = r.sample key value

/-- The reader is within its limits. -/
def Reading.Within (r : Reading ν) (line : List Char) : Prop :=
  Text.byteLen line ≤ maxExpositionLineBytes ∧ r.series < maxExpositionSeries

variable {r : Reading ν}

omit [F64 ν] in
theorem series_sample (r : Reading ν) (key : MetricKey) (value : ν) : (r.sample key value).series = r.series + 1 := rfl

omit [F64 ν] in
theorem series_declare (r : Reading ν) (metadata : List Char) : (r.declare metadata).series = r.series := by
  unfold Reading.declare
  repeat' split
  all_goals rfl

/-- **A line is counted** exactly if it is read, within the limits. -/
theorem line_of_counted (hhead : line ≠ [] ∧ line.head? ≠ some '#') (hwithin : r.Within line)
    (h : parseSample line = some (key, value)) : r.line line = r.sample key value := by
  have htype : ¬ "# TYPE ".toList.isPrefixOf line = true := by
    intro hprefix
    obtain ⟨rest, rfl⟩ := List.isPrefixOf_iff_prefix.mp hprefix
    exact hhead.2 rfl
  unfold Reading.line
  rw [if_neg (not_lt.mpr hwithin.1), if_neg (by simpa using hhead.1), if_neg htype, if_neg hhead.2,
    if_neg (not_le.mpr hwithin.2), h]

/-- What is not counted is skipped. -/
theorem line_cases (r : Reading ν) (line : List Char) :
    (∃ key value, parseSample line = some (key, value) ∧ r.Within line ∧ r.line line = r.sample key value) ∨
      (r.line line).series = r.series ∧
        (line ≠ [] → line.head? ≠ some '#' → (r.line line).parsed.skippedLines = r.parsed.skippedLines + 1) := by
  unfold Reading.line
  split
  · exact .inr ⟨rfl, fun _ _ => rfl⟩
  · rename_i hbytes
    split
    · rename_i hempty
      exact .inr ⟨rfl, fun hne => absurd (List.isEmpty_iff.mp hempty) hne⟩
    · split
      · rename_i hprefix
        refine .inr ⟨series_declare _ _, fun _ hhead => ?_⟩
        obtain ⟨rest, rfl⟩ := List.isPrefixOf_iff_prefix.mp hprefix
        exact absurd rfl hhead
      · split
        · rename_i hhash
          exact .inr ⟨rfl, fun _ hhead => absurd hhash hhead⟩
        · split
          · exact .inr ⟨rfl, fun _ _ => rfl⟩
          · rename_i hseries
            split
            · rename_i key value hsample
              exact .inl ⟨key, value, hsample, ⟨not_lt.mp hbytes, not_le.mp hseries⟩, rfl⟩
            · exact .inr ⟨rfl, fun _ _ => rfl⟩

/-- **Only well-formed sample lines are counted**, and every other line that is neither empty nor a comment is
skipped, exactly if the line is not a glued one that the reader gets to read. -/
theorem well_formed_counted_iff (r : Reading ν) (line : List Char) :
    ((r.Counts line → ∃ (key : MetricKey) (value : ν), SampleLine key value line) ∧
      ((¬ ∃ (key : MetricKey) (value : ν), SampleLine key value line) → line ≠ [] → line.head? ≠ some '#' →
        (r.line line).parsed.skippedLines = r.parsed.skippedLines + 1)) ↔
      ¬ (Glued ν line ∧ r.Within line) := by
  constructor
  · rintro ⟨hcounts, -⟩ ⟨hglued, hwithin⟩
    obtain ⟨key, value, hread⟩ := parseSample_of_glued hglued
    obtain ⟨key', value', hsample⟩ := hcounts ⟨key, value, line_of_counted (head_of_glued hglued) hwithin hread⟩
    exact not_sampleLine_of_glued hglued hsample
  · intro hnot
    rcases line_cases r line with ⟨key, value, hread, hwithin, -⟩ | ⟨hseries, hskipped⟩
    · have hsample : SampleLine key value line :=
        (sampleLine_or_glued hread).resolve_right fun hglued => hnot ⟨hglued, hwithin⟩
      exact ⟨fun _ => ⟨key, value, hsample⟩, fun hnone => absurd ⟨key, value, hsample⟩ hnone⟩
    · refine ⟨fun hcounts => ?_, fun _ => hskipped⟩
      obtain ⟨key, value, hline⟩ := hcounts
      rw [hline, series_sample] at hseries
      omega

end Lines

/-- A metric without labels, a word, and a value. -/
def gluedLine : List Char := "a\x7b\x7djunk 5".toList

theorem glued_gluedLine : Glued ℚ gluedLine := by
  have hseries : Labelled ⟨"a", ∅⟩ "a\x7b\x7d".toList := by
    refine @Labelled.mk ['a'] [] [] (by decide) (.blank ?_) List.nodup_nil
    exact fun c hc => absurd hc List.not_mem_nil
  have htoken : Token "5".toList (5 : ℚ) := ⟨by decide, solid_of_all (by decide), by decide +kernel, rfl⟩
  exact @Glued.mk ℚ _ _ _ _ "junk".toList " ".toList _ hseries (by decide) (solid_of_all (by decide)) (by decide)
    (blank_of_all (by decide)) (by decide) htoken (by decide)

/-- The word is dropped, and the line is counted. -/
theorem glued_line_counted : (parseExposition gluedLine : ParsedSnapshot ℚ).skippedLines = 0 ∧
    (parseExposition gluedLine : ParsedSnapshot ℚ).gauges[(⟨"a", ∅⟩ : MetricKey)]? = some 5 ∧
    ({} : Reading ℚ).Counts gluedLine ∧ ¬ ∃ (key : MetricKey) (value : ℚ), SampleLine key value gluedLine := by
  refine ⟨by decide +kernel, by decide +kernel, ?_, ?_⟩
  · obtain ⟨key, value, hread⟩ := parseSample_of_glued glued_gluedLine
    exact ⟨key, value, line_of_counted (head_of_glued glued_gluedLine) ⟨by decide, by decide⟩ hread⟩
  · rintro ⟨key, value, hsample⟩
    exact not_sampleLine_of_glued glued_gluedLine hsample

end Flock.History
