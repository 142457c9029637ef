/-
# Flock.History.Render — the exposition, written and read back.

The text format: a family is a `# TYPE` line and its samples, a sample is a metric, its labels in braces if it has
any, and a value.  Backslashes, quotes and line feeds of a label value are escaped.  What is written so is read back.

How a value is printed is a parameter.

The library that renders the metrics is not under test here.  What is proved is that an exposition of this form, with
valid names and finite values, is read back as the samples it was made of; the reader's limits are in the hypotheses.
-/
import Flock.Lib.TreeMap
import Flock.History.SampleLine

namespace Flock.History

open Std (ExtTreeMap)

/-! ## The text -/

section Text

variable {ν : Type}

/-- A metric family, with its samples. -/
structure Family (ν : Type) where
  name : List Char
  kind : PrometheusType
  samples : List (MetricKey × ν)

/-- What a histogram appends to its name. -/
def histogramSuffixes : List (List Char) := ["_bucket".toList, "_count".toList, "_sum".toList]

/-- The metrics of a family: its name, or the three of a histogram. -/
def Family.Owns (f : Family ν) (metric : String) : Prop :=
  match f.kind with
  | .histogram => ∃ suffix ∈ histogramSuffixes, metric = String.ofList (f.name ++ suffix)
  | _ => metric = String.ofList f.name

/-- **`f.WellFormed`** — the names are valid, and there is a sample. -/
structure Family.WellFormed (f : Family ν) : Prop where
  name : validMetricName f.name = true
  nonempty : f.samples ≠ []
  metric : ∀ sample ∈ f.samples, f.Owns sample.1.metric
  label : ∀ sample ∈ f.samples, ∀ label ∈ sample.1.labels.toList, validLabelName label.1.toList = true

/-- A character of a label value. -/
def escapeLabelChar (c : Char) : List Char :=
  if c = '\\' then ['\\', '\\'] else if c = '"' then ['\\', '"'] else if c = '\n' then ['\\', 'n'] else [c]

/-- `name="value"`. -/
def labelText (label : String × String) : List Char :=
  label.1.toList ++ '=' :: '"' :: (label.2.toList.flatMap escapeLabelChar ++ ['"'])

/-- A series. -/
def seriesText (key : MetricKey) : List Char :=
  if key.labels.toList.isEmpty then key.metric.toList
  else key.metric.toList ++ '\x7b' :: ([','].intercalate (key.labels.toList.map labelText) ++ ['\x7d'])

/-- A sample. -/
def sampleText (print : ν → List Char) (sample : MetricKey × ν) : List Char :=
  seriesText sample.1 ++ ([' '] ++ print sample.2)

/-- The word for a type. -/
def PrometheusType.text : PrometheusType → List Char
  | .counter => "counter".toList
  | .gauge => "gauge".toList
  | .histogram => "histogram".toList

/-- The lines of a family. -/
def Family.lines (print : ν → List Char) (f : Family ν) : List (List Char) :=
  ("# TYPE ".toList ++ (f.name ++ ' ' :: f.kind.text)) :: f.samples.map (sampleText print)

/-- The exposition. -/
def render (print : ν → List Char) (families : List (Family ν)) : List Char :=
  (families.flatMap (Family.lines print)).flatMap fun line => line ++ ['\n']

/-- The series of the gauges. -/
def gaugeKeys (families : List (Family ν)) : List MetricKey :=
  ((families.filter fun f => f.kind = .gauge).flatMap Family.samples).map Prod.fst

end Text

/-! ## A series is read back

The text of a series is derived by the grammar of `SampleLine`, so the reader's lemmas apply to it. -/

theorem escaped_escapeLabelChar {text value : List Char} (h : Escaped text value) (c : Char) :
    Escaped (escapeLabelChar c ++ text) (c :: value) := by
  unfold escapeLabelChar
  split
  · rename_i hc
    rw [hc]
    exact .backslash h
  · rename_i hslash
    split
    · rename_i hc
      rw [hc]
      exact .quote h
    · rename_i hquote
      split
      · rename_i hc
        rw [hc]
        exact .lineFeed h
      · exact .plain hquote hslash h

/-- A value that was escaped is unescaped again. -/
theorem escaped_flatMap (value : List Char) : Escaped (value.flatMap escapeLabelChar) value := by
  induction value with
  | nil => exact .nil
  | cons c value ih =>
      rw [List.flatMap_cons]
      exact escaped_escapeLabelChar ih c

theorem blank_nil : Blank [] := fun _ hc => absurd hc List.not_mem_nil

/-- A label that was printed is a pair. -/
theorem pair_labelText {label : String × String} (h : validLabelName label.1.toList = true) :
    Pair (label.1.toList, label.2.toList) (labelText label) :=
  .mk h blank_nil blank_nil (escaped_flatMap _)

/-- The labels, in order, with commas between them. -/
theorem labelList_intercalate {labels : List (String × String)}
    (h : ∀ label ∈ labels, validLabelName label.1.toList = true) :
    LabelList (labels.map fun label => (label.1.toList, label.2.toList))
      ([','].intercalate (labels.map labelText)) := by
  induction labels with
  | nil => exact .blank blank_nil
  | cons label labels ih =>
      have hlabel := pair_labelText (h label List.mem_cons_self)
      have hrest := ih fun other hother => h other (List.mem_cons_of_mem _ hother)
      cases labels with
      | nil =>
          have hlast := LabelList.last blank_nil hlabel blank_nil
          simpa [List.intercalate_singleton] using hlast
      | cons second labels =>
          have hmore := LabelList.more blank_nil hlabel blank_nil hrest
          simpa [List.intercalate_cons_cons] using hmore

/-- Its labels, put into an empty map, are its labels. -/
theorem addLabels_toList (labels : Labels) :
    addLabels ∅ (labels.toList.map fun label => (label.1.toList, label.2.toList)) = labels := by
  unfold addLabels
  rw [List.foldl_map]
  simp only [String.ofList_toList]
  exact Lib.insertAll_toList labels

/-- **A series is the text of its key.** -/
theorem seriesText_text {key : MetricKey} (hmetric : validMetricName key.metric.toList = true)
    (hlabels : ∀ label ∈ key.labels.toList, validLabelName label.1.toList = true) :
    SeriesText key (seriesText key) := by
  obtain ⟨metric, labels⟩ := key
  unfold seriesText
  split
  · rename_i hnone
    have hempty : labels = ∅ := ExtTreeMap.toList_eq_nil_iff.mp (List.isEmpty_iff.mp hnone)
    have hbare := SeriesText.bare hmetric
    rwa [String.ofList_toList, ← hempty] at hbare
  · have hdistinct : ((labels.toList.map fun label => (label.1.toList, label.2.toList)).map Prod.fst).Nodup := by
      rw [List.map_map]
      refine List.pairwise_map.mpr ((Lib.distinct_toList labels).imp ?_)
      intro a b hne heq
      exact hne (String.toList_injective heq)
    have hlabelled := Labelled.mk hmetric (labelList_intercalate hlabels) hdistinct
    rw [addLabels_toList, String.ofList_toList] at hlabelled
    exact .labelled hlabelled

/-! ## The lines are read back

Line feeds of a label value are escaped, so the only ones are between the lines. -/

/-- A line that keeps its end: no line feed, and no carriage return before one. -/
structure Unbroken (line : List Char) : Prop where
  lineFeed : '\n' ∉ line
  carriageReturn : ¬ ['\r'] <:+ line

theorem splitOn_flatMap {lines : List (List Char)} (h : ∀ line ∈ lines, '\n' ∉ line) :
    (lines.flatMap fun line => line ++ ['\n']).splitOn '\n' = lines ++ [[]] := by
  induction lines with
  | nil => rfl
  | cons line lines ih =>
      rw [List.flatMap_cons, List.append_assoc, List.singleton_append,
        List.splitOn_append_cons_self_of_not_mem (h line List.mem_cons_self),
        ih fun other hother => h other (List.mem_cons_of_mem _ hother)]
      rfl

/-- **`str::lines` reads lines back.** -/
theorem lines_flatMap {lines : List (List Char)} (h : ∀ line ∈ lines, Unbroken line) :
    Text.lines (lines.flatMap fun line => line ++ ['\n']) = lines := by
  have hstrip : ∀ line ∈ lines, (Text.stripEnd ['\r'] line).getD line = line := by
    intro line hline
    unfold Text.stripEnd
    rw [if_neg (mt List.isSuffixOf_iff_suffix.mp (h line hline).carriageReturn)]
    rfl
  unfold Text.lines
  rw [splitOn_flatMap fun line hline => (h line hline).lineFeed]
  simp only [List.dropLast_concat, List.getLast?_concat]
  rw [List.map_congr_left hstrip, List.map_id']
  exact List.append_nil _

theorem lineFeed_notMem_of_solid {text : List Char} (h : Solid text) : '\n' ∉ text :=
  fun hmem => absurd (h _ hmem) (by decide)

/-- What ends in something solid has no carriage return at its end. -/
theorem unbroken_append {init last : List Char} (hinit : '\n' ∉ init) (hsolid : Solid last) (hne : last ≠ []) :
    Unbroken (init ++ last) := by
  refine ⟨by simp [hinit, lineFeed_notMem_of_solid hsolid], ?_⟩
  rintro ⟨before, heq⟩
  have hlast : (before ++ ['\r']).getLast? = (init ++ last).getLast? := congrArg List.getLast? heq
  rw [List.getLast?_concat, List.getLast?_append_of_ne_nil _ hne] at hlast
  have hwhite := hsolid '\r' (List.mem_of_getLast? hlast.symm)
  exact absurd hwhite (by decide)

theorem lineFeed_notMem_escapeLabelChar (c : Char) : '\n' ∉ escapeLabelChar c := by
  unfold escapeLabelChar
  split
  · decide
  · split
    · decide
    · split
      · decide
      · rename_i hne
        simpa using Ne.symm hne

/-- A label name has no white space. -/
theorem solid_of_validLabelName {name : List Char} (h : validLabelName name = true) : Solid name := by
  intro c hc
  have hname := all_labelNameChar h c hc
  by_contra hwhite
  rw [labelNameChar_of_isWhitespace (by simpa using hwhite)] at hname
  cases hname

theorem lineFeed_notMem_labelText {label : String × String} (h : validLabelName label.1.toList = true) :
    '\n' ∉ labelText label := by
  have hname := lineFeed_notMem_of_solid (solid_of_validLabelName h)
  unfold labelText
  simp [hname, lineFeed_notMem_escapeLabelChar]

theorem lineFeed_notMem_intercalate {parts : List (List Char)} (h : ∀ part ∈ parts, '\n' ∉ part) :
    '\n' ∉ [','].intercalate parts := by
  induction parts with
  | nil => exact List.not_mem_nil
  | cons part parts ih =>
      have hpart := h part List.mem_cons_self
      have hrest := ih fun other hother => h other (List.mem_cons_of_mem _ hother)
      cases parts with
      | nil => simpa [List.intercalate_singleton] using hpart
      | cons second parts => simp [List.intercalate_cons_cons, hpart, hrest]

/-- The text of a series stays on its line. -/
theorem lineFeed_notMem_seriesText {key : MetricKey} (hmetric : validMetricName key.metric.toList = true)
    (hlabels : ∀ label ∈ key.labels.toList, validLabelName label.1.toList = true) : '\n' ∉ seriesText key := by
  have hname : '\n' ∉ key.metric.toList := lineFeed_notMem_of_solid fun c hc => (metricChar hmetric hc).2.2.2
  have hinside : '\n' ∉ [','].intercalate (key.labels.toList.map labelText) := by
    apply lineFeed_notMem_intercalate
    intro part hpart
    obtain ⟨label, hlabel, rfl⟩ := List.mem_map.mp hpart
    exact lineFeed_notMem_labelText (hlabels label hlabel)
  unfold seriesText
  split
  · exact hname
  · simp [hname, hinside]

/-! ## A family is read back

A family is read behind its `# TYPE` line, which tells counters and gauges apart for the names that follow. -/

section Families

variable {ν : Type} [F64 ν] {print : ν → List Char} {r : Reading ν} {f : Family ν}

omit [F64 ν] in
/-- The metrics of a family have valid names. -/
theorem Family.Owns.valid {metric : String} (h : f.Owns metric) (hname : validMetricName f.name = true) :
    validMetricName metric.toList = true := by
  have happend {suffix : List Char} (hsuffix : suffix ∈ histogramSuffixes) :
      validMetricName (f.name ++ suffix) = true := by
    have hall : suffix.all (fun c => Text.isAsciiAlphanumeric c || c == '_' || c == ':') = true := by
      revert suffix
      decide
    unfold validMetricName at hname ⊢
    cases hcs : f.name with
    | nil =>
        rw [hcs] at hname
        cases hname
    | cons c cs =>
        rw [hcs] at hname
        rw [validName, Bool.and_eq_true] at hname
        rw [List.cons_append, validName, List.all_append, hname.1, hname.2, hall]
        rfl
  unfold Family.Owns at h
  split at h
  · obtain ⟨suffix, hsuffix, rfl⟩ := h
    rw [String.toList_ofList]
    exact happend hsuffix
  · rw [h, String.toList_ofList]
    exact hname

omit [F64 ν] in
/-- **The declared type decides**, if no metric of a histogram is declared itself. -/
theorem isCounterLike_of_owns {types : ExtTreeMap String PrometheusType} {metric : String} (h : f.Owns metric)
    (htype : types[String.ofList f.name]? = some f.kind)
    (hnone : ∀ suffix ∈ histogramSuffixes, String.ofList (f.name ++ suffix) ∉ types) :
    isCounterLike metric.toList types = decide (f.kind ≠ .gauge) := by
  unfold Family.Owns at h
  split at h
  · rename_i hkind
    obtain ⟨suffix, hsuffix, rfl⟩ := h
    have hundeclared := ExtTreeMap.getElem?_eq_none (hnone suffix hsuffix)
    have hnamed : (["_total", "_bucket", "_count", "_sum"].any fun other =>
        other.toList.isSuffixOf (f.name ++ suffix)) = true := by
      rw [List.any_eq_true]
      have hall : ∀ suffix ∈ histogramSuffixes, String.ofList suffix ∈ ["_total", "_bucket", "_count", "_sum"] := by
        decide
      refine ⟨String.ofList suffix, hall suffix hsuffix, ?_⟩
      rw [String.toList_ofList]
      exact List.isSuffixOf_iff_suffix.mpr (List.suffix_append _ _)
    unfold isCounterLike
    rw [String.toList_ofList, hundeclared, hkind]
    simp only [hnamed, Bool.or_true]
    rfl
  · subst h
    unfold isCounterLike
    rw [String.toList_ofList, htype]
    cases f.kind <;> rfl

/-- A `# TYPE` line has two words behind the keyword. -/
theorem splitWhitespace_pair {name kind : List Char} (hname : Solid name) (hne : name ≠ []) (hkind : Solid kind)
    (hne' : kind ≠ []) : Text.splitWhitespace (name ++ ' ' :: kind) = [name, kind] := by
  unfold Text.splitWhitespace
  rw [List.splitOnP_append_cons_of_forall_mem hname _ (by decide), List.splitOnP_eq_singleton hkind]
  simp [hne, hne']

/-- The word for a type is read as the type. -/
theorem kind_text (kind : PrometheusType) :
    (if kind.text = "counter".toList then some PrometheusType.counter
      else if kind.text = "gauge".toList then some .gauge
      else if kind.text = "histogram".toList then some .histogram
      else none) = some kind := by
  cases kind <;> rfl

theorem solid_text (kind : PrometheusType) : Solid kind.text := by
  apply solid_of_all
  cases kind <;> rfl

omit [F64 ν] in
/-- A `# TYPE` line declares its type. -/
theorem declare_type {name : List Char} (hname : validMetricName name = true) (kind : PrometheusType)
    (hsize : r.types.size < maxExpositionSeries) :
    r.declare (name ++ ' ' :: kind.text) = { r with types := r.types.insert (String.ofList name) kind } := by
  have hsolid : Solid name := fun c hc => (metricChar hname hc).2.2.2
  have hne : name ≠ [] := by
    rintro rfl
    cases hname
  have hkind : kind.text ≠ [] := by cases kind <;> decide
  unfold Reading.declare
  rw [splitWhitespace_pair hsolid hne (solid_text kind) hkind]
  dsimp only
  rw [kind_text]
  dsimp only
  rw [if_pos hname, if_pos (.inl hsize)]

/-- The reader behind samples of one kind. -/
def Reading.samples (r : Reading ν) (kind : PrometheusType) (samples : List (MetricKey × ν)) : Reading ν :=
  { r with
    parsed :=
      if kind = .gauge then { r.parsed with gauges := Lib.insertAll r.parsed.gauges samples }
      else { r.parsed with counters := Lib.insertAll r.parsed.counters samples }
    series := r.series + samples.length }

/-- The reader behind a family. -/
def Reading.family (r : Reading ν) (f : Family ν) : Reading ν :=
  { r with types := r.types.insert (String.ofList f.name) f.kind }.samples f.kind f.samples

omit [F64 ν] in
theorem samples_nil (r : Reading ν) (kind : PrometheusType) : r.samples kind [] = r := by
  unfold Reading.samples
  split <;> rfl

omit [F64 ν] in
theorem samples_cons (r : Reading ν) (kind : PrometheusType) (sample : MetricKey × ν) (samples : List (MetricKey × ν))
    (h : isCounterLike sample.1.metric.toList r.types = decide (kind ≠ .gauge)) :
    r.samples kind (sample :: samples) = (r.sample sample.1 sample.2).samples kind samples := by
  unfold Reading.samples Reading.sample
  rw [h, List.length_cons, Nat.add_comm samples.length 1, ← Nat.add_assoc]
  cases kind <;> rfl

/-- **`Readable print sample`** — the value is printed as a token without a brace, and the line is not too long. -/
structure Readable (print : ν → List Char) (sample : MetricKey × ν) : Prop where
  token : Token (print sample.2) sample.2
  brace : '\x7d' ∉ print sample.2
  bytes : Text.byteLen (sampleText print sample) ≤ maxExpositionLineBytes

omit [F64 ν] in
/-- A series begins with its metric. -/
theorem exists_seriesText (key : MetricKey) : ∃ rest, seriesText key = key.metric.toList ++ rest := by
  unfold seriesText
  split
  · exact ⟨[], (List.append_nil _).symm⟩
  · exact ⟨_, rfl⟩

/-- **A sample is read back.** -/
theorem line_sampleText {sample : MetricKey × ν} (hmetric : validMetricName sample.1.metric.toList = true)
    (hlabels : ∀ label ∈ sample.1.labels.toList, validLabelName label.1.toList = true) (h : Readable print sample)
    (hseries : r.series < maxExpositionSeries) :
    r.line (sampleText print sample) = r.sample sample.1 sample.2 := by
  have hread : parseSample (sampleText print sample) = some (sample.1, sample.2) := by
    apply parseSample_of_series (seriesText_text hmetric hlabels) _ (List.cons_ne_nil _ _) h.token h.brace
    exact blank_of_all rfl
  have hhead : sampleText print sample ≠ [] ∧ (sampleText print sample).head? ≠ some '#' := by
    obtain ⟨rest, hrest⟩ := exists_seriesText sample.1
    unfold sampleText
    rw [hrest]
    cases hcs : sample.1.metric.toList with
    | nil =>
        rw [hcs] at hmetric
        cases hmetric
    | cons c cs =>
        rw [hcs] at hmetric
        refine ⟨List.cons_ne_nil _ _, fun heq => ?_⟩
        exact (metricChar hmetric List.mem_cons_self).2.2.1 (Option.some.inj heq)
  exact line_of_counted hhead ⟨h.bytes, hseries⟩ hread

/-- The samples of a family, one after the other. -/
theorem foldl_samples {samples : List (MetricKey × ν)} {kind : PrometheusType}
    (hvalid : ∀ sample ∈ samples, validMetricName sample.1.metric.toList = true)
    (hlabels : ∀ sample ∈ samples, ∀ label ∈ sample.1.labels.toList, validLabelName label.1.toList = true)
    (hread : ∀ sample ∈ samples, Readable print sample)
    (hkind : ∀ sample ∈ samples, isCounterLike sample.1.metric.toList r.types = decide (kind ≠ .gauge))
    (hseries : r.series + samples.length ≤ maxExpositionSeries) :
    (samples.map (sampleText print)).foldl Reading.line r = r.samples kind samples := by
  induction samples generalizing r with
  | nil => exact (samples_nil r kind).symm
  | cons sample samples ih =>
      rw [List.length_cons] at hseries
      have hfirst : r.line (sampleText print sample) = r.sample sample.1 sample.2 :=
        line_sampleText (hvalid _ List.mem_cons_self) (hlabels _ List.mem_cons_self) (hread _ List.mem_cons_self)
          (by omega)
      rw [List.map_cons, List.foldl_cons, hfirst, samples_cons r kind sample samples (hkind _ List.mem_cons_self)]
      apply ih
      · exact fun other hother => hvalid other (List.mem_cons_of_mem _ hother)
      · exact fun other hother => hlabels other (List.mem_cons_of_mem _ hother)
      · exact fun other hother => hread other (List.mem_cons_of_mem _ hother)
      · exact fun other hother => hkind other (List.mem_cons_of_mem _ hother)
      · rw [series_sample]
        omega

/-- **A family is read back.** -/
theorem foldl_family (hf : f.WellFormed) (hread : ∀ sample ∈ f.samples, Readable print sample)
    (hbytes : ∀ line ∈ f.lines print, Text.byteLen line ≤ maxExpositionLineBytes)
    (hnone : ∀ suffix ∈ histogramSuffixes, String.ofList (f.name ++ suffix) ∉ r.types)
    (hsize : r.types.size < maxExpositionSeries) (hseries : r.series + f.samples.length ≤ maxExpositionSeries) :
    (f.lines print).foldl Reading.line r = r.family f := by
  have htype : r.line ("# TYPE ".toList ++ (f.name ++ ' ' :: f.kind.text)) =
      { r with types := r.types.insert (String.ofList f.name) f.kind } := by
    rw [← declare_type hf.name f.kind hsize]
    unfold Reading.line
    rw [if_neg (not_lt.mpr (hbytes _ List.mem_cons_self)), if_neg (by simp),
      if_pos (List.isPrefixOf_iff_prefix.mpr (List.prefix_append _ _))]
    rfl
  -- the name itself is no metric of a histogram
  have hdeclared : ∀ suffix ∈ histogramSuffixes,
      String.ofList (f.name ++ suffix) ∉ r.types.insert (String.ofList f.name) f.kind := by
    intro suffix hsuffix hmem
    rcases ExtTreeMap.mem_insert.mp hmem with heq | hold
    · have hname : f.name = f.name ++ suffix := String.ofList_injective (Std.LawfulEqOrd.eq_of_compare heq)
      have hempty : suffix = [] := List.self_eq_append_right.mp hname
      rw [hempty] at hsuffix
      exact absurd hsuffix (by decide)
    · exact hnone suffix hsuffix hold
  unfold Family.lines Reading.family
  rw [List.foldl_cons, htype]
  apply foldl_samples
  · exact fun sample hsample => (hf.metric sample hsample).valid hf.name
  · exact hf.label
  · exact hread
  · exact fun sample hsample =>
      isCounterLike_of_owns (hf.metric sample hsample) ExtTreeMap.getElem?_insert_self hdeclared
  · exact hseries

/-! ## The exposition is read back

Families come one after the other, each with names of its own, so the types of the earlier ones are still there and
none of them is overwritten. -/

omit [F64 ν] in
theorem series_family (r : Reading ν) (f : Family ν) : (r.family f).series = r.series + f.samples.length := rfl

omit [F64 ν] in
theorem types_family (r : Reading ν) (f : Family ν) :
    (r.family f).types = r.types.insert (String.ofList f.name) f.kind := rfl

/-- The families, one after the other. -/
theorem foldl_families {families : List (Family ν)} (hf : ∀ f ∈ families, f.WellFormed)
    (hnames : ∀ f ∈ families, ∀ g ∈ families, ∀ suffix ∈ histogramSuffixes, f.name ≠ g.name ++ suffix)
    (hread : ∀ f ∈ families, ∀ sample ∈ f.samples, Readable print sample)
    (hbytes : ∀ f ∈ families, ∀ line ∈ f.lines print, Text.byteLen line ≤ maxExpositionLineBytes)
    (hnone : ∀ f ∈ families, ∀ suffix ∈ histogramSuffixes, String.ofList (f.name ++ suffix) ∉ r.types)
    (hsize : r.types.size + families.length ≤ maxExpositionSeries)
    (hseries : r.series + (families.flatMap Family.samples).length ≤ maxExpositionSeries) :
    (families.flatMap (Family.lines print)).foldl Reading.line r = families.foldl Reading.family r := by
  induction families generalizing r with
  | nil => rfl
  | cons f families ih =>
      rw [List.length_cons] at hsize
      rw [List.flatMap_cons, List.length_append] at hseries
      have hrest {g : Family ν} (hg : g ∈ families) : g ∈ f :: families := List.mem_cons_of_mem _ hg
      -- the lines of the first family are read as that family
      have hfirst : (f.lines print).foldl Reading.line r = r.family f :=
        foldl_family (hf f List.mem_cons_self) (hread f List.mem_cons_self) (hbytes f List.mem_cons_self)
          (hnone f List.mem_cons_self) (by omega) (by omega)
      rw [List.flatMap_cons, List.foldl_append, hfirst, List.foldl_cons]
      apply ih
      · exact fun g hg => hf g (hrest hg)
      · exact fun g hg g' hg' => hnames g (hrest hg) g' (hrest hg')
      · exact fun g hg => hread g (hrest hg)
      · exact fun g hg => hbytes g (hrest hg)
      -- a histogram of the first family does not take samples of the later ones
      · intro g hg suffix hsuffix hmem
        rcases ExtTreeMap.mem_insert.mp hmem with heq | hold
        · have hname : f.name = g.name ++ suffix := String.ofList_injective (Std.LawfulEqOrd.eq_of_compare heq)
          exact hnames f List.mem_cons_self g (hrest hg) suffix hsuffix hname
        · exact hnone g (hrest hg) suffix hsuffix hold
      · have hinsert := ExtTreeMap.size_insert_le (t := r.types) (k := String.ofList f.name) (v := f.kind)
        rw [types_family]
        omega
      · rw [series_family]
        omega

omit [F64 ν] in
/-- What the families leave: the samples of the gauges, and those of the others. -/
theorem parsed_foldl_family (families : List (Family ν)) (r : Reading ν) :
    (families.foldl Reading.family r).parsed =
      { counters := Lib.insertAll r.parsed.counters
          ((families.filter fun f => !decide (f.kind = .gauge)).flatMap Family.samples)
        gauges := Lib.insertAll r.parsed.gauges ((families.filter fun f => f.kind = .gauge).flatMap Family.samples)
        skippedLines := r.parsed.skippedLines } := by
  induction families generalizing r with
  | nil => rfl
  | cons f families ih =>
      rw [List.foldl_cons, ih]
      by_cases hkind : f.kind = .gauge
      · rw [List.filter_cons_of_neg (by simp [hkind]), List.filter_cons_of_pos (by simp [hkind]), List.flatMap_cons,
          Lib.insertAll_append]
        simp [Reading.family, Reading.samples, hkind]
      · rw [List.filter_cons_of_pos (by simp [hkind]), List.filter_cons_of_neg (by simp [hkind]), List.flatMap_cons,
          Lib.insertAll_append]
        simp [Reading.family, Reading.samples, hkind]

/-- The lines of a family keep their ends. -/
theorem unbroken_lines (hf : f.WellFormed) (hread : ∀ sample ∈ f.samples, Token (print sample.2) sample.2) :
    ∀ line ∈ f.lines print, Unbroken line := by
  intro line hline
  rcases List.mem_cons.mp hline with rfl | hsample
  · have hname : '\n' ∉ f.name := lineFeed_notMem_of_solid fun c hc => (metricChar hf.name hc).2.2.2
    have hkind : f.kind.text ≠ [] := by cases f.kind <;> decide
    have hinit : '\n' ∉ "# TYPE ".toList ++ (f.name ++ [' ']) := by simp [hname]
    have hunbroken := unbroken_append hinit (solid_text f.kind) hkind
    simpa using hunbroken
  · obtain ⟨sample, hmem, rfl⟩ := List.mem_map.mp hsample
    have hseries := lineFeed_notMem_seriesText ((hf.metric sample hmem).valid hf.name) (hf.label sample hmem)
    have htoken := hread sample hmem
    have hinit : '\n' ∉ seriesText sample.1 ++ [' '] := by simp [hseries]
    have hunbroken := unbroken_append hinit htoken.solid htoken.nonempty
    unfold sampleText
    rwa [List.append_assoc] at hunbroken

omit [F64 ν] in
/-- Each family has a sample, so there are no more families than samples. -/
theorem length_le_length_samples {families : List (Family ν)} (h : ∀ f ∈ families, f.samples ≠ []) :
    families.length ≤ (families.flatMap Family.samples).length := by
  induction families with
  | nil => exact le_refl _
  | cons f families ih =>
      have hfirst := List.length_pos_of_ne_nil (h f List.mem_cons_self)
      have hrest := ih fun g hg => h g (List.mem_cons_of_mem _ hg)
      rw [List.flatMap_cons, List.length_append, List.length_cons]
      omega

/-- **What is written is read back**: the counters and the gauges, and no line is skipped. -/
theorem exposition_round_trip {m : SeriesMap ν} {families : List (Family ν)}
    (hgroup : m.toList.Perm (families.flatMap Family.samples)) (hsize : m.size ≤ maxExpositionSeries)
    (hfamilies : ∀ f ∈ families, f.WellFormed)
    (hnames : ∀ f ∈ families, ∀ g ∈ families, ∀ suffix ∈ histogramSuffixes, f.name ≠ g.name ++ suffix)
    (hprint : ∀ e ∈ m.toList, Token (print e.2) e.2 ∧ '\x7d' ∉ print e.2)
    (hlines : ∀ f ∈ families, ∀ line ∈ f.lines print, Text.byteLen line ≤ maxExpositionLineBytes) :
    let parsed : ParsedSnapshot ν := parseExposition (render print families)
    (∀ key : MetricKey, parsed.counters[key]? = if key ∈ gaugeKeys families then none else m[key]?) ∧
      (∀ key : MetricKey, parsed.gauges[key]? = if key ∈ gaugeKeys families then m[key]? else none) ∧
      parsed.skippedLines = 0 := by
  have hsample {f : Family ν} (hf : f ∈ families) {sample : MetricKey × ν} (hs : sample ∈ f.samples) :
      Token (print sample.2) sample.2 ∧ '\x7d' ∉ print sample.2 :=
    hprint sample (hgroup.mem_iff.mpr (List.mem_flatMap.mpr ⟨f, hf, hs⟩))
  have hcount : (families.flatMap Family.samples).length ≤ maxExpositionSeries := by
    rw [← hgroup.length_eq, ExtTreeMap.length_toList]
    exact hsize
  have hunbroken : ∀ line ∈ families.flatMap (Family.lines print), Unbroken line := by
    intro line hline
    obtain ⟨f, hf, hmem⟩ := List.mem_flatMap.mp hline
    exact unbroken_lines (hfamilies f hf) (fun sample hs => (hsample hf hs).1) line hmem
  have hread : ∀ f ∈ families, ∀ sample ∈ f.samples, Readable print sample := by
    intro f hf sample hs
    have hline : sampleText print sample ∈ f.lines print := List.mem_cons_of_mem _ (List.mem_map.mpr ⟨sample, hs, rfl⟩)
    exact ⟨(hsample hf hs).1, (hsample hf hs).2, hlines f hf _ hline⟩
  have hrun : (families.flatMap (Family.lines print)).foldl Reading.line ({} : Reading ν) =
      families.foldl Reading.family {} := by
    apply foldl_families hfamilies hnames hread hlines
    · exact fun f hf suffix hsuffix => ExtTreeMap.not_mem_empty
    · have hle := length_le_length_samples fun f hf => (hfamilies f hf).nonempty
      show 0 + families.length ≤ _
      omega
    · show 0 + _ ≤ _
      omega
  -- the gauges first, then the others
  have hparts : m.toList.Perm ((families.filter fun f => f.kind = .gauge).flatMap Family.samples ++
      (families.filter fun f => !decide (f.kind = .gauge)).flatMap Family.samples) := by
    rw [← List.flatMap_append]
    exact hgroup.trans ((List.filter_append_perm _ families).symm.flatMap_right _)
  unfold parseExposition render gaugeKeys
  rw [lines_flatMap hunbroken, hrun, parsed_foldl_family]
  refine ⟨fun key => ?_, fun key => ?_, rfl⟩
  · exact (Lib.getElem?_insertAll_of_perm (hparts.trans List.perm_append_comm)).trans (Lib.mem_keys_of_perm hparts)
  · exact Lib.getElem?_insertAll_of_perm hparts

end Families

/-- A label with a quote, a brace, a backslash, a line feed and a comma in it. -/
def awkwardKey : MetricKey := ⟨"load", (∅ : Labels).insert "path" "a\"\x7d \\\n,b"⟩

/-- A gauge, a counter and a histogram. -/
def threeFamilies : List (Family ℚ) :=
  [⟨"load".toList, .gauge, [(awkwardKey, 5)]⟩, ⟨"jobs".toList, .counter, [(⟨"jobs", ∅⟩, 7)]⟩,
    ⟨"wait".toList, .histogram, [(⟨"wait_bucket", (∅ : Labels).insert "le" "1"⟩, 2), (⟨"wait_count", ∅⟩, 3)]⟩]

/-- Integers, printed. -/
def printNum (v : ℚ) : List Char := (toString v.num).toList

theorem wellFormed_threeFamilies : ∀ f ∈ threeFamilies, f.WellFormed := by
  have hname : ∀ f ∈ threeFamilies, validMetricName f.name = true ∧ f.samples ≠ [] := by decide
  have hlabel : ∀ f ∈ threeFamilies, ∀ sample ∈ f.samples, ∀ label ∈ sample.1.labels.toList,
      validLabelName label.1.toList = true := by decide +kernel
  have hmetric : ∀ f ∈ threeFamilies, ∀ sample ∈ f.samples, f.Owns sample.1.metric := by
    intro f hf
    simp only [threeFamilies, List.mem_cons, List.not_mem_nil, or_false] at hf
    unfold Family.Owns
    rcases hf with rfl | rfl | rfl
    · decide
    · decide
    · decide
  exact fun f hf => ⟨(hname f hf).1, (hname f hf).2, hmetric f hf, hlabel f hf⟩

theorem exposition_round_trip_threeFamilies :
    (parseExposition (render printNum threeFamilies) : ParsedSnapshot ℚ).gauges[awkwardKey]? = some 5 ∧
      (parseExposition (render printNum threeFamilies) : ParsedSnapshot ℚ).counters[
        (⟨"wait_count", ∅⟩ : MetricKey)]? = some 3 ∧
      (parseExposition (render printNum threeFamilies) : ParsedSnapshot ℚ).skippedLines = 0 := by
  let m : SeriesMap ℚ := Lib.insertAll ∅ (threeFamilies.flatMap Family.samples)
  have htoList : m.toList.Perm (threeFamilies.flatMap Family.samples) := by decide +kernel
  have hprint : ∀ e ∈ m.toList, Token (printNum e.2) e.2 ∧ '\x7d' ∉ printNum e.2 := by
    have htext : ∀ e ∈ m.toList, printNum e.2 ≠ [] ∧ (printNum e.2).all (fun c => !Text.isWhitespace c) = true ∧
        F64.parse (printNum e.2) = some e.2 ∧ '\x7d' ∉ printNum e.2 := by decide +kernel
    intro e he
    obtain ⟨hne, hsolid, hparse, hbrace⟩ := htext e he
    exact ⟨⟨hne, solid_of_all hsolid, hparse, rfl⟩, hbrace⟩
  have hround := exposition_round_trip htoList (by decide +kernel) wellFormed_threeFamilies (by decide) hprint
    (by decide +kernel)
  refine ⟨(hround.2.1 awkwardKey).trans ?_, (hround.1 ⟨"wait_count", ∅⟩).trans ?_, hround.2.2⟩
  · decide +kernel
  · decide +kernel

end Flock.History
