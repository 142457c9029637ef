/-
# Flock.Governor.Gate — what a request asks of the governor, on the streaming and on the buffered path.

The streaming path gates by the labels of the request's metrics: the path reduced to the known endpoints, the
model reduced to a safe charset, cut at 64 characters, and folded into "other" once 256 labels have been seen.
The buffered path gates every request, under the model it sends upstream.  So the two agree on a request exactly
where its label is that model and its path is a generation endpoint, or where neither gates it.
-/
import Mathlib.Data.Finset.Card
import Flock.Config.Json
import Flock.Router.Select

namespace Flock

/-! ## Labels -/

/-- `MODEL_LABEL_CAP`. -/
def modelLabelCap : ℕ := 256

/-- The charset of `sanitize_label`. -/
def labelChar (c : Char) : Bool :=
  Text.isAsciiAlphanumeric c || c == '.' || c == '_' || c == '-' || c == '/' || c == ':'

/-- `sanitize_label`. -/
def sanitizeLabel (raw : String) : String :=
  let cleaned := (raw.toList.filter labelChar).take 64
  if cleaned.isEmpty then "none" else String.ofList cleaned

/-- `bounded_label`: the label, and the labels seen after it. -/
def boundedLabel (seen : Finset String) (s : String) (cap : ℕ) : String × Finset String :=
  if s ∈ seen then (s, seen)
  else if seen.card < cap then (s, insert s seen)
  else ("other", seen)

/-- `label_model`. -/
def labelModel (seen : Finset String) (raw : String) : String × Finset String :=
  boundedLabel seen (sanitizeLabel raw) modelLabelCap

/-- `label_path`. -/
def labelPath (path : String) : String :=
  if path ∈ ["/v1/chat/completions", "/v1/completions", "/v1/embeddings", "/v1/models", "/v1/rankings"] then
    path
  else "other"

/-! ## The two gates -/

/-- What the gates read of a request: its method and path, the model its body names, and the labels that were
seen before it. -/
structure ModelRequest where
  method : String
  path : String
  rawModel : String
  seen : Finset String

namespace ModelRequest

/-- `ctx.model`. -/
def modelLabel (r : ModelRequest) : String := (labelModel r.seen r.rawModel).1

/-- The model-catalog probe, which is answered from the cache before either path. -/
def catalogProbe (r : ModelRequest) : Bool := r.method == "GET" && r.path == "/v1/models"

/-- The paths that `acquire_model_permit` gates. -/
def generationPath (r : ModelRequest) : Bool :=
  labelPath r.path == "/v1/chat/completions" || labelPath r.path == "/v1/completions"

/-- The pin of a model, and the entry it is about; nothing where there is no model to scope by. -/
def modelGate (overrides : List (String × ℕ)) (model : String) : Option (String × Option ℕ) :=
  if model = "none" then none else some (model, overrides.lookup model)

/-- The gate of `acquire_model_permit`, from the published snapshot: the governor entry it polls and the pin it
polls with, or none where the request is not gated. -/
def streamingGate (cfg : Config) (r : ModelRequest) : Option (String × Option ℕ) :=
  if r.catalogProbe then none
  else if cfg.governor.enabled && r.generationPath then modelGate cfg.governor.overrides r.modelLabel
  else none

/-- The gate of `admit_model`, from the router's knobs; `gatedPath` is the flag the caller passes. -/
def admitGate (governorEnabled : Bool) (governorOverrides : List (String × ℕ)) (gatedPath : Bool)
    (model : String) : Option (String × Option ℕ) :=
  if governorEnabled && gatedPath then modelGate governorOverrides model else none

/-- The gate of a buffered request: `buffered` passes `gated_path: true`, whatever the path. -/
def bufferedGate (governorEnabled : Bool) (governorOverrides : List (String × ℕ)) (d : ProviderDef)
    (r : ModelRequest) : Option (String × Option ℕ) :=
  if r.catalogProbe then none
  else admitGate governorEnabled governorOverrides true (Router.upstreamModel d r.rawModel)

/-- The gate of one request under the settings of one store: as a stream, or not. -/
def gate (sc : StoredConfig) (d : ProviderDef) (stream : Bool) (r : ModelRequest) :
    Option (String × Option ℕ) :=
  if stream then r.streamingGate sc.runtime
  else r.bufferedGate sc.governor.enabled sc.governor.overrides d

/-! ## Where a label is the model itself -/

/-- A model id that `sanitize_label` leaves as it is. -/
def Plain (raw : String) : Prop :=
  raw.toList ≠ [] ∧ raw.toList.length ≤ 64 ∧ ∀ c ∈ raw.toList, labelChar c = true

/-- A label that is not folded into "other". -/
def Known (seen : Finset String) (label : String) : Prop := label ∈ seen ∨ seen.card < modelLabelCap

instance (seen : Finset String) (label : String) : Decidable (Known seen label) :=
  inferInstanceAs (Decidable (_ ∨ _))

theorem plain_of_decide {raw : String}
    (h : (decide (raw.toList ≠ []) && decide (raw.toList.length ≤ 64) && raw.toList.all labelChar) = true) :
    Plain raw := by
  simp only [Bool.and_eq_true, decide_eq_true_eq, List.all_eq_true] at h
  exact ⟨h.1.1, h.1.2, h.2⟩

theorem sanitizeLabel_eq_iff (raw : String) : sanitizeLabel raw = raw ↔ Plain raw := by
  unfold sanitizeLabel
  dsimp only
  constructor
  · intro h
    split at h
    · rw [← h]
      exact plain_of_decide (by decide)
    · rename_i hne
      have hlist : raw.toList = (raw.toList.filter labelChar).take 64 := by
        rw [← String.toList_ofList (l := (raw.toList.filter labelChar).take 64), h]
      refine ⟨?_, ?_, ?_⟩
      · intro hnil
        rw [← hlist, hnil] at hne
        exact hne rfl
      · rw [hlist, List.length_take]
        exact Nat.min_le_left ..
      · intro c hc
        rw [hlist] at hc
        exact (List.mem_filter.mp (List.mem_of_mem_take hc)).2
  · rintro ⟨hne, hlen, hchars⟩
    rw [List.filter_eq_self.mpr hchars, List.take_of_length_le hlen, if_neg (by simpa using hne)]
    exact String.ofList_toList

theorem modelLabel_eq (r : ModelRequest) :
    r.modelLabel =
      if Known r.seen (sanitizeLabel r.rawModel) then sanitizeLabel r.rawModel else "other" := by
  unfold modelLabel labelModel boundedLabel
  by_cases hseen : sanitizeLabel r.rawModel ∈ r.seen
  · have hknown : Known r.seen (sanitizeLabel r.rawModel) := .inl hseen
    rw [if_pos hseen, if_pos hknown]
  · rw [if_neg hseen]
    by_cases hroom : r.seen.card < modelLabelCap
    · have hknown : Known r.seen (sanitizeLabel r.rawModel) := .inr hroom
      rw [if_pos hroom, if_pos hknown]
    · have hnew : ¬ Known r.seen (sanitizeLabel r.rawModel) := not_or.mpr ⟨hseen, hroom⟩
      rw [if_neg hroom, if_neg hnew]

/-- **A label is the model that was asked for** where the model is plain and its label is not folded. -/
theorem modelLabel_eq_rawModel_iff (r : ModelRequest) :
    r.modelLabel = r.rawModel ↔ Plain r.rawModel ∧ (Known r.seen r.rawModel ∨ r.rawModel = "other") := by
  rw [modelLabel_eq]
  constructor
  · intro h
    split at h
    · rename_i hknown
      rw [h] at hknown
      exact ⟨(sanitizeLabel_eq_iff _).mp h, .inl hknown⟩
    · rw [← h]
      exact ⟨plain_of_decide (by decide), .inr rfl⟩
  · rintro ⟨hplain, hknown | hother⟩
    · rw [(sanitizeLabel_eq_iff _).mpr hplain, if_pos hknown]
    · rw [(sanitizeLabel_eq_iff _).mpr hplain, hother]
      split <;> rfl

/-- The label of a request is the model the buffered path sends for it. The directive "free" is sent as the first
model of the provider. -/
def LabelSent (d : ProviderDef) (r : ModelRequest) : Prop :=
  if r.rawModel = "free" then
    d.models.head?.getD "free" = if Known r.seen "free" then "free" else "other"
  else Plain r.rawModel ∧ (Known r.seen r.rawModel ∨ r.rawModel = "other")

variable {sc : StoredConfig} {d : ProviderDef} {r r₁ r₂ : ModelRequest}

/-- What is sent for a model without an entry in the model map. -/
theorem upstreamModel_eq (hmap : d.modelMap.lookup r.rawModel = none) :
    Router.upstreamModel d r.rawModel =
      if r.rawModel = "free" then d.models.head?.getD "free" else r.rawModel := by
  unfold Router.upstreamModel
  by_cases hfree : r.rawModel = "free"
  · rw [hfree] at hmap
    simp [hfree, hmap]
  · simp [hfree, ProviderDef.rewriteModel, hmap]

theorem modelLabel_eq_upstreamModel_iff (hmap : d.modelMap.lookup r.rawModel = none) :
    r.modelLabel = Router.upstreamModel d r.rawModel ↔ LabelSent d r := by
  rw [upstreamModel_eq hmap]
  unfold LabelSent
  split
  · rename_i hfree
    have hsanitize : sanitizeLabel "free" = "free" :=
      (sanitizeLabel_eq_iff "free").mpr (plain_of_decide (by decide))
    rw [modelLabel_eq, hfree, hsanitize, eq_comm]
  · exact modelLabel_eq_rawModel_iff r

theorem modelGate_inj {overrides : List (String × ℕ)} {m m' : String} :
    modelGate overrides m = modelGate overrides m' ↔ m = m' := by
  constructor
  · intro h
    unfold modelGate at h
    split at h <;> split at h
    · rename_i hm hm'
      rw [hm, hm']
    · cases h
    · cases h
    · injection h with h
      exact congrArg Prod.fst h
  · rintro rfl
    rfl

/-! ## Where the two paths agree -/

/-- **Where the two gates of a request agree**: the probe, a governor that is off, a generation endpoint with the
label that is sent, or any other path with nothing to scope by. -/
def Aligned (sc : StoredConfig) (d : ProviderDef) (r : ModelRequest) : Prop :=
  r.catalogProbe = true ∨ sc.governor.enabled = false ∨
    if r.generationPath = true then LabelSent d r else Router.upstreamModel d r.rawModel = "none"

theorem gate_eq_iff (hmap : d.modelMap.lookup r.rawModel = none) :
    r.gate sc d true = r.gate sc d false ↔ Aligned sc d r := by
  show r.streamingGate sc.runtime = r.bufferedGate sc.governor.enabled sc.governor.overrides d ↔ _
  have hcfg : sc.runtime.governor = sc.governor := rfl
  unfold streamingGate bufferedGate admitGate Aligned
  rw [hcfg]
  cases r.catalogProbe with
  | true => simp
  | false =>
      cases sc.governor.enabled with
      | false => simp
      | true =>
          cases r.generationPath with
          | true =>
              -- the stream is gated by its label, the buffered request by what is sent
              simp only [Bool.false_eq_true, Bool.and_self, if_true, if_false, false_or, reduceCtorEq]
              rw [modelGate_inj, modelLabel_eq_upstreamModel_iff hmap]
          | false =>
              -- the stream is not gated at all
              simp only [Bool.false_eq_true, Bool.and_self, Bool.and_false, if_true, if_false, false_or,
                reduceCtorEq]
              unfold modelGate
              split <;> simp_all

/-- The request is gated on the buffered path. -/
def Gated (sc : StoredConfig) (d : ProviderDef) (r : ModelRequest) : Prop :=
  r.catalogProbe = false ∧ sc.governor.enabled = true ∧ Router.upstreamModel d r.rawModel ≠ "none"

theorem bufferedGate_eq_some {e : String × Option ℕ} :
    r.gate sc d false = some e ↔
      Gated sc d r ∧ (Router.upstreamModel d r.rawModel,
        sc.governor.overrides.lookup (Router.upstreamModel d r.rawModel)) = e := by
  show r.bufferedGate sc.governor.enabled sc.governor.overrides d = some e ↔ _
  unfold bufferedGate admitGate modelGate Gated
  cases r.catalogProbe with
  | true => simp
  | false =>
      cases sc.governor.enabled with
      | false => simp
      | true => simp

/-- The first request is the directive "free", and the second names the model that is sent for it. -/
def StandsFor (d : ProviderDef) (r₁ r₂ : ModelRequest) : Prop :=
  r₁.rawModel = "free" ∧ r₂.rawModel ≠ "free" ∧ d.models.head? = some r₂.rawModel

/-- Two models are sent as one only where one of them is the directive. -/
theorem upstreamModel_eq_iff (h₁ : d.modelMap.lookup r₁.rawModel = none)
    (h₂ : d.modelMap.lookup r₂.rawModel = none) (hne : r₁.rawModel ≠ r₂.rawModel) :
    Router.upstreamModel d r₁.rawModel = Router.upstreamModel d r₂.rawModel ↔
      StandsFor d r₁ r₂ ∨ StandsFor d r₂ r₁ := by
  have hhead : ∀ {m : String}, m ≠ "free" → (d.models.head?.getD "free" = m ↔ d.models.head? = some m) := by
    intro m hm
    cases d.models.head? with
    | none => simpa using Ne.symm hm
    | some first => simp
  rw [upstreamModel_eq h₁, upstreamModel_eq h₂]
  unfold StandsFor
  by_cases hf₁ : r₁.rawModel = "free"
  · have hf₂ : r₂.rawModel ≠ "free" := fun h => hne (hf₁.trans h.symm)
    simp [hf₁, hf₂, hhead hf₂]
  · by_cases hf₂ : r₂.rawModel = "free"
    · simp only [hf₁, hf₂, if_true, if_false, eq_comm (a := r₁.rawModel)]
      simp [hf₁, hhead hf₁]
    · simp [hf₁, hf₂, hne]

/-- **Exactly where streams and buffered requests get one governor decision.**  For any two requests, under any
settings and after any labels: each is gated alike on both paths, under one entry and one pin, and different
models have different entries, if and only if the gates of each agree (`Aligned`) and neither is the directive
that stands for the other. -/
theorem one_decision_iff (sc : StoredConfig) (d : ProviderDef) (r₁ r₂ : ModelRequest)
    (h₁ : d.modelMap.lookup r₁.rawModel = none) (h₂ : d.modelMap.lookup r₂.rawModel = none) :
    (r₁.gate sc d true = r₁.gate sc d false ∧ r₂.gate sc d true = r₂.gate sc d false ∧
      (r₁.rawModel ≠ r₂.rawModel → ∀ stream₁ stream₂ e₁ e₂, r₁.gate sc d stream₁ = some e₁ →
        r₂.gate sc d stream₂ = some e₂ → e₁.1 ≠ e₂.1)) ↔
    Aligned sc d r₁ ∧ Aligned sc d r₂ ∧
      (Gated sc d r₁ → Gated sc d r₂ → ¬ StandsFor d r₁ r₂ ∧ ¬ StandsFor d r₂ r₁) := by
  rw [gate_eq_iff h₁, gate_eq_iff h₂]
  refine and_congr_right fun ha₁ => and_congr_right fun ha₂ => ?_
  -- an aligned request gets one entry, streamed or buffered
  have hgate : ∀ {r : ModelRequest}, d.modelMap.lookup r.rawModel = none → Aligned sc d r →
      ∀ stream, r.gate sc d stream = r.gate sc d false := by
    intro r hmap ha stream
    cases stream with
    | true => exact (gate_eq_iff hmap).mpr ha
    | false => rfl
  -- two entries are one exactly if a name stands for the other; so distinct names need distinct entries
  constructor
  · intro h hg₁ hg₂
    have hdiffer : r₁.rawModel ≠ r₂.rawModel → ¬ (StandsFor d r₁ r₂ ∨ StandsFor d r₂ r₁) := by
      intro hne hstands
      have hent := h hne false false _ _ (bufferedGate_eq_some.mpr ⟨hg₁, rfl⟩)
        (bufferedGate_eq_some.mpr ⟨hg₂, rfl⟩)
      exact hent ((upstreamModel_eq_iff h₁ h₂ hne).mpr hstands)
    constructor
    · intro hstands
      exact hdiffer (fun heq => hstands.2.1 (heq ▸ hstands.1)) (.inl hstands)
    · intro hstands
      exact hdiffer (fun heq => hstands.2.1 (heq ▸ hstands.1)) (.inr hstands)
  · intro h hne stream₁ stream₂ e₁ e₂ he₁ he₂
    rw [hgate h₁ ha₁] at he₁
    rw [hgate h₂ ha₂] at he₂
    obtain ⟨hg₁, rfl⟩ := bufferedGate_eq_some.mp he₁
    obtain ⟨hg₂, rfl⟩ := bufferedGate_eq_some.mp he₂
    obtain ⟨hn₁, hn₂⟩ := h hg₁ hg₂
    intro heq
    rcases (upstreamModel_eq_iff h₁ h₂ hne).mp heq with hs | hs
    · exact hn₁ hs
    · exact hn₂ hs

/-- The NVIDIA record of a migrated store. -/
def nvidiaRecord : ProviderDef := { name := "nvidia", models := ["*"] }

/-- A request that names a model, before any other. -/
def asking (path rawModel : String) : ModelRequest := ⟨"POST", path, rawModel, ∅⟩

/-- Two plain models on a generation endpoint. -/
theorem one_decision_plain :
    (asking "/v1/chat/completions" "meta/llama-3").gate .small nvidiaRecord true =
        (asking "/v1/chat/completions" "meta/llama-3").gate .small nvidiaRecord false ∧
      (asking "/v1/chat/completions" "meta/llama-3").gate .small nvidiaRecord true =
        some ("meta/llama-3", none) := by
  have haligned : ∀ m, Plain m → m ≠ "free" →
      Aligned .small nvidiaRecord (asking "/v1/chat/completions" m) := by
    intro m hplain hfree
    have hpath : (asking "/v1/chat/completions" m).generationPath = true := rfl
    have hlabel : LabelSent nvidiaRecord (asking "/v1/chat/completions" m) := by
      show if m = "free" then _ else Plain m ∧ (Known ∅ m ∨ m = "other")
      rw [if_neg hfree]
      exact ⟨hplain, .inl (.inr (by decide))⟩
    exact .inr (.inr (by rwa [if_pos hpath]))
  have h := (one_decision_iff .small nvidiaRecord (asking "/v1/chat/completions" "meta/llama-3")
    (asking "/v1/chat/completions" "z-ai/glm") rfl rfl).mpr
    ⟨haligned _ (plain_of_decide (by decide)) (by decide),
      haligned _ (plain_of_decide (by decide)) (by decide),
      fun _ _ => ⟨fun hstands => absurd hstands.1 (by decide), fun hstands => absurd hstands.1 (by decide)⟩⟩
  exact ⟨h.1, by decide⟩

/-- An embedding request is gated only when it is not a stream; a model id with a space has two entries, one of
which is another model's, and the pin of an operator holds for one of them only. -/
theorem streams_gated_differently :
    (asking "/v1/embeddings" "bge-m3").gate .small nvidiaRecord true = none ∧
    (asking "/v1/embeddings" "bge-m3").gate .small nvidiaRecord false = some ("bge-m3", none) ∧
    (asking "/v1/completions" "my llama").gate
        { StoredConfig.small with governor := ⟨true, [("my llama", 4)]⟩ } nvidiaRecord true =
      some ("myllama", none) ∧
    (asking "/v1/completions" "my llama").gate
        { StoredConfig.small with governor := ⟨true, [("my llama", 4)]⟩ } nvidiaRecord false =
      some ("my llama", some 4) ∧
    (asking "/v1/completions" "myllama").gate
        { StoredConfig.small with governor := ⟨true, [("my llama", 4)]⟩ } nvidiaRecord true =
      some ("myllama", none) := by
  decide +kernel

end ModelRequest

end Flock
