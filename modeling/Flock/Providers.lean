/-
# Flock.Providers — provider records, their keys, and the lanes those keys make.

The model of the record types of `providers.rs` and of the methods the router and the pool are built
from.  The process environment is a parameter `env` (what `std::env::var` answers, `none` for an
unset or non-Unicode variable).

`weight` is an `f64` in the source.  It comes from JSON, which has no infinity and no NaN, and is a
rational here.
-/
import Mathlib.Data.Rat.Defs
import Flock.Pool.Basic
import Flock.Text

namespace Flock

/-- `AuthScheme`. -/
inductive AuthScheme where
  | apiKey
  | none
  deriving DecidableEq, Repr

/-- One upstream key of a provider: a literal key, or the variable to read it from. -/
structure ProviderKey where
  key : String := ""
  keyEnv : String := ""
  owner : String := "default"
  enabled : Bool := true
  rpm : ℕ := 0
  deriving DecidableEq, Repr

/-- What `std::env::var` answers in this process. -/
abbrev Env := String → Option String

/-- `resolve_key_material`: the literal key, else the trimmed variable, never empty. -/
def resolveKeyMaterial (env : Env) (key : ProviderKey) : Option String :=
  if !Text.isEmpty key.key then some key.key
  else if !Text.isEmpty key.keyEnv then
    match env key.keyEnv with
    | some v => if !Text.isEmpty (Text.trim v) then some (Text.trim v) else none
    | none => none
  else none

/-- `Strategy`. -/
inductive Strategy where
  | hybrid
  | astRace
  | stickyAffinity
  | weightedElo
  | leastLatency
  | roundRobin
  | free
  | circuitChain
  deriving DecidableEq, Repr

/-- `RoutingCfg`, with the serde defaults. -/
structure RoutingCfg where
  strategy : Strategy := .hybrid
  maxParallel : ℕ := 8
  maxRetries : ℕ := 3
  stickyTtlSecs : ℕ := 3600
  fifoMax : ℕ := 512
  enableCoalescing : Bool := true
  probeIntervalSecs : ℕ := 30
  deriving DecidableEq, Repr

/-- `sticky_ttl`, in seconds. -/
def RoutingCfg.stickyTtl (r : RoutingCfg) : ℕ := max r.stickyTtlSecs 1

/-- One upstream provider. -/
structure ProviderDef where
  name : String := ""
  baseUrl : String := ""
  auth : AuthScheme := .apiKey
  keys : List ProviderKey := []
  noAuth : Bool := false
  freeTier : Bool := false
  models : List String := []
  /-- Requested model id to the id to send. -/
  modelMap : List (String × String) := []
  weight : ℚ := 1
  elo : ℤ := 1500
  defaultRpm : ℕ := 0
  displayName : String := ""
  enabled : Bool := true
  deriving DecidableEq

namespace ProviderDef

/-- `rpm_for`: the key's own budget, the provider's, or the 10/60 rule. -/
def rpmFor (d : ProviderDef) (k : ProviderKey) : ℕ :=
  if k.rpm > 0 then k.rpm
  else if d.defaultRpm > 0 then d.defaultRpm
  else if d.freeTier then 10
  else 60

/-- `usable`. -/
def usable (env : Env) (d : ProviderDef) : Bool :=
  if !d.enabled then false
  else if d.noAuth || d.auth == .none then true
  else d.keys.any fun k => k.enabled && (resolveKeyMaterial env k).isSome

/-- `map_model` / `rewrite_model`. -/
def rewriteModel (d : ProviderDef) (model : String) : String := (d.modelMap.lookup model).getD model

/-- `serves_model`. -/
def servesModel (d : ProviderDef) (model : String) : Bool :=
  d.models.any fun m => m == "*" || m == model

/-- The loop of `lane_specs`; `seen` are the materials that already have a lane. -/
def laneSpecsFrom (env : Env) (d : ProviderDef) (seen : List String) :
    List ProviderKey → List LaneSpec
  | [] => []
  | k :: rest =>
      match resolveKeyMaterial env k with
      | none => laneSpecsFrom env d seen rest
      | some material =>
          if Text.isEmpty material || seen.contains material then laneSpecsFrom env d seen rest
          else ⟨material, d.rpmFor k, k.enabled⟩ :: laneSpecsFrom env d (material :: seen) rest

/-- `lane_specs`: one lane per distinct key material, in the order of the records. -/
def laneSpecs (env : Env) (d : ProviderDef) : List LaneSpec := laneSpecsFrom env d [] d.keys

end ProviderDef

/-! ## The built-in registry -/

/-- The closure `p` of `default_providers`. -/
def seeded (name baseUrl keyEnv : String) (noAuth freeTier : Bool) (models : List String) (weight : ℚ)
    (elo : ℤ) : ProviderDef where
  name := name
  baseUrl := baseUrl
  auth := if noAuth then .none else .apiKey
  keys := if Text.isEmpty keyEnv then [] else [{ keyEnv := keyEnv }]
  noAuth := noAuth
  freeTier := freeTier
  models := models
  weight := weight
  elo := elo
  displayName := name

/-- `default_providers`. -/
def defaultProviders : List ProviderDef :=
  [seeded "llama-swap" "http://127.0.0.1:25100/v1" "" true false
     ["local-fast", "local-quality", "local-longctx"] 1 1600,
   seeded "openrouter" "https://openrouter.ai/api/v1" "OPENROUTER_API_KEY" false false
     ["openrouter/auto", "openrouter/optimus-alpha"] 1 1500,
   { seeded "nvidia" "https://integrate.api.nvidia.com/v1" "NVIDIA_API_KEY" false true
       ["nvidia/nemotron-3-ultra-550b-a55b", "nvidia/llama-3.1-nemotron-70b-instruct"] (12 / 10) 1550 with
     modelMap := [("free", "nvidia/nemotron-3-ultra-550b-a55b")] },
   seeded "groq" "https://api.groq.com/openai/v1" "GROQ_API_KEY" false true
     ["openai/gpt-oss-20b", "openai/gpt-oss-120b"] (15 / 10) 1580,
   seeded "together" "https://api.together.xyz/v1" "TOGETHER_API_KEY" false false
     ["together/llama-3.1-70b", "together/mixtral-8x22b"] 1 1520,
   seeded "cerebras" "https://api.cerebras.ai/v1" "CEREBRAS_API_KEY" false true
     ["gpt-oss-120b", "qwen-3.8-27b"] (13 / 10) 1560,
   seeded "fireworks" "https://api.fireworks.ai/inference/v1" "FIREWORKS_API_KEY" false false
     ["fireworks/llama-3.1-70b", "fireworks/mixtral-8x22b"] 1 1510,
   seeded "hyperbolic" "https://api.hyperbolic.xyz/v1" "HYPERBOLIC_API_KEY" false true
     ["hyperbolic/llama-3.1-70b"] 1 1490,
   seeded "github" "https://models.inference.ai.azure.com" "GITHUB_TOKEN" false true
     ["github/Phi-4", "github/gpt-4o-mini"] 1 1500,
   seeded "mistral" "https://api.mistral.ai/v1" "MISTRAL_API_KEY" false false
     ["mistral/mistral-large-2"] 1 1530,
   seeded "openai" "https://api.openai.com/v1" "OPENAI_API_KEY" false false
     ["gpt-4o", "gpt-4o-mini", "o1-preview"] 1 1650,
   seeded "perplexity" "https://api.perplexity.ai" "PERPLEXITY_API_KEY" false false
     ["perplexity/sonar"] 1 1480,
   seeded "siliconflow" "https://api.siliconflow.cn/v1" "SILICONFLOW_API_KEY" false true
     ["siliconflow/deepseek-v2"] 1 1470]

/-! ## What the lanes of a provider are -/

variable {env : Env}

theorem resolveKeyMaterial_ne_empty {k : ProviderKey} {m : String}
    (h : resolveKeyMaterial env k = some m) : m ≠ "" := by
  unfold resolveKeyMaterial at h
  split at h
  · rename_i hk
    cases h
    intro hm
    rw [(Text.isEmpty_iff k.key).mpr hm] at hk
    exact absurd hk (by decide)
  · split at h
    · split at h
      · split at h
        · rename_i v _ hv
          cases h
          intro hm
          rw [(Text.isEmpty_iff _).mpr hm] at hv
          exact absurd hv (by decide)
        · cases h
      · cases h
    · cases h

namespace ProviderDef

/-- No lane repeats a material, and none repeats one that was seen before the loop. -/
theorem laneSpecsFrom_nodup (d : ProviderDef) : ∀ (ks : List ProviderKey) (seen : List String),
    ((laneSpecsFrom env d seen ks).map (·.key)).Nodup ∧
    ∀ s ∈ laneSpecsFrom env d seen ks, s.key ∉ seen
  | [], seen => by simp [laneSpecsFrom]
  | k :: rest, seen => by
      unfold laneSpecsFrom
      split
      · exact laneSpecsFrom_nodup d rest seen
      · rename_i material _
        split
        · exact laneSpecsFrom_nodup d rest seen
        · rename_i hnew
          obtain ⟨hnodup, hfresh⟩ := laneSpecsFrom_nodup d rest (material :: seen)
          simp only [Bool.or_eq_true, List.contains_iff_mem, not_or] at hnew
          constructor
          · rw [List.map_cons, List.nodup_cons]
            refine ⟨?_, hnodup⟩
            rw [List.mem_map]
            rintro ⟨s, hs, hkey⟩
            exact hfresh s hs (by simp [hkey])
          · intro s hs
            rcases List.mem_cons.mp hs with rfl | hs
            · exact hnew.2
            · intro hmem
              exact hfresh s hs (List.mem_cons_of_mem _ hmem)

/-- Lanes have distinct keys. -/
theorem laneSpecs_nodup (d : ProviderDef) : ((d.laneSpecs env).map (·.key)).Nodup :=
  (laneSpecsFrom_nodup d d.keys []).1

/-- The record whose lane a material is: the first that resolves to it. -/
def recordOf (env : Env) (ks : List ProviderKey) (material : String) : Option ProviderKey :=
  ks.find? fun k => resolveKeyMaterial env k == some material

/-- **The lanes are the first records of each material**, but for those seen before the loop. -/
theorem mem_laneSpecsFrom (d : ProviderDef) {s : LaneSpec} :
    ∀ (ks : List ProviderKey) (seen : List String), s ∈ laneSpecsFrom env d seen ks ↔
      s.key ∉ seen ∧ ∃ k, recordOf env ks s.key = some k ∧ s.rpm = d.rpmFor k ∧
        s.enabled = k.enabled
  | [], seen => by simp [laneSpecsFrom, recordOf]
  | k :: rest, seen => by
      have ih := mem_laneSpecsFrom d (s := s) rest
      cases hres : resolveKeyMaterial env k with
      | none =>
          simp only [laneSpecsFrom, hres, ih]
          simp [recordOf, hres]
      | some material =>
          have hne : Text.isEmpty material = false := by
            rw [Bool.eq_false_iff]
            intro hempty
            exact resolveKeyMaterial_ne_empty hres ((Text.isEmpty_iff material).mp hempty)
          by_cases hseen : material ∈ seen
          · -- skipped: a record of a material that already has a lane
            simp only [laneSpecsFrom, hres, hne, Bool.false_or, List.contains_iff_mem.mpr hseen,
              if_true, ih]
            refine and_congr_right fun hs => ?_
            have hsk : material ≠ s.key := fun heq => hs (heq ▸ hseen)
            simp [recordOf, hres, hsk]
          · have hcont : seen.contains material = false := by
              simpa using hseen
            simp only [laneSpecsFrom, hres, hne, hcont, Bool.or_self, Bool.false_eq_true, if_false,
              List.mem_cons, ih]
            by_cases hsk : material = s.key
            · -- this record is the first of its material
              subst hsk
              constructor
              · rintro (hs | ⟨hs, -⟩)
                · exact ⟨hseen, k, by simp [recordOf, hres], by rw [hs], by rw [hs]⟩
                · exact absurd (Or.inl rfl) hs
              · rintro ⟨-, k', hk', hrpm, hen⟩
                simp only [recordOf, List.find?_cons, hres, beq_self_eq_true,
                  Option.some.injEq] at hk'
                subst hk'
                left
                cases s
                simp only at hrpm hen ⊢
                rw [hrpm, hen]
            · have hs : s ≠ ⟨material, d.rpmFor k, k.enabled⟩ := by
                rintro rfl
                exact hsk rfl
              have hsk' : s.key ≠ material := fun h => hsk h.symm
              simp [recordOf, hres, hsk, hs, hsk']

/-- The lanes of a provider, record by record. -/
theorem mem_laneSpecs (d : ProviderDef) {s : LaneSpec} : s ∈ d.laneSpecs env ↔
    ∃ k, recordOf env d.keys s.key = some k ∧ s.rpm = d.rpmFor k ∧ s.enabled = k.enabled := by
  rw [laneSpecs, mem_laneSpecsFrom]
  simp

/-! ## Usable, and able to grant -/

/-- A record that makes its material's lane: no record before it, enabled or not, resolves to the same. -/
def Leads (env : Env) (ks : List ProviderKey) (k : ProviderKey) : Prop :=
  ∃ material, resolveKeyMaterial env k = some material ∧ recordOf env ks material = some k

/-- **Enabled lanes are enabled first records.** -/
theorem len_pos_iff (d : ProviderDef) (now : ℤ) :
    0 < (Pool.new (d.laneSpecs env) now).len ↔ ∃ k ∈ d.keys, k.enabled = true ∧ Leads env d.keys k := by
  show 0 < ((d.laneSpecs env).filter (·.enabled)).length ↔ _
  rw [List.length_pos_iff_exists_mem]
  constructor
  · rintro ⟨s, hs⟩
    obtain ⟨hs, henabled⟩ := List.mem_filter.mp hs
    obtain ⟨k, hk, -, hen⟩ := (mem_laneSpecs d).mp hs
    have hm : resolveKeyMaterial env k = some s.key := by
      simpa using List.find?_some hk
    exact ⟨k, List.mem_of_find?_eq_some hk, by rw [← hen, henabled], s.key, hm, hk⟩
  · rintro ⟨k, -, henabled, material, -, hk⟩
    refine ⟨⟨material, d.rpmFor k, k.enabled⟩, List.mem_filter.mpr ⟨?_, henabled⟩⟩
    exact (mem_laneSpecs d).mpr ⟨k, hk, rfl, rfl⟩

/-- **A usable provider can grant exactly when** it is disabled (and so not usable), or one of its enabled
records makes the lane of its material, or it needs a key and no enabled record resolves to one (and so is not
usable either). -/
theorem usable_can_grant_iff (d : ProviderDef) (env : Env) (now : ℤ) :
    (d.usable env = true → 0 < (Pool.new (d.laneSpecs env) now).len) ↔
      d.enabled = false ∨ (∃ k ∈ d.keys, k.enabled = true ∧ Leads env d.keys k) ∨
      (d.noAuth = false ∧ d.auth = .apiKey ∧
        ∀ k ∈ d.keys, k.enabled = true → resolveKeyMaterial env k = none) := by
  rw [len_pos_iff]
  have hnot : d.usable env = false ↔ d.enabled = false ∨ (d.noAuth = false ∧ d.auth = .apiKey ∧
      ∀ k ∈ d.keys, k.enabled = true → resolveKeyMaterial env k = none) := by
    unfold usable
    cases d.enabled with
    | false => simp
    | true =>
        cases d.noAuth with
        | true => simp
        | false => cases d.auth <;> simp
  rw [← or_assoc, or_right_comm, ← hnot, ← Bool.not_eq_true, ← imp_iff_not_or]

/-- The seeded provider of local models has no key, and a key that is disabled hides an enabled one: both are
usable, and neither has a lane to grant. -/
theorem usable_without_lane :
    (∃ d ∈ defaultProviders, d.name = "llama-swap" ∧
      d.usable (fun _ => none) = true ∧ (Pool.new (d.laneSpecs fun _ => none) 0).len = 0) ∧
    (∃ d : ProviderDef, d.keys = [⟨"sk-1", "", "ops", false, 60⟩, ⟨"", "ACME_KEY", "ops", true, 60⟩] ∧
      d.usable (fun _ => some "sk-1") = true ∧ (Pool.new (d.laneSpecs fun _ => some "sk-1") 0).len = 0) :=
  ⟨⟨_, .head _, rfl, rfl, rfl⟩,
    ⟨{ name := "acme", keys := [⟨"sk-1", "", "ops", false, 60⟩, ⟨"", "ACME_KEY", "ops", true, 60⟩] }, rfl,
      by decide +kernel, by decide +kernel⟩⟩

end ProviderDef

end Flock
