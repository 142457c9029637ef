/-
# Flock.App.Floor — when the serving pool has a lane.

`validate` keeps a floor under the pool: in a claimed store the superuser owns an enabled NVIDIA key
record.  The pool is built from something else: from the records whose material resolves in this
process's environment, one lane for the FIRST record of each material, and only while the NVIDIA
runtime exists.  The serving path divides by the number of lanes (`affinity`), so what decides
whether a request can be hashed is the exact condition here, not the floor.
-/
import Flock.App.Handles

namespace Flock

open Lib (System)

namespace AppState

variable {env : Env}

/-- An enabled record with a lane of its own: it resolves, and it is the first that resolves to its
material. -/
def HasLane (env : Env) (d : ProviderDef) : Prop :=
  ∃ k ∈ d.keys, k.enabled = true ∧ ∃ material, resolveKeyMaterial env k = some material ∧
    ProviderDef.recordOf env d.keys material = some k

/-- The store's NVIDIA record has such a record. -/
def FloorMet (env : Env) (sc : StoredConfig) : Prop := ∃ d, sc.nvidia = some d ∧ HasLane env d

theorem enabledLanes_pos_iff (d : ProviderDef) : 1 ≤ enabledLanes env d ↔ HasLane env d := by
  unfold enabledLanes
  rw [Nat.one_le_iff_ne_zero, ← Nat.pos_iff_ne_zero, List.length_pos_iff_exists_mem]
  constructor
  · rintro ⟨spec, hspec⟩
    obtain ⟨hmem, hen⟩ := List.mem_filter.mp hspec
    obtain ⟨k, hrec, -, hk⟩ := d.mem_laneSpecs.mp hmem
    refine ⟨k, List.mem_of_find?_eq_some hrec, hk ▸ hen, spec.key, ?_, hrec⟩
    simpa using List.find?_some hrec
  · rintro ⟨k, -, hen, material, -, hrec⟩
    refine ⟨⟨material, d.rpmFor k, k.enabled⟩, List.mem_filter.mpr ⟨?_, hen⟩⟩
    exact d.mem_laneSpecs.mpr ⟨k, hrec, rfl, rfl⟩

/-- What the request path needs of the serving pool: a lane, and with it a lane for every conversation
to stick to. -/
def Servable {ν : Type} (hash : List String → UInt64) (render : Json ν → String) (s : AppState) :
    Prop :=
  1 ≤ s.poolNow.len ∧
    ∀ body : Json ν, ((body.get "messages").bind Json.asArray).isSome = true →
      ∃ lane, affinity hash render body s.poolNow.len = .ok (some lane)

/-- **When the serving pool has a lane.** In every run of commits and traffic from a validated store:
the serving pool has an enabled lane, and no body with a messages array divides by zero, if and only
if NVIDIA was enabled in the store at boot and in every store committed since, and the current
store's NVIDIA record has an enabled key record that resolves in this environment and is the first to
resolve to its material. -/
theorem serving_pool_floor_iff {ν : Type} (hash : List String → UInt64) (render : Json ν → String)
    (env : Env) (stored : StoredConfig) (rt : Restored) (nowUnix : ℕ) (t : ℤ)
    (hvalid : (validate stored).isOk = true) (es : List AppEvent) (s : AppState)
    (hrun : (appSystem env).Run (boot env stored rt nowUnix t) es s) :
    Servable hash render s ↔
      AlwaysEnabled (stored :: committedStores es) ∧ FloorMet env s.store := by
  have htied : Tied env (stored :: committedStores es) s :=
    Tied.run hrun (tied_boot hvalid rt nowUnix t)
  have hservable : Servable hash render s ↔ 1 ≤ s.poolNow.len := by
    rw [Servable, affinity_ok_iff, and_self]
  rw [hservable]
  by_cases hall : AlwaysEnabled (stored :: committedStores es)
  · obtain ⟨a, ha⟩ := htied.attached hall
    obtain ⟨d, hd, -, hlanes⟩ := ha.lanes
    rw [Pool.len, hlanes, enabledLanes_pos_iff]
    constructor
    · exact fun h => ⟨hall, d, hd, h⟩
    · rintro ⟨-, d', hd', h⟩
      rwa [Option.some.inj (hd.symm.trans hd')]
  · have hempty := (htied.detached hall).empty
    rw [Pool.len, hempty]
    constructor
    · intro h
      cases h
    · exact fun h => absurd h.1 hall

/-- A claimed store whose superuser owns one enabled record, read from the environment. -/
def envKeyStore : StoredConfig where
  providers := [{ name := "nvidia", baseUrl := "https://integrate.api.nvidia.com",
                  keys := [{ keyEnv := "NVIDIA_API_KEY", owner := "root" }], models := ["*"] }]
  users := [{ username := "root", passwordHash := "$argon2id$", role := .superuser }]

/-- **The floor passes and the pool is empty.** With the variable unset, the store is claimed and
valid, the serving pool has no lane, and a request with a messages array divides by zero. -/
theorem unset_key_env_divides_by_zero :
    (validate envKeyStore).isOk = true ∧ envKeyStore.superuser.isSome = true ∧
      (boot (fun _ => none) envKeyStore {} 0 0).poolNow.len = 0 ∧
      affinity (ν := ℕ) (fun _ => 7) (fun _ => "") (.obj [("messages", .arr [])])
        (boot (fun _ => none) envKeyStore {} 0 0).poolNow.len = .error .remainderByZero := by
  have hlen : (boot (fun _ => none) envKeyStore {} 0 0).poolNow.len = 0 := by decide +kernel
  refine ⟨by decide +kernel, by decide, hlen, ?_⟩
  rw [hlen]
  rfl

/-- With a literal key the pool has its lane, and every conversation sticks to it. -/
theorem serving_pool_floor_literal_key :
    Servable (ν := ℕ) (fun _ => 7) (fun _ => "") (boot (fun _ => none) (claimedStore true) {} 0 0) := by
  refine (serving_pool_floor_iff _ _ (fun _ => none) (claimedStore true) {} 0 0 (by decide +kernel)
    [] _ (.nil _)).mpr ⟨by decide +kernel, _, rfl, ?_⟩
  exact ⟨_, List.mem_singleton.mpr rfl, rfl, "nvapi-k", by decide +kernel, by decide +kernel⟩

end AppState

end Flock
