/-
# Flock.Config.Json — what a store looks like in `config.json`.

The derived `Serialize` of the record types, field by field in the order of the structs, and the text
`to_vec_pretty` makes of it.  The laws of saving and loading are about any `StoreSerde`; here is one to
instantiate them with, `StoreSerde.of`, which prints every store as the source does and reads the text of one.
A float is printed as a decimal with a point.
-/
import Mathlib.Algebra.Order.Ring.Rat
import Flock.Json
import Flock.Config.File

namespace Flock

/-- A JSON number as it is printed: an integer, or a float. -/
inductive JsonNumber where
  | int (n : ℤ)
  | float (q : ℚ)
  deriving DecidableEq

/-- A value with the numbers of the store. -/
abbrev StoreJson := Json JsonNumber

namespace StoreJson

/-- A finite decimal, `99.9` or `1.0`; a quotient where there is none. -/
def decimal (q : ℚ) : String :=
  match (List.range 18).find? fun k => (10 ^ k * q).den = 1 with
  | some 0 => toString q.num ++ ".0"
  | some k =>
      let digits := toString ((10 ^ k * q).num % 10 ^ k)
      toString ((10 ^ k * q).num / 10 ^ k) ++ "." ++
        String.ofList (List.replicate (k - Text.len digits) '0') ++ digits
  | none => toString q.num ++ "/" ++ toString q.den

/-- How a number is printed. -/
def number : JsonNumber → String
  | .int n => toString n
  | .float q => decimal q

def nat (n : ℕ) : StoreJson := .num (.int n)
def list {α : Type} (f : α → StoreJson) (xs : List α) : StoreJson := .arr (xs.map f)
def map {α : Type} (f : α → StoreJson) (xs : List (String × α)) : StoreJson :=
  .obj (xs.map fun x => (x.1, f x.2))

end StoreJson

open StoreJson

/-! ## The record types -/

/-- `AuthScheme`, in snake case. -/
def AuthScheme.toJson : AuthScheme → StoreJson
  | .apiKey => .str "api_key"
  | .none => .str "none"

/-- `Strategy`, in snake case. -/
def Strategy.toJson : Strategy → StoreJson
  | .hybrid => .str "hybrid"
  | .astRace => .str "ast_race"
  | .stickyAffinity => .str "sticky_affinity"
  | .weightedElo => .str "weighted_elo"
  | .leastLatency => .str "least_latency"
  | .roundRobin => .str "round_robin"
  | .free => .str "free"
  | .circuitChain => .str "circuit_chain"

/-- `Role`, in lower case. -/
def Role.toJson : Role → StoreJson
  | .superuser => .str "superuser"
  | .admin => .str "admin"
  | .user => .str "user"

/-- `Mode`, in lower case. -/
def Mode.toJson : Mode → StoreJson
  | .open => .str "open"
  | .keyed => .str "keyed"

def NimKey.toJson (k : NimKey) : StoreJson :=
  .obj [("key", .str k.key), ("owner", .str k.owner), ("enabled", .bool k.enabled), ("rpm", nat k.rpm)]

def Upstream.toJson (u : Upstream) : StoreJson :=
  .obj [("base_url", .str u.baseUrl), ("nim_keys", list NimKey.toJson u.nimKeys)]

def ProviderKey.toJson (k : ProviderKey) : StoreJson :=
  .obj [("key", .str k.key), ("key_env", .str k.keyEnv), ("owner", .str k.owner),
    ("enabled", .bool k.enabled), ("rpm", nat k.rpm)]

def ProviderDef.toJson (p : ProviderDef) : StoreJson :=
  .obj [("name", .str p.name), ("base_url", .str p.baseUrl), ("auth", p.auth.toJson),
    ("keys", list ProviderKey.toJson p.keys), ("no_auth", .bool p.noAuth), ("free_tier", .bool p.freeTier),
    ("models", list .str p.models), ("model_map", map .str p.modelMap), ("weight", .num (.float p.weight)),
    ("elo", .num (.int p.elo)), ("default_rpm", nat p.defaultRpm), ("display_name", .str p.displayName),
    ("enabled", .bool p.enabled)]

def RoutingCfg.toJson (r : RoutingCfg) : StoreJson :=
  .obj [("strategy", r.strategy.toJson), ("max_parallel", nat r.maxParallel), ("max_retries", nat r.maxRetries),
    ("sticky_ttl_secs", nat r.stickyTtlSecs), ("fifo_max", nat r.fifoMax),
    ("enable_coalescing", .bool r.enableCoalescing), ("probe_interval_secs", nat r.probeIntervalSecs)]

def ClientKey.toJson (c : ClientKey) : StoreJson :=
  .obj [("name", .str c.name), ("secret_sha256", .str c.secretSha256), ("last4", .str c.last4),
    ("owner", .str c.owner)]

def Limits.toJson (l : Limits) : StoreJson :=
  .obj [("heartbeat_secs", nat l.heartbeatSecs), ("max_inflight", nat l.maxInflight),
    ("max_wait_secs", nat l.maxWaitSecs), ("models_ttl_secs", nat l.modelsTtlSecs),
    ("request_timeout_secs", nat l.requestTimeoutSecs), ("stream_idle_secs", nat l.streamIdleSecs),
    ("strict_passthrough", .bool l.strictPassthrough)]

def DashboardCfg.toJson (d : DashboardCfg) : StoreJson :=
  .obj [("default_window_days", nat d.defaultWindowDays),
    ("slo_target_percent", .num (.float d.sloTargetPercent))]

def GovernorCfg.toJson (g : GovernorCfg) : StoreJson :=
  .obj [("enabled", .bool g.enabled), ("overrides", map nat g.overrides)]

/-- `User`; a locale that is not set is not written. -/
def User.toJson (u : User) : StoreJson :=
  .obj ([("username", .str u.username), ("password_hash", .str u.passwordHash), ("role", u.role.toJson)] ++
    u.locale.toList.map fun locale => ("locale", .str locale))

/-- `StoredConfig`. -/
def StoredConfig.toJson (sc : StoredConfig) : StoreJson :=
  .obj [("version", nat sc.version), ("default_locale", .str sc.defaultLocale),
    ("upstream", sc.upstream.toJson), ("providers", list ProviderDef.toJson sc.providers),
    ("routing", sc.routing.toJson),
    ("client_auth", .obj [("mode", sc.mode.toJson), ("keys", list ClientKey.toJson sc.clientKeys)]),
    ("limits", sc.limits.toJson), ("history", .obj [("days", nat sc.historyDays)]),
    ("dashboard", sc.dashboard.toJson), ("governor", sc.governor.toJson),
    ("users", list User.toJson sc.users)]

/-- The text of a store. -/
def StoredConfig.text (sc : StoredConfig) : String := sc.toJson.pretty number 0

/-! ## A serializer -/

/-- Prints every store, and reads the text of one. -/
def StoreSerde.of (sc : StoredConfig) : StoreSerde where
  toVecPretty := StoredConfig.text
  fromStr raw := if raw = sc.text then .ok sc else .error "expected value at line 1 column 1"

theorem StoreSerde.of_faithfulAt (sc : StoredConfig) : (StoreSerde.of sc).FaithfulAt sc := if_pos rfl

/-- A loader of the text of one store. -/
def Loader.of (sc : StoredConfig) : Loader := ⟨.of sc, Json.quote, "/data/config.json"⟩

/-- A process that finds the text of a current, valid, seeded store starts with it. -/
theorem Loader.start_of {sc : StoredConfig} (hseeded : sc.providers ≠ [])
    (hvalid : (validate sc).isOk = true) :
    (Loader.of sc).start ⟨some sc.text, none⟩ (.ok ()) = .ok sc := by
  have hload : (Loader.of sc).load ⟨some sc.text, none⟩ (.ok ()) = .ok (some sc) :=
    Loader.load_printed (StoreSerde.of_faithfulAt sc) rfl hseeded hvalid
  unfold start
  rw [hload]
  rfl

/-- The store of a small claimed proxy: one NVIDIA key, the superuser's, and a plain user. -/
def StoredConfig.small : StoredConfig where
  providers := [{ name := "nvidia", baseUrl := "https://integrate.api.nvidia.com", models := ["*"],
                  keys := [⟨"nvapi-1", "", "ops", true, 40⟩] }]
  users := [⟨"ops", "pbkdf2-sha256$600000$01$01", .superuser, none⟩,
            ⟨"guest", "pbkdf2-sha256$600000$02$02", .user, none⟩]

theorem StoredConfig.small_valid : (validate StoredConfig.small).isOk = true := by decide +kernel

end Flock
