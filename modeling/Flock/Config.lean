/-
# Flock.Config — the configuration store and its rulebook.

The record types of `config.rs` and `validate`, check by check and in the source's order.  An error
is a constructor with its data; `ConfigError.message` is the text, with `quote` for `{:?}` on a
string.  The numbers that are `f64` in the source come from JSON and are rationals.
-/
import Flock.Locale
import Flock.Providers

namespace Flock

/-- `CURRENT_VERSION`. -/
def currentVersion : ℕ := 2

/-- `NimKey`: a row of the downgrade mirror. -/
structure NimKey where
  key : String
  owner : String
  enabled : Bool := true
  rpm : ℕ := 40
  deriving DecidableEq, Repr

/-- `Upstream`: the downgrade mirror of the NVIDIA provider. -/
structure Upstream where
  baseUrl : String := "https://integrate.api.nvidia.com"
  nimKeys : List NimKey := []
  deriving DecidableEq, Repr

/-- `Mode`: whether `/v1` requires a client key. -/
inductive Mode where
  | open
  | keyed
  deriving DecidableEq, Repr

/-- `ClientKey`: the secret is stored as its digest, with the last four characters for display. -/
structure ClientKey where
  name : String
  secretSha256 : String
  last4 : String := ""
  owner : String
  deriving DecidableEq, Repr

/-- `Limits`, with the serde defaults. -/
structure Limits where
  heartbeatSecs : ℕ := 10
  maxInflight : ℕ := 512
  maxWaitSecs : ℕ := 900
  modelsTtlSecs : ℕ := 600
  requestTimeoutSecs : ℕ := 300
  streamIdleSecs : ℕ := 300
  strictPassthrough : Bool := false
  deriving DecidableEq, Repr

/-- `DashboardCfg`. -/
structure DashboardCfg where
  defaultWindowDays : ℕ := 30
  sloTargetPercent : ℚ := 999 / 10
  deriving DecidableEq

/-- `GovernorCfg`; the overrides are an ordered map from model to cap. -/
structure GovernorCfg where
  enabled : Bool := true
  overrides : List (String × ℕ) := []
  deriving DecidableEq, Repr

/-- `Role`. -/
inductive Role where
  | superuser
  | admin
  | user
  deriving DecidableEq, Repr

/-- `Role::is_admin`. -/
def Role.isAdmin : Role → Bool
  | .superuser | .admin => true
  | .user => false

/-- `User`. -/
structure User where
  username : String
  passwordHash : String
  role : Role
  locale : Option String := none
  deriving DecidableEq, Repr

/-- `StoredConfig`. -/
structure StoredConfig where
  version : ℕ := currentVersion
  defaultLocale : String := "en-US"
  upstream : Upstream := {}
  providers : List ProviderDef
  routing : RoutingCfg := {}
  /-- `client_auth.mode`. -/
  mode : Mode := .keyed
  /-- `client_auth.keys`. -/
  clientKeys : List ClientKey := []
  limits : Limits := {}
  historyDays : ℕ := 30
  dashboard : DashboardCfg := {}
  governor : GovernorCfg := {}
  users : List User := []
  deriving DecidableEq

namespace StoredConfig

/-- `superuser`. -/
def superuser (sc : StoredConfig) : Option User := sc.users.find? (·.role == .superuser)

/-- `user`. -/
def user (sc : StoredConfig) (username : String) : Option User :=
  sc.users.find? (·.username == username)

/-- `nvidia`. -/
def nvidia (sc : StoredConfig) : Option ProviderDef := sc.providers.find? (·.name == "nvidia")

/-- The keys of the NVIDIA record, none if there is no such record. -/
def nvidiaKeys (sc : StoredConfig) : List ProviderKey := (sc.nvidia.map (·.keys)).getD []

/-- `sync_upstream_mirror`. -/
def syncUpstreamMirror (sc : StoredConfig) : StoredConfig :=
  match sc.nvidia with
  | some nv =>
      { sc with upstream :=
        { baseUrl := nv.baseUrl,
          nimKeys := nv.keys.map fun k => ⟨k.key, k.owner, k.enabled, k.rpm⟩ } }
  | none => sc

/-- The mirror is only about `upstream`. -/
@[simp] theorem syncUpstreamMirror_superuser (sc : StoredConfig) :
    sc.syncUpstreamMirror.superuser = sc.superuser := by
  unfold syncUpstreamMirror
  split <;> rfl

/-- It is read from the providers. -/
@[simp] theorem syncUpstreamMirror_providers (sc : StoredConfig) :
    sc.syncUpstreamMirror.providers = sc.providers := by
  unfold syncUpstreamMirror
  split <;> rfl

/-- Without an NVIDIA record nothing is mirrored. -/
theorem syncUpstreamMirror_of_none {sc : StoredConfig} (h : sc.nvidia = none) :
    sc.syncUpstreamMirror = sc := by
  unfold syncUpstreamMirror
  rw [h]

/-- With one, the old view of the settings shows it. -/
theorem syncUpstreamMirror_of_some {sc : StoredConfig} {nv : ProviderDef} (h : sc.nvidia = some nv) :
    sc.syncUpstreamMirror = { sc with upstream :=
      { baseUrl := nv.baseUrl,
        nimKeys := nv.keys.map fun k => ⟨k.key, k.owner, k.enabled, k.rpm⟩ } } := by
  unfold syncUpstreamMirror
  rw [h]

/-- Syncing twice is syncing once. -/
theorem syncUpstreamMirror_idem (sc : StoredConfig) :
    sc.syncUpstreamMirror.syncUpstreamMirror = sc.syncUpstreamMirror := by
  cases h : sc.nvidia with
  | none => rw [syncUpstreamMirror_of_none h, syncUpstreamMirror_of_none h]
  | some nv =>
      rw [syncUpstreamMirror_of_some h]
      exact syncUpstreamMirror_of_some h

end StoredConfig

/-! ## What can be wrong with a store

One constructor for each message, with the data that the message prints. -/

/-- Which stored locale a locale error is about. -/
inductive LocaleField where
  | defaultLocale
  | user (username : String)
  deriving DecidableEq, Repr

/-- Every rejection of `validate`. -/
inductive ConfigError where
  | version (got : ℕ)
  | localeSpelling (field : LocaleField) (canonical : String)
  | localeNotInstalled (field : LocaleField) (canonical : String)
  | localeInvalid (field : LocaleField)
  | heartbeat
  | maxWait
  | requestTimeout
  | maxInflight
  | defaultWindow
  | historyDays
  | sloTarget
  | urlScheme
  | urlLinkLocal
  | username (name : String)
  | duplicateUsername (name : String)
  | emptyPasswordHash (name : String)
  | twoSuperusers
  | nimKeyEmpty
  | nimKeyDuplicate
  | nimKeyRpm (rpm : ℕ)
  | clientName (name : String)
  | duplicateClient (name : String)
  | clientDigest (name : String)
  | governorOverride (model : String)
  | nimKeyOwner (owner : String)
  | clientOwner (name owner : String)
  | poolFloor
  | providerNameEmpty
  | duplicateProvider (name : String)
  | providerWeight (name : String)
  | providerKeyEmpty (name : String)
  | providerKeyRpm (name : String) (rpm : ℕ)
  | providerKeyDuplicate (name : String)
  | maxParallel
  | maxRetries
  | fifoMax
  | probeInterval
  deriving DecidableEq, Repr

/-- The label of a locale field in a message. -/
def LocaleField.label (quote : String → String) : LocaleField → String
  | .defaultLocale => "default_locale"
  | .user name => "user " ++ quote name ++ " locale"

/-- The text of a rejection. -/
def ConfigError.message (quote : String → String) : ConfigError → String
  | .version got => "version must be 2, got " ++ toString got
  | .localeSpelling f c => f.label quote ++ " must use canonical locale spelling " ++ c
  | .localeNotInstalled f c => f.label quote ++ " locale " ++ c ++ " is not installed"
  | .localeInvalid f => f.label quote ++ " is not a valid locale"
  | .heartbeat => "heartbeat_secs must be >= 1"
  | .maxWait => "max_wait_secs must be greater than heartbeat_secs"
  | .requestTimeout => "request_timeout_secs must be >= 1"
  | .maxInflight => "max_inflight must be >= 1"
  | .defaultWindow => "default_window_days must be >= 1"
  | .historyDays => "history days must be 0 or at least default_window_days"
  | .sloTarget => "slo_target_percent must be a number greater than 0 and at most 100"
  | .urlScheme => "upstream base_url must start with http:// or https://"
  | .urlLinkLocal => "upstream base_url must not point at a link-local address"
  | .username n =>
      "username " ++ quote n ++ " must be 1-32 chars of letters, digits, '.', '_' or '-'"
  | .duplicateUsername n => "duplicate username " ++ quote n
  | .emptyPasswordHash n => "user " ++ quote n ++ " has an empty password hash"
  | .twoSuperusers => "only one superuser may exist"
  | .nimKeyEmpty => "a NIM key has neither key nor key_env"
  | .nimKeyDuplicate => "duplicate NIM key"
  | .nimKeyRpm rpm => "NIM key rpm " ++ toString rpm ++ " out of range 0-10000"
  | .clientName n =>
      "client key name " ++ quote n ++ " must be 1-64 chars of letters, digits, '.', '_' or '-'"
  | .duplicateClient n => "duplicate client key name " ++ quote n
  | .clientDigest n => "client key " ++ quote n ++ " secret digest is not 64 hex chars"
  | .governorOverride m => "governor override for " ++ quote m ++ " out of range 1-10000"
  | .nimKeyOwner o => "NIM key owner " ++ quote o ++ " is not a user"
  | .clientOwner n o => "client key " ++ quote n ++ " owner " ++ quote o ++ " is not a user"
  | .poolFloor => "the superuser must own at least one enabled NIM key (the pool floor)"
  | .providerNameEmpty => "a provider name is empty"
  | .duplicateProvider n => "duplicate provider " ++ quote n
  | .providerWeight n => "provider " ++ quote n ++ " weight must be a finite number >= 0"
  | .providerKeyEmpty n => "provider " ++ quote n ++ " has a key with neither key nor key_env"
  | .providerKeyRpm n rpm =>
      "provider " ++ quote n ++ " key rpm " ++ toString rpm ++ " out of range 0-10000"
  | .providerKeyDuplicate n => "provider " ++ quote n ++ " has a duplicate key"
  | .maxParallel => "routing max_parallel must be >= 1"
  | .maxRetries => "routing max_retries must be >= 1"
  | .fifoMax => "routing fifo_max must be >= 1"
  | .probeInterval => "routing probe_interval_secs must be >= 1"

/-! ## The rulebook

The checks of one record stop at the first that fails; the records are checked in their order, each with the names
that came before it. -/

/-- `label_ok`. -/
def labelOk (s : String) (max : ℕ) : Bool :=
  !Text.isEmpty s && Text.len s ≤ max &&
    s.toList.all fun c => Text.isAsciiAlphanumeric c || c == '.' || c == '_' || c == '-'

/-- The host of an authority: up to the port, or inside the brackets of an IPv6 literal. -/
def hostOf (authority : String) : String :=
  match Text.stripStart "[" authority with
  | some inner => (Text.split ']' inner).headD ""
  | none => (Text.split ':' authority).headD ""

/-- `check_base_url`. -/
def checkBaseUrl (base : String) : Except ConfigError Unit :=
  match (Text.stripStart "http://" base).orElse fun _ => Text.stripStart "https://" base with
  | none => .error .urlScheme
  | some rest =>
      let host := Text.toAsciiLowercase (hostOf ((Text.split '/' rest).headD ""))
      if Text.startsWith "169.254." host || Text.startsWith "fe80:" host then .error .urlLinkLocal
      else .ok ()

/-- `validate_stored_locale`. -/
def validateStoredLocale (field : LocaleField) (locale : String) : Except ConfigError Unit :=
  match canonicalLocale locale with
  | .ok canonical =>
      if canonical != locale then .error (.localeSpelling field canonical)
      else if (installedLocale canonical).isOk then .ok ()
      else .error (.localeNotInstalled field canonical)
  | .error _ => .error (.localeInvalid field)

/-- `limits`, `dashboard` and `history`. -/
def validateLimits (sc : StoredConfig) : Except ConfigError Unit :=
  if sc.limits.heartbeatSecs = 0 then .error .heartbeat
  else if sc.limits.maxWaitSecs ≤ sc.limits.heartbeatSecs then .error .maxWait
  else if sc.limits.requestTimeoutSecs = 0 then .error .requestTimeout
  else if sc.limits.maxInflight = 0 then .error .maxInflight
  else if sc.dashboard.defaultWindowDays = 0 then .error .defaultWindow
  else if sc.historyDays ≠ 0 ∧ sc.historyDays < sc.dashboard.defaultWindowDays then
    .error .historyDays
  else if ¬ (0 < sc.dashboard.sloTargetPercent ∧ sc.dashboard.sloTargetPercent ≤ 100) then
    .error .sloTarget
  else .ok ()

/-- The body of the loop over the users; `names` are the usernames so far. -/
def checkUser (names : List String) (u : User) : Except ConfigError Unit :=
  if !labelOk u.username 32 then .error (.username u.username)
  else if names.contains u.username then .error (.duplicateUsername u.username)
  else if Text.isEmpty u.passwordHash then .error (.emptyPasswordHash u.username)
  else
    match u.locale with
    | some locale => validateStoredLocale (.user u.username) locale
    | none => .ok ()

/-- The loop over the users. -/
def validateUsers (names : List String) : List User → Except ConfigError Unit
  | [] => .ok ()
  | u :: rest => do
      checkUser names u
      validateUsers (u.username :: names) rest

/-- The loop over the NIM keys; `keys` are the literal keys so far. -/
def validateNimKeys (keys : List String) : List ProviderKey → Except ConfigError Unit
  | [] => .ok ()
  | k :: rest =>
      if Text.isEmpty (Text.trim k.key) && Text.isEmpty (Text.trim k.keyEnv) then
        .error .nimKeyEmpty
      else if !Text.isEmpty k.key && keys.contains k.key then .error .nimKeyDuplicate
      else if k.rpm > 10000 then .error (.nimKeyRpm k.rpm)
      else validateNimKeys (if Text.isEmpty k.key then keys else k.key :: keys) rest

/-- The loop over the client keys. -/
def validateClients (names : List String) : List ClientKey → Except ConfigError Unit
  | [] => .ok ()
  | c :: rest =>
      if !labelOk c.name 64 then .error (.clientName c.name)
      else if names.contains c.name then .error (.duplicateClient c.name)
      else if Text.len c.secretSha256 ≠ 64 ∨ !c.secretSha256.toList.all Text.isAsciiHexdigit then
        .error (.clientDigest c.name)
      else validateClients (c.name :: names) rest

/-- The loop over the governor overrides. -/
def validateOverrides : List (String × ℕ) → Except ConfigError Unit
  | [] => .ok ()
  | (model, cap) :: rest =>
      if Text.isEmpty (Text.trim model) ∨ ¬ (1 ≤ cap ∧ cap ≤ 10000) then
        .error (.governorOverride model)
      else validateOverrides rest

/-- Ownership and the pool floor, once a superuser exists. -/
def validateClaimed (sc : StoredConfig) (su : User) : Except ConfigError Unit :=
  match sc.nvidiaKeys.find? fun k => (sc.user k.owner).isNone with
  | some k => .error (.nimKeyOwner k.owner)
  | none =>
      match sc.clientKeys.find? fun c => (sc.user c.owner).isNone with
      | some c => .error (.clientOwner c.name c.owner)
      | none =>
          if sc.nvidiaKeys.any fun k => k.enabled && k.owner == su.username then .ok ()
          else .error .poolFloor

/-- The keys of one provider; `materials` are its literal keys so far. -/
def validateProviderKeys (name : String) (materials : List String) :
    List ProviderKey → Except ConfigError Unit
  | [] => .ok ()
  | k :: rest =>
      if Text.isEmpty (Text.trim k.key) && Text.isEmpty (Text.trim k.keyEnv) then
        .error (.providerKeyEmpty name)
      else if k.rpm > 10000 then .error (.providerKeyRpm name k.rpm)
      else if !Text.isEmpty k.key && materials.contains k.key then
        .error (.providerKeyDuplicate name)
      else validateProviderKeys name (if Text.isEmpty k.key then materials else k.key :: materials) rest

/-- The body of the loop of `validate_providers`; `names` are the provider names so far. -/
def checkProvider (names : List String) (p : ProviderDef) : Except ConfigError Unit :=
  if Text.isEmpty (Text.trim p.name) then .error .providerNameEmpty
  else if names.contains p.name then .error (.duplicateProvider p.name)
  else do
    if Text.isEmpty p.baseUrl then .ok () else checkBaseUrl p.baseUrl
    if p.weight < 0 then .error (.providerWeight p.name)
    else validateProviderKeys p.name [] p.keys

/-- `validate_providers`. -/
def validateProviders (names : List String) : List ProviderDef → Except ConfigError Unit
  | [] => .ok ()
  | p :: rest => do
      checkProvider names p
      validateProviders (p.name :: names) rest

/-- `validate_routing`. -/
def validateRouting (r : RoutingCfg) : Except ConfigError Unit :=
  if r.maxParallel = 0 then .error .maxParallel
  else if r.maxRetries = 0 then .error .maxRetries
  else if r.fifoMax = 0 then .error .fifoMax
  else if r.probeIntervalSecs = 0 then .error .probeInterval
  else .ok ()

/-- The version check. -/
def validateVersion (sc : StoredConfig) : Except ConfigError Unit :=
  if sc.version ≠ currentVersion then .error (.version sc.version) else .ok ()

/-- At most one superuser. -/
def validateSuperusers (sc : StoredConfig) : Except ConfigError Unit :=
  if (sc.users.filter (·.role == .superuser)).length > 1 then .error .twoSuperusers else .ok ()

/-- The rules of a claimed store; a recovery store may hold orphan-owned keys. -/
def validateOwnership (sc : StoredConfig) : Except ConfigError Unit :=
  match sc.superuser with
  | some su => validateClaimed sc su
  | none => .ok ()

/-- `validate`. -/
def validate (sc : StoredConfig) : Except ConfigError Unit := do
  validateVersion sc
  validateStoredLocale .defaultLocale sc.defaultLocale
  validateLimits sc
  checkBaseUrl sc.upstream.baseUrl
  validateUsers [] sc.users
  validateSuperusers sc
  validateNimKeys [] sc.nvidiaKeys
  validateClients [] sc.clientKeys
  validateOverrides sc.governor.overrides
  validateOwnership sc
  validateProviders [] sc.providers
  validateRouting sc.routing

/-! ## What an accepted store has

What the callers use of an accepted store are a few facts, which are collected here once.  None of them looks into the
checks any more. -/

/-- Peel one check off a sequence of checks. -/
theorem isOk_seq {x y : Except ConfigError Unit} (h : (x >>= fun _ => y).isOk = true) :
    x.isOk = true ∧ y.isOk = true := by
  cases x with
  | error e => cases h
  | ok a => exact ⟨rfl, h⟩

/-- A provider that is accepted has a new name. -/
theorem checkProvider_new {names : List String} {p : ProviderDef}
    (h : (checkProvider names p).isOk = true) : p.name ∉ names := by
  intro hmem
  unfold checkProvider at h
  rw [if_pos (show names.contains p.name = true by simpa using hmem)] at h
  split at h <;> cases h

/-- A user that is accepted has a new name. -/
theorem checkUser_new {names : List String} {u : User} (h : (checkUser names u).isOk = true) :
    u.username ∉ names := by
  intro hmem
  unfold checkUser at h
  split at h
  · cases h
  · rw [if_pos (show names.contains u.username = true by simpa using hmem)] at h
    cases h

/-- The first provider, and the others with its name known. -/
theorem validateProviders_cons {names : List String} {p : ProviderDef} {rest : List ProviderDef}
    (h : (validateProviders names (p :: rest)).isOk = true) :
    (checkProvider names p).isOk = true ∧ (validateProviders (p.name :: names) rest).isOk = true :=
  isOk_seq h

/-- The first user, and the others with its name known. -/
theorem validateUsers_cons {names : List String} {u : User} {rest : List User}
    (h : (validateUsers names (u :: rest)).isOk = true) :
    (checkUser names u).isOk = true ∧ (validateUsers (u.username :: names) rest).isOk = true :=
  isOk_seq h

/-- A loop that refuses a name it has seen accepts lists of distinct names. -/
theorem nodup_of_checks {α : Type} {key : α → String} {check : List String → α → Except ConfigError Unit}
    {loop : List String → List α → Except ConfigError Unit}
    (hloop : ∀ x rest names, (loop names (x :: rest)).isOk = true →
      (check names x).isOk = true ∧ (loop (key x :: names) rest).isOk = true)
    (hnew : ∀ {names x}, (check names x).isOk = true → key x ∉ names) :
    ∀ (xs : List α) (names : List String), (loop names xs).isOk = true →
      (xs.map key).Nodup ∧ ∀ x ∈ xs, key x ∉ names
  | [], _, _ => by simp
  | x :: rest, names, h => by
      obtain ⟨hhead, hrest⟩ := hloop x rest names h
      obtain ⟨hnodup, hfresh⟩ := nodup_of_checks hloop hnew rest (key x :: names) hrest
      refine ⟨?_, ?_⟩
      · rw [List.map_cons, List.nodup_cons, List.mem_map]
        refine ⟨?_, hnodup⟩
        rintro ⟨y, hy, hname⟩
        exact hfresh y hy (by simp [hname])
      · intro y hy
        rcases List.mem_cons.mp hy with rfl | hy
        · exact hnew hhead
        · exact fun hmem => hfresh y hy (List.mem_cons_of_mem _ hmem)

/-- Accepted provider lists have distinct names. -/
theorem validateProviders_nodup (ps : List ProviderDef) (names : List String)
    (h : (validateProviders names ps).isOk = true) :
    (ps.map (·.name)).Nodup ∧ ∀ p ∈ ps, p.name ∉ names :=
  @nodup_of_checks _ (·.name) checkProvider validateProviders (fun _ _ _ => validateProviders_cons)
    checkProvider_new ps names h

/-- Accepted user lists have distinct names. -/
theorem validateUsers_nodup (us : List User) (names : List String)
    (h : (validateUsers names us).isOk = true) :
    (us.map (·.username)).Nodup ∧ ∀ u ∈ us, u.username ∉ names :=
  @nodup_of_checks _ (·.username) checkUser validateUsers (fun _ _ _ => validateUsers_cons)
    checkUser_new us names h

/-- **`Accepted`** — a store that passes every check of the rulebook. -/
structure Accepted (sc : StoredConfig) : Prop where
  version : (validateVersion sc).isOk = true
  locale : (validateStoredLocale .defaultLocale sc.defaultLocale).isOk = true
  limits : (validateLimits sc).isOk = true
  baseUrl : (checkBaseUrl sc.upstream.baseUrl).isOk = true
  users : (validateUsers [] sc.users).isOk = true
  superusers : (validateSuperusers sc).isOk = true
  nimKeys : (validateNimKeys [] sc.nvidiaKeys).isOk = true
  clients : (validateClients [] sc.clientKeys).isOk = true
  overrides : (validateOverrides sc.governor.overrides).isOk = true
  ownership : (validateOwnership sc).isOk = true
  providers : (validateProviders [] sc.providers).isOk = true
  routing : (validateRouting sc.routing).isOk = true

/-- An accepted store has what `Accepted` lists. -/
theorem accepted_of_validate {sc : StoredConfig} (h : (validate sc).isOk = true) :
    Accepted sc := by
  obtain ⟨hversion, h⟩ := isOk_seq h
  obtain ⟨hlocale, h⟩ := isOk_seq h
  obtain ⟨hlimits, h⟩ := isOk_seq h
  obtain ⟨hurl, h⟩ := isOk_seq h
  obtain ⟨husers, h⟩ := isOk_seq h
  obtain ⟨hsuper, h⟩ := isOk_seq h
  obtain ⟨hnim, h⟩ := isOk_seq h
  obtain ⟨hclients, h⟩ := isOk_seq h
  obtain ⟨hover, h⟩ := isOk_seq h
  obtain ⟨hown, h⟩ := isOk_seq h
  obtain ⟨hprov, hrouting⟩ := isOk_seq h
  exact ⟨hversion, hlocale, hlimits, hurl, husers, hsuper, hnim, hclients, hover, hown, hprov,
    hrouting⟩

/-- A validated store has distinct provider names. -/
theorem validate_nodup {sc : StoredConfig} (h : (validate sc).isOk = true) :
    (sc.providers.map (·.name)).Nodup :=
  (validateProviders_nodup sc.providers [] (accepted_of_validate h).providers).1

/-- A validated store has distinct usernames. -/
theorem validate_users_nodup {sc : StoredConfig} (h : (validate sc).isOk = true) :
    (sc.users.map (·.username)).Nodup :=
  (validateUsers_nodup sc.users [] (accepted_of_validate h).users).1

/-- Looking a listed name up finds the entry, where names are distinct. -/
theorem find?_name_of_mem {α : Type} {key : α → String} {xs : List α} {x : α}
    (hnodup : (xs.map key).Nodup) (hx : x ∈ xs) : xs.find? (key · == key x) = some x := by
  induction xs with
  | nil => cases hx
  | cons y rest ih =>
      rw [List.map_cons, List.nodup_cons] at hnodup
      rw [List.find?_cons]
      rcases List.mem_cons.mp hx with rfl | hrest
      · simp
      · have hne : key y ≠ key x := by
          intro heq
          exact hnodup.1 (heq ▸ List.mem_map_of_mem hrest)
        rw [show (key y == key x) = false by simpa using hne]
        exact ih hnodup.2 hrest

/-- The account of a name is the one that has it. -/
theorem validate_user {sc : StoredConfig} (h : (validate sc).isOk = true) {u : User} (hu : u ∈ sc.users) :
    sc.user u.username = some u :=
  find?_name_of_mem (validate_users_nodup h) hu

/-- There is one NVIDIA record at most. -/
theorem validate_nvidia {sc : StoredConfig} (h : (validate sc).isOk = true) {p : ProviderDef}
    (hp : p ∈ sc.providers) (hname : p.name = "nvidia") : sc.nvidia = some p := by
  have hfind := find?_name_of_mem (validate_nodup h) hp
  rwa [hname] at hfind

/-- **Ownership in a claimed store**, for what `validate` checks once there is a superuser. -/
structure Owned (sc : StoredConfig) (su : String) : Prop where
  nimKeys : ∀ k ∈ sc.nvidiaKeys, (sc.user k.owner).isSome = true
  clientKeys : ∀ c ∈ sc.clientKeys, (sc.user c.owner).isSome = true
  poolFloor : ∃ k ∈ sc.nvidiaKeys, k.enabled = true ∧ k.owner = su

/-- The owner of a key is a user, and the superuser has an enabled one. -/
theorem validate_owned {sc : StoredConfig} (h : (validate sc).isOk = true) {su : User}
    (hsu : sc.superuser = some su) : Owned sc su.username := by
  have hown := (accepted_of_validate h).ownership
  simp only [validateOwnership, hsu, validateClaimed] at hown
  split at hown
  · cases hown
  · rename_i hnim
    split at hown
    · cases hown
    · rename_i hclient
      split at hown
      · rename_i hfloor
        refine ⟨?_, ?_, ?_⟩
        · intro k hk
          have hk' := List.find?_eq_none.mp hnim k hk
          simpa [Option.isSome_iff_ne_none] using hk'
        · intro c hc
          have hc' := List.find?_eq_none.mp hclient c hc
          simpa [Option.isSome_iff_ne_none] using hc'
        · simpa using hfloor
      · cases hown

/-- The version is the current one. -/
theorem validate_version {sc : StoredConfig} (h : (validate sc).isOk = true) :
    sc.version = currentVersion := by
  have hversion := (accepted_of_validate h).version
  unfold validateVersion at hversion
  split at hversion
  · cases hversion
  · rename_i hne
    exact not_not.mp hne

/-- A claimed store has the NVIDIA record: the superuser's key is there. -/
theorem validate_nvidia_isSome {sc : StoredConfig} (h : (validate sc).isOk = true)
    (hclaimed : sc.superuser.isSome = true) : sc.nvidia.isSome = true := by
  obtain ⟨su, hsu⟩ := Option.isSome_iff_exists.mp hclaimed
  obtain ⟨k, hk, -⟩ := (validate_owned h hsu).poolFloor
  unfold StoredConfig.nvidiaKeys at hk
  cases hnv : sc.nvidia with
  | none =>
      rw [hnv] at hk
      cases hk
  | some nv => rfl

/-- A claimed store has providers. -/
theorem validate_seeded {sc : StoredConfig} (h : (validate sc).isOk = true)
    (hclaimed : sc.superuser.isSome = true) : sc.providers ≠ [] := by
  intro hempty
  have hnv := validate_nvidia_isSome h hclaimed
  unfold StoredConfig.nvidia at hnv
  rw [hempty] at hnv
  cases hnv

end Flock
