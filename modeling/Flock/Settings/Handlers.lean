/-
# Flock.Settings.Handlers — every writer of the store, up to its commit.

A handler takes the store lock, checks the caller against the live store, edits a clone of it and commits the
clone.  `users`, `account` and `locale` take the lock twice: they read the store, give the lock up while a
password is hashed or a body read, and come back to commit.  So a request is two critical sections: `arrive`,
what the handler does before it takes the lock to commit, and `Work.edit`, the section up to `commit`.  For
the other handlers nothing happens in `arrive`.

Every handler reaches the NVIDIA record through `nvidiaMut`, whose panic leaves the mutex poisoned.
`sha256Hex` is a parameter.
-/
import Flock.Lib.FirstMatch
import Flock.Auth.Basic

namespace Flock.Settings

open Lib (updateFirst)

/-! ## Requests -/

/-- `AddNimKey`. -/
structure AddNimKey where
  key : String
  rpm : Option ℕ := none
  deriving DecidableEq, Repr

/-- `SetNimKey`. -/
structure SetNimKey where
  fingerprint : String
  enabled : Option Bool := none
  rpm : Option ℕ := none
  deriving DecidableEq, Repr

/-- `NimKeysReq`. -/
structure NimKeysReq where
  add : Option AddNimKey := none
  remove : Option String := none
  set : Option SetNimKey := none
  deriving DecidableEq, Repr

/-- `ClientsReq`; `AddClient` has a name only. -/
structure ClientsReq where
  add : Option String := none
  remove : Option String := none
  mode : Option String := none
  deriving DecidableEq, Repr

/-- `LimitsReq`. -/
structure LimitsReq where
  maxWaitSecs : ℕ
  heartbeatSecs : ℕ
  modelsTtlSecs : ℕ
  streamIdleSecs : ℕ
  requestTimeoutSecs : ℕ
  maxInflight : ℕ
  strictPassthrough : Bool
  deriving DecidableEq, Repr

/-- `ServerReq`. -/
structure ServerReq where
  baseUrl : String
  limits : LimitsReq
  deriving DecidableEq, Repr

/-- `HistoryReq`. -/
structure HistoryReq where
  days : ℕ
  defaultWindowDays : ℕ
  sloTargetPercent : ℚ
  deriving DecidableEq

/-- `GovernorReq`; `GovernorOverride` is a model and a cap. -/
structure GovernorReq where
  enabled : Option Bool := none
  setOverride : Option (String × ℕ) := none
  removeOverride : Option String := none
  deriving DecidableEq, Repr

/-- `AccountBody`. -/
inductive AccountBody where
  | password (current new : String)
  | locale (locale : Option String)
  | invalidLocale
  | invalidAction
  deriving DecidableEq, Repr

/-- `SetupKey`. -/
structure SetupKey where
  key : String
  rpm : Option ℕ := none
  deriving DecidableEq, Repr

/-- `SetupReq`; `CreateClientKey` has a name only. -/
structure SetupReq where
  username : String
  password : String
  baseUrl : Option String := none
  nimKeys : List SetupKey := []
  createClientKey : Option String := none
  deriving DecidableEq, Repr

/-- `NoScriptSetupForm`. -/
structure NoScriptSetupForm where
  username : String
  password : String
  baseUrl : Option String := none
  nimKey : Option String := none
  nimRpm : Option ℕ := none
  deriving DecidableEq, Repr

/-- `SetupReq::from(NoScriptSetupForm)`: no client key, there is no page to show its secret on. -/
def NoScriptSetupForm.toReq (form : NoScriptSetupForm) : SetupReq where
  username := form.username
  password := form.password
  baseUrl := form.baseUrl
  nimKeys := ((form.nimKey.filter fun key => !Text.isEmpty (Text.trim key)).map
    fun key => ⟨key, form.nimRpm⟩).toList

/-- The body of `POST /setup`, as JSON or as the native form. -/
inductive SetupBody where
  | json (req : SetupReq)
  | form (form : NoScriptSetupForm)
  deriving DecidableEq, Repr

/-- The request a body is. -/
def SetupBody.req : SetupBody → SetupReq
  | .json r => r
  | .form f => f.toReq

/-- The requests to the authenticated settings endpoints. -/
inductive SettingsReq where
  | nimKeys (req : NimKeysReq)
  | clients (req : ClientsReq)
  | upstream (baseUrl : String)
  | server (req : ServerReq)
  | routing (req : RoutingCfg)
  | limits (req : LimitsReq)
  | history (req : HistoryReq)
  | governor (req : GovernorReq)
  | users (req : UsersReq)
  | account (body : AccountBody)
  | locale (locale : String)

/-! ## Pieces the handlers share -/

/-- `sha256_hex(key)[..8]`. -/
def fingerprint (sha256Hex : String → String) (key : String) : String :=
  String.ofList ((sha256Hex key).toList.take 8)

/-- The test of the two searches for a key. -/
def hasFingerprint (sha256Hex : String → String) (fp : String) (k : ProviderKey) : Bool :=
  fingerprint sha256Hex k.key == fp

/-- `mint_client_secret`, with the bytes it draws. -/
def mintClientSecret (raw : List UInt8) : String := "npk_" ++ hex raw

/-- `last4`. -/
def last4 (s : String) : String := String.ofList (s.toList.drop (s.toList.length - 4))

/-- A client key over a freshly minted secret. -/
def mintedKey (sha256Hex : String → String) (name owner : String) (raw : List UInt8) : ClientKey where
  name := Text.trim name
  secretSha256 := sha256Hex (mintClientSecret raw)
  last4 := last4 (mintClientSecret raw)
  owner := owner

/-- `b.trim().trim_end_matches('/')`. -/
def cleanBaseUrl (b : String) : String := Text.trimEndMatches '/' (Text.trim b)

/-- `nvidia_mut`, and what is done to the record it hands out. -/
def nvidiaMut (sc : StoredConfig) (f : ProviderDef → Except Stop ProviderDef) :
    Except Stop StoredConfig :=
  match sc.nvidia with
  | none => .error (.panic "nvidia provider is always seeded")
  | some nv => (f nv).map fun nv' =>
      { sc with providers := updateFirst (·.name == "nvidia") (fun _ => nv') sc.providers }

/-- The three answers of a role check: let through, 403, 401. -/
def adminOnly (message : String) (sc : StoredConfig) (caller : String) : Except Stop Unit :=
  match sc.roleOf caller with
  | some r => if r.isAdmin then .ok () else .error (forbidden message)
  | none => .error staleSession

/-- `locale_error_response`. -/
def localeErrorResponse : LocaleError → Stop
  | .invalid => .refuse 400 "invalid_locale" "locale is not valid"
  | .notInstalled locale =>
      .refuse 400 "locale_not_installed" ("locale " ++ locale ++ " is not installed")

/-- `setup_complete`. -/
def setupComplete : Stop := .refuse 409 "setup_complete" "setup is already complete"

/-! ## Keys -/

/-- The key record of an `add`. -/
def nimKeyRecord (key : String) (rpm : Option ℕ) (owner : String) : ProviderKey where
  key := Text.trim key
  keyEnv := ""
  owner := owner
  enabled := true
  rpm := rpm.getD 40

/-- The changes of `SetNimKey` to the key it names. -/
def SetNimKey.apply (set : SetNimKey) (k : ProviderKey) : ProviderKey where
  key := k.key
  keyEnv := k.keyEnv
  owner := k.owner
  enabled := set.enabled.getD k.enabled
  rpm := set.rpm.getD k.rpm

/-- `nim_keys`: anyone adds, and removes and changes their own; an administrator anyone's. -/
def nimKeys (sha256Hex : String → String) (sc : StoredConfig) (caller : String) (req : NimKeysReq) :
    Except Stop StoredConfig :=
  match sc.roleOf caller with
  | none => .error staleSession
  | some role =>
      match req.add, req.remove, req.set with
      | some add, none, none =>
          nvidiaMut sc fun nv =>
            .ok { nv with keys := nv.keys ++ [nimKeyRecord add.key add.rpm caller] }
      | none, some fp, none =>
          nvidiaMut sc fun nv =>
            match nv.keys.find? (hasFingerprint sha256Hex fp) with
            | none => .error (badRequest "no such key")
            | some k =>
                if !role.isAdmin ∧ k.owner ≠ caller then
                  .error (forbidden "you can only remove your own keys")
                else
                  .ok { nv with keys := nv.keys.eraseP (hasFingerprint sha256Hex fp) }
      | none, none, some set =>
          nvidiaMut sc fun nv =>
            match nv.keys.find? (hasFingerprint sha256Hex set.fingerprint) with
            | none => .error (badRequest "no such key")
            | some k =>
                if !role.isAdmin ∧ k.owner ≠ caller then
                  .error (forbidden "you can only change your own keys")
                else
                  .ok { nv with
                    keys := updateFirst (hasFingerprint sha256Hex set.fingerprint) set.apply nv.keys }
      | _, _, _ => .error (badRequest "send exactly one of add / remove / set")

/-- `clients`: keys as in `nim_keys`; the mode is an administrator's. -/
def clients (sha256Hex : String → String) (sc : StoredConfig) (caller : String) (req : ClientsReq)
    (raw : List UInt8) : Except Stop StoredConfig :=
  match sc.roleOf caller with
  | none => .error staleSession
  | some role =>
      match req.add, req.remove, req.mode with
      | some name, none, none =>
          .ok { sc with clientKeys := sc.clientKeys ++ [mintedKey sha256Hex name caller raw] }
      | none, some name, none =>
          match sc.clientKeys.find? (·.name == name) with
          | none => .error (badRequest "no such client key")
          | some c =>
              if !role.isAdmin ∧ c.owner ≠ caller then
                .error (forbidden "you can only revoke your own client keys")
              else .ok { sc with clientKeys := sc.clientKeys.eraseP (·.name == name) }
      | none, none, some mode =>
          if !role.isAdmin then .error (forbidden "changing the API access mode requires an admin")
          else if mode = "open" then .ok { sc with mode := .open }
          else if mode = "keyed" then .ok { sc with mode := .keyed }
          else .error (badRequest "mode must be \"open\" or \"keyed\"")
      | _, _, _ => .error (badRequest "send exactly one of add / remove / mode")

/-! ## Server sections -/

/-- The skeleton of `admin_section!`. -/
def adminSection (apply : StoredConfig → StoredConfig) (sc : StoredConfig) (caller : String) :
    Except Stop StoredConfig :=
  (adminOnly "server settings require an admin" sc caller).map fun _ => apply sc

/-- `replace_limits`. -/
def replaceLimits (req : LimitsReq) (sc : StoredConfig) : StoredConfig :=
  { sc with limits :=
    { heartbeatSecs := req.heartbeatSecs
      maxInflight := req.maxInflight
      maxWaitSecs := req.maxWaitSecs
      modelsTtlSecs := req.modelsTtlSecs
      requestTimeoutSecs := req.requestTimeoutSecs
      streamIdleSecs := req.streamIdleSecs
      strictPassthrough := req.strictPassthrough } }

/-- `limits`. -/
def limits (sc : StoredConfig) (caller : String) (req : LimitsReq) : Except Stop StoredConfig :=
  adminSection (replaceLimits req) sc caller

/-- `history`. -/
def history (sc : StoredConfig) (caller : String) (req : HistoryReq) : Except Stop StoredConfig :=
  adminSection (fun sc =>
    { sc with
      historyDays := req.days
      dashboard := { defaultWindowDays := req.defaultWindowDays
                     sloTargetPercent := req.sloTargetPercent } }) sc caller

/-- `BTreeMap::insert` on the ordered entries. -/
def insertOverride (model : String) (cap : ℕ) : List (String × ℕ) → List (String × ℕ)
  | [] => [(model, cap)]
  | (m, c) :: rest =>
      if m = model then (model, cap) :: rest
      else if model < m then (model, cap) :: (m, c) :: rest
      else (m, c) :: insertOverride model cap rest

/-- The closure of `governor_cfg`. -/
def applyGovernor (req : GovernorReq) (sc : StoredConfig) : StoredConfig :=
  let enabled := req.enabled.getD sc.governor.enabled
  let overrides := match req.setOverride with
    | some (model, cap) => insertOverride model cap sc.governor.overrides
    | none => sc.governor.overrides
  let overrides := match req.removeOverride with
    | some model => overrides.filter fun entry => entry.1 != model
    | none => overrides
  { sc with governor := { enabled, overrides } }

/-- `governor_cfg`. -/
def governorCfg (sc : StoredConfig) (caller : String) (req : GovernorReq) :
    Except Stop StoredConfig :=
  adminSection (applyGovernor req) sc caller

/-- `upstream`. -/
def upstream (sc : StoredConfig) (caller : String) (baseUrl : String) : Except Stop StoredConfig := do
  adminOnly "server settings require an admin" sc caller
  nvidiaMut sc fun nv => .ok { nv with baseUrl := cleanBaseUrl baseUrl }

/-- `server`: the URL and the limits as one candidate. -/
def server (sc : StoredConfig) (caller : String) (req : ServerReq) : Except Stop StoredConfig := do
  adminOnly "server settings require an admin" sc caller
  let sc ← nvidiaMut sc fun nv => .ok { nv with baseUrl := cleanBaseUrl req.baseUrl }
  .ok (replaceLimits req.limits sc)

/-- `routing`; `RoutingReq` has the fields of `RoutingCfg`. -/
def routing (sc : StoredConfig) (caller : String) (req : RoutingCfg) : Except Stop StoredConfig := do
  adminOnly "routing settings require an admin" sc caller
  .ok { sc with routing := req }

/-! ## Users, account, locale, setup -/

/-- The second critical section of `users`: the role is checked again. -/
def users (sc : StoredConfig) (caller : String) (req : UsersReq) (newHash : Option String) :
    Except Stop StoredConfig := do
  requireAdmin sc caller
  usersEdit sc req newHash

/-- The user with another locale. -/
def withLocale (locale : Option String) (u : User) : User := { u with locale := locale }

/-- The locale action of `account`. -/
def accountLocale (sc : StoredConfig) (caller : String) (locale : Option String) :
    Except Stop StoredConfig :=
  match sc.user caller with
  | none => .error staleSession
  | some _ => .ok { sc with users := updateUser caller (withLocale locale) sc.users }

/-- The second critical section of `locale`. -/
def locale (sc : StoredConfig) (caller : String) (locale : String) : Except Stop StoredConfig := do
  adminOnly "server settings require an admin" sc caller
  .ok { sc with defaultLocale := locale }

/-- The loop of `setup_submit` over the keys of the request. -/
def addSetupKeys (owner : String) : List SetupKey → StoredConfig → Except Stop StoredConfig
  | [], sc => .ok sc
  | k :: rest, sc => do
      let sc ← nvidiaMut sc fun nv => .ok { nv with keys := nv.keys ++ [nimKeyRecord k.key k.rpm owner] }
      addSetupKeys owner rest sc

/-- The critical section of `setup_submit`: one claim, with the orphaned keys adopted. -/
def setupSubmit (sha256Hex : String → String) (sc : StoredConfig) (req : SetupReq) (hash : String)
    (raw : List UInt8) : Except Stop StoredConfig :=
  if sc.superuser.isSome then .error setupComplete
  else do
    let sc := { sc with users := [⟨req.username, hash, .superuser, none⟩] }
    let sc ← nvidiaMut sc fun nv =>
      .ok { nv with keys := nv.keys.map fun k => { k with owner := req.username } }
    let sc := { sc with clientKeys := sc.clientKeys.map fun c => { c with owner := req.username } }
    let sc ← match req.baseUrl with
      | some b => nvidiaMut sc fun nv => .ok { nv with baseUrl := cleanBaseUrl b }
      | none => .ok sc
    let sc ← addSetupKeys req.username req.nimKeys sc
    let sc ← nvidiaMut sc fun nv => .ok { nv with models := ["*"] }
    match req.createClientKey with
    | some name =>
        .ok { sc with clientKeys := sc.clientKeys ++ [mintedKey sha256Hex name req.username raw] }
    | none => .ok sc

/-! ## Two critical sections -/

/-- What a settings request holds when it takes the store lock to commit. -/
inductive Work where
  | nimKeys (req : NimKeysReq)
  | clients (req : ClientsReq)
  | upstream (baseUrl : String)
  | server (req : ServerReq)
  | routing (req : RoutingCfg)
  | limits (req : LimitsReq)
  | history (req : HistoryReq)
  | governor (req : GovernorReq)
  | users (req : UsersReq) (newHash : Option String)
  | password (verifiedHash newHash : String)
  | accountLocale (locale : Option String)
  | locale (locale : String)

/-- The critical section up to `commit`; `raw` is what it draws for a secret. -/
def Work.edit (sha256Hex : String → String) (sc : StoredConfig) (caller : String) (raw : List UInt8) :
    Work → Except Stop StoredConfig
  | .nimKeys req => Settings.nimKeys sha256Hex sc caller req
  | .clients req => Settings.clients sha256Hex sc caller req raw
  | .upstream baseUrl => Settings.upstream sc caller baseUrl
  | .server req => Settings.server sc caller req
  | .routing req => Settings.routing sc caller req
  | .limits req => Settings.limits sc caller req
  | .history req => Settings.history sc caller req
  | .governor req => governorCfg sc caller req
  | .users req newHash => Settings.users sc caller req newHash
  | .password verifiedHash newHash => applyPasswordChange sc caller verifiedHash newHash
  | .accountLocale l => Settings.accountLocale sc caller l
  | .locale l => Settings.locale sc caller l

variable {τ : Type} (P : Primitives τ)

/-- `account` before it takes the lock to commit. -/
def arriveAccount (sc : StoredConfig) (caller : String) (salt : List UInt8) :
    AccountBody → Except Stop Work
  | .invalidAction => .error (.refuse 400 "invalid_action" "account action must be locale")
  | .invalidLocale => .error (.refuse 400 "invalid_locale" "locale is not valid")
  | .locale none => .ok (.accountLocale none)
  | .locale (some locale) =>
      match installedLocale locale with
      | .ok locale => .ok (.accountLocale (some locale))
      | .error e => .error (localeErrorResponse e)
  | .password current new =>
      if Text.len new < 10 then .error weakPassword
      else
        match sc.hashOf caller with
        | none => .error staleSession
        | some hash =>
            if P.verifyPassword current hash then .ok (.password hash (P.hashPassword new salt))
            else .error (.refuse 403 "wrong_password" "current password is incorrect")

/-- What a handler does before it takes the lock to commit, on the store it reads then. -/
def arrive (sc : StoredConfig) (caller : String) (salt : List UInt8) : SettingsReq → Except Stop Work
  | .nimKeys req => .ok (.nimKeys req)
  | .clients req => .ok (.clients req)
  | .upstream baseUrl => .ok (.upstream baseUrl)
  | .server req => .ok (.server req)
  | .routing req => .ok (.routing req)
  | .limits req => .ok (.limits req)
  | .history req => .ok (.history req)
  | .governor req => .ok (.governor req)
  | .users req => do
      requireAdmin sc caller
      let password ← usersPassword req
      .ok (.users req (password.map fun p => P.hashPassword p salt))
  | .account body => arriveAccount P sc caller salt body
  | .locale locale => do
      adminOnly "server settings require an admin" sc caller
      match installedLocale locale with
      | .ok locale => .ok (.locale locale)
      | .error e => .error (localeErrorResponse e)

/-- `setup_submit` before it takes the lock; `admitted` is the answer of the pre-auth throttle. -/
def arriveSetup (setupRequired admitted : Bool) (salt : List UInt8) (body : SetupBody) :
    Except Stop (SetupReq × String) :=
  if !setupRequired then .error setupComplete
  else if Text.len body.req.password < 10 then .error weakPassword
  else if !admitted then
    .error (.refuse 429 "throttled" "too many validation attempts, try again shortly")
  else .ok (body.req, P.hashPassword body.req.password salt)

/-! ## What the handlers do -/

section Specs

variable {α β : Type} {sc sc' : StoredConfig} {caller message : String}

theorem bind_eq_ok {x : Except Stop α} {f : α → Except Stop β} {b : β} :
    x >>= f = .ok b ↔ ∃ a, x = .ok a ∧ f a = .ok b := by
  cases x with
  | error e => simp [bind, Except.bind]
  | ok a => simp [bind, Except.bind]

theorem map_eq_ok {x : Except Stop α} {f : α → β} {b : β} :
    x.map f = .ok b ↔ ∃ a, x = .ok a ∧ f a = b := by
  cases x with
  | error e => simp [Except.map]
  | ok a => simp [Except.map]

theorem nvidiaMut_eq_ok {f : ProviderDef → Except Stop ProviderDef} :
    nvidiaMut sc f = .ok sc' ↔ ∃ nv nv', sc.nvidia = some nv ∧ f nv = .ok nv' ∧
      { sc with providers := updateFirst (·.name == "nvidia") (fun _ => nv') sc.providers } = sc' := by
  unfold nvidiaMut
  split
  · rename_i hnone
    simp [hnone]
  · rename_i nv hsome
    simp [hsome, map_eq_ok]

theorem nvidiaMut_users {f : ProviderDef → Except Stop ProviderDef} (h : nvidiaMut sc f = .ok sc') :
    sc'.users = sc.users := by
  obtain ⟨nv, nv', -, -, rfl⟩ := nvidiaMut_eq_ok.mp h
  rfl

theorem adminOnly_eq_ok {u : Unit} (h : adminOnly message sc caller = .ok u) :
    ∃ r, sc.roleOf caller = some r ∧ r.isAdmin = true := by
  unfold adminOnly at h
  split at h
  · rename_i r hr
    split at h
    · rename_i hadmin
      exact ⟨r, hr, hadmin⟩
    · cases h
  · cases h

/-- The role check of `users` is the one of the other handlers. -/
theorem requireAdmin_eq (sc : StoredConfig) (caller : String) :
    requireAdmin sc caller = adminOnly "user management requires an admin" sc caller := rfl

/-- No role check lets a plain user through. -/
theorem not_adminOnly {u : Unit} (hrole : sc.roleOf caller = some .user) :
    adminOnly message sc caller ≠ .ok u := by
  intro h
  obtain ⟨r, hr, hadmin⟩ := adminOnly_eq_ok h
  rw [hrole] at hr
  cases hr
  cases hadmin

/-- `updateUser` is the search of `iter_mut().find(..)`. -/
theorem updateUser_eq (username : String) (f : User → User) (l : List User) :
    updateUser username f l = updateFirst (·.username == username) f l := by
  induction l with
  | nil => rfl
  | cons u rest ih => simp [updateUser, updateFirst, ih]

/-- Removing a user's NIM keys goes through `nvidiaMut` too. -/
theorem retainNvidiaKeys_eq (sc : StoredConfig) (keep : ProviderKey → Bool) :
    retainNvidiaKeys sc keep = nvidiaMut sc fun nv => .ok { nv with keys := nv.keys.filter keep } := by
  have hfirst : ∀ (ps : List ProviderDef) nv, ps.find? (·.name == "nvidia") = some nv →
      retainNvidiaKeys.retainFirst keep ps =
        updateFirst (·.name == "nvidia") (fun _ => { nv with keys := nv.keys.filter keep }) ps := by
    intro ps nv hnv
    induction ps with
    | nil => rfl
    | cons p rest ih =>
        rw [List.find?_cons] at hnv
        by_cases hp : p.name = "nvidia"
        · simp only [hp, beq_self_eq_true, Option.some.injEq] at hnv
          subst hnv
          simp [retainNvidiaKeys.retainFirst, updateFirst, hp]
        · have hne : (p.name == "nvidia") = false := by simpa using hp
          rw [hne] at hnv
          simp [retainNvidiaKeys.retainFirst, updateFirst, hp, ih hnv]
  unfold retainNvidiaKeys nvidiaMut
  cases hsome : sc.nvidia with
  | none => rfl
  | some nv =>
      show Except.ok _ = Except.ok _
      rw [hfirst sc.providers nv hsome]

end Specs

end Flock.Settings
