/-
# Flock.Settings.View — what `GET /api/config` shows to whom.

The answer is filtered by role before it is serialized.  A plain user gets its own key rows, the access mode and the
aggregate of the pool; `ownView` is what of the store that is.  Two published stores that agree on it give the same
answer, whatever else is in them (`config_shows_own`), and of all the commits only those of the user and of the
administrators can change it (`config_undisturbed`).

The rows come from the downgrade mirror, and the padlock goes by the text of a key.  So both results are about stores
that are their own mirror, as every commit leaves them.
-/
import Mathlib.Data.List.Pairwise
import Flock.Lib.InsertionMap
import Flock.Settings.Authority

namespace Flock

open Lib (System InsertionMap)

/-! ## The live lanes

A lane as the pool shows it.  The durations are cut to milliseconds and kept within 64 bits. -/

/-- `LaneStat`. -/
structure LaneStat where
  key : String
  rpm : ℕ
  inWindow : ℕ
  cooldownMs : ℕ
  deriving DecidableEq, Repr

/-- `Pool::lane_stats`. -/
def Pool.laneStats (p : Pool) (now : ℤ) : List LaneStat :=
  (p.lanes.take p.active).map fun l =>
    { key := l.key
      rpm := l.rpm
      inWindow := (l.sent.filter fun t => decide (Lib.age now t < window)).length
      -- `as_millis() as u64`
      cooldownMs := Lib.age l.cooldownUntil now / millis 1 % 2 ^ 64 }

namespace Settings

/-! ## The answer

Four parts of the answer depend on the role: the key rows, the client keys, the users and the server settings.  A
plain user gets the first two filtered by owner, and of the others nothing. -/

/-- `NimKeyRow`; the live part is absent for a key that holds no lane. -/
structure NimKeyRow where
  cooldownMs : Option ℕ
  enabled : Bool
  fingerprint : String
  guarded : Bool
  inWindow : Option ℕ
  lane : Option ℕ
  last4 : String
  owner : String
  rpm : ℕ
  deriving DecidableEq, Repr

/-- `ClientKeyRow`. -/
structure ClientKeyRow where
  last4 : String
  name : String
  owner : String
  deriving DecidableEq, Repr

/-- `PoolSummary`. -/
structure PoolSummary where
  capacityRpm : ℕ
  enabled : ℕ
  deriving DecidableEq, Repr

/-- What `History::status` reports of the history file. -/
structure HistoryStatus where
  availableFrom : Option ℕ
  compactionPending : Bool
  fileBytes : ℕ
  persistence : String
  deriving DecidableEq, Repr

/-- `HistorySettings`. -/
structure HistorySettings where
  availableFrom : Option ℕ
  compactionPending : Bool
  days : ℕ
  fileBytes : ℕ
  persistence : String
  deriving DecidableEq, Repr

/-- `ServerSettings`. -/
structure ServerSettings where
  baseUrl : String
  dashboard : DashboardCfg
  defaultLocale : String
  governor : GovernorCfg
  history : HistorySettings
  limits : Limits
  deriving DecidableEq

/-- `UserRow`. -/
structure UserRow where
  clientKeys : ℕ
  nimKeys : ℕ
  role : Role
  username : String
  deriving DecidableEq, Repr

/-- `ConfigResponse`. -/
structure ConfigResponse where
  clientKeys : List ClientKeyRow
  locale : Option String
  mode : Mode
  nimKeys : List NimKeyRow
  pool : PoolSummary
  role : Role
  server : Option ServerSettings
  username : String
  users : Option (List UserRow)
  deriving DecidableEq

/-- `stats.get(..)`: index, stamps in the window and cooldown of a lane.  Of two lanes with one key the later one
stands. -/
def laneOf (pool : Pool) (now : ℤ) (key : String) : Option (ℕ × ℕ × ℕ) :=
  InsertionMap.lastEntry key ((pool.laneStats now).zipIdx.map fun entry =>
    (entry.1.key, entry.2, entry.1.inWindow, entry.1.cooldownMs))

/-- The name whose keys the pool floor counts; empty as long as there is no superuser. -/
def floorOwner (sc : StoredConfig) : String := (sc.superuser.map (·.username)).getD ""

/-- `guarded_key`: the superuser's only enabled key. -/
def guardedKey (sc : StoredConfig) : Option String :=
  match sc.upstream.nimKeys.filter fun k => k.enabled && k.owner == floorOwner sc with
  | [k] => some k.key
  | _ => none

/-- A row, with its padlock and the lane that serves the key.  A key without a lane shows no counters. -/
def nimKeyRow (sha256Hex : String → String) (guarded : Option String) (lane : Option (ℕ × ℕ × ℕ)) (k : NimKey) :
    NimKeyRow where
  cooldownMs := lane.map fun l => l.2.2
  enabled := k.enabled
  fingerprint := fingerprint sha256Hex k.key
  guarded := guarded == some k.key
  inWindow := lane.map fun l => l.2.1
  lane := lane.map fun l => l.1
  last4 := last4 k.key
  owner := k.owner
  rpm := k.rpm

/-- A client key is shown by its last four characters only. -/
def clientKeyRow (c : ClientKey) : ClientKeyRow := ⟨c.last4, c.name, c.owner⟩

/-- The settings of the server, together with what the history says of its file. -/
def serverSettings (sc : StoredConfig) (status : HistoryStatus) : ServerSettings where
  baseUrl := sc.upstream.baseUrl
  dashboard := sc.dashboard
  defaultLocale := sc.defaultLocale
  governor := sc.governor
  history := ⟨status.availableFrom, status.compactionPending, sc.historyDays, status.fileBytes, status.persistence⟩
  limits := sc.limits

/-- An account, without its credential. -/
def userRow (sc : StoredConfig) (u : User) : UserRow where
  clientKeys := (sc.clientKeys.filter fun c => c.owner == u.username).length
  nimKeys := (sc.upstream.nimKeys.filter fun k => k.owner == u.username).length
  role := u.role
  username := u.username

/-- `api_config`. -/
def apiConfig (sha256Hex : String → String) (sc : StoredConfig) (pool : Pool) (now : ℤ) (status : HistoryStatus)
    (username : String) : Except Stop ConfigResponse :=
  match sc.roleOf username with
  | none => .error staleSession
  | some role =>
      .ok
        { clientKeys := (sc.clientKeys.filter fun c => role.isAdmin || c.owner == username).map clientKeyRow
          locale := (sc.user username).bind (·.locale)
          mode := sc.mode
          nimKeys := (sc.upstream.nimKeys.filter fun k => role.isAdmin || k.owner == username).map fun k =>
            nimKeyRow sha256Hex (guardedKey sc) (laneOf pool now k.key) k
          pool := ⟨pool.capacityRpm, pool.len⟩
          role
          server := if role.isAdmin then some (serverSettings sc status) else none
          username
          users := if role.isAdmin then some (sc.users.map (userRow sc)) else none }

/-! ## What a plain user's answer depends on

The answer is computed from the whole store.  That little of it matters to a plain user is read off by computing the
answer from the view alone. -/

/-- What a store says to a plain user. -/
structure OwnView where
  role : Option Role
  locale : Option String
  mode : Mode
  nimKeys : List NimKey
  clientKeys : List ClientKeyRow
  deriving DecidableEq

/-- The view of a store: all it takes to answer `u`. -/
def ownView (sc : StoredConfig) (u : String) : OwnView where
  role := sc.roleOf u
  locale := (sc.user u).bind (·.locale)
  mode := sc.mode
  nimKeys := sc.upstream.nimKeys.filter (·.owner == u)
  clientKeys := (sc.clientKeys.filter (·.owner == u)).map clientKeyRow

/-- **`Published sc su`** — a store as a commit publishes it once `su` has claimed the proxy. -/
structure Published (sc : StoredConfig) (su : String) : Prop where
  valid : (validate sc).isOk = true
  superusers : superusers sc = [su]
  mirror : sc.syncUpstreamMirror = sc

section View

variable {sha256Hex : String → String} {sc sc' : StoredConfig} {pool pool' : Pool} {now now' : ℤ}
  {status status' : HistoryStatus} {su su' u caller : String}

/-- A plain user's answer is a function of its view, of the padlocks on its keys and of the pool. -/
theorem apiConfig_congr (hrole : sc.roleOf u = some .user) (hview : ownView sc' u = ownView sc u)
    (hguarded : ∀ k ∈ (ownView sc u).nimKeys, (guardedKey sc' == some k.key) = (guardedKey sc == some k.key))
    (hpool : pool'.capacityRpm = pool.capacityRpm ∧ pool'.len = pool.len)
    (hlanes : ∀ k ∈ (ownView sc u).nimKeys, laneOf pool' now' k.key = laneOf pool now k.key) :
    apiConfig sha256Hex sc' pool' now' status' u = apiConfig sha256Hex sc pool now status u := by
  simp only [ownView, OwnView.mk.injEq] at hview hguarded hlanes
  obtain ⟨hrole', hlocale, hmode, hkeys, hclients⟩ := hview
  have hrows : (sc'.upstream.nimKeys.filter (·.owner == u)).map
        (fun k => nimKeyRow sha256Hex (guardedKey sc') (laneOf pool' now' k.key) k) =
      (sc.upstream.nimKeys.filter (·.owner == u)).map
        (fun k => nimKeyRow sha256Hex (guardedKey sc) (laneOf pool now k.key) k) := by
    rw [hkeys]
    refine List.map_congr_left fun k hk => ?_
    simp only [nimKeyRow, hguarded k hk, hlanes k hk]
  unfold apiConfig
  rw [hrole', hrole]
  simp only [Role.isAdmin, Bool.false_or, Bool.false_eq_true, if_false, hlocale, hmode, hrows, hclients, hpool.1,
    hpool.2]

/-- A published store has the superuser it was claimed by. -/
theorem Published.superuser (h : Published sc su) : ∃ r, sc.superuser = some r ∧ r.username = su :=
  superuser_of_superusers h.superusers

/-- The pool floor counts the keys of the superuser. -/
theorem Published.floorOwner (h : Published sc su) : floorOwner sc = su := by
  obtain ⟨r, hr, hname⟩ := h.superuser
  simp [Settings.floorOwner, hr, hname]

/-- And it is the superuser by its role. -/
theorem Published.roleOf (h : Published sc su) : sc.roleOf su = some .superuser := by
  obtain ⟨r, hr, hname⟩ := h.superuser
  have hrole : r.role = .superuser := by simpa using List.find?_some hr
  rw [← hname, StoredConfig.roleOf, validate_user h.valid (List.mem_of_find?_eq_some hr)]
  exact congrArg some hrole

/-- The mirror row of a key. -/
def mirrorRow (k : ProviderKey) : NimKey := ⟨k.key, k.owner, k.enabled, k.rpm⟩

/-- The mirror rows are those of the keys, in their order: a commit writes them anew. -/
theorem Published.nimKeys (h : Published sc su) : sc.upstream.nimKeys = sc.nvidiaKeys.map mirrorRow := by
  obtain ⟨r, hr, -⟩ := h.superuser
  obtain ⟨k, hk, -⟩ := (validate_owned h.valid hr).poolFloor
  unfold StoredConfig.nvidiaKeys at hk ⊢
  cases hnv : sc.nvidia with
  | none =>
      rw [hnv] at hk
      cases hk
  | some nv =>
      have hmirror := h.mirror
      rw [StoredConfig.syncUpstreamMirror_of_some hnv] at hmirror
      exact (congrArg (fun sc => sc.upstream.nimKeys) hmirror).symm

/-- The literal keys that `validate` accepts are distinct. -/
theorem validateNimKeys_distinct : ∀ {ks : List ProviderKey} {seen : List String},
    (validateNimKeys seen ks).isOk = true →
    (∀ k ∈ ks, k.key ≠ "" → k.key ∉ seen) ∧ ks.Pairwise fun k k' => k.key = k'.key → k.key = ""
  | [], _, _ => ⟨fun _ hk => (nomatch hk), .nil⟩
  | k :: rest, seen, h => by
      unfold validateNimKeys at h
      split at h
      · cases h
      · split at h
        · cases h
        · rename_i hnew
          split at h
          · cases h
          · obtain ⟨hseen, hrest⟩ := validateNimKeys_distinct h
            have hfilled : k.key ≠ "" → ¬ Text.isEmpty k.key = true := fun hne he => hne ((Text.isEmpty_iff _).mp he)
            constructor
            · intro k' hk' hne hmem
              rcases List.mem_cons.mp hk' with rfl | hlater
              · simp [hfilled hne, hmem] at hnew
              · refine hseen k' hlater hne ?_
                split
                · exact hmem
                · exact List.mem_cons_of_mem _ hmem
            · refine .cons (fun k' hk' heq => ?_) hrest
              by_contra hne
              refine hseen k' hk' (heq ▸ hne) ?_
              rw [if_neg (hfilled hne), heq]
              exact List.mem_cons_self

/-- No padlock on a literal key of a plain user: the superuser's key has another text. -/
theorem Published.not_guarded (h : Published sc su) (hrole : sc.roleOf u = some .user) {k : NimKey}
    (hk : k ∈ sc.upstream.nimKeys) (howner : k.owner = u) (hne : k.key ≠ "") : guardedKey sc ≠ some k.key := by
  intro hguarded
  unfold guardedKey at hguarded
  split at hguarded
  · rename_i g hg
    have hmem : g ∈ sc.upstream.nimKeys.filter fun k => k.enabled && k.owner == Settings.floorOwner sc := by
      rw [hg]
      exact List.mem_cons_self
    simp only [List.mem_filter, Bool.and_eq_true, beq_iff_eq, h.floorOwner] at hmem
    obtain ⟨hgmem, -, hgowner⟩ := hmem
    have hkey : g.key = k.key := Option.some.inj hguarded
    rw [h.nimKeys, List.mem_map] at hk hgmem
    obtain ⟨pk, hpk, rfl⟩ := hk
    obtain ⟨pg, hpg, rfl⟩ := hgmem
    obtain ⟨-, hdistinct⟩ := validateNimKeys_distinct (accepted_of_validate h.valid).nimKeys
    have hother : pk ≠ pg := by
      rintro rfl
      rw [← howner, hgowner, h.roleOf] at hrole
      cases hrole
    have : Std.Symm fun k k' : ProviderKey => k.key = k'.key → k.key = "" :=
      ⟨fun k k' hkk' heq => heq.trans (hkk' heq.symm)⟩
    exact hne (hdistinct.forall hpk hpg hother hkey.symm)
  · cases hguarded

/-- **A plain user sees what is its own.**  Two published stores in which a plain user has the same account, the same
NIM keys and client keys, and the same access mode give it the same answer, whatever the rest of them is, as long as
the pools agree on their size and on the lanes of its keys.  Its keys are stored ones: the records of the environment
all have the empty text. -/
theorem config_shows_own (h : Published sc su) (h' : Published sc' su') (hrole : sc.roleOf u = some .user)
    (hview : ownView sc' u = ownView sc u) (hstored : ∀ k ∈ (ownView sc u).nimKeys, k.key ≠ "")
    (hpool : pool'.capacityRpm = pool.capacityRpm ∧ pool'.len = pool.len)
    (hlanes : ∀ k ∈ (ownView sc u).nimKeys, laneOf pool' now' k.key = laneOf pool now k.key) :
    apiConfig sha256Hex sc' pool' now' status' u = apiConfig sha256Hex sc pool now status u := by
  refine apiConfig_congr hrole hview (fun k hk => ?_) hpool hlanes
  have hrole' : sc'.roleOf u = some .user := (congrArg OwnView.role hview).trans hrole
  have hk' : k ∈ (ownView sc' u).nimKeys := hview ▸ hk
  have hne := hstored k hk
  simp only [ownView, List.mem_filter, beq_iff_eq] at hk hk'
  have hopen := h.not_guarded hrole hk.1 hk.2 hne
  have hopen' := h'.not_guarded hrole' hk'.1 hk'.2 hne
  rw [beq_eq_false_iff_ne.mpr hopen, beq_eq_false_iff_ne.mpr hopen']

/-- A claimed proxy that a guest shares; the rest is the superuser's key, the upstream and more users. -/
def sharedStore (opsKey baseUrl : String) (others : List User) : StoredConfig :=
  StoredConfig.syncUpstreamMirror
    { providers := [{ name := "nvidia", baseUrl, models := ["*"],
                      keys := [⟨opsKey, "", "ops", true, 40⟩, ⟨"nvapi-2", "", "guest", true, 40⟩] }]
      users := [⟨"ops", "pbkdf2-sha256$600000$01$01", .superuser, none⟩,
                ⟨"guest", "pbkdf2-sha256$600000$02$02", .user, none⟩] ++ others }

/-- One user more. -/
def mate : User := ⟨"mate", "pbkdf2-sha256$600000$03$03", .user, none⟩

/-- Both stores are as a commit leaves them. -/
theorem sharedStore_published : Published (sharedStore "nvapi-1" "http://up" []) "ops" ∧
    Published (sharedStore "nvapi-9" "http://elsewhere" [mate]) "ops" :=
  ⟨⟨by decide +kernel, by decide +kernel, by decide +kernel⟩, ⟨by decide +kernel, by decide +kernel, by decide +kernel⟩⟩

/-- The pool over the two keys of a shared store. -/
def sharedPool (opsKey : String) : Pool := .new [⟨opsKey, 40, true⟩, ⟨"nvapi-2", 40, true⟩] 0

/-- Another superuser key, another upstream and one more user. -/
theorem config_shows_own_shared :
    sharedStore "nvapi-9" "http://elsewhere" [mate] ≠ sharedStore "nvapi-1" "http://up" [] ∧
    apiConfig id (sharedStore "nvapi-9" "http://elsewhere" [mate]) (sharedPool "nvapi-9") 0 ⟨none, true, 9, "ok"⟩
        "guest" =
      apiConfig id (sharedStore "nvapi-1" "http://up" []) (sharedPool "nvapi-1") 0 ⟨none, false, 0, "ok"⟩
        "guest" := by
  refine ⟨by decide +kernel, ?_⟩
  exact config_shows_own sharedStore_published.1 sharedStore_published.2 (by decide +kernel) (by decide +kernel)
    (by decide +kernel) (by decide +kernel) (by decide +kernel)

end View

/-! ## Who can change it

Every event of the settings has a committer, if it commits at all.  What a plain user commits stays within its own
rows, so it is only the user itself and the administrators that are to be kept out. -/

/-- Who commits in this critical section. -/
def SettingsEvent.committer (s : SettingsState) : SettingsEvent → Option String
  | .commit id _ _ =>
      match s.waiting id with
      | some (.settings caller _) => some caller
      | _ => none
  | .request .. | .setup .. | .claimed _ => none

/-- A critical section in which neither `u` nor an administrator commits. -/
def Bystander (u : String) (s : SettingsState) (e : SettingsEvent) : Prop :=
  ∀ c ∈ e.committer s, c ≠ u ∧ (s.store.roleOf c = none ∨ s.store.roleOf c = some .user)

/-- The committer and its role are read off the event. -/
instance (u : String) (s : SettingsState) (e : SettingsEvent) : Decidable (Bystander u s e) :=
  inferInstanceAs (Decidable (∀ c ∈ e.committer s, c ≠ u ∧ (s.store.roleOf c = none ∨ s.store.roleOf c = some .user)))

section Undisturbed

variable {τ : Type} {P : Primitives τ} {sha256Hex : String → String} {L : Loader} {s s' : SettingsState}
  {e : SettingsEvent} {es : List SettingsEvent} {sc sc' : StoredConfig} {su u caller : String}

/-- A caller without an account edits nothing. -/
theorem edit_stale (hrole : sc.roleOf caller = none) {work : Work} {raw : List UInt8} :
    work.edit sha256Hex sc caller raw ≠ .ok sc' := by
  have huser : sc.user caller = none := Option.map_eq_none_iff.mp hrole
  have hadmin : ∀ {message : String} {v : Unit}, adminOnly message sc caller ≠ .ok v := by
    intro message v h
    obtain ⟨r, hr, -⟩ := adminOnly_eq_ok h
    rw [hrole] at hr
    cases hr
  intro h
  cases work with
  | nimKeys req => simp [Work.edit, nimKeys, hrole] at h
  | clients req => simp [Work.edit, clients, hrole] at h
  | password verifiedHash newHash => simp [Work.edit, applyPasswordChange, huser] at h
  | accountLocale l => simp [Work.edit, accountLocale, huser] at h
  | upstream _ | server _ | routing _ | locale _ =>
      obtain ⟨v, hv, -⟩ := bind_eq_ok.mp h
      exact hadmin hv
  | limits _ | history _ | governor _ =>
      obtain ⟨v, hv, -⟩ := map_eq_ok.mp h
      exact hadmin hv
  | users req newHash =>
      obtain ⟨v, hv, -⟩ := bind_eq_ok.mp h
      exact hadmin (requireAdmin_eq sc caller ▸ hv)

/-! A plain user leaves what is not its own: the accounts, the keys and the padlock of everybody else. -/

/-- The account of `u` is beyond every other plain caller. -/
theorem user_of_beyond (h : beyond caller sc' = beyond caller sc) (hne : u ≠ caller) : sc'.user u = sc.user u := by
  have hfind : ∀ us : List User,
      (us.map (withoutOwn caller)).find? (·.username == u) = us.find? (·.username == u) := by
    intro us
    have hname : ((·.username == u) ∘ withoutOwn caller : User → Bool) = (·.username == u) := by
      funext x
      simp only [Function.comp, withoutOwn]
      split <;> rfl
    rw [List.find?_map, hname]
    cases hx : us.find? (·.username == u) with
    | none => rfl
    | some x =>
        have hx : x.username = u := by simpa using List.find?_some hx
        have hother : x.username ≠ caller := by rw [hx]; exact hne
        simp [withoutOwn, hother]
  have husers : sc'.users.map (withoutOwn caller) = sc.users.map (withoutOwn caller) :=
    congrArg StoredConfig.users h
  calc sc'.user u = (sc'.users.map (withoutOwn caller)).find? (·.username == u) := (hfind _).symm
    _ = (sc.users.map (withoutOwn caller)).find? (·.username == u) := by rw [husers]
    _ = sc.user u := hfind _

theorem nvidiaKeys_of_beyond (h : beyond caller sc' = beyond caller sc) (hne : u ≠ caller) :
    sc'.nvidiaKeys.filter (·.owner == u) = sc.nvidiaKeys.filter (·.owner == u) := by
  have hfind : ∀ sc : StoredConfig, sc.nvidiaKeys.filter (·.owner == u) =
      ((((sc.providers.map (withoutKeysOf caller)).find? (·.name == "nvidia")).map (·.keys)).getD []).filter
        (·.owner == u) := by
    intro sc
    have hname : ((·.name == "nvidia") ∘ withoutKeysOf caller : ProviderDef → Bool) = (·.name == "nvidia") := by
      funext p
      simp only [Function.comp, withoutKeysOf]
      split <;> rfl
    rw [List.find?_map, hname, StoredConfig.nvidiaKeys, StoredConfig.nvidia]
    cases hp : sc.providers.find? (·.name == "nvidia") with
    | none => rfl
    | some p =>
        have hp : p.name = "nvidia" := by simpa using List.find?_some hp
        show p.keys.filter _ = (withoutKeysOf caller p).keys.filter _
        rw [withoutKeysOf, if_pos hp, List.filter_filter]
        refine List.filter_congr fun k _ => ?_
        by_cases howner : k.owner = u
        · simp [howner, hne]
        · simp [howner]
  have hproviders : sc'.providers.map (withoutKeysOf caller) = sc.providers.map (withoutKeysOf caller) :=
    congrArg StoredConfig.providers h
  rw [hfind sc', hfind sc, hproviders]

theorem clientKeys_of_beyond (h : beyond caller sc' = beyond caller sc) (hne : u ≠ caller) :
    sc'.clientKeys.filter (·.owner == u) = sc.clientKeys.filter (·.owner == u) := by
  have hfilter : ∀ cs : List ClientKey,
      cs.filter (·.owner == u) = (cs.filter (·.owner != caller)).filter (·.owner == u) := by
    intro cs
    rw [List.filter_filter]
    refine List.filter_congr fun c _ => ?_
    by_cases howner : c.owner = u
    · simp [howner, hne]
    · simp [howner]
  have hclients : sc'.clientKeys.filter (·.owner != caller) = sc.clientKeys.filter (·.owner != caller) :=
    congrArg StoredConfig.clientKeys h
  rw [hfilter, hclients, ← hfilter]

/-- The rows of one owner. -/
theorem Published.ownKeys (h : Published sc su) (u : String) :
    sc.upstream.nimKeys.filter (·.owner == u) = (sc.nvidiaKeys.filter (·.owner == u)).map mirrorRow := by
  rw [h.nimKeys, List.filter_map]
  rfl

/-- So what `u` is shown of the store is the same. -/
theorem ownView_of_beyond (h : Published sc su) (h' : Published sc' su)
    (hbeyond : beyond caller sc' = beyond caller sc) (hne : u ≠ caller) : ownView sc' u = ownView sc u := by
  have huser := user_of_beyond hbeyond hne
  have hmode : sc'.mode = sc.mode := by
    have hkept := congrArg StoredConfig.mode hbeyond
    exact hkept
  simp only [ownView, StoredConfig.roleOf, huser, hmode, h.ownKeys, h'.ownKeys,
    nvidiaKeys_of_beyond hbeyond hne, clientKeys_of_beyond hbeyond hne]

/-- The padlock of the superuser is beyond a plain caller too. -/
theorem guardedKey_of_beyond (h : Published sc su) (h' : Published sc' su)
    (hbeyond : beyond caller sc' = beyond caller sc) (hne : su ≠ caller) : guardedKey sc' = guardedKey sc := by
  have hfloor : ∀ {sc : StoredConfig}, Published sc su →
      (sc.upstream.nimKeys.filter fun k => k.enabled && k.owner == floorOwner sc) =
        ((sc.nvidiaKeys.filter (·.owner == su)).map mirrorRow).filter (·.enabled) := by
    intro sc h
    rw [h.floorOwner, ← h.ownKeys, List.filter_filter]
  rw [guardedKey, guardedKey, hfloor h, hfloor h', nvidiaKeys_of_beyond hbeyond hne]

/-- Only a commit publishes. -/
theorem store_of_no_commit (h : s.step P sha256Hex e = some s') (hno : ∀ id raw saved, e ≠ .commit id raw saved) :
    s'.store = s.store := by
  simp only [SettingsState.step, Option.ite_none_left_eq_some] at h
  obtain ⟨-, h⟩ := h
  cases e with
  | request id caller req salt =>
      dsimp only at h
      split at h
      · cases h
      · split at h
        · cases h
          rfl
        · split at h <;> cases h <;> rfl
  | setup id body admitted salt =>
      dsimp only at h
      split at h
      · cases h
      · split at h <;> cases h <;> rfl
  | commit id raw saved => exact absurd rfl (hno id raw saved)
  | claimed id =>
      dsimp only at h
      split at h
      · cases h
        rfl
      · cases h

/-- A step in which neither the user nor an administrator commits. -/
theorem step_undisturbed (h : Published s.store su) (hstep : s.step P sha256Hex e = some s')
    (hbystander : Bystander u s e) :
    Published s'.store su ∧ ownView s'.store u = ownView s.store u ∧ guardedKey s'.store = guardedKey s.store := by
  have hsame : s'.store = s.store →
      Published s'.store su ∧ ownView s'.store u = ownView s.store u ∧ guardedKey s'.store = guardedKey s.store := by
    intro heq
    rw [heq]
    exact ⟨h, rfl, rfl⟩
  -- whoever does not commit changes nothing
  by_cases hcommit : ∃ id raw saved, e = .commit id raw saved
  · obtain ⟨id, raw, saved, rfl⟩ := hcommit
    obtain ⟨hvalid', hsu'⟩ := step_superusers ⟨h.valid, h.superusers⟩ hstep
    rcases SettingsState.step_store hstep with heq | ⟨sc, hstore, -, hedit | hsetup⟩
    · exact hsame heq
    · obtain ⟨c, work, raw', hcaller, hsc⟩ := hedit
      -- the committer is another plain user, or has no account any more
      obtain ⟨hne, hnone | hplain⟩ := hbystander c hcaller
      · exact absurd hsc (edit_stale hnone)
      · have hmirror : s'.store.syncUpstreamMirror = s'.store := by
          rw [hstore, StoredConfig.syncUpstreamMirror_idem]
        have h' : Published s'.store su := ⟨hvalid', hsu', hmirror⟩
        have hbeyond : beyond c s'.store = beyond c s.store := by
          rw [hstore, beyond_sync]
          exact edit_beyond hplain hsc
        have hsuperuser : su ≠ c := by
          rintro rfl
          rw [h.roleOf] at hplain
          cases hplain
        exact ⟨h', ownView_of_beyond h h' hbeyond (Ne.symm hne), guardedKey_of_beyond h h' hbeyond hsuperuser⟩
    · -- another claim finds the superuser
      obtain ⟨req, hash, raw', -, hsc⟩ := hsetup
      obtain ⟨r, hr, -⟩ := h.superuser
      unfold setupSubmit at hsc
      rw [hr] at hsc
      cases hsc
  · exact hsame (store_of_no_commit hstep fun id raw saved heq => hcommit ⟨id, raw, saved, heq⟩)

/-- **What a plain user is shown of the store is changed by itself and by the administrators only.**  From a
published store on, in every run in which neither commits, however many others add, change and revoke keys, change
their accounts or try to claim the proxy, the answer is the one that the first store gives, over any pool and at any
time. -/
theorem config_undisturbed (h : Published s.store su) (hrole : s.store.roleOf u = some .user)
    (hrun : ((settingsSystem P sha256Hex L).restrict (Bystander u)).Run s es s') (pool : Pool) (now : ℤ)
    (status : HistoryStatus) :
    apiConfig sha256Hex s'.store pool now status u = apiConfig sha256Hex s.store pool now status u := by
  have hend : Published s'.store su ∧ ownView s'.store u = ownView s.store u ∧
      guardedKey s'.store = guardedKey s.store := by
    refine hrun.preserves (I := fun t => Published t.store su ∧ ownView t.store u = ownView s.store u ∧
      guardedKey t.store = guardedKey s.store) ?_ ⟨h, rfl, rfl⟩
    rintro t e t' ⟨ht, hview, hguarded⟩ ⟨hstep, hbystander⟩
    obtain ⟨ht', hview', hguarded'⟩ := step_undisturbed ht hstep hbystander
    exact ⟨ht', hview'.trans hview, hguarded'.trans hguarded⟩
  obtain ⟨-, hview, hguarded⟩ := hend
  exact apiConfig_congr hrole hview (fun k _ => by rw [hguarded]) ⟨rfl, rfl⟩ fun k _ => rfl

/-- One more user adds a key of its own. -/
def mateAdds : List SettingsEvent :=
  [.request 0 "mate" (.nimKeys { add := some ⟨"nvapi-7", none⟩ }) [], .commit 0 [] (.ok ())]

/-- The answer to `guest` is the same, though the store is another one. -/
theorem config_undisturbed_mate : ∃ s',
    ((settingsSystem plainPrimitives id (.of .small)).restrict (Bystander "guest")).Run
      (.boot (sharedStore "nvapi-9" "http://elsewhere" [mate])) mateAdds s' ∧
    s'.store ≠ sharedStore "nvapi-9" "http://elsewhere" [mate] ∧
    apiConfig id s'.store (sharedPool "nvapi-9") 0 ⟨none, false, 0, "ok"⟩ "guest" =
      apiConfig id (sharedStore "nvapi-9" "http://elsewhere" [mate]) (sharedPool "nvapi-9") 0 ⟨none, false, 0, "ok"⟩
        "guest" := by
  have hexec : (System.exec (System.guardStep (Bystander "guest") (SettingsState.step plainPrimitives id))
      (.boot (sharedStore "nvapi-9" "http://elsewhere" [mate])) mateAdds).any
        (fun s' => s'.store != sharedStore "nvapi-9" "http://elsewhere" [mate]) = true := by
    decide +kernel
  obtain ⟨s', hguarded, hne⟩ := @System.run_of_exec_any _ _ _ _
    (settingsSystem plainPrimitives id (.of .small)).init _ _ hexec
  have hrun := System.Run.restrict_of_guardStep hguarded
  exact ⟨s', hrun, by simpa using hne,
    config_undisturbed (s := .boot _) sharedStore_published.2 (by decide +kernel) hrun _ _ _⟩

end Undisturbed

end Settings

end Flock
