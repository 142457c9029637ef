/-
# Flock.Settings.Authority — who owns the keys of a claimed store, and what a plain user can change.

The settings writer as a system: a request arrives, waits while others have the store lock, and commits.  The
process starts with the store it loaded, or a fresh one.

`validate` guards ownership and the pool floor of every store that is published, so what the handlers must
keep themselves is the superuser (`edit_superusers`), and what bounds a plain user is each handler's own
check (`edit_beyond`).  Roles and hashes may have changed since the request arrived; nothing here depends on
what it found then.
-/
import Flock.Config.Json
import Flock.Settings.Handlers

namespace Flock

open Lib (System updateFirst)

namespace Settings

/-! ## The system

A request is checked when it arrives, may hash a password outside the lock, and is applied to whatever the store has
become by then.  So a request is not one step but up to three, and other requests come between them. -/

/-- Where a request stands between two critical sections. -/
inductive Waiting where
  | settings (caller : String) (work : Work)
  | setup (req : SetupReq) (hash : String)
  /-- A setup that committed, and has not cleared `setup_required` yet. -/
  | claimed

/-- The store behind its mutex, and the requests that wait for it. -/
structure SettingsState where
  store : StoredConfig
  setupRequired : Bool
  /-- The panic that left the mutex poisoned. -/
  poisoned : Option String
  waiting : ℕ → Option Waiting

/-- The critical sections; `commit` is the one that ends in the commit. -/
inductive SettingsEvent where
  | request (id : ℕ) (caller : String) (req : SettingsReq) (salt : List UInt8)
  | setup (id : ℕ) (body : SetupBody) (admitted : Bool) (salt : List UInt8)
  | commit (id : ℕ) (raw : List UInt8) (saved : Except String Unit)
  | claimed (id : ℕ)

namespace SettingsState

variable {τ : Type} (P : Primitives τ) (sha256Hex : String → String)

/-- A process start. -/
def boot (stored : StoredConfig) : SettingsState where
  store := stored
  setupRequired := stored.superuser.isNone
  poisoned := none
  waiting := fun _ => none

/-- The other requests wait on. -/
def setWaiting (s : SettingsState) (id : ℕ) (w : Option Waiting) : SettingsState :=
  { s with waiting := Function.update s.waiting id w }

/-- The end of a critical section that commits; `next` is where the request stands if that worked. -/
def finish (s : SettingsState) (id : ℕ) (next : Option Waiting) (candidate : Except Stop StoredConfig)
    (saved : Except String Unit) : SettingsState :=
  match candidate with
  | .error (.panic message) => { s.setWaiting id none with poisoned := some message }
  | .error (.refuse ..) => s.setWaiting id none
  | .ok candidate =>
      match persist candidate saved with
      | .error _ => s.setWaiting id none
      | .ok stored => { s.setWaiting id next with store := stored }

/-- One critical section.  Whoever locks a poisoned mutex panics, and nothing moves any more. -/
def step (s : SettingsState) (e : SettingsEvent) : Option SettingsState :=
  if s.poisoned.isSome then none
  else
    match e with
    | .request id caller req salt =>
        match s.waiting id with
        | some _ => none
        | none =>
            -- `require_session` turns everything away before the claim
            if s.setupRequired then some s
            else
              match arrive P s.store caller salt req with
              | .error _ => some s
              | .ok work => some (s.setWaiting id (some (.settings caller work)))
    | .setup id body admitted salt =>
        match s.waiting id with
        | some _ => none
        | none =>
            match arriveSetup P s.setupRequired admitted salt body with
            | .error _ => some s
            | .ok (req, hash) => some (s.setWaiting id (some (.setup req hash)))
    | .commit id raw saved =>
        match s.waiting id with
        | some (.settings caller work) =>
            some (s.finish id none (work.edit sha256Hex s.store caller raw) saved)
        | some (.setup req hash) =>
            some (s.finish id (some .claimed) (setupSubmit sha256Hex s.store req hash raw) saved)
        | _ => none
    | .claimed id =>
        match s.waiting id with
        | some .claimed => some { s.setWaiting id none with setupRequired := false }
        | _ => none

end SettingsState

/-- Runs from every store a process can start with. -/
def settingsSystem {τ : Type} (P : Primitives τ) (sha256Hex : String → String) (L : Loader) :
    System SettingsState SettingsEvent :=
  .ofStep (fun s => ∃ dir read stored, L.start dir read = .ok stored ∧ s = SettingsState.boot stored)
    (SettingsState.step P sha256Hex)

/-- The authenticated caller that a critical section is executed by. -/
def SettingsEvent.caller (s : SettingsState) : SettingsEvent → Option String
  | .request _ caller _ _ => some caller
  | .commit id _ _ =>
      match s.waiting id with
      | some (.settings caller _) => some caller
      | _ => none
  | .setup .. | .claimed _ => none

/-! ## What a step can do

What any of these steps leaves in the store: what was there, or the candidate of the handler that commits. -/

namespace SettingsState

variable {τ : Type} {P : Primitives τ} {sha256Hex : String → String} {s s' : SettingsState}

/-- The end of a critical section: the store stands, or it is the candidate, synced and valid. -/
theorem finish_store (id : ℕ) (next : Option Waiting) (candidate : Except Stop StoredConfig)
    (saved : Except String Unit) :
    (s.finish id next candidate saved).store = s.store ∨
      ∃ sc, candidate = .ok sc ∧ (s.finish id next candidate saved).store = sc.syncUpstreamMirror ∧
        (validate sc.syncUpstreamMirror).isOk = true := by
  unfold finish
  split
  · exact .inl rfl
  · exact .inl rfl
  · rename_i sc
    split
    · exact .inl rfl
    · rename_i stored hp
      obtain ⟨rfl, hvalid⟩ := persist_ok hp
      exact .inr ⟨sc, rfl, rfl, hvalid⟩

/-- **Every critical section, as far as the store goes.** -/
theorem step_store {e : SettingsEvent} (h : s.step P sha256Hex e = some s') :
    s'.store = s.store ∨
    ∃ sc, s'.store = sc.syncUpstreamMirror ∧ (validate s'.store).isOk = true ∧
      ((∃ (caller : String) (work : Work) (raw : List UInt8), e.caller s = some caller ∧
          work.edit sha256Hex s.store caller raw = .ok sc) ∨
       (∃ (req : SetupReq) (hash : String) (raw : List UInt8), e.caller s = none ∧
          setupSubmit sha256Hex s.store req hash raw = .ok sc)) := by
  simp only [step, Option.ite_none_left_eq_some] at h
  obtain ⟨-, h⟩ := h
  cases e with
  | request id caller req salt =>
      -- before it commits, a request reads the store and no more
      left
      dsimp only at h
      split at h
      · cases h
      · split at h
        · cases h
          rfl
        · split at h <;> cases h <;> rfl
  | setup id body admitted salt =>
      left
      dsimp only at h
      split at h
      · cases h
      · split at h <;> cases h <;> rfl
  | commit id raw saved =>
      dsimp only at h
      split at h
      · rename_i caller work hw
        cases h
        rcases finish_store id none (work.edit sha256Hex s.store caller raw) saved with
          hsame | ⟨sc, hsc, hstore, hvalid⟩
        · exact .inl hsame
        · exact .inr ⟨sc, hstore, hstore ▸ hvalid,
            .inl ⟨caller, work, raw, by simp [SettingsEvent.caller, hw], hsc⟩⟩
      · rename_i req hash hw
        cases h
        rcases finish_store id (some .claimed) (setupSubmit sha256Hex s.store req hash raw) saved with
          hsame | ⟨sc, hsc, hstore, hvalid⟩
        · exact .inl hsame
        · exact .inr ⟨sc, hstore, hstore ▸ hvalid,
            .inr ⟨req, hash, raw, by simp [SettingsEvent.caller, hw], hsc⟩⟩
      · cases h
  | claimed id =>
      left
      dsimp only at h
      split at h
      · cases h
        rfl
      · cases h

end SettingsState

/-! ## The superuser

Every handler either leaves the list of users alone, or changes it by the four operations of the users page. Each
operation is followed on the names of the superusers. -/

/-- The names of the superusers, in the order of the records. -/
def superusers (sc : StoredConfig) : List String :=
  (sc.users.filter (·.role == .superuser)).map (·.username)

section Superuser

variable {sc sc' : StoredConfig} {caller : String}

/-- The mirror of the upstream is no user. -/
@[simp] theorem superusers_sync (sc : StoredConfig) :
    superusers sc.syncUpstreamMirror = superusers sc := by
  unfold superusers StoredConfig.syncUpstreamMirror
  split <;> rfl

theorem superusers_congr (h : sc'.users = sc.users) : superusers sc' = superusers sc := by
  unfold superusers
  rw [h]

/-- The one superuser of a valid store that has one. -/
theorem superusers_of_valid (h : (validate sc).isOk = true) {su : User} (hsu : sc.superuser = some su) :
    superusers sc = [su.username] := by
  have hone := (accepted_of_validate h).superusers
  unfold validateSuperusers at hone
  split at hone
  · cases hone
  · rename_i hlen
    unfold superusers
    rw [StoredConfig.superuser, ← List.head?_filter] at hsu
    cases hfilter : sc.users.filter (·.role == .superuser) with
    | nil =>
        rw [hfilter] at hsu
        cases hsu
    | cons u rest =>
        rw [hfilter] at hsu hlen
        cases hsu
        have hrest : rest = [] := by
          apply List.eq_nil_of_length_eq_zero
          simp only [List.length_cons] at hlen
          omega
        rw [hrest]
        rfl

/-- Whoever is named there is the record that `superuser` finds. -/
theorem superuser_of_superusers {name : String} (h : superusers sc = [name]) :
    ∃ su, sc.superuser = some su ∧ su.username = name := by
  unfold superusers at h
  rw [StoredConfig.superuser, ← List.head?_filter]
  cases hfilter : sc.users.filter (·.role == .superuser) with
  | nil =>
      rw [hfilter] at h
      cases h
  | cons su rest =>
      rw [hfilter, List.map_cons] at h
      exact ⟨su, rfl, List.head_eq_of_cons_eq h⟩

/-- Rewriting a user's hash or locale. -/
theorem superusers_updateUser {username : String} {f : User → User}
    (hrole : ∀ u, (f u).role = u.role) (hname : ∀ u, (f u).username = u.username)
    (h : sc'.users = updateUser username f sc.users) : superusers sc' = superusers sc := by
  have hview : ∀ us : List User, (us.filter (·.role == .superuser)).map (·.username) =
      ((us.map fun u => (u.role, u.username)).filter (·.1 == .superuser)).map (·.2) := by
    intro us
    simp [List.filter_map, Function.comp_def]
  unfold superusers
  rw [hview, hview, h, updateUser_eq]
  congr 2
  apply Lib.map_updateFirst
  intro u _
  rw [hrole, hname]

/-- The superuser is never assignable. -/
theorem not_superuser_of_parseRole {text : String} {role : Role} (h : parseRole text = some role) :
    role ≠ .superuser := by
  unfold parseRole at h
  split at h
  · cases h
    simp
  · split at h <;> cases h
    simp

/-- A user that is added is no superuser, as that role cannot be assigned. -/
theorem addUser_superusers {add : AddUser} {newHash : Option String} (h : addUser sc add newHash = .ok sc') :
    superusers sc' = superusers sc := by
  unfold addUser at h
  split at h
  · cases h
  · cases h
  · rename_i hparse
    cases h
    simp [superusers, not_superuser_of_parseRole hparse]

/-- A role is set from one that is not the superuser's, to one that is not either. -/
theorem setUserRole_superusers {set : SetRole} (h : setUserRole sc set = .ok sc') :
    superusers sc' = superusers sc := by
  unfold setUserRole at h
  split at h
  · cases h
  · rename_i role hparse
    split at h
    · cases h
    · rename_i u hu
      split at h
      · cases h
      · rename_i hne
        cases h
        unfold superusers
        rw [updateUser_eq, Lib.filter_updateFirst]
        intro x hx
        have hxu : x = u := Option.some.inj (hx.symm.trans hu)
        exact ⟨by simpa [hxu] using hne, by simpa [User.withRole] using not_superuser_of_parseRole hparse⟩

/-- The superuser cannot be removed. -/
theorem removeUser_superusers (hvalid : (validate sc).isOk = true) {target : String}
    (h : removeUser sc target = .ok sc') : superusers sc' = superusers sc := by
  unfold removeUser at h
  split at h
  · cases h
  · rename_i u hu
    split at h
    · cases h
    · rename_i hne
      obtain ⟨sc₁, hretain, rfl⟩ := map_eq_ok.mp h
      show superusers sc₁ = superusers sc
      unfold superusers
      rw [retainNvidiaKeys_users hretain, List.filter_filter]
      congr 1
      apply List.filter_congr
      intro x hx
      -- usernames are distinct, so only the user that was found has the name
      by_cases hname : x.username = target
      · have hxu : x = u := by
          have hfind := validate_user hvalid hx
          rw [hname, hu] at hfind
          exact (Option.some.inj hfind).symm
        simp [hxu, hne]
      · simp [hname]

theorem users_superusers (hvalid : (validate sc).isOk = true) {req : UsersReq} {newHash : Option String}
    (h : Settings.users sc caller req newHash = .ok sc') : superusers sc' = superusers sc := by
  obtain ⟨-, -, h⟩ := bind_eq_ok.mp h
  unfold usersEdit at h
  split at h
  · exact addUser_superusers h
  · exact removeUser_superusers hvalid h
  · unfold resetPassword at h
    split at h
    · cases h
    · split at h
      · cases h
      · split at h
        · cases h
        · cases h
          exact superusers_updateUser (f := User.withHash _) (fun _ => rfl) (fun _ => rfl) rfl
  · exact setUserRole_superusers h
  · cases h

theorem nimKeys_users {sha256Hex : String → String} {req : NimKeysReq}
    (h : nimKeys sha256Hex sc caller req = .ok sc') : sc'.users = sc.users := by
  unfold nimKeys at h
  split at h
  · cases h
  · split at h
    · exact nvidiaMut_users h
    · exact nvidiaMut_users h
    · exact nvidiaMut_users h
    · cases h

theorem clients_users {sha256Hex : String → String} {req : ClientsReq} {raw : List UInt8}
    (h : clients sha256Hex sc caller req raw = .ok sc') : sc'.users = sc.users := by
  unfold clients at h
  split at h
  · cases h
  · split at h
    · cases h
      rfl
    · split at h
      · cases h
      · split at h <;> cases h
        rfl
    · split at h
      · cases h
      · split at h
        · cases h
          rfl
        · split at h <;> cases h
          rfl
    · cases h

/-- An administrator's section leaves the users alone, if its update does. -/
theorem adminSection_users {apply : StoredConfig → StoredConfig}
    (h : adminSection apply sc caller = .ok sc') (happly : (apply sc).users = sc.users) :
    sc'.users = sc.users := by
  obtain ⟨-, -, rfl⟩ := map_eq_ok.mp h
  exact happly

/-- **No handler makes or unmakes a superuser.** -/
theorem edit_superusers (hvalid : (validate sc).isOk = true) {sha256Hex : String → String}
    {raw : List UInt8} {work : Work} (h : work.edit sha256Hex sc caller raw = .ok sc') :
    superusers sc' = superusers sc := by
  cases work with
  -- work that does not touch the users, or another of their fields
  | nimKeys req => exact superusers_congr (nimKeys_users h)
  | clients req => exact superusers_congr (clients_users h)
  | upstream baseUrl =>
      obtain ⟨-, -, hnv⟩ := bind_eq_ok.mp h
      exact superusers_congr (nvidiaMut_users hnv)
  | server req =>
      obtain ⟨-, -, hrest⟩ := bind_eq_ok.mp h
      obtain ⟨sc₁, hnv, hlimits⟩ := bind_eq_ok.mp hrest
      cases hlimits
      have husers := nvidiaMut_users hnv
      exact superusers_congr husers
  | routing req =>
      obtain ⟨-, -, hrest⟩ := bind_eq_ok.mp h
      cases hrest
      rfl
  | limits req => exact superusers_congr (adminSection_users h rfl)
  | history req =>
      unfold Work.edit Settings.history at h
      exact superusers_congr (adminSection_users h rfl)
  | governor req => exact superusers_congr (adminSection_users h rfl)
  -- the users of an administrator's request are checked against the rulebook
  | users req newHash => exact users_superusers hvalid h
  -- a new credential is written to the account of its own name
  | password verifiedHash newHash =>
      simp only [Work.edit, applyPasswordChange] at h
      split at h
      · cases h
      · split at h
        · cases h
        · cases h
          exact superusers_updateUser (f := User.withHash _) (fun _ => rfl) (fun _ => rfl) rfl
  | accountLocale l =>
      simp only [Work.edit, accountLocale] at h
      split at h
      · cases h
      · cases h
        exact superusers_updateUser (f := withLocale _) (fun _ => rfl) (fun _ => rfl) rfl
  | locale l =>
      obtain ⟨-, -, hrest⟩ := bind_eq_ok.mp h
      cases hrest
      rfl

end Superuser

/-! ## What a plain user can change

`beyond` erases from a store what a plain user may change, so that confinement is one equation.  The handlers that a
plain user may call at all are those for keys, for clients, and for the account. -/

/-- A provider without the NIM keys of a user. -/
def withoutKeysOf (caller : String) (p : ProviderDef) : ProviderDef :=
  if p.name = "nvidia" then { p with keys := p.keys.filter (·.owner != caller) } else p

/-- A user record without what its user may change. -/
def withoutOwn (caller : String) (u : User) : User :=
  if u.username = caller then { u with passwordHash := "", locale := none } else u

/-- What is left of a store once everything that `caller` may change as a plain user is taken out, and the
mirror with it. -/
def beyond (caller : String) (sc : StoredConfig) : StoredConfig :=
  { sc with
    upstream := {}
    providers := sc.providers.map (withoutKeysOf caller)
    clientKeys := sc.clientKeys.filter (·.owner != caller)
    users := sc.users.map (withoutOwn caller) }

/-- **`Confined caller sc sc'`** — `sc'` is `sc` but for the keys of `caller`, its password hash and its
locale; and the mirror is the old one with the old store, or the one derived from the new store. -/
structure Confined (caller : String) (sc sc' : StoredConfig) : Prop where
  beyond : beyond caller sc' = beyond caller sc
  mirror : sc' = sc ∨ sc'.syncUpstreamMirror = sc'

section Confinement

variable {sc sc' : StoredConfig} {caller : String} {sha256Hex : String → String} {raw : List UInt8}

theorem Confined.refl (caller : String) (sc : StoredConfig) : Confined caller sc sc := ⟨rfl, .inl rfl⟩

@[simp] theorem beyond_sync (caller : String) (sc : StoredConfig) :
    beyond caller sc.syncUpstreamMirror = beyond caller sc := by
  unfold StoredConfig.syncUpstreamMirror
  split <;> rfl

/-- Publishing a candidate adds the mirror and no more. -/
theorem Confined.of_candidate (h : Settings.beyond caller sc' = Settings.beyond caller sc) :
    Confined caller sc sc'.syncUpstreamMirror where
  beyond := by rw [beyond_sync, h]
  mirror := .inr sc'.syncUpstreamMirror_idem

/-- A new NVIDIA record that differs from the old one in keys of the caller only. -/
theorem nvidiaMut_beyond {f : ProviderDef → Except Stop ProviderDef} (h : nvidiaMut sc f = .ok sc')
    (hf : ∀ nv nv', f nv = .ok nv' → ∃ keys, nv' = { nv with keys } ∧
      keys.filter (·.owner != caller) = nv.keys.filter (·.owner != caller)) :
    beyond caller sc' = beyond caller sc := by
  obtain ⟨nv, nv', hnv, hf', rfl⟩ := nvidiaMut_eq_ok.mp h
  obtain ⟨keys, rfl, hkeys⟩ := hf nv nv' hf'
  have hname : nv.name = "nvidia" := by
    simpa using List.find?_some hnv
  have hmap : (updateFirst (·.name == "nvidia") (fun _ => { nv with keys }) sc.providers).map
      (withoutKeysOf caller) = sc.providers.map (withoutKeysOf caller) := by
    apply Lib.map_updateFirst
    intro x hx
    obtain rfl : nv = x := Option.some.inj (hnv.symm.trans hx)
    simp only [withoutKeysOf, hname, if_true, hkeys]
  unfold beyond
  rw [hmap]

/-- Keys are added under the name of the caller, and removed if they are the caller's. -/
theorem nimKeys_beyond (hrole : sc.roleOf caller = some .user) {req : NimKeysReq}
    (h : nimKeys sha256Hex sc caller req = .ok sc') : beyond caller sc' = beyond caller sc := by
  unfold nimKeys at h
  rw [hrole] at h
  dsimp only at h
  split at h
  · apply nvidiaMut_beyond h
    intro nv nv' hnv
    cases hnv
    exact ⟨_, rfl, by simp [nimKeyRecord]⟩
  · apply nvidiaMut_beyond h
    intro nv nv' hnv
    split at hnv
    · cases hnv
    · rename_i k hk
      split at hnv
      · cases hnv
      · rename_i hown
        cases hnv
        -- the key found is the one removed, and it is the caller's
        have howner : k.owner = caller := by
          by_contra hne
          exact hown ⟨rfl, hne⟩
        refine ⟨_, rfl, Lib.filter_eraseP ?_⟩
        intro x hx
        obtain rfl : k = x := Option.some.inj (hk.symm.trans hx)
        simp [howner]
  · rename_i set _ _ _
    apply nvidiaMut_beyond h
    intro nv nv' hnv
    split at hnv
    · cases hnv
    · rename_i k hk
      split at hnv
      · cases hnv
      · rename_i hown
        cases hnv
        have howner : k.owner = caller := by
          by_contra hne
          exact hown ⟨rfl, hne⟩
        refine ⟨_, rfl, Lib.filter_updateFirst ?_⟩
        intro x hx
        obtain rfl : k = x := Option.some.inj (hk.symm.trans hx)
        simp [SetNimKey.apply, howner]
  · cases h

theorem clients_beyond (hrole : sc.roleOf caller = some .user) {req : ClientsReq}
    (h : clients sha256Hex sc caller req raw = .ok sc') : beyond caller sc' = beyond caller sc := by
  unfold clients at h
  rw [hrole] at h
  dsimp only at h
  split at h
  · cases h
    simp [beyond, mintedKey]
  · split at h
    · cases h
    · rename_i c hc
      split at h
      · cases h
      · rename_i hown
        cases h
        have howner : c.owner = caller := by
          by_contra hne
          exact hown ⟨rfl, hne⟩
        unfold beyond
        rw [Lib.filter_eraseP]
        intro x hx
        obtain rfl : c = x := Option.some.inj (hc.symm.trans hx)
        simp [howner]
  · -- the mode is not a plain user's
    rw [if_pos (show (!Role.user.isAdmin) = true from rfl)] at h
    cases h
  · cases h

/-- Rewriting what the caller's own record may have rewritten. -/
theorem updateUser_beyond {f : User → User} (hf : ∀ u, u.username = caller →
      withoutOwn caller (f u) = withoutOwn caller u)
    (h : sc' = { sc with users := updateUser caller f sc.users }) :
    beyond caller sc' = beyond caller sc := by
  have hmap : (updateUser caller f sc.users).map (withoutOwn caller) =
      sc.users.map (withoutOwn caller) := by
    rw [updateUser_eq]
    apply Lib.map_updateFirst
    intro u hu
    exact hf u (by simpa using List.find?_some hu)
  rw [h]
  unfold beyond
  rw [hmap]

/-- **A plain user's request changes what that user owns.** -/
theorem edit_beyond (hrole : sc.roleOf caller = some .user) {work : Work}
    (h : work.edit sha256Hex sc caller raw = .ok sc') : beyond caller sc' = beyond caller sc := by
  cases work with
  | nimKeys req => exact nimKeys_beyond hrole h
  | clients req => exact clients_beyond hrole h
  | password verifiedHash newHash =>
      simp only [Work.edit, applyPasswordChange] at h
      split at h
      · cases h
      · split at h
        · cases h
        · cases h
          exact updateUser_beyond (f := User.withHash newHash)
            (fun u hu => by simp [withoutOwn, User.withHash, hu]) rfl
  | accountLocale l =>
      simp only [Work.edit, accountLocale] at h
      split at h
      · cases h
      · cases h
        exact updateUser_beyond (f := withLocale l) (fun u hu => by simp [withoutOwn, withLocale, hu]) rfl
  -- the rest is for administrators
  | upstream baseUrl =>
      obtain ⟨u, hadmin, -⟩ := bind_eq_ok.mp h
      exact absurd hadmin (not_adminOnly hrole)
  | server req =>
      obtain ⟨u, hadmin, -⟩ := bind_eq_ok.mp h
      exact absurd hadmin (not_adminOnly hrole)
  | routing req =>
      obtain ⟨u, hadmin, -⟩ := bind_eq_ok.mp h
      exact absurd hadmin (not_adminOnly hrole)
  | limits req =>
      obtain ⟨u, hadmin, -⟩ := map_eq_ok.mp h
      exact absurd hadmin (not_adminOnly hrole)
  | history req =>
      obtain ⟨u, hadmin, -⟩ := map_eq_ok.mp h
      exact absurd hadmin (not_adminOnly hrole)
  | governor req =>
      obtain ⟨u, hadmin, -⟩ := map_eq_ok.mp h
      exact absurd hadmin (not_adminOnly hrole)
  | users req newHash =>
      obtain ⟨u, hadmin, -⟩ := bind_eq_ok.mp h
      rw [requireAdmin_eq] at hadmin
      exact absurd hadmin (not_adminOnly hrole)
  | locale l =>
      obtain ⟨u, hadmin, -⟩ := bind_eq_ok.mp h
      exact absurd hadmin (not_adminOnly hrole)

end Confinement

/-! ## Every run

A store that is published is valid, and a claimed one has exactly one superuser.  Both are kept by every step,
whatever waits. -/

/-- **`Governed sc name`** — `name` is the one superuser, it has an enabled NIM key, and every NIM key and
every client key belongs to somebody. -/
structure Governed (sc : StoredConfig) (name : String) : Prop where
  superuser : superusers sc = [name]
  poolFloor : ∃ p ∈ sc.providers, p.name = "nvidia" ∧ ∃ k ∈ p.keys, k.enabled = true ∧ k.owner = name
  nimKeys : ∀ p ∈ sc.providers, p.name = "nvidia" → ∀ k ∈ p.keys, ∃ u ∈ sc.users, u.username = k.owner
  clientKeys : ∀ c ∈ sc.clientKeys, ∃ u ∈ sc.users, u.username = c.owner

section Runs

variable {τ : Type} {P : Primitives τ} {sha256Hex : String → String} {L : Loader}
  {s s' : SettingsState} {e : SettingsEvent} {es : List SettingsEvent} {sc : StoredConfig}

theorem exists_user_of_isSome {name : String} (h : (sc.user name).isSome = true) :
    ∃ u ∈ sc.users, u.username = name := by
  obtain ⟨u, hu⟩ := Option.isSome_iff_exists.mp h
  have hname : u.username = name := by
    simpa using List.find?_some hu
  exact ⟨u, List.mem_of_find?_eq_some hu, hname⟩

/-- What `validate` has checked of a store with one superuser. -/
theorem governed_of_valid (hvalid : (validate sc).isOk = true) {name : String}
    (hsu : superusers sc = [name]) : Governed sc name := by
  obtain ⟨su, hfind, rfl⟩ := superuser_of_superusers hsu
  have howned := validate_owned hvalid hfind
  have hkeys : ∀ p, sc.nvidia = some p → sc.nvidiaKeys = p.keys := by
    intro p hp
    unfold StoredConfig.nvidiaKeys
    rw [hp]
    rfl
  refine ⟨hsu, ?_, ?_, ?_⟩
  · obtain ⟨k, hk, henabled, howner⟩ := howned.poolFloor
    cases hnv : sc.nvidia with
    | none =>
        unfold StoredConfig.nvidiaKeys at hk
        rw [hnv] at hk
        cases hk
    | some p =>
        rw [hkeys p hnv] at hk
        have hname : p.name = "nvidia" := by
          simpa using List.find?_some hnv
        exact ⟨p, List.mem_of_find?_eq_some hnv, hname, k, hk, henabled, howner⟩
  · intro p hp hname k hk
    have hnv := validate_nvidia hvalid hp hname
    apply exists_user_of_isSome
    exact howned.nimKeys k (by rw [hkeys p hnv]; exact hk)
  · intro c hc
    exact exists_user_of_isSome (howned.clientKeys c hc)

/-- Every store of a run is valid, from the one that was loaded on. -/
theorem reachable_valid (h : (settingsSystem P sha256Hex L).Reachable s) :
    (validate s.store).isOk = true := by
  refine System.Reachable.invariant (I := fun s => (validate s.store).isOk = true) ?_ ?_ h
  · rintro s ⟨dir, read, stored, hstart, rfl⟩
    exact Loader.start_valid hstart
  · intro s e s' hvalid hstep
    rcases SettingsState.step_store hstep with hsame | ⟨-, -, hvalid', -⟩
    · rwa [hsame]
    · exact hvalid'

/-- One step of a claimed store. -/
theorem step_superusers {name : String}
    (h : (validate s.store).isOk = true ∧ superusers s.store = [name])
    (hstep : s.step P sha256Hex e = some s') :
    (validate s'.store).isOk = true ∧ superusers s'.store = [name] := by
  obtain ⟨hvalid, hsu⟩ := h
  rcases SettingsState.step_store hstep with hsame | ⟨sc, hstore, hvalid', hedit | hsetup⟩
  · rw [hsame]
    exact ⟨hvalid, hsu⟩
  · obtain ⟨caller, work, raw, -, hsc⟩ := hedit
    refine ⟨hvalid', ?_⟩
    rw [hstore, superusers_sync, edit_superusers hvalid hsc, hsu]
  · -- a second claimer finds the superuser of the first
    obtain ⟨req, hash, raw, -, hsc⟩ := hsetup
    obtain ⟨su, hfind, -⟩ := superuser_of_superusers hsu
    unfold setupSubmit at hsc
    rw [hfind] at hsc
    cases hsc

/-- One step of a caller that is a plain user. -/
theorem step_confined {caller : String} (hcaller : e.caller s = some caller)
    (hrole : s.store.roleOf caller = some .user) (hstep : s.step P sha256Hex e = some s') :
    Confined caller s.store s'.store := by
  rcases SettingsState.step_store hstep with hsame | ⟨sc, hstore, -, hedit | hsetup⟩
  · rw [hsame]
    exact .refl caller s.store
  · obtain ⟨caller', work, raw, hcaller', hsc⟩ := hedit
    rw [hcaller] at hcaller'
    cases hcaller'
    rw [hstore]
    exact .of_candidate (edit_beyond hrole hsc)
  · obtain ⟨-, -, -, hnone, -⟩ := hsetup
    rw [hcaller] at hnone
    cases hnone

/-- **Authority and ownership.**  However the settings requests interleave, a claimed store keeps its one
superuser, the pool floor and the owners of its keys; and a plain user changes only what it owns. -/
theorem authority_and_ownership {su : User} (h : (settingsSystem P sha256Hex L).Reachable s)
    (hclaimed : s.store.superuser = some su) (hrun : (settingsSystem P sha256Hex L).Run s es s') :
    Governed s'.store su.username ∧
    ∀ e s'' caller, (settingsSystem P sha256Hex L).step s' e s'' → e.caller s' = some caller →
      s'.store.roleOf caller = some .user → Confined caller s'.store s''.store := by
  have hvalid := reachable_valid h
  have hstart : (validate s.store).isOk = true ∧ superusers s.store = [su.username] :=
    ⟨hvalid, superusers_of_valid hvalid hclaimed⟩
  have hend : (validate s'.store).isOk = true ∧ superusers s'.store = [su.username] :=
    hrun.preserves (I := fun s => (validate s.store).isOk = true ∧ superusers s.store = [su.username])
      step_superusers hstart
  constructor
  · exact governed_of_valid hend.1 hend.2
  · intro e s'' caller hstep hcaller hrole
    exact step_confined hcaller hrole hstep

/-- Stand-ins for the primitives, where no digest matters. -/
def plainPrimitives : Primitives String := ⟨fun _ salt _ => salt, id, id⟩

/-- The plain user of a claimed proxy adds a key. -/
theorem authority_and_ownership_guest :
    ∃ s' s'', (settingsSystem plainPrimitives id (.of .small)).step s' (.commit 0 [] (.ok ())) s'' ∧
      s''.store ≠ s'.store ∧ Governed s'.store "ops" ∧ Confined "guest" s'.store s''.store := by
  have hinit : (settingsSystem plainPrimitives id (.of .small)).init (.boot .small) :=
    ⟨⟨some StoredConfig.small.text, none⟩, .ok (), .small,
      Loader.start_of (List.cons_ne_nil _ _) StoredConfig.small_valid, rfl⟩
  have hreach : (settingsSystem plainPrimitives id (.of .small)).Reachable (.boot .small) :=
    ⟨_, [], hinit, .nil _⟩
  have hexec : (System.exec (SettingsState.step plainPrimitives id) (.boot .small)
      [.request 0 "guest" (.nimKeys { add := some ⟨"nvapi-2", none⟩ }) []]).any (fun s =>
        (SettingsEvent.commit 0 [] (.ok ())).caller s == some "guest" &&
        s.store.roleOf "guest" == some .user &&
        (s.step plainPrimitives id (.commit 0 [] (.ok ()))).any fun s'' => s''.store != s.store) = true := by
    decide +kernel
  obtain ⟨s', hrun, hend⟩ := @System.run_of_exec_any _ _ _ _
    (settingsSystem plainPrimitives id (.of .small)).init _ _ hexec
  simp only [Bool.and_eq_true, beq_iff_eq, Option.any_eq_true, bne_iff_ne] at hend
  obtain ⟨⟨hcaller, hrole⟩, s'', hstep, hne⟩ := hend
  have hsu : (SettingsState.boot .small).store.superuser =
      some ⟨"ops", "pbkdf2-sha256$600000$01$01", .superuser, none⟩ := rfl
  have h := authority_and_ownership hreach hsu hrun
  exact ⟨s', s'', hstep, hne, h.1, h.2 _ _ _ hstep hcaller hrole⟩

end Runs

end Settings

end Flock
