/-
# Flock.Settings — the store edits behind the settings endpoints.

Every write builds a candidate from the current store, and `commit` checks and saves it before
anything is published (`persist` is that half).  The user endpoints edit the list of users: an
administrator adds, removes, resets and re-roles, a user changes its own password.  What matters
beyond the texts of the refusals is whose stored hash an edit can touch (`Touches`).
-/
import Flock.Config

namespace Flock

/-- Why `commit` refused. -/
inductive CommitError where
  | invalid (e : ConfigError)
  | write (e : String)

/-- The text of the refusal. -/
def CommitError.message (quote : String → String) : CommitError → String
  | .invalid e => e.message quote
  | .write e => "cannot write the config store: " ++ e

/-- The first half of `commit`: sync the mirror, check, save. `saved` is the answer of the file
system; the result is what will be published. -/
def persist (candidate : StoredConfig) (saved : Except String Unit) :
    Except CommitError StoredConfig :=
  match validate candidate.syncUpstreamMirror with
  | .error e => .error (.invalid e)
  | .ok () =>
      match saved with
      | .error e => .error (.write e)
      | .ok () => .ok candidate.syncUpstreamMirror

theorem persist_ok {candidate stored : StoredConfig} {saved : Except String Unit}
    (h : persist candidate saved = .ok stored) :
    stored = candidate.syncUpstreamMirror ∧ (validate stored).isOk = true := by
  unfold persist at h
  split at h
  · cases h
  · rename_i hvalid
    split at h
    · cases h
    · cases h
      exact ⟨rfl, by rw [hvalid]; rfl⟩

/-! ## Requests -/

/-- How a handler stops early: an error answer, or a panic. -/
inductive Stop where
  | refuse (status : ℕ) (code message : String)
  | panic (message : String)
  deriving DecidableEq, Repr

/-- `forbidden`. -/
def forbidden (message : String) : Stop := .refuse 403 "forbidden" message

/-- `bad_request`. -/
def badRequest (message : String) : Stop := .refuse 400 "invalid_config" message

/-- `stale_session`. -/
def staleSession : Stop := .refuse 401 "unauthorized" "your user no longer exists"

/-- The refusal of a short password. -/
def weakPassword : Stop :=
  .refuse 400 "weak_password" "password must be at least 10 characters"

/-- `AddUser`. -/
structure AddUser where
  username : String
  password : String
  role : String
  deriving DecidableEq, Repr

/-- `ResetPassword`. -/
structure ResetPassword where
  username : String
  newPassword : String
  deriving DecidableEq, Repr

/-- `SetRole`. -/
structure SetRole where
  username : String
  role : String
  deriving DecidableEq, Repr

/-- `UsersReq`: exactly one of the four is meant to be there. -/
structure UsersReq where
  add : Option AddUser := none
  remove : Option String := none
  resetPassword : Option ResetPassword := none
  setRole : Option SetRole := none
  deriving DecidableEq, Repr

/-- `parse_role`: the superuser is never assignable. -/
def parseRole (s : String) : Option Role :=
  if s = "admin" then some .admin else if s = "user" then some .user else none

namespace StoredConfig

/-- `role_of`. -/
def roleOf (sc : StoredConfig) (username : String) : Option Role :=
  (sc.user username).map (·.role)

/-- The stored hash of a user. -/
def hashOf (sc : StoredConfig) (username : String) : Option String :=
  (sc.user username).map (·.passwordHash)

end StoredConfig

/-- The role check of `users`, made before and again after the password is hashed. -/
def requireAdmin (sc : StoredConfig) (username : String) : Except Stop Unit :=
  match sc.roleOf username with
  | some r => if r.isAdmin then .ok () else .error (forbidden "user management requires an admin")
  | none => .error staleSession

/-- The password `users` has to hash, if the request has one. -/
def usersPassword (req : UsersReq) : Except Stop (Option String) :=
  match req.add, req.resetPassword with
  | some a, none => if Text.len a.password < 10 then .error weakPassword else .ok (some a.password)
  | none, some r =>
      if Text.len r.newPassword < 10 then .error weakPassword else .ok (some r.newPassword)
  | _, _ => .ok none

/-- The user with another stored hash. -/
def User.withHash (hash : String) (u : User) : User := { u with passwordHash := hash }

/-- The user with another role. -/
def User.withRole (role : Role) (u : User) : User := { u with role := role }

/-- Rewrite the first user of a name, as `iter_mut().find(..)` does. -/
def updateUser (username : String) (f : User → User) : List User → List User
  | [] => []
  | u :: rest => if u.username = username then f u :: rest else u :: updateUser username f rest

/-- `nvidia_mut().keys.retain(..)`. -/
def retainNvidiaKeys (sc : StoredConfig) (keep : ProviderKey → Bool) :
    Except Stop StoredConfig :=
  match sc.nvidia with
  | none => .error (.panic "nvidia provider is always seeded")
  | some _ => .ok { sc with providers := retainFirst sc.providers }
where
  /-- The first NVIDIA record loses the keys. -/
  retainFirst : List ProviderDef → List ProviderDef
    | [] => []
    | p :: rest =>
        if p.name = "nvidia" then { p with keys := p.keys.filter keep } :: rest
        else p :: retainFirst rest

/-- `add`: a new record at the end. -/
def addUser (sc : StoredConfig) (add : AddUser) (newHash : Option String) :
    Except Stop StoredConfig :=
  match parseRole add.role, newHash with
  | none, _ => .error (badRequest "role must be \"admin\" or \"user\"")
  | some _, none => .error (.panic "hashed above")
  | some role, some hash =>
      .ok { sc with users := sc.users ++ [⟨Text.trim add.username, hash, role, none⟩] }

/-- `remove`: the user, its NVIDIA keys and its client keys. -/
def removeUser (sc : StoredConfig) (target : String) : Except Stop StoredConfig :=
  match sc.user target with
  | none => .error (badRequest "no such user")
  | some u =>
      if u.role = .superuser then .error (forbidden "the superuser can never be deleted")
      else
        (retainNvidiaKeys { sc with users := sc.users.filter fun u => u.username != target }
          fun k => k.owner != target).map fun sc =>
            { sc with clientKeys := sc.clientKeys.filter fun c => c.owner != target }

/-- `reset_password`: anyone's but the superuser's. -/
def resetPassword (sc : StoredConfig) (reset : ResetPassword) (newHash : Option String) :
    Except Stop StoredConfig :=
  match sc.user reset.username, newHash with
  | none, _ => .error (badRequest "no such user")
  | some u, newHash =>
      if u.role = .superuser then
        .error (forbidden
          "the superuser's password can only be changed by the superuser (Account settings)")
      else match newHash with
        | none => .error (.panic "hashed above")
        | some hash =>
            .ok { sc with users := updateUser reset.username (User.withHash hash) sc.users }

/-- `set_role`. -/
def setUserRole (sc : StoredConfig) (set : SetRole) : Except Stop StoredConfig :=
  match parseRole set.role with
  | none => .error (badRequest "role must be \"admin\" or \"user\"")
  | some role =>
      match sc.user set.username with
      | none => .error (badRequest "no such user")
      | some u =>
          if u.role = .superuser then .error (forbidden "the superuser's role is immutable")
          else .ok { sc with users := updateUser set.username (User.withRole role) sc.users }

/-- The edit of `users`. -/
def usersEdit (sc : StoredConfig) (req : UsersReq) (newHash : Option String) :
    Except Stop StoredConfig :=
  match req.add, req.remove, req.resetPassword, req.setRole with
  | some add, none, none, none => addUser sc add newHash
  | none, some target, none, none => removeUser sc target
  | none, none, some reset, none => resetPassword sc reset newHash
  | none, none, none, some set => setUserRole sc set
  | _, _, _, _ =>
      .error (badRequest "send exactly one of add / remove / reset_password / set_role")

/-- `apply_password_change`, with the answers of `account`: the change is refused unless the stored
hash is still the one that was verified. -/
def applyPasswordChange (sc : StoredConfig) (username verifiedHash newHash : String) :
    Except Stop StoredConfig :=
  match sc.user username with
  | none => .error staleSession
  | some u =>
      if u.passwordHash ≠ verifiedHash then
        .error (.refuse 409 "password_changed"
          "your password was changed while this request was in flight; log in again")
      else .ok { sc with users := updateUser username (User.withHash newHash) sc.users }

/-! ## Whose hash an edit touches -/

/-- The user whose stored hash a request is about, if it is about one. -/
def UsersReq.target (req : UsersReq) : Option String :=
  match req.add, req.remove, req.resetPassword, req.setRole with
  | some add, none, none, none => some (Text.trim add.username)
  | none, some target, none, none => some target
  | none, none, some reset, none => some reset.username
  | _, _, _, _ => none

/-- `sc'` has the stored hashes of `sc`, but perhaps for `target`. -/
def Touches (target : Option String) (sc sc' : StoredConfig) : Prop :=
  ∀ u, some u ≠ target → sc'.hashOf u = sc.hashOf u

variable {sc sc' : StoredConfig}

theorem find_updateUser_of_ne {username u : String} (h : u ≠ username) (f : User → User)
    (hf : ∀ x, (f x).username = x.username) (l : List User) :
    (updateUser username f l).find? (·.username == u) = l.find? (·.username == u) := by
  induction l with
  | nil => rfl
  | cons x rest ih =>
      unfold updateUser
      split
      · rename_i hx
        have hne : (x.username == u) = false := by
          rw [hx]
          simpa using Ne.symm h
        simp [hf, hne]
      · simp only [List.find?_cons, ih]

theorem map_find_updateUser {β : Type} {username u : String} (g : User → β) (f : User → User)
    (hf : ∀ x, (f x).username = x.username) (hg : ∀ x, g (f x) = g x) (l : List User) :
    ((updateUser username f l).find? (·.username == u)).map g =
      (l.find? (·.username == u)).map g := by
  induction l with
  | nil => rfl
  | cons x rest ih =>
      unfold updateUser
      split
      · simp only [List.find?_cons, hf]
        split <;> simp [hg]
      · simp only [List.find?_cons]
        split
        · rfl
        · exact ih

theorem touches_updateUser {username : String} (f : User → User)
    (hf : ∀ x, (f x).username = x.username) (hsc' : sc'.users = updateUser username f sc.users) :
    Touches (some username) sc sc' := by
  intro u hu
  have hne : u ≠ username := fun h => hu (h ▸ rfl)
  unfold StoredConfig.hashOf StoredConfig.user
  rw [hsc', find_updateUser_of_ne hne f hf]

theorem retainNvidiaKeys_users {keep : ProviderKey → Bool} (h : retainNvidiaKeys sc keep = .ok sc') :
    sc'.users = sc.users := by
  unfold retainNvidiaKeys at h
  split at h
  · cases h
  · cases h
    rfl

theorem addUser_touches {add : AddUser} {newHash : Option String}
    (h : addUser sc add newHash = .ok sc') : Touches (some (Text.trim add.username)) sc sc' := by
  unfold addUser at h
  split at h
  · cases h
  · cases h
  · cases h
    intro u hu
    have hne : (Text.trim add.username == u) = false := by
      simpa using fun heq : Text.trim add.username = u => hu (heq ▸ rfl)
    simp [StoredConfig.hashOf, StoredConfig.user, List.find?_append, hne]

theorem removeUser_touches {target : String} (h : removeUser sc target = .ok sc') :
    Touches (some target) sc sc' := by
  unfold removeUser at h
  split at h
  · cases h
  · split at h
    · cases h
    · cases hret : retainNvidiaKeys { sc with users := sc.users.filter fun u => u.username != target }
          (fun k => k.owner != target) with
      | error e =>
          rw [hret] at h
          cases h
      | ok sc₁ =>
          rw [hret] at h
          cases h
          intro u hu
          have hne : u ≠ target := fun heq => hu (heq ▸ rfl)
          have husers := retainNvidiaKeys_users hret
          simp only [StoredConfig.hashOf, StoredConfig.user, husers, List.find?_filter]
          congr 2
          funext x
          by_cases hx : x.username = u
          · simp [hx, hne]
          · simp [hx]

theorem resetPassword_touches {reset : ResetPassword} {newHash : Option String}
    (h : resetPassword sc reset newHash = .ok sc') : Touches (some reset.username) sc sc' := by
  unfold resetPassword at h
  split at h
  · cases h
  · split at h
    · cases h
    · split at h
      · cases h
      · cases h
        exact touches_updateUser (User.withHash _) (fun _ => rfl) rfl

theorem setUserRole_touches {set : SetRole} (h : setUserRole sc set = .ok sc') :
    Touches none sc sc' := by
  unfold setUserRole at h
  split at h
  · cases h
  · split at h
    · cases h
    · split at h
      · cases h
      · cases h
        intro u _
        exact map_find_updateUser User.passwordHash (User.withRole _) (fun _ => rfl) (fun _ => rfl) _

/-- **`users` touches the hash of its target only.** -/
theorem usersEdit_touches {req : UsersReq} {newHash : Option String}
    (h : usersEdit sc req newHash = .ok sc') : Touches req.target sc sc' := by
  unfold usersEdit at h
  split at h
  · rename_i add hadd hremove hreset hset
    simp only [UsersReq.target, hadd, hremove, hreset, hset]
    exact addUser_touches h
  · rename_i target hadd hremove hreset hset
    simp only [UsersReq.target, hadd, hremove, hreset, hset]
    exact removeUser_touches h
  · rename_i reset hadd hremove hreset hset
    simp only [UsersReq.target, hadd, hremove, hreset, hset]
    exact resetPassword_touches h
  · rename_i set hadd hremove hreset hset
    simp only [UsersReq.target, hadd, hremove, hreset, hset]
    exact setUserRole_touches h
  · cases h

/-- **A password change touches the hash of its user only.** -/
theorem applyPasswordChange_touches {username verifiedHash newHash : String}
    (h : applyPasswordChange sc username verifiedHash newHash = .ok sc') :
    Touches (some username) sc sc' := by
  unfold applyPasswordChange at h
  split at h
  · cases h
  · split at h
    · cases h
    · cases h
      exact touches_updateUser (User.withHash newHash) (fun _ => rfl) rfl

theorem Touches.sync {target : Option String} (h : Touches target sc sc') :
    Touches target sc sc'.syncUpstreamMirror := by
  have husers : sc'.syncUpstreamMirror.users = sc'.users := by
    unfold StoredConfig.syncUpstreamMirror
    split <;> rfl
  intro u hu
  unfold StoredConfig.hashOf StoredConfig.user
  rw [husers]
  exact h u hu

end Flock
