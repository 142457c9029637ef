/-
# Flock.Auth.Basic — header credentials: stored hashes, the memo, and who touches them when.

`identify` looks a presented credential up in a one-entry memo, else reads the stored hash, verifies
off every lock (the derivation is slow on purpose) and writes the memo.  The settings endpoints
commit a change to the users and then clear the memo.  The memo lock and the store lock are separate,
so each call is a sequence of critical sections and any interleaving of these is a run:

    identify     lookup · readHash · verify · memoize
    account      accountRead · accountCommit · clear
    users        usersCheck · usersCommit · clear        (the store lock is held from the commit on)

Ghost: the commits that changed a stored hash, newest first.
-/
import Flock.Lib.Transition
import Flock.Settings

namespace Flock

open Lib (System)

/-! ## Bytes and text -/

/-- The bytes of a string. -/
def utf8 (s : String) : List UInt8 := s.toUTF8.data.toList

theorem utf8_injective : Function.Injective utf8 := by
  intro s s' h
  exact String.toByteArray_inj.mp (ByteArray.ext (Array.toList_inj.mp h))

/-- One hexadecimal digit, lower case. -/
def hexDigit (n : ℕ) : Char := if n < 10 then Char.ofNat (0x30 + n) else Char.ofNat (0x61 + (n - 10))

/-- `hex`. -/
def hex (bytes : List UInt8) : String :=
  String.ofList (bytes.flatMap fun b => [hexDigit (b.toNat / 16), hexDigit (b.toNat % 16)])

/-- `hex_val`. -/
def hexVal (c : Char) : Option ℕ :=
  let n := c.toNat
  if 0x30 ≤ n ∧ n ≤ 0x39 then some (n - 0x30)
  else if 0x61 ≤ n ∧ n ≤ 0x66 then some (n - 0x61 + 10)
  else if 0x41 ≤ n ∧ n ≤ 0x46 then some (n - 0x41 + 10)
  else none

/-- The pairs of `unhex`. -/
def unhexPairs : List Char → Option (List UInt8)
  | [] => some []
  | [_] => none
  | a :: b :: rest =>
      match hexVal a, hexVal b, unhexPairs rest with
      | some hi, some lo, some bytes => some (UInt8.ofNat (16 * hi + lo) :: bytes)
      | _, _, _ => none

/-- `unhex`. -/
def unhex (s : String) : Option (List UInt8) := unhexPairs s.toList

theorem hexVal_hexDigit : ∀ n < 16, hexVal (hexDigit n) = some n := by decide

/-- What `hex` writes, `unhex` reads. -/
theorem unhex_hex (bytes : List UInt8) : unhex (hex bytes) = some bytes := by
  unfold unhex hex
  rw [String.toList_ofList]
  induction bytes with
  | nil => rfl
  | cons b bytes ih =>
      have hb := b.toNat_lt
      rw [List.flatMap_cons]
      show unhexPairs (hexDigit (b.toNat / 16) :: hexDigit (b.toNat % 16) :: bytes.flatMap _) = _
      rw [unhexPairs, hexVal_hexDigit _ (by omega), hexVal_hexDigit _ (by omega), ih]
      show some (UInt8.ofNat (16 * (b.toNat / 16) + b.toNat % 16) :: bytes) = _
      rw [Nat.div_add_mod, UInt8.ofNat_toNat]

theorem hex_injective : Function.Injective hex := by
  intro xs ys h
  have hread := congrArg unhex h
  rw [unhex_hex, unhex_hex] at hread
  exact Option.some.inj hread

/-! ## Stored hashes -/

/-- What the process takes from elsewhere: the key derivation, the keyed digest of a credential under
this boot's signing key, and the debug quoting of the messages. -/
structure Primitives (τ : Type) where
  /-- `pbkdf2_sha256`: password, salt, iterations. -/
  kdf : String → List UInt8 → ℕ → List UInt8
  /-- `Admin::mac` of one part. -/
  mac : String → τ
  quote : String → String

/-- `PBKDF2_ITERS`. -/
def pbkdf2Iters : ℕ := 600000

namespace Primitives

variable {τ : Type} (P : Primitives τ)

/-- `hash_password`, with the salt it draws. -/
def hashPassword (password : String) (salt : List UInt8) : String :=
  "pbkdf2-sha256$" ++ toString pbkdf2Iters ++ "$" ++ hex salt ++ "$" ++
    hex (P.kdf password salt pbkdf2Iters)

/-- `verify_password`: malformed hashes fail closed. -/
def verifyPassword (password stored : String) : Bool :=
  match Text.split '$' stored with
  | [scheme, iters, salt, hash] =>
      scheme == "pbkdf2-sha256" &&
        match Text.parseUnsigned 32 iters, unhex salt with
        | some n, some salt => decide (1 ≤ n) && hex (P.kdf password salt n) == hash
        | _, _ => false
  | _ => false

/-- Whether a password verifies against what the store has for a user. -/
def accepts (hash : Option String) (password : String) : Bool :=
  hash.any (P.verifyPassword password)

/-- `memo_hit`. -/
def memoHit [DecidableEq τ] (memo : Option (τ × String)) (cred : String) : Option String :=
  memo.bind fun entry => if P.mac cred = entry.1 then some entry.2 else none

end Primitives

/-! ## The threads -/

/-- Where an `identify` call with a header credential stands. -/
inductive Call where
  | started (cred : String)
  | missed (cred username password : String)
  | verifying (cred username password hash : String)
  | verified (cred username : String)
  | returned (cred : String) (identity : Option String)
  deriving DecidableEq, Repr

/-- The credential a call presented. -/
def Call.cred : Call → String
  | .started c | .missed c _ _ | .verifying c _ _ _ | .verified c _ | .returned c _ => c

/-- Where a change to the users stands. -/
inductive Change where
  | checking (username storedHash current new : String)
  | hashed (actor : String) (req : UsersReq) (newHash : Option String)
  | committed
  | cleared
  | refused (why : Stop)
  deriving DecidableEq, Repr

/-- Ghost: a commit that wrote the hash of `target` (`none`: the user is gone). -/
structure Commit where
  change : ℕ
  target : String
  hash : Option String
  deriving DecidableEq, Repr

/-- The store of users, the memo, and every thread. -/
structure AuthState (τ : Type) where
  store : StoredConfig
  /-- `scraper_memo`. -/
  memo : Option (τ × String)
  calls : ℕ → Option Call
  changes : ℕ → Option Change
  /-- The change that holds the store lock across its commit and its clear. -/
  lock : Option ℕ
  /-- Ghost: newest first. -/
  commits : List Commit

/-- The critical sections. -/
inductive AuthEvent where
  | begin (id : ℕ) (cred : String)
  | lookup (id : ℕ)
  | readHash (id : ℕ)
  | verify (id : ℕ)
  | memoize (id : ℕ)
  | accountRead (id : ℕ) (username current new : String)
  | accountCommit (id : ℕ) (salt : List UInt8) (saved : Except String Unit)
  | usersCheck (id : ℕ) (actor : String) (req : UsersReq) (salt : List UInt8)
  | usersCommit (id : ℕ) (saved : Except String Unit)
  | clear (id : ℕ)

namespace AuthState

variable {τ : Type} [DecidableEq τ] (P : Primitives τ)

/-- A process start. -/
def boot (stored : StoredConfig) : AuthState τ where
  store := stored
  memo := none
  calls := fun _ => none
  changes := fun _ => none
  lock := none
  commits := []

def setCall (s : AuthState τ) (id : ℕ) (c : Call) : AuthState τ :=
  { s with calls := Function.update s.calls id (some c) }

def setChange (s : AuthState τ) (id : ℕ) (c : Change) : AuthState τ :=
  { s with changes := Function.update s.changes id (some c) }

/-- After the memo was looked up. -/
def afterLookup (s : AuthState τ) (cred : String) : Call :=
  match P.memoHit s.memo cred with
  | some user => .returned cred (some user)
  | none =>
      match Text.splitOnce ':' cred with
      | none => .returned cred none
      | some (username, password) => .missed cred username password

/-- After the stored hash was read. -/
def afterRead (s : AuthState τ) (cred username password : String) : Call :=
  match s.store.hashOf username with
  | none => .returned cred none
  | some hash => .verifying cred username password hash

/-- After the password was verified. -/
def afterVerify (cred username password hash : String) : Call :=
  if P.verifyPassword password hash then .verified cred username else .returned cred none

/-- The first half of `account`. -/
def afterAccountRead (s : AuthState τ) (username current new : String) : Change :=
  if Text.len new < 10 then .refused weakPassword
  else
    match s.store.hashOf username with
    | none => .refused staleSession
    | some hash => .checking username hash current new

/-- The first half of `users`: the role check, then the hash of the password it brings. -/
def afterUsersCheck (s : AuthState τ) (actor : String) (req : UsersReq) (salt : List UInt8) :
    Change :=
  match requireAdmin s.store actor, usersPassword req with
  | .error why, _ => .refused why
  | .ok (), .error why => .refused why
  | .ok (), .ok password => .hashed actor req (password.map fun p => P.hashPassword p salt)

/-- What `account` would publish. -/
def accountCandidate (s : AuthState τ) (username storedHash current new : String)
    (salt : List UInt8) : Except Stop StoredConfig :=
  if P.verifyPassword current storedHash then
    applyPasswordChange s.store username storedHash (P.hashPassword new salt)
  else .error (.refuse 403 "wrong_password" "current password is incorrect")

/-- What `users` would publish. -/
def usersCandidate (s : AuthState τ) (actor : String) (req : UsersReq) (newHash : Option String) :
    Except Stop StoredConfig :=
  match requireAdmin s.store actor with
  | .error why => .error why
  | .ok () => usersEdit s.store req newHash

/-- The state after change `id` has published a store, about the hash of `target`. -/
def published (s : AuthState τ) (id : ℕ) (target : Option String) (lock : Option ℕ)
    (stored : StoredConfig) : AuthState τ :=
  { s with
    store := stored
    changes := Function.update s.changes id (some .committed)
    lock := lock
    commits := target.toList.map (fun u => ⟨id, u, stored.hashOf u⟩) ++ s.commits }

/-- `commit` of a candidate by change `id`, about the hash of `target`. -/
def commitCandidate (s : AuthState τ) (id : ℕ) (target : Option String) (lock : Option ℕ)
    (candidate : Except Stop StoredConfig) (saved : Except String Unit) : AuthState τ :=
  match candidate with
  | .error why => s.setChange id (.refused why)
  | .ok candidate =>
      match persist candidate saved with
      | .error e => s.setChange id (.refused (badRequest (e.message P.quote)))
      | .ok stored => s.published id target lock stored

/-- One critical section. -/
def step (s : AuthState τ) : AuthEvent → Option (AuthState τ)
  | .begin id cred => if s.calls id = none then some (s.setCall id (.started cred)) else none
  | .lookup id =>
      match s.calls id with
      | some (.started cred) => some (s.setCall id (s.afterLookup P cred))
      | _ => none
  | .readHash id =>
      match s.calls id, s.lock with
      | some (.missed cred username password), none =>
          some (s.setCall id (s.afterRead cred username password))
      | _, _ => none
  | .verify id =>
      match s.calls id with
      | some (.verifying cred username password hash) =>
          some (s.setCall id (afterVerify P cred username password hash))
      | _ => none
  | .memoize id =>
      match s.calls id with
      | some (.verified cred username) =>
          some { s.setCall id (.returned cred (some username)) with
                 memo := some (P.mac cred, username) }
      | _ => none
  | .accountRead id username current new =>
      match s.changes id, s.lock with
      | none, none => some (s.setChange id (s.afterAccountRead username current new))
      | _, _ => none
  | .accountCommit id salt saved =>
      match s.changes id, s.lock with
      | some (.checking username hash current new), none =>
          some (s.commitCandidate P id (some username) none
            (s.accountCandidate P username hash current new salt) saved)
      | _, _ => none
  | .usersCheck id actor req salt =>
      match s.changes id, s.lock with
      | none, none => some (s.setChange id (s.afterUsersCheck P actor req salt))
      | _, _ => none
  | .usersCommit id saved =>
      match s.changes id, s.lock with
      | some (.hashed actor req newHash), none =>
          some (s.commitCandidate P id req.target (some id)
            (s.usersCandidate actor req newHash) saved)
      | _, _ => none
  | .clear id =>
      match s.changes id with
      | some .committed =>
          some { s.setChange id .cleared with
                 memo := none
                 lock := if s.lock = some id then none else s.lock }
      | _ => none

end AuthState

/-- Runs from any validated store. -/
def authSystem {τ : Type} [DecidableEq τ] (P : Primitives τ) : System (AuthState τ) AuthEvent :=
  .ofStep (fun s => ∃ stored, (validate stored).isOk = true ∧ s = AuthState.boot stored)
    (AuthState.step P)

/-! ## What a step can do -/

namespace AuthState

variable {τ : Type} {P : Primitives τ} {s s' : AuthState τ}

/-- A change that has not committed. -/
def Uncommitted (c : Option Change) : Prop := c ≠ some .committed ∧ c ≠ some .cleared

theorem uncommitted_accountRead (username current new : String) :
    Uncommitted (some (s.afterAccountRead username current new)) := by
  unfold afterAccountRead
  split
  · simp [Uncommitted]
  · split <;> simp [Uncommitted]

theorem uncommitted_usersCheck (actor : String) (req : UsersReq) (salt : List UInt8) :
    Uncommitted (some (s.afterUsersCheck P actor req salt)) := by
  unfold afterUsersCheck
  split <;> simp [Uncommitted]

/-- What a commit attempt does: it refuses, or it publishes a store whose other hashes are the old
ones. -/
theorem commitCandidate_cases {id : ℕ} {target : Option String} {lock : Option ℕ}
    {candidate : Except Stop StoredConfig} {saved : Except String Unit}
    (htouch : ∀ sc, candidate = .ok sc → Touches target s.store sc) :
    (∃ why, s.commitCandidate P id target lock candidate saved = s.setChange id (.refused why)) ∨
    (∃ stored, Touches target s.store stored ∧
      s.commitCandidate P id target lock candidate saved = s.published id target lock stored) := by
  unfold commitCandidate
  cases candidate with
  | error why => exact .inl ⟨why, rfl⟩
  | ok sc =>
      cases hp : persist sc saved with
      | error e =>
          simp only [hp]
          exact .inl ⟨_, rfl⟩
      | ok stored =>
          simp only [hp]
          obtain ⟨rfl, -⟩ := persist_ok hp
          exact .inr ⟨_, (htouch sc rfl).sync, rfl⟩

theorem accountCandidate_touches {username hash current new : String} {salt : List UInt8} {sc : StoredConfig}
    (h : s.accountCandidate P username hash current new salt = .ok sc) : Touches (some username) s.store sc := by
  unfold accountCandidate at h
  split at h
  · exact applyPasswordChange_touches h
  · cases h

theorem usersCandidate_touches {actor : String} {req : UsersReq} {newHash : Option String} {sc : StoredConfig}
    (h : s.usersCandidate actor req newHash = .ok sc) : Touches req.target s.store sc := by
  unfold usersCandidate at h
  split at h
  · cases h
  · exact usersEdit_touches h

variable [DecidableEq τ]

/-- How one call moves on, without writing anything shared. -/
inductive CallStep (P : Primitives τ) (s : AuthState τ) : Option Call → Call → Prop
  | begin (cred : String) : CallStep P s none (.started cred)
  | hit {cred user : String} : P.memoHit s.memo cred = some user →
      CallStep P s (some (.started cred)) (.returned cred (some user))
  | garbled {cred : String} : CallStep P s (some (.started cred)) (.returned cred none)
  | miss {cred username password : String} : Text.splitOnce ':' cred = some (username, password) →
      CallStep P s (some (.started cred)) (.missed cred username password)
  | unknown {cred username password : String} :
      CallStep P s (some (.missed cred username password)) (.returned cred none)
  | read {cred username password hash : String} : s.store.hashOf username = some hash →
      CallStep P s (some (.missed cred username password)) (.verifying cred username password hash)
  | refuse {cred username password hash : String} :
      CallStep P s (some (.verifying cred username password hash)) (.returned cred none)
  | accept {cred username password hash : String} : P.verifyPassword password hash = true →
      CallStep P s (some (.verifying cred username password hash)) (.verified cred username)

theorem callStep_lookup (cred : String) :
    CallStep P s (some (.started cred)) (s.afterLookup P cred) := by
  unfold afterLookup
  split
  · rename_i user huser
    exact .hit huser
  · split
    · exact .garbled
    · rename_i hsplit
      exact .miss hsplit

theorem callStep_read (cred username password : String) :
    CallStep P s (some (.missed cred username password)) (s.afterRead cred username password) := by
  unfold afterRead
  split
  · exact .unknown
  · rename_i hash
    exact .read hash

theorem callStep_verify (cred username password hash : String) :
    CallStep P s (some (.verifying cred username password hash))
      (afterVerify P cred username password hash) := by
  unfold afterVerify
  split
  · rename_i hok
    exact .accept hok
  · exact .refuse

/-- A call that has begun does not begin again. -/
theorem CallStep.ne_started {before c : Call} (h : CallStep P s (some before) c) (cred : String) :
    c ≠ .started cred := by
  rintro rfl
  cases h

/-- **Every critical section, said once.** -/
theorem step_cases {e : AuthEvent} (h : s.step P e = some s') :
    (∃ id c, (∀ cred, c = .started cred → e = .begin id cred) ∧ CallStep P s (s.calls id) c ∧
      s' = s.setCall id c) ∨
    (∃ id cred username, e = .memoize id ∧ s.calls id = some (.verified cred username) ∧
      s' = { s.setCall id (.returned cred (some username)) with
             memo := some (P.mac cred, username) }) ∨
    (∃ id c, Uncommitted (s.changes id) ∧ Uncommitted (some c) ∧ s' = s.setChange id c) ∨
    (∃ id target lock stored, Uncommitted (s.changes id) ∧ Touches target s.store stored ∧
      s' = s.published id target lock stored) ∨
    (∃ id lock, s.changes id = some .committed ∧
      s' = { s.setChange id .cleared with memo := none, lock := lock }) := by
  cases e with
  | begin id cred =>
      simp only [step, Option.ite_none_right_eq_some, Option.some.injEq] at h
      obtain ⟨hnone, rfl⟩ := h
      refine .inl ⟨id, .started cred, ?_, hnone ▸ .begin cred, rfl⟩
      intro cred' heq
      cases heq
      rfl
  -- four moves of a call: only its own place changes, and it does not begin again
  | lookup id =>
      simp only [step] at h
      split at h
      · rename_i cred hcall
        cases h
        have hstep : CallStep P s (some (.started cred)) (s.afterLookup P cred) := callStep_lookup cred
        exact .inl ⟨id, _, fun cred' heq => absurd heq (hstep.ne_started cred'), hcall ▸ hstep, rfl⟩
      · cases h
  | readHash id =>
      simp only [step] at h
      split at h
      · rename_i cred username password hcall hlock
        cases h
        have hstep : CallStep P s _ (s.afterRead cred username password) := callStep_read cred username password
        exact .inl ⟨id, _, fun cred' heq => absurd heq (hstep.ne_started cred'), hcall ▸ hstep, rfl⟩
      · cases h
  | verify id =>
      simp only [step] at h
      split at h
      · rename_i cred username password hash hcall
        cases h
        have hstep : CallStep P s _ (afterVerify P cred username password hash) :=
          callStep_verify cred username password hash
        exact .inl ⟨id, _, fun cred' heq => absurd heq (hstep.ne_started cred'), hcall ▸ hstep, rfl⟩
      · cases h
  -- the memo is written here and nowhere else
  | memoize id =>
      simp only [step] at h
      split at h
      · rename_i cred username hcall
        cases h
        exact .inr (.inl ⟨id, cred, username, rfl, hcall, rfl⟩)
      · cases h
  -- a change that has not committed: it reads, or checks, under the lock
  | accountRead id username current new =>
      simp only [step] at h
      split at h
      · rename_i hchange hlock
        cases h
        exact .inr (.inr (.inl ⟨id, _, by simp [Uncommitted, hchange],
          uncommitted_accountRead username current new, rfl⟩))
      · cases h
  -- the commit of an account change: refused by `validate` or by the disk, or the store is another one
  | accountCommit id salt saved =>
      simp only [step] at h
      split at h
      · rename_i username hash current new hchange hlock
        cases h
        have hun : Uncommitted (s.changes id) := by simp [Uncommitted, hchange]
        rcases commitCandidate_cases (P := P) (fun sc hsc => accountCandidate_touches (P := P) hsc) with
          ⟨why, heq⟩ | ⟨stored, ht, heq⟩
        · exact .inr (.inr (.inl ⟨id, .refused why, hun, by simp [Uncommitted], heq⟩))
        · exact .inr (.inr (.inr (.inl ⟨id, _, _, stored, hun, ht, heq⟩)))
      · cases h
  | usersCheck id actor req salt =>
      simp only [step] at h
      split at h
      · rename_i hchange hlock
        cases h
        exact .inr (.inr (.inl ⟨id, _, by simp [Uncommitted, hchange],
          uncommitted_usersCheck actor req salt, rfl⟩))
      · cases h
  | usersCommit id saved =>
      simp only [step] at h
      split at h
      · rename_i actor req newHash hchange hlock
        cases h
        have hun : Uncommitted (s.changes id) := by simp [Uncommitted, hchange]
        rcases commitCandidate_cases (P := P) (fun sc hsc => usersCandidate_touches (s := s) hsc) with
          ⟨why, heq⟩ | ⟨stored, ht, heq⟩
        · exact .inr (.inr (.inl ⟨id, .refused why, hun, by simp [Uncommitted], heq⟩))
        · exact .inr (.inr (.inr (.inl ⟨id, _, _, stored, hun, ht, heq⟩)))
      · cases h
  -- and it is emptied here and nowhere else
  | clear id =>
      simp only [step] at h
      split at h
      · rename_i hchange
        cases h
        exact .inr (.inr (.inr (.inr ⟨id, _, hchange, rfl⟩)))
      · cases h

end AuthState

end Flock
