/-
# Flock.Auth.Revocation — when a revoked credential is really gone.

A change to a user commits and then clears the memo, "so revocation is immediate".  But an `identify`
call that read the old hash verifies off-lock and writes the memo afterwards, and nothing orders that
write before the clear.  `Revoked` says when a credential ought to be dead: a change to its user has
committed since it last verified, and that change has cleared the memo.  The one step that can bring
it back is a memo write for a revoked credential; where no call does that, a call that starts with a
revoked credential gets an identity only if the credential verifies again while it runs.
-/
import Flock.Auth.Basic

namespace Flock

open Lib (System)

namespace AuthState

variable {τ : Type} {P : Primitives τ} {s s' : AuthState τ} {cred : String}

/-! ## Revoked credentials

The ghosts are the commits, newest first, and the clearings of the memo.  What is revoked is read off the store and
these alone, so it does not depend on what the memo has. -/

/-- The credential verifies against what the store has now. -/
def Verifies (P : Primitives τ) (s : AuthState τ) (cred : String) : Prop :=
  ∃ username password, Text.splitOnce ':' cred = some (username, password) ∧
    P.accepts (s.store.hashOf username) password = true

/-- The changes to `username` that committed since `password` last verified, newest first. -/
def revokers (P : Primitives τ) (s : AuthState τ) (username password : String) : List Commit :=
  (s.commits.filter (·.target == username)).takeWhile fun x => !P.accepts x.hash password

/-- **`Revoked`** — since the credential last verified, a change to its user has committed and cleared
the memo. -/
def Revoked (P : Primitives τ) (s : AuthState τ) (cred : String) : Prop :=
  ∃ username password, Text.splitOnce ':' cred = some (username, password) ∧
    ∃ x ∈ revokers P s username password, s.changes x.change = some .cleared

/-- It is decided by the primitives. -/
instance (P : Primitives τ) (s : AuthState τ) (cred : String) : Decidable (Verifies P s cred) :=
  decidable_of_iff
    (((Text.splitOnce ':' cred).any fun x => P.accepts (s.store.hashOf x.1) x.2) = true) (by
      unfold Verifies
      rcases Text.splitOnce ':' cred with _ | ⟨username, password⟩ <;> simp)

/-- It is decided by the store and the ghosts. -/
instance (P : Primitives τ) (s : AuthState τ) (cred : String) : Decidable (Revoked P s cred) :=
  decidable_of_iff
    (((Text.splitOnce ':' cred).any fun x =>
      (revokers P s x.1 x.2).any fun y => s.changes y.change == some .cleared) = true) (by
      unfold Revoked
      rcases Text.splitOnce ':' cred with _ | ⟨username, password⟩ <;> simp)

/-- The newest commit about a user wrote the hash the store has. -/
def Current (s : AuthState τ) : Prop :=
  ∀ username x, (s.commits.filter (·.target == username)).head? = some x →
    x.hash = s.store.hashOf username

/-- A credential that verifies now has no revokers. -/
theorem Current.not_verifies (h : Current s) (hrev : Revoked P s cred) : ¬ Verifies P s cred := by
  rintro ⟨username, password, hsplit, hok⟩
  obtain ⟨username', password', hsplit', x, hx, -⟩ := hrev
  obtain ⟨rfl, rfl⟩ := Prod.mk.inj (Option.some.inj (hsplit.symm.trans hsplit'))
  unfold revokers at hx
  cases hlist : s.commits.filter (·.target == username) with
  | nil =>
      rw [hlist] at hx
      cases hx
  | cons y rest =>
      have hy : y.hash = s.store.hashOf username := h username y (by rw [hlist]; rfl)
      rw [hlist, List.takeWhile_cons, hy, hok] at hx
      cases hx

/-- **The condition.** No call writes the memo for a revoked credential. -/
def MemoTimely (P : Primitives τ) (s : AuthState τ) : AuthEvent → Prop
  | .memoize id => ∀ cred username, s.calls id = some (.verified cred username) →
      ¬ Revoked P s cred
  | _ => True

/-- The condition looks at one call. -/
instance (P : Primitives τ) (s : AuthState τ) : ∀ e, Decidable (MemoTimely P s e)
  | .memoize id =>
      match hcall : s.calls id with
      | some (.verified cred username) =>
          decidable_of_iff (¬ Revoked P s cred) (by simp [MemoTimely, hcall])
      | some (.started _) | some (.missed ..) | some (.verifying ..) | some (.returned ..) | none =>
          .isTrue (by simp [MemoTimely, hcall])
  | .begin .. | .lookup _ | .readHash _ | .verify _ | .accountRead .. | .accountCommit ..
  | .usersCheck .. | .usersCommit .. | .clear _ => .isTrue trivial

/-! ## What the steps do to it

Most steps neither commit, clear nor verify, and then nobody is revoked by them or restored. -/

/-- `Revoked` reads the commits and which changes are cleared. -/
theorem Revoked.of_le (h : Revoked P s cred) (hcommits : s'.commits = s.commits)
    (hcleared : ∀ id, s.changes id = some .cleared → s'.changes id = some .cleared) :
    Revoked P s' cred := by
  obtain ⟨username, password, hsplit, x, hx, hclear⟩ := h
  refine ⟨username, password, hsplit, x, ?_, hcleared _ hclear⟩
  unfold revokers at hx ⊢
  rwa [hcommits]

variable {id : ℕ} {target : Option String} {lock : Option ℕ} {stored : StoredConfig}

/-- The commits of the user that was changed. -/
theorem published_commits_self (username : String) :
    (published s id (some username) lock stored).commits.filter (·.target == username) =
      ⟨id, username, stored.hashOf username⟩ :: s.commits.filter (·.target == username) := by
  simp [published]

/-- The commits of everybody else. -/
theorem published_commits_other {username : String} (hne : some username ≠ target) :
    (published s id target lock stored).commits.filter (·.target == username) =
      s.commits.filter (·.target == username) := by
  cases target with
  | none => rfl
  | some u =>
      have hu : (u == username) = false := by
        simpa using fun heq : u = username => hne (heq ▸ rfl)
      simp [published, hu]

/-- A commit that touches its target only keeps the others current. -/
theorem Current.published (h : Current s) (htouch : Touches target s.store stored) :
    Current (published s id target lock stored) := by
  intro username x hx
  by_cases hu : some username = target
  · subst hu
    rw [published_commits_self] at hx
    cases hx
    rfl
  · rw [published_commits_other hu] at hx
    exact (h username x hx).trans (htouch username hu).symm

/-- A commit revokes nobody by itself: its own clear is still to come. -/
theorem not_revoked_published (h : ¬ Revoked P s cred) :
    ¬ Revoked P (published s id target lock stored) cred := by
  rintro ⟨username, password, hsplit, x, hx, hclear⟩
  have hne : x.change ≠ id := by
    intro heq
    rw [heq] at hclear
    simp [published] at hclear
  have hclear' : s.changes x.change = some .cleared := by
    simpa [published, Function.update_of_ne hne] using hclear
  refine h ⟨username, password, hsplit, x, ?_, hclear'⟩
  unfold revokers at hx ⊢
  by_cases hu : some username = target
  · subst hu
    rw [published_commits_self, List.takeWhile_cons] at hx
    split at hx
    · rcases List.mem_cons.mp hx with rfl | hx
      · exact absurd rfl hne
      · exact hx
    · cases hx
  · rwa [published_commits_other hu] at hx

/-- Once revoked, revoked until it verifies. -/
theorem Revoked.published (h : Revoked P s cred) (hun : Uncommitted (s.changes id))
    (hnot : ¬ Verifies P (published s id target lock stored) cred) :
    Revoked P (published s id target lock stored) cred := by
  obtain ⟨username, password, hsplit, x, hx, hclear⟩ := h
  have hne : x.change ≠ id := by
    intro heq
    rw [heq] at hclear
    exact hun.2 hclear
  refine ⟨username, password, hsplit, x, ?_, ?_⟩
  · unfold revokers at hx ⊢
    by_cases hu : some username = target
    · subst hu
      have hrej : P.accepts (stored.hashOf username) password = false := by
        rw [Bool.eq_false_iff]
        exact fun hok => hnot ⟨username, password, hsplit, hok⟩
      rw [published_commits_self, List.takeWhile_cons, hrej]
      exact List.mem_cons_of_mem _ hx
    · rwa [published_commits_other hu]
  · simpa [AuthState.published, Function.update_of_ne hne] using hclear

/-- A change that has not committed revokes nobody. -/
theorem not_revoked_setChange (h : ¬ Revoked P s cred) {c : Change} (hc : Uncommitted (some c)) :
    ¬ Revoked P (s.setChange id c) cred := by
  rintro ⟨username, password, hsplit, x, hx, hclear⟩
  refine h ⟨username, password, hsplit, x, hx, ?_⟩
  by_cases heq : x.change = id
  · rw [heq] at hclear
    simp only [setChange, Function.update_self] at hclear
    exact absurd hclear hc.2
  · simpa [setChange, Function.update_of_ne heq] using hclear

/-! ## The memo

An entry of the memo is as good as the verification it stands for.  A clearing empties it; so an entry for a revoked
credential was written after that. -/

variable {C : String → Prop}

/-- **`Sound C`** — every credential ever presented is in `C`, and the memo's is not revoked. -/
structure Sound (P : Primitives τ) (C : String → Prop) (s : AuthState τ) : Prop where
  current : Current s
  presented : ∀ id call, s.calls id = some call → C call.cred
  memo : ∀ tag user, s.memo = some (tag, user) → ∃ c, C c ∧ P.mac c = tag ∧ ¬ Revoked P s c

/-- One call more presents what the class allows. -/
theorem presented_setCall (h : ∀ id call, s.calls id = some call → C call.cred) {id : ℕ} {c : Call}
    (hc : C c.cred) : ∀ id' call, (s.setCall id c).calls id' = some call → C call.cred := by
  intro id' call hcall
  by_cases heq : id' = id
  · subst heq
    simp only [setCall, Function.update_self, Option.some.injEq] at hcall
    exact hcall ▸ hc
  · simp only [setCall, Function.update_of_ne heq] at hcall
    exact h id' call hcall

theorem sound_boot (stored : StoredConfig) : Sound P C (boot stored : AuthState τ) where
  current := by simp [Current, boot]
  presented := by simp [boot]
  memo := by simp [boot]

variable [DecidableEq τ]

/-- A call keeps its credential. -/
theorem CallStep.cred_eq {call : Call} {c : Call} (h : CallStep P s (some call) c) :
    c.cred = call.cred := by
  cases h <;> rfl

/-- Only a new call presents a new credential. -/
theorem presented_step (h : ∀ id call, s.calls id = some call → C call.cred) {e : AuthEvent}
    (hstep : s.step P e = some s') (hcreds : ∀ id c, e = .begin id c → C c) :
    ∀ id call, s'.calls id = some call → C call.cred := by
  rcases step_cases hstep with ⟨id, c, hbegin, hcall, rfl⟩ | ⟨id, cred, username, rfl, hcall, rfl⟩ |
    ⟨id, c, -, -, rfl⟩ | ⟨id, target, lock, stored, -, -, rfl⟩ | ⟨id, lock, -, rfl⟩
  · refine presented_setCall h ?_
    cases hold : s.calls id with
    | none =>
        rw [hold] at hcall
        cases hcall
        exact hcreds id _ (hbegin _ rfl)
    | some call =>
        rw [hold] at hcall
        rw [hcall.cred_eq]
        exact h id call hold
  · have hcred : C cred := h id _ hcall
    exact presented_setCall h hcred
  · exact h
  · exact h
  · exact h

/-- **One step keeps the memo sound.** -/
theorem Sound.step (h : Sound P C s) {e : AuthEvent} (hstep : s.step P e = some s')
    (htimely : MemoTimely P s e) (hcreds : ∀ id c, e = .begin id c → C c) : Sound P C s' := by
  have hpresented := presented_step h.presented hstep hcreds
  rcases step_cases hstep with ⟨id, c, -, -, rfl⟩ | ⟨id, cred, username, rfl, hcall, rfl⟩ |
    ⟨id, c, -, hc, rfl⟩ | ⟨id, target, lock, stored, -, htouch, rfl⟩ | ⟨id, lock, -, rfl⟩
  · exact ⟨h.current, hpresented, h.memo⟩
  · refine ⟨h.current, hpresented, fun tag user hmemo => ?_⟩
    cases hmemo
    exact ⟨cred, h.presented id _ hcall, rfl, htimely cred username hcall⟩
  · refine ⟨h.current, hpresented, fun tag user hmemo => ?_⟩
    obtain ⟨c₀, hC, hmac, hnot⟩ := h.memo tag user hmemo
    exact ⟨c₀, hC, hmac, not_revoked_setChange hnot hc⟩
  · refine ⟨h.current.published htouch, hpresented, fun tag user hmemo => ?_⟩
    obtain ⟨c₀, hC, hmac, hnot⟩ := h.memo tag user hmemo
    exact ⟨c₀, hC, hmac, not_revoked_published hnot⟩
  · -- a clear: nothing is memoized
    refine ⟨h.current, hpresented, fun tag user hmemo => ?_⟩
    cases hmemo

/-- A whole run keeps the memo sound. -/
theorem Sound.run {es : List AuthEvent} (h : Sound P C s)
    (hrun : ((authSystem P).restrict (MemoTimely P)).Run s es s')
    (hcreds : ∀ id c, AuthEvent.begin id c ∈ es → C c) : Sound P C s' := by
  induction hrun with
  | nil => exact h
  | snoc _ hstep ih =>
      have hpre := ih fun id c hmem => hcreds id c (List.mem_append_left _ hmem)
      exact hpre.step hstep.1 hstep.2 fun id c he => hcreds id c (by simp [he])

/-- A revoked credential misses the memo. -/
theorem Sound.miss (h : Sound P C s) (hmac : ∀ c c', C c → C c' → P.mac c = P.mac c' → c = c')
    (hcred : C cred) (hrev : Revoked P s cred) : P.memoHit s.memo cred = none := by
  unfold Primitives.memoHit
  cases hmemo : s.memo with
  | none => rfl
  | some entry =>
      obtain ⟨c, hC, htag, hnot⟩ := h.memo entry.1 entry.2 hmemo
      have hne : P.mac cred ≠ entry.1 := by
        intro heq
        have : cred = c := hmac cred c hcred hC (heq.trans htag.symm)
        exact hnot (this ▸ hrev)
      simp [hne]

/-! ## A call that starts too late

The memo does not have a revoked credential.  So the call reads the store, and gets an identity only if the credential
verifies there. -/

/-- What a call with a revoked credential may look like: it has not verified, and it has not got an
identity. -/
def Harmless (P : Primitives τ) : Call → Prop
  | .started _ => True
  | .missed cred username password => Text.splitOnce ':' cred = some (username, password)
  | .verifying _ _ password hash => P.verifyPassword password hash = false
  | .verified _ _ => False
  | .returned _ identity => identity = none

/-- **`Barred`** — the credential is revoked, and call `id`, if it presented it, is harmless. -/
structure Barred (P : Primitives τ) (cred : String) (id : ℕ) (s : AuthState τ) : Prop where
  revoked : Revoked P s cred
  call : ∀ c, s.calls id = some c → c.cred = cred → Harmless P c

/-- Each move of a harmless call of a credential that does not verify is harmless. -/
theorem Harmless.callStep {call : Option Call} {c : Call} (hstep : CallStep P s call c)
    (hold : ∀ c₀, call = some c₀ → Harmless P c₀) (hmiss : P.memoHit s.memo c.cred = none)
    (hnot : ¬ Verifies P s c.cred) : Harmless P c := by
  cases hstep with
  | begin cred => trivial
  | hit huser =>
      have : (none : Option String) = some _ := hmiss.symm.trans huser
      cases this
  | garbled => rfl
  | miss hsplit => exact hsplit
  | unknown => rfl
  | read hhash =>
      -- the hash just read is the store's, and the credential does not verify against it
      rename_i cred username password hash
      have hsplit : Text.splitOnce ':' cred = some (username, password) := hold _ rfl
      show P.verifyPassword password hash = false
      rw [Bool.eq_false_iff]
      intro hok
      exact hnot ⟨username, password, hsplit, by simp [Primitives.accepts, hhash, hok]⟩
  | refuse => rfl
  | accept hok =>
      rename_i cred username password hash
      have hrej : P.verifyPassword password hash = false := hold _ rfl
      rw [hok] at hrej
      cases hrej

/-- **One step keeps the call barred**, unless it lets the credential verify. -/
theorem Barred.step {id : ℕ} (h : Barred P cred id s) (hsound : Sound P C s)
    (hmac : ∀ c c', C c → C c' → P.mac c = P.mac c' → c = c') (hcred : C cred) {e : AuthEvent}
    (hstep : s.step P e = some s') (htimely : MemoTimely P s e) (hnot : ¬ Verifies P s' cred) :
    Barred P cred id s' := by
  have hnow : ¬ Verifies P s cred := hsound.current.not_verifies h.revoked
  rcases step_cases hstep with ⟨id', c, -, hcall, rfl⟩ | ⟨id', cred', username, rfl, hcall, rfl⟩ |
    ⟨id', c, hun, hc, rfl⟩ | ⟨id', target, lock, stored, hun, htouch, rfl⟩ | ⟨id', lock, -, rfl⟩
  · refine ⟨h.revoked, fun c' hc' heq => ?_⟩
    by_cases hid : id = id'
    · subst hid
      simp only [setCall, Function.update_self, Option.some.injEq] at hc'
      subst hc'
      refine Harmless.callStep hcall (fun c₀ hc₀ => ?_) ?_ ?_
      · rw [hc₀] at hcall
        exact h.call c₀ hc₀ (hcall.cred_eq.symm.trans heq)
      · rw [heq]
        exact hsound.miss hmac hcred h.revoked
      · rw [heq]
        exact hnow
    · simp only [setCall, Function.update_of_ne hid] at hc'
      exact h.call c' hc' heq
  · refine ⟨h.revoked, fun c' hc' heq => ?_⟩
    by_cases hid : id = id'
    · subst hid
      simp only [setCall, Function.update_self, Option.some.injEq] at hc'
      subst hc'
      -- it would have to be verified already
      exact (h.call _ hcall heq).elim
    · simp only [setCall, Function.update_of_ne hid] at hc'
      exact h.call c' hc' heq
  · refine ⟨h.revoked.of_le rfl fun x hx => ?_, h.call⟩
    have hne : x ≠ id' := by
      rintro rfl
      exact hun.2 hx
    simpa [setChange, Function.update_of_ne hne] using hx
  · exact ⟨h.revoked.published hun hnot, h.call⟩
  · refine ⟨h.revoked.of_le rfl fun x hx => ?_, h.call⟩
    by_cases hid : x = id'
    · subst hid
      simp [setChange]
    · simpa [setChange, Function.update_of_ne hid] using hx

/-- **A whole run**: either the credential verified on the way, or the call is still barred. -/
theorem Barred.run {id : ℕ} (hmac : ∀ c c', C c → C c' → P.mac c = P.mac c' → c = c')
    (hcred : C cred) {es : List AuthEvent}
    (hrun : ((authSystem P).restrict (MemoTimely P)).Run s es s') (hsound : Sound P C s)
    (hcreds : ∀ id c, AuthEvent.begin id c ∈ es → C c) (h : Barred P cred id s) :
    (∃ es₁ es₂ m, es₁ ++ es₂ = es ∧ ((authSystem P).restrict (MemoTimely P)).Run s es₁ m ∧
      ((authSystem P).restrict (MemoTimely P)).Run m es₂ s' ∧ Verifies P m cred) ∨
    Barred P cred id s' := by
  induction hrun with
  | nil => exact .inr h
  | @snoc m' m'' es e hpre hstep ih =>
      have hcreds' : ∀ id c, AuthEvent.begin id c ∈ es → C c :=
        fun id c hmem => hcreds id c (List.mem_append_left _ hmem)
      rcases ih hcreds' with ⟨es₁, es₂, m, heq, hrun₁, hrun₂, hver⟩ | hbar
      · refine .inl ⟨es₁, es₂ ++ [e], m, ?_, hrun₁, hrun₂.snoc hstep, hver⟩
        rw [← List.append_assoc, heq]
      · by_cases hver : Verifies P m'' cred
        · exact .inl ⟨es ++ [e], [], m'', by simp, hpre.snoc hstep, .nil _, hver⟩
        · have hs := hsound.run hpre hcreds'
          exact .inr (hbar.step hs hmac hcred hstep.1 hstep.2 hver)

/-- **Revocation, where no call memoizes late.** In every run in which no call writes the memo for a
revoked credential, and no two presented credentials have one digest: once a change to a user has
committed and cleared the memo, a call that starts afterwards with a credential that has not verified
since that commit returns an identity only if the credential verifies against the store while the
call runs. -/
theorem revoked_not_identified (P : Primitives τ) (stored : StoredConfig)
    (es₁ es₂ : List AuthEvent) (s₁ s₂ : AuthState τ)
    (hrun₁ : ((authSystem P).restrict (MemoTimely P)).Run (boot stored) es₁ s₁)
    (hrun₂ : ((authSystem P).restrict (MemoTimely P)).Run s₁ es₂ s₂)
    (hmac : ∀ id c id' c', AuthEvent.begin id c ∈ es₁ ++ es₂ → AuthEvent.begin id' c' ∈ es₁ ++ es₂ →
      P.mac c = P.mac c' → c = c')
    (cred : String) (hrevoked : Revoked P s₁ cred) (id : ℕ) (hnew : s₁.calls id = none)
    (user : String) (hret : s₂.calls id = some (.returned cred (some user))) :
    ∃ fs₁ fs₂ m, fs₁ ++ fs₂ = es₂ ∧ ((authSystem P).restrict (MemoTimely P)).Run s₁ fs₁ m ∧
      ((authSystem P).restrict (MemoTimely P)).Run m fs₂ s₂ ∧ Verifies P m cred := by
  let C : String → Prop := fun c => ∃ id, AuthEvent.begin id c ∈ es₁ ++ es₂
  have hinj : ∀ c c', C c → C c' → P.mac c = P.mac c' → c = c' := by
    rintro c c' ⟨i, hi⟩ ⟨i', hi'⟩ heq
    exact hmac i c i' c' hi hi' heq
  have hs₁ : Sound P C s₁ := (sound_boot stored).run hrun₁
    fun i c hmem => ⟨i, List.mem_append_left _ hmem⟩
  have hcreds : ∀ i c, AuthEvent.begin i c ∈ es₂ → C c :=
    fun i c hmem => ⟨i, List.mem_append_right _ hmem⟩
  have hs₂ : Sound P C s₂ := hs₁.run hrun₂ hcreds
  have hcred : C cred := hs₂.presented id _ hret
  have hstart : Barred P cred id s₁ := by
    refine ⟨hrevoked, fun c hc => ?_⟩
    rw [hnew] at hc
    cases hc
  rcases Barred.run hinj hcred hrun₂ hs₁ hcreds hstart with hver | hbar
  · exact hver
  · have : (some user : Option String) = none := hbar.call _ hret rfl
    cases this

/-! ## A late memo write

The run: a call with the old password verifies before the change commits, and writes its memo entry after the
clearing. -/

/-- Stand-ins that tell passwords and salts apart. -/
def plainPrimitives : Primitives String where
  kdf password salt _ := password.toList.map (fun c => UInt8.ofNat c.toNat) ++ salt
  mac cred := cred
  quote s := s

/-- A claimed store with one user. -/
def rootStore : StoredConfig where
  providers := [{ name := "nvidia", baseUrl := "https://integrate.api.nvidia.com",
                  keys := [{ key := "nvapi-k", owner := "root" }], models := ["*"] }]
  users := [{ username := "root", role := .superuser,
              passwordHash := plainPrimitives.hashPassword "old-password" [1] }]

/-- A call with the old password has verified when the password is changed, and memoizes after the
clear. -/
def lateMemo : List AuthEvent :=
  [.begin 0 "root:old-password", .lookup 0, .readHash 0, .verify 0,
   .accountRead 1 "root" "old-password" "new-password", .accountCommit 1 [2] (.ok ()), .clear 1,
   .memoize 0]

/-- **The old password still works after the change.** A call that starts after the change has
committed and cleared the memo, with a credential the store does not accept before, during or after
the call, gets the identity from the memo. -/
theorem late_memo_identifies_revoked :
    ∃ s₁ m s₂ : AuthState String,
      (authSystem plainPrimitives).Run (boot rootStore) lateMemo s₁ ∧
      (authSystem plainPrimitives).Run s₁ [.begin 2 "root:old-password"] m ∧
      (authSystem plainPrimitives).Run m [.lookup 2] s₂ ∧
      s₁.changes 1 = some .cleared ∧ Revoked plainPrimitives s₁ "root:old-password" ∧
      s₁.calls 2 = none ∧
      s₂.calls 2 = some (.returned "root:old-password" (some "root")) ∧
      ¬ Verifies plainPrimitives s₁ "root:old-password" ∧
      ¬ Verifies plainPrimitives m "root:old-password" ∧
      ¬ Verifies plainPrimitives s₂ "root:old-password" := by
  have hexec : (System.exec (step plainPrimitives) (boot rootStore) lateMemo).any (fun s₁ =>
      s₁.changes 1 == some .cleared && decide (Revoked plainPrimitives s₁ "root:old-password") &&
      s₁.calls 2 == none && !decide (Verifies plainPrimitives s₁ "root:old-password") &&
      (System.exec (step plainPrimitives) s₁ [.begin 2 "root:old-password"]).any fun m =>
        !decide (Verifies plainPrimitives m "root:old-password") &&
        (System.exec (step plainPrimitives) m [.lookup 2]).any fun s₂ =>
          s₂.calls 2 == some (.returned "root:old-password" (some "root")) &&
          !decide (Verifies plainPrimitives s₂ "root:old-password")) = true := by
    decide +kernel
  obtain ⟨s₁, hrun₁, hs₁⟩ := System.run_of_exec_any hexec
  simp only [Bool.and_eq_true, beq_iff_eq, decide_eq_true_eq, Bool.not_eq_true',
    decide_eq_false_iff_not] at hs₁
  obtain ⟨⟨⟨⟨hcleared, hrev⟩, hnone⟩, hver₁⟩, hm⟩ := hs₁
  obtain ⟨m, hrun₂, hm⟩ := System.run_of_exec_any hm
  simp only [Bool.and_eq_true, Bool.not_eq_true', decide_eq_false_iff_not] at hm
  obtain ⟨hver₂, hs₂⟩ := hm
  obtain ⟨s₂, hrun₃, hs₂⟩ := System.run_of_exec_any hs₂
  simp only [Bool.and_eq_true, beq_iff_eq, Bool.not_eq_true', decide_eq_false_iff_not] at hs₂
  exact ⟨s₁, m, s₂, hrun₁, hrun₂, hrun₃, hcleared, hrev, hnone, hs₂.1, hver₁, hver₂, hs₂.2⟩

/-- The password is changed and the memo cleared. -/
def changeAway : List AuthEvent :=
  [.accountRead 1 "root" "old-password" "new-password", .accountCommit 1 [2] (.ok ()), .clear 1]

/-- It is changed back, and a call presents it. -/
def changeBack : List AuthEvent :=
  [.accountRead 2 "root" "new-password" "old-password", .accountCommit 2 [3] (.ok ()), .clear 2,
   .begin 3 "root:old-password", .lookup 3, .readHash 3, .verify 3, .memoize 3]

/-- A credential that is set again verifies again, and then it identifies. -/
theorem revoked_not_identified_until_set_again :
    ∃ s₁ s₂ : AuthState String, Revoked plainPrimitives s₁ "root:old-password" ∧
      s₂.calls 3 = some (.returned "root:old-password" (some "root")) ∧
      ∃ fs₁ fs₂ m, fs₁ ++ fs₂ = changeBack ∧
        ((authSystem plainPrimitives).restrict (MemoTimely plainPrimitives)).Run s₁ fs₁ m ∧
        ((authSystem plainPrimitives).restrict (MemoTimely plainPrimitives)).Run m fs₂ s₂ ∧
        Verifies plainPrimitives m "root:old-password" := by
  have hexec : (System.exec (System.guardStep (MemoTimely plainPrimitives) (step plainPrimitives))
      (boot rootStore) changeAway).any (fun s₁ =>
        decide (Revoked plainPrimitives s₁ "root:old-password") && s₁.calls 3 == none &&
        (System.exec (System.guardStep (MemoTimely plainPrimitives) (step plainPrimitives)) s₁
          changeBack).any fun s₂ =>
            s₂.calls 3 == some (.returned "root:old-password" (some "root"))) = true := by
    decide +kernel
  obtain ⟨s₁, hrun₁, hs₁⟩ := System.run_of_exec_any hexec
  simp only [Bool.and_eq_true, beq_iff_eq, decide_eq_true_eq] at hs₁
  obtain ⟨⟨hrev, hnone⟩, hs₂⟩ := hs₁
  obtain ⟨s₂, hrun₂, hret⟩ := System.run_of_exec_any hs₂
  rw [beq_iff_eq] at hret
  have hmac : ∀ id c id' c', AuthEvent.begin id c ∈ changeAway ++ changeBack →
      AuthEvent.begin id' c' ∈ changeAway ++ changeBack →
      plainPrimitives.mac c = plainPrimitives.mac c' → c = c' := fun _ _ _ _ _ _ h => h
  exact ⟨s₁, s₂, hrev, hret, revoked_not_identified plainPrimitives rootStore changeAway changeBack
    s₁ s₂ (System.Run.restrict_of_guardStep hrun₁) (System.Run.restrict_of_guardStep hrun₂) hmac
    "root:old-password" hrev 3 hnone "root" hret⟩

end AuthState

end Flock
