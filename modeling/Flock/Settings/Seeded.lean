/-
# Flock.Settings.Seeded — which stores keep every handler off the missing NVIDIA record.

`nvidiaMut` panics where a store has no record of that name, and the panic poisons the store mutex.  A claimed
store has the record (`validate_nvidia_isSome`), and so has every store that a process did not read as it
is: a fresh one, a migrated one, a reseeded one.  An unclaimed store is read as it is unless its registry is
empty; if that store lacks the record, the claim itself runs into the panic.

The handlers are taken one by one: each keeps the record where it finds it (`Seeds`), so a process is safe from the
store it loaded on.  That leaves one question, which is what `load` lets through.
-/
import Flock.Settings.Authority

namespace Flock

open Lib (System updateFirst)

namespace Settings

/-- The panic of `nvidia_mut`. -/
def missingNvidia : String := "nvidia provider is always seeded"

/-- **`Seeds x`** — the handler that ends in `x` found the NVIDIA record wherever it looked for it, and the store
it ends with has the record. -/
structure Seeds (x : Except Stop StoredConfig) : Prop where
  found : x ≠ .error (.panic missingNvidia)
  seeded : ∀ sc, x = .ok sc → sc.nvidia.isSome = true

namespace Seeds

variable {sc : StoredConfig} {x : Except Stop StoredConfig}

theorem ok (h : sc.nvidia.isSome = true) : Seeds (.ok sc) where
  found heq := by cases heq
  seeded _ heq := by
    cases heq
    exact h

theorem refuse (status : ℕ) (code message : String) : Seeds (.error (.refuse status code message)) where
  found heq := by cases heq
  seeded _ heq := by cases heq

/-- The other panic of the handlers, which `usersEdit` cannot reach from `arrive`. -/
theorem hashedAbove : Seeds (.error (.panic "hashed above")) where
  found heq := by
    injection heq with heq
    injection heq with heq
    exact absurd heq (by decide)
  seeded _ heq := by cases heq

/-- A handler is its parts in sequence: the record is there after each, and only another part can stop it. -/
theorem bind {α : Type} {m : Except Stop α} {f : α → Except Stop StoredConfig}
    (hm : ∀ a, m = .ok a → Seeds (f a)) (herr : ∀ e, m = .error e → e ≠ .panic missingNvidia) :
    Seeds (m >>= f) := by
  cases m with
  | error e =>
      refine ⟨fun heq => ?_, fun _ heq => by cases heq⟩
      injection heq with heq
      exact herr e rfl heq
  | ok a => exact hm a rfl

/-- The rest of a handler, after a part that leaves the record in place. -/
theorem andThen {f : StoredConfig → Except Stop StoredConfig} (hx : Seeds x)
    (hf : ∀ sc, sc.nvidia.isSome = true → Seeds (f sc)) : Seeds (x >>= f) := by
  apply bind
  · intro sc hsc
    exact hf sc (hx.seeded sc hsc)
  · rintro e he rfl
    exact hx.found he

/-- A role check, and the rest of the handler. -/
theorem adminOnly {message caller : String} (f : Unit → Except Stop StoredConfig) (hf : Seeds (f ())) :
    Seeds (Settings.adminOnly message sc caller >>= f) := by
  apply bind
  · intro _ _
    exact hf
  · intro e he heq
    subst heq
    unfold Settings.adminOnly at he
    split at he
    · split at he <;> cases he
    · cases he

/-- A write through `nvidia_mut`. -/
theorem nvidiaMut {f : ProviderDef → Except Stop ProviderDef} (h : sc.nvidia.isSome = true)
    (hfound : ∀ nv, f nv ≠ .error (.panic missingNvidia))
    (hname : ∀ nv nv', f nv = .ok nv' → nv'.name = nv.name) : Seeds (nvidiaMut sc f) := by
  obtain ⟨nv, hnv⟩ := Option.isSome_iff_exists.mp h
  constructor
  · intro heq
    unfold Settings.nvidiaMut at heq
    rw [hnv] at heq
    cases hf : f nv with
    | error e =>
        simp only [hf, Except.map] at heq
        injection heq with heq
        exact hfound nv (by rw [hf, heq])
    | ok nv' =>
        simp only [hf, Except.map] at heq
        cases heq
  · intro sc' heq
    obtain ⟨nv₁, nv', hnv₁, hf, rfl⟩ := nvidiaMut_eq_ok.mp heq
    have hnamed : nv₁.name = "nvidia" := by
      simpa using List.find?_some hnv₁
    have hkept := Lib.find?_updateFirst (f := fun _ => nv') hnv₁ (by simp [hname nv₁ nv' hf, hnamed])
    unfold StoredConfig.nvidia
    rw [hkept]
    rfl

/-- A write that cannot fail. -/
theorem nvidiaMut_ok {g : ProviderDef → ProviderDef} (h : sc.nvidia.isSome = true)
    (hname : ∀ nv, (g nv).name = nv.name) : Seeds (Settings.nvidiaMut sc fun nv => .ok (g nv)) := by
  apply nvidiaMut h
  · intro nv heq
    cases heq
  · rintro nv nv' heq
    cases heq
    exact hname nv

end Seeds

/-! ## Handler by handler

Each handler is `nvidia_mut` calls, role checks and updates of other fields, in the order of the source; its lemma
goes through them in that order. -/

section Handlers

variable {sha256Hex : String → String} {sc : StoredConfig} {caller : String} {raw : List UInt8}

theorem nimKeys_seeds (h : sc.nvidia.isSome = true) (req : NimKeysReq) :
    Seeds (nimKeys sha256Hex sc caller req) := by
  unfold nimKeys
  split
  · exact .refuse ..
  · split
    · exact .nvidiaMut_ok h fun _ => rfl
    · apply Seeds.nvidiaMut h
      · intro nv heq
        split at heq
        · cases heq
        · split at heq <;> cases heq
      · intro nv nv' heq
        split at heq
        · cases heq
        · split at heq <;> cases heq
          rfl
    · apply Seeds.nvidiaMut h
      · intro nv heq
        split at heq
        · cases heq
        · split at heq <;> cases heq
      · intro nv nv' heq
        split at heq
        · cases heq
        · split at heq <;> cases heq
          rfl
    · exact .refuse ..

theorem clients_seeds (h : sc.nvidia.isSome = true) (req : ClientsReq) :
    Seeds (clients sha256Hex sc caller req raw) := by
  unfold clients
  split
  · exact .refuse ..
  · split
    · exact .ok h
    · split
      · exact .refuse ..
      · split
        · exact .refuse ..
        · exact .ok h
    · split
      · exact .refuse ..
      · split
        · exact .ok h
        · split
          · exact .ok h
          · exact .refuse ..
    · exact .refuse ..

/-- The three handlers of an administrator that replace a section. -/
theorem adminSection_seeds (apply : StoredConfig → StoredConfig) (h : (apply sc).nvidia.isSome = true) :
    Seeds (adminSection apply sc caller) :=
  Seeds.adminOnly (fun _ => .ok (apply sc)) (.ok h)

theorem server_seeds (h : sc.nvidia.isSome = true) (req : ServerReq) : Seeds (server sc caller req) := by
  unfold server
  apply Seeds.adminOnly
  exact .andThen (.nvidiaMut_ok h fun _ => rfl) fun sc hsc => .ok hsc

theorem removeUser_seeds (h : sc.nvidia.isSome = true) (target : String) : Seeds (removeUser sc target) := by
  unfold removeUser
  split
  · exact .refuse ..
  · split
    · exact .refuse ..
    · rw [retainNvidiaKeys_eq]
      exact .andThen (.nvidiaMut_ok h fun _ => rfl) fun sc hsc => .ok hsc

theorem users_seeds (h : sc.nvidia.isSome = true) (req : UsersReq) (newHash : Option String) :
    Seeds (users sc caller req newHash) := by
  unfold users
  rw [requireAdmin_eq]
  apply Seeds.adminOnly
  unfold usersEdit
  split
  · unfold addUser
    split
    · exact .refuse ..
    · exact .hashedAbove
    · exact .ok h
  · exact removeUser_seeds h _
  · unfold resetPassword
    split
    · exact .refuse ..
    · split
      · exact .refuse ..
      · split
        · exact .hashedAbove
        · exact .ok h
  · unfold setUserRole
    split
    · exact .refuse ..
    · split
      · exact .refuse ..
      · split
        · exact .refuse ..
        · exact .ok h
  · exact .refuse ..

theorem applyPasswordChange_seeds (h : sc.nvidia.isSome = true) (verifiedHash newHash : String) :
    Seeds (applyPasswordChange sc caller verifiedHash newHash) := by
  unfold applyPasswordChange
  split
  · exact .refuse ..
  · split
    · exact .refuse ..
    · exact .ok h

theorem accountLocale_seeds (h : sc.nvidia.isSome = true) (locale : Option String) :
    Seeds (accountLocale sc caller locale) := by
  unfold accountLocale
  split
  · exact .refuse ..
  · exact .ok h

/-- **Every settings handler.** -/
theorem edit_seeds (h : sc.nvidia.isSome = true) (work : Work) :
    Seeds (work.edit sha256Hex sc caller raw) := by
  cases work with
  | nimKeys req => exact nimKeys_seeds h req
  | clients req => exact clients_seeds h req
  | upstream baseUrl => exact .adminOnly _ (.nvidiaMut_ok h fun _ => rfl)
  | server req => exact server_seeds h req
  | routing req => exact .adminOnly _ (.ok h)
  | limits req => exact adminSection_seeds (replaceLimits req) h
  | history req => exact .adminOnly _ (.ok h)
  | governor req => exact adminSection_seeds (applyGovernor req) h
  | users req newHash => exact users_seeds h req newHash
  | password verifiedHash newHash => exact applyPasswordChange_seeds h verifiedHash newHash
  | accountLocale l => exact accountLocale_seeds h l
  | locale l => exact .adminOnly _ (.ok h)

/-- A setup request may bring any number of keys, one `nvidia_mut` each. -/
theorem addSetupKeys_seeds (owner : String) : ∀ (ks : List SetupKey) {sc : StoredConfig},
    sc.nvidia.isSome = true → Seeds (addSetupKeys owner ks sc)
  | [], _, h => .ok h
  | _ :: rest, _, h =>
      .andThen (.nvidiaMut_ok h fun _ => rfl) fun _ hsc => addSetupKeys_seeds owner rest hsc

/-- The end of a claim: the keys of the request, every model, and the client key. -/
theorem setupTail_seeds (req : SetupReq) (h : sc.nvidia.isSome = true) :
    Seeds (addSetupKeys req.username req.nimKeys sc >>= fun sc =>
      nvidiaMut sc (fun nv => .ok { nv with models := ["*"] }) >>= fun sc =>
        match req.createClientKey with
        | some name =>
            .ok { sc with clientKeys := sc.clientKeys ++ [mintedKey sha256Hex name req.username raw] }
        | none => .ok sc) := by
  apply Seeds.andThen (addSetupKeys_seeds req.username req.nimKeys h)
  intro sc hsc
  apply Seeds.andThen
  · exact .nvidiaMut_ok hsc fun _ => rfl
  · intro sc hsc
    split
    · exact .ok hsc
    · exact .ok hsc

/-- **The claim.** -/
theorem setupSubmit_seeds (h : sc.nvidia.isSome = true) (req : SetupReq) (hash : String) :
    Seeds (setupSubmit sha256Hex sc req hash raw) := by
  unfold setupSubmit
  split
  · exact .refuse ..
  · apply Seeds.andThen
    · exact .nvidiaMut_ok h fun _ => rfl
    · intro sc hsc
      dsimp only
      split
      · exact .andThen (.nvidiaMut_ok hsc fun _ => rfl) fun sc hsc => setupTail_seeds req hsc
      · exact setupTail_seeds req hsc

/-- Without the record, whoever claims the store runs into the panic. -/
theorem setupSubmit_missing (h : sc.nvidia = none) (hclaim : sc.superuser = none) (req : SetupReq)
    (hash : String) :
    setupSubmit sha256Hex sc req hash raw = .error (.panic missingNvidia) := by
  unfold setupSubmit
  rw [hclaim]
  show nvidiaMut { sc with users := [⟨req.username, hash, .superuser, none⟩] } _ >>= _ = _
  unfold nvidiaMut
  rw [show StoredConfig.nvidia { sc with users := [⟨req.username, hash, .superuser, none⟩] } = none from h]
  rfl

end Handlers

/-! ## Runs from a store that was loaded

A process serves the store that it loaded.  What it holds between two critical sections of one request was computed
from that store, and is stored later: both are in the invariant. -/

section Runs

variable {τ : Type} {P : Primitives τ} {sha256Hex : String → String} {L : Loader} {sc : StoredConfig}
  {s s' : SettingsState} {e : SettingsEvent}

/-- The record is there, and no handler has missed it. -/
structure SettingsState.Safe (s : SettingsState) : Prop where
  seeded : s.store.nvidia.isSome = true
  found : s.poisoned ≠ some missingNvidia

/-- The end of a critical section: the candidate is stored, if it could be saved, and the request waits or is over. -/
theorem finish_safe {id : ℕ} {next : Option Waiting} {candidate : Except Stop StoredConfig}
    {saved : Except String Unit} (h : s.Safe) (hc : Seeds candidate) :
    (s.finish id next candidate saved).Safe := by
  unfold SettingsState.finish
  split
  · rename_i message
    refine ⟨h.seeded, fun heq => ?_⟩
    cases heq
    exact hc.found rfl
  · exact ⟨h.seeded, h.found⟩
  · rename_i candidate
    split
    · exact ⟨h.seeded, h.found⟩
    · rename_i stored hp
      obtain ⟨rfl, -⟩ := persist_ok hp
      refine ⟨?_, h.found⟩
      show candidate.syncUpstreamMirror.nvidia.isSome = true
      unfold StoredConfig.nvidia
      rw [StoredConfig.syncUpstreamMirror_providers]
      exact hc.seeded candidate rfl

/-- One step. -/
theorem step_safe (h : s.Safe) (hstep : s.step P sha256Hex e = some s') : s'.Safe := by
  simp only [SettingsState.step, Option.ite_none_left_eq_some] at hstep
  obtain ⟨-, hstep⟩ := hstep
  cases e with
  | request id caller req salt =>
      dsimp only at hstep
      split at hstep
      · cases hstep
      · split at hstep
        · cases hstep
          exact h
        · split at hstep <;> cases hstep <;> exact ⟨h.seeded, h.found⟩
  | setup id body admitted salt =>
      dsimp only at hstep
      split at hstep
      · cases hstep
      · split at hstep <;> cases hstep <;> exact ⟨h.seeded, h.found⟩
  | commit id raw saved =>
      dsimp only at hstep
      split at hstep
      · cases hstep
        exact finish_safe h (edit_seeds h.seeded _)
      · cases hstep
        exact finish_safe h (setupSubmit_seeds h.seeded _ _)
      · cases hstep
  | claimed id =>
      dsimp only at hstep
      split at hstep
      · cases hstep
        exact ⟨h.seeded, h.found⟩
      · cases hstep

/-- A setup request. -/
def claimRequest : SetupBody := .json { username := "ops", password := "correct horse" }

/-- **The two critical sections of a claim, where the record is missing.** -/
theorem claim_poisons (P : Primitives τ) (sha256Hex : String → String) (L : Loader) (hnv : sc.nvidia = none)
    (hclaim : sc.superuser = none) :
    ∃ s, (settingsSystem P sha256Hex L).Run (.boot sc)
        [.setup 0 claimRequest true [], .commit 0 [] (.ok ())] s ∧
      s.poisoned = some missingNvidia := by
  have harrive : arriveSetup P true true [] claimRequest =
      .ok (claimRequest.req, P.hashPassword claimRequest.req.password []) := by
    unfold arriveSetup
    rw [if_neg (by decide), if_neg (by decide), if_neg (by decide)]
  have hsubmit : setupSubmit sha256Hex sc claimRequest.req (P.hashPassword claimRequest.req.password []) [] =
      .error (.panic missingNvidia) :=
    setupSubmit_missing hnv hclaim _ _
  let s₁ : SettingsState := (SettingsState.boot sc).setWaiting 0
    (some (.setup claimRequest.req (P.hashPassword claimRequest.req.password [])))
  have hsetup : (SettingsState.boot sc).step P sha256Hex (.setup 0 claimRequest true []) = some s₁ := by
    have hrequired : (SettingsState.boot sc).setupRequired = true := by
      simp [SettingsState.boot, hclaim]
    unfold SettingsState.step
    dsimp only
    rw [hrequired, harrive]
    rfl
  have hcommit : s₁.step P sha256Hex (.commit 0 [] (.ok ())) =
      some { s₁.setWaiting 0 none with poisoned := some missingNvidia } := by
    show some (s₁.finish 0 (some .claimed) (setupSubmit sha256Hex sc claimRequest.req
      (P.hashPassword claimRequest.req.password []) []) (.ok ())) = _
    rw [hsubmit]
    rfl
  exact ⟨_, .snoc (.snoc (.nil _) hsetup) hcommit, rfl⟩

/-- A migrated store gets the record from its own keys. -/
theorem migrateV1_nvidia (sc : StoredConfig) : (migrateV1 sc).nvidia.isSome = true := by
  simp [StoredConfig.nvidia, migrateV1]

theorem defaultProviders_nvidia : (defaultProviders.find? (·.name == "nvidia")).isSome = true := by
  decide

/-- **What `load` lets through without the record**: only a store that the file has so, that nobody has claimed,
and whose registry is not empty. -/
theorem load_missing {dir : DataDir} {read : Except String Unit} (hload : L.load dir read = .ok (some sc))
    (hnv : sc.nvidia = none) :
    ∃ raw, dir.config = some raw ∧ L.serde.fromStr raw = .ok sc ∧ sc.superuser = none ∧ sc.providers ≠ [] := by
  obtain ⟨raw, parsed, migrated, hraw, hparsed, hmigrate, hsc, hvalid⟩ := Loader.load_eq_some hload
  have hunclaimed : sc.superuser = none := by
    by_contra hclaimed
    have hsome := validate_nvidia_isSome hvalid (Option.isSome_iff_ne_none.mpr hclaimed)
    rw [hnv] at hsome
    cases hsome
  have hreseed : sc = migrated ∧ migrated.providers ≠ [] := by
    unfold Loader.reseed at hsc
    split at hsc
    · subst hsc
      have hseeded := defaultProviders_nvidia
      rw [show defaultProviders.find? (·.name == "nvidia") = none from hnv] at hseeded
      cases hseeded
    · rename_i hne
      exact ⟨hsc, by simpa using hne⟩
  obtain ⟨rfl, hne⟩ := hreseed
  unfold Loader.migrate at hmigrate
  split at hmigrate
  · cases hmigrate
    have hmigrated := migrateV1_nvidia parsed
    rw [hnv] at hmigrated
    cases hmigrated
  · split at hmigrate
    · cases hmigrate
    · cases hmigrate
      exact ⟨raw, hraw, hparsed, hunclaimed, hne⟩

/-- **The handlers of a process are safe exactly where the store it loaded has the NVIDIA record.** -/
theorem nvidia_mut_found_iff {dir : DataDir} {read : Except String Unit}
    (hload : L.load dir read = .ok (some sc)) :
    (∀ es s, (settingsSystem P sha256Hex L).Run (.boot sc) es s → s.poisoned ≠ some missingNvidia) ↔
      sc.nvidia.isSome = true := by
  constructor
  · intro hsafe
    by_contra hmissing
    have hnv : sc.nvidia = none := by simpa using hmissing
    obtain ⟨-, -, -, hclaim, -⟩ := load_missing hload hnv
    obtain ⟨s, hrun, hpanic⟩ := claim_poisons P sha256Hex L hnv hclaim
    exact hsafe _ s hrun hpanic
  · intro hnv es s hrun
    have hboot : (SettingsState.boot sc).Safe := ⟨hnv, fun heq => by cases heq⟩
    exact (hrun.preserves (I := SettingsState.Safe) step_safe hboot).found

/-- A claimed store is loaded and served. -/
theorem nvidia_mut_found_small :
    StoredConfig.small.nvidia.isSome = true ∧
    ∀ es s, (settingsSystem plainPrimitives id (.of .small)).Run (.boot .small) es s →
      s.poisoned ≠ some missingNvidia :=
  have hload : (Loader.of .small).load ⟨some StoredConfig.small.text, none⟩ (.ok ()) = .ok (some .small) :=
    Loader.load_printed (StoreSerde.of_faithfulAt _) rfl (List.cons_ne_nil _ _) StoredConfig.small_valid
  ⟨rfl, (nvidia_mut_found_iff hload).mpr rfl⟩

/-- An unclaimed store with one provider, written by hand. -/
def unseeded : StoredConfig where
  providers := [{ name := "acme", baseUrl := "https://acme.example/v1" }]

/-- It is loaded, and the claim of it panics. -/
theorem load_accepts_missing_nvidia :
    (Loader.of unseeded).load ⟨some unseeded.text, none⟩ (.ok ()) = .ok (some unseeded) ∧
    ∃ s, (settingsSystem plainPrimitives id (.of unseeded)).Run (.boot unseeded)
        [.setup 0 claimRequest true [], .commit 0 [] (.ok ())] s ∧
      s.poisoned = some missingNvidia :=
  ⟨Loader.load_printed (StoreSerde.of_faithfulAt _) rfl (List.cons_ne_nil _ _) (by decide +kernel),
    claim_poisons _ _ _ rfl rfl⟩

end Runs

end Settings

end Flock
