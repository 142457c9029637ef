/-
# Flock.Settings.Claim — the first-run claim.

A process that starts without a superuser serves `POST /setup` until one of them commits.  Any number may be on their
way: `setup_required` is read without the store lock, so a request can pass that test, hash its password, and find at
the lock that another was first.  What decides is the superuser in the store.

So before a claim the store is the one the process started with, and nothing else has been let in (`Unclaimed`); the
claim replaces the users by its own; and from then on no other claim commits, though `setup_required` may still say
so.
-/
import Flock.Settings.Authority

namespace Flock

open Lib (System)

namespace Settings

variable {τ : Type} {P : Primitives τ} {sha256Hex : String → String} {L : Loader}
  {s s' : SettingsState} {e : SettingsEvent} {es : List SettingsEvent} {sc sc' stored : StoredConfig}

/-- The step in which the claim of `req` commits. -/
def Claims (s : SettingsState) (e : SettingsEvent) (s' : SettingsState) (req : SetupReq) (hash : String) : Prop :=
  ∃ id raw saved, e = .commit id raw saved ∧ s.waiting id = some (.setup req hash) ∧ s'.waiting id = some .claimed

/-! ## The claim

The tail of a setup adds keys and models.  It touches the users nowhere, so who the superuser is has been decided
before. -/

/-- The keys of a setup belong to a user and make none. -/
theorem addSetupKeys_users {owner : String} : ∀ {ks : List SetupKey} {sc : StoredConfig},
    addSetupKeys owner ks sc = .ok sc' → sc'.users = sc.users
  | [], sc, h => by
      cases h
      rfl
  | k :: rest, sc, h => by
      obtain ⟨sc₁, hfirst, hrest⟩ := bind_eq_ok.mp h
      exact (addSetupKeys_users hrest).trans (nvidiaMut_users hfirst)

/-- The end of a claim: the keys of the request, every model, and the client key. -/
theorem setupTail_users {req : SetupReq} {raw : List UInt8}
    (h : (addSetupKeys req.username req.nimKeys sc >>= fun sc =>
      nvidiaMut sc (fun nv => .ok { nv with models := ["*"] }) >>= fun sc =>
        match req.createClientKey with
        | some name =>
            .ok { sc with clientKeys := sc.clientKeys ++ [mintedKey sha256Hex name req.username raw] }
        | none => .ok sc) = .ok sc') : sc'.users = sc.users := by
  obtain ⟨sc₁, hkeys, h⟩ := bind_eq_ok.mp h
  obtain ⟨sc₂, hmodels, h⟩ := bind_eq_ok.mp h
  have hlast : sc'.users = sc₂.users := by
    split at h <;> cases h <;> rfl
  calc sc'.users = sc₂.users := hlast
    _ = sc₁.users := nvidiaMut_users hmodels
    _ = sc.users := addSetupKeys_users hkeys

/-- It needs a store without a superuser, and leaves one whose only user is the claimant. -/
theorem setupSubmit_users {req : SetupReq} {hash : String} {raw : List UInt8}
    (h : setupSubmit sha256Hex sc req hash raw = .ok sc') :
    sc.superuser = none ∧ sc'.users = [⟨req.username, hash, .superuser, none⟩] := by
  unfold setupSubmit at h
  split at h
  · cases h
  · rename_i hnone
    refine ⟨Option.not_isSome_iff_eq_none.mp hnone, ?_⟩
    obtain ⟨sc₁, hadopt, h⟩ := bind_eq_ok.mp h
    refine Eq.trans ?_ (nvidiaMut_users hadopt)
    show sc'.users = StoredConfig.users
      { sc₁ with clientKeys := sc₁.clientKeys.map fun c => { c with owner := req.username } }
    dsimp only at h
    split at h
    · obtain ⟨sc₂, hbase, h⟩ := bind_eq_ok.mp h
      exact (setupTail_users h).trans (nvidiaMut_users hbase)
    · exact setupTail_users h

/-- The mirror has nothing to do with users. -/
theorem users_sync (sc : StoredConfig) : sc.syncUpstreamMirror.users = sc.users := by
  unfold StoredConfig.syncUpstreamMirror
  split <;> rfl

/-- The end of a setup that committed. -/
theorem Claims.spec {req : SetupReq} {hash : String} (h : s.step P sha256Hex e = some s')
    (hclaims : Claims s e s' req hash) :
    s.store.superuser = none ∧ s'.store.users = [⟨req.username, hash, .superuser, none⟩] := by
  obtain ⟨id, raw, saved, rfl, hwaiting, hclaimed⟩ := hclaims
  simp only [SettingsState.step, Option.ite_none_left_eq_some, hwaiting, Option.some.injEq] at h
  obtain ⟨-, rfl⟩ := h
  -- a section that does not publish ends the request
  have hended : ∀ {t : SettingsState}, t.waiting = (s.setWaiting id none).waiting → t.waiting id ≠ some .claimed := by
    intro t ht
    rw [ht]
    simp [SettingsState.setWaiting]
  unfold SettingsState.finish at hclaimed ⊢
  split at hclaimed
  · exact absurd hclaimed (hended rfl)
  · exact absurd hclaimed (hended rfl)
  · rename_i sc hsc
    split at hclaimed
    · exact absurd hclaimed (hended rfl)
    · rename_i stored hp
      obtain ⟨rfl, -⟩ := persist_ok hp
      obtain ⟨hnone, husers⟩ := setupSubmit_users hsc
      exact ⟨hnone, (users_sync sc).trans husers⟩

/-! ## Before it

A request can already be waiting then, but only with a claim: every other request is turned away by the flag. -/

/-- Nothing has been let in: the store is the one of the start, and only claims wait. -/
structure Unclaimed (stored : StoredConfig) (s : SettingsState) : Prop where
  store : s.store = stored
  required : s.setupRequired = true
  waiting : ∀ id w, s.waiting id = some w → ∃ req hash, w = .setup req hash

/-- A claim may wait, or cease to. -/
theorem Unclaimed.setWaiting (h : Unclaimed stored s) (id : ℕ) {w : Option Waiting}
    (hw : ∀ w', w = some w' → ∃ req hash, w' = .setup req hash) : Unclaimed stored (s.setWaiting id w) := by
  refine ⟨h.store, h.required, fun id' w' hw' => ?_⟩
  have hw' : Function.update s.waiting id w id' = some w' := hw'
  by_cases heq : id' = id
  · rw [heq, Function.update_self] at hw'
    exact hw w' hw'
  · rw [Function.update_of_ne heq] at hw'
    exact h.waiting id' w' hw'

/-- A section that ends without a superuser has published nothing. -/
theorem Unclaimed.finish (h : Unclaimed stored s) (id : ℕ) {req : SetupReq} {hash : String} {raw : List UInt8}
    {saved : Except String Unit}
    (hnone : (s.finish id (some .claimed) (setupSubmit sha256Hex s.store req hash raw) saved).store.superuser = none) :
    Unclaimed stored (s.finish id (some .claimed) (setupSubmit sha256Hex s.store req hash raw) saved) := by
  have hended : Unclaimed stored (s.setWaiting id none) := h.setWaiting id fun w' hw' => by cases hw'
  unfold SettingsState.finish at hnone ⊢
  split
  · exact ⟨hended.store, hended.required, hended.waiting⟩
  · exact hended
  · rename_i sc hsc
    split
    · exact hended
    · rename_i stored' hp
      rw [hsc] at hnone
      simp only [hp] at hnone
      obtain ⟨rfl, -⟩ := persist_ok hp
      have husers := (users_sync sc).trans (setupSubmit_users hsc).2
      rw [StoredConfig.superuser, husers] at hnone
      simp at hnone

/-- One step that does not claim. -/
theorem Unclaimed.step (h : Unclaimed stored s) (hstep : s.step P sha256Hex e = some s')
    (hnone : s'.store.superuser = none) : Unclaimed stored s' := by
  simp only [SettingsState.step, Option.ite_none_left_eq_some] at hstep
  obtain ⟨-, hstep⟩ := hstep
  cases e with
  -- a request finds the flag set, and is turned away
  | request id caller req salt =>
      dsimp only at hstep
      rw [if_pos h.required] at hstep
      split at hstep
      · cases hstep
      · cases hstep
        exact h
  -- a setup may come to wait at the lock
  | setup id body admitted salt =>
      dsimp only at hstep
      split at hstep
      · cases hstep
      · split at hstep
        · cases hstep
          exact h
        · cases hstep
          exact h.setWaiting id fun w' hw' => ⟨_, _, (Option.some.inj hw').symm⟩
  -- who waits there waits with a claim; a claim that commits would leave a superuser
  | commit id raw saved =>
      dsimp only at hstep
      split at hstep
      · rename_i caller work hw
        obtain ⟨req, hash, hsetup⟩ := h.waiting id _ hw
        cases hsetup
      · cases hstep
        exact h.finish id hnone
      · cases hstep
  | claimed id =>
      dsimp only at hstep
      split at hstep
      · rename_i hw
        obtain ⟨req, hash, hsetup⟩ := h.waiting id _ hw
        cases hsetup
      · cases hstep

/-! ## Every run

The superuser appears in one step of the run, if at all, and that step is a claim. -/

/-- The superusers of a store with one user. -/
theorem superusers_of_users {name hash : String} (h : sc.users = [⟨name, hash, .superuser, none⟩]) :
    superusers sc = [name] := by
  unfold superusers
  rw [h]
  rfl

/-- As long as there is no superuser. -/
theorem unclaimed_of_run {dir : DataDir} {read : Except String Unit} (hstart : L.start dir read = .ok stored)
    (hrun : (settingsSystem P sha256Hex L).Run (.boot stored) es s) (hnone : s.store.superuser = none) :
    Unclaimed stored s := by
  have hinv : (validate s.store).isOk = true ∧ (s.store.superuser = none → Unclaimed stored s) := by
    refine hrun.preserves
      (I := fun s => (validate s.store).isOk = true ∧ (s.store.superuser = none → Unclaimed stored s)) ?_ ?_
    · intro s e s' hs hstep
      have hvalid' : (validate s'.store).isOk = true := by
        rcases SettingsState.step_store hstep with hsame | ⟨-, -, hvalid', -⟩
        · rw [hsame]
          exact hs.1
        · exact hvalid'
      refine ⟨hvalid', fun hnone' => ?_⟩
      cases hsu : s.store.superuser with
      | none => exact (hs.2 hsu).step hstep hnone'
      | some su =>
          -- a superuser stays
          obtain ⟨-, hkept⟩ := step_superusers ⟨hs.1, superusers_of_valid hs.1 hsu⟩ hstep
          obtain ⟨su', hfind, -⟩ := superuser_of_superusers hkept
          rw [hfind] at hnone'
          cases hnone'
    · refine ⟨Loader.start_valid hstart, fun hboot => ⟨rfl, ?_, fun id w hw => (nomatch hw)⟩⟩
      exact Option.isNone_iff_eq_none.mpr hboot
  exact hinv.2 hnone

/-- **The proxy is claimed once.**  In every run from a process start, as long as there is no superuser the store is
the one the process started with, and `setup_required` is still set.  A setup that commits finds that store, and
leaves the claimant as its only user; and in every continuation, however many setups had passed the test of the flag
before, the claimant stays the one superuser and no other setup commits. -/
theorem claimed_once {dir : DataDir} {read : Except String Unit} (hstart : L.start dir read = .ok stored)
    (hrun : (settingsSystem P sha256Hex L).Run (.boot stored) es s) :
    (s.store.superuser = none → s.store = stored ∧ s.setupRequired = true) ∧
    ∀ e s₁ req hash, (settingsSystem P sha256Hex L).step s e s₁ → Claims s e s₁ req hash →
      s.store = stored ∧ s₁.store.users = [⟨req.username, hash, .superuser, none⟩] ∧
      ∀ fs s₂, (settingsSystem P sha256Hex L).Run s₁ fs s₂ → superusers s₂.store = [req.username] ∧
        ∀ e' s₃ req' hash', (settingsSystem P sha256Hex L).step s₂ e' s₃ → ¬ Claims s₂ e' s₃ req' hash' := by
  refine ⟨fun hnone => ?_, fun e s₁ req hash hstep hclaims => ?_⟩
  · have hunclaimed := unclaimed_of_run hstart hrun hnone
    exact ⟨hunclaimed.store, hunclaimed.required⟩
  · obtain ⟨hnone, husers⟩ := hclaims.spec hstep
    refine ⟨(unclaimed_of_run hstart hrun hnone).store, husers, fun fs s₂ hlater => ?_⟩
    have hinit : (settingsSystem P sha256Hex L).init (.boot stored) := ⟨dir, read, stored, hstart, rfl⟩
    have hreach : (settingsSystem P sha256Hex L).Reachable s₁ := ⟨_, _, hinit, hrun.snoc hstep⟩
    have hkept := hlater.preserves
      (I := fun s => (validate s.store).isOk = true ∧ superusers s.store = [req.username]) step_superusers
      ⟨reachable_valid hreach, superusers_of_users husers⟩
    refine ⟨hkept.2, fun e' s₃ req' hash' hstep' hclaims' => ?_⟩
    obtain ⟨su, hfind, -⟩ := superuser_of_superusers hkept.2
    rw [(hclaims'.spec hstep').1] at hfind
    cases hfind

/-- It waits with a claim. -/
def Waiting.isSetup : Waiting → Bool
  | .setup _ _ => true
  | .settings _ _ | .claimed => false

/-- It was turned away by another claim. -/
def Waiting.isClaimed : Waiting → Bool
  | .claimed => true
  | .settings _ _ | .setup _ _ => false

/-- Two claimers, both past the test of the flag. -/
def racingClaims : List SettingsEvent :=
  [.setup 0 (.json ⟨"ops", "correct horse", none, [⟨"nvapi-1", none⟩], none⟩) true [],
   .setup 1 (.json ⟨"eve", "battery staple", none, [⟨"nvapi-2", none⟩], none⟩) true []]

/-- Who reaches the lock first has the proxy. -/
theorem claimed_once_race : ∃ s s₁ req hash,
    (settingsSystem plainPrimitives id (.of .fresh)).Run (.boot .fresh) racingClaims s ∧
    Claims s (.commit 1 [] (.ok ())) s₁ req hash ∧
    s.store = .fresh ∧ s₁.store.users = [⟨req.username, hash, .superuser, none⟩] ∧
    ∀ fs s₂, (settingsSystem plainPrimitives id (.of .fresh)).Run s₁ fs s₂ → superusers s₂.store = [req.username] ∧
      ∀ e' s₃ req' hash', (settingsSystem plainPrimitives id (.of .fresh)).step s₂ e' s₃ →
        ¬ Claims s₂ e' s₃ req' hash' := by
  have hexec : (System.exec (SettingsState.step plainPrimitives id) (.boot .fresh) racingClaims).any (fun s =>
      (s.step plainPrimitives id (.commit 1 [] (.ok ()))).any fun s₁ =>
        (s.waiting 1).any Waiting.isSetup && (s₁.waiting 1).any Waiting.isClaimed) = true := by
    decide +kernel
  obtain ⟨s, hrun, hend⟩ := @System.run_of_exec_any _ _ _ _
    (settingsSystem plainPrimitives id (.of .fresh)).init _ _ hexec
  simp only [Option.any_eq_true, Bool.and_eq_true] at hend
  obtain ⟨s₁, hstep, ⟨w, hw, hsetup⟩, ⟨w', hw', hclaimed⟩⟩ := hend
  cases w' with
  | settings caller work => cases hclaimed
  | setup req hash => cases hclaimed
  | claimed =>
      cases w with
      | settings caller work => cases hsetup
      | claimed => cases hsetup
      | setup req hash =>
          have hclaims : Claims s (.commit 1 [] (.ok ())) s₁ req hash := ⟨1, [], .ok (), rfl, hw, hw'⟩
          have hstart : (Loader.of .fresh).start ⟨some StoredConfig.fresh.text, none⟩ (.ok ()) = .ok .fresh :=
            Loader.start_of (List.cons_ne_nil _ _) StoredConfig.fresh_valid
          exact ⟨s, s₁, req, hash, hrun, hclaims, (claimed_once hstart hrun).2 _ s₁ req hash hstep hclaims⟩

end Settings

end Flock
