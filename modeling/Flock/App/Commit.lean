/-
# Flock.App.Commit — a settings commit, with everything it writes.

`commit` syncs the mirror, checks, saves, and then swaps six pieces of state one after the other.  The two
steps that can fail come first, and the file changes in the last moment of the second (`save_replaces`); so a
refusal leaves the process and the file as they were, and a success leaves file, store and snapshot in
agreement.  `commit_refines` is the connection to the `AppState` of the other modules of this directory.
-/
import Flock.App.Basic
import Flock.Config.Json
import Flock.RateLimit

namespace Flock

/-- The process: what serves and configures, the data directory, the published snapshot, and the parts of the
router that are no runtimes. -/
structure Host where
  app : AppState
  dir : DataDir
  cfg : Config
  limiter : ProviderRateLimiter
  governorOverrides : List (String × ℕ)
  governorEnabled : Bool

namespace Host

variable (env : Env) (S : StoreSerde)

/-- What `commit` swaps once the candidate is saved. -/
def publish (h : Host) (candidate : StoredConfig) (t : ℤ) : Host :=
  { h with
    cfg := candidate.runtime
    app := h.app.publish env candidate t
    limiter := .build candidate.providers t
    governorOverrides := candidate.governor.overrides
    governorEnabled := candidate.governor.enabled }

/-- `commit`: the answer, and the process it leaves. -/
def commit (h : Host) (candidate : StoredConfig) (io : SaveIo) (t : ℤ) :
    Except CommitError Unit × Host :=
  let candidate := candidate.syncUpstreamMirror
  match validate candidate with
  | .error e => (.error (.invalid e), h)
  | .ok () =>
      match save S h.dir candidate io with
      | (.error e, dir) => (.error (.write e), { h with dir })
      | (.ok (), dir) => (.ok (), { h with dir }.publish env candidate t)

variable {env S} {h : Host} {candidate : StoredConfig} {io : SaveIo} {t : ℤ}

/-- **Every way a commit ends.** -/
theorem commit_cases (env : Env) (S : StoreSerde) (h : Host) (candidate : StoredConfig) (io : SaveIo)
    (t : ℤ) :
    (∃ e, h.commit env S candidate io t = (.error (.invalid e), h)) ∨
    (∃ e dir, dir.config = h.dir.config ∧
      h.commit env S candidate io t = (.error (.write e), { h with dir })) ∨
    (∃ dir, dir.config = some (savedText S candidate.syncUpstreamMirror) ∧
      (validate candidate.syncUpstreamMirror).isOk = true ∧
      h.commit env S candidate io t =
        (.ok (), { h with dir }.publish env candidate.syncUpstreamMirror t)) := by
  have hsave := save_replaces S h.dir candidate.syncUpstreamMirror io
  unfold commit
  dsimp only
  cases hvalid : validate candidate.syncUpstreamMirror with
  | error e => exact .inl ⟨e, rfl⟩
  | ok u =>
      cases hres : save S h.dir candidate.syncUpstreamMirror io with
      | mk answer dir =>
          rw [hres] at hsave
          cases answer with
          | error e => exact .inr (.inl ⟨e, dir, hsave.kept e rfl, rfl⟩)
          | ok v => exact .inr (.inr ⟨dir, hsave.replaced rfl, rfl, rfl⟩)

/-- What `publish` does to the part of the process the other modules know is the `commit` they know. -/
theorem commit_refines :
    ((h.commit env S candidate io t).1 = .ok () ∧
      h.app.commit env candidate (save S h.dir candidate.syncUpstreamMirror io).1 t =
        .ok (h.commit env S candidate io t).2.app) ∨
    (∃ e, (h.commit env S candidate io t).1 = .error e ∧
      h.app.commit env candidate (save S h.dir candidate.syncUpstreamMirror io).1 t = .error e) := by
  unfold commit AppState.commit persist
  dsimp only
  cases hvalid : validate candidate.syncUpstreamMirror with
  | error e => exact .inr ⟨.invalid e, rfl, rfl⟩
  | ok u =>
      cases hres : save S h.dir candidate.syncUpstreamMirror io with
      | mk answer dir =>
          cases answer with
          | error e => exact .inr ⟨.write e, rfl, rfl⟩
          | ok v => exact .inl ⟨rfl, rfl⟩

/-- A valid candidate is printed as it is: the version stamp and the second sync change nothing. -/
theorem savedText_sync (hvalid : (validate candidate.syncUpstreamMirror).isOk = true) :
    savedText S candidate.syncUpstreamMirror = S.toVecPretty candidate.syncUpstreamMirror := by
  have hversion := validate_version hvalid
  have hstamp : { candidate.syncUpstreamMirror with version := currentVersion } =
      candidate.syncUpstreamMirror := by
    rw [← hversion]
  unfold savedText
  rw [hstamp, StoredConfig.syncUpstreamMirror_idem]

/-- **A commit is atomic.**  Refused, it changes nothing but what a failed save leaves beside the file;
accepted, a claimed candidate is what is in memory, what the file says, and what the snapshot shows. -/
theorem commit_atomic {L : Loader}
    (hserde : L.serde.FaithfulAt candidate.syncUpstreamMirror) (result : Except CommitError Unit) (h' : Host)
    (hcommit : h.commit env L.serde candidate io t = (result, h')) :
    (∀ e, result = .error e → h'.dir.config = h.dir.config ∧ h' = { h with dir := h'.dir }) ∧
    (result = .ok () → candidate.superuser.isSome = true →
      L.load h'.dir (.ok ()) = .ok (some h'.app.store) ∧
      h'.app.store = candidate.syncUpstreamMirror ∧ h'.cfg = h'.app.store.runtime) := by
  rcases commit_cases env L.serde h candidate io t with
    ⟨e, heq⟩ | ⟨e, dir, hdir, heq⟩ | ⟨dir, hdir, hvalid, heq⟩
  · rw [hcommit] at heq
    cases heq
    exact ⟨fun _ _ => ⟨rfl, rfl⟩, fun hok => by cases hok⟩
  · rw [hcommit] at heq
    cases heq
    exact ⟨fun _ _ => ⟨hdir, rfl⟩, fun hok => by cases hok⟩
  · rw [hcommit] at heq
    cases heq
    refine ⟨fun _ herr => (by cases herr), fun _ hclaimed => ?_⟩
    have hstore : ({ h with dir }.publish env candidate.syncUpstreamMirror t).app.store =
        candidate.syncUpstreamMirror := rfl
    refine ⟨?_, hstore, by rw [hstore]; rfl⟩
    rw [hstore]
    apply Loader.load_printed hserde _ _ hvalid
    · rw [← savedText_sync hvalid]
      exact hdir
    · exact validate_seeded hvalid (by simpa using hclaimed)

/-- The process of a fresh install, in an empty data directory. -/
def fresh (env : Env) (t : ℤ) : Host where
  app := .boot env .fresh {} 0 t
  dir := ⟨none, none⟩
  cfg := StoredConfig.fresh.runtime
  limiter := .build StoredConfig.fresh.providers t
  governorOverrides := []
  governorEnabled := true

/-- A small claimed store is committed to a fresh install, and read back. -/
theorem commit_atomic_small :
    ∃ h', (fresh (fun _ => none) 0).commit (fun _ => none) (.of StoredConfig.small.syncUpstreamMirror)
        .small {} 0 = (.ok (), h') ∧
      (Loader.of StoredConfig.small.syncUpstreamMirror).load h'.dir (.ok ()) =
        .ok (some StoredConfig.small.syncUpstreamMirror) := by
  have hvalid : validate StoredConfig.small.syncUpstreamMirror = .ok () := by decide +kernel
  obtain ⟨h', hcommit⟩ : ∃ h', (fresh (fun _ => none) 0).commit (fun _ => none)
      (.of StoredConfig.small.syncUpstreamMirror) .small {} 0 = (.ok (), h') := by
    unfold commit
    simp only [hvalid]
    exact ⟨_, rfl⟩
  obtain ⟨-, hok⟩ := commit_atomic (L := .of StoredConfig.small.syncUpstreamMirror)
    (StoreSerde.of_faithfulAt _) _ _ hcommit
  obtain ⟨hload, hstore, -⟩ := hok rfl rfl
  exact ⟨h', hcommit, hload.trans (by rw [hstore])⟩

end Host

end Flock
