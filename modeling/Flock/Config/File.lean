/-
# Flock.Config.File — `config.json`: what is published from a store, saved and loaded.

`serde_json` and the derived implementations are not part of this repository: `StoreSerde` is what `save` and
`load` call of them, `StoreSerde.FaithfulAt` what they rely on.  The file operations answer what they like;
`SaveIo` is one answer to each, in the order in which `save` asks.
-/
import Mathlib.Data.Rat.Defs
import Flock.Config

namespace Flock

open Std (ExtTreeMap)

/-! ## The published snapshot -/

/-- `Config`: what the request paths read. Durations are in seconds. -/
structure Config where
  baseUrl : String
  maxWait : ℕ
  heartbeat : ℕ
  modelsTtl : ℕ
  streamIdle : ℕ
  requestTimeout : ℕ
  strictPassthrough : Bool
  /-- Secret digest to client name; `none` without client authentication. -/
  clients : Option (ExtTreeMap String String)
  maxInflight : ℕ
  governor : GovernorCfg

namespace StoredConfig

/-- The store of a fresh install: `StoredConfig::default`. -/
def fresh : StoredConfig := { providers := defaultProviders }

theorem fresh_valid : (validate fresh).isOk = true := by decide +kernel

/-- The map of `runtime`: of two keys with one digest the later one counts. -/
def clientNames (sc : StoredConfig) : ExtTreeMap String String :=
  sc.clientKeys.foldl (fun names k => names.insert k.secretSha256 k.name) ∅

/-- `runtime`. -/
def runtime (sc : StoredConfig) : Config where
  baseUrl := Text.trimEndMatches '/' sc.upstream.baseUrl
  maxWait := sc.limits.maxWaitSecs
  heartbeat := sc.limits.heartbeatSecs
  modelsTtl := sc.limits.modelsTtlSecs
  streamIdle := sc.limits.streamIdleSecs
  requestTimeout := sc.limits.requestTimeoutSecs
  strictPassthrough := sc.limits.strictPassthrough
  clients := match sc.mode with
    | .open => none
    | .keyed => some sc.clientNames
  maxInflight := sc.limits.maxInflight
  governor := sc.governor

end StoredConfig

/-! ## Saving -/

/-- What `save` and `load` call of `serde_json`. -/
structure StoreSerde where
  toVecPretty : StoredConfig → String
  fromStr : String → Except String StoredConfig

/-- Printing the store loses nothing. -/
def StoreSerde.FaithfulAt (S : StoreSerde) (sc : StoredConfig) : Prop :=
  S.fromStr (S.toVecPretty sc) = .ok sc

/-- The data directory: the texts of `config.json` and of `config.json.tmp`. -/
structure DataDir where
  config : Option String
  tmp : Option String
  deriving DecidableEq, Repr

/-- How the file operations of one `save` end. -/
structure SaveIo where
  createDirAll : Except String Unit := .ok ()
  /-- Whether a stale temporary file could be removed. -/
  removeFile : Bool := true
  openNew : Except String Unit := .ok ()
  /-- A failed write: the error, and how much of the text got through. -/
  writeAll : Except (String × ℕ) Unit := .ok ()
  syncAll : Except String Unit := .ok ()
  rename : Except String Unit := .ok ()

/-- The first characters of a text. -/
def textPrefix (n : ℕ) (s : String) : String := String.ofList (s.toList.take n)

/-- The directory once a stale temporary file was dropped. -/
def DataDir.dropTmp (dir : DataDir) (removed : Bool) : DataDir :=
  if removed then { dir with tmp := none } else dir

@[simp] theorem DataDir.config_dropTmp (dir : DataDir) (removed : Bool) :
    (dir.dropTmp removed).config = dir.config := by
  unfold dropTmp
  split <;> rfl

/-- The text that a save puts in place. -/
def savedText (S : StoreSerde) (sc : StoredConfig) : String :=
  S.toVecPretty { sc with version := currentVersion }.syncUpstreamMirror

/-- `save` once the directory is there: the temporary file is made, written, synced and renamed. -/
def replaceFile (dir : DataDir) (data : String) (io : SaveIo) : Except String Unit × DataDir :=
  -- `create_new` refuses what `remove_file` left
  if dir.tmp.isSome then (.error "File exists (os error 17)", dir)
  else
    match io.openNew, io.writeAll, io.syncAll, io.rename with
    | .error e, _, _, _ => (.error e, dir)
    | .ok (), .error (e, n), _, _ => (.error e, { dir with tmp := some (textPrefix n data) })
    | .ok (), .ok (), .error e, _ => (.error e, { dir with tmp := some data })
    | .ok (), .ok (), .ok (), .error e => (.error e, { dir with tmp := some data })
    -- the directory is synced after this, and the answer of that is dropped
    | .ok (), .ok (), .ok (), .ok () => (.ok (), { config := some data, tmp := none })

/-- `save`: the answer, and the directory it leaves. -/
def save (S : StoreSerde) (dir : DataDir) (sc : StoredConfig) (io : SaveIo) :
    Except String Unit × DataDir :=
  match io.createDirAll with
  | .error e => (.error e, dir)
  | .ok () => replaceFile (dir.dropTmp io.removeFile) (savedText S sc) io

/-- What a save can do to `config.json`. -/
structure Replaces (before : Option String) (data : String) (result : Except String Unit × DataDir) :
    Prop where
  kept : ∀ e, result.1 = .error e → result.2.config = before
  replaced : result.1 = .ok () → result.2.config = some data

theorem Replaces.of_error {before : Option String} {data e : String} {dir : DataDir}
    (h : dir.config = before) : Replaces before data (.error e, dir) where
  kept _ _ := h
  replaced h := by cases h

theorem replaceFile_replaces (dir : DataDir) (data : String) (io : SaveIo) :
    Replaces dir.config data (replaceFile dir data io) := by
  unfold replaceFile
  split
  · exact .of_error rfl
  · split
    · exact .of_error rfl
    · exact .of_error rfl
    · exact .of_error rfl
    · exact .of_error rfl
    · exact ⟨fun _ h => (by cases h), fun _ => rfl⟩

/-- **`config.json` changes in one step, the last one that can fail.** -/
theorem save_replaces (S : StoreSerde) (dir : DataDir) (sc : StoredConfig) (io : SaveIo) :
    Replaces dir.config (savedText S sc) (save S dir sc io) := by
  unfold save
  split
  · exact .of_error rfl
  · have h := replaceFile_replaces (dir.dropTmp io.removeFile) (savedText S sc) io
    rwa [DataDir.config_dropTmp] at h

/-! ## Loading -/

/-- `migrate_v1`: the one upstream of a version 1 store becomes the NVIDIA record. -/
def migrateV1 (sc : StoredConfig) : StoredConfig :=
  let nvidia : ProviderDef :=
    { name := "nvidia"
      baseUrl := sc.upstream.baseUrl
      keys := sc.upstream.nimKeys.map fun k =>
        { key := k.key, keyEnv := "", owner := k.owner, enabled := k.enabled, rpm := k.rpm }
      models := ["*"]
      modelMap := [("free", "nvidia/nemotron-3-ultra-550b-a55b")]
      displayName := "NVIDIA"
      enabled := true
      freeTier := true }
  { sc with
    providers := nvidia :: defaultProviders.filter fun p => p.name != "nvidia"
    routing := {}
    version := currentVersion }

/-- What the process takes from elsewhere to load: the JSON reader, the quoting of the messages and the path
it names in them. -/
structure Loader where
  serde : StoreSerde
  quote : String → String
  path : String

namespace Loader

variable (L : Loader)

/-- The version check and the migration of `load`. -/
def migrate (sc : StoredConfig) : Except String StoredConfig :=
  if sc.version = 1 then .ok (migrateV1 sc)
  else if sc.version > currentVersion then
    .error (L.path ++ " has version " ++ toString sc.version ++
      " but this build understands version " ++ toString currentVersion ++ "; upgrade flock")
  else .ok sc

/-- An emptied registry is seeded again. -/
def reseed (sc : StoredConfig) : StoredConfig :=
  if sc.providers.isEmpty then { sc with providers := defaultProviders } else sc

/-- The check of `load`. -/
def accept (sc : StoredConfig) : Except String (Option StoredConfig) :=
  match validate sc with
  | .ok () => .ok (some sc)
  | .error e => .error (e.message L.quote)

/-- `load`, from the text of `config.json` and the answer of the read. -/
def load (dir : DataDir) (read : Except String Unit) : Except String (Option StoredConfig) :=
  match dir.config, read with
  | none, _ => .ok none
  | some _, .error e => .error ("cannot read " ++ L.path ++ ": " ++ e)
  | some raw, .ok () =>
      match L.serde.fromStr raw with
      | .error e =>
          .error (L.path ++ " is corrupt (" ++ e ++ "); restore it from backup, or delete it to re-run " ++
            "first-time setup (this discards all settings and keys)")
      | .ok sc => do
          let sc ← L.migrate sc
          L.accept (reseed sc)

/-- The store the process starts with: the one it loaded, or a fresh one. -/
def start (dir : DataDir) (read : Except String Unit) : Except String StoredConfig :=
  (L.load dir read).map fun sc => sc.getD .fresh

end Loader

variable {L : Loader} {dir : DataDir} {read : Except String Unit} {sc : StoredConfig}
  {stored : Option StoredConfig}

theorem Loader.accept_eq_ok (h : L.accept sc = .ok stored) : stored = some sc ∧ (validate sc).isOk = true := by
  unfold accept at h
  split at h
  · rename_i hvalid
    cases h
    exact ⟨rfl, by rw [hvalid]; rfl⟩
  · cases h

theorem Loader.accept_of_valid (h : (validate sc).isOk = true) : L.accept sc = .ok (some sc) := by
  unfold accept
  split
  · rfl
  · rename_i e herr
    rw [herr] at h
    cases h

/-- What `load` accepts: a store that was parsed, migrated, seeded again if need be, and is valid. -/
theorem Loader.load_eq_some (h : L.load dir read = .ok (some sc)) :
    ∃ raw parsed migrated, dir.config = some raw ∧ L.serde.fromStr raw = .ok parsed ∧
      L.migrate parsed = .ok migrated ∧ sc = reseed migrated ∧ (validate sc).isOk = true := by
  unfold load at h
  split at h
  · cases h
  · cases h
  · rename_i raw hraw
    split at h
    · cases h
    · rename_i parsed hparsed
      cases hmigrate : L.migrate parsed with
      | error e =>
          rw [hmigrate] at h
          cases h
      | ok migrated =>
          rw [hmigrate] at h
          obtain ⟨hsc, hvalid⟩ := accept_eq_ok h
          cases hsc
          exact ⟨raw, parsed, migrated, hraw, hparsed, hmigrate, rfl, hvalid⟩

/-- A process starts with a valid store. -/
theorem Loader.start_valid (h : L.start dir read = .ok sc) : (validate sc).isOk = true := by
  unfold start at h
  cases hload : L.load dir read with
  | error e =>
      rw [hload] at h
      cases h
  | ok loaded =>
      rw [hload] at h
      cases h
      cases loaded with
      | none => exact StoredConfig.fresh_valid
      | some stored =>
          obtain ⟨-, -, -, -, -, -, -, hvalid⟩ := load_eq_some hload
          exact hvalid

/-- **A current, valid, seeded store is read back as it was printed.** -/
theorem Loader.load_printed (hS : L.serde.FaithfulAt sc) (hdir : dir.config = some (L.serde.toVecPretty sc))
    (hseeded : sc.providers ≠ []) (hvalid : (validate sc).isOk = true) :
    L.load dir (.ok ()) = .ok (some sc) := by
  have hversion := validate_version hvalid
  have hmigrate : L.migrate sc = .ok sc := by
    unfold migrate
    rw [if_neg (by rw [hversion]; decide), if_neg (by rw [hversion]; decide)]
  have hreseed : reseed sc = sc := by
    unfold reseed
    rw [if_neg (by simpa using hseeded)]
  unfold load
  rw [hdir]
  unfold StoreSerde.FaithfulAt at hS
  simp only [hS]
  show (L.migrate sc >>= fun sc => L.accept (reseed sc)) = _
  rw [hmigrate]
  show L.accept (reseed sc) = _
  rw [hreseed]
  exact accept_of_valid hvalid

end Flock
