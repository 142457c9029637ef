/-
# Flock.Models — the model catalogue.

`aggregate_models` merges the registry into the body of an upstream `/v1/models`.  The entries of the upstream come
first, each with a record of the provider `nvidia`; the other providers add an entry for each of their models that is
not listed yet.  The wildcard `"*"` is no model.

An entry is written to by its name, and `serde_json` panics there unless the entry is an object or null.
-/
import Flock.Coalescer.Merge
import Flock.Config.Json
import Flock.Lib.FirstSeen
import Flock.Lib.InsertionMap
import Flock.Router.Basic

namespace Flock

/-! ## The registry, as the catalogue shows it

The catalogue reads of a provider what the registry says at that moment: its breaker, its health and its models. -/

/-- `ProviderMeta`. -/
structure ProviderMeta where
  provider : String
  displayName : String
  usable : Bool
  healthy : Bool
  latencyMs : Option ℚ
  elo : ℤ
  circuit : String
  models : List String

/-- The names of the states, as `provider_metadata` gives them. -/
def CircuitState.label : CircuitState → String
  | .closed => "closed"
  | .halfOpen => "half_open"
  | .open => "open"

/-- One record of `provider_metadata`. -/
def Router.providerMeta (env : Env) (r : Router) (a : ℕ) : ProviderMeta :=
  let d := (r.objs a).defn
  { provider := d.name
    displayName := d.displayName
    usable := d.usable env
    healthy := r.health.isHealthy d.name
    latencyMs := r.health.latencyMs d.name
    elo := r.health.getElo d.name
    circuit := (r.objs a).circuit.state.label
    models := d.models }

/-- `provider_metadata`, over the names of the registry in the order that its map is visited in. -/
def Router.providerMetadata (env : Env) (r : Router) (visited : List String) : List ProviderMeta :=
  visited.filterMap fun name => (r.runtimes name).map (r.providerMeta env)

/-! ## The merge

Three loops, as in the source: over the entries of the upstream, over the providers, and over the models of each. The
ids that have been seen go along through all of them. -/

namespace Catalogue

/-- `flock_model_meta`; `strikes` is `empty_strike_count`. -/
def flockModelMeta (strikes : String → String → ℕ) (pm : ProviderMeta) (model : String) : StoreJson :=
  .obj [("circuit", .str pm.circuit), ("display_name", .str pm.displayName), ("elo", .num (.int pm.elo)),
    ("empty_strikes", StoreJson.nat (strikes pm.provider model)), ("healthy", .bool pm.healthy),
    ("latency_ms", (pm.latencyMs.map fun ms => Json.num (.float ms)).getD .null), ("provider", .str pm.provider),
    ("usable", .bool pm.usable)]

/-- The id of an entry, where it is a string. -/
def modelId (entry : StoreJson) : Option String := (entry.get "id").bind Json.asStr

/-- `entry["flock"] = meta`; `none`: it panics. -/
def setFlock (record : StoreJson) : StoreJson → Option StoreJson
  | .obj fields => some (.obj (insertField "flock" record fields))
  | .null => some (.obj [("flock", record)])
  | _ => none

/-- The entry of a model that the upstream does not list. -/
def modelEntry (strikes : String → String → ℕ) (pm : ProviderMeta) (model : String) : StoreJson :=
  .obj [("flock", flockModelMeta strikes pm model), ("id", .str model), ("object", .str "model"),
    ("owned_by", .str pm.provider)]

/-- One model of a provider; the ids that have been seen are kept with the entries. -/
def addModel (strikes : String → String → ℕ) (pm : ProviderMeta) (acc : List String × List StoreJson)
    (model : String) : List String × List StoreJson :=
  if model = "*" then acc
  else if model ∈ acc.1 then acc
  else (model :: acc.1, acc.2 ++ [modelEntry strikes pm model])

/-- One provider. -/
def addProvider (strikes : String → String → ℕ) (acc : List String × List StoreJson) (pm : ProviderMeta) :
    List String × List StoreJson :=
  if pm.provider = "nvidia" then acc else pm.models.foldl (addModel strikes pm) acc

/-- The record of `nvidia`, on every entry of the upstream; `none`: an entry panics. -/
def enrich (strikes : String → String → ℕ) (metas : List ProviderMeta) (data : List StoreJson) :
    Option (List StoreJson) :=
  match metas.find? fun pm => pm.provider == "nvidia" with
  | none => some data
  | some nv => data.mapM fun entry => setFlock (flockModelMeta strikes nv ((modelId entry).getD "")) entry

/-- The entries of the merged catalogue. -/
def mergeData (strikes : String → String → ℕ) (metas : List ProviderMeta) (data : List StoreJson) :
    Option (List StoreJson) :=
  (enrich strikes metas data).map fun enriched =>
    (metas.foldl (addProvider strikes) (data.filterMap modelId, enriched)).2

/-- The array under `data`. -/
def dataOf (v : StoreJson) : Option (List StoreJson) := (v.get "data").bind Json.asArray

/-- The value with other entries. -/
def withData (entries : List StoreJson) : StoreJson → StoreJson
  | .obj fields => .obj (insertField "data" (.arr entries) fields)
  | v => v

/-- `aggregate_models`; `none`: it panics. -/
def aggregateModels (json : BodyCodec JsonNumber) (strikes : String → String → ℕ) (metas : List ProviderMeta)
    (body : List UInt8) : Option (List UInt8) :=
  match json.fromSlice body with
  | none => some body
  | some v =>
      match dataOf v with
      | none => some body
      | some data => (mergeData strikes metas data).map fun merged => (json.toVec (withData merged v)).getD body

variable {strikes strikes' : String → String → ℕ} {metas metas' : List ProviderMeta} {data kept merged : List StoreJson}
  {v w e e' record : StoreJson} {name m : String}

/-! ## Entries that can be written to

Writing a field of a JSON value makes an object of null, and panics on anything else. -/

/-- An object, or null. -/
def Assignable (e : StoreJson) : Prop := e = .null ∨ ∃ fields, e = .obj fields

/-- The record can be written exactly there. -/
theorem isSome_setFlock_iff : (setFlock record e).isSome = true ↔ Assignable e := by
  cases e with
  | null => exact iff_of_true rfl (.inl rfl)
  | obj fields => exact iff_of_true rfl (.inr ⟨fields, rfl⟩)
  | bool | num | str | arr =>
      refine iff_of_false (by simp [setFlock]) ?_
      rintro (h | ⟨fields, h⟩)
      · cases h
      · cases h

/-- A loop of fallible steps. -/
theorem mapM_eq_some_iff {α β : Type} {f : α → Option β} {xs : List α} {ys : List β} :
    xs.mapM f = some ys ↔ List.Forall₂ (fun x y => f x = some y) xs ys := by
  induction xs generalizing ys with
  | nil =>
      rw [List.mapM_nil, List.forall₂_nil_left_iff]
      exact ⟨fun h => (Option.some.inj h).symm, fun h => h ▸ rfl⟩
  | cons x xs ih =>
      rw [List.mapM_cons, List.forall₂_cons_left_iff]
      simp only [Option.bind_eq_bind, Option.bind_eq_some_iff, Option.pure_def, Option.some.injEq]
      constructor
      · rintro ⟨y, hy, zs, hzs, rfl⟩
        exact ⟨y, zs, hy, ih.mp hzs, rfl⟩
      · rintro ⟨y, zs, hy, hzs, rfl⟩
        exact ⟨y, hy, zs, ih.mpr hzs, rfl⟩

/-- A loop succeeds if each of its steps does. -/
theorem isSome_mapM_iff {α β : Type} {f : α → Option β} {xs : List α} :
    (xs.mapM f).isSome = true ↔ ∀ x ∈ xs, (f x).isSome = true := by
  induction xs with
  | nil => exact iff_of_true rfl fun x hx => absurd hx List.not_mem_nil
  | cons x xs ih =>
      rw [List.mapM_cons, List.forall_mem_cons, ← ih]
      cases f x with
      | none => simp
      | some y =>
          cases xs.mapM f with
          | none => simp
          | some ys => simp

/-- The loop over the upstream's entries fails only on an entry that cannot be written to, and only if the registry
has `nvidia`. -/
theorem isSome_enrich_iff : (enrich strikes metas data).isSome = true ↔
    (∃ pm ∈ metas, pm.provider = "nvidia") → ∀ e ∈ data, Assignable e := by
  unfold enrich
  cases hfind : metas.find? fun pm => pm.provider == "nvidia" with
  | none =>
      refine iff_of_true rfl ?_
      rintro ⟨pm, hpm, hname⟩
      exact absurd (beq_iff_eq.mpr hname) (List.find?_eq_none.mp hfind pm hpm)
  | some nv =>
      have hnv : ∃ pm ∈ metas, pm.provider = "nvidia" := by
        have hname := List.find?_some hfind
        exact ⟨nv, List.mem_of_find?_eq_some hfind, by simpa using hname⟩
      dsimp only
      rw [isSome_mapM_iff]
      simp only [isSome_setFlock_iff]
      exact ⟨fun h _ => h, fun h => h hnv⟩

section Bodies

variable {json : BodyCodec JsonNumber} {body : List UInt8}

/-- Of a body with an array of entries. -/
theorem aggregateModels_of_data (hread : json.fromSlice body = some v) (hdata : dataOf v = some data) :
    aggregateModels json strikes metas body =
      (mergeData strikes metas data).map fun merged => (json.toVec (withData merged v)).getD body := by
  unfold aggregateModels
  rw [hread]
  dsimp only
  rw [hdata]

/-- Any other body is handed on as it is. -/
theorem aggregateModels_of_no_data (h : ∀ v data, json.fromSlice body = some v → dataOf v ≠ some data) :
    aggregateModels json strikes metas body = some body := by
  unfold aggregateModels
  cases hread : json.fromSlice body with
  | none => rfl
  | some v =>
      have hdata : dataOf v = none := Option.eq_none_iff_forall_ne_some.mpr fun data => h v data hread
      dsimp only
      rw [hdata]

end Bodies

/-- **`SafeMerge`** — the merge returns, and returns a body that is no JSON or has no array of entries as it is. -/
structure SafeMerge (json : BodyCodec JsonNumber) (strikes : String → String → ℕ) (metas : List ProviderMeta)
    (body : List UInt8) : Prop where
  returns : (aggregateModels json strikes metas body).isSome = true
  unchanged : (∀ v data, json.fromSlice body = some v → dataOf v ≠ some data) →
    aggregateModels json strikes metas body = some body

/-- **When the merge is safe**: exactly if the body has no array of entries, or no provider is `nvidia`, or each
entry is an object or null. -/
theorem safeMerge_iff (json : BodyCodec JsonNumber) (strikes : String → String → ℕ) (metas : List ProviderMeta)
    (body : List UInt8) :
    SafeMerge json strikes metas body ↔ ∀ v data, json.fromSlice body = some v → dataOf v = some data →
      (∃ pm ∈ metas, pm.provider = "nvidia") → ∀ e ∈ data, Assignable e := by
  by_cases hbody : ∃ v data, json.fromSlice body = some v ∧ dataOf v = some data
  · obtain ⟨v, data, hread, hdata⟩ := hbody
    have hsome : (aggregateModels json strikes metas body).isSome = (enrich strikes metas data).isSome := by
      rw [aggregateModels_of_data hread hdata, Option.isSome_map, mergeData, Option.isSome_map]
    constructor
    · intro h v' data' hread' hdata'
      cases hread.symm.trans hread'
      cases hdata.symm.trans hdata'
      exact isSome_enrich_iff.mp (hsome ▸ h.returns)
    · intro h
      refine ⟨hsome ▸ isSome_enrich_iff.mpr (h v data hread hdata), fun hnone => ?_⟩
      exact absurd hdata (hnone v data hread)
  · have hnone : ∀ v data, json.fromSlice body = some v → dataOf v ≠ some data :=
      fun v data hread hdata => hbody ⟨v, data, hread, hdata⟩
    have haggregate := @aggregateModels_of_no_data strikes metas json body hnone
    refine iff_of_true ⟨by rw [haggregate]; rfl, fun _ => haggregate⟩ ?_
    intro v data hread hdata
    exact absurd hdata (hnone v data hread)

/-- The bytes of an ASCII text. -/
def asciiBytes (text : String) : List UInt8 := text.toList.map fun c => UInt8.ofNat c.toNat

/-- A body whose one entry is a string. -/
def bareBody : List UInt8 := asciiBytes "\x7b\"data\":[\"gpt\"]\x7d"

/-- A reader of that body. -/
def bareCodec : BodyCodec JsonNumber where
  fromSlice body := if body = bareBody then some (.obj [("data", .arr [.str "gpt"])]) else none
  toVec _ := some bareBody

/-- A registry of `nvidia` alone. -/
def nvidiaMeta : ProviderMeta := ⟨"nvidia", "NVIDIA", true, true, none, 1500, "closed", ["*"]⟩

/-- **A catalogue of names panics.** -/
theorem merge_panics :
    aggregateModels bareCodec (fun _ _ => 0) [nvidiaMeta] bareBody = none ∧
    ¬ SafeMerge bareCodec (fun _ _ => 0) [nvidiaMeta] bareBody := by
  have hread : bareCodec.fromSlice bareBody = some (.obj [("data", .arr [.str "gpt"])]) := by
    simp [bareCodec]
  have hdata : dataOf (.obj [("data", .arr [.str "gpt"])]) = some [.str "gpt"] := rfl
  have hnone : aggregateModels bareCodec (fun _ _ => 0) [nvidiaMeta] bareBody = none := by
    rw [aggregateModels_of_data hread hdata]
    rfl
  refine ⟨hnone, fun h => ?_⟩
  have hreturns := h.returns
  rw [hnone] at hreturns
  cases hreturns

/-! ## What the merge keeps

One field of an entry is written, `flock`; its place among the others may change, and nothing else does. -/

/-- A field, after one was written. -/
theorem lookup_insertField (v : StoreJson) (fields : List (String × StoreJson)) (name name' : String) :
    (insertField name v fields).lookup name' = if name = name' then some v else fields.lookup name' := by
  induction fields with
  | nil =>
      unfold insertField
      rw [Lib.InsertionMap.lookup_cons_eq]
  | cons field rest ih =>
      obtain ⟨k, w⟩ := field
      unfold insertField
      split
      · rename_i hk
        subst hk
        rw [Lib.InsertionMap.lookup_cons_eq, Lib.InsertionMap.lookup_cons_eq]
        split
        · rfl
        · rfl
      · split
        · rw [Lib.InsertionMap.lookup_cons_eq]
        · rename_i hk _
          rw [Lib.InsertionMap.lookup_cons_eq, ih, Lib.InsertionMap.lookup_cons_eq]
          by_cases hname : k = name'
          · subst hname
            rw [if_pos rfl, if_neg (Ne.symm hk), if_pos rfl]
          · rw [if_neg hname, if_neg hname]

/-- Two objects with the same fields, other than `flock`. -/
def SameButFlock (e e' : StoreJson) : Prop :=
  ∃ fields fields', e = .obj fields ∧ e' = .obj fields' ∧
    ∀ name, name ≠ "flock" → fields'.lookup name = fields.lookup name

theorem SameButFlock.modelId_eq (h : SameButFlock e e') : modelId e' = modelId e := by
  obtain ⟨fields, fields', rfl, rfl, hsame⟩ := h
  have hid : fields'.lookup "id" = fields.lookup "id" := hsame "id" (by decide)
  unfold modelId Json.get
  dsimp only
  rw [hid]

/-- So it is after the record was written. -/
theorem sameButFlock_setFlock (h : setFlock record e = some e') (hobject : ∃ fields, e = .obj fields) :
    SameButFlock e e' := by
  obtain ⟨fields, rfl⟩ := hobject
  cases h
  refine ⟨fields, _, rfl, rfl, fun name hname => ?_⟩
  rw [lookup_insertField, if_neg (Ne.symm hname)]

/-- The record of `nvidia` is all that changes. -/
theorem enrich_objects (strikes : String → String → ℕ) (metas : List ProviderMeta)
    (hobjects : ∀ e ∈ data, ∃ fields, e = .obj fields) :
    ∃ kept, enrich strikes metas data = some kept ∧ List.Forall₂ SameButFlock data kept := by
  have hsome : (enrich strikes metas data).isSome = true :=
    isSome_enrich_iff.mpr fun _ e he => .inr (hobjects e he)
  obtain ⟨kept, hkept⟩ := Option.isSome_iff_exists.mp hsome
  refine ⟨kept, hkept, ?_⟩
  unfold enrich at hkept
  split at hkept
  · cases hkept
    refine List.forall₂_same.mpr fun e he => ?_
    obtain ⟨fields, rfl⟩ := hobjects e he
    exact ⟨fields, fields, rfl, rfl, fun _ _ => rfl⟩
  · have hset := (List.forall₂_and_left _ _).mpr ⟨hobjects, mapM_eq_some_iff.mp hkept⟩
    exact hset.imp fun e e' h => sameButFlock_setFlock h.2 h.1

/-! ## What the merge adds

The merge visits the models provider by provider.  A model is added at its first visit, and if nobody listed it; so
which provider it is credited to depends on the order, and that it is there does not. -/

/-- A model of a provider other than `nvidia`, and no wildcard. -/
def Offered (metas : List ProviderMeta) (m : String) : Prop :=
  ∃ pm ∈ metas, pm.provider ≠ "nvidia" ∧ m ∈ pm.models ∧ m ≠ "*"

/-- The models that are offered, in the order in which they are visited, with their providers. -/
def offers (metas : List ProviderMeta) : List (ProviderMeta × String) :=
  metas.flatMap fun pm =>
    if pm.provider = "nvidia" then [] else (pm.models.filter (· ≠ "*")).map fun m => (pm, m)

/-- The models that are offered are those of the providers. -/
theorem mem_offers_iff : m ∈ (offers metas).map Prod.snd ↔ Offered metas m := by
  unfold offers Offered
  simp only [List.mem_map, List.mem_flatMap]
  constructor
  · rintro ⟨⟨pm, m'⟩, ⟨pm', hpm, hmem⟩, rfl⟩
    split at hmem
    · cases hmem
    · rename_i hname
      obtain ⟨m, hm, heq⟩ := List.mem_map.mp hmem
      cases heq
      obtain ⟨hmodel, hwild⟩ := List.mem_filter.mp hm
      exact ⟨pm, hpm, hname, hmodel, by simpa using hwild⟩
  · rintro ⟨pm, hpm, hname, hmodel, hwild⟩
    refine ⟨(pm, m), ⟨pm, hpm, ?_⟩, rfl⟩
    rw [if_neg hname]
    exact List.mem_map.mpr ⟨m, List.mem_filter.mpr ⟨hmodel, by simpa using hwild⟩, rfl⟩

theorem offered_perm (h : metas'.Perm metas) : Offered metas' m ↔ Offered metas m := by
  unfold Offered
  simp only [h.mem_iff]

/-- The entry of an offer. -/
def entryOf (strikes : String → String → ℕ) (offer : ProviderMeta × String) : StoreJson :=
  modelEntry strikes offer.1 offer.2

/-- The two loops are one over the offers. -/
theorem foldl_addProvider (strikes : String → String → ℕ) (metas : List ProviderMeta)
    (acc : List String × List StoreJson) :
    metas.foldl (addProvider strikes) acc = (offers metas).foldl (Lib.takeNew Prod.snd (entryOf strikes)) acc := by
  unfold offers
  rw [List.foldl_flatMap]
  congr 1
  funext acc pm
  unfold addProvider
  split
  · rfl
  · rw [List.foldl_map, List.foldl_filter]
    congr 1
    funext acc m
    unfold addModel Lib.takeNew
    by_cases hwild : m = "*"
    · simp [hwild]
    · simp only [hwild, if_false, ne_eq, not_false_eq_true, decide_true, if_true]
      rfl

/-- **The merge, in full**: the entries of the upstream, and an entry for each offer of a new id. -/
theorem mergeData_eq (strikes : String → String → ℕ) (metas : List ProviderMeta)
    (hobjects : ∀ e ∈ data, ∃ fields, e = .obj fields) :
    ∃ kept, List.Forall₂ SameButFlock data kept ∧ mergeData strikes metas data =
      some (kept ++ (Lib.firstSeen Prod.snd (data.filterMap modelId) (offers metas)).map (entryOf strikes)) := by
  obtain ⟨kept, hkept, hsame⟩ := enrich_objects strikes metas hobjects
  refine ⟨kept, hsame, ?_⟩
  unfold mergeData
  rw [hkept, Option.map_some, foldl_addProvider, Lib.foldl_takeNew]

theorem filterMap_modelId_kept (h : List.Forall₂ SameButFlock data kept) :
    kept.filterMap modelId = data.filterMap modelId := by
  induction h with
  | nil => rfl
  | cons hsame _ ih => rw [List.filterMap_cons, List.filterMap_cons, ih, hsame.modelId_eq]

/-- **`Merged metas data merged`** — the entries of the upstream first, in order, with their fields other than
`flock`; and then, once each, the models that are offered and were not listed. -/
structure Merged (metas : List ProviderMeta) (data merged : List StoreJson) : Prop where
  upstream : List.Forall₂ SameButFlock data (merged.take data.length)
  added : ∃ names : List String, (merged.drop data.length).map modelId = names.map some ∧ names.Nodup ∧
    ∀ m, m ∈ names ↔ Offered metas m ∧ m ∉ data.filterMap modelId

/-- A catalogue of objects can always be merged. -/
theorem exists_merged (strikes : String → String → ℕ) (metas : List ProviderMeta)
    (hobjects : ∀ e ∈ data, ∃ fields, e = .obj fields) :
    ∃ merged, mergeData strikes metas data = some merged ∧ Merged metas data merged := by
  obtain ⟨kept, hsame, hmerge⟩ := mergeData_eq strikes metas hobjects
  have hlength := hsame.length_eq
  refine ⟨_, hmerge, ?_, ?_⟩
  · rw [hlength, List.take_left]
    exact hsame
  · refine ⟨(Lib.firstSeen Prod.snd (data.filterMap modelId) (offers metas)).map Prod.snd, ?_,
      Lib.nodup_map_firstSeen, fun m => ?_⟩
    · rw [hlength, List.drop_left, List.map_map, List.map_map]
      rfl
    · rw [Lib.mem_map_firstSeen, mem_offers_iff]

/-- The ids of a merged catalogue. -/
theorem Merged.mem_ids_iff (h : Merged metas data merged) :
    m ∈ merged.filterMap modelId ↔ m ∈ data.filterMap modelId ∨ Offered metas m := by
  obtain ⟨names, hnames, -, hmem⟩ := h.added
  have hadded : (merged.drop data.length).filterMap modelId = names := by
    have hid := congrArg (List.filterMap id) hnames
    rw [List.filterMap_map, List.filterMap_map] at hid
    simpa using hid
  have hids : merged.filterMap modelId = data.filterMap modelId ++ names := by
    rw [← filterMap_modelId_kept h.upstream, ← hadded, ← List.filterMap_append, List.take_append_drop]
  rw [hids, List.mem_append, hmem]
  by_cases hlisted : m ∈ data.filterMap modelId
  · simp [hlisted]
  · simp [hlisted]

/-- Nothing is added where every offer is listed. -/
theorem Merged.length_eq (h : Merged metas data merged) (hlisted : ∀ m, Offered metas m → m ∈ data.filterMap modelId) :
    merged.length = data.length := by
  obtain ⟨names, hnames, -, hmem⟩ := h.added
  have hnone : names = [] :=
    List.eq_nil_iff_forall_not_mem.mpr fun m hm => ((hmem m).mp hm).2 (hlisted m ((hmem m).mp hm).1)
  have hdrop : merged.length - data.length = 0 := by
    have hlength := congrArg List.length hnames
    rw [List.length_map, List.length_drop, hnone] at hlength
    exact hlength
  have htake := h.upstream.length_eq
  rw [List.length_take] at htake
  omega

/-- An entry with an id is an object. -/
theorem exists_fields_of_modelId (h : modelId e = some m) : ∃ fields, e = .obj fields := by
  cases e with
  | obj fields => exact ⟨fields, rfl⟩
  | null | bool | num | str | arr => cases h

/-- Every entry of a merged catalogue is an object. -/
theorem Merged.objects (h : Merged metas data merged) : ∀ e ∈ merged, ∃ fields, e = .obj fields := by
  intro e he
  rw [← List.take_append_drop data.length merged] at he
  rcases List.mem_append.mp he with he | he
  · obtain ⟨i, hi, rfl⟩ := List.getElem_of_mem he
    have hlength := h.upstream.length_eq
    obtain ⟨-, fields, -, hfields, -⟩ := h.upstream.get (by omega) hi
    exact ⟨fields, hfields⟩
  · obtain ⟨names, hnames, -, -⟩ := h.added
    have hid : modelId e ∈ names.map some := hnames ▸ List.mem_map_of_mem he
    obtain ⟨m, -, hm⟩ := List.mem_map.mp hid
    exact exists_fields_of_modelId hm.symm

/-! ## The output, read again

The body that is handed on is a text.  Whoever reads it again gets the values that were written, up to the way numbers
are printed. -/

/-- Two values that differ in their numbers at most; fields are told apart by their names. -/
inductive Alike : StoreJson → StoreJson → Prop
  | null : Alike .null .null
  | bool (b : Bool) : Alike (.bool b) (.bool b)
  | num (m n : JsonNumber) : Alike (.num m) (.num n)
  | str (s : String) : Alike (.str s) (.str s)
  | arr {xs ys : List StoreJson} (hlength : xs.length = ys.length)
      (h : ∀ (i : ℕ) x y, xs[i]? = some x → ys[i]? = some y → Alike x y) : Alike (.arr xs) (.arr ys)
  | obj {fs gs : List (String × StoreJson)} (hnames : ∀ name, (fs.lookup name).isSome = (gs.lookup name).isSome)
      (h : ∀ name x y, fs.lookup name = some x → gs.lookup name = some y → Alike x y) : Alike (.obj fs) (.obj gs)

/-- A field of one is a field of the other. -/
theorem Alike.get_eq_some {y : StoreJson} (h : Alike v w) (hy : w.get name = some y) :
    ∃ x, v.get name = some x ∧ Alike x y := by
  cases h with
  | obj hnames hfields =>
      rename_i fs gs
      have hlookup : gs.lookup name = some y := hy
      have hsome := hnames name
      rw [hlookup] at hsome
      obtain ⟨x, hx⟩ := Option.isSome_iff_exists.mp hsome
      exact ⟨x, hx, hfields name x y hx hlookup⟩
  | null | bool | num | str | arr => cases hy

/-- A field that one lacks the other lacks. -/
theorem Alike.get_eq_none (h : Alike v w) (hnone : w.get name = none) : v.get name = none := by
  cases h with
  | obj hnames hfields =>
      rename_i fs gs
      have hlookup : gs.lookup name = none := hnone
      have hsome := hnames name
      rw [hlookup] at hsome
      have hmissing : fs.lookup name = none := Option.not_isSome_iff_eq_none.mp (by rw [hsome]; decide)
      exact hmissing
  | null | bool | num | str | arr => rfl

/-- The id is a string, and strings come back. -/
theorem Alike.modelId_eq (h : Alike e e') : modelId e = modelId e' := by
  unfold modelId
  cases hget : e'.get "id" with
  | none => rw [h.get_eq_none hget]
  | some y =>
      obtain ⟨x, hx, hlike⟩ := h.get_eq_some hget
      rw [hx, Option.bind_some, Option.bind_some]
      cases hlike <;> rfl

theorem Alike.exists_fields (h : Alike e e') (hobject : ∃ fields, e' = .obj fields) : ∃ fields, e = .obj fields := by
  obtain ⟨fields, rfl⟩ := hobject
  cases h
  exact ⟨_, rfl⟩

theorem filterMap_modelId_alike (h : List.Forall₂ Alike data kept) :
    data.filterMap modelId = kept.filterMap modelId := by
  induction h with
  | nil => rfl
  | cons hlike _ ih => rw [List.filterMap_cons, List.filterMap_cons, ih, hlike.modelId_eq]

/-- The entries of a catalogue that has been read back. -/
theorem Alike.dataOf_eq (h : Alike w v) (hdata : dataOf v = some data) :
    ∃ data', dataOf w = some data' ∧ List.Forall₂ Alike data' data := by
  obtain ⟨y, hy, harray⟩ := Option.bind_eq_some_iff.mp hdata
  obtain ⟨x, hx, hlike⟩ := h.get_eq_some hy
  cases hlike with
  | arr hlength hitems =>
      cases harray
      refine ⟨_, Option.bind_eq_some_iff.mpr ⟨_, hx, rfl⟩, List.forall₂_iff_get.mpr ⟨hlength, fun i hi hi' => ?_⟩⟩
      exact hitems i _ _ (List.getElem?_eq_getElem hi) (List.getElem?_eq_getElem hi')
  | null | bool | num | str | obj => cases harray

/-- The body that the merge hands on. -/
theorem aggregateModels_eq {json : BodyCodec JsonNumber} {body : List UInt8} (hread : json.fromSlice body = some v)
    (hdata : dataOf v = some data) (hmerge : mergeData strikes metas data = some merged) :
    aggregateModels json strikes metas body = some ((json.toVec (withData merged v)).getD body) := by
  rw [aggregateModels_of_data hread hdata, hmerge, Option.map_some]

theorem get_withData (hdata : dataOf v = some data) (merged : List StoreJson) (name : String) :
    (withData merged v).get name = if name = "data" then some (.arr merged) else v.get name := by
  cases v with
  | obj fields =>
      show (insertField "data" (.arr merged) fields).lookup name = _
      rw [lookup_insertField]
      by_cases hname : name = "data"
      · rw [if_pos hname.symm, if_pos hname]
      · rw [if_neg (Ne.symm hname), if_neg hname]
        rfl
  | null | bool | num | str | arr => cases hdata

/-- **`Aggregated`** — what the merge makes of a body that is read as `v`, with the entries `data`.

The output is `v` with the merged entries in the place of `data`.  Its ids are the same for every order in which the
providers are visited; and if it is read back as it was written, up to the digits of its numbers, then merging it
again adds no entry, in whatever order. -/
structure Aggregated (json : BodyCodec JsonNumber) (env : Env) (r : Router) (strikes : String → String → ℕ)
    (visited : List String) (body : List UInt8) (v : StoreJson) (data merged : List StoreJson) : Prop where
  output : aggregateModels json strikes (r.providerMetadata env visited) body =
    some ((json.toVec (withData merged v)).getD body)
  entries : dataOf (withData merged v) = some merged
  others : ∀ name, name ≠ "data" → (withData merged v).get name = v.get name
  shape : Merged (r.providerMetadata env visited) data merged
  order : ∀ visited' strikes', visited'.Perm visited → ∃ merged',
    aggregateModels json strikes' (r.providerMetadata env visited') body =
      some ((json.toVec (withData merged' v)).getD body) ∧
    ∀ m, m ∈ merged'.filterMap modelId ↔ m ∈ merged.filterMap modelId
  again : ∀ visited' strikes' out w, visited'.Perm visited → json.toVec (withData merged v) = some out →
    json.fromSlice out = some w → Alike w (withData merged v) → ∃ merged',
    aggregateModels json strikes' (r.providerMetadata env visited') out =
      some ((json.toVec (withData merged' w)).getD out) ∧
    merged'.length = merged.length

/-- **The merge of a catalogue whose entries are objects.** -/
theorem catalogue_exact (json : BodyCodec JsonNumber) (env : Env) (r : Router) (strikes : String → String → ℕ)
    (visited : List String) {body : List UInt8} {v : StoreJson} {data : List StoreJson}
    (hread : json.fromSlice body = some v) (hdata : dataOf v = some data)
    (hobjects : ∀ e ∈ data, ∃ fields, e = .obj fields) :
    ∃ merged, Aggregated json env r strikes visited body v data merged := by
  obtain ⟨merged, hmerge, hmerged⟩ := exists_merged strikes (r.providerMetadata env visited) hobjects
  have hperm : ∀ {visited'}, visited'.Perm visited → ∀ m,
      Offered (r.providerMetadata env visited') m ↔ Offered (r.providerMetadata env visited) m :=
    fun h m => offered_perm (h.filterMap _)
  have hentries : dataOf (withData merged v) = some merged := by
    unfold dataOf
    rw [get_withData hdata, if_pos rfl]
    rfl
  refine ⟨merged, aggregateModels_eq hread hdata hmerge, hentries, ?_, hmerged, ?_, ?_⟩
  -- the fields other than `data` are copied
  · intro name hname
    rw [get_withData hdata, if_neg hname]
  -- in another order the same models are added
  · intro visited' strikes' hvisited
    obtain ⟨merged', hmerge', hmerged'⟩ := exists_merged strikes' (r.providerMetadata env visited') hobjects
    refine ⟨merged', aggregateModels_eq hread hdata hmerge', fun m => ?_⟩
    rw [hmerged'.mem_ids_iff, hmerged.mem_ids_iff, hperm hvisited]
  -- and merging what was merged adds none
  · intro visited' strikes' out w hvisited _ hout hlike
    obtain ⟨data', hdata', hentries'⟩ := hlike.dataOf_eq hentries
    have hobjects' : ∀ e ∈ data', ∃ fields, e = .obj fields := by
      intro e he
      obtain ⟨i, hi, rfl⟩ := List.getElem_of_mem he
      have hi' : i < merged.length := hentries'.length_eq ▸ hi
      exact (hentries'.get hi hi').exists_fields (hmerged.objects _ (List.getElem_mem hi'))
    obtain ⟨merged', hmerge', hmerged'⟩ := exists_merged strikes' (r.providerMetadata env visited') hobjects'
    refine ⟨merged', aggregateModels_eq hout hdata' hmerge', ?_⟩
    rw [← hentries'.length_eq]
    refine hmerged'.length_eq fun m hm => ?_
    rw [filterMap_modelId_alike hentries', hmerged.mem_ids_iff]
    exact .inr ((hperm hvisited m).mp hm)

/-- A catalogue of one model. -/
def oneModel : StoreJson := .obj [("data", .arr [.obj [("id", .str "llama")]])]

/-- Its text. -/
def oneBody : List UInt8 := asciiBytes "\x7b\"data\":[\x7b\"id\":\"llama\"\x7d]\x7d"

/-- The catalogue with a model of `groq`. -/
def twoModels : StoreJson :=
  .obj [("data", .arr [.obj [("id", .str "llama")],
    modelEntry (fun _ _ => 0) ⟨"groq", "", true, true, none, 1500, "closed", []⟩ "gemma"])]

/-- Its text. -/
def twoBody : List UInt8 :=
  asciiBytes ("\x7b\"data\":[\x7b\"id\":\"llama\"\x7d,\x7b\"flock\":\x7b\"circuit\":\"closed\"," ++
    "\"display_name\":\"\",\"elo\":1500,\"empty_strikes\":0,\"healthy\":true,\"latency_ms\":null," ++
    "\"provider\":\"groq\",\"usable\":true\x7d,\"id\":\"gemma\",\"object\":\"model\"," ++
    "\"owned_by\":\"groq\"\x7d]\x7d")

/-- The reader of the two texts, and the printer of the second. -/
def oneCodec : BodyCodec JsonNumber where
  fromSlice body := if body = oneBody then some oneModel else if body = twoBody then some twoModels else none
  toVec _ := some twoBody

/-- A router with one provider, which serves that model and another. -/
def oneProvider : Router :=
  ((Router.empty {}).build (fun _ => none)
    { name := "groq", keys := [{ key := "k" }], models := ["llama", "*", "gemma"] } 0).1.register "groq" 0

/-- The merge adds the second model, behind the first. -/
theorem catalogue_exact_one : ∃ merged,
    Aggregated oneCodec (fun _ => none) oneProvider (fun _ _ => 0) ["groq"] oneBody oneModel
      [.obj [("id", .str "llama")]] merged := by
  have hread : oneCodec.fromSlice oneBody = some oneModel := by simp [oneCodec]
  refine catalogue_exact oneCodec _ _ _ _ hread rfl fun e he => ?_
  obtain rfl := List.mem_singleton.mp he
  exact ⟨_, rfl⟩

end Catalogue

end Flock
