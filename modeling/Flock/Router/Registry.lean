/-
# Flock.Router.Registry — what a rebuild does to each provider, and to nobody else.

The loops of `rebuild` and `build` are walked through once.  `rebuild_enabled` and
`rebuild_disabled` say what becomes of one name; `rebuild_frame` says that every other object, in the
registry or only held by somebody, is left alone.

Runtimes of different names are different objects because the registry files each under the name of
its own definition (`WF`).

A router is a heap of runtimes and a registry that points into it.  Requests in flight hold addresses of their own, so
"everybody else" is every other address, whether or not the registry still knows it.
-/
import Flock.Router.Basic

namespace Flock

namespace Router

variable {env : Env} {now : ℤ} {r r' : Router} {n : String} {a b : ℕ}

/-! ## Well-formed registries

The registry is keyed by the name of a provider, and the runtime knows its name too. -/

/-- A runtime that owns its handles: they were made with it. -/
structure Owns (rt : Runtime) (a : ℕ) : Prop where
  pool : rt.pool = a
  dispatcher : rt.dispatcher = ⟨a, a⟩
  governor : rt.governor = a

/-- **`WF`** — every registered address is allocated, filed under the name of its definition, and
owns its handles. -/
structure WF (r : Router) : Prop where
  lt : ∀ n a, r.runtimes n = some a → a < r.next
  name : ∀ n a, r.runtimes n = some a → (r.objs a).defn.name = n
  owns : ∀ n a, r.runtimes n = some a → Owns (r.objs a) a

/-- Two names do not share a runtime. -/
theorem WF.inj (h : WF r) {m : String} (hn : r.runtimes n = some a) (hm : r.runtimes m = some a) :
    n = m :=
  (h.name n a hn).symm.trans (h.name m a hm)

theorem wf_empty (health : HealthDb) : WF (empty health) where
  lt := by simp [empty]
  name := by simp [empty]
  owns := by simp [empty]

/-- What is retained was filed before. -/
theorem WF.retain (h : WF r) (providers : List ProviderDef) : WF (r.retain providers) where
  lt n a hn := h.lt n a (Option.filter_eq_some_iff.mp hn).1
  name n a hn := h.name n a (Option.filter_eq_some_iff.mp hn).1
  owns n a hn := h.owns n a (Option.filter_eq_some_iff.mp hn).1

/-- A router with the registry and the heaps of a well-formed one. -/
theorem WF.congr (h : WF r) (hnext : r'.next = r.next) (hobjs : r'.objs = r.objs)
    (hreg : r'.runtimes = r.runtimes) : WF r' where
  lt n a hn := by rw [hnext]; exact h.lt n a (hreg ▸ hn)
  name n a hn := by rw [hobjs]; exact h.name n a (hreg ▸ hn)
  owns n a hn := by rw [hobjs]; exact h.owns n a (hreg ▸ hn)

/-! ## One iteration

`install` either builds a runtime for a definition or reconfigures the one that is there. -/

/-- The router after a runtime for `d` was built and registered. -/
def added (env : Env) (now : ℤ) (r : Router) (d : ProviderDef) : Router :=
  { r with next := r.next + 1
           pools := Function.update r.pools r.next (.boot (Pool.new (d.laneSpecs env) now))
           objs := Function.update r.objs r.next
             ⟨d, r.next, ⟨r.next, r.next⟩, r.next, .astmatrixDefaults⟩
           runtimes := Function.update r.runtimes d.name (some r.next) }

/-- The router after the runtime at `a` was reconfigured to `d`. -/
def swapped (env : Env) (now : ℤ) (r : Router) (a : ℕ) (d : ProviderDef) : Router :=
  { r with pools := Function.update r.pools a ((r.pools a).swap (d.laneSpecs env) now)
           objs := Function.update r.objs a { r.objs a with defn := d } }

theorem install_none {d : ProviderDef} (h : r.runtimes d.name = none) :
    install env now r d = added env now r d := by
  simp only [install, h]
  rfl

/-- There is one, filed under this name. -/
theorem install_some (hwf : WF r) {d : ProviderDef} (h : r.runtimes d.name = some a) :
    install env now r d = swapped env now r a d := by
  simp only [install, h, reconfigure, swapped, (hwf.owns d.name a h).pool]

theorem WF.added (h : WF r) (d : ProviderDef) : WF (added env now r d) where
  lt n a hn := by
    simp only [Router.added, Function.update_apply] at hn
    split at hn
    · cases hn
      exact Nat.lt_succ_self _
    · exact Nat.lt_succ_of_lt (h.lt n a hn)
  name n a hn := by
    simp only [Router.added, Function.update_apply] at hn ⊢
    split at hn
    · rename_i heq
      cases hn
      simpa using heq.symm
    · have hne : a ≠ r.next := Nat.ne_of_lt (h.lt n a hn)
      rw [if_neg hne]
      exact h.name n a hn
  owns n a hn := by
    simp only [Router.added, Function.update_apply] at hn ⊢
    split at hn
    · cases hn
      rw [if_pos rfl]
      exact ⟨rfl, rfl, rfl⟩
    · have hne : a ≠ r.next := Nat.ne_of_lt (h.lt n a hn)
      rw [if_neg hne]
      exact h.owns n a hn

theorem WF.swapped (h : WF r) {d : ProviderDef} (hd : r.runtimes d.name = some a) :
    WF (swapped env now r a d) where
  lt n b hn := h.lt n b hn
  name n b hn := by
    simp only [Router.swapped, Function.update_apply]
    split
    · rename_i heq
      subst heq
      exact h.inj hd hn
    · exact h.name n b hn
  owns n b hn := by
    simp only [Router.swapped, Function.update_apply]
    split
    · rename_i heq
      subst heq
      exact ⟨(h.owns n b hn).pool, (h.owns n b hn).dispatcher, (h.owns n b hn).governor⟩
    · exact h.owns n b hn

/-- `b` is an allocated address, and stays as it is. -/
structure Kept (b : ℕ) (r r' : Router) : Prop where
  next : r.next ≤ r'.next
  objs : r'.objs b = r.objs b
  pools : r'.pools b = r.pools b

theorem Kept.refl (b : ℕ) (r : Router) : Kept b r r := ⟨Nat.le_refl _, rfl, rfl⟩

theorem Kept.trans {r'' : Router} (h : Kept b r r') (h' : Kept b r' r'') : Kept b r r'' :=
  ⟨Nat.le_trans h.next h'.next, h'.objs.trans h.objs, h'.pools.trans h.pools⟩

/-! ## Loops over definitions

Both loops install one definition at a time.  What the invariants need of an iteration is the same
for both, and so is what follows for the whole loop. -/

/-- **`Installs f`** — an iteration `f` touches the entry and the object of its own name only. -/
structure Installs (f : Router → ProviderDef → Router) : Prop where
  wf : ∀ {r d}, WF r → WF (f r d)
  next_le : ∀ {r d}, WF r → r.next ≤ (f r d).next
  other : ∀ {r d n}, WF r → d.name ≠ n → (f r d).runtimes n = r.runtimes n
  kept : ∀ {r d b}, WF r → b < r.next → r.runtimes d.name ≠ some b → Kept b r (f r d)
  fresh : ∀ {r d b}, WF r → b < r.next → (∀ m, r.runtimes m ≠ some b) →
    ∀ m, (f r d).runtimes m ≠ some b
  new : ∀ {r d b}, WF r → b < (f r d).next → b < r.next ∨ (f r d).runtimes d.name = some b

namespace Installs

variable {f : Router → ProviderDef → Router}

/-- A loop keeps the registry well formed. -/
theorem foldl_wf (hf : Installs f) : ∀ (ds : List ProviderDef) {r : Router}, WF r →
    WF (ds.foldl f r)
  | [], _, h => h
  | _ :: ds, _, h => hf.foldl_wf ds (hf.wf h)

/-- It allocates, and frees nothing. -/
theorem foldl_next_le (hf : Installs f) : ∀ (ds : List ProviderDef) {r : Router}, WF r →
    r.next ≤ (ds.foldl f r).next
  | [], _, _ => Nat.le_refl _
  | _ :: ds, _, h => Nat.le_trans (hf.next_le h) (hf.foldl_next_le ds (hf.wf h))

/-- A name that does not occur is not touched. -/
theorem foldl_other (hf : Installs f) : ∀ (ds : List ProviderDef) {r : Router}, WF r →
    n ∉ ds.map (·.name) → (ds.foldl f r).runtimes n = r.runtimes n
  | [], _, _, _ => rfl
  | d :: ds, r, h, hn => by
      simp only [List.map_cons, List.mem_cons, not_or] at hn
      rw [List.foldl_cons, hf.foldl_other ds (hf.wf h) hn.2]
      exact hf.other h (Ne.symm hn.1)

/-- An object of a name the loop does not install. -/
theorem foldl_kept (hf : Installs f) : ∀ (ds : List ProviderDef) {r : Router}, WF r →
    r.runtimes n = some a → n ∉ ds.map (·.name) → Kept a r (ds.foldl f r)
  | [], r, _, _, _ => .refl a r
  | d :: ds, r, h, ha, hn => by
      simp only [List.map_cons, List.mem_cons, not_or] at hn
      have hd : r.runtimes d.name ≠ some a := fun heq => hn.1 (h.inj ha heq)
      have ha' : (f r d).runtimes n = some a := by
        rw [hf.other h (Ne.symm hn.1)]
        exact ha
      exact (hf.kept h (h.lt n a ha) hd).trans (hf.foldl_kept ds (hf.wf h) ha' hn.2)

/-- An object nothing in the registry points at. -/
theorem foldl_kept_unregistered (hf : Installs f) : ∀ (ds : List ProviderDef) {r : Router}, WF r →
    b < r.next → (∀ m, r.runtimes m ≠ some b) → Kept b r (ds.foldl f r)
  | [], r, _, _, _ => .refl b r
  | d :: ds, r, h, hb, hold => by
      have hkept := hf.kept h hb (hold d.name)
      exact hkept.trans (hf.foldl_kept_unregistered ds (hf.wf h)
        (Nat.lt_of_lt_of_le hb hkept.next) (hf.fresh h hb hold))

/-- What the loop allocates it registers, names being distinct. -/
theorem foldl_new (hf : Installs f) : ∀ (ds : List ProviderDef) {r : Router}, WF r →
    (ds.map (·.name)).Nodup → b < (ds.foldl f r).next →
      b < r.next ∨ ∃ d ∈ ds, (ds.foldl f r).runtimes d.name = some b
  | [], _, _, _, hb => .inl hb
  | d :: ds, r, h, hnodup, hb => by
      rw [List.map_cons, List.nodup_cons] at hnodup
      rcases hf.foldl_new ds (hf.wf h) hnodup.2 hb with hb | ⟨d', hd', hreg⟩
      · rcases hf.new h hb with hb | hreg
        · exact .inl hb
        · refine .inr ⟨d, List.mem_cons_self, ?_⟩
          rw [List.foldl_cons, hf.foldl_other ds (hf.wf h) hnodup.1]
          exact hreg
      · exact .inr ⟨d', List.mem_cons_of_mem _ hd', hreg⟩

/-- **A name the loop installs, names being distinct.** Some iteration `f r₁ d` is its own; before it
the name is as it was, and after it nothing happens to the name. -/
theorem foldl_at (hf : Installs f) {ds : List ProviderDef} (hwf : WF r)
    (hnodup : (ds.map (·.name)).Nodup) {d : ProviderDef} (hd : d ∈ ds) :
    ∃ r₁, WF r₁ ∧ r.next ≤ r₁.next ∧ r₁.runtimes d.name = r.runtimes d.name ∧
      (∀ a, r.runtimes d.name = some a → Kept a r r₁) ∧
      (ds.foldl f r).runtimes d.name = (f r₁ d).runtimes d.name ∧
      ∀ a, (f r₁ d).runtimes d.name = some a → Kept a (f r₁ d) (ds.foldl f r) := by
  obtain ⟨before, after, rfl⟩ := List.append_of_mem hd
  simp only [List.map_append, List.map_cons, List.nodup_append, List.nodup_cons] at hnodup
  obtain ⟨-, ⟨hafter, -⟩, hdisj⟩ := hnodup
  have hbefore : d.name ∉ before.map (·.name) := fun hmem =>
    hdisj d.name hmem d.name (List.mem_cons_self) rfl
  have hwf₁ : WF (before.foldl f r) := hf.foldl_wf before hwf
  rw [List.foldl_append, List.foldl_cons]
  refine ⟨before.foldl f r, hwf₁, hf.foldl_next_le before hwf, hf.foldl_other before hwf hbefore,
    fun a ha => hf.foldl_kept before hwf ha hbefore, ?_, fun a ha => ?_⟩
  · exact hf.foldl_other after (hf.wf hwf₁) hafter
  · exact hf.foldl_kept after (hf.wf hwf₁) ha hafter

end Installs

/-! ## Adding and swapping are such iterations

What `Installs` asks, for each of the two. -/

theorem added_installs : Installs (added env now) where
  wf h := h.added _
  next_le _ := Nat.le_succ _
  other _ hne := Function.update_of_ne (Ne.symm hne) _ _
  kept _ hb _ := by
    have hne := Nat.ne_of_lt hb
    exact ⟨Nat.le_succ _, Function.update_of_ne hne _ _, Function.update_of_ne hne _ _⟩
  fresh {r d b} _ hb hold m := by
    simp only [added, Function.update_apply]
    split
    · intro heq
      have : r.next = b := Option.some.inj heq
      omega
    · exact hold m
  new {r d b} _ hb := by
    rcases Nat.lt_succ_iff_lt_or_eq.mp hb with hlt | rfl
    · exact .inl hlt
    · exact .inr (by simp [added])

theorem install_installs : Installs (install env now) where
  -- by whether the name is registered: its pool is swapped, or a runtime is added at the next address
  wf {r d} h := by
    cases hreg : r.runtimes d.name with
    | none =>
        rw [install_none hreg]
        exact h.added d
    | some a =>
        rw [install_some h hreg]
        exact h.swapped hreg
  next_le {r d} h := by
    cases hreg : r.runtimes d.name with
    | none =>
        rw [install_none hreg]
        exact added_installs.next_le h
    | some a =>
        rw [install_some h hreg]
        exact Nat.le_refl _
  other {r d n} h hne := by
    cases hreg : r.runtimes d.name with
    | none =>
        rw [install_none hreg]
        exact added_installs.other h hne
    | some a =>
        rw [install_some h hreg]
        rfl
  kept {r d b} h hb hd := by
    cases hreg : r.runtimes d.name with
    | none =>
        rw [install_none hreg]
        exact added_installs.kept h hb hd
    | some a =>
        rw [install_some h hreg]
        have hne : b ≠ a := by
          rintro rfl
          exact hd hreg
        exact ⟨Nat.le_refl _, Function.update_of_ne hne _ _, Function.update_of_ne hne _ _⟩
  fresh {r d b} h hb hold m := by
    cases hreg : r.runtimes d.name with
    | none =>
        rw [install_none hreg]
        exact added_installs.fresh h hb hold m
    | some a =>
        rw [install_some h hreg]
        exact hold m
  new {r d b} h hb := by
    cases hreg : r.runtimes d.name with
    | none =>
        rw [install_none hreg] at hb ⊢
        exact added_installs.new h hb
    | some a =>
        rw [install_some h hreg] at hb
        exact .inl hb

/-- One iteration of `build` is an addition, with the new object's breaker and lanes restored. -/
theorem bootOne_eq (rt : Restored) (nowUnix : ℕ) (r : Router) (d : ProviderDef) :
    bootOne env rt nowUnix now r d =
      { added env now r d with
        pools := Function.update r.pools r.next
          ((PoolHandle.boot (Pool.new (d.laneSpecs env) now)).setGen 0
            (restorePool rt d.name nowUnix now (Pool.new (d.laneSpecs env) now)))
        objs := Function.update r.objs r.next
          ⟨d, r.next, ⟨r.next, r.next⟩, r.next, match rt.circuits d.name with
            | some snap => .restore snap nowUnix now
            | none => .astmatrixDefaults⟩ } := by
  simp only [bootOne, build, allocPool, restore, register, added, Function.update_self,
    Function.update_idem]
  rfl

/-- At boot every iteration is an addition, whose breaker and health are then restored. -/
theorem bootOne_installs (rt : Restored) (nowUnix : ℕ) :
    Installs (bootOne env rt nowUnix now) where
  -- boot adds every runtime at a new address; what it restores into it is no part of the registry
  wf {r d} h := by
    have hadd := @WF.added env now r h d
    rw [bootOne_eq]
    refine ⟨hadd.lt, fun n a hn => ?_, fun n a hn => ?_⟩
    · have := hadd.name n a hn
      simp only [added, Function.update_apply] at this ⊢
      split
      · simpa [*] using this
      · simpa [*] using this
    · have := hadd.owns n a hn
      simp only [added, Function.update_apply] at this ⊢
      split
      · rename_i heq
        subst heq
        exact ⟨rfl, rfl, rfl⟩
      · simpa [*] using this
  next_le {r d} h := by
    rw [bootOne_eq]
    exact Nat.le_succ _
  other {r d n} h hne := by
    rw [bootOne_eq]
    exact added_installs.other (f := added env now) h hne
  kept {r d b} h hb hd := by
    have hne := Nat.ne_of_lt hb
    rw [bootOne_eq]
    exact ⟨Nat.le_succ _, Function.update_of_ne hne _ _, Function.update_of_ne hne _ _⟩
  fresh {r d b} h hb hold m := by
    rw [bootOne_eq]
    exact added_installs.fresh (f := added env now) h hb hold m
  new {r d b} h hb := by
    rw [bootOne_eq] at hb ⊢
    exact added_installs.new (f := added env now) h hb

/-! ## `rebuild`

`rebuild` drops the names that are gone or disabled, and installs the enabled ones in their order. -/

/-- The store has an enabled record of this name. -/
def EnabledIn (stored : StoredConfig) (n : String) : Prop :=
  ∃ d ∈ stored.providers, d.name = n ∧ d.enabled = true

instance (stored : StoredConfig) (n : String) : Decidable (EnabledIn stored n) :=
  inferInstanceAs (Decidable (∃ d ∈ stored.providers, d.name = n ∧ d.enabled = true))

theorem mem_enabled_names {stored : StoredConfig} :
    n ∈ (stored.providers.filter (·.enabled)).map (·.name) ↔ EnabledIn stored n := by
  simp only [List.mem_map, List.mem_filter, EnabledIn]
  constructor
  · rintro ⟨d, ⟨hd, hen⟩, rfl⟩
    exact ⟨d, hd, rfl, hen⟩
  · rintro ⟨d, hd, rfl, hen⟩
    exact ⟨d, ⟨hd, hen⟩, rfl⟩

theorem retain_enabled {stored : StoredConfig} (h : EnabledIn stored n) :
    (r.retain stored.providers).runtimes n = r.runtimes n := by
  obtain ⟨d, hd, rfl, hen⟩ := h
  have : (stored.providers.any fun p => p.name == d.name && p.enabled) = true :=
    List.any_eq_true.mpr ⟨d, hd, by simp [hen]⟩
  cases hreg : r.runtimes d.name <;> simp [retain, hreg, this]

/-- A name that is not is dropped. -/
theorem retain_disabled {stored : StoredConfig} (h : ¬ EnabledIn stored n) :
    (r.retain stored.providers).runtimes n = none := by
  have : (stored.providers.any fun p => p.name == n && p.enabled) = false := by
    rw [Bool.eq_false_iff]
    intro hany
    obtain ⟨d, hd, hdn⟩ := List.any_eq_true.mp hany
    simp only [Bool.and_eq_true, beq_iff_eq] at hdn
    exact h ⟨d, hd, hdn.1, hdn.2⟩
  cases hreg : r.runtimes n <;> simp [retain, hreg, this]

theorem WF.rebuild (h : WF r) (stored : StoredConfig) : WF (r.rebuild env stored now) :=
  (install_installs.foldl_wf _ (h.retain _)).congr rfl rfl rfl

theorem rebuild_next_le (h : WF r) (stored : StoredConfig) :
    r.next ≤ (r.rebuild env stored now).next :=
  install_installs.foldl_next_le (f := install env now) _ (h.retain stored.providers)

/-- A name that is gone or disabled leaves the registry. -/
theorem rebuild_disabled (h : WF r) {stored : StoredConfig} (hn : ¬ EnabledIn stored n) :
    (r.rebuild env stored now).runtimes n = none := by
  have hnames : n ∉ (stored.providers.filter (·.enabled)).map (·.name) :=
    fun hmem => hn (mem_enabled_names.mp hmem)
  show ((stored.providers.filter (·.enabled)).foldl (install env now) _).runtimes n = none
  rw [install_installs.foldl_other _ (h.retain _) hnames]
  exact retain_disabled hn

/-- Whatever is registered after a rebuild stands in its order. -/
theorem rebuild_registered (h : WF r) {stored : StoredConfig}
    (hreg : (r.rebuild env stored now).runtimes n = some a) :
    n ∈ (r.rebuild env stored now).order := by
  show n ∈ (stored.providers.filter (·.enabled)).map (·.name)
  rw [mem_enabled_names]
  by_contra hn
  rw [rebuild_disabled h hn] at hreg
  cases hreg

/-- The names of a valid store are distinct, and so are those that are enabled. -/
theorem enabled_nodup {stored : StoredConfig} (h : (stored.providers.map (·.name)).Nodup) :
    ((stored.providers.filter (·.enabled)).map (·.name)).Nodup :=
  (List.Sublist.map _ List.filter_sublist).nodup h

/-- **An enabled name after a rebuild.** Its runtime is the one it had, reconfigured, or, if it had
none, a new one. -/
theorem rebuild_enabled (h : WF r) {stored : StoredConfig}
    (hnodup : (stored.providers.map (·.name)).Nodup) {d : ProviderDef} (hd : d ∈ stored.providers)
    (hen : d.enabled = true) :
    (∃ a, r.runtimes d.name = some a ∧ (r.rebuild env stored now).runtimes d.name = some a ∧
      (r.rebuild env stored now).objs a = { r.objs a with defn := d } ∧
      (r.rebuild env stored now).pools a = (r.pools a).swap (d.laneSpecs env) now) ∨
    (r.runtimes d.name = none ∧ ∃ a, r.next ≤ a ∧
      (r.rebuild env stored now).runtimes d.name = some a ∧
      (r.rebuild env stored now).objs a = ⟨d, a, ⟨a, a⟩, a, .astmatrixDefaults⟩ ∧
      (r.rebuild env stored now).pools a = .boot (Pool.new (d.laneSpecs env) now)) := by
  -- what `retain` leaves has the runtimes whose names are enabled
  have hwf := h.retain stored.providers
  have hret : (r.retain stored.providers).runtimes d.name = r.runtimes d.name :=
    retain_enabled ⟨d, hd, rfl, hen⟩
  -- among the definitions, this one is installed once; those before and after it are of other names
  obtain ⟨r₁, hwf₁, hnext, hreg₁, hkept₁, hreg₂, hkept₂⟩ :=
    (@install_installs env now).foldl_at hwf (enabled_nodup hnodup)
      (List.mem_filter.mpr ⟨hd, hen⟩)
  rw [hret] at hreg₁ hkept₁
  cases hreg : r.runtimes d.name with
  -- registered before: its runtime is kept, with the new definition and a swapped pool
  | some a =>
      left
      have h₁ := hreg₁.trans hreg
      rw [install_some hwf₁ h₁] at hreg₂ hkept₂
      have hk := hkept₂ a h₁
      have hk₁ := hkept₁ a hreg
      refine ⟨a, rfl, hreg₂.trans h₁, hk.objs.trans ?_, hk.pools.trans ?_⟩
      · simp [swapped, hk₁.objs, retain]
      · simp [swapped, hk₁.pools, retain]
  -- not registered: it gets an address and a runtime of its own
  | none =>
      right
      have h₁ := hreg₁.trans hreg
      rw [install_none h₁] at hreg₂ hkept₂
      have hself : (added env now r₁ d).runtimes d.name = some r₁.next := by
        simp [added]
      have hk := hkept₂ r₁.next hself
      refine ⟨rfl, r₁.next, hnext, hreg₂.trans hself, hk.objs.trans ?_, hk.pools.trans ?_⟩
      · simp [added]
      · simp [added]

/-- **The frame of a rebuild.** An object that is not the runtime of an enabled name stays. -/
theorem rebuild_kept (h : WF r) {stored : StoredConfig} (hb : b < r.next)
    (hout : ∀ m, EnabledIn stored m → r.runtimes m ≠ some b) :
    Kept b r (r.rebuild env stored now) := by
  have hun : ∀ m, (r.retain stored.providers).runtimes m ≠ some b := by
    intro m
    by_cases hm : EnabledIn stored m
    · rw [retain_enabled hm]
      exact hout m hm
    · rw [retain_disabled hm]
      exact Option.some_ne_none b |>.symm
  have hk := (@install_installs env now).foldl_kept_unregistered
    (stored.providers.filter (·.enabled)) (h.retain stored.providers) hb hun
  exact ⟨hk.next, hk.objs, hk.pools⟩

/-- What a rebuild allocates it registers. -/
theorem rebuild_new (h : WF r) {stored : StoredConfig}
    (hnodup : (stored.providers.map (·.name)).Nodup) (hb : b < (r.rebuild env stored now).next) :
    b < r.next ∨ ∃ n, (r.rebuild env stored now).runtimes n = some b := by
  rcases (@install_installs env now).foldl_new _ (h.retain stored.providers)
    (enabled_nodup hnodup) hb with hb | ⟨d, -, hreg⟩
  · exact .inl hb
  · exact .inr ⟨d.name, hreg⟩

/-- What is registered after a rebuild was registered before, or is new. -/
theorem rebuild_old_or_new (h : WF r) {stored : StoredConfig}
    (hnodup : (stored.providers.map (·.name)).Nodup)
    (hreg : (r.rebuild env stored now).runtimes n = some b) :
    r.runtimes n = some b ∨ r.next ≤ b := by
  by_cases hn : EnabledIn stored n
  · obtain ⟨d, hd, rfl, hen⟩ := hn
    rcases rebuild_enabled h hnodup hd hen with
      ⟨a, ha, ha', -, -⟩ | ⟨-, a, hle, ha', -, -⟩
    · obtain rfl : a = b := Option.some.inj (ha'.symm.trans hreg)
      exact .inl ha
    · obtain rfl : a = b := Option.some.inj (ha'.symm.trans hreg)
      exact .inr hle
  · rw [rebuild_disabled h hn] at hreg
    cases hreg

/-- An object never changes the name of its definition. -/
theorem rebuild_name (h : WF r) {stored : StoredConfig}
    (hnodup : (stored.providers.map (·.name)).Nodup) (hb : b < r.next) :
    ((r.rebuild env stored now).objs b).defn.name = (r.objs b).defn.name := by
  by_cases hout : ∃ m, EnabledIn stored m ∧ r.runtimes m = some b
  · obtain ⟨m, ⟨d, hd, rfl, hen⟩, hreg⟩ := hout
    rcases rebuild_enabled h hnodup hd hen with
      ⟨a, ha, -, hobjs, -⟩ | ⟨hnone, -⟩
    · obtain rfl : b = a := Option.some.inj (hreg.symm.trans ha)
      rw [hobjs]
      exact (h.name d.name b hreg).symm
    · rw [hnone] at hreg
      cases hreg
  · have hkept := @rebuild_kept env now r b h stored hb
      fun m hm hreg => hout ⟨m, hm, hreg⟩
    rw [hkept.objs]

/-! ## `build`

`build` starts with an empty registry. -/

theorem wf_boot (stored : StoredConfig) (rt : Restored) (nowUnix : ℕ) (now : ℤ) :
    WF (boot env stored rt nowUnix now) :=
  ((bootOne_installs rt nowUnix).foldl_wf _ (wf_empty _)).congr rfl rfl rfl

/-- What is not enabled is not registered. -/
theorem boot_disabled {stored : StoredConfig} (rt : Restored) (nowUnix : ℕ) (now : ℤ)
    (hn : ¬ EnabledIn stored n) : (boot env stored rt nowUnix now).runtimes n = none := by
  have hnames : n ∉ (stored.providers.filter (·.enabled)).map (·.name) :=
    fun hmem => hn (mem_enabled_names.mp hmem)
  show ((stored.providers.filter (·.enabled)).foldl (bootOne env rt nowUnix now) _).runtimes n = _
  rw [(bootOne_installs rt nowUnix).foldl_other _ (wf_empty _) hnames]
  rfl

/-- What is registered stands in the order. -/
theorem boot_registered {stored : StoredConfig} {rt : Restored} {nowUnix : ℕ}
    (hreg : (boot env stored rt nowUnix now).runtimes n = some a) :
    n ∈ (boot env stored rt nowUnix now).order := by
  show n ∈ (stored.providers.filter (·.enabled)).map (·.name)
  rw [mem_enabled_names]
  by_contra hn
  rw [boot_disabled rt nowUnix now hn] at hreg
  cases hreg

/-- What is allocated at boot is registered. -/
theorem boot_new {stored : StoredConfig} {rt : Restored} {nowUnix : ℕ}
    (hnodup : (stored.providers.map (·.name)).Nodup)
    (hb : b < (boot env stored rt nowUnix now).next) :
    ∃ n, (boot env stored rt nowUnix now).runtimes n = some b := by
  rcases (bootOne_installs rt nowUnix).foldl_new _ (wf_empty rt.health)
    (enabled_nodup hnodup) hb with hb | ⟨d, -, hreg⟩
  · exact absurd hb (Nat.not_lt_zero _)
  · exact ⟨d.name, hreg⟩

/-- An enabled name at boot: a new runtime, its lanes and its breaker restored. -/
theorem boot_enabled {stored : StoredConfig} (rt : Restored) (nowUnix : ℕ) (now : ℤ)
    (hnodup : (stored.providers.map (·.name)).Nodup) {d : ProviderDef} (hd : d ∈ stored.providers)
    (hen : d.enabled = true) :
    ∃ a, (boot env stored rt nowUnix now).runtimes d.name = some a ∧
      ((boot env stored rt nowUnix now).objs a).defn = d ∧
      (boot env stored rt nowUnix now).pools a =
        (PoolHandle.boot (Pool.new (d.laneSpecs env) now)).setGen 0
          (restorePool rt d.name nowUnix now (Pool.new (d.laneSpecs env) now)) := by
  obtain ⟨r₁, -, -, -, -, hreg₂, hkept₂⟩ :=
    (bootOne_installs rt nowUnix).foldl_at (wf_empty rt.health)
      (enabled_nodup hnodup) (List.mem_filter.mpr ⟨hd, hen⟩)
  rw [bootOne_eq] at hreg₂ hkept₂
  have hself : (added env now r₁ d).runtimes d.name = some r₁.next := by
    simp [added]
  have hk := hkept₂ r₁.next hself
  refine ⟨r₁.next, hreg₂.trans hself, ?_, hk.pools.trans ?_⟩
  · have : (boot env stored rt nowUnix now).objs r₁.next = _ := hk.objs
    rw [this]
    simp
  · simp

end Router

end Flock
