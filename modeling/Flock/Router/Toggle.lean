/-
# Flock.Router.Toggle — what disabling and re-enabling a provider does to its keys' windows.

Inside one handle a key's window survives every swap (`Flock.Pool.Window`).  Across a disable it does
not: `rebuild` drops the runtime, and the next enable builds a new one with empty windows, while the
upstream still counts what the old one sent.  Two things have to hold for the budget to hold: a
runtime is built anew only when the old grants of the key have left the window, and the old object,
which queued requests may still hold, grants no more.

`Spent` is the invariant under that condition: the newest runtime of the provider accounts for ALL
unreleased grants of the key by ANY runtime of the provider.
-/
import Flock.Pool.Window
import Flock.Router.System

namespace Flock

open Lib (System age inWindow)
open Serving (stampOf Accounted stampsOf)

namespace Router

variable {env : Env}

/-- A fold keeps what each of its steps keeps. -/
theorem foldl_keeps {α β γ : Type} (g : β → γ) {f : β → α → β} (h : ∀ b a, g (f b a) = g b) :
    ∀ (l : List α) (b : β), g (l.foldl f b) = g b
  | [], _ => rfl
  | a :: l, b => (foldl_keeps g h l (f b a)).trans (h b a)

@[simp] theorem restorePool_shape (rt : Restored) (name : String) (nowUnix : ℕ) (now : ℤ)
    (p : Pool) : (restorePool rt name nowUnix now p).shape = p.shape := by
  unfold restorePool
  rw [foldl_keeps Pool.shape fun p row => Pool.restoreCooldown_shape p _ _ _ _]
  exact foldl_keeps Pool.shape (fun p row => Pool.restoreLaneWindow_shape p _ _ _ _) _ _

@[simp] theorem restorePool_active (rt : Restored) (name : String) (nowUnix : ℕ) (now : ℤ)
    (p : Pool) : (restorePool rt name nowUnix now p).active = p.active := by
  unfold restorePool
  rw [foldl_keeps Pool.active fun p row => Pool.restoreCooldown_active p _ _ _ _]
  exact foldl_keeps Pool.active (fun p row => Pool.restoreLaneWindow_active p _ _ _ _) _ _

end Router

namespace Fleet

variable {env : Env} {w w' : Fleet} {P k : String} {a b : ℕ}

/-! ## The provider's runtimes and their grants

A grant names the object that made it.  The grants of a provider are those of all its objects, the ones that the
registry has forgotten included. -/

/-- The object at `a` is a runtime of `P`. -/
def Of (P : String) (w : Fleet) (a : ℕ) : Prop := (w.router.objs a).defn.name = P

instance (P : String) (w : Fleet) (a : ℕ) : Decidable (Of P w a) :=
  inferInstanceAs (Decidable (_ = _))

/-- The stamps of the unreleased grants of `k` by any runtime of `P`. -/
def stampsBy (P k : String) (w : Fleet) : List ℤ :=
  Lib.logOf (fun x => decide (Of P w x.1) && x.2.key == k) (·.2.stamp) w.live

/-- The unreleased grants of `k` by `P` with a stamp in `(t - 61 s, t]`. -/
def unreleasedBy (P k : String) (t : ℤ) (w : Fleet) : List (ℕ × Grant) :=
  w.live.filter fun x => decide (Of P w x.1) && x.2.key == k &&
    decide (t - window < x.2.stamp ∧ x.2.stamp ≤ t)

/-- The most recently built runtime of `P`. -/
structure Newest (P : String) (w : Fleet) (a : ℕ) : Prop where
  lt : a < w.router.next
  of : Of P w a
  max : ∀ b, b < w.router.next → Of P w b → b ≤ a

/-- The definition of `P` in the store has the key `k`, whether or not `P` is enabled. -/
def KeepsKey (env : Env) (P k : String) (stored : StoredConfig) : Prop :=
  ∃ d ∈ stored.providers, d.name = P ∧ k ∈ (d.laneSpecs env).map (·.key)

/-- **The condition.** A rebuild that builds `P`'s runtime anew finds every unreleased grant of `k`
by `P` out of the window; and of `P`'s runtimes only the newest grants. -/
def ToggleSafe (P k : String) (w : Fleet) : FleetEvent → Prop
  | .rebuild stored t => w.router.runtimes P = none → Router.EnabledIn stored P →
      ∀ x ∈ stampsBy P k w, window ≤ age t x
  | .reserve a _ _ => Of P w a → ∀ b, b < w.router.next → Of P w b → b ≤ a
  | _ => True

instance (P k : String) (w : Fleet) (e : FleetEvent) : Decidable (ToggleSafe P k w e) :=
  match e with
  | .rebuild stored t =>
      inferInstanceAs (Decidable (w.router.runtimes P = none → Router.EnabledIn stored P →
        ∀ x ∈ stampsBy P k w, window ≤ age t x))
  | .reserve a _ _ =>
      inferInstanceAs (Decidable (Of P w a → ∀ b, b < w.router.next → Of P w b → b ≤ a))
  | .select .. | .allow .. | .recordSuccess .. | .recordFailure .. | .recordHealth ..
  | .recordLatency .. | .setElo .. | .setSticky .. | .sweepStickies .. | .release ..
  | .penalize .. => .isTrue trivial

/-- **`Spent`** — the newest runtime of `P` accounts for every unreleased grant of `k` by `P`. -/
structure Spent (P k : String) (w : Fleet) : Prop where
  filed : Filed w.router
  held : ∀ x ∈ w.live, x.1 < w.router.next
  newest : ∀ a, w.router.runtimes P = some a → Newest P w a
  accounted : ∀ a, Newest P w a → Accounted k (stampsBy P k w) (w.serving a)

/-! ## Ghost bookkeeping

The log of grants is a ghost: nothing in the code reads it. -/

/-- Same names at the addresses in use, same log. -/
theorem stampsBy_congr (hlive : w'.live = w.live)
    (hname : ∀ x ∈ w.live, Of P w' x.1 ↔ Of P w x.1) : stampsBy P k w' = stampsBy P k w := by
  unfold stampsBy Lib.logOf
  rw [hlive]
  congr 1
  apply List.filter_congr
  intro x hx
  rw [decide_eq_decide.mpr (hname x hx)]

theorem Newest.unique {a b : ℕ} (ha : Newest P w a) (hb : Newest P w b) : a = b :=
  Nat.le_antisymm (hb.max a ha.lt ha.of) (ha.max b hb.lt hb.of)

/-- Newest in a state with the same addresses and names. -/
theorem Newest.congr (hnext : w'.router.next = w.router.next)
    (hname : ∀ a, Of P w' a ↔ Of P w a) (h : Newest P w' a) : Newest P w a :=
  ⟨hnext ▸ h.lt, (hname a).mp h.of, fun b hb hof => h.max b (hnext ▸ hb) ((hname b).mpr hof)⟩

/-- The names at the addresses are as they were. -/
theorem of_same (hs : Router.SameRegistry w.router w'.router) (a : ℕ) :
    Of P w' a ↔ Of P w a := by
  unfold Of
  rw [hs.defn]

/-! ## The steps

Every step either leaves the lanes of the newest runtime alone, or goes through its handle, or rebuilds. -/

/-- Whatever leaves registry, lanes and ghosts alone. -/
theorem Spent.quiet (h : Spent P k w) (hq : Quiet w w') : Spent P k w' where
  filed := h.filed.same hq.same
  held x hx := by
    rw [hq.same.next]
    exact h.held x (hq.live ▸ hx)
  newest a ha := by
    rw [hq.same.runtimes] at ha
    obtain ⟨hlt, hof, hmax⟩ := h.newest a ha
    refine ⟨hq.same.next ▸ hlt, (of_same hq.same a).mpr hof, fun b hb hb' => ?_⟩
    exact hmax b (hq.same.next ▸ hb) ((of_same hq.same b).mp hb')
  accounted a ha := by
    have hold := h.accounted a (ha.congr hq.same.next (of_same hq.same))
    have hserving : w'.serving a = { w.serving a with now := w'.now } := by
      simp only [serving, hq.pools, hq.specs, hq.live]
    rw [hserving, stampsBy_congr hq.live fun x _ => of_same hq.same x.1]
    exact hold.later hq.now

/-- Rewriting a handle is no business of the registry. -/
theorem sameRegistry_setHandle (r : Router) (a : ℕ) (x : PoolHandle) :
    Router.SameRegistry r (setHandle r a x) := .of_objs rfl rfl rfl rfl

/-- Rewriting a handle of the fleet: what has to be shown is the account of the newest runtime. -/
theorem Spent.setHandle (h : Spent P k w) {a : ℕ} {x : PoolHandle} {t : ℤ}
    {live : List (ℕ × Grant)} (hlive : ∀ y ∈ live, y.1 < w.router.next)
    (hacc : ∀ b, Newest P w b →
      Accounted k (stampsBy P k { w with now := t, router := setHandle w.router a x, live := live })
        (serving { w with now := t, router := setHandle w.router a x, live := live } b)) :
    Spent P k { w with now := t, router := setHandle w.router a x, live := live } where
  filed := h.filed.same (sameRegistry_setHandle w.router a x)
  held := hlive
  newest b hb := by
    obtain ⟨hlt, hof, hmax⟩ := h.newest b hb
    exact ⟨hlt, hof, hmax⟩
  accounted b hb := hacc b ⟨hb.lt, hb.of, hb.max⟩

/-! ### One handle of the fleet -/

/-- The other handles see time pass. -/
theorem serving_other {a b : ℕ} (hne : b ≠ a) (x : PoolHandle) (t : ℤ) {live : List (ℕ × Grant)}
    (hlive : (live.filter fun y => y.1 == b) = w.live.filter fun y => y.1 == b) :
    serving { w with now := t, router := setHandle w.router a x, live := live } b =
      { w.serving b with now := t } := by
  simp only [serving, setHandle, Function.update_of_ne hne, hlive]

/-- A reserve is one of the handle at its address. -/
theorem serving_reserve (w : Fleet) (a : ℕ) (t : ℤ) (prefer : Option ℕ) :
    (w.reserve a t prefer).1.serving a = ((w.serving a).reserve t prefer).1 := by
  simp only [reserve, serving, setHandle, Function.update_self, List.filter_append, List.map_append,
    Serving.reserve]
  congr 2
  simp [List.filter_map, Function.comp_def]

/-- Taking a pair out and looking at one first component. -/
theorem erase_pair (a : ℕ) (g : Grant) (live : List (ℕ × Grant)) :
    ((live.erase (a, g)).filter fun x => x.1 == a).map (·.2) =
      ((live.filter fun x => x.1 == a).map (·.2)).erase g := by
  induction live with
  | nil => rfl
  | cons y ys ih =>
      obtain ⟨b, g'⟩ := y
      by_cases hb : b = a
      · subst hb
        by_cases hg : g' = g
        · subst hg
          simp
        · have hne : ((b, g') == (b, g)) = false := by simpa using hg
          have hne' : (g' == g) = false := by simpa using hg
          rw [List.erase_cons, hne]
          simp [hne', ih]
      · have hne : ((b, g') == (a, g)) = false := by simp [hb]
        rw [List.erase_cons, hne]
        simp [hb, ih]

theorem serving_release (w : Fleet) (a : ℕ) (g : Grant) :
    (w.release a g).serving a = (w.serving a).release g := by
  simp only [release, serving, setHandle, Function.update_self, Serving.release, erase_pair]

theorem serving_penalize (w : Fleet) (a gen lane backoff : ℕ) (t : ℤ) :
    (w.penalize a gen lane backoff t).serving a = (w.serving a).penalize gen lane backoff t := by
  simp only [penalize, serving, setHandle, Function.update_self, Serving.penalize]

/-- A grant is added to the stamps of its key. -/
theorem stampsBy_reserve (w : Fleet) (a : ℕ) (t : ℤ) (prefer : Option ℕ) :
    stampsBy P k (w.reserve a t prefer).1 =
      stampsBy P k w ++ if Of P w a then stampOf k (w.reserve a t prefer).2 else [] := by
  show Lib.logOf (fun x => decide (Of P w x.1) && x.2.key == k) (·.2.stamp)
    (w.live ++ (((w.serving a).reserve t prefer).2.grants (w.router.pools a).cur).map
      fun g => (a, g)) = _
  rw [Lib.logOf_append, ← Serving.stampsOf_grants k (w.router.pools a).cur]
  refine congrArg (stampsBy P k w ++ ·) ?_
  by_cases hof : Of P w a
  · simp [Lib.logOf, stampsOf, hof, List.filter_map, Function.comp_def, reserve]
  · simp [Lib.logOf, hof, List.filter_map, Function.comp_def]

/-- A release takes its stamp out of the log it is in. -/
theorem stampsBy_release {g : Grant} (hmem : (a, g) ∈ w.live) :
    (stampsBy P k (w.release a g)).Perm
      (if Of P w a ∧ g.key = k then (stampsBy P k w).erase g.stamp else stampsBy P k w) := by
  show (Lib.logOf (fun x => decide (Of P w x.1) && x.2.key == k) (·.2.stamp)
    (w.live.erase (a, g))).Perm _
  split
  · rename_i hin
    exact Lib.logOf_erase_perm hmem (by simpa using hin)
  · rename_i hout
    rw [Lib.logOf_erase_of_neg (by simpa using hout)]
    rfl

/-- A reserve by the newest runtime is counted by it; one by an older runtime is what the condition excludes. -/
theorem Spent.reserve (h : Spent P k w) {t : ℤ} (hle : w.now ≤ t) (ha : a < w.router.next)
    (prefer : Option ℕ) (hsafe : ToggleSafe P k w (.reserve a prefer t)) :
    Spent P k (w.reserve a t prefer).1 := by
  refine h.setHandle ?_ fun b hb => ?_
  · intro y hy
    rcases List.mem_append.mp hy with hy | hy
    · exact h.held y hy
    · obtain ⟨g, -, rfl⟩ := List.mem_map.mp hy
      exact ha
  · have hstamps := stampsBy_reserve (P := P) (k := k) w a t prefer
    show Accounted k (stampsBy P k (w.reserve a t prefer).1) ((w.reserve a t prefer).1.serving b)
    rw [hstamps]
    by_cases hab : b = a
    · subst hab
      rw [serving_reserve, if_pos hb.of]
      exact (h.accounted b hb).reserve hle prefer
    · -- only the newest runtime of `P` grants, so this one is another provider's
      have hof : ¬ Of P w a := fun hof => hab (hb.unique ⟨ha, hof, hsafe hof⟩)
      rw [if_neg hof, List.append_nil]
      have hother : (w.reserve a t prefer).1.serving b = { w.serving b with now := t } := by
        apply serving_other hab
        simp [List.filter_append, List.filter_map, Function.comp_def, Ne.symm hab]
      rw [hother]
      exact (h.accounted b hb).later hle

/-- A release takes the stamp out of both accounts. -/
theorem Spent.release (h : Spent P k w) {g : Grant} (hmem : (a, g) ∈ w.live) :
    Spent P k (w.release a g) := by
  refine h.setHandle (fun y hy => h.held y (List.mem_of_mem_erase hy)) fun b hb => ?_
  show Accounted k (stampsBy P k (w.release a g)) ((w.release a g).serving b)
  have hacc := h.accounted b hb
  apply Accounted.perm _ (stampsBy_release hmem)
  by_cases hab : b = a
  · subst hab
    rw [serving_release]
    have hlive : g ∈ (w.serving b).live :=
      List.mem_map.mpr ⟨(b, g), List.mem_filter.mpr ⟨hmem, by simp⟩, rfl⟩
    simpa [hb.of] using hacc.release hlive
  · -- a slot of another runtime, an older one of `P` perhaps: the newest keeps its stamp
    have hother : (w.release a g).serving b = { w.serving b with now := w.now } := by
      apply serving_other hab
      apply Lib.filter_erase_of_neg
      simpa using Ne.symm hab
    rw [hother]
    split
    · exact hacc.forget g.stamp
    · exact hacc

theorem Spent.penalize (h : Spent P k w) {t : ℤ} (hle : w.now ≤ t) (gen lane backoff : ℕ) :
    Spent P k (w.penalize a gen lane backoff t) := by
  refine h.setHandle h.held fun b hb => ?_
  have hstamps : stampsBy P k (w.penalize a gen lane backoff t) = stampsBy P k w :=
    stampsBy_congr rfl fun _ _ => Iff.rfl
  show Accounted k (stampsBy P k (w.penalize a gen lane backoff t))
    ((w.penalize a gen lane backoff t).serving b)
  rw [hstamps]
  by_cases hab : b = a
  · subst hab
    rw [serving_penalize]
    exact (h.accounted b hb).penalize hle gen lane backoff
  · have hother : (w.penalize a gen lane backoff t).serving b = { w.serving b with now := t } :=
      serving_other hab _ _ rfl
    rw [hother]
    exact (h.accounted b hb).later hle

/-! ### A rebuild -/

/-- A record of `P` in a validated store is the one that keeps the key. -/
theorem KeepsKey.laneSpecs {stored : StoredConfig} (h : KeepsKey env P k stored)
    (hvalid : (validate stored).isOk = true) {d : ProviderDef} (hd : d ∈ stored.providers)
    (hname : d.name = P) : Keeps k (d.laneSpecs env) := by
  obtain ⟨d', hd', hname', hk⟩ := h
  obtain rfl : d' = d :=
    List.inj_on_of_nodup_map (validate_nodup hvalid) hd' hd (hname'.trans hname.symm)
  exact ⟨d'.laneSpecs_nodup, hk⟩

/-- Addresses keep their provider through a rebuild. -/
theorem of_rebuild (h : Filed w.router) {stored : StoredConfig}
    (hvalid : (validate stored).isOk = true) (t : ℤ) (hb : b < w.router.next) :
    Of P (w.rebuild env stored t) b ↔ Of P w b := by
  show ((w.router.rebuild env stored t).objs b).defn.name = P ↔ _
  rw [Router.rebuild_name h.wf (validate_nodup hvalid) hb]
  rfl

/-- An address a rebuild allocated for `P` is the one it registered. -/
theorem new_of_rebuild (h : Filed w.router) {stored : StoredConfig}
    (hvalid : (validate stored).isOk = true) {t : ℤ}
    (hb : b < (w.rebuild env stored t).router.next) (hof : Of P (w.rebuild env stored t) b) :
    b < w.router.next ∨ (w.rebuild env stored t).router.runtimes P = some b := by
  rcases Router.rebuild_new h.wf (validate_nodup hvalid) hb with hlt | ⟨n, hreg⟩
  · exact .inl hlt
  · have hn := (h.wf.rebuild stored).name n b hreg
    obtain rfl : n = P := hn.symm.trans hof
    exact .inr hreg

/-- The specs of a runtime that a rebuild has left registered are those of its definition. -/
theorem specs_rebuild_registered (h : Filed w.router) {stored : StoredConfig} {t : ℤ}
    (hreg : (w.rebuild env stored t).router.runtimes P = some a) :
    (w.rebuild env stored t).specs a =
      ((w.router.rebuild env stored t).objs a).defn.laneSpecs env := by
  have hn := (h.wf.rebuild stored).name P a hreg
  show Router.specsOf env (w.router.rebuild env stored t) w.specs a = _
  rw [Router.specsOf, hn]
  exact if_pos hreg

/-- The runtime a rebuild leaves in the registry is the newest. -/
theorem Spent.newest_rebuild (h : Spent P k w) {stored : StoredConfig}
    (hvalid : (validate stored).isOk = true) {t : ℤ}
    (hreg : (w.rebuild env stored t).router.runtimes P = some a) :
    Newest P (w.rebuild env stored t) a := by
  have hwf := @Router.WF.rebuild env t w.router h.filed.wf stored
  refine ⟨hwf.lt P a hreg, hwf.name P a hreg, fun b hb hof => ?_⟩
  rcases new_of_rebuild h.filed hvalid hb hof with hlt | hreg'
  · have hofw : Of P w b := (of_rebuild h.filed hvalid t hlt).mp hof
    -- an older runtime of `P`: below the survivor, or below every new address
    have hen : Router.EnabledIn stored P := by
      by_contra hn
      rw [show (w.rebuild env stored t).router.runtimes P = none from
        Router.rebuild_disabled h.filed.wf hn] at hreg
      cases hreg
    obtain ⟨d, hd, rfl, hden⟩ := hen
    rcases Router.rebuild_enabled h.filed.wf (validate_nodup hvalid) hd hden
      with ⟨a', ha', hreg₂, -, -⟩ | ⟨-, a', hle, hreg₂, -, -⟩
    · obtain rfl : a = a' := Option.some.inj (hreg.symm.trans hreg₂)
      exact (h.newest a ha').max b hlt hofw
    · obtain rfl : a = a' := Option.some.inj (hreg.symm.trans hreg₂)
      omega
  · exact Nat.le_of_eq (Option.some.inj (hreg'.symm.trans hreg))

/-- The newest runtime's account after a rebuild: a survivor is swapped, a newcomer starts with an
expired log, a dropped one is left alone. -/
theorem Spent.accounted_rebuild (h : Spent P k w) {t : ℤ} (hle : w.now ≤ t) {stored : StoredConfig}
    (hvalid : (validate stored).isOk = true) (hkeeps : KeepsKey env P k stored)
    (hsafe : ToggleSafe P k w (.rebuild stored t)) (hnew : Newest P (w.rebuild env stored t) a) :
    Accounted k (stampsBy P k w) ((w.rebuild env stored t).serving a) := by
  -- enabled after the save: a runtime that stays gets its pool swapped, and one that is new a fresh pool
  by_cases hen : Router.EnabledIn stored P
  · obtain ⟨d, hd, hname, hden⟩ := hen
    have hspecs : Keeps k (d.laneSpecs env) := hkeeps.laneSpecs hvalid hd hname
    rcases Router.rebuild_enabled h.filed.wf (validate_nodup hvalid) hd hden
      with ⟨a', ha', hreg, hobjs, hpools⟩ | ⟨hnone, a', hge, hreg, hobjs, hpools⟩
    · rw [hname] at ha' hreg
      obtain rfl : a = a' := hnew.unique (h.newest_rebuild hvalid hreg)
      have hserving : (w.rebuild env stored t).serving a =
          (w.serving a).swap (d.laneSpecs env) t := by
        have hsp := specs_rebuild_registered h.filed hreg
        rw [hobjs] at hsp
        simp only [serving, Serving.swap]
        rw [hsp]
        simp only [rebuild, hpools]
      rw [hserving]
      exact (h.accounted a (h.newest a ha')).swap hle hspecs
    · rw [hname] at hnone hreg
      obtain rfl : a = a' := hnew.unique (h.newest_rebuild hvalid hreg)
      -- nobody holds a grant of an address that is not in use yet
      have hlive : (w.live.filter fun x => x.1 == a) = [] := by
        rw [List.filter_eq_nil_iff]
        intro x hx
        have := h.held x hx
        simp only [beq_iff_eq]
        omega
      have hserving : (w.rebuild env stored t).serving a =
          Serving.boot (d.laneSpecs env) t := by
        have hsp := specs_rebuild_registered h.filed hreg
        rw [hobjs] at hsp
        simp only [serving, Serving.boot]
        rw [hsp]
        simp only [rebuild, hpools, hlive, List.map_nil]
      rw [hserving]
      exact Serving.accounted_boot hspecs (hsafe hnone ⟨d, hd, hname, hden⟩)
  -- disabled after the save: the newest pool is the one of before, without a registry entry
  · have hnone : (w.rebuild env stored t).router.runtimes P = none :=
      Router.rebuild_disabled h.filed.wf hen
    have hlt : a < w.router.next := by
      rcases new_of_rebuild h.filed hvalid hnew.lt hnew.of with hlt | hreg
      · exact hlt
      · rw [hnone] at hreg
        cases hreg
    have hof : Of P w a := (of_rebuild h.filed hvalid t hlt).mp hnew.of
    have hkept : Router.Kept a w.router (w.router.rebuild env stored t) := by
      apply Router.rebuild_kept h.filed.wf hlt
      intro m hm hreg
      have hmP : m = P := (h.filed.wf.name m a hreg).symm.trans hof
      exact hen (hmP ▸ hm)
    have hold : Newest P w a := by
      refine ⟨hlt, hof, fun b hb hofb => hnew.max b (Nat.lt_of_lt_of_le hb hkept.next) ?_⟩
      exact (of_rebuild h.filed hvalid t hb).mpr hofb
    -- nothing was written to it
    have hserving : (w.rebuild env stored t).serving a = { w.serving a with now := t } := by
      have hsp : (w.rebuild env stored t).specs a = w.specs a := by
        show Router.specsOf env (w.router.rebuild env stored t) w.specs a = _
        have hne : (w.router.rebuild env stored t).runtimes
            ((w.router.rebuild env stored t).objs a).defn.name ≠ some a := by
          have hn : ((w.router.rebuild env stored t).objs a).defn.name = P := hnew.of
          rw [hn]
          intro hreg
          exact absurd (hnone.symm.trans hreg) (by simp)
        rw [Router.specsOf, if_neg hne]
      simp only [serving]
      rw [hsp]
      simp only [rebuild, hkept.pools]
    rw [hserving]
    exact (h.accounted a hold).later hle

/-- A rebuild that meets the condition. -/
theorem Spent.rebuild (h : Spent P k w) {t : ℤ} (hle : w.now ≤ t) {stored : StoredConfig}
    (hvalid : (validate stored).isOk = true) (hkeeps : KeepsKey env P k stored)
    (hsafe : ToggleSafe P k w (.rebuild stored t)) : Spent P k (w.rebuild env stored t) where
  filed := ⟨h.filed.wf.rebuild stored, fun _ _ hn => Router.rebuild_registered h.filed.wf hn⟩
  held x hx := Nat.lt_of_lt_of_le (h.held x hx) (Router.rebuild_next_le h.filed.wf stored)
  newest _ ha := h.newest_rebuild hvalid ha
  accounted a ha := by
    have hlog : stampsBy P k (w.rebuild env stored t) = stampsBy P k w :=
      stampsBy_congr rfl fun x hx => of_rebuild h.filed hvalid t (h.held x hx)
    rw [hlog]
    exact h.accounted_rebuild hle hvalid hkeeps hsafe ha

/-! ## Runs

Step by step, from the boot on; at the end the account of the newest runtime bounds what was spent. -/

/-- Every rebuild of the event is of a store that keeps the key. -/
def KeepsKeyEvent (env : Env) (P k : String) (e : FleetEvent) : Prop :=
  ∀ stored t, e = .rebuild stored t → KeepsKey env P k stored

/-- **One step.** -/
theorem Spent.step (h : Spent P k w) {e : FleetEvent} (hstep : w.step env e = some w')
    (hkeeps : KeepsKeyEvent env P k e) (hsafe : ToggleSafe P k w e) : Spent P k w' := by
  rcases step_cases hstep with ⟨stored, t, rfl, hle, hvalid, rfl⟩ |
    ⟨a, prefer, t, rfl, hle, ha, rfl⟩ | ⟨a, g, rfl, hmem, rfl⟩ |
    ⟨a, gen, lane, b, t, rfl, hle, -, rfl⟩ | hq
  · exact h.rebuild hle hvalid (hkeeps stored t rfl) hsafe
  · exact h.reserve hle ha prefer hsafe
  · exact h.release hmem
  · exact h.penalize hle gen lane b
  · exact h.quiet hq

/-- A handle whose lanes were restored at boot: same shape, nothing granted yet. -/
theorem accounted_restored {specs : List LaneSpec} (h : Keeps k specs) (rt : Restored)
    (name : String) (nowUnix : ℕ) (t : ℤ) :
    Accounted k [] ⟨t, (PoolHandle.boot (Pool.new specs t)).setGen 0
      (Router.restorePool rt name nowUnix t (Pool.new specs t)), specs, []⟩ := by
  have hboot := Serving.built_boot specs t
  have hpool : ((PoolHandle.boot (Pool.new specs t)).setGen 0
      (Router.restorePool rt name nowUnix t (Pool.new specs t))).pool =
        Router.restorePool rt name nowUnix t (Pool.new specs t) := by
    rw [PoolHandle.pool_setGen]
    exact if_pos rfl
  refine ⟨⟨⟨?_, ?_, by simp⟩, h⟩, fun _ _ _ _ => Lib.Covers.of_expired (by simp) _⟩
  · show Pool.shape _ = _
    rw [hpool, Router.restorePool_shape]
    exact hboot.shape
  · show Pool.active _ = _
    rw [hpool, Router.restorePool_active]
    exact hboot.active

/-- At boot nothing has been granted, and every runtime is registered. -/
theorem spent_boot {stored : StoredConfig} (hvalid : (validate stored).isOk = true)
    (hkeeps : KeepsKey env P k stored) (rt : Restored) (nowUnix : ℕ) (t : ℤ) :
    Spent P k (boot env stored rt nowUnix t) := by
  have hwf := @Router.wf_boot env stored rt nowUnix t
  -- the only runtime of `P` is the registered one
  have honly : ∀ b, b < (boot env stored rt nowUnix t).router.next →
      Of P (boot env stored rt nowUnix t) b →
      (boot env stored rt nowUnix t).router.runtimes P = some b := by
    intro b hb hof
    obtain ⟨n, hreg⟩ := Router.boot_new (validate_nodup hvalid) hb
    obtain rfl : n = P := (hwf.name n b hreg).symm.trans hof
    exact hreg
  refine ⟨⟨hwf, fun n a hn => Router.boot_registered hn⟩, ?_, ?_, ?_⟩
  · intro x hx
    cases hx
  · intro a ha
    refine ⟨hwf.lt P a ha, hwf.name P a ha, fun b hb hof => ?_⟩
    exact Nat.le_of_eq (Option.some.inj ((honly b hb hof).symm.trans ha))
  · intro a ha
    have hreg := honly a ha.lt ha.of
    have hen : Router.EnabledIn stored P := by
      by_contra hn
      have hnone : (boot env stored rt nowUnix t).router.runtimes P = none :=
        Router.boot_disabled rt nowUnix t hn
      exact absurd (hnone.symm.trans hreg) (by simp)
    obtain ⟨d, hd, hname, hden⟩ := hen
    obtain ⟨a', hreg', hdefn, hpools⟩ :=
      Router.boot_enabled rt nowUnix t (validate_nodup hvalid) hd hden
    rw [hname] at hreg'
    obtain rfl : a = a' := Option.some.inj (hreg.symm.trans hreg')
    have hspecs : (boot env stored rt nowUnix t).specs a = d.laneSpecs env := by
      show Router.specsOf env (Router.boot env stored rt nowUnix t) (fun _ => []) a = _
      rw [Router.specsOf, hdefn, hname]
      exact if_pos hreg
    have hserving : (boot env stored rt nowUnix t).serving a =
        ⟨t, (PoolHandle.boot (Pool.new (d.laneSpecs env) t)).setGen 0
          (Router.restorePool rt d.name nowUnix t (Pool.new (d.laneSpecs env) t)),
          d.laneSpecs env, []⟩ := by
      simp only [serving]
      rw [hspecs]
      simp only [boot, hpools, List.filter_nil, List.map_nil]
    rw [hserving]
    exact accounted_restored (hkeeps.laneSpecs hvalid hd hname) rt d.name nowUnix t

/-- **A whole run.** -/
theorem Spent.run {es : List FleetEvent}
    (hrun : ((fleetSystem env).restrict (ToggleSafe P k)).Run w es w') (h : Spent P k w)
    (hkeeps : ∀ e ∈ es, KeepsKeyEvent env P k e) : Spent P k w' := by
  induction hrun with
  | nil => exact h
  | snoc _ hstep ih =>
      have hpre := ih fun e he => hkeeps e (List.mem_append_left _ he)
      exact hpre.step hstep.1 (hkeeps _ (by simp)) hstep.2

/-- **No double spend, where no runtime is built over a live window.** In every run of rebuilds with
validated stores that keep `k` in `P`'s definition, interleaved with grants, releases, penalties and
everything else, where every step is `ToggleSafe`: a grant of `k` by a runtime of `P` at `t` leaves at
most the budget of `k` of unreleased grants of `k`, by all runtimes `P` ever had, in
`(t - 61 s, t]`. -/
theorem toggle_within_budget (env : Env) (P k : String) (stored₀ : StoredConfig) (rt : Restored)
    (nowUnix : ℕ) (t₀ : ℤ) (es : List FleetEvent) (w w' : Fleet)
    (hvalid : (validate stored₀).isOk = true) (hkeeps₀ : KeepsKey env P k stored₀)
    (hkeeps : ∀ stored t, FleetEvent.rebuild stored t ∈ es → KeepsKey env P k stored)
    (hrun : ((fleetSystem env).restrict (ToggleSafe P k)).Run
      (boot env stored₀ rt nowUnix t₀) es w)
    (a : ℕ) (ha : a < w.router.next) (hof : Of P w a) (t : ℤ) (hle : w.now ≤ t)
    (prefer : Option ℕ) (hsafe : ToggleSafe P k w (.reserve a prefer t)) (lane : ℕ) (stamp : ℤ)
    (sticky : Bool) (hgrant : w.reserve a t prefer = (w', .ready lane k stamp sticky)) :
    (∃ spec ∈ w.specs a, spec.key = k) ∧
    ∀ spec ∈ w.specs a, spec.key = k → (unreleasedBy P k t w').length ≤ spec.rpm := by
  have hspent : Spent P k w := Spent.run hrun (spent_boot hvalid hkeeps₀ rt nowUnix t₀)
    fun e he stored t heq => hkeeps stored t (heq ▸ he)
  have hacc := hspent.accounted a ⟨ha, hof, hsafe hof⟩
  have hres : ((w.serving a).reserve t prefer).2 = .ready lane k stamp sticky :=
    congrArg Prod.snd hgrant
  have hserve : (w.serving a).reserve t prefer =
      (((w.serving a).reserve t prefer).1, .ready lane k stamp sticky) := Prod.ext rfl hres
  obtain ⟨spec, hmem, hkey, hbound⟩ := hacc.granted_bound hle hserve
  refine ⟨⟨spec, hmem, hkey⟩, fun spec' hmem' hkey' => ?_⟩
  obtain rfl : spec' = spec :=
    Serving.spec_unique hacc.keeps.nodup hmem' hmem (hkey'.trans hkey.symm)
  have hlog : stampsBy P k w' = stampsBy P k w ++ [stamp] := by
    have := stampsBy_reserve (P := P) (k := k) w a t prefer
    rw [hgrant] at this
    simpa [hof, stampOf] using this
  refine Nat.le_trans (Lib.length_filter_le_inWindow window t _ (·.2.stamp) w'.live) ?_
  show (inWindow window t (stampsBy P k w')).length ≤ _
  rw [hlog]
  exact hbound

/-- A registry with one provider of one key that may be spent once in a window. -/
def onceAMinute (enabled : Bool) : StoredConfig where
  providers := [{ name := "groq", enabled, baseUrl := "https://api.groq.com",
                  keys := [{ key := "k", rpm := 1 }], models := ["m"] }]

/-- The stores of this registry keep the key. -/
theorem onceAMinute_keeps (enabled : Bool) :
    KeepsKey (fun _ => none) "groq" "k" (onceAMinute enabled) := by
  refine ⟨_, List.mem_singleton.mpr rfl, rfl, ?_⟩
  cases enabled <;> decide +kernel

/-- A grant of `k` at `a`, and how many unreleased grants of `k` by `P` it leaves in the window. -/
def grantLeaves (P k : String) (a : ℕ) (t : ℤ) (w : Fleet) : Option ℕ :=
  match w.reserve a t none with
  | (w', .ready _ key _ _) => if key = k then some (unreleasedBy P k t w').length else none
  | _ => none

/-- How the two examples are evaluated. -/
theorem grant_of_grantLeaves {t : ℤ} {n : ℕ} (h : grantLeaves P k a t w = some n) :
    ∃ w' lane stamp sticky, w.reserve a t none = (w', .ready lane k stamp sticky) ∧
      (unreleasedBy P k t w').length = n := by
  unfold grantLeaves at h
  split at h
  · rename_i w' lane key stamp sticky hgrant
    simp only [Option.ite_none_right_eq_some, Option.some.injEq] at h
    obtain ⟨rfl, hn⟩ := h
    exact ⟨w', lane, stamp, sticky, hgrant, hn⟩
  · cases h

/-- **A toggle inside the window spends the key twice.** Grant, disable, enable, grant: two unreleased
grants of a key with a budget of one. -/
theorem toggle_spends_twice :
    ∃ w w' : Fleet, ∃ a lane stamp sticky,
      (fleetSystem fun _ => none).Run (boot (fun _ => none) (onceAMinute true) {} 0 0)
        [.reserve 0 none 0, .rebuild (onceAMinute false) 1, .rebuild (onceAMinute true) 2] w ∧
      w.router.runtimes "groq" = some a ∧
      w.reserve a 3 none = (w', .ready lane "k" stamp sticky) ∧
      (∃ spec ∈ w.specs a, spec.key = "k" ∧ spec.rpm = 1) ∧
      (unreleasedBy "groq" "k" 3 w').length = 2 := by
  have hrun : (System.exec (step fun _ => none) (boot (fun _ => none) (onceAMinute true) {} 0 0)
      [.reserve 0 none 0, .rebuild (onceAMinute false) 1, .rebuild (onceAMinute true) 2]).any
      (fun w => w.router.runtimes "groq" == some 1 && grantLeaves "groq" "k" 1 3 w == some 2 &&
        (w.specs 1).any fun spec => spec.key == "k" && spec.rpm == 1) = true := by
    decide +kernel
  obtain ⟨w, hrun, hw⟩ := System.run_of_exec_any hrun
  simp only [Bool.and_eq_true, beq_iff_eq, List.any_eq_true] at hw
  obtain ⟨⟨hreg, hleaves⟩, hspec⟩ := hw
  obtain ⟨w', lane, stamp, sticky, hgrant, hlen⟩ := grant_of_grantLeaves hleaves
  exact ⟨w, w', 1, lane, stamp, sticky, hrun, hreg, hgrant, hspec, hlen⟩

/-- The same toggle, with the enable a full window after the grant. -/
theorem toggle_within_budget_after_window :
    ∃ w w' : Fleet, ∃ lane stamp sticky,
      ((fleetSystem fun _ => none).restrict (ToggleSafe "groq" "k")).Run
        (boot (fun _ => none) (onceAMinute true) {} 0 0)
        [.reserve 0 none 0, .rebuild (onceAMinute false) 1,
         .rebuild (onceAMinute true) (secs 61)] w ∧
      w.reserve 1 (secs 61) none = (w', .ready lane "k" stamp sticky) ∧
      ∀ spec ∈ w.specs 1, spec.key = "k" →
        (unreleasedBy "groq" "k" (secs 61) w').length ≤ spec.rpm := by
  have hexec : (System.exec (System.guardStep (ToggleSafe "groq" "k") (step fun _ => none))
      (boot (fun _ => none) (onceAMinute true) {} 0 0)
      [.reserve 0 none 0, .rebuild (onceAMinute false) 1,
       .rebuild (onceAMinute true) (secs 61)]).any
      (fun w => grantLeaves "groq" "k" 1 (secs 61) w == some 1 && decide (1 < w.router.next) &&
        decide (Of "groq" w 1) && decide (w.now ≤ secs 61) &&
        decide (ToggleSafe "groq" "k" w (.reserve 1 none (secs 61)))) = true := by
    decide +kernel
  obtain ⟨w, hrun, hw⟩ := System.run_of_exec_any hexec
  simp only [Bool.and_eq_true, beq_iff_eq, decide_eq_true_eq] at hw
  obtain ⟨⟨⟨⟨hleaves, ha⟩, hof⟩, hle⟩, hsafe⟩ := hw
  obtain ⟨w', lane, stamp, sticky, hgrant, -⟩ := grant_of_grantLeaves hleaves
  have hrun' := System.Run.restrict_of_guardStep hrun
  refine ⟨w, w', lane, stamp, sticky, hrun', hgrant, ?_⟩
  refine (toggle_within_budget (fun _ => none) "groq" "k" (onceAMinute true) {} 0 0 _ w w'
    (by decide +kernel) (onceAMinute_keeps true) ?_ hrun' 1 ha hof (secs 61) hle none hsafe lane
    stamp sticky hgrant).2
  intro stored t hmem
  simp only [List.mem_cons, reduceCtorEq, FleetEvent.rebuild.injEq, List.not_mem_nil, or_false,
    false_or] at hmem
  obtain ⟨rfl, -⟩ | ⟨rfl, -⟩ := hmem
  · exact onceAMinute_keeps false
  · exact onceAMinute_keeps true

end Fleet

end Flock
