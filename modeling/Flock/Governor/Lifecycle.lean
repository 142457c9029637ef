/-
# Flock.Governor.Lifecycle — a model that is never pinned: how its cap moves.

The cap of a model that has no operator override is set by an exhaustion, from the permits that are held at that
moment; it grows by one in a stable minute; and it is dissolved after half an hour without an exhaustion.  All of
this is evaluated at an admission, so the cap stands still while nobody asks.

`Tight` bounds the permits that are left over from a time without a cap (or with a larger one); `Paced` is what
the two stamps of a model say of its cap.  Permits and caps are `usize` in the source: `unpinnedSystem` keeps the
runs in which they are.

Everything rests on `unpinned_cases`, which says once what any event does to the entry of an unpinned model.  After
that the ledger does not appear any more: the lemmas are about the cap, the two stamps and the clock.
-/
import Mathlib.Data.List.Induction
import Flock.Governor

namespace Flock

open Lib (age System)

namespace ModelState

/-- The state without its count. -/
def pace (s : ModelState) : ModelState := { s with inflight := 0 }

/-- The cap does not depend on the count. -/
theorem limit_eq {s s' : ModelState} (h : s.pace = s'.pace) : s.limit = s'.limit :=
  show s.pace.limit = s'.pace.limit by rw [h]

theorem blockedUntil_eq {s s' : ModelState} (h : s.pace = s'.pace) : s.blockedUntil = s'.blockedUntil :=
  show s.pace.blockedUntil = s'.pace.blockedUntil by rw [h]

/-- Nor the stamp of the last exhaustion. -/
theorem lastExhausted_eq {s s' : ModelState} (h : s.pace = s'.pace) : s.lastExhausted = s'.lastExhausted :=
  show s.pace.lastExhausted = s'.pace.lastExhausted by rw [h]

/-- Nor the stamp of the last change of the cap. -/
theorem lastAdjusted_eq {s s' : ModelState} (h : s.pace = s'.pace) : s.lastAdjusted = s'.lastAdjusted :=
  show s.pace.lastAdjusted = s'.pace.lastAdjusted by rw [h]

end ModelState

namespace LedgerEvent

/-- The operator override that the call brings. -/
def overrideLimit : LedgerEvent → Option ℕ
  | .admitAt _ o _ => o
  | .drop _ => none
  | .noteExhausted _ o _ => o

/-- The clock reading of a call; a drop reads none. -/
def time : LedgerEvent → Option ℤ
  | .admitAt _ _ now => some now
  | .drop _ => none
  | .noteExhausted _ _ now => some now

/-- When the event is an exhaustion of a model: its time. -/
def exhausts (m : String) : LedgerEvent → Option ℤ
  | .noteExhausted model _ now => if model = m then some now else none
  | _ => none

/-- An exhaustion is one of its own model. -/
@[simp] theorem exhausts_self (m : String) (o : Option ℕ) (now : ℤ) :
    (LedgerEvent.noteExhausted m o now).exhausts m = some now := if_pos rfl

end LedgerEvent

/-- A step at which `m` has no override, and after which its permits fit a `usize`. -/
def Ledger.unpinnedStep (m : String) (l : Ledger) (e : LedgerEvent) : Option Ledger :=
  if e.model = m → e.overrideLimit = none then
    (l.step e).filter fun l' => decide (l'.live.count m < 2 ^ 64)
  else none

/-- Every run of a governor in which `m` is never pinned, from any snapshots. -/
def unpinnedSystem (m : String) : System Ledger LedgerEvent :=
  .ofStep (fun l => ∃ rows nowUnix now, (∀ row ∈ rows, row.2.workerLimit < 2 ^ 64) ∧
    l = Ledger.boot rows nowUnix now) (Ledger.unpinnedStep m)

/-- The last exhaustion of `m` in `es`, or `t₀`. -/
def lastExhaustion (m : String) (t₀ : ℤ) (es : List LedgerEvent) : ℤ :=
  (es.filterMap (LedgerEvent.exhausts m)).getLast?.getD t₀

/-- The last exhaustion, one event later. -/
theorem lastExhaustion_concat (m : String) (t₀ : ℤ) (es : List LedgerEvent) (e : LedgerEvent) :
    lastExhaustion m t₀ (es ++ [e]) = (e.exhausts m).getD (lastExhaustion m t₀ es) := by
  unfold lastExhaustion
  cases h : e.exhausts m <;> simp [List.filterMap_append, h]

namespace Governor

variable {s : ModelState} {t : ℤ}

/-- **What the lifecycle does to an unpinned model**: nothing, or it dissolves the cap after half an hour, or it
lets it grow after a minute. -/
theorem adapt_cases (s : ModelState) (t : ℤ) :
    adapt s none t = s ∨
    (0 < s.limit ∧ (∃ x, s.lastExhausted = some x ∧ dissolveAfter ≤ age t x) ∧
      adapt s none t = { s with limit := 0, lastAdjusted := some t }) ∨
    (0 < s.limit ∧ (∀ x, s.lastExhausted = some x → age t x < dissolveAfter) ∧
      (∃ a, s.lastAdjusted = some a ∧ growInterval ≤ age t a) ∧
      adapt s none t = { s with limit := (s.limit + 1) % 2 ^ 64, lastAdjusted := some t }) := by
  unfold adapt
  split
  · rename_i hgoverned
    split
    · rename_i hold
      obtain ⟨x, hx, hage⟩ := (Option.any_eq_true _ _).mp hold
      exact .inr (.inl ⟨hgoverned.2, ⟨x, hx, of_decide_eq_true hage⟩, rfl⟩)
    · rename_i hrecent
      split
      · rename_i hstable
        obtain ⟨a, ha, hage⟩ := (Option.any_eq_true _ _).mp hstable
        refine .inr (.inr ⟨hgoverned.2, ?_, ⟨a, ha, of_decide_eq_true hage⟩, rfl⟩)
        intro x hx
        rw [hx] at hrecent
        simpa using hrecent
      · exact .inl rfl
  · exact .inl rfl

/-- An admission at an unpinned model writes what the lifecycle says, and under a cap it finds room. -/
theorem admitAt_unpinned (g : Governor) (m : String) (t : ℤ) :
    ((g.admitAt m none t).2.entry m).pace = (adapt (g.entry m) none t).pace ∧
    ((g.admitAt m none t).1 = true → ∀ b, (g.entry m).blockedUntil = some b → b ≤ t) := by
  have hblocked : (adapt (g.entry m) none t).blockedUntil = (g.entry m).blockedUntil := by
    rcases adapt_cases (g.entry m) t with h | ⟨-, -, h⟩ | ⟨-, -, -, h⟩ <;> rw [h]
  unfold admitAt
  dsimp only
  split
  · exact ⟨by rw [entry_put_self], fun h => by cases h⟩
  · rename_i hopen
    have hpast : ∀ b, (g.entry m).blockedUntil = some b → b ≤ t := by
      intro b hb
      rw [hblocked, hb] at hopen
      simpa using hopen
    split
    · exact ⟨by rw [entry_put_self], fun _ => hpast⟩
    · refine ⟨?_, fun _ => hpast⟩
      rw [entry_put_self]
      rfl

end Governor

namespace Ledger

variable {l l' : Ledger} {e : LedgerEvent} {es : List LedgerEvent} {m : String} {t : ℤ}

/-- The entry of a model. -/
def entry (l : Ledger) (m : String) : ModelState := l.gov.entry m

/-- What an admission at an unpinned model does: the lifecycle, and a permit where there is room. -/
theorem step_admitAt (hcounted : l.Counted) (h : l.step (.admitAt m none t) = some l') :
    (l'.entry m).pace = (Governor.adapt (l.entry m) none t).pace ∧
    (l'.live.count m ≤ l.live.count m ∨
      (0 < (l'.entry m).limit → l'.live.count m ≤ (l'.entry m).limit)) := by
  have hpace := (l.gov.admitAt_unpinned m t).1
  obtain ⟨s, hput, hcount, hroom⟩ := l.gov.admitAt_spec m none t
  simp only [step] at h
  split at h
  · rename_i gov hadmitted
    cases h
    rw [hadmitted] at hput hcount hroom hpace
    refine ⟨hpace, .inr fun hpos => ?_⟩
    have hentry : entry ⟨gov, m :: l.live⟩ m = s := by
      show gov.entry m = s
      rw [show gov = l.gov.put m s from hput, Governor.entry_put_self]
    rw [hentry] at hpos ⊢
    have hlive : (m :: l.live).count m = s.inflight := by
      rw [hcount, hcounted m]
      simp
    rw [hlive]
    exact hroom rfl hpos
  · rename_i gov hrefused
    cases h
    rw [hrefused] at hpace
    exact ⟨hpace, .inl (Nat.le_refl _)⟩

/-- The drop of a permit leaves the cap and the stamps. -/
theorem step_drop (hcounted : l.Counted) (h : l.step (.drop m) = some l') :
    (l'.entry m).pace = (l.entry m).pace ∧ l'.live.count m ≤ l.live.count m := by
  simp only [step, Option.ite_none_right_eq_some] at h
  obtain ⟨hlive, h⟩ := h
  cases h
  obtain ⟨s, hs, -⟩ := hcounted.held hlive
  refine ⟨?_, List.Sublist.count_le m List.erase_sublist⟩
  unfold entry
  rw [Governor.release_spec hs, Governor.entry_put_self]
  unfold Governor.entry
  rw [hs]
  rfl

/-- **What an exhaustion sets.** -/
theorem pace_noteExhaustedAt (g : Governor) (m : String) (t : ℤ) :
    ((g.noteExhaustedAt m none t).entry m).pace =
      ⟨max ((g.entry m).inflight / 2) 1, 0, some (t + exhaustBackoff), some t, some t⟩ := by
  simp [Governor.noteExhaustedAt, ModelState.pace]

/-- **Every event of an unpinned model, said once.**  It is another model's or a drop, and the cap and the stamps
stay; or an admission, with the lifecycle; or an exhaustion. -/
theorem unpinned_cases (hcounted : l.Counted) (hstep : l.step e = some l')
    (hfree : e.model = m → e.overrideLimit = none) :
    (e.exhausts m = none ∧ (l'.entry m).pace = (l.entry m).pace ∧ l'.live.count m ≤ l.live.count m) ∨
    (∃ t, e = .admitAt m none t ∧ (l'.entry m).pace = (Governor.adapt (l.entry m) none t).pace ∧
      (l'.live.count m ≤ l.live.count m ∨
        (0 < (l'.entry m).limit → l'.live.count m ≤ (l'.entry m).limit))) ∨
    (∃ t, e = .noteExhausted m none t ∧ l'.live = l.live ∧ (l'.entry m).pace =
      ⟨max (l.live.count m / 2) 1, 0, some (t + exhaustBackoff), some t, some t⟩) := by
  by_cases hm : e.model = m
  · have hnone := hfree hm
    cases e with
    | admitAt model o now =>
        obtain rfl : model = m := hm
        obtain rfl : o = none := hnone
        exact .inr (.inl ⟨now, rfl, step_admitAt hcounted hstep⟩)
    | drop model =>
        obtain rfl : model = m := hm
        exact .inl ⟨rfl, step_drop hcounted hstep⟩
    | noteExhausted model o now =>
        obtain rfl : model = m := hm
        obtain rfl : o = none := hnone
        cases hstep
        refine .inr (.inr ⟨now, rfl, rfl, ?_⟩)
        rw [← hcounted model]
        exact pace_noteExhaustedAt l.gov model now
  · obtain ⟨s, hput, -, hother⟩ := step_cases hcounted hstep
    refine .inl ⟨?_, ?_, le_of_eq (hother m (Ne.symm hm))⟩
    · cases e with
      | noteExhausted model o now => exact if_neg hm
      | _ => rfl
    · unfold entry
      rw [hput, Governor.entry_put_of_ne (Ne.symm hm)]

/-! ## The permits under a cap

An exhaustion sets the cap to half of the permits held then, and to one at least.  After that the cap only goes up or
away, and a permit is added only below it; so what exceeds it are permits of before, and they are given back. -/

/-- **`Tight m l`** — the permits that are held under a cap are at most twice the cap, and one. -/
structure Tight (m : String) (l : Ledger) : Prop where
  counted : l.Counted
  word : l.live.count m < 2 ^ 64
  capWord : (l.entry m).limit < 2 ^ 64
  bound : 0 < (l.entry m).limit → l.live.count m ≤ 2 * (l.entry m).limit + 1

/-- An unpinned admission leaves the cap, takes it away or adds one to it. -/
theorem limit_adapt (s : ModelState) (t : ℤ) (hword : s.limit < 2 ^ 64) :
    (Governor.adapt s none t).limit < 2 ^ 64 ∧
      ((Governor.adapt s none t).limit = 0 ∨ 0 < s.limit ∧ s.limit ≤ (Governor.adapt s none t).limit) := by
  rcases Governor.adapt_cases s t with h | ⟨hpos, -, h⟩ | ⟨hpos, -, -, h⟩ <;> rw [h]
  · omega
  · exact ⟨Nat.two_pow_pos 64, .inl rfl⟩
  · show (s.limit + 1) % 2 ^ 64 < 2 ^ 64 ∧ ((s.limit + 1) % 2 ^ 64 = 0 ∨ _ ∧ s.limit ≤ (s.limit + 1) % 2 ^ 64)
    omega

/-- The step keeps to the ledger's, and to the two conditions. -/
theorem unpinnedStep_eq_some :
    l.unpinnedStep m e = some l' ↔
      l.step e = some l' ∧ (e.model = m → e.overrideLimit = none) ∧ l'.live.count m < 2 ^ 64 := by
  simp only [unpinnedStep, Option.ite_none_right_eq_some, Option.filter_eq_some_iff, decide_eq_true_eq]
  tauto

theorem Tight.step (h : Tight m l) (hstep : l.unpinnedStep m e = some l') : Tight m l' := by
  obtain ⟨hstep, hfree, hlive⟩ := unpinnedStep_eq_some.mp hstep
  obtain ⟨hcounted, hword, hcap, hbound⟩ := h
  suffices hcap' : (l'.entry m).limit < 2 ^ 64 ∧
      (0 < (l'.entry m).limit → l'.live.count m ≤ 2 * (l'.entry m).limit + 1) from
    ⟨step_counted hcounted hstep, hlive, hcap'.1, hcap'.2⟩
  rcases unpinned_cases hcounted hstep hfree with ⟨-, hpace, hfewer⟩ | ⟨t, rfl, hpace, hroom⟩ |
    ⟨t, rfl, hsame, hpace⟩
  · have hlimit := ModelState.limit_eq hpace
    omega
  · have hlimit := ModelState.limit_eq hpace
    have hadapt := limit_adapt (l.entry m) t hcap
    rw [← hlimit] at hadapt
    omega
  · -- the cap is set from the permits themselves
    have hlimit : (l'.entry m).limit = max (l.live.count m / 2) 1 := congrArg ModelState.limit hpace
    rw [hsame] at hlive ⊢
    omega

/-- A restored cap is that of its snapshot. -/
theorem limit_restore (g : Governor) (model : String) (snap : GovernorSnapshot) (nowUnix : ℕ) (now : ℤ) :
    ((g.restore model snap nowUnix now).entry m).limit = (g.entry m).limit ∨
      ((g.restore model snap nowUnix now).entry m).limit = snap.workerLimit := by
  unfold Governor.restore
  split
  · exact .inl rfl
  · by_cases hm : m = model
    · rw [hm, Governor.entry_put_self]
      exact .inr rfl
    · rw [Governor.entry_put_of_ne hm]
      exact .inl rfl

/-- A process start: the caps are those of the snapshots, and nothing is held. -/
theorem tight_boot {rows : List (String × GovernorSnapshot)} (h : ∀ row ∈ rows, row.2.workerLimit < 2 ^ 64)
    (m : String) (nowUnix : ℕ) (now : ℤ) : Tight m (boot rows nowUnix now) where
  counted := boot_counted rows nowUnix now
  word := Nat.two_pow_pos 64
  capWord := by
    suffices hfold : ∀ (rows : List (String × GovernorSnapshot)) (g : Governor), (g.entry m).limit < 2 ^ 64 →
        (∀ row ∈ rows, row.2.workerLimit < 2 ^ 64) →
        ((rows.foldl (fun g row => g.restore row.1 row.2 nowUnix now) g).entry m).limit < 2 ^ 64 from
      hfold rows .empty (Nat.two_pow_pos 64) h
    intro rows
    induction rows with
    | nil => exact fun g hg _ => hg
    | cons row rest ih =>
        intro g hg hrows
        rw [List.foldl_cons]
        apply ih
        · rcases limit_restore (m := m) g row.1 row.2 nowUnix now with hsame | hsnap
          · rw [hsame]
            exact hg
          · rw [hsnap]
            exact hrows row List.mem_cons_self
        · exact fun row' hrow' => hrows row' (List.mem_cons_of_mem row hrow')
  bound _ := Nat.zero_le _

/-- So it holds in every reachable state. -/
theorem tight_of_reachable (h : (unpinnedSystem m).Reachable l) : Tight m l := by
  refine System.Reachable.invariant (I := Tight m) ?_ ?_ h
  · rintro l ⟨rows, nowUnix, now, hrows, rfl⟩
    exact tight_boot hrows m nowUnix now
  · intro l e l' hbefore hstep
    exact hbefore.step hstep

/-- **Exhaustion only tightens.**  In every run of a model that is never pinned: under a positive cap `L` at most
`2 L + 1` permits are held; so an exhaustion under a positive cap sets none above it. -/
theorem exhaustion_only_tightens (h : (unpinnedSystem m).Reachable l) :
    (0 < (l.entry m).limit → l.live.count m ≤ 2 * (l.entry m).limit + 1) ∧
    ∀ now l', ledgerSystem.step l (.noteExhausted m none now) l' → 0 < (l.entry m).limit →
      (l'.entry m).limit ≤ (l.entry m).limit := by
  have htight := tight_of_reachable h
  refine ⟨htight.bound, fun now l' hstep hpos => ?_⟩
  have hbound := htight.bound hpos
  have hpace := pace_noteExhaustedAt l.gov m now
  cases hstep
  have hlimit : ((l.gov.noteExhaustedAt m none now).entry m).limit = max ((l.gov.entry m).inflight / 2) 1 :=
    congrArg ModelState.limit hpace
  have hcount := htight.counted m
  show ((l.gov.noteExhaustedAt m none now).entry m).limit ≤ _
  omega

/-- Three permits are held when the model is exhausted: the cap is one, three are twice one and one, and the next
exhaustion leaves it at one. -/
theorem exhaustion_only_tightens_three :
    ∃ l, (unpinnedSystem "m").Reachable l ∧ l.live.count "m" ≤ 2 * (l.entry "m").limit + 1 ∧
      ∃ l', ledgerSystem.step l (.noteExhausted "m" none 1) l' ∧ (l'.entry "m").limit ≤ 1 := by
  have hexec : (System.exec (unpinnedStep "m") (boot [] 0 0)
      [.admitAt "m" none 0, .admitAt "m" none 0, .admitAt "m" none 0, .noteExhausted "m" none 0]).any (fun l =>
        decide ((l.entry "m").limit = 1)) = true := by
    decide +kernel
  have hboot : (unpinnedSystem "m").init (boot [] 0 0) :=
    ⟨[], 0, 0, fun _ h => absurd h List.not_mem_nil, rfl⟩
  obtain ⟨l, hreach, hcap⟩ := System.reachable_of_exec hboot hexec
  have hcap := of_decide_eq_true hcap
  obtain ⟨hbound, htightens⟩ := exhaustion_only_tightens (l := l) hreach
  have hpos : 0 < (l.entry "m").limit := by omega
  refine ⟨l, hreach, hbound hpos, _, rfl, ?_⟩
  rw [← hcap]
  exact htightens 1 _ rfl hpos

/-! ## The stamps of a model

An exhaustion writes both stamps.  From then on the cap is at most `L` plus one for every whole minute, and the model
is drained for two seconds; `Paced` carries the two along, whatever else happens. -/

/-- The last clock reading of a run that begins at `t₀`. -/
def lastTime (t₀ : ℤ) (es : List LedgerEvent) : ℤ := (es.filterMap LedgerEvent.time).getLast?.getD t₀

theorem lastTime_concat (t₀ : ℤ) (es : List LedgerEvent) (e : LedgerEvent) :
    lastTime t₀ (es ++ [e]) = e.time.getD (lastTime t₀ es) := by
  unfold lastTime
  cases h : e.time <;> simp [List.filterMap_append, h]

/-- The last reading is that of an event, or the one the run began at. -/
theorem lastTime_mem (t₀ : ℤ) (es : List LedgerEvent) : lastTime t₀ es ∈ t₀ :: es.filterMap LedgerEvent.time := by
  unfold lastTime
  cases h : (es.filterMap LedgerEvent.time).getLast? with
  | none => exact List.mem_cons_self
  | some t => exact List.mem_cons_of_mem t₀ (List.mem_of_getLast? h)

/-- **`Paced m x L now l`** — what the stamps say of the cap: the model was last exhausted at `x`, which set the
cap `L`, and the cap has grown by at most one a minute since. -/
structure Paced (m : String) (x : ℤ) (L : ℕ) (now : ℤ) (l : Ledger) : Prop where
  exhausted : (l.entry m).lastExhausted = some x
  blocked : (l.entry m).blockedUntil = some (x + exhaustBackoff)
  adjusted : ∃ a, (l.entry m).lastAdjusted = some a ∧ x ≤ a ∧ a ≤ now ∧
    (0 < (l.entry m).limit → L ≤ (l.entry m).limit ∧ ((l.entry m).limit : ℤ) ≤ L + (a - x) / growInterval)
  small : L ≤ 2 ^ 63

/-- Only the cap and the stamps matter, and the clock goes on. -/
theorem Paced.congr {x now now' : ℤ} {L : ℕ} (h : Paced m x L now l) (hpace : (l'.entry m).pace = (l.entry m).pace)
    (hle : now ≤ now') : Paced m x L now' l' := by
  obtain ⟨hexhausted, hblocked, ⟨a, ha, hxa, hnow, hcap⟩, hsmall⟩ := h
  refine ⟨(ModelState.lastExhausted_eq hpace).trans hexhausted, (ModelState.blockedUntil_eq hpace).trans hblocked,
    ⟨a, (ModelState.lastAdjusted_eq hpace).trans ha, hxa, le_trans hnow hle, ?_⟩, hsmall⟩
  rw [ModelState.limit_eq hpace]
  exact hcap

/-- An exhaustion begins anew. -/
theorem paced_exhausted (htight : Tight m l)
    (hpace : (l'.entry m).pace = ⟨max (l.live.count m / 2) 1, 0, some (t + exhaustBackoff), some t, some t⟩) :
    Paced m t (l'.entry m).limit t l' where
  exhausted := congrArg ModelState.lastExhausted hpace
  blocked := congrArg ModelState.blockedUntil hpace
  adjusted := by
    refine ⟨t, congrArg ModelState.lastAdjusted hpace, le_refl t, le_refl t, fun _ => ⟨Nat.le_refl _, ?_⟩⟩
    simp
  small := by
    have hlimit : (l'.entry m).limit = max (l.live.count m / 2) 1 := congrArg ModelState.limit hpace
    have hword := htight.word
    omega

/-- **What the lifecycle does to a paced model.**  It dissolves the cap half an hour after the exhaustion; before
that it may add one, a minute after it last did; and the cap is far from the end of its word. -/
theorem Paced.adapt {x now : ℤ} {L : ℕ} (h : Paced m x L now l) (hle : now ≤ t)
    (hpace : (l'.entry m).pace = (Governor.adapt (l.entry m) none t).pace) :
    Paced m x L t l' ∧
      ((l'.entry m).limit = 0 → 0 < (l.entry m).limit → x + dissolveAfter ≤ t) := by
  obtain ⟨hexhausted, hblocked, ⟨a, ha, hxa, hnow, hcap⟩, hsmall⟩ := h
  rcases Governor.adapt_cases (l.entry m) t with hsame | ⟨hpos, ⟨x', hx', hold⟩, hdissolved⟩ |
    ⟨hpos, hrecent, ⟨a', ha', hstable⟩, hgrown⟩
  · rw [hsame] at hpace
    have hbefore : Paced m x L now l := ⟨hexhausted, hblocked, ⟨a, ha, hxa, hnow, hcap⟩, hsmall⟩
    refine ⟨hbefore.congr hpace hle, fun hzero hpos => ?_⟩
    have hlimit := ModelState.limit_eq hpace
    omega
  · obtain rfl : x = x' := Option.some.inj (hexhausted.symm.trans hx')
    rw [hdissolved] at hpace
    have hzero : (l'.entry m).limit = 0 := congrArg ModelState.limit hpace
    refine ⟨⟨?_, ?_, ⟨t, ?_, le_trans hxa (le_trans hnow hle), le_refl t, ?_⟩, hsmall⟩, fun _ _ => ?_⟩
    · exact (congrArg ModelState.lastExhausted hpace).trans hexhausted
    · exact (congrArg ModelState.blockedUntil hpace).trans hblocked
    · exact congrArg ModelState.lastAdjusted hpace
    · intro hpos'
      omega
    · unfold age at hold
      omega
  · obtain rfl : a = a' := Option.some.inj (ha.symm.trans ha')
    have hyoung := hrecent x hexhausted
    obtain ⟨hlow, hhigh⟩ := hcap hpos
    rw [hgrown] at hpace
    have hlimit : (l'.entry m).limit = ((l.entry m).limit + 1) % 2 ^ 64 := congrArg ModelState.limit hpace
    simp only [age, growInterval, dissolveAfter, secs] at hyoung hstable hhigh ⊢
    -- fewer than thirty minutes have passed, so the cap is below `2 ^ 63 + 30`
    have hone : (l'.entry m).limit = (l.entry m).limit + 1 := by omega
    refine ⟨⟨?_, ?_, ⟨t, ?_, le_trans hxa (le_trans hnow hle), le_refl t, fun _ => ?_⟩, hsmall⟩, fun hzero _ => ?_⟩
    · exact (congrArg ModelState.lastExhausted hpace).trans hexhausted
    · exact (congrArg ModelState.blockedUntil hpace).trans hblocked
    · exact congrArg ModelState.lastAdjusted hpace
    · simp only [growInterval, secs]
      omega
    · omega

/-- **One step.**  A step is a new exhaustion, or the cap is paced as before; and it dissolves the cap only at an
admission, half an hour after the last exhaustion. -/
theorem Paced.step {x now : ℤ} {L : ℕ} (h : Paced m x L now l) (htight : Tight m l)
    (hstep : l.unpinnedStep m e = some l') (hle : ∀ t ∈ e.time, now ≤ t) :
    (∃ L', Paced m ((e.exhausts m).getD x) L' (e.time.getD now) l' ∧ (e.exhausts m = none → L' = L)) ∧
      (0 < (l.entry m).limit → (l'.entry m).limit = 0 →
        ∃ t, e = .admitAt m none t ∧ x + dissolveAfter ≤ t) := by
  obtain ⟨hstep, hfree, -⟩ := unpinnedStep_eq_some.mp hstep
  rcases unpinned_cases htight.counted hstep hfree with ⟨hnone, hpace, -⟩ | ⟨t, rfl, hpace, -⟩ |
    ⟨t, rfl, -, hpace⟩
  · have hclock : now ≤ e.time.getD now := by
      cases htime : e.time with
      | none => exact le_refl now
      | some t => exact hle t htime
    rw [hnone]
    refine ⟨⟨L, h.congr hpace hclock, fun _ => rfl⟩, fun hpos hzero => ?_⟩
    have hlimit := ModelState.limit_eq hpace
    omega
  · obtain ⟨hafter, hdissolves⟩ := h.adapt (hle t rfl) hpace
    exact ⟨⟨L, hafter, fun _ => rfl⟩, fun hpos hzero => ⟨t, rfl, hdissolves hzero hpos⟩⟩
  · rw [LedgerEvent.exhausts_self]
    refine ⟨⟨_, paced_exhausted htight hpace, fun hnone => by cases hnone⟩, fun _ hzero => ?_⟩
    have hlimit : (l'.entry m).limit = max (l.live.count m / 2) 1 := congrArg ModelState.limit hpace
    omega

/-- **Every run after an exhaustion.** -/
theorem paced_run {l₀ : Ledger} {t₀ : ℤ} (hpaced : Paced m t₀ (l₀.entry m).limit t₀ l₀)
    (hreach : (unpinnedSystem m).Reachable l₀) (hrun : (unpinnedSystem m).Run l₀ es l')
    (hclock : (t₀ :: es.filterMap LedgerEvent.time).Pairwise (· ≤ ·)) :
    ∃ L, Paced m (lastExhaustion m t₀ es) L (lastTime t₀ es) l' ∧
      ((∀ e ∈ es, e.exhausts m = none) → L = (l₀.entry m).limit) := by
  induction hrun with
  | nil => exact ⟨_, hpaced, fun _ => rfl⟩
  | @snoc l' l'' es e hrun hstep ih =>
      rw [List.filterMap_append, ← List.cons_append, List.pairwise_append] at hclock
      obtain ⟨hbefore, -, hlast⟩ := hclock
      obtain ⟨L, hL, hfirst⟩ := ih hbefore
      have hle : ∀ t ∈ e.time, lastTime t₀ es ≤ t := by
        intro t ht
        apply hlast _ (lastTime_mem t₀ es)
        exact List.mem_filterMap.mpr ⟨e, List.mem_singleton_self e, ht⟩
      obtain ⟨⟨L', hL', hkeep⟩, -⟩ := hL.step (tight_of_reachable (hreach.run hrun)) hstep hle
      refine ⟨L', ?_, fun hquiet => ?_⟩
      · rw [lastExhaustion_concat, lastTime_concat]
        exact hL'
      · rw [hkeep (hquiet e (by simp)), hfirst fun e' he' => hquiet e' (List.mem_append_left _ he')]

/-- An exhaustion is never earlier than the one before. -/
theorem le_lastExhaustion {t₀ : ℤ} (hclock : (t₀ :: es.filterMap LedgerEvent.time).Pairwise (· ≤ ·)) :
    t₀ ≤ lastExhaustion m t₀ es := by
  unfold lastExhaustion
  cases hlast : (es.filterMap (LedgerEvent.exhausts m)).getLast? with
  | none => exact le_refl t₀
  | some t =>
      obtain ⟨e, he, ht⟩ := List.mem_filterMap.mp (List.mem_of_getLast? hlast)
      have htime : e.time = some t := by
        cases e with
        | noteExhausted model o now =>
            simp only [LedgerEvent.exhausts, Option.ite_none_right_eq_some] at ht
            exact ht.2
        | _ => cases ht
      exact (List.pairwise_cons.mp hclock).1 t (List.mem_filterMap.mpr ⟨e, he, htime⟩)

/-- Within the drain gap nothing is admitted. -/
theorem Paced.refuses {x now : ℤ} {L : ℕ} (h : Paced m x L now l) (ht : t < x + exhaustBackoff) :
    (l.gov.admitAt m none t).1 = false := by
  by_contra hadmitted
  have hpast := (l.gov.admitAt_unpinned m t).2 (by simpa using hadmitted) _ h.blocked
  omega

/-- **The lifecycle of a governor.**  After an exhaustion at `t₀`, in every run of a model that is never pinned,
with a clock that does not go back: nothing is admitted in the two seconds after `t₀`; up to the next exhaustion
or dissolution the cap is at least what the exhaustion set and at most one more for every minute since, and no step
lowers it; and the cap is given up only at an admission, half an hour or more after the last exhaustion. -/
theorem governor_lifecycle {l l₀ l' : Ledger} {t₀ : ℤ} {es : List LedgerEvent}
    (hreach : (unpinnedSystem m).Reachable l) (hexhausted : (unpinnedSystem m).step l (.noteExhausted m none t₀) l₀)
    (hrun : (unpinnedSystem m).Run l₀ es l') (hclock : (t₀ :: es.filterMap LedgerEvent.time).Pairwise (· ≤ ·)) :
    (∀ t, t < t₀ + exhaustBackoff → (l'.gov.admitAt m none t).1 = false) ∧
    ((∀ e ∈ es, e.exhausts m = none) → 0 < (l'.entry m).limit → ∀ t, lastTime t₀ es ≤ t →
      (l₀.entry m).limit ≤ (l'.entry m).limit ∧
      ((l'.entry m).limit : ℤ) ≤ (l₀.entry m).limit + (t - t₀) / growInterval) ∧
    (∀ e l'', (unpinnedSystem m).step l' e l'' → e.exhausts m = none → 0 < (l''.entry m).limit →
      (l'.entry m).limit ≤ (l''.entry m).limit) ∧
    (∀ e l'', (unpinnedSystem m).step l' e l'' → (∀ t ∈ e.time, lastTime t₀ es ≤ t) →
      0 < (l'.entry m).limit → (l''.entry m).limit = 0 →
      ∃ t, e = .admitAt m none t ∧ lastExhaustion m t₀ es + dissolveAfter ≤ t) := by
  have h₀ := tight_of_reachable hreach
  have hreach₀ := hreach.run (System.Run.single hexhausted)
  -- the exhaustion sets both stamps and the cap
  have hpaced : Paced m t₀ (l₀.entry m).limit t₀ l₀ := by
    obtain ⟨hstep, -, -⟩ := unpinnedStep_eq_some.mp hexhausted
    rcases unpinned_cases h₀.counted hstep (fun _ => rfl) with ⟨hnone, -, -⟩ | ⟨t, heq, -, -⟩ | ⟨t, heq, -, hpace⟩
    · rw [LedgerEvent.exhausts_self] at hnone
      cases hnone
    · cases heq
    · cases heq
      exact paced_exhausted h₀ hpace
  obtain ⟨L, hL, hquiet⟩ := paced_run hpaced hreach₀ hrun hclock
  have htight := tight_of_reachable (hreach₀.run hrun)
  -- the drain gap, the cap in between, the cap at one event, and the end of the cap
  refine ⟨?_, ?_, ?_, ?_⟩
  · intro t ht
    have hlater := @le_lastExhaustion es m t₀ hclock
    apply hL.refuses
    omega
  · intro hnone hpos t ht
    obtain ⟨a, -, -, hnow, hcap⟩ := hL.adjusted
    rw [hquiet hnone] at hcap
    have hfirst : lastExhaustion m t₀ es = t₀ := by
      unfold lastExhaustion
      rw [List.filterMap_eq_nil_iff.mpr hnone]
      rfl
    rw [hfirst] at hcap
    obtain ⟨hlow, hhigh⟩ := hcap hpos
    refine ⟨hlow, le_trans hhigh ?_⟩
    -- whole minutes do not get fewer as time goes on
    have hminutes : (a - t₀) / (growInterval : ℤ) ≤ (t - t₀) / growInterval :=
      Int.ediv_le_ediv (by decide) (by omega)
    omega
  · intro e l'' hstep hnone hpos
    obtain ⟨hstep, hfree, -⟩ := unpinnedStep_eq_some.mp hstep
    rcases unpinned_cases htight.counted hstep hfree with ⟨-, hpace, -⟩ | ⟨t, rfl, hpace, -⟩ | ⟨t, rfl, -, -⟩
    · exact le_of_eq (ModelState.limit_eq hpace).symm
    · have hlimit := ModelState.limit_eq hpace
      have hadapt := limit_adapt (l'.entry m) t htight.capWord
      -- an exhaustion is excluded here
      omega
    · rw [LedgerEvent.exhausts_self] at hnone
      cases hnone
  · intro e l'' hstep hle hpos hzero
    exact (hL.step htight hstep hle).2 hpos hzero

/-- One permit is held when the model is exhausted at 0: a second later nothing is admitted, and after an admission
a minute later the cap is one or two. -/
theorem governor_lifecycle_minute :
    ∃ l l₀ l', (unpinnedSystem "m").step l (.noteExhausted "m" none 0) l₀ ∧
      (unpinnedSystem "m").Run l₀ [.admitAt "m" none 60000000000] l' ∧
      (l'.gov.admitAt "m" none 1000000000).1 = false ∧
      1 ≤ (l'.entry "m").limit ∧ ((l'.entry "m").limit : ℤ) ≤ 1 + 1 := by
  have hboot : (unpinnedSystem "m").init (boot [] 0 0) :=
    ⟨[], 0, 0, fun _ h => absurd h List.not_mem_nil, rfl⟩
  have hfirst : (System.exec (unpinnedStep "m") (boot [] 0 0) [.admitAt "m" none 0]).any (fun l =>
      (l.unpinnedStep "m" (.noteExhausted "m" none 0)).any fun l₀ =>
        decide ((l₀.entry "m").limit = 1) &&
          (System.exec (unpinnedStep "m") l₀ [.admitAt "m" none 60000000000]).any fun l' =>
            decide (0 < (l'.entry "m").limit)) = true := by
    decide +kernel
  obtain ⟨l, hreach, hrest⟩ := System.reachable_of_exec hboot hfirst
  obtain ⟨l₀, hexhausted, hrest⟩ := (Option.any_eq_true _ _).mp hrest
  rw [Bool.and_eq_true, decide_eq_true_eq] at hrest
  obtain ⟨hone, hrest⟩ := hrest
  obtain ⟨l', hrun, hpos⟩ := System.run_of_exec_any hrest
  obtain ⟨hgap, hcap, -, -⟩ := @governor_lifecycle "m" l l₀ l' 0 [.admitAt "m" none 60000000000] hreach
    hexhausted hrun (by decide)
  obtain ⟨hlow, hhigh⟩ := hcap (by decide) (of_decide_eq_true hpos) 60000000000 (by decide)
  rw [hone] at hlow hhigh
  exact ⟨l, l₀, l', hexhausted, hrun, hgap 1000000000 (by decide), hlow, hhigh⟩

end Ledger

end Flock
