/-
# Flock.Front.Runs — what a save and a rejection do to the requests that come after them.

`Kept` is what a run keeps from a state on: a condition on what requests share, one on every request by its number of
arrival, and one on everything that is handed on.  Three results are instances of it.  A credential that the settings
in force bar stays out, for every request that comes in after the save.  Callers who are all barred leave no trace.  And
once a model has rejected the injected field, its later requests go out as they came in.
-/
import Flock.Front.Admission
import Flock.Models

namespace Flock.Front

open Lib (System)

section Runs

variable {ν : Type} {json : BodyCodec ν} {sha256Hex : String → String} {hash : List String → UInt64}
  {render : Json ν → String} {s₀ s s' : FrontState} {es : List FrontEvent} {e : FrontEvent}

/-! ## What a run keeps

The three results have one form: something holds of every request that came in after a state, whatever step any of the
requests makes.  So the rule takes the three conditions and asks of each event that it keeps them. -/

/-- Since `s₀`: what requests share meets `K`, each request inside meets `P`, and what was handed on meets `L`. -/
structure Kept (s₀ : FrontState) (K : Shared → Prop) (P : ℕ → Handler → Prop) (L : ℕ → Work → Handed → Prop)
    (s : FrontState) : Prop where
  shared : K s.shared
  inside : ∀ id h, s.handlers id = some h → P id h
  handed : ∃ new, s.handed = new ++ s₀.handed ∧ ∀ id w x, (id, w, x) ∈ new → L id w x
  later : s₀.arrivals ≤ s.arrivals

/-- What the events of a run must do for it to keep something. -/
structure Keeps (json : BodyCodec ν) (sha256Hex : String → String) (hash : List String → UInt64)
    (render : Json ν → String) (base : ℕ) (C : FrontEvent → Prop) (K : Shared → Prop) (P : ℕ → Handler → Prop)
    (L : ℕ → Work → Handed → Prop) : Prop where
  claim : ∀ sh, K sh → K { sh with setupRequired := false }
  publish : ∀ sh cfg, C (.publish cfg) → K sh → K { sh with cfg := cfg }
  resize : ∀ sh lanes, K sh → K { sh with lanes := lanes }
  arrive : ∀ id r accepted, base ≤ id → C (.arrive r accepted) → P id (.arrived r accepted)
  touch : ∀ sh id h t f, K sh → P id h → h.step json sha256Hex hash render sh t = some f →
    K f.shared ∧ (∀ next, f.next = some next → P id next) ∧ ∀ w x, f.handed = some (w, x) → L id w x

variable {C : FrontEvent → Prop} {K : Shared → Prop} {P : ℕ → Handler → Prop} {L : ℕ → Work → Handed → Prop}

theorem Kept.step (hkeeps : Keeps json sha256Hex hash render s₀.arrivals C K P L) (hC : C e) (hs : Kept s₀ K P L s)
    (h : s.step json sha256Hex hash render e = some s') : Kept s₀ K P L s' := by
  cases e with
  -- what the administrators do concerns no handler
  | claim =>
      cases h
      exact ⟨hkeeps.claim _ hs.shared, hs.inside, hs.handed, hs.later⟩
  | publish cfg =>
      cases h
      exact ⟨hkeeps.publish _ cfg hC hs.shared, hs.inside, hs.handed, hs.later⟩
  | resize lanes =>
      cases h
      exact ⟨hkeeps.resize _ lanes hs.shared, hs.inside, hs.handed, hs.later⟩
  | arrive r accepted =>
      have hlater : s₀.arrivals ≤ s.arrivals + 1 := Nat.le_succ_of_le hs.later
      simp only [FrontState.step] at h
      split at h
      · cases h
        exact ⟨hs.shared, hs.inside, hs.handed, hlater⟩
      · cases h
        refine ⟨hs.shared, fun id h hid => ?_, hs.handed, hlater⟩
        -- the newcomer starts where it starts; the others stand where they stood
        by_cases heq : id = s.arrivals
        · subst heq
          rw [FrontState.handlers_receive_self] at hid
          cases hid
          exact hkeeps.arrive _ r accepted hs.later hC
        · rw [FrontState.handlers_receive_of_ne heq] at hid
          exact hs.inside id h hid
  | touch id t =>
      obtain ⟨h', hid, heffect⟩ := Option.bind_eq_some_iff.mp h
      obtain ⟨f, hstep, rfl⟩ := Option.map_eq_some_iff.mp heffect
      obtain ⟨hshared, hnext, hnew⟩ := hkeeps.touch _ id h' t f hs.shared (hs.inside id h' hid) hstep
      -- the handler whose moment it was, and the others
      refine ⟨hshared, fun id' next hid' => ?_, ?_, hs.later⟩
      · by_cases heq : id' = id
        · subst heq
          rw [FrontState.handlers_apply_self] at hid'
          exact hnext next hid'
        · rw [FrontState.handlers_apply_of_ne heq] at hid'
          exact hs.inside id' next hid'
      -- what is handed on goes in front of what was
      · obtain ⟨new, heq, hL⟩ := hs.handed
        refine ⟨f.handed.toList.map (fun h => (id, h)) ++ new, ?_, fun id' w x hx => ?_⟩
        · show f.handed.toList.map (fun h => (id, h)) ++ s.handed = _
          rw [heq, List.append_assoc]
        · rcases List.mem_append.mp hx with hfirst | hrest
          · obtain ⟨⟨w', x'⟩, hmem, hpair⟩ := List.mem_map.mp hfirst
            cases hpair
            exact hnew w x (Option.mem_toList.mp hmem)
          · exact hL id' w x hrest

/-- **The rule.**  What the events of a run keep, the run keeps. -/
theorem Kept.run (hkeeps : Keeps json sha256Hex hash render s₀.arrivals C K P L) (hshared : K s₀.shared)
    (hinside : ∀ id h, s₀.handlers id = some h → P id h) (hes : ∀ e ∈ es, C e)
    (hrun : (frontSystem json sha256Hex hash render).Run s₀ es s) : Kept s₀ K P L s := by
  refine hrun.preserves_of_forall (I := Kept s₀ K P L) (C := C) ?_ hes ?_
  · intro s e s' hC hs hstep
    exact Kept.step hkeeps hC hs hstep
  · exact ⟨hshared, hinside, ⟨[], rfl, by simp⟩, le_rfl⟩

/-! ## Barred credentials

A request reads the settings once, at its start, and what it read then decides.  A save in the middle of the run is
seen by those that come later, which is why the save of the first state is enough. -/

/-- The settings let none of these header maps in. -/
def Bars (sha256Hex : String → String) (H : Headers → Prop) (cfg : Config) : Prop :=
  ∀ headers, H headers → clientOf sha256Hex cfg.clients headers = none

/-- A request that has read its settings does not get in with these headers. -/
def Handler.Outside (sha256Hex : String → String) (H : Headers → Prop) : Handler → Prop
  | .configured r _ cfg | .counted r _ cfg _ => H r.headers → clientOf sha256Hex cfg.clients r.headers = none
  | h => ∀ w, h.work = some w → ¬ H w.request.headers

/-- A request that is judged by settings that bar it is refused. -/
theorem judge_outside {H : Headers → Prop} {r : Request} {cfg : Config}
    (h : H r.headers → clientOf sha256Hex cfg.clients r.headers = none) (accepted : Instant) (rank : ℕ) :
    (judge sha256Hex r accepted cfg rank).Outside sha256Hex H := by
  unfold judge
  split
  · intro w hw
    cases hw
  · split
    · intro w hw
      cases hw
    · rename_i client hclient
      split
      · intro w hw
        cases hw
      · intro w hw hH
        cases hw
        rw [h hH] at hclient
        cases hclient

theorem Handler.step_outside {H : Headers → Prop} {sh : Shared} {h : Handler} {t : Touch} {f : Effect}
    (hbars : Bars sha256Hex H sh.cfg) (hout : h.Outside sha256Hex H)
    (hs : h.step json sha256Hex hash render sh t = some f) {next : Handler} (hnext : f.next = some next) :
    next.Outside sha256Hex H := by
  unfold Handler.step at hs
  split at hs <;> (try split at hs) <;> (try split at hs) <;> cases hs <;> cases hnext
  -- the settings are read, the client is looked up; the request that is let in stays the same
  all_goals first
    | exact fun hH => hbars _ hH
    | exact hout
    | exact judge_outside hout _ _
    | exact fun w hw => nomatch hw

/-- Who is outside is not at work. -/
theorem Handler.Outside.work {H : Headers → Prop} {h : Handler} (hout : h.Outside sha256Hex H) {w : Work}
    (hw : h.work = some w) : ¬ H w.request.headers := by
  cases h with
  | configured | counted => cases hw
  | _ => exact hout w hw

/-- No save of the run lets these header maps in. -/
def StillBars (sha256Hex : String → String) (H : Headers → Prop) : FrontEvent → Prop
  | .publish cfg => Bars sha256Hex H cfg
  | _ => True

/-- What a run from settings that bar keeps: no request after it gets in. -/
theorem bars_run {H : Headers → Prop} (hbars : Bars sha256Hex H s₀.shared.cfg)
    (hsound : s₀.Sound json sha256Hex) (hes : ∀ e ∈ es, StillBars sha256Hex H e)
    (hrun : (frontSystem json sha256Hex hash render).Run s₀ es s) :
    Kept s₀ (fun sh => Bars sha256Hex H sh.cfg) (fun id h => s₀.arrivals ≤ id → h.Outside sha256Hex H)
      (fun id w _ => s₀.arrivals ≤ id → ¬ H w.request.headers) s := by
  refine Kept.run (C := StillBars sha256Hex H) ?_ hbars ?_ hes hrun
  · refine ⟨fun sh h => h, fun sh cfg hcfg _ => hcfg, fun sh lanes h => h, ?_,
      fun sh id h t f hK hP hstep => ⟨?_, ?_, ?_⟩⟩
    · intro id r accepted _ _ _ w hw
      cases hw
    · show Bars sha256Hex H f.shared.cfg
      rw [(Handler.step_settings hstep).2.1]
      exact hK
    · intro next hnext hlater
      exact Handler.step_outside hK (hP hlater) hstep hnext
    · intro w x hx hlater
      exact (hP hlater).work (Handler.work_of_handed hstep hx)
  · intro id h hid hlater
    exact absurd (hsound.inside id h hid).1 (not_lt.mpr hlater)

/-- **A barred credential stays out.**  From a state whose settings let a set of header maps in for no client, and as
long as no save does, nothing is handed on for a request with such headers that came in since. -/
theorem barred_stays_out {H : Headers → Prop} (h₀ : (frontSystem json sha256Hex hash render).Reachable s₀)
    (hbars : Bars sha256Hex H s₀.shared.cfg) (hes : ∀ e ∈ es, StillBars sha256Hex H e)
    (hrun : (frontSystem json sha256Hex hash render).Run s₀ es s) :
    ∃ new, s.handed = new ++ s₀.handed ∧
      ∀ id w x, (id, w, x) ∈ new → s₀.arrivals ≤ id → ¬ H w.request.headers :=
  (bars_run hbars (reachable_sound h₀) hes hrun).handed

end Runs

/-- Settings with client authentication and no client. -/
def keyedConfig : Config := { openConfig with clients := some ∅ }

/-- Without clients nobody has a credential. -/
theorem keyedConfig_bars (H : Headers → Prop) : Bars id H keyedConfig := by
  intro headers _
  show clientOf id (some ∅) headers = none
  rw [clientOf_some]
  rfl

def keyedBoot : FrontState := { shared := ⟨true, keyedConfig, 1, 0, ∅, ∅⟩ }

/-- A stranger is turned away, and the settings are saved meanwhile. -/
def strangerTurnedAway : List FrontEvent :=
  [.claim, .arrive streamRequest firstSecond, .touch 0 .read, .publish keyedConfig,
    .touch 0 .enter, .touch 0 .decide, .touch 0 .wake, .touch 0 .leave]

theorem exists_turned_away : ∃ s, openSystem.Run keyedBoot strangerTurnedAway s ∧
    (s.answers == [(0, .unauthorized)]) = true :=
  System.run_of_exec_any (by decide +kernel)

theorem barred_stays_out_stranger : ∃ s new, openSystem.Run keyedBoot strangerTurnedAway s ∧
    s.handed = new ++ keyedBoot.handed ∧
    ∀ id w x, (id, w, x) ∈ new → keyedBoot.arrivals ≤ id → ¬ (fun headers => headers = []) w.request.headers := by
  obtain ⟨s, hrun, -⟩ := exists_turned_away
  have hreach : openSystem.Reachable keyedBoot := ⟨_, [], ⟨true, keyedConfig, 1, rfl⟩, .nil _⟩
  have hes : ∀ e ∈ strangerTurnedAway, StillBars id (fun headers => headers = []) e := by
    intro e he
    cases e with
    | publish cfg =>
        obtain rfl : cfg = keyedConfig := by simpa [strangerTurnedAway] using he
        exact keyedConfig_bars _
    | _ => trivial
  obtain ⟨new, hnew, hall⟩ := barred_stays_out hreach (keyedConfig_bars _) hes hrun
  exact ⟨s, new, hrun, hnew, hall⟩

section Trace

variable {ν : Type} {json : BodyCodec ν} {sha256Hex : String → String} {hash : List String → UInt64}
  {render : Json ν → String} {s₀ s s' : FrontState} {es : List FrontEvent} {e : FrontEvent}

/-- Only a request at work writes what requests share, the counter apart. -/
theorem Handler.step_tables {sh : Shared} {h : Handler} {t : Touch} {f : Effect} (hidle : h.work = none)
    (hs : h.step json sha256Hex hash render sh t = some f) :
    f.shared.labels = sh.labels ∧ f.shared.noInject = sh.noInject := by
  unfold Handler.step at hs
  split at hs <;> (try split at hs) <;> (try split at hs) <;> cases hs
  all_goals first
    | exact ⟨rfl, rfl⟩
    | cases hidle

/-- Every arrival has one of these header maps, and no save lets them in. -/
def OnlyBarred (sha256Hex : String → String) (H : Headers → Prop) : FrontEvent → Prop
  | .arrive r _ => H r.headers
  | e => StillBars sha256Hex H e

/-- A request with a barred header map does nothing. -/
theorem idle_of_barred {H : Headers → Prop} {h : Handler} (hout : h.Outside sha256Hex H)
    (hr : ∀ r, h.request = some r → H r.headers) : h.work = none := by
  by_contra hne
  obtain ⟨w, hw⟩ := Option.ne_none_iff_exists'.mp hne
  exact hout.work hw (hr _ (Handler.request_of_work hw))

/-- **Barred callers leave no trace.**  From a state with no request inside, and as long as only callers come whom the
settings in force bar, no request gets to work: the table of labels, the set of models that reject the injected field
and everything handed on stay as they were, in every interleaving. -/
theorem barred_leave_no_trace {H : Headers → Prop} (hempty : ∀ id, s₀.handlers id = none)
    (hbars : Bars sha256Hex H s₀.shared.cfg) (hes : ∀ e ∈ es, OnlyBarred sha256Hex H e)
    (hrun : (frontSystem json sha256Hex hash render).Run s₀ es s) :
    s.shared.labels = s₀.shared.labels ∧ s.shared.noInject = s₀.shared.noInject ∧ s.handed = s₀.handed ∧
      ∀ id, (s.handlers id).bind Handler.work = none := by
  have hkept : Kept s₀
      (fun sh => Bars sha256Hex H sh.cfg ∧ sh.labels = s₀.shared.labels ∧ sh.noInject = s₀.shared.noInject)
      (fun _ h => h.Outside sha256Hex H ∧ ∀ r, h.request = some r → H r.headers) (fun _ _ _ => False) s := by
    refine Kept.run (C := OnlyBarred sha256Hex H) ?_ ⟨hbars, rfl, rfl⟩ ?_ hes hrun
    · refine ⟨fun sh h => h, fun sh cfg hcfg h => ⟨hcfg, h.2⟩, fun sh lanes h => h, ?_, ?_⟩
      · intro id r accepted _ hH
        refine ⟨fun w hw => ?_, fun r' hr => ?_⟩
        · cases hw
        · obtain rfl := Option.some.inj hr
          exact hH
      · rintro sh id h t f ⟨hK, hlabels, hinject⟩ ⟨hout, hr⟩ hstep
        -- the tables change only under a request at work, and none is
        have hidle := idle_of_barred hout hr
        obtain ⟨hlabels', hinject'⟩ := Handler.step_tables hidle hstep
        refine ⟨⟨?_, hlabels'.trans hlabels, hinject'.trans hinject⟩, ?_, ?_⟩
        · show Bars sha256Hex H f.shared.cfg
          rw [(Handler.step_settings hstep).2.1]
          exact hK
        · intro next hnext
          exact ⟨Handler.step_outside hK hout hstep hnext, fun r hr' => hr r (Handler.step_request hstep hnext hr')⟩
        · intro w x hx
          rw [Handler.work_of_handed hstep hx] at hidle
          cases hidle
    · intro id h hid
      rw [hempty id] at hid
      cases hid
  obtain ⟨new, hnew, hnone⟩ := hkept.handed
  refine ⟨hkept.shared.2.1, hkept.shared.2.2, ?_, fun id => ?_⟩
  · cases new with
    | nil => exact hnew
    | cons x rest => exact (hnone x.1 x.2.1 x.2.2 List.mem_cons_self).elim
  · cases hid : s.handlers id with
    | none => rfl
    | some h =>
        obtain ⟨hout, hr⟩ := hkept.inside id h hid
        exact idle_of_barred hout hr

end Trace

theorem barred_leave_no_trace_stranger : ∃ s, openSystem.Run keyedBoot strangerTurnedAway s ∧
    s.shared.labels = ∅ ∧ s.shared.noInject = ∅ ∧ s.handed = [] ∧
      ∀ id, (s.handlers id).bind Handler.work = none := by
  obtain ⟨s, hrun, -⟩ := exists_turned_away
  have hes : ∀ e ∈ strangerTurnedAway, OnlyBarred id (fun headers => headers = []) e := by
    intro e he
    cases e with
    | publish cfg =>
        obtain rfl : cfg = keyedConfig := by simpa [strangerTurnedAway] using he
        exact keyedConfig_bars _
    | arrive r accepted =>
        obtain ⟨rfl, -⟩ : r = streamRequest ∧ _ := by simpa [strangerTurnedAway] using he
        rfl
    | _ => trivial
  exact ⟨s, hrun, barred_leave_no_trace (fun _ => rfl) (keyedConfig_bars _) hes hrun⟩

section Injection

variable {ν : Type} {json : BodyCodec ν} {sha256Hex : String → String} {hash : List String → UInt64}
  {render : Json ν → String} {s₀ s s' : FrontState} {es : List FrontEvent} {e : FrontEvent}

/-! ## The injected field

The set of models that reject the field is only added to.  A request of a model in the set carries the client's bytes,
so it cannot be rejected for the field again. -/

/-- A stream of this model sends the client's own bytes. -/
def Handler.Plain (model : String) : Handler → Prop
  | .streaming w label body fallback _ => label = model → body = w.request.body ∧ fallback = none
  | _ => True

/-- The body that is made for such a model is the client's. -/
theorem inject_plain {w : Work} {noInject : Finset String} {model label : String} (hmem : model ∈ noInject)
    {body : List UInt8} {fallback : Option (List UInt8)}
    (h : w.request.inject json w.cfg.strictPassthrough noInject label = some (body, fallback)) :
    (Handler.streaming w label body fallback false).Plain model := by
  rintro rfl
  unfold Request.inject at h
  split at h
  · split at h <;> cases h <;> exact ⟨rfl, rfl⟩
  · cases h
    exact ⟨rfl, rfl⟩

/-- A request that has just been judged has made no body yet. -/
theorem judge_plain (model : String) (r : Request) (accepted : Instant) (cfg : Config) (rank : ℕ) :
    (judge sha256Hex r accepted cfg rank).Plain model := by
  unfold judge
  split
  · trivial
  · split
    · trivial
    · split <;> trivial

/-- And every body it makes from then on is the client's own. -/
theorem Handler.step_plain {model : String} {sh : Shared} {h : Handler} {t : Touch} {f : Effect}
    (hmem : model ∈ sh.noInject) (hplain : h.Plain model)
    (hs : h.step json sha256Hex hash render sh t = some f) {next : Handler} (hnext : f.next = some next) :
    next.Plain model := by
  unfold Handler.step at hs
  split at hs <;> (try split at hs) <;> (try split at hs) <;> cases hs <;> cases hnext
  all_goals first
    | exact judge_plain _ _ _ _ _
    | exact inject_plain hmem ‹_›
    | trivial
    -- a rejected attempt had a fallback, which a plain stream lacks
    | exact fun hlabel => nomatch (hplain hlabel).2

/-- An attempt of such a stream carries them. -/
theorem Handler.attempt_plain {model : String} {sh : Shared} {h : Handler} {t : Touch} {f : Effect}
    (hplain : h.Plain model) (hs : h.step json sha256Hex hash render sh t = some f) {w : Work} {request : Outgoing}
    (hx : f.handed = some (w, .attempt model request)) :
    ∃ key, request = upstreamRequest w.cfg w.request key w.request.body := by
  unfold Handler.step at hs
  split at hs <;> (try split at hs) <;> (try split at hs) <;> cases hs <;> cases hx
  obtain ⟨rfl, -⟩ := hplain rfl
  exact ⟨_, rfl⟩

/-- The set of models that reject the field only grows. -/
theorem Handler.step_noInject {model : String} {sh : Shared} {h : Handler} {t : Touch} {f : Effect}
    (hs : h.step json sha256Hex hash render sh t = some f) (hmem : model ∈ sh.noInject) :
    model ∈ f.shared.noInject := by
  unfold Handler.step at hs
  split at hs <;> (try split at hs) <;> (try split at hs) <;> cases hs
  all_goals first
    | exact hmem
    | exact Finset.mem_insert_of_mem hmem

/-- The rejected handler keeps nothing, and its model is in the set. -/
theorem Handler.step_reject {sh : Shared} {h : Handler} {f : Effect}
    (hs : h.step json sha256Hex hash render sh .reject = some f) :
    ∃ w model body fallback, h = .streaming w model body (some fallback) true ∧
      f.next = some (.streaming w model fallback none false) ∧ model ∈ f.shared.noInject := by
  cases h with
  | streaming w model body fallback attempt =>
      cases attempt <;> cases fallback <;> cases hs
      exact ⟨w, model, body, _, rfl, rfl, Finset.mem_insert_self _ _⟩
  | _ => cases hs

/-- **A rejection is final.**  Once an attempt with the injected field has come back with a 400, its model stays in the
set of those that reject the field, and from then on, in every run, both that request and every request of its model
that comes in later send the bytes their client sent. -/
theorem rejection_is_final (h₀ : (frontSystem json sha256Hex hash render).Reachable s) {id : ℕ}
    (hreject : (frontSystem json sha256Hex hash render).step s (.touch id .reject) s₀)
    (hrun : (frontSystem json sha256Hex hash render).Run s₀ es s') :
    ∃ w model body fallback, s.handlers id = some (.streaming w model body (some fallback) true) ∧
      model ∈ s'.shared.noInject ∧
      ∃ new, s'.handed = new ++ s₀.handed ∧
        ∀ id' w' request, (id', w', .attempt model request) ∈ new → id' = id ∨ s₀.arrivals ≤ id' →
          ∃ key, request = upstreamRequest w'.cfg w'.request key w'.request.body := by
  have hsound := reachable_sound h₀
  have hafter := hsound.step hreject
  obtain ⟨h, hid, heffect⟩ := Option.bind_eq_some_iff.mp hreject
  obtain ⟨f, hstep, rfl⟩ := Option.map_eq_some_iff.mp heffect
  obtain ⟨w, model, body, fallback, rfl, hnext, hmem⟩ := Handler.step_reject hstep
  refine ⟨w, model, body, fallback, hid, ?_⟩
  -- the retry carries the handler's fallback, which is the client's own body
  have hnow : ∀ h', (s.apply id f).handlers id = some h' → h'.Plain model := by
    intro h' hh'
    rw [FrontState.handlers_apply_self, hnext] at hh'
    obtain rfl := Option.some.inj hh'
    obtain ⟨-, ⟨hbody, hkept⟩ | ⟨-, hkept⟩⟩ := Handler.step_sound hstep (hsound.sound id _ hid) hnext
    · exact fun _ => ⟨hbody, hkept⟩
    · cases hkept
  have hkept : Kept (s.apply id f) (fun sh => model ∈ sh.noInject)
      (fun id' h => id' = id ∨ (s.apply id f).arrivals ≤ id' → h.Plain model)
      (fun id' w' x => ∀ request, x = .attempt model request → id' = id ∨ (s.apply id f).arrivals ≤ id' →
        ∃ key, request = upstreamRequest w'.cfg w'.request key w'.request.body) s' := by
    refine Kept.run (C := fun _ => True) ?_ hmem ?_ (fun _ _ => trivial) hrun
    · refine ⟨fun sh h => h, fun sh cfg _ h => h, fun sh lanes h => h, fun _ _ _ _ _ _ => trivial, ?_⟩
      intro sh id' h t f' hK hP ht
      refine ⟨Handler.step_noInject ht hK, fun next hnext' hwho => Handler.step_plain hK (hP hwho) ht hnext', ?_⟩
      rintro w' x hx request rfl hwho
      exact Handler.attempt_plain (hP hwho) ht hx
    · -- the requests that are inside already: the rejected one is plain, the others came in too early to be bound
      rintro id' h' hh' (rfl | hlater)
      · exact hnow h' hh'
      · exact absurd (hafter.inside id' h' hh').1 (not_lt.mpr hlater)
  obtain ⟨new, hnew, hL⟩ := hkept.handed
  exact ⟨hkept.shared, new, hnew, fun id' w' request hx => hL id' w' _ hx request rfl⟩

end Injection

theorem rejection_is_final_stream : ∃ s s₀ s', openSystem.Reachable s ∧
    openSystem.step s (.touch 0 .reject) s₀ ∧ openSystem.Run s₀ [.touch 0 (.send "k")] s' ∧
    ∃ w model body fallback, s.handlers 0 = some (.streaming w model body (some fallback) true) ∧
      model ∈ s'.shared.noInject ∧
      ∃ new, s'.handed = new ++ s₀.handed ∧
        ∀ id' w' request, (id', w', .attempt model request) ∈ new → id' = 0 ∨ s₀.arrivals ≤ id' →
          ∃ key, request = upstreamRequest w'.cfg w'.request key w'.request.body := by
  obtain ⟨s, hrun, -⟩ := exists_first_attempt
  have hreach : openSystem.Reachable s := ⟨_, _, ⟨true, openConfig, 1, rfl⟩, hrun⟩
  have hexec : (System.exec (FrontState.step streamCodec id (fun _ => 7) fun _ => "") openBoot
      (firstAttempt ++ [.touch 0 .reject, .touch 0 (.send "k")])).isSome = true := by decide +kernel
  rw [System.exec_append (System.exec_of_run hrun)] at hexec
  obtain ⟨s', hs'⟩ := Option.isSome_iff_exists.mp hexec
  obtain ⟨s₀, hreject, hrest⟩ := Option.bind_eq_some_iff.mp hs'
  have hlater : openSystem.Run s₀ [.touch 0 (.send "k")] s' := System.run_of_exec hrest
  exact ⟨s, s₀, s', hreach, hreject, hlater, rejection_is_final hreach hreject hlater⟩

/-- Fields that an option can be injected into were read as an object, and lack it. -/
theorem read_of_bareFields {json : BodyCodec JsonNumber} {r : Request} {fields : List (String × StoreJson)}
    (h : r.bareFields json = some fields) :
    json.fromSlice r.body = some (.obj fields) ∧ fields.lookup "stream_options" = none := by
  unfold Request.bareFields at h
  split at h
  · rename_i hread
    split at h
    · rename_i hnone
      obtain rfl := Option.some.inj h
      exact ⟨hread, by simpa using hnone⟩
    · cases h
  · cases h

/-- **The injected field changes nothing else.**  What a stream sends is the body its client sent, byte for byte; or it
is what the printer makes of the fields that were read in that body, each of them as it was read, and beside them only
`stream_options`, which they lack. -/
theorem injection_transparent {json : BodyCodec JsonNumber} {sha256Hex : String → String}
    {hash : List String → UInt64} {render : StoreJson → String} {s : FrontState}
    (h : (frontSystem json sha256Hex hash render).Reachable s) {id : ℕ} {w : Work} {model : String}
    {request : Outgoing} (hx : (id, w, .attempt model request) ∈ s.handed) :
    ∃ key body, request = upstreamRequest w.cfg w.request key body ∧
      (body = w.request.body ∨
        ∃ fields fields', json.fromSlice w.request.body = some (.obj fields) ∧
          json.toVec (.obj fields') = some body ∧ fields.lookup "stream_options" = none ∧
          ∀ name, fields'.lookup name =
            if name = "stream_options" then some (.obj [("include_usage", .bool true)]) else fields.lookup name) := by
  obtain ⟨-, -, -, key, body, hrequest, hbody | hinjected⟩ := (reachable_sound h).handed id w _ hx
  · exact ⟨key, body, hrequest, .inl hbody⟩
  · obtain ⟨fields, hfields, hbytes⟩ := hinjected.field
    obtain ⟨hread, hnone⟩ := read_of_bareFields hfields
    refine ⟨key, body, hrequest, .inr ⟨fields, _, hread, hbytes, hnone, fun name => ?_⟩⟩
    rw [Catalogue.lookup_insertField]
    simp only [eq_comm, Request.includeUsage]

theorem injection_transparent_stream : ∃ s w request key body, openSystem.Reachable s ∧
    (0, w, .attempt "m" request) ∈ s.handed ∧ request = upstreamRequest w.cfg w.request key body ∧
      (body = w.request.body ∨
        ∃ fields fields', streamCodec.fromSlice w.request.body = some (.obj fields) ∧
          streamCodec.toVec (.obj fields') = some body ∧ fields.lookup "stream_options" = none ∧
          ∀ name, fields'.lookup name =
            if name = "stream_options" then some (.obj [("include_usage", .bool true)])
            else fields.lookup name) := by
  obtain ⟨s, w, hrun, hx⟩ := exists_handed_attempt
  have hreach : openSystem.Reachable s := ⟨_, _, ⟨true, openConfig, 1, rfl⟩, hrun⟩
  obtain ⟨key, body, hrest⟩ := injection_transparent hreach hx
  exact ⟨s, w, _, key, body, hreach, hx, hrest⟩

end Flock.Front
