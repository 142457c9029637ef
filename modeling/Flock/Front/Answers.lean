/-
# Flock.Front.Answers — one answer to each request.

A handler is `silent` once its client has had its response, or will have none: the task of a stream, and a handler
whose future was dropped or which panicked.  No request is answered twice.  A handler panics where the pool is empty,
where the injected body cannot be written, and on a sum that the clock cannot hold; without any of these, and while the
client stays, every request that came in is answered or still inside.

That nobody is answered twice holds in every run.  That everybody is answered needs the calm run, since each of the
three kinds of panic and a client that hangs up ends a handler without an answer.
-/
import Flock.Front.Admission

namespace Flock.Front

open Lib (System)

/-- There is no answer to come. -/
def Handler.silent : Handler → Bool
  | .streaming .. | .leaving _ none => true
  | _ => false

section Answers

variable {ν : Type} {json : BodyCodec ν} {sha256Hex : String → String} {hash : List String → UInt64}
  {render : Json ν → String} {sh : Shared} {h : Handler} {t : Touch} {f : Effect}
  {s s' : FrontState} {e : FrontEvent} {es : List FrontEvent}

/-- A handler that has looked at its request has an answer to give, or work to do. -/
theorem silent_judge (r : Request) (accepted : Instant) (cfg : Config) (rank : ℕ) :
    (judge sha256Hex r accepted cfg rank).silent = false := by
  unfold judge
  split
  · rfl
  · split
    · rfl
    · split <;> rfl

/-- Whoever leaves in silence has nothing to give. -/
theorem answer_of_silent {rank : ℕ} {answer : Option Answer} (h : (Handler.leaving rank answer).silent = true) :
    answer = none := by
  cases answer with
  | none => rfl
  | some a => cases h

/-- And whoever does not has its answer with it. -/
theorem answer_of_talks {rank : ℕ} {answer : Option Answer} (h : (Handler.leaving rank answer).silent = false) :
    answer.isSome = true := by
  cases answer with
  | none => cases h
  | some a => rfl

/-- Who is silent stays silent. -/
theorem Handler.step_silent (hs : h.step json sha256Hex hash render sh t = some f) (hsilent : h.silent = true) :
    f.answer = none ∧ ∀ next, f.next = some next → next.silent = true := by
  unfold Handler.step at hs
  split at hs <;> (try split at hs) <;> (try split at hs) <;> cases hs
  all_goals first
    | cases hsilent; done
    | exact ⟨rfl, fun next hnext => by cases hnext; rfl⟩
    | exact ⟨answer_of_silent hsilent, fun next hnext => by cases hnext⟩

/-- Who answers is silent from then on. -/
theorem Handler.step_answer (hs : h.step json sha256Hex hash render sh t = some f) {a : Answer}
    (ha : f.answer = some a) : ∀ next, f.next = some next → next.silent = true := by
  unfold Handler.step at hs
  split at hs <;> (try split at hs) <;> (try split at hs) <;> cases hs
  all_goals first
    | cases ha; done
    | exact fun next hnext => by cases hnext; rfl
    | exact fun next hnext => by cases hnext

/-- The hint needs a lane. -/
theorem hint_ne_none (hlanes : 1 ≤ sh.lanes) (r : Request) : hint json hash render r sh.lanes ≠ none := by
  unfold hint
  split
  · exact Option.some_ne_none _
  · unfold affinity
    split
    · exact Option.some_ne_none _
    · rw [if_neg (by omega)]
      exact Option.some_ne_none _

/-- With a writer that does not fail, the injected body is written. -/
theorem inject_ne_none (hjson : ∀ v, (json.toVec v).isSome = true) (r : Request) (strict : Bool)
    (noInject : Finset String) (model : String) : r.inject json strict noInject model ≠ none := by
  unfold Request.inject
  split
  · split
    · rename_i fields _
      split
      · exact Option.some_ne_none _
      · obtain ⟨bytes, hbytes⟩ := Option.isSome_iff_exists.mp
          (hjson (.obj (insertField "stream_options" Request.includeUsage fields)))
        rw [hbytes]
        exact Option.some_ne_none _
    · exact Option.some_ne_none _
  · exact Option.some_ne_none _

/-- Who still has an answer to give gives it, or goes on. -/
theorem Handler.step_talks (hjson : ∀ v, (json.toVec v).isSome = true) (hlanes : 1 ≤ sh.lanes)
    (ht : t ≠ .hangUp ∧ t ≠ .panic) (hs : h.step json sha256Hex hash render sh t = some f) (htalks : h.silent = false) :
    f.answer.isSome = true ∨ ∃ next, f.next = some next ∧ next.silent = false := by
  unfold Handler.step at hs
  split at hs <;> (try split at hs) <;> (try split at hs) <;> cases hs
  all_goals first
    | exact .inr ⟨_, rfl, rfl⟩
    | exact .inr ⟨_, rfl, silent_judge ..⟩
    | exact .inl rfl
    | exact .inl (answer_of_talks htalks)
    | exact absurd ‹_› (hint_ne_none hlanes _)
    | exact absurd ‹_› (inject_ne_none hjson _ _ _ _)
    | exact absurd rfl ht.1
    | exact absurd rfl ht.2
    | cases htalks

/-! ## Over a run

The log of the answers grows by the effects that answer.  Who is in it is silent, and silence is for good, so no
request gets into it twice. -/

/-- No request is answered twice, and who was answered is silent. -/
structure Answered (s : FrontState) : Prop where
  nodup : (s.answers.map Prod.fst).Nodup
  silent : ∀ id ∈ s.answers.map Prod.fst, id < s.arrivals ∧ ∀ h, s.handlers id = some h → h.silent = true
  inside : ∀ id h, s.handlers id = some h → id < s.arrivals

theorem Answered.apply {id : ℕ} (hs : Answered s) (hid : s.handlers id = some h)
    (hstep : h.step json sha256Hex hash render s.shared t = some f) : Answered (s.apply id f) := by
  have hlt := hs.inside id h hid
  have hinside : ∀ id' next, (s.apply id f).handlers id' = some next → id' < s.arrivals := by
    intro id' next hid'
    by_cases heq : id' = id
    · subst heq
      exact hlt
    · rw [FrontState.handlers_apply_of_ne heq] at hid'
      exact hs.inside id' next hid'
  -- an answer from before: the request was silent then, and whoever did not move is as it was
  have hold : ∀ id' ∈ s.answers.map Prod.fst,
      id' < s.arrivals ∧ ∀ next, (s.apply id f).handlers id' = some next → next.silent = true := by
    intro id' hmem
    obtain ⟨hlt', hsilent⟩ := hs.silent id' hmem
    refine ⟨hlt', fun next hnext => ?_⟩
    by_cases heq : id' = id
    · subst heq
      rw [FrontState.handlers_apply_self] at hnext
      exact (Handler.step_silent hstep (hsilent h hid)).2 next hnext
    · rw [FrontState.handlers_apply_of_ne heq] at hnext
      exact hsilent next hnext
  cases ha : f.answer with
  | none =>
      have hanswers : (s.apply id f).answers = s.answers := by simp [FrontState.apply, ha]
      refine ⟨?_, ?_, hinside⟩
      · rw [hanswers]
        exact hs.nodup
      · rw [hanswers]
        exact hold
  | some a =>
      have hanswers : (s.apply id f).answers = (id, a) :: s.answers := by simp [FrontState.apply, ha]
      have hnew : id ∉ s.answers.map Prod.fst := by
        intro hmem
        have hnone := (Handler.step_silent hstep ((hs.silent id hmem).2 h hid)).1
        rw [ha] at hnone
        cases hnone
      refine ⟨?_, ?_, hinside⟩
      · rw [hanswers]
        exact List.nodup_cons.mpr ⟨hnew, hs.nodup⟩
      · rw [hanswers]
        intro id' hmem
        rcases List.mem_cons.mp hmem with rfl | hmem
        · refine ⟨hlt, fun next hnext => ?_⟩
          rw [FrontState.handlers_apply_self] at hnext
          exact Handler.step_answer hstep ha next hnext
        · exact hold id' hmem

theorem Answered.step (hs : Answered s) (h : s.step json sha256Hex hash render e = some s') : Answered s' := by
  cases e with
  | claim | publish | resize =>
      cases h
      exact ⟨hs.nodup, hs.silent, hs.inside⟩
  | arrive r accepted =>
      have hnew : s.arrivals ∉ s.answers.map Prod.fst := fun hmem => absurd (hs.silent _ hmem).1 (lt_irrefl _)
      simp only [FrontState.step] at h
      split at h
      · cases h
        refine ⟨List.nodup_cons.mpr ⟨hnew, hs.nodup⟩, fun id hmem => ?_,
          fun id h hid => Nat.lt_succ_of_lt (hs.inside id h hid)⟩
        rcases List.mem_cons.mp hmem with rfl | hold
        · exact ⟨Nat.lt_succ_self _, fun h hid => absurd (hs.inside _ h hid) (lt_irrefl _)⟩
        · exact ⟨Nat.lt_succ_of_lt (hs.silent id hold).1, (hs.silent id hold).2⟩
      · cases h
        refine ⟨hs.nodup, fun id hmem => ?_, fun id h hid => ?_⟩
        · have hne : id ≠ s.arrivals := fun heq => hnew (heq ▸ hmem)
          refine ⟨Nat.lt_succ_of_lt (hs.silent id hmem).1, fun h hid => ?_⟩
          rw [FrontState.handlers_receive_of_ne hne] at hid
          exact (hs.silent id hmem).2 h hid
        · by_cases heq : id = s.arrivals
          · subst heq
            exact Nat.lt_succ_self _
          · rw [FrontState.handlers_receive_of_ne heq] at hid
            exact Nat.lt_succ_of_lt (hs.inside id h hid)
  | touch id t =>
      obtain ⟨h', hid, heffect⟩ := Option.bind_eq_some_iff.mp h
      obtain ⟨f, hstep, rfl⟩ := Option.map_eq_some_iff.mp heffect
      exact hs.apply hid hstep

theorem answered_boot (setupRequired : Bool) (cfg : Config) (lanes : ℕ) :
    Answered { shared := ⟨setupRequired, cfg, lanes, 0, ∅, ∅⟩ } where
  nodup := List.nodup_nil
  silent _ hmem := by cases hmem
  inside _ _ hid := by cases hid

/-- Nobody hangs up, no handler panics, and the pool keeps a lane. -/
def Calm : FrontEvent → Prop
  | .touch _ t => t ≠ .hangUp ∧ t ≠ .panic
  | .resize lanes => 1 ≤ lanes
  | _ => True

/-- Everyone who came in was answered, or has an answer to come. -/
structure Attended (s : FrontState) : Prop where
  lanes : 1 ≤ s.shared.lanes
  attended : ∀ id < s.arrivals,
    id ∈ s.answers.map Prod.fst ∨ ∃ h, s.handlers id = some h ∧ h.silent = false

/-- One step of a handler in a calm run: it goes on, or gives its answer. -/
theorem Attended.apply {id : ℕ} (hjson : ∀ v, (json.toVec v).isSome = true) (hs : Attended s)
    (ht : t ≠ .hangUp ∧ t ≠ .panic) (hid : s.handlers id = some h) (hstep : h.step json sha256Hex hash render s.shared t = some f) :
    Attended (s.apply id f) := by
  refine ⟨?_, fun id' hlt => ?_⟩
  · show 1 ≤ f.shared.lanes
    rw [(Handler.step_settings hstep).2.2]
    exact hs.lanes
  · show id' ∈ (f.answer.toList.map (fun a => (id, a)) ++ s.answers).map Prod.fst ∨ _
    rw [List.map_append, List.mem_append]
    rcases hs.attended id' hlt with hanswered | ⟨h', hh', htalks⟩
    · exact .inl (.inr hanswered)
    · by_cases heq : id' = id
      · subst heq
        obtain rfl := Option.some.inj (hid.symm.trans hh')
        rcases Handler.step_talks hjson hs.lanes ht hstep htalks with hanswer | ⟨next, hnext, hstill⟩
        · obtain ⟨a, ha⟩ := Option.isSome_iff_exists.mp hanswer
          left
          left
          simp [ha]
        · exact .inr ⟨next, by rw [FrontState.handlers_apply_self, hnext], hstill⟩
      · exact .inr ⟨h', by rw [FrontState.handlers_apply_of_ne heq, hh'], htalks⟩

theorem Attended.step (hjson : ∀ v, (json.toVec v).isSome = true) (hcalm : Calm e) (hs : Attended s)
    (h : s.step json sha256Hex hash render e = some s') : Attended s' := by
  cases e with
  | claim | publish =>
      cases h
      exact ⟨hs.lanes, hs.attended⟩
  | resize lanes =>
      cases h
      exact ⟨hcalm, hs.attended⟩
  | arrive r accepted =>
      simp only [FrontState.step] at h
      split at h
      · cases h
        refine ⟨hs.lanes, fun id hlt => ?_⟩
        rcases Nat.lt_succ_iff_lt_or_eq.mp hlt with hlt | rfl
        · rcases hs.attended id hlt with hanswered | htalks
          · exact .inl (List.mem_cons_of_mem _ hanswered)
          · exact .inr htalks
        · exact .inl List.mem_cons_self
      · cases h
        refine ⟨hs.lanes, fun id hlt => ?_⟩
        by_cases heq : id = s.arrivals
        · subst heq
          exact .inr ⟨_, FrontState.handlers_receive_self .., rfl⟩
        · rw [FrontState.handlers_receive_of_ne heq]
          exact hs.attended id (by have : id < s.arrivals + 1 := hlt; omega)
  | touch id t =>
      obtain ⟨h', hid, heffect⟩ := Option.bind_eq_some_iff.mp h
      obtain ⟨f, hstep, rfl⟩ := Option.map_eq_some_iff.mp heffect
      exact hs.apply hjson hcalm hid hstep

/-- **One answer each.**  In every reachable state no request has been answered twice.  In a run from the boot in which
nobody hangs up, no handler panics and the pool keeps a lane, and with a printer that always prints, every request that
came in has been answered, or is still inside and will be. -/
theorem one_answer_each (setupRequired : Bool) (cfg : Config) (lanes : ℕ)
    (hrun : (frontSystem json sha256Hex hash render).Run { shared := ⟨setupRequired, cfg, lanes, 0, ∅, ∅⟩ } es s) :
    (s.answers.map Prod.fst).Nodup ∧
      ((∀ v, (json.toVec v).isSome = true) → 1 ≤ lanes → (∀ e ∈ es, Calm e) → ∀ id < s.arrivals,
        id ∈ s.answers.map Prod.fst ∨ ∃ h, s.handlers id = some h ∧ h.silent = false) := by
  refine ⟨?_, fun hjson hlanes hcalm => ?_⟩
  · have hall : Answered s := hrun.preserves (I := Answered) (fun hs h => hs.step h)
      (answered_boot ..)
    exact hall.nodup
  · have hall : Attended s := hrun.preserves_of_forall (I := Attended) (C := Calm)
      (fun hcalm hs h => hs.step hjson hcalm h) hcalm ⟨hlanes, fun id hlt => absurd hlt (Nat.not_lt_zero _)⟩
    exact hall.attended

end Answers

/-- A request that is no JSON, under the same settings. -/
def plainCall : List FrontEvent :=
  [.claim, .arrive ⟨"POST", "/v1/embeddings", none, [], []⟩ firstSecond] ++
    [Touch.read, .enter, .decide, .label, .hint, .route, .finish 200, .leave].map (.touch 0)

/-- A codec that reads nothing. -/
def mute : BodyCodec JsonNumber := ⟨fun _ => none, fun _ => some []⟩

theorem one_answer_each_plain : ∃ s,
    (frontSystem mute id (fun _ => 7) fun _ => "").Run openBoot plainCall s ∧
    (s.answers.map Prod.fst).Nodup ∧
      ∀ id < s.arrivals, id ∈ s.answers.map Prod.fst ∨ ∃ h, s.handlers id = some h ∧ h.silent = false := by
  obtain ⟨s, hrun, -⟩ := @System.run_of_exec_any _ _ openBoot plainCall
    (fun s => ∃ setupRequired cfg lanes, s = { shared := ⟨setupRequired, cfg, lanes, 0, ∅, ∅⟩ })
    (FrontState.step mute id (fun _ => 7) fun _ => "") (fun s => s.answers == [(0, .relayed 200)]) (by decide +kernel)
  obtain ⟨hnodup, hall⟩ := one_answer_each true openConfig 1 hrun
  refine ⟨s, hrun, hnodup, hall (fun _ => rfl) le_rfl fun e he => ?_⟩
  cases e with
  | touch id t =>
      constructor
      · rintro rfl
        simp [plainCall] at he
      · rintro rfl
        simp [plainCall] at he
  | resize lanes => simp [plainCall] at he
  | _ => trivial

end Flock.Front
