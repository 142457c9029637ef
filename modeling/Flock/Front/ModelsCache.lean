/-
# Flock.Front.ModelsCache — the cached catalogue of `/v1/models`, and the lock around its refresh.

`models` takes an async mutex, answers from the cache while it is young enough, and otherwise keeps the mutex across
the slot and the fetch.  A future that is dropped while it awaits gives the mutex back.  Only a success is stored, so
callers that queue behind a failure try again, one at a time.
-/
import Flock.Lib.Transition
import Flock.Pool.Basic
import Flock.Streaming

namespace Flock.Front

open Lib (System)

/-! ## The calls

A call stands before the lock, in the queue, or inside with the lock.  Inside it awaits the slot and the fetch, and
there it can be dropped. -/

/-- Where a call of `models` stands; `ttl` is `models_ttl` of the settings it was given. -/
inductive ModelsCall where
  /-- `models_cache.lock()` -/
  | locking (ttl : ℕ)
  /-- `reserve_slot`, with the mutex held -/
  | reserving (ttl : ℕ)
  /-- `fetch_models`, with the mutex held -/
  | fetching (ttl : ℕ)
  deriving DecidableEq

/-- What a call answers. -/
inductive ModelsAnswer where
  /-- The body that is merged, and when it was fetched. -/
  | listing (fetched : ℕ) (body : List UInt8)
  /-- A failure of the upstream, relayed; and whether the lane of the slot goes into cooldown. -/
  | failure (status : ℕ) (cooled : Bool)
  | gatewayTimeout
  deriving DecidableEq

/-- What happens to the upstream and to the cache, with the time and the `ttl` of the call it happens in. -/
inductive ModelsEntry where
  | sent (t ttl : ℕ)
  | stored (t ttl : ℕ) (body : List UInt8)
  | answered (t ttl : ℕ) (answer : ModelsAnswer)
  deriving DecidableEq

/-- The mutex and what it guards, the calls, and the log, newest first. -/
structure ModelsState where
  now : ℕ := 0
  cache : Option (ℕ × List UInt8) := none
  holder : Option ℕ := none
  calls : ℕ → Option ModelsCall := fun _ => none
  log : List ModelsEntry := []

/-- What happens to a call, and when. -/
inductive ModelsEvent where
  | tick (d : ℕ)
  | call (id ttl : ℕ)
  | lock (id : ℕ)
  | slot (id : ℕ) (granted : Bool)
  /-- the response with its body, or a connection error -/
  | response (id : ℕ) (answer : Option (ℕ × List UInt8))
  /-- the future is dropped -/
  | drop (id : ℕ)
  deriving DecidableEq

namespace ModelsState

/-- A call goes on, or is over. -/
def setCall (s : ModelsState) (id : ℕ) (c : Option ModelsCall) : ModelsState :=
  { s with calls := Function.update s.calls id c }

/-- The call returns, and the mutex is free. -/
def answer (s : ModelsState) (id ttl : ℕ) (a : ModelsAnswer) : ModelsState :=
  { s.setCall id none with holder := none, log := .answered s.now ttl a :: s.log }

/-- `models`, from one await to the next. -/
def step (s : ModelsState) : ModelsEvent → Option ModelsState
  | .tick d => some { s with now := s.now + d }
  | .call id ttl =>
      match s.calls id with
      | none => some (s.setCall id (some (.locking ttl)))
      | some _ => none
  | .lock id =>
      match s.calls id, s.holder with
      | some (.locking ttl), none =>
          match s.cache with
          | some (fetched, body) =>
              if s.now - fetched < ttl then some (s.answer id ttl (.listing fetched body))
              else some { s.setCall id (some (.reserving ttl)) with holder := some id }
          | none => some { s.setCall id (some (.reserving ttl)) with holder := some id }
      | _, _ => none
  | .slot id granted =>
      match s.calls id with
      | some (.reserving ttl) =>
          if granted then
            some { s.setCall id (some (.fetching ttl)) with log := .sent s.now ttl :: s.log }
          else some (s.answer id ttl .gatewayTimeout)
      | _ => none
  | .response id answer =>
      match s.calls id with
      | some (.fetching ttl) =>
          match answer with
          | some (status, body) =>
              if 200 ≤ status ∧ status < 300 then
                let stored :=
                  { s with cache := some (s.now, body), log := .stored s.now ttl body :: s.log }
                some (stored.answer id ttl (.listing s.now body))
              else some (s.answer id ttl (.failure status (retryable status)))
          | none => some (s.answer id ttl .gatewayTimeout)
      | _ => none
  | .drop id =>
      match s.calls id with
      | some (.locking _) => some (s.setCall id none)
      | some _ => some { s.setCall id none with holder := none }
      | none => none

end ModelsState

/-- The runs of one process. -/
def modelsSystem : System ModelsState ModelsEvent := .ofStep (fun s => ∃ now, s = { now := now }) ModelsState.step

/-! ## What holds of the log

The log has an entry for every fetch that began and for every body that was stored.  What is promised is about any two
of its entries, and about each answer and what is older. -/

/-- Of two entries, the newer first: a request goes upstream, and a body is stored, only once what was stored before
is older than the `ttl` of the call. -/
def Spaced : ModelsEntry → ModelsEntry → Prop
  | .sent t ttl, .stored t' _ _ => t' + ttl ≤ t
  | .stored t ttl _, .stored t' _ _ => t' + ttl ≤ t
  | _, _ => True

/-- A listing is a body that was stored, and was young enough or fetched by the call itself. -/
def Fresh (older : List ModelsEntry) : ModelsEntry → Prop
  | .answered t ttl (.listing fetched body) => ∃ ttl', .stored fetched ttl' body ∈ older ∧
      (t - fetched < ttl ∨ t = fetched)
  | _ => True

/-- Every answer of the log was fresh when it was given. -/
def AllFresh : List ModelsEntry → Prop
  | [] => True
  | x :: older => Fresh older x ∧ AllFresh older

/-- The `ttl` of a call that has the mutex. -/
def ModelsCall.refreshing : ModelsCall → Option ℕ
  | .locking _ => none
  | .reserving ttl | .fetching ttl => some ttl

namespace ModelsState

/-- Every body in the log is too old for this `ttl`. -/
def AllOld (s : ModelsState) (ttl : ℕ) : Prop := ∀ t ttl' body, .stored t ttl' body ∈ s.log → t + ttl ≤ s.now

/-- The invariant: the call that refreshes has the mutex and found nothing young enough, the cache is the newest stored
body, and the log is spaced and fresh. -/
structure Sound (s : ModelsState) : Prop where
  holds : ∀ id ttl, (s.calls id).bind ModelsCall.refreshing = some ttl → s.holder = some id ∧ s.AllOld ttl
  owned : ∀ id, s.holder = some id → ∃ ttl, (s.calls id).bind ModelsCall.refreshing = some ttl
  cached : ∀ t body, s.cache = some (t, body) →
    t ≤ s.now ∧ (∃ ttl, .stored t ttl body ∈ s.log) ∧ ∀ t' ttl body', .stored t' ttl body' ∈ s.log → t' ≤ t
  uncached : s.cache = none → ∀ t ttl body, .stored t ttl body ∉ s.log
  spaced : s.log.Pairwise Spaced
  fresh : AllFresh s.log

variable {s s' : ModelsState} {id ttl : ℕ} {e : ModelsEvent}

/-- Who refreshes, after one call went on. -/
theorem refreshing_setCall (s : ModelsState) (id : ℕ) (c : Option ModelsCall) (id' : ℕ) :
    ((s.setCall id c).calls id').bind ModelsCall.refreshing =
      if id' = id then c.bind ModelsCall.refreshing else (s.calls id').bind ModelsCall.refreshing := by
  show (Function.update s.calls id c id').bind ModelsCall.refreshing = _
  by_cases h : id' = id
  · subst h
    rw [Function.update_self, if_pos rfl]
  · rw [Function.update_of_ne h, if_neg h]

/-- The cache is what tells whether the log is old. -/
theorem Sound.allOld (hs : s.Sound) (h : ∀ t body, s.cache = some (t, body) → ¬ s.now - t < ttl) : s.AllOld ttl := by
  intro t ttl' body hmem
  cases hcache : s.cache with
  | none => exact absurd hmem (hs.uncached hcache t ttl' body)
  | some entry =>
      obtain ⟨hnow, -, hnewest⟩ := hs.cached entry.1 entry.2 hcache
      have hold := h entry.1 entry.2 hcache
      have hle := hnewest t ttl' body hmem
      omega

/-- A call that does not refresh comes or goes. -/
theorem Sound.setCall (hs : s.Sound) {c : Option ModelsCall} (hc : c.bind ModelsCall.refreshing = none)
    (hid : (s.calls id).bind ModelsCall.refreshing = none) : (s.setCall id c).Sound := by
  have hsame : ∀ id', ((s.setCall id c).calls id').bind ModelsCall.refreshing =
      (s.calls id').bind ModelsCall.refreshing := by
    intro id'
    rw [refreshing_setCall]
    split
    · rename_i heq
      rw [hc, heq, hid]
    · rfl
  refine ⟨fun id' ttl h => ?_, fun id' h => ?_, hs.cached, hs.uncached, hs.spaced, hs.fresh⟩
  · rw [hsame] at h
    exact hs.holds id' ttl h
  · rw [hsame]
    exact hs.owned id' h

/-- An answer is no body, so nothing is old or young because of it. -/
theorem pairwise_answered {log : List ModelsEntry} (h : log.Pairwise Spaced) (t ttl : ℕ) (a : ModelsAnswer) :
    (.answered t ttl a :: log).Pairwise Spaced := List.pairwise_cons.mpr ⟨fun x _ => by cases x <;> trivial, h⟩

/-- What was in the log stays there. -/
theorem stored_mem_cons {x : ModelsEntry} {log : List ModelsEntry} {t ttl : ℕ} {body : List UInt8}
    (hx : x ≠ .stored t ttl body) (h : .stored t ttl body ∈ x :: log) : .stored t ttl body ∈ log := by
  rcases List.mem_cons.mp h with heq | h
  · exact absurd heq.symm hx
  · exact h

/-- Nobody refreshes once the call that has the mutex is gone. -/
theorem Sound.nobody (hs : s.Sound) (hid : s.holder = none ∨ s.holder = some id) (id' : ℕ) :
    ((s.setCall id none).calls id').bind ModelsCall.refreshing = none := by
  rw [refreshing_setCall]
  split
  · rfl
  · rename_i hne
    by_contra hsome
    obtain ⟨ttl', h⟩ := Option.ne_none_iff_exists'.mp hsome
    have hholder := (hs.holds id' ttl' h).1
    rcases hid with hfree | hmine
    · rw [hfree] at hholder
      cases hholder
    · rw [hmine] at hholder
      exact hne (Option.some.inj hholder).symm

/-- A call returns, from the mutex or right after it took it. -/
theorem Sound.answer (hs : s.Sound) (hid : s.holder = none ∨ s.holder = some id) {a : ModelsAnswer}
    (hfresh : Fresh s.log (.answered s.now ttl a)) : (s.answer id ttl a).Sound := by
  refine ⟨fun id' ttl' h => ?_, fun id' h => ?_, fun t body hcache => ?_, fun hcache t ttl' body hmem => ?_,
    pairwise_answered hs.spaced _ _ _, hfresh, hs.fresh⟩
  · rw [show (s.answer id ttl a).calls = (s.setCall id none).calls from rfl, hs.nobody hid] at h
    cases h
  · cases h
  · obtain ⟨hnow, ⟨ttl', hmem⟩, hnewest⟩ := hs.cached t body hcache
    exact ⟨hnow, ⟨ttl', List.mem_cons_of_mem _ hmem⟩, fun t' ttl' body' hmem' =>
      hnewest t' ttl' body' (stored_mem_cons (by simp) hmem')⟩
  · exact hs.uncached hcache t ttl' body (stored_mem_cons (by simp) hmem)

/-- The first step of a refresh: the mutex is taken, and the cache was too old. -/
theorem Sound.take (hs : s.Sound) (hfree : s.holder = none) (hold : s.AllOld ttl) :
    ModelsState.Sound { s.setCall id (some (.reserving ttl)) with holder := some id } := by
  refine ⟨fun id' ttl' h => ?_, fun id' h => ?_, hs.cached, hs.uncached, hs.spaced, hs.fresh⟩
  · have h : ((s.setCall id (some (.reserving ttl))).calls id').bind ModelsCall.refreshing = some ttl' := h
    rw [refreshing_setCall] at h
    split at h
    · rename_i heq
      obtain rfl := Option.some.inj h
      exact ⟨congrArg some heq.symm, hold⟩
    · have hholder := (hs.holds id' ttl' h).1
      rw [hfree] at hholder
      cases hholder
  · obtain rfl := Option.some.inj h
    exact ⟨ttl, by
      show ((s.setCall id (some (.reserving ttl))).calls id).bind ModelsCall.refreshing = some ttl
      rw [refreshing_setCall, if_pos rfl]
      rfl⟩

/-- A request goes upstream. -/
theorem Sound.send (hs : s.Sound) (hid : s.calls id = some (.reserving ttl)) :
    ModelsState.Sound { s.setCall id (some (.fetching ttl)) with log := .sent s.now ttl :: s.log } := by
  have hwas : (s.calls id).bind ModelsCall.refreshing = some ttl := by rw [hid]; rfl
  have hsame : ∀ id', ((s.setCall id (some (.fetching ttl))).calls id').bind ModelsCall.refreshing =
      (s.calls id').bind ModelsCall.refreshing := by
    intro id'
    rw [refreshing_setCall]
    split
    · rename_i heq
      rw [heq, hwas]
      rfl
    · rfl
  have hbodies : ∀ t ttl' body, .stored t ttl' body ∈ ModelsEntry.sent s.now ttl :: s.log →
      .stored t ttl' body ∈ s.log := fun t ttl' body h => stored_mem_cons (by simp) h
  refine ⟨fun id' ttl' h => ?_, fun id' h => ?_, fun t body hcache => ?_, fun hcache t ttl' body hmem => ?_, ?_, ?_⟩
  · have h : ((s.setCall id (some (.fetching ttl))).calls id').bind ModelsCall.refreshing = some ttl' := h
    rw [hsame] at h
    obtain ⟨hholder, hold⟩ := hs.holds id' ttl' h
    exact ⟨hholder, fun t ttl'' body hmem => hold t ttl'' body (hbodies _ _ _ hmem)⟩
  · obtain ⟨ttl', h⟩ := hs.owned id' h
    exact ⟨ttl', (hsame id').trans h⟩
  · obtain ⟨hnow, ⟨ttl', hmem⟩, hnewest⟩ := hs.cached t body hcache
    exact ⟨hnow, ⟨ttl', List.mem_cons_of_mem _ hmem⟩, fun t' ttl' body' h => hnewest t' ttl' body' (hbodies _ _ _ h)⟩
  · exact hs.uncached hcache t ttl' body (hbodies _ _ _ hmem)
  · -- the caller holds the mutex, and took it when all that was stored had outlived its `ttl`
    refine List.pairwise_cons.mpr ⟨fun x hx => ?_, hs.spaced⟩
    cases x with
    | stored t ttl' body => exact (hs.holds id ttl hwas).2 t ttl' body hx
    | _ => trivial
  · exact ⟨trivial, hs.fresh⟩

/-- A success is stored. -/
theorem Sound.store (hs : s.Sound) (hid : s.calls id = some (.fetching ttl)) (body : List UInt8) :
    ModelsState.Sound
      { s.setCall id none with
        holder := none
        cache := some (s.now, body)
        log := .answered s.now ttl (.listing s.now body) :: .stored s.now ttl body :: s.log } := by
  obtain ⟨hholder, hold⟩ := hs.holds id ttl (by rw [hid]; rfl)
  -- what was stored before is older than the call's `ttl`, so not younger than now
  have hpast : ∀ t ttl' body', .stored t ttl' body' ∈ ModelsEntry.stored s.now ttl body :: s.log → t ≤ s.now := by
    intro t ttl' body' hmem
    rcases List.mem_cons.mp hmem with heq | hmem
    · cases heq
      exact le_rfl
    · have := hold t ttl' body' hmem
      omega
  refine ⟨fun id' ttl' h => ?_, fun id' h => ?_, fun t body' hcache => ?_, fun hcache => ?_, ?_, ?_⟩
  · have h : ((s.setCall id none).calls id').bind ModelsCall.refreshing = some ttl' := h
    rw [hs.nobody (.inr hholder)] at h
    cases h
  · cases h
  · cases hcache
    refine ⟨le_rfl, ⟨ttl, List.mem_cons_of_mem _ List.mem_cons_self⟩, fun t' ttl' body' hmem => ?_⟩
    exact hpast t' ttl' body' (stored_mem_cons (by simp) hmem)
  · cases hcache
  · refine pairwise_answered (List.pairwise_cons.mpr ⟨fun x hx => ?_, hs.spaced⟩) _ _ _
    cases x with
    | stored t ttl' body' => exact hold t ttl' body' hx
    | _ => trivial
  · exact ⟨⟨ttl, List.mem_cons_self, .inr rfl⟩, trivial, hs.fresh⟩

/-- A future that awaits is dropped. -/
theorem Sound.dropRefresh (hs : s.Sound) (hid : (s.calls id).bind ModelsCall.refreshing = some ttl) :
    ModelsState.Sound { s.setCall id none with holder := none } := by
  obtain ⟨hholder, -⟩ := hs.holds id ttl hid
  refine ⟨fun id' ttl' h => ?_, fun id' h => ?_, hs.cached, hs.uncached, hs.spaced, hs.fresh⟩
  · have h : ((s.setCall id none).calls id').bind ModelsCall.refreshing = some ttl' := h
    rw [hs.nobody (.inr hholder)] at h
    cases h
  · cases h

/-- Time passes. -/
theorem Sound.tick (hs : s.Sound) (d : ℕ) : ModelsState.Sound { s with now := s.now + d } := by
  refine ⟨fun id ttl h => ?_, hs.owned, fun t body hcache => ?_, hs.uncached, hs.spaced, hs.fresh⟩
  · obtain ⟨hholder, hold⟩ := hs.holds id ttl h
    exact ⟨hholder, fun t ttl' body hmem => (hold t ttl' body hmem).trans (Nat.le_add_right _ _)⟩
  · obtain ⟨hnow, hrest⟩ := hs.cached t body hcache
    exact ⟨hnow.trans (Nat.le_add_right _ _), hrest⟩

/-- **Every step keeps it.** -/
theorem Sound.step (hs : s.Sound) (h : s.step e = some s') : s'.Sound := by
  cases e with
  | tick d =>
      cases h
      exact hs.tick d
  | call id ttl =>
      simp only [ModelsState.step] at h
      split at h
      · rename_i hid
        cases h
        exact hs.setCall rfl (by rw [hid]; rfl)
      · cases h
  -- the one place where the cache is read: a young body is answered with, and otherwise the mutex is kept
  | lock id =>
      simp only [ModelsState.step] at h
      split at h
      · rename_i ttl hid hfree
        split at h
        · rename_i fetched body hcache
          split at h
          · rename_i hyoung
            cases h
            obtain ⟨-, ⟨ttl', hmem⟩, -⟩ := hs.cached fetched body hcache
            exact hs.answer (.inl hfree) ⟨ttl', hmem, .inl hyoung⟩
          -- what is in the cache is the newest body, and so all of them are old
          · rename_i hexpired
            cases h
            refine hs.take hfree (hs.allOld fun t body' hcache' => ?_)
            rw [hcache] at hcache'
            cases hcache'
            exact hexpired
        · rename_i hcache
          cases h
          refine hs.take hfree (hs.allOld fun t body' hcache' => ?_)
          rw [hcache] at hcache'
          cases hcache'
      · cases h
  | slot id granted =>
      simp only [ModelsState.step] at h
      split at h
      · rename_i ttl hid
        have hheld := (hs.holds id ttl (by rw [hid]; rfl)).1
        split at h
        · cases h
          exact hs.send hid
        · cases h
          exact hs.answer (.inr hheld) trivial
      · cases h
  -- a success is stored and answered with at once; a failure leaves the cache as it is
  | response id answer =>
      simp only [ModelsState.step] at h
      split at h
      · rename_i ttl hid
        have hheld := (hs.holds id ttl (by rw [hid]; rfl)).1
        split at h
        · split at h
          · cases h
            exact hs.store hid _
          · cases h
            exact hs.answer (.inr hheld) trivial
        · cases h
          exact hs.answer (.inr hheld) trivial
      · cases h
  | drop id =>
      simp only [ModelsState.step] at h
      split at h
      · rename_i ttl hid
        cases h
        exact hs.setCall rfl (by rw [hid]; rfl)
      · -- a dropped future lets go of the mutex only if it had got it
        rename_i c hlocking hid
        cases h
        cases c with
        | locking ttl => exact absurd rfl (hlocking ttl)
        | reserving ttl | fetching ttl =>
            have hrefreshing : (s.calls id).bind ModelsCall.refreshing = some ttl := by rw [hid]; rfl
            exact hs.dropRefresh hrefreshing
      · cases h

end ModelsState

/-- **One refresh at a time, and none too early.**  In every reachable state, whatever calls queue for the mutex, fail
or are dropped, at most one of them waits for a slot or for the upstream.  The log is spaced: between a stored body and
the next request to the upstream, and the next stored body, at least the `ttl` of the later call has passed.  And every
listing was stored before, and was younger than the `ttl` of the call it answers, or fetched by that call. -/
theorem models_single_flight {s : ModelsState} (h : modelsSystem.Reachable s) :
    (∀ id id' ttl ttl', (s.calls id).bind ModelsCall.refreshing = some ttl →
      (s.calls id').bind ModelsCall.refreshing = some ttl' → id = id') ∧
    (∀ id, s.holder = some id → ∃ ttl, (s.calls id).bind ModelsCall.refreshing = some ttl) ∧
    s.log.Pairwise Spaced ∧ AllFresh s.log := by
  have hs : s.Sound := by
    refine h.invariant ?_ fun hs hstep => hs.step hstep
    rintro _ ⟨now, rfl⟩
    exact ⟨fun id ttl h => (by cases h), fun id h => (by cases h), fun t body h => (by cases h),
      fun _ t ttl body h => (by cases h), .nil, trivial⟩
  refine ⟨fun id id' ttl ttl' hid hid' => ?_, hs.owned, hs.spaced, hs.fresh⟩
  have hholder := (hs.holds id ttl hid).1
  rw [(hs.holds id' ttl' hid').1] at hholder
  exact (Option.some.inj hholder).symm

/-- A fetch, two callers behind it, and a refresh once the body is too old. -/
theorem models_single_flight_refresh : ∃ s, modelsSystem.Reachable s ∧
    s.log =
      [.answered 20 10 .gatewayTimeout, .sent 20 10, .answered 5 10 (.listing 5 [1]), .answered 5 10 (.listing 5 [1]),
        .stored 5 10 [1], .sent 0 10] ∧
    (∀ id id' ttl ttl', (s.calls id).bind ModelsCall.refreshing = some ttl →
      (s.calls id').bind ModelsCall.refreshing = some ttl' → id = id') ∧
    (∀ id, s.holder = some id → ∃ ttl, (s.calls id).bind ModelsCall.refreshing = some ttl) ∧
    s.log.Pairwise Spaced ∧ AllFresh s.log := by
  obtain ⟨s, hreach, hlog⟩ := @System.reachable_of_exec _ _ {}
    [.call 0 10, .call 1 10, .lock 0, .slot 0 true, .tick 5, .response 0 (some (200, [1])), .lock 1, .tick 15,
      .call 2 10, .lock 2, .slot 2 true, .response 2 none] (fun s => ∃ now, s = { now := now }) ModelsState.step
    (fun s => s.log ==
      [.answered 20 10 .gatewayTimeout, .sent 20 10, .answered 5 10 (.listing 5 [1]),
        .answered 5 10 (.listing 5 [1]), .stored 5 10 [1], .sent 0 10]) ⟨0, rfl⟩ (by decide)
  exact ⟨s, hreach, by simpa using hlog, models_single_flight hreach⟩

end Flock.Front
