/-
# Flock.Dispatch.Leak — where a reservation can be lost.

`acquire` says that a slot granted to an abandoned waiter is returned to the pool.  The task does so when the
receiver is gone before the send.  After a send that succeeds nobody does: the slot has no stamp and no
destructor, so a receiver that is dropped before its caller takes the slot takes the reservation with it.

That hang-up is the only leak.  A run keeps every reservation exactly if no step of it drops a receiver with
a slot in it.
-/
import Flock.Dispatch.Fifo

namespace Flock.Dispatch

open Lib (System)

variable {d d' : Dispatch} {e : DispatchEvent}

/-- **The promise.** Every reservation was given back or taken by a caller, or is on its way: in the hands of
the task, or in a channel whose receiver is there. -/
def Settled (d : Dispatch) : Prop :=
  ∀ x ∈ d.reserved, x ∈ d.returned ∨ d.replies[x.1]? = some (.taken x.2.slot) ∨ x ∈ d.task.inFlight ∨
    d.replies[x.1]? = some (.sent x.2.slot)

/-- It is asked of every waiter that there is. -/
instance : DecidablePred Settled := fun d =>
  inferInstanceAs (Decidable (∀ x ∈ d.reserved, x ∈ d.returned ∨ d.replies[x.1]? = some (.taken x.2.slot) ∨
    x ∈ d.task.inFlight ∨ d.replies[x.1]? = some (.sent x.2.slot)))

/-- **The condition.** The step does not drop a receiver with a slot in it. -/
def HandsOver (d : Dispatch) (e : DispatchEvent) : Prop :=
  ∀ (id : ℕ) (slot : Slot), e = .hangUp id → d.replies[id]? ≠ some (.sent slot)

/-- No receiver was dropped with a slot in it. -/
def NoneLost (d : Dispatch) : Prop := ∀ (id : ℕ) (slot : Slot), d.replies[id]? ≠ some (.lost slot)

/-! ## One step

Of the events, one can lose a reservation; for each of the others the reservations of before are those of after. -/

/-- A channel that changes, before and after without a lost slot. -/
theorem noneLost_setReply {id : ℕ} {old reply : Reply} (hold : d.replies[id]? = some old)
    (hbefore : ∀ slot, old ≠ .lost slot) (hafter : ∀ slot, reply ≠ .lost slot) :
    NoneLost (d.setReply id reply) ↔ NoneLost d := by
  constructor
  · intro h j slot hlost
    refine h j slot ?_
    rw [getElem_setReply hold, if_neg]
    · exact hlost
    · rintro rfl
      rw [hold] at hlost
      exact hbefore slot (Option.some.inj hlost)
  · intro h j slot hlost
    rw [getElem_setReply hold] at hlost
    split at hlost
    · exact hafter slot (Option.some.inj hlost)
    · exact h j slot hlost

theorem noneLost_acquire (deadline : ℤ) (prefer : Option ℕ) :
    NoneLost (d.acquire deadline prefer) ↔ NoneLost d := by
  constructor
  · intro h id slot hlost
    obtain ⟨hlt, -⟩ := List.getElem?_eq_some_iff.mp hlost
    exact h id slot ((List.getElem?_append_left hlt).trans hlost)
  · intro h id slot hlost
    rw [Dispatch.acquire, List.getElem?_append] at hlost
    split at hlost
    · exact h id slot hlost
    · have hmem := List.mem_of_getElem? hlost
      simp at hmem

/-- A waiter that is refused has none. -/
theorem noneLost_refuse (id : ℕ) : NoneLost (d.refuse id) ↔ NoneLost d := by
  rw [refuse]
  split
  · rename_i hopen
    exact noneLost_setReply hopen (by simp) (by simp)
  · exact Iff.rfl

/-- **One step** loses a reservation exactly if it drops a receiver with a slot in it. -/
theorem noneLost_step (hstep : dispatchSystem.step d e d') : NoneLost d' ↔ NoneLost d ∧ HandsOver d e := by
  -- an event that is no hang-up meets the condition, and leaves what was lost lost
  have hother : (∀ id, e ≠ .hangUp id) → (NoneLost d' ↔ NoneLost d) →
      (NoneLost d' ↔ NoneLost d ∧ HandsOver d e) := by
    intro hne hiff
    have hover : HandsOver d e := fun id _ heq => absurd heq (hne id)
    exact hiff.trans (and_iff_left hover).symm
  cases moves_of_step hstep with
  | acquire deadline prefer => exact hother (by simp) (noneLost_acquire deadline prefer)
  | @leave id hopen =>
      have hover : HandsOver d (.hangUp id) := by
        rintro id slot ⟨⟩ hsent
        rw [hopen] at hsent
        cases hsent
      exact (noneLost_setReply hopen (by simp) (by simp)).trans (and_iff_left hover).symm
  | @lose id slot hsent =>
      refine iff_of_false ?_ ?_
      · intro h
        refine h id slot ?_
        rw [getElem_setReply hsent, if_pos rfl]
      · rintro ⟨-, hover⟩
        exact hover id slot rfl hsent
  | take hsent => exact hother (by simp) (noneLost_setReply hsent (by simp) (by simp))
  | @deliver w g t htask ht hopen =>
      have hiff : NoneLost (d.setReply w.id (.sent g.slot)) ↔ NoneLost d :=
        noneLost_setReply hopen (by simp) (by simp)
      exact hother (by simp) hiff
  | @expire w wait t =>
      have hiff : NoneLost (d.refuse w.id) ↔ NoneLost d := noneLost_refuse w.id
      exact hother (by simp) hiff
  | _ => exact hother (by simp) Iff.rfl

/-! ## Every state of a run

A lost reservation is never found again, so it is enough to look at each step. -/

/-- A delivered slot is in its channel, with its caller, or lost. -/
theorem Answered.delivered_cases (h : Answered d) {x : Delivery} (hx : x ∈ d.deliveries) :
    d.replies[x.waiter]? = some (.sent x.grant.slot) ∨ d.replies[x.waiter]? = some (.taken x.grant.slot) ∨
      d.replies[x.waiter]? = some (.lost x.grant.slot) := by
  have hslot := (h.delivered x.waiter x.grant.slot).mpr ⟨x, hx, rfl, rfl⟩
  obtain ⟨reply, hreply, hslot⟩ := Option.bind_eq_some_iff.mp hslot
  rw [hreply]
  cases reply with
  | «open» => cases hslot
  | closed => cases hslot
  | refused => cases hslot
  | sent slot =>
      obtain rfl := Option.some.inj hslot
      exact .inl rfl
  | taken slot =>
      obtain rfl := Option.some.inj hslot
      exact .inr (.inl rfl)
  | lost slot =>
      obtain rfl := Option.some.inj hslot
      exact .inr (.inr rfl)

/-- The task holds reservations for channels that carry nothing. -/
theorem Fair.slotOf_inFlight (h : Fair d) {x : ℕ × Grant} (hx : x ∈ d.task.inFlight) :
    d.slotOf x.1 = none := by
  have hreply : d.replies[x.1]? = some .open ∨ d.replies[x.1]? = some .closed := by
    cases htask : d.task with
    | granted w g =>
        rw [htask] at hx
        obtain rfl := List.mem_singleton.mp hx
        exact h.pending w.id (by simp [Dispatch.pending, htask, Task.current])
    | returning id g =>
        rw [htask] at hx
        obtain rfl := List.mem_singleton.mp hx
        exact .inr (h.gone (id, g) (by simp [htask, Task.failed]))
    | idle => simp [htask, Task.inFlight] at hx
    | head w => simp [htask, Task.inFlight] at hx
    | reserving w => simp [htask, Task.inFlight] at hx
    | delivered => simp [htask, Task.inFlight] at hx
    | resting wakeAt => simp [htask, Task.inFlight] at hx
    | waiting w wait => simp [htask, Task.inFlight] at hx
    | sleeping w wakeAt => simp [htask, Task.inFlight] at hx
  rcases hreply with hreply | hreply
  · rw [slotOf, hreply]
    rfl
  · rw [slotOf, hreply]
    rfl

/-- **The promise is broken by a lost slot, and by nothing else.** -/
theorem Fair.settled_iff (h : Fair d) : Settled d ↔ NoneLost d := by
  constructor
  · intro hsettled id slot hlost
    have hslot : d.slotOf id = some slot := by
      rw [slotOf, hlost]
      rfl
    obtain ⟨x, hx, rfl, rfl⟩ := (h.delivered id slot).mp hslot
    have hreserved : x.reservation ∈ d.reserved := by
      refine h.reserved.mem_iff.mpr ?_
      simp only [List.mem_append]
      exact .inl (.inl (List.mem_map_of_mem hx))
    rcases hsettled _ hreserved with hback | htaken | hflight | hsent
    · have hgone := h.gone _ (List.mem_append_left _ hback)
      have heq := hlost.symm.trans hgone
      simp at heq
    · have heq := hlost.symm.trans htaken
      simp at heq
    · have hnone := h.slotOf_inFlight hflight
      have heq := hslot.symm.trans hnone
      simp at heq
    · have heq := hlost.symm.trans hsent
      simp at heq
  · intro hnone x hx
    have hplace := h.reserved.mem_iff.mp hx
    simp only [List.mem_append] at hplace
    rcases hplace with (hdelivered | hback) | hflight
    · obtain ⟨y, hy, rfl⟩ := List.mem_map.mp hdelivered
      rcases h.delivered_cases hy with hsent | htaken | hlost
      · exact .inr (.inr (.inr hsent))
      · exact .inr (.inl htaken)
      · exact absurd hlost (hnone _ _)
    · exact .inl hback
    · exact .inr (.inr (.inl hflight))

/-- **No reservation is lost, exactly in the runs that drop no receiver with a slot in it.** -/
theorem settled_iff_handsOver {d₀ : Dispatch} {es : List DispatchEvent} (h₀ : dispatchSystem.init d₀)
    (hrun : dispatchSystem.Run d₀ es d) :
    Settled d ↔ (dispatchSystem.restrict HandsOver).Run d₀ es d := by
  have hfair := fair_of_run h₀ hrun
  have hfirst : NoneLost d₀ := by
    obtain ⟨specs, t, rfl⟩ := h₀
    intro id slot hlost
    simp [boot] at hlost
  exact hfair.settled_iff.trans (hrun.restrict_iff noneLost_step hfirst)

/-- A receiver dropped before the send, and a slot that is taken: nothing is lost. -/
theorem settled_iff_handsOver_abandoned :
    ∃ d, dispatchSystem.Run (boot [⟨"k", 1, true⟩] 0) abandonedThenServed d ∧ Settled d ∧
      (dispatchSystem.restrict HandsOver).Run (boot [⟨"k", 1, true⟩] 0) abandonedThenServed d := by
  have hexec : (System.exec step (boot [⟨"k", 1, true⟩] 0) abandonedThenServed).any
      (fun d => decide (Settled d)) = true := by
    decide +kernel
  obtain ⟨d, hrun, hd⟩ := System.run_of_exec_any hexec
  have hsettled : Settled d := of_decide_eq_true hd
  exact ⟨d, hrun, hsettled, (settled_iff_handsOver ⟨[⟨"k", 1, true⟩], 0, rfl⟩ hrun).mp hsettled⟩

/-- One waiter, whose receiver is dropped between the send and the moment its caller would take the slot. -/
def droppedAfterSend : List DispatchEvent :=
  [.acquire (secs 60) none, .recv, .check, .reserve 1, .send 2, .hangUp 0, .rest 3, .wake (millis 26)]

/-- Nobody waits, nothing is on its way, nobody has the slot, and the pool still counts it: the key cannot be
used for another minute. -/
theorem dropped_after_send_leaks :
    ∃ d, dispatchSystem.Run (boot [⟨"k", 1, true⟩] 0) droppedAfterSend d ∧ d.task = .idle ∧ d.queue = [] ∧
      d.replies = [.lost ⟨0, 0, "k"⟩] ∧ d.reserved = [(0, ⟨0, 0, "k", 1⟩)] ∧ d.returned = [] ∧
      d.serving.live = [⟨0, 0, "k", 1⟩] ∧
      (d.serving.handle.pool.reserve (millis 26) none).2 = .wait 60974000001 ∧ ¬Settled d := by
  have hexec : (System.exec step (boot [⟨"k", 1, true⟩] 0) droppedAfterSend).any
      (fun d => d.task = .idle ∧ d.queue = [] ∧ d.replies = [.lost ⟨0, 0, "k"⟩] ∧
        d.reserved = [(0, ⟨0, 0, "k", 1⟩)] ∧ d.returned = [] ∧ d.serving.live = [⟨0, 0, "k", 1⟩] ∧
        (d.serving.handle.pool.reserve (millis 26) none).2 = .wait 60974000001 ∧ ¬Settled d) = true := by
    decide +kernel
  obtain ⟨d, hrun, hd⟩ := System.run_of_exec_any hexec
  exact ⟨d, hrun, of_decide_eq_true hd⟩

end Flock.Dispatch
