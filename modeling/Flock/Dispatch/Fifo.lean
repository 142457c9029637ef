/-
# Flock.Dispatch.Fifo — slots in the order of arrival, one each, at most one every 25 ms.

Four invariants of every interleaving, each kept by every step (`Moves`):

  * `Ordered`   who was served, who is being served and who waits form one increasing line;
  * `Spaced`    the next delivery is a `GRANT_GAP` after every delivery made;
  * `Answered`  a channel carries a slot exactly if it was delivered, and a reservation is given back only
                if its receiver is gone;
  * `Booked`    every reservation was delivered, given back, or is in the hands of the task.

The first is about who, the second about when, the third about what the waiters see, and the fourth about what the
pool loses.  They are proved apart, each from `Moves` and from what the others say of the state before the step, and
put together in `Fair`.
-/
import Flock.Dispatch.Basic

namespace Flock.Dispatch

open Lib (System)

variable {d d' : Dispatch} {e : DispatchEvent}

/-! ## The line

A waiter has a number, its place in `replies`, which grows with every `acquire`.  Order of arrival is the order of
these numbers. -/

/-- The waiters that may still get a slot. -/
def pending (d : Dispatch) : List ℕ := d.task.current ++ d.queue.map (·.id)

/-- Those who were served, and those who may be. -/
def line (d : Dispatch) : List ℕ := d.deliveries.map (·.waiter) ++ d.pending

/-- **`Ordered`** — the line is in the order of joining. -/
structure Ordered (d : Dispatch) : Prop where
  line : d.line.Pairwise (· < ·)
  joined : ∀ id ∈ d.line, id < d.replies.length

/-- Nobody enters the line but at its end. -/
theorem Ordered.of_sublist (h : Ordered d) (hline : d'.line.Sublist d.line)
    (hlength : d.replies.length ≤ d'.replies.length) : Ordered d' where
  line := h.line.sublist hline
  joined := by
    intro id hid
    have hold := h.joined id (hline.mem hid)
    omega

/-- A new waiter has a number above all that are in the line. -/
theorem Ordered.acquire (h : Ordered d) (deadline : ℤ) (prefer : Option ℕ) :
    Ordered (d.acquire deadline prefer) := by
  have hline : (d.acquire deadline prefer).line = d.line ++ [d.replies.length] := by
    simp [Dispatch.line, pending, Dispatch.acquire]
  refine ⟨?_, ?_⟩
  · rw [hline, List.pairwise_append]
    refine ⟨h.line, by simp, ?_⟩
    intro id hid new hnew
    obtain rfl := List.mem_singleton.mp hnew
    exact h.joined id hid
  · intro id hid
    rw [hline] at hid
    have hlength : (d.acquire deadline prefer).replies.length = d.replies.length + 1 := by
      simp [Dispatch.acquire]
    rcases List.mem_append.mp hid with hid | hid
    · have hold := h.joined id hid
      omega
    · have hnew := List.mem_singleton.mp hid
      omega

/-- A refusal takes no place in the line away. -/
theorem length_refuse (d : Dispatch) (id : ℕ) : (d.refuse id).replies.length = d.replies.length := by
  rw [refuse]
  split
  · simp [setReply]
  · rfl

/-- Only the channel changes. -/
theorem refuse_frame (d : Dispatch) (id : ℕ) :
    (d.refuse id).queue = d.queue ∧ (d.refuse id).deliveries = d.deliveries ∧
      (d.refuse id).reserved = d.reserved ∧ (d.refuse id).returned = d.returned ∧
      (d.refuse id).serving = d.serving := by
  rw [refuse]
  split
  · exact ⟨rfl, rfl, rfl, rfl, rfl⟩
  · exact ⟨rfl, rfl, rfl, rfl, rfl⟩

/-- Every move shortens the line from the front, or adds to its end. -/
theorem Ordered.move (h : Ordered d) (hmove : Moves d e d') : Ordered d' := by
  cases hmove with
  | acquire deadline prefer => exact h.acquire deadline prefer
  | leave => exact h.of_sublist (List.Sublist.refl _) (by simp [setReply])
  | lose => exact h.of_sublist (List.Sublist.refl _) (by simp [setReply])
  | take => exact h.of_sublist (List.Sublist.refl _) (by simp [setReply])
  | swap => exact h.of_sublist (List.Sublist.refl _) (Nat.le_refl _)
  | penalize => exact h.of_sublist (List.Sublist.refl _) (Nat.le_refl _)
  | recv htask hqueue =>
      exact h.of_sublist (by simp [Dispatch.line, pending, htask, hqueue, Task.current]) (Nat.le_refl _)
  | skip htask =>
      exact h.of_sublist (by simp [Dispatch.line, pending, htask, Task.current]) (Nat.le_refl _)
  | check htask =>
      exact h.of_sublist (by simp [Dispatch.line, pending, htask, Task.current]) (Nat.le_refl _)
  | grant htask =>
      exact h.of_sublist (by simp [Dispatch.line, pending, htask, Task.current]) (Nat.le_refl _)
  | busy htask =>
      exact h.of_sublist (by simp [Dispatch.line, pending, htask, Task.current]) (Nat.le_refl _)
  | deliver htask =>
      -- the waiter goes from the front of those who wait to the end of those who were served
      exact h.of_sublist (by simp [Dispatch.line, pending, htask, Task.current, setReply]) (by simp [setReply])
  | fail htask =>
      exact h.of_sublist (by simp [Dispatch.line, pending, htask, Task.current]) (Nat.le_refl _)
  | giveBack htask =>
      exact h.of_sublist (by simp [Dispatch.line, pending, htask, Task.current]) (Nat.le_refl _)
  | rest htask =>
      exact h.of_sublist (by simp [Dispatch.line, pending, htask, Task.current]) (Nat.le_refl _)
  | @expire w wait t htask ht hlate =>
      obtain ⟨hqueue, hdeliveries, -⟩ := d.refuse_frame w.id
      refine h.of_sublist ?_ (by simp [length_refuse])
      simp [Dispatch.line, pending, hqueue, hdeliveries, htask, Task.current]
  | nap htask =>
      exact h.of_sublist (by simp [Dispatch.line, pending, htask, Task.current]) (Nat.le_refl _)
  | rested htask =>
      exact h.of_sublist (by simp [Dispatch.line, pending, htask, Task.current]) (Nat.le_refl _)
  | retry htask =>
      exact h.of_sublist (by simp [Dispatch.line, pending, htask, Task.current]) (Nat.le_refl _)

/-! ## The gap

The task rests for a `GRANT_GAP` after each delivery, and reserves nothing while it rests.  So the earliest time of
the next delivery can be read off the state of the task. -/

/-- No delivery is made before this, given the clock. -/
def floor (now : ℤ) : Task → ℤ
  | .delivered => now + grantGap
  | .resting wakeAt => wakeAt
  | .idle => now
  | .head _ => now
  | .reserving _ => now
  | .granted _ _ => now
  | .returning _ _ => now
  | .waiting _ _ => now
  | .sleeping _ _ => now

/-- The clock goes on, and so does the floor. -/
theorem floor_mono {now t : ℤ} (ht : now ≤ t) (task : Task) : floor now task ≤ floor t task := by
  cases task with
  | delivered => exact Int.add_le_add_right ht _
  | resting wakeAt => exact Int.le_refl _
  | idle => exact ht
  | head w => exact ht
  | reserving w => exact ht
  | granted w g => exact ht
  | returning id g => exact ht
  | waiting w wait => exact ht
  | sleeping w wakeAt => exact ht

/-- **`Spaced`** — deliveries are a gap apart, and so will the next one be. -/
structure Spaced (d : Dispatch) : Prop where
  apart : d.deliveries.Pairwise fun a b : Delivery => a.time + grantGap ≤ b.time
  next : ∀ x ∈ d.deliveries, x.time + grantGap ≤ floor d.now d.task

/-- A step that delivers nothing, and brings the next delivery no nearer. -/
theorem Spaced.later (h : Spaced d) (hdeliveries : d'.deliveries = d.deliveries)
    (hfloor : floor d.now d.task ≤ floor d'.now d'.task) : Spaced d' where
  apart := by
    rw [hdeliveries]
    exact h.apart
  next := by
    intro x hx
    rw [hdeliveries] at hx
    exact (h.next x hx).trans hfloor

/-- A step of the task that is neither a send nor a rest: its clock is the floor. -/
theorem Spaced.onward (h : Spaced d) (hdeliveries : d'.deliveries = d.deliveries)
    (hfloor : floor d.now d.task = d.now) (ht : d.now ≤ d'.now) (hfloor' : floor d'.now d'.task = d'.now) :
    Spaced d' := by
  refine h.later hdeliveries ?_
  rw [hfloor, hfloor']
  exact ht

/-- A delivery at `t` is a gap behind the last one, and puts the next one a gap behind itself. -/
theorem Spaced.deliver (h : Spaced d) {w : Waiter} {g : Grant} {t : ℤ} (htask : d.task = .granted w g)
    (ht : d.now ≤ t) (hdeliveries : d'.deliveries = d.deliveries ++ [⟨w.id, g, t⟩]) (hnow : d'.now = t)
    (htask' : d'.task = .delivered) : Spaced d' := by
  have hbefore : ∀ x ∈ d.deliveries, x.time + grantGap ≤ t := by
    intro x hx
    have hnext := h.next x hx
    rw [htask] at hnext
    exact hnext.trans ht
  refine ⟨?_, ?_⟩
  · rw [hdeliveries, List.pairwise_append]
    refine ⟨h.apart, by simp, ?_⟩
    intro x hx y hy
    obtain rfl := List.mem_singleton.mp hy
    exact hbefore x hx
  · intro x hx
    rw [hdeliveries] at hx
    rw [hnow, htask']
    show x.time + grantGap ≤ t + grantGap
    rcases List.mem_append.mp hx with hx | hx
    · have hold := hbefore x hx
      omega
    · obtain rfl := List.mem_singleton.mp hx
      exact Int.le_refl _

/-- Every move delivers nothing, or is this delivery. -/
theorem Spaced.move (h : Spaced d) (hmove : Moves d e d') : Spaced d' := by
  cases hmove with
  | acquire => exact h.later rfl (Int.le_refl _)
  | leave => exact h.later rfl (Int.le_refl _)
  | lose => exact h.later rfl (Int.le_refl _)
  | take => exact h.later rfl (Int.le_refl _)
  | swap specs ht => exact h.later rfl (floor_mono ht _)
  | penalize lane backoff ht => exact h.later rfl (floor_mono ht _)
  | recv htask => exact h.onward rfl (by rw [htask]; rfl) (Int.le_refl _) rfl
  | skip htask => exact h.onward rfl (by rw [htask]; rfl) (Int.le_refl _) rfl
  | check htask => exact h.onward rfl (by rw [htask]; rfl) (Int.le_refl _) rfl
  | grant htask ht => exact h.onward rfl (by rw [htask]; rfl) ht rfl
  | busy htask ht => exact h.onward rfl (by rw [htask]; rfl) ht rfl
  | deliver htask ht => exact h.deliver htask ht rfl rfl rfl
  | fail htask ht => exact h.onward rfl (by rw [htask]; rfl) ht rfl
  | giveBack htask => exact h.onward rfl (by rw [htask]; rfl) (Int.le_refl _) rfl
  | rest htask ht =>
      refine h.later rfl ?_
      rw [htask]
      exact Int.add_le_add_right ht _
  | @expire w wait t htask ht hlate =>
      exact h.onward (d.refuse_frame w.id).2.1 (by rw [htask]; rfl) ht rfl
  | nap htask ht => exact h.onward rfl (by rw [htask]; rfl) ht rfl
  | rested htask ht hwake =>
      refine h.later rfl ?_
      rw [htask]
      exact hwake
  | retry htask ht => exact h.onward rfl (by rw [htask]; rfl) ht rfl

/-! ## The books

A slot is reserved in the pool before it is sent.  If the send fails it has to go back, or a lane is lost for a
minute. -/

/-- **`Booked`** — every reservation was delivered, was given back, or is in the hands of the task. -/
structure Booked (d : Dispatch) : Prop where
  reserved : d.reserved.Perm (d.deliveries.map Delivery.reservation ++ d.returned ++ d.task.inFlight)

/-- A step that makes, delivers and returns nothing. -/
theorem Booked.quiet (h : Booked d) (hreserved : d'.reserved = d.reserved)
    (hdeliveries : d'.deliveries = d.deliveries) (hreturned : d'.returned = d.returned)
    (hflight : d'.task.inFlight = d.task.inFlight) : Booked d' where
  reserved := by
    rw [hreserved, hdeliveries, hreturned, hflight]
    exact h.reserved

/-- A reservation is made, and is in the hands of the task. -/
theorem Booked.grant (h : Booked d) {w : Waiter} {t : ℤ} {g : Grant} (htask : d.task = .reserving w) :
    Booked { d with
      now := t
      serving := (d.serving.reserve t w.prefer).1
      task := .granted w g
      reserved := d.reserved ++ [(w.id, g)] } where
  reserved := by
    have hold := h.reserved
    rw [htask] at hold
    have hold' : d.reserved.Perm (d.deliveries.map Delivery.reservation ++ d.returned) := by
      simpa [Task.inFlight] using hold
    exact hold'.append_right [(w.id, g)]

/-- A delivery takes it out of the hands of the task. -/
theorem Booked.deliver (h : Booked d) {w : Waiter} {g : Grant} {t : ℤ} (htask : d.task = .granted w g) :
    Booked { d.setReply w.id (.sent g.slot) with
      now := t
      task := .delivered
      deliveries := d.deliveries ++ [⟨w.id, g, t⟩] } where
  reserved := by
    have hold := h.reserved
    rw [htask] at hold
    have hmoved : (d.deliveries.map Delivery.reservation ++ d.returned ++ [(w.id, g)]).Perm
        (d.deliveries.map Delivery.reservation ++ [(w.id, g)] ++ d.returned) := by
      rw [List.append_assoc, List.append_assoc]
      exact List.perm_append_comm.append_left _
    simpa [Delivery.reservation, Task.inFlight, setReply] using hold.trans hmoved

theorem Booked.giveBack (h : Booked d) {id : ℕ} {g : Grant} (htask : d.task = .returning id g) :
    Booked { d with
      serving := d.serving.release g
      task := .idle
      returned := d.returned ++ [(id, g)] } where
  reserved := by
    have hold := h.reserved
    rw [htask] at hold
    simpa [Task.inFlight] using hold

/-- Every move does one of these to the books, or nothing. -/
theorem Booked.move (h : Booked d) (hmove : Moves d e d') : Booked d' := by
  cases hmove with
  | acquire => exact h.quiet rfl rfl rfl rfl
  | leave => exact h.quiet rfl rfl rfl rfl
  | lose => exact h.quiet rfl rfl rfl rfl
  | take => exact h.quiet rfl rfl rfl rfl
  | swap => exact h.quiet rfl rfl rfl rfl
  | penalize => exact h.quiet rfl rfl rfl rfl
  | recv htask => exact h.quiet rfl rfl rfl (by rw [htask]; rfl)
  | skip htask => exact h.quiet rfl rfl rfl (by rw [htask]; rfl)
  | check htask => exact h.quiet rfl rfl rfl (by rw [htask]; rfl)
  | grant htask => exact h.grant htask
  | busy htask => exact h.quiet rfl rfl rfl (by rw [htask]; rfl)
  | deliver htask => exact h.deliver htask
  | fail htask => exact h.quiet rfl rfl rfl (by rw [htask]; rfl)
  | giveBack htask => exact h.giveBack htask
  | rest htask => exact h.quiet rfl rfl rfl (by rw [htask]; rfl)
  | @expire w wait t htask =>
      obtain ⟨-, hdeliveries, hreserved, hreturned, -⟩ := d.refuse_frame w.id
      exact h.quiet hreserved hdeliveries hreturned (by rw [htask]; rfl)
  | nap htask => exact h.quiet rfl rfl rfl (by rw [htask]; rfl)
  | rested htask => exact h.quiet rfl rfl rfl (by rw [htask]; rfl)
  | retry htask => exact h.quiet rfl rfl rfl (by rw [htask]; rfl)

/-! ## The channels

Each waiter has a channel of its own for one slot.  The task looks whether it is open before it sends, and the
receiver may be dropped at any time. -/

/-- The slot that was sent to a waiter. -/
def slotOf (d : Dispatch) (id : ℕ) : Option Slot := d.replies[id]?.bind Reply.slot?

/-- An update of one channel leaves the others as they are. -/
theorem getElem_setReply {id : ℕ} {old : Reply} (hold : d.replies[id]? = some old) (reply : Reply) (j : ℕ) :
    (d.setReply id reply).replies[j]? = if j = id then some reply else d.replies[j]? := by
  obtain ⟨hlt, -⟩ := List.getElem?_eq_some_iff.mp hold
  rw [setReply, List.getElem?_set]
  by_cases hj : j = id
  · rw [if_pos hj, if_pos hj.symm, if_pos hlt]
  · rw [if_neg hj, if_neg (Ne.symm hj)]

/-- A channel that carries the same slot as before makes no difference to who has one. -/
theorem slotOf_setReply {id : ℕ} {old : Reply} (hold : d.replies[id]? = some old) {reply : Reply}
    (hslot : reply.slot? = old.slot?) (j : ℕ) : (d.setReply id reply).slotOf j = d.slotOf j := by
  rw [slotOf, slotOf, getElem_setReply hold]
  by_cases hj : j = id
  · rw [if_pos hj, hj, hold]
    exact hslot
  · rw [if_neg hj]

/-- **`Answered`** — a channel carries a slot exactly if it was delivered; who may still get one has an
untouched channel; and what was given back was for a receiver that is gone. -/
structure Answered (d : Dispatch) : Prop where
  delivered : ∀ id slot, d.slotOf id = some slot ↔
    ∃ x ∈ d.deliveries, x.waiter = id ∧ x.grant.slot = slot
  pending : ∀ id ∈ d.pending, d.replies[id]? = some .open ∨ d.replies[id]? = some .closed
  gone : ∀ x ∈ d.returned ++ d.task.failed, d.replies[x.1]? = some .closed

/-- A step that touches no channel. -/
theorem Answered.quiet (h : Answered d) (hreplies : d'.replies = d.replies)
    (hdeliveries : d'.deliveries = d.deliveries) (hpending : ∀ id ∈ d'.pending, id ∈ d.pending)
    (hgone : ∀ x ∈ d'.returned ++ d'.task.failed, x ∈ d.returned ++ d.task.failed) : Answered d' where
  delivered := by
    intro id slot
    rw [slotOf, hreplies, hdeliveries]
    exact h.delivered id slot
  pending := by
    intro id hid
    rw [hreplies]
    exact h.pending id (hpending id hid)
  gone := by
    intro x hx
    rw [hreplies]
    exact h.gone x (hgone x hx)

/-- A new waiter has an untouched channel. -/
theorem Answered.acquire (h : Answered d) (deadline : ℤ) (prefer : Option ℕ) :
    Answered (d.acquire deadline prefer) := by
  have hold : ∀ {id : ℕ} {reply : Reply}, d.replies[id]? = some reply →
      (d.acquire deadline prefer).replies[id]? = some reply := by
    intro id reply hid
    obtain ⟨hlt, -⟩ := List.getElem?_eq_some_iff.mp hid
    exact (List.getElem?_append_left hlt).trans hid
  have hnew : (d.acquire deadline prefer).replies[d.replies.length]? = some .open := by
    simp [Dispatch.acquire]
  refine ⟨?_, ?_, ?_⟩
  · intro id slot
    rw [show (d.acquire deadline prefer).deliveries = d.deliveries from rfl, ← h.delivered id slot]
    rcases Nat.lt_trichotomy id d.replies.length with hlt | rfl | hgt
    · rw [slotOf, slotOf, Dispatch.acquire, List.getElem?_append_left hlt]
    · -- a new channel carries nothing, and nothing was delivered to it
      rw [slotOf, hnew, slotOf, List.getElem?_eq_none (Nat.le_refl _)]
      rfl
    · have hlength : (d.acquire deadline prefer).replies.length ≤ id := by
        simp [Dispatch.acquire]
        omega
      rw [slotOf, slotOf, List.getElem?_eq_none hlength, List.getElem?_eq_none (Nat.le_of_lt hgt)]
  · intro id hid
    have hsplit : id ∈ d.pending ∨ id = d.replies.length := by
      simpa [Dispatch.pending, Dispatch.acquire, or_assoc] using hid
    rcases hsplit with hid | rfl
    · exact (h.pending id hid).imp hold hold
    · exact .inl hnew
  · intro x hx
    exact hold (h.gone x hx)

/-- A receiver that is dropped before anything was sent. -/
theorem Answered.leave (h : Answered d) {id : ℕ} (hopen : d.replies[id]? = some .open) :
    Answered (d.setReply id .closed) where
  delivered := by
    intro j slot
    have hslot : Reply.closed.slot? = Reply.open.slot? := rfl
    rw [slotOf_setReply hopen hslot]
    exact h.delivered j slot
  pending := by
    intro j hj
    rw [getElem_setReply hopen]
    split
    · exact .inr rfl
    · exact h.pending j hj
  gone := by
    intro x hx
    rw [getElem_setReply hopen]
    split
    · rfl
    · exact h.gone x hx

/-- A slot that was sent leaves the channel, whichever way. -/
theorem Answered.received (h : Answered d) {id : ℕ} {slot : Slot} (hsent : d.replies[id]? = some (.sent slot))
    {reply : Reply} (hslot : reply.slot? = some slot) : Answered (d.setReply id reply) where
  delivered := by
    intro j slot'
    rw [slotOf_setReply hsent hslot]
    exact h.delivered j slot'
  pending := by
    intro j hj
    have hold := h.pending j hj
    rw [getElem_setReply hsent]
    split
    · rename_i heq
      rw [heq, hsent] at hold
      simp at hold
    · exact hold
  gone := by
    intro x hx
    have hold := h.gone x hx
    rw [getElem_setReply hsent]
    split
    · rename_i heq
      rw [heq, hsent] at hold
      simp at hold
    · exact hold

/-- Who waits in the queue joined after the waiter that is served. -/
theorem Ordered.queue_ne (h : Ordered d) {w : Waiter} (hcurrent : d.task.current = [w.id]) :
    ∀ id ∈ d.queue.map (·.id), id ≠ w.id := by
  have hpending : (w.id :: d.queue.map (·.id)).Pairwise (· < ·) := by
    have hpairs := (List.pairwise_append.mp h.line).2.1
    rw [Dispatch.pending, hcurrent] at hpairs
    exact hpairs
  intro id hid
  exact Nat.ne_of_gt ((List.pairwise_cons.mp hpending).1 id hid)

/-- A delivery puts the slot into the channel of the waiter that is served, which nobody has touched, as the line
says. -/
theorem Answered.deliver (h : Answered d) (hline : Ordered d) {w : Waiter} {g : Grant} {t : ℤ}
    (htask : d.task = .granted w g) (hopen : d.replies[w.id]? = some .open) :
    Answered { d.setReply w.id (.sent g.slot) with
      now := t
      task := .delivered
      deliveries := d.deliveries ++ [⟨w.id, g, t⟩] } := by
  -- the waiter has had no delivery, since its reply is open
  have hbefore : ¬∃ x ∈ d.deliveries, x.waiter = w.id := by
    rintro ⟨x, hx, hid⟩
    have hslot := (h.delivered w.id x.grant.slot).mpr ⟨x, hx, hid, rfl⟩
    rw [slotOf, hopen] at hslot
    cases hslot
  -- and it is not in the queue any more
  have hbehind : ∀ id ∈ d.queue.map (·.id), id ≠ w.id := hline.queue_ne (by rw [htask]; rfl)
  refine ⟨?_, ?_, ?_⟩
  -- who has a slot had it before, or is this waiter
  · intro id slot
    show (d.setReply w.id (.sent g.slot)).slotOf id = some slot ↔
      ∃ x ∈ d.deliveries ++ [⟨w.id, g, t⟩], x.waiter = id ∧ x.grant.slot = slot
    rw [slotOf, getElem_setReply hopen]
    by_cases hid : id = w.id
    · subst hid
      rw [if_pos rfl]
      constructor
      · intro hslot
        exact ⟨⟨w.id, g, t⟩, by simp, rfl, Option.some.inj hslot⟩
      · rintro ⟨x, hx, hwaiter, rfl⟩
        rcases List.mem_append.mp hx with hx | hx
        · exact absurd ⟨x, hx, hwaiter⟩ hbefore
        · obtain rfl := List.mem_singleton.mp hx
          rfl
    · rw [if_neg hid]
      refine (h.delivered id slot).trans ?_
      constructor
      · rintro ⟨x, hx, hwaiter, hslot⟩
        exact ⟨x, List.mem_append_left _ hx, hwaiter, hslot⟩
      · rintro ⟨x, hx, hwaiter, hslot⟩
        rcases List.mem_append.mp hx with hx | hx
        · exact ⟨x, hx, hwaiter, hslot⟩
        · obtain rfl := List.mem_singleton.mp hx
          exact absurd hwaiter.symm hid
  -- whoever waits has not been answered
  · intro id hid
    have hqueued : id ∈ d.queue.map (·.id) := hid
    show (d.setReply w.id (.sent g.slot)).replies[id]? = some .open ∨
      (d.setReply w.id (.sent g.slot)).replies[id]? = some .closed
    rw [getElem_setReply hopen, if_neg (hbehind id hqueued)]
    exact h.pending id (List.mem_append_right _ hqueued)
  -- and a slot that was given back belongs to a receiver that had hung up
  · intro x hx
    have hold : d.replies[x.1]? = some .closed := by
      refine h.gone x ?_
      rw [htask]
      exact hx
    show (d.setReply w.id (.sent g.slot)).replies[x.1]? = some .closed
    have hne : x.1 ≠ w.id := by
      intro heq
      rw [heq, hopen] at hold
      simp at hold
    rw [getElem_setReply hopen, if_neg hne]
    exact hold

/-- A waiter that cannot be served before its deadline. -/
theorem Answered.expire (h : Answered d) (hline : Ordered d) {w : Waiter} {wait : ℕ} {t : ℤ}
    (htask : d.task = .waiting w wait) : Answered { d.refuse w.id with now := t, task := .idle } := by
  obtain ⟨hqueue, hdeliveries, -, hreturned, -⟩ := d.refuse_frame w.id
  have hpending : ∀ id ∈ ({ d.refuse w.id with now := t, task := .idle } : Dispatch).pending,
      id ∈ d.queue.map (·.id) := by
    intro id hid
    rw [← hqueue]
    exact hid
  have hgone : ∀ x ∈ (d.refuse w.id).returned ++ Task.idle.failed, d.replies[x.1]? = some .closed := by
    intro x hx
    refine h.gone x ?_
    rw [htask, ← hreturned]
    exact hx
  -- the waiter is told that its time is over, unless it has hung up before
  by_cases hopen : d.replies[w.id]? = some .open
  · have hrefuse : d.refuse w.id = d.setReply w.id .refused := if_pos hopen
    have hslot : Reply.refused.slot? = Reply.open.slot? := rfl
    refine ⟨?_, ?_, ?_⟩
    · intro id slot
      show (d.refuse w.id).slotOf id = some slot ↔ _
      rw [hrefuse, slotOf_setReply hopen hslot]
      exact h.delivered id slot
    · intro id hid
      have hqueued := hpending id hid
      show (d.refuse w.id).replies[id]? = some .open ∨ (d.refuse w.id).replies[id]? = some .closed
      rw [hrefuse, getElem_setReply hopen, if_neg (hline.queue_ne (by rw [htask]; rfl) id hqueued)]
      exact h.pending id (List.mem_append_right _ hqueued)
    · intro x hx
      have hold := hgone x hx
      show (d.refuse w.id).replies[x.1]? = some .closed
      have hne : x.1 ≠ w.id := by
        intro heq
        rw [heq, hopen] at hold
        simp at hold
      rw [hrefuse, getElem_setReply hopen, if_neg hne]
      exact hold
  -- then there is nobody to tell, and nothing changes
  · have hrefuse : d.refuse w.id = d := if_neg hopen
    rw [hrefuse] at hpending hgone ⊢
    refine h.quiet rfl rfl ?_ ?_
    · intro id hid
      exact List.mem_append_right _ (hpending id hid)
    · intro x hx
      rw [htask]
      exact hx

/-- Every move, by what it does to the channels. -/
theorem Answered.move (h : Answered d) (hline : Ordered d) (hmove : Moves d e d') : Answered d' := by
  cases hmove with
  | acquire deadline prefer => exact h.acquire deadline prefer
  | leave hopen => exact h.leave hopen
  | lose hsent => exact h.received hsent rfl
  | take hsent => exact h.received hsent rfl
  -- these leave the waiters and their replies alone
  | swap => exact h.quiet rfl rfl (fun _ hid => hid) fun _ hx => hx
  | penalize => exact h.quiet rfl rfl (fun _ hid => hid) fun _ hx => hx
  | recv htask hqueue =>
      exact h.quiet rfl rfl (by simp [Dispatch.pending, htask, hqueue, Task.current])
        (by simp [htask, Task.failed])
  | skip htask =>
      exact h.quiet rfl rfl (by simp +contextual [Dispatch.pending, htask, Task.current])
        (by simp [htask, Task.failed])
  | check htask =>
      exact h.quiet rfl rfl (by simp [Dispatch.pending, htask, Task.current]) (by simp [htask, Task.failed])
  | grant htask =>
      exact h.quiet rfl rfl (by simp [Dispatch.pending, htask, Task.current]) (by simp [htask, Task.failed])
  | busy htask =>
      exact h.quiet rfl rfl (by simp [Dispatch.pending, htask, Task.current]) (by simp [htask, Task.failed])
  | deliver htask ht hopen => exact h.deliver hline htask hopen
  | @fail w g t htask ht hopen =>
      -- a send that fails finds the receiver gone, and what was granted goes on the list of returns
      have hclosed : d.replies[w.id]? = some .closed := by
        have hw : w.id ∈ d.pending := by simp [Dispatch.pending, htask, Task.current]
        exact (h.pending w.id hw).resolve_left hopen
      refine ⟨h.delivered, ?_, ?_⟩
      · intro id hid
        exact h.pending id (List.mem_append_right _ hid)
      · intro x hx
        rcases List.mem_append.mp hx with hx | hx
        · exact h.gone x (List.mem_append_left _ hx)
        · obtain rfl := List.mem_singleton.mp hx
          exact hclosed
  | giveBack htask =>
      exact h.quiet rfl rfl (by simp [Dispatch.pending, htask, Task.current]) (by simp [htask, Task.failed])
  | rest htask =>
      exact h.quiet rfl rfl (by simp [Dispatch.pending, htask, Task.current]) (by simp [htask, Task.failed])
  | expire htask => exact h.expire hline htask
  | nap htask =>
      exact h.quiet rfl rfl (by simp [Dispatch.pending, htask, Task.current]) (by simp [htask, Task.failed])
  | rested htask =>
      exact h.quiet rfl rfl (by simp [Dispatch.pending, htask, Task.current]) (by simp [htask, Task.failed])
  | retry htask =>
      exact h.quiet rfl rfl (by simp [Dispatch.pending, htask, Task.current]) (by simp [htask, Task.failed])

/-! ## Every run -/

/-- The four invariants together. -/
structure Fair (d : Dispatch) : Prop extends Ordered d, Spaced d, Booked d, Answered d

theorem fair_boot (specs : List LaneSpec) (t : ℤ) : Fair (boot specs t) where
  line := by simp [Dispatch.line, Dispatch.pending, boot, Task.current]
  joined := by simp [Dispatch.line, Dispatch.pending, boot, Task.current]
  apart := by simp [boot]
  next := by simp [boot]
  reserved := by simp [boot, Task.inFlight]
  delivered := by simp [slotOf, boot]
  pending := by simp [Dispatch.pending, boot, Task.current]
  gone := by simp [boot, Task.failed]

/-- A step is a `Moves`, and each of the four invariants is kept by it. -/
theorem Fair.step (h : Fair d) (hstep : dispatchSystem.step d e d') : Fair d' := by
  have hmove := moves_of_step hstep
  exact { toOrdered := h.toOrdered.move hmove
          toSpaced := h.toSpaced.move hmove
          toBooked := h.toBooked.move hmove
          toAnswered := h.toAnswered.move h.toOrdered hmove }

/-- Every run from a boot is fair. -/
theorem fair_of_run {d₀ : Dispatch} {es : List DispatchEvent} (h₀ : dispatchSystem.init d₀)
    (hrun : dispatchSystem.Run d₀ es d) : Fair d := by
  obtain ⟨specs, t, rfl⟩ := h₀
  exact hrun.preserves Fair.step (fair_boot specs t)

/-! ## FIFO -/

/-- The event makes this reservation: the generation that is current then grants the lane and the key. -/
def Reserves (d : Dispatch) (e : DispatchEvent) (_ : Dispatch) (x : ℕ × Grant) : Prop :=
  ∃ w t p sticky, e = .reserve t ∧ d.task = .reserving w ∧ w.id = x.1 ∧ x.2.gen = d.serving.handle.cur ∧
    d.serving.handle.pool.reserve t w.prefer = (p, .ready x.2.lane x.2.key x.2.stamp sticky)

/-- The event gives this reservation back, to the generation that made it. -/
def GivesBack (d : Dispatch) (e : DispatchEvent) (d' : Dispatch) (x : ℕ × Grant) : Prop :=
  e = .giveBack ∧ d.task = .returning x.1 x.2 ∧
    d'.serving.handle = d.serving.handle.setGen x.2.gen
      ((d.serving.handle.gens x.2.gen).release x.2.lane x.2.stamp)

/-- What is among the reservations was put there by an event. -/
theorem mem_reserved (hstep : dispatchSystem.step d e d') (x : ℕ × Grant) (hx : x ∈ d'.reserved) :
    x ∈ d.reserved ∨ Reserves d e d' x := by
  cases moves_of_step hstep with
  | @grant w t g p sticky htask ht hgen hready =>
      rcases List.mem_append.mp hx with hx | hx
      · exact .inl hx
      · obtain rfl := List.mem_singleton.mp hx
        exact .inr ⟨w, t, p, sticky, rfl, htask, rfl, hgen, hready⟩
  | @expire w =>
      refine .inl ?_
      rw [← (d.refuse_frame w.id).2.2.1]
      exact hx
  | _ => exact .inl hx

/-- What is among the returned ones was given back by an event. -/
theorem mem_returned (hstep : dispatchSystem.step d e d') (x : ℕ × Grant) (hx : x ∈ d'.returned) :
    x ∈ d.returned ∨ GivesBack d e d' x := by
  cases moves_of_step hstep with
  | @giveBack id g htask =>
      rcases List.mem_append.mp hx with hx | hx
      · exact .inl hx
      · obtain rfl := List.mem_singleton.mp hx
        exact .inr ⟨rfl, htask, rfl⟩
  | @expire w =>
      refine .inl ?_
      rw [← (d.refuse_frame w.id).2.2.2.1]
      exact hx
  | _ => exact .inl hx

/-- **FIFO dispatch.** In every interleaving: deliveries are in the order of joining and a `GRANT_GAP` apart; a
waiter gets a slot exactly if one was delivered to it, and so at most one; every reservation was delivered,
was given back, or is in the hands of the task, and no two of these; every reservation was made by the
generation it names, which was current then; and one that is given back goes to that generation, because its
receiver is gone. -/
theorem deliveries_fifo {d₀ : Dispatch} {es : List DispatchEvent} (h₀ : dispatchSystem.init d₀)
    (hrun : dispatchSystem.Run d₀ es d) :
    (d.deliveries.map (·.waiter)).Pairwise (· < ·) ∧
    (d.deliveries.Pairwise fun a b : Delivery => a.time + grantGap ≤ b.time) ∧
    (∀ id slot, d.slotOf id = some slot ↔ ∃ x ∈ d.deliveries, x.waiter = id ∧ x.grant.slot = slot) ∧
    d.reserved.Perm (d.deliveries.map Delivery.reservation ++ d.returned ++ d.task.inFlight) ∧
    (∀ x ∈ d.reserved, ∃ es₁ e es₂ m m', es = es₁ ++ e :: es₂ ∧ dispatchSystem.Run d₀ es₁ m ∧
      dispatchSystem.step m e m' ∧ Reserves m e m' x) ∧
    ∀ x ∈ d.returned, d.replies[x.1]? = some .closed ∧
      ∃ es₁ e es₂ m m', es = es₁ ++ e :: es₂ ∧ dispatchSystem.Run d₀ es₁ m ∧
        dispatchSystem.step m e m' ∧ GivesBack m e m' x := by
  have hfair := fair_of_run h₀ hrun
  obtain ⟨specs, t, rfl⟩ := h₀
  refine ⟨(List.pairwise_append.mp hfair.line).1, hfair.apart, hfair.delivered, hfair.reserved, ?_, ?_⟩
  · intro x hx
    refine (hrun.mem_log mem_reserved hx).resolve_left ?_
    simp [boot]
  · intro x hx
    refine ⟨hfair.gone x (List.mem_append_left _ hx), ?_⟩
    refine (hrun.mem_log mem_returned hx).resolve_left ?_
    simp [boot]

/-- Two waiters; the first hangs up when its slot is reserved, and the second is served. -/
def abandonedThenServed : List DispatchEvent :=
  [.acquire (secs 60) none, .acquire (secs 60) none, .recv, .check, .reserve 1, .hangUp 0, .send 2, .giveBack,
    .recv, .check, .reserve 3, .send 4, .rest 5, .take 1, .wake (millis 26)]

theorem deliveries_fifo_abandoned :
    ∃ d, dispatchSystem.Run (boot [⟨"k", 1, true⟩] 0) abandonedThenServed d ∧
      d.deliveries = [⟨1, ⟨0, 0, "k", 3⟩, 4⟩] ∧ d.returned = [(0, ⟨0, 0, "k", 1⟩)] ∧
      d.reserved.Perm (d.deliveries.map Delivery.reservation ++ d.returned ++ d.task.inFlight) := by
  have hexec : (System.exec step (boot [⟨"k", 1, true⟩] 0) abandonedThenServed).any
      (fun d => d.deliveries = [⟨1, ⟨0, 0, "k", 3⟩, 4⟩] ∧ d.returned = [(0, ⟨0, 0, "k", 1⟩)]) = true := by
    decide +kernel
  obtain ⟨d, hrun, hd⟩ := System.run_of_exec_any hexec
  obtain ⟨hdeliveries, hreturned⟩ := of_decide_eq_true hd
  obtain ⟨-, -, -, hbooked, -⟩ := deliveries_fifo ⟨[⟨"k", 1, true⟩], 0, rfl⟩ hrun
  exact ⟨d, hrun, hdeliveries, hreturned, hbooked⟩

end Flock.Dispatch
