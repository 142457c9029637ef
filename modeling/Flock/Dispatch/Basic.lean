/-
# Flock.Dispatch.Basic — the FIFO slot dispatcher.

The model of `dispatch.rs`.  Callers of `acquire` join one queue and get the receiving end of a oneshot
channel; a single task, `run`, serves the queue.  For each waiter it looks whether the receiver is gone,
reserves on the pool the handle holds at that moment, and sends the slot, gives the reservation back, or
sleeps and tries again.

Callers, the settings layer and the task run concurrently.  So the task is a program counter (`Task`), one
step for each operation that another thread can see, and a run is any interleaving of its steps with joins,
hang-ups, takes, swaps and penalties.  The clock is read at a step and never goes back; a sleep ends at its
time or later.

A waiter is named by the number of waiters that joined before it.  Three ghosts record what happened:
the reservations made and for whom, the deliveries and when, and the reservations given back.
-/
import Flock.Lib.Transition
import Flock.Pool.Generations

namespace Flock

open Lib (System)

/-- `GRANT_GAP`: the least time between two slot grants. -/
def grantGap : ℕ := millis 25

/-- `Slot`: the pool that granted it, the lane there, the key to send with.  No stamp: a slot cannot be
given back. -/
structure Slot where
  pool : ℕ
  lane : ℕ
  key : String
  deriving DecidableEq, Repr

/-- The slot of a reservation. -/
def Grant.slot (g : Grant) : Slot := ⟨g.gen, g.lane, g.key⟩

/-- `Waiter`; `id` stands for its end of the oneshot channel. -/
structure Waiter where
  id : ℕ
  deadline : ℤ
  prefer : Option ℕ
  deriving DecidableEq, Repr

/-- A waiter's oneshot channel. -/
inductive Reply where
  /-- Nothing was sent and the receiver is there. -/
  | open
  /-- The receiver was dropped before anything was sent. -/
  | closed
  /-- The sender was dropped: the caller sees an error. -/
  | refused
  /-- The slot is in the channel and the caller has not taken it. -/
  | sent (slot : Slot)
  /-- The caller has the slot. -/
  | taken (slot : Slot)
  /-- The receiver was dropped with the slot in it. -/
  | lost (slot : Slot)
  deriving DecidableEq, Repr

/-- The slot that was sent, if one was. -/
def Reply.slot? : Reply → Option Slot
  | .open => none
  | .closed => none
  | .refused => none
  | .sent slot => some slot
  | .taken slot => some slot
  | .lost slot => some slot

/-- Where `run` stands. -/
inductive Task where
  /-- `queue.recv().await` -/
  | idle
  /-- The head of the loop. -/
  | head (w : Waiter)
  /-- The receiver was not closed. -/
  | reserving (w : Waiter)
  /-- `Reservation::Ready`. -/
  | granted (w : Waiter) (g : Grant)
  /-- The send failed. -/
  | returning (id : ℕ) (g : Grant)
  /-- The send succeeded. -/
  | delivered
  /-- `sleep(GRANT_GAP)` -/
  | resting (wakeAt : ℤ)
  /-- `Reservation::Wait`. -/
  | waiting (w : Waiter) (wait : ℕ)
  /-- `sleep(wait.min(500ms))` -/
  | sleeping (w : Waiter) (wakeAt : ℤ)
  deriving DecidableEq, Repr

namespace Task

/-- The waiter that may still get a slot from the task. -/
def current : Task → List ℕ
  | .idle => []
  | .head w => [w.id]
  | .reserving w => [w.id]
  | .granted w _ => [w.id]
  | .returning _ _ => []
  | .delivered => []
  | .resting _ => []
  | .waiting w _ => [w.id]
  | .sleeping w _ => [w.id]

/-- The reservation in the hands of the task. -/
def inFlight : Task → List (ℕ × Grant)
  | .idle => []
  | .head _ => []
  | .reserving _ => []
  | .granted w g => [(w.id, g)]
  | .returning id g => [(id, g)]
  | .delivered => []
  | .resting _ => []
  | .waiting _ _ => []
  | .sleeping _ _ => []

/-- The reservation whose send failed. -/
def failed : Task → List (ℕ × Grant)
  | .idle => []
  | .head _ => []
  | .reserving _ => []
  | .granted _ _ => []
  | .returning id g => [(id, g)]
  | .delivered => []
  | .resting _ => []
  | .waiting _ _ => []
  | .sleeping _ _ => []

end Task

/-- Ghost: a send that succeeded. -/
structure Delivery where
  waiter : ℕ
  grant : Grant
  time : ℤ
  deriving DecidableEq, Repr

/-- The reservation a delivery came from. -/
def Delivery.reservation (x : Delivery) : ℕ × Grant := (x.waiter, x.grant)

/-- The dispatcher, its callers and the pool handle. -/
structure Dispatch where
  now : ℤ
  serving : Serving
  queue : List Waiter := []
  task : Task := .idle
  /-- The channel of each waiter, in the order they joined. -/
  replies : List Reply := []
  /-- Ghost: the reservations made, each with the waiter it was made for. -/
  reserved : List (ℕ × Grant) := []
  /-- Ghost: the sends that succeeded. -/
  deliveries : List Delivery := []
  /-- Ghost: the reservations given back. -/
  returned : List (ℕ × Grant) := []

/-- What happens.  `hangUp` drops a receiver: `reserve_slot` when `on_wait` says that the client is gone, a
request whose deadline passes, a client that disconnects. -/
inductive DispatchEvent where
  | acquire (deadline : ℤ) (prefer : Option ℕ)
  | hangUp (id : ℕ)
  | take (id : ℕ)
  | swap (specs : List LaneSpec) (t : ℤ)
  | penalize (gen lane : ℕ) (backoff : ℕ) (t : ℤ)
  | recv
  | check
  | reserve (t : ℤ)
  | send (t : ℤ)
  | giveBack
  | rest (t : ℤ)
  | wait (t : ℤ)
  | wake (t : ℤ)
  deriving DecidableEq, Repr

namespace Dispatch

/-- A process start: an empty queue, and a pool built from any specs. -/
def boot (specs : List LaneSpec) (t : ℤ) : Dispatch := { now := t, serving := .boot specs t }

/-- A channel changes. -/
def setReply (d : Dispatch) (id : ℕ) (reply : Reply) : Dispatch :=
  { d with replies := d.replies.set id reply }

/-- `Dispatcher::acquire`. -/
def acquire (d : Dispatch) (deadline : ℤ) (prefer : Option ℕ) : Dispatch :=
  { d with queue := d.queue ++ [⟨d.replies.length, deadline, prefer⟩]
           replies := d.replies ++ [.open] }

/-- The receiver is dropped, with what is in it. -/
def hangUp (d : Dispatch) (id : ℕ) : Option Dispatch :=
  match d.replies[id]? with
  | some .open => some (d.setReply id .closed)
  | some (.sent slot) => some (d.setReply id (.lost slot))
  | _ => none

/-- The caller takes the slot that was sent. -/
def take (d : Dispatch) (id : ℕ) : Option Dispatch :=
  match d.replies[id]? with
  | some (.sent slot) => some (d.setReply id (.taken slot))
  | _ => none

/-- `pool.reserve(waiter.prefer)` under the read guard. -/
def reserve (d : Dispatch) (w : Waiter) (t : ℤ) : Dispatch :=
  match d.serving.reserve t w.prefer with
  | (serving, .ready lane key stamp _) =>
      let g : Grant := ⟨d.serving.handle.cur, lane, key, stamp⟩
      { d with now := t, serving := serving, task := .granted w g
               reserved := d.reserved ++ [(w.id, g)] }
  | (serving, .wait soonest) => { d with now := t, serving := serving, task := .waiting w soonest }

/-- `waiter.reply.send(slot)`. -/
def send (d : Dispatch) (w : Waiter) (g : Grant) (t : ℤ) : Dispatch :=
  if d.replies[w.id]? = some .open then
    { d.setReply w.id (.sent g.slot) with
      now := t
      task := .delivered
      deliveries := d.deliveries ++ [⟨w.id, g, t⟩] }
  else { d with now := t, task := .returning w.id g }

/-- The waiter is dropped, and its end of the channel with it. -/
def refuse (d : Dispatch) (id : ℕ) : Dispatch :=
  if d.replies[id]? = some .open then d.setReply id .refused else d

/-- The branch `Reservation::Wait`. -/
def wait (d : Dispatch) (w : Waiter) (wait : ℕ) (t : ℤ) : Dispatch :=
  if t + wait > w.deadline then { d.refuse w.id with now := t, task := .idle }
  else { d with now := t, task := .sleeping w (t + min wait (millis 500)) }

/-- One step of the task. -/
def run (d : Dispatch) : Task → DispatchEvent → Option Dispatch
  | .idle, .recv =>
      match d.queue with
      | w :: rest => some { d with queue := rest, task := .head w }
      | [] => none
  | .head w, .check =>
      -- the client hung up while queued
      if d.replies[w.id]? = some .closed then some { d with task := .idle }
      else some { d with task := .reserving w }
  | .reserving w, .reserve t => if d.now ≤ t then some (d.reserve w t) else none
  | .granted w g, .send t => if d.now ≤ t then some (d.send w g t) else none
  | .returning id g, .giveBack =>
      some { d with serving := d.serving.release g, task := .idle, returned := d.returned ++ [(id, g)] }
  | .delivered, .rest t => if d.now ≤ t then some { d with now := t, task := .resting (t + grantGap) } else none
  | .waiting w wait, .wait t => if d.now ≤ t then some (d.wait w wait t) else none
  | .resting wakeAt, .wake t =>
      if d.now ≤ t ∧ wakeAt ≤ t then some { d with now := t, task := .idle } else none
  | .sleeping w wakeAt, .wake t =>
      if d.now ≤ t ∧ wakeAt ≤ t then some { d with now := t, task := .head w } else none
  | _, _ => none

/-- One event. -/
def step (d : Dispatch) : DispatchEvent → Option Dispatch
  | .acquire deadline prefer => some (d.acquire deadline prefer)
  | .hangUp id => d.hangUp id
  | .take id => d.take id
  | .swap specs t =>
      if d.now ≤ t then some { d with now := t, serving := d.serving.swap specs t } else none
  | .penalize gen lane backoff t =>
      if d.now ≤ t ∧ gen ≤ d.serving.handle.cur then
        some { d with now := t, serving := d.serving.penalize gen lane backoff t }
      else none
  | e => d.run d.task e

end Dispatch

/-- Runs of one dispatcher, from any first specs. -/
def dispatchSystem : System Dispatch DispatchEvent :=
  .ofStep (fun d => ∃ specs t, d = .boot specs t) Dispatch.step

namespace Dispatch

variable {d d' : Dispatch} {e : DispatchEvent}

/-! ## Every step, said once -/

/-- **`Moves`** — what one event does, with the guard of each branch. -/
inductive Moves (d : Dispatch) : DispatchEvent → Dispatch → Prop
  | acquire (deadline : ℤ) (prefer : Option ℕ) : Moves d (.acquire deadline prefer) (d.acquire deadline prefer)
  | leave {id : ℕ} (h : d.replies[id]? = some .open) : Moves d (.hangUp id) (d.setReply id .closed)
  | lose {id : ℕ} {slot : Slot} (h : d.replies[id]? = some (.sent slot)) :
      Moves d (.hangUp id) (d.setReply id (.lost slot))
  | take {id : ℕ} {slot : Slot} (h : d.replies[id]? = some (.sent slot)) :
      Moves d (.take id) (d.setReply id (.taken slot))
  | swap (specs : List LaneSpec) {t : ℤ} (ht : d.now ≤ t) :
      Moves d (.swap specs t) { d with now := t, serving := d.serving.swap specs t }
  | penalize {gen : ℕ} (lane backoff : ℕ) {t : ℤ} (ht : d.now ≤ t) (hgen : gen ≤ d.serving.handle.cur) :
      Moves d (.penalize gen lane backoff t)
        { d with now := t, serving := d.serving.penalize gen lane backoff t }
  | recv {w : Waiter} {rest : List Waiter} (htask : d.task = .idle) (hqueue : d.queue = w :: rest) :
      Moves d .recv { d with queue := rest, task := .head w }
  | skip {w : Waiter} (htask : d.task = .head w) (h : d.replies[w.id]? = some .closed) :
      Moves d .check { d with task := .idle }
  | check {w : Waiter} (htask : d.task = .head w) (h : d.replies[w.id]? ≠ some .closed) :
      Moves d .check { d with task := .reserving w }
  | grant {w : Waiter} {t : ℤ} {g : Grant} {p : Pool} {sticky : Bool} (htask : d.task = .reserving w)
      (ht : d.now ≤ t) (hgen : g.gen = d.serving.handle.cur)
      (h : d.serving.handle.pool.reserve t w.prefer = (p, .ready g.lane g.key g.stamp sticky)) :
      Moves d (.reserve t) { d with
        now := t
        serving := (d.serving.reserve t w.prefer).1
        task := .granted w g
        reserved := d.reserved ++ [(w.id, g)] }
  | busy {w : Waiter} {t : ℤ} {p : Pool} {soonest : ℕ} (htask : d.task = .reserving w) (ht : d.now ≤ t)
      (h : d.serving.handle.pool.reserve t w.prefer = (p, .wait soonest)) :
      Moves d (.reserve t) { d with
        now := t
        serving := (d.serving.reserve t w.prefer).1
        task := .waiting w soonest }
  | deliver {w : Waiter} {g : Grant} {t : ℤ} (htask : d.task = .granted w g) (ht : d.now ≤ t)
      (h : d.replies[w.id]? = some .open) :
      Moves d (.send t) { d.setReply w.id (.sent g.slot) with
        now := t
        task := .delivered
        deliveries := d.deliveries ++ [⟨w.id, g, t⟩] }
  | fail {w : Waiter} {g : Grant} {t : ℤ} (htask : d.task = .granted w g) (ht : d.now ≤ t)
      (h : d.replies[w.id]? ≠ some .open) :
      Moves d (.send t) { d with now := t, task := .returning w.id g }
  | giveBack {id : ℕ} {g : Grant} (htask : d.task = .returning id g) :
      Moves d .giveBack
        { d with serving := d.serving.release g, task := .idle, returned := d.returned ++ [(id, g)] }
  | rest {t : ℤ} (htask : d.task = .delivered) (ht : d.now ≤ t) :
      Moves d (.rest t) { d with now := t, task := .resting (t + grantGap) }
  | expire {w : Waiter} {wait : ℕ} {t : ℤ} (htask : d.task = .waiting w wait) (ht : d.now ≤ t)
      (h : w.deadline < t + wait) : Moves d (.wait t) { d.refuse w.id with now := t, task := .idle }
  | nap {w : Waiter} {wait : ℕ} {t : ℤ} (htask : d.task = .waiting w wait) (ht : d.now ≤ t)
      (h : t + wait ≤ w.deadline) :
      Moves d (.wait t) { d with now := t, task := .sleeping w (t + min wait (millis 500)) }
  | rested {wakeAt t : ℤ} (htask : d.task = .resting wakeAt) (ht : d.now ≤ t) (h : wakeAt ≤ t) :
      Moves d (.wake t) { d with now := t, task := .idle }
  | retry {w : Waiter} {wakeAt t : ℤ} (htask : d.task = .sleeping w wakeAt) (ht : d.now ≤ t)
      (h : wakeAt ≤ t) : Moves d (.wake t) { d with now := t, task := .head w }

theorem moves_reserve {w : Waiter} {t : ℤ} (htask : d.task = .reserving w) (ht : d.now ≤ t) :
    Moves d (.reserve t) (d.reserve w t) := by
  cases hr : d.serving.handle.pool.reserve t w.prefer with
  | mk p r =>
      have hanswer : (d.serving.reserve t w.prefer).2 = r := by simp [Serving.reserve, hr]
      have hpair : d.serving.reserve t w.prefer = ((d.serving.reserve t w.prefer).1, r) :=
        Prod.ext rfl hanswer
      rw [reserve, hpair]
      cases r with
      | ready lane key stamp sticky =>
          exact .grant (g := ⟨d.serving.handle.cur, lane, key, stamp⟩) htask ht rfl hr
      | wait soonest => exact .busy htask ht hr

theorem moves_send {w : Waiter} {g : Grant} {t : ℤ} (htask : d.task = .granted w g) (ht : d.now ≤ t) :
    Moves d (.send t) (d.send w g t) := by
  rw [send]
  split
  · rename_i h
    exact .deliver htask ht h
  · rename_i h
    exact .fail htask ht h

theorem moves_wait {w : Waiter} {wait : ℕ} {t : ℤ} (htask : d.task = .waiting w wait) (ht : d.now ≤ t) :
    Moves d (.wait t) (d.wait w wait t) := by
  rw [Dispatch.wait]
  split
  · rename_i h
    exact .expire htask ht h
  · rename_i h
    exact .nap htask ht (not_lt.mp h)

theorem moves_hangUp {id : ℕ} (h : d.hangUp id = some d') : Moves d (.hangUp id) d' := by
  rw [hangUp] at h
  split at h
  · rename_i hreply
    obtain rfl := Option.some.inj h
    exact .leave hreply
  · rename_i slot hreply
    obtain rfl := Option.some.inj h
    exact .lose hreply
  · cases h

theorem moves_take {id : ℕ} (h : d.take id = some d') : Moves d (.take id) d' := by
  rw [take] at h
  split at h
  · rename_i slot hreply
    obtain rfl := Option.some.inj h
    exact .take hreply
  · cases h

theorem moves_run (h : d.run d.task e = some d') : Moves d e d' := by
  rw [run.eq_def] at h
  -- the task takes the next waiter from its channel
  split at h
  · rename_i htask
    split at h
    · rename_i w rest hqueue
      obtain rfl := Option.some.inj h
      exact .recv htask hqueue
    · cases h
  -- it looks whether the receiver is still there, before it reserves anything
  · rename_i w htask
    split at h
    · rename_i hclosed
      obtain rfl := Option.some.inj h
      exact .skip htask hclosed
    · rename_i hclosed
      obtain rfl := Option.some.inj h
      exact .check htask hclosed
  -- it asks the pool, and sends what it was granted
  · rename_i w t htask
    obtain ⟨ht, ⟨⟩⟩ := Option.ite_none_right_eq_some.mp h
    exact moves_reserve htask ht
  · rename_i w g t htask
    obtain ⟨ht, ⟨⟩⟩ := Option.ite_none_right_eq_some.mp h
    exact moves_send htask ht
  -- a slot that could not be sent goes back, and the task pauses
  · rename_i id g htask
    obtain rfl := Option.some.inj h
    exact .giveBack htask
  · rename_i t htask
    obtain ⟨ht, ⟨⟩⟩ := Option.ite_none_right_eq_some.mp h
    exact .rest htask ht
  -- no lane was free: it waits, for a slot or for the waiter's deadline
  · rename_i w wait t htask
    obtain ⟨ht, ⟨⟩⟩ := Option.ite_none_right_eq_some.mp h
    exact moves_wait htask ht
  · rename_i wakeAt t htask
    obtain ⟨⟨ht, hwake⟩, ⟨⟩⟩ := Option.ite_none_right_eq_some.mp h
    exact .rested htask ht hwake
  · rename_i w wakeAt t htask
    obtain ⟨⟨ht, hwake⟩, ⟨⟩⟩ := Option.ite_none_right_eq_some.mp h
    exact .retry htask ht hwake
  · cases h

theorem moves_of_step (h : d.step e = some d') : Moves d e d' := by
  cases e with
  | acquire deadline prefer =>
      obtain rfl := Option.some.inj h
      exact .acquire deadline prefer
  | hangUp id => exact moves_hangUp h
  | take id => exact moves_take h
  | swap specs t =>
      obtain ⟨ht, ⟨⟩⟩ := Option.ite_none_right_eq_some.mp h
      exact .swap specs ht
  | penalize gen lane backoff t =>
      obtain ⟨⟨ht, hgen⟩, ⟨⟩⟩ := Option.ite_none_right_eq_some.mp h
      exact .penalize lane backoff ht hgen
  | recv => exact moves_run h
  | check => exact moves_run h
  | reserve t => exact moves_run h
  | send t => exact moves_run h
  | giveBack => exact moves_run h
  | rest t => exact moves_run h
  | wait t => exact moves_run h
  | wake t => exact moves_run h

end Dispatch

end Flock
