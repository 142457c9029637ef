/-
# Flock.Pool.Basic — the key pool: one lane per API key, an exact sliding window on each.

The model of `pool.rs`.  A `Pool` is a list of lanes, the enabled ones first (`active` of them), the
disabled STATE CARRIERS after; `active_le` is the field that makes `lanes[..active]` a prefix.  Every
operation takes the clock reading that the source takes with `Instant::now()`, and returns the pool
its interior mutability leaves behind.

An `Instant` is an integer (nanoseconds of the monotone clock), a `Duration` a natural.  Subtracting
instants saturates at zero in Rust, which is `Lib.age`.

A lane index out of range panics in the source (`self.lanes[lane]`).  Indexes come from reservations
of the same pool, so `release` and `penalize` are written with `List.modify`, which leaves the list
alone there; `Flock.Pool.Generations` proves that a granted index is in range.
-/
import Mathlib.Data.List.Sort
import Mathlib.Data.Prod.Lex
import Flock.Lib.SlidingWindow

namespace Flock

open Lib (age popExpired removeLast)

/-- `Duration::from_secs`. -/
def secs (n : ℕ) : ℕ := n * 1000000000

/-- `Duration::from_millis`. -/
def millis (n : ℕ) : ℕ := n * 1000000

/-- `WINDOW`: the 60 s upstream window and one second of delivery jitter. -/
def window : ℕ := secs 61

/-- A lane blueprint. Disabled specs become state carriers: held for their rate state, never
granted. -/
structure LaneSpec where
  key : String
  rpm : ℕ
  enabled : Bool
  deriving DecidableEq, Repr

/-- One key's lane: its budget, the send stamps it remembers and the end of its cooldown. -/
structure Lane where
  key : String
  rpm : ℕ
  sent : List ℤ
  cooldownUntil : ℤ
  deriving DecidableEq, Repr

/-- Enabled lanes first (indexes `0..active`, the only ones ever granted), carriers after. -/
structure Pool where
  lanes : List Lane
  active : ℕ
  active_le : active ≤ lanes.length
  deriving DecidableEq

/-- The outcome of `Pool::reserve`. -/
inductive Reservation where
  | ready (lane : ℕ) (key : String) (stamp : ℤ) (sticky : Bool)
  | wait (soonest : ℕ)
  deriving DecidableEq, Repr

namespace Lane

/-- `while sent.front().is_some_and(|t| now - *t >= WINDOW) { sent.pop_front() }` -/
def expire (now : ℤ) (l : Lane) : Lane := { l with sent := popExpired window now l.sent }

/-- When this (already expired) lane can next grant: the window's answer and the cooldown's. -/
def readyAt (now : ℤ) (l : Lane) : ℤ :=
  let windowReady : ℤ :=
    if l.sent.length < l.rpm then now
    -- `validate` forbids rpm 0; the source never indexes in here
    else if l.rpm = 0 then now + window
    else l.sent.getD (l.sent.length - l.rpm) now + window
  max windowReady l.cooldownUntil

/-- Record one send. -/
def push (now : ℤ) (l : Lane) : Lane := { l with sent := l.sent ++ [now] }

/-- Forget the last send with this stamp (`rposition` then `remove`). -/
def unsend (stamp : ℤ) (l : Lane) : Lane := { l with sent := removeLast stamp l.sent }

/-- Extend the cooldown; an earlier end never shortens it. -/
def coolUntil (until_ : ℤ) (l : Lane) : Lane :=
  { l with cooldownUntil := if l.cooldownUntil < until_ then until_ else l.cooldownUntil }

end Lane

namespace Pool

/-- The pool with lane `i` rewritten. -/
def modifyLane (p : Pool) (i : ℕ) (f : Lane → Lane) : Pool where
  lanes := p.lanes.modify i f
  active := p.active
  active_le := by simpa using p.active_le

/-- `specs.sort_by_key(|s| !s.enabled)`: a stable sort on one bit is the enabled specs in order,
then the disabled ones in order. -/
def enabledFirst (specs : List LaneSpec) : List LaneSpec :=
  specs.filter (·.enabled) ++ specs.filter (!·.enabled)

/-- The lane `assemble` builds for one spec: the window and the cooldown of the old lane with the
same key, or a fresh lane. -/
def carryLane (old : Option Pool) (now : ℤ) (s : LaneSpec) : Lane :=
  match old.bind fun o => o.lanes.find? (·.key == s.key) with
  | some prev => ⟨s.key, s.rpm, prev.sent, prev.cooldownUntil⟩
  | none => ⟨s.key, s.rpm, [], now⟩

/-- `Pool::assemble`. -/
def assemble (specs : List LaneSpec) (old : Option Pool) (now : ℤ) : Pool where
  lanes := (enabledFirst specs).map (carryLane old now)
  active := (specs.filter (·.enabled)).length
  active_le := by simp [enabledFirst]

/-- `Pool::new`. -/
def new (specs : List LaneSpec) (now : ℤ) : Pool := assemble specs none now

/-- `Pool::rebuild`: the replacement pool, with the rate state of every key kept. -/
def rebuild (p : Pool) (specs : List LaneSpec) (now : ℤ) : Pool := assemble specs (some p) now

/-- `Pool::len`: enabled lanes only. -/
def len (p : Pool) : ℕ := p.active

/-- `Pool::rpms`. -/
def rpms (p : Pool) : List ℕ := (p.lanes.take p.active).map (·.rpm)

/-- `Pool::capacity_rpm`. -/
def capacityRpm (p : Pool) : ℕ := p.rpms.sum

/-- `Pool::lane_key`. -/
def laneKey (p : Pool) (lane : ℕ) : Option String := p.lanes[lane]?.map (·.key)

/-- `Pool::try_take`: take a slot on lane `i` if it has capacity right now. -/
def tryTake (p : Pool) (i : ℕ) (now : ℤ) (sticky : Bool) : Pool × Option Reservation :=
  match p.lanes[i]? with
  | none => (p, none)
  | some lane =>
      if lane.cooldownUntil > now then (p, none)
      else if (lane.expire now).sent.length < lane.rpm then
        (p.modifyLane i fun l => (l.expire now).push now, some (.ready i lane.key now sticky))
      else (p.modifyLane i (Lane.expire now), none)

/-- What the lane scan of `reserve` accumulates: the lanes as it leaves them, the ready ones as
`(in-window load, lane)`, and the soonest wait. -/
structure Scan where
  lanes : List Lane
  ready : List (ℕ × ℕ)
  bestWait : ℕ

/-- One iteration of the scan; the index of the lane is the number of lanes already scanned. -/
def scanLane (now : ℤ) (acc : Scan) (lane : Lane) : Scan :=
  let lane := lane.expire now
  let readyAt := lane.readyAt now
  if readyAt ≤ now then
    { acc with lanes := acc.lanes ++ [lane],
               ready := acc.ready ++ [(lane.sent.length, acc.lanes.length)] }
  else
    { acc with lanes := acc.lanes ++ [lane],
               bestWait := min acc.bestWait (age readyAt now) }

/-- The scan over `self.lanes[..self.active]`. -/
def scan (p : Pool) (now : ℤ) : Scan :=
  (p.lanes.take p.active).foldl (scanLane now) ⟨[], [], window⟩

/-- The pool after the scan expired the enabled lanes. -/
def expireActive (p : Pool) (now : ℤ) : Pool where
  lanes := (p.scan now).lanes ++ p.lanes.drop p.active
  active := min p.active (p.scan now).lanes.length
  active_le := by simp only [List.length_append]; omega

/-- `ready.sort_unstable()` on `(usize, usize)`: the lexicographic order. -/
def sortReady (ready : List (ℕ × ℕ)) : List (ℕ × ℕ) :=
  ready.insertionSort fun a b => toLex a ≤ toLex b

/-- `for (_, i) in ready { if let Some(r) = self.try_take(i, now, false) { return r } }` -/
def takeFirst (p : Pool) (now : ℤ) : List (ℕ × ℕ) → Pool × Option Reservation
  | [] => (p, none)
  | (_, i) :: rest =>
      match p.tryTake i now false with
      | (p', some r) => (p', some r)
      | (p', none) => p'.takeFirst now rest

/-- `Pool::reserve`: the preferred lane if it is in range and has capacity, else the least-loaded
ready lane, else the soonest wait. -/
def reserve (p : Pool) (now : ℤ) (prefer : Option ℕ) : Pool × Reservation :=
  let (p, hit) :=
    match prefer.filter (fun i => decide (i < p.active)) with
    | some i => p.tryTake i now true
    | none => (p, none)
  match hit with
  | some r => (p, r)
  | none =>
      let s := p.scan now
      match (p.expireActive now).takeFirst now (sortReady s.ready) with
      | (p, some r) => (p, r)
      | (p, none) => (p, .wait s.bestWait)

/-- `Pool::release`: return a reserved slot that was never spent. -/
def release (p : Pool) (lane : ℕ) (stamp : ℤ) : Pool := p.modifyLane lane (Lane.unsend stamp)

/-- `Pool::penalize`: put a lane in cooldown after the upstream told us to back off. -/
def penalize (p : Pool) (lane : ℕ) (now : ℤ) (backoff : ℕ) : Pool :=
  p.modifyLane lane (Lane.coolUntil (now + backoff))

/-- Rewrite the first lane with this key (`self.lanes.iter().find(|l| l.key == key)`). -/
def modifyKey (p : Pool) (key : String) (f : Lane → Lane) : Pool :=
  match p.lanes.findIdx? (·.key == key) with
  | some i => p.modifyLane i f
  | none => p

/-- `Pool::restore_lane_window`: stamps older than the window are dropped. -/
def restoreLaneWindow (p : Pool) (key : String) (sentMs : List ℕ) (nowUnix : ℕ) (now : ℤ) :
    Pool :=
  let nowMs := nowUnix * 1000
  p.modifyKey key fun l =>
    { l with sent := l.sent ++ sentMs.filterMap fun ms =>
        let ageMs := nowMs - ms
        if millis ageMs < window then some (now - millis ageMs) else none }

/-- `Pool::restore_cooldown`: already-elapsed values are ignored. -/
def restoreCooldown (p : Pool) (key : String) (untilMs : ℕ) (nowUnix : ℕ) (now : ℤ) : Pool :=
  let nowMs := nowUnix * 1000
  if untilMs ≤ nowMs then p
  else p.modifyKey key (Lane.coolUntil (now + millis (untilMs - nowMs)))

end Pool

end Flock
