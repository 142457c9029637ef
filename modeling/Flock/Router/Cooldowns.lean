/-
# Flock.Router.Cooldowns — what the state database remembers of a back-off.

`finish_failure` writes a back-off twice: to the lane, which keeps the latest end it was ever given, and to the
queue of the writer, which replaces the row of the key by every new one.  So a short back-off after a long one
leaves a row that ends before the lane's cooldown does, and a restart forgets the rest (`back_off_kept_iff`).

    memory     penalize                 max(cooldown_until, now + backoff)
    table      apply_op(Cooldown)       until_unix_ms = excluded.until_unix_ms

The monotone clock and the wall clock advance alike: a call reads both at one moment, and `origin` is the reading of
the first at the epoch of the second.  Three machine limits are kept: the sum of an `Instant` and a back-off panics
outside its range, the unix milliseconds are an `u64`, and the column is an `i64`.
-/
import Flock.Health.Persist
import Flock.Pool.Restart
import Flock.Router.Outcomes

namespace Flock

/-! ## The calls and the table -/

/-- A call of `finish_failure`: the attempt it ends, what is known of the failure, and the wall clock, in nanoseconds.
`retryAfterSecs` is the header, which is parsed as whole seconds. -/
structure FailureCall where
  acq : Acquired
  status : ℕ
  workerExhausted : Bool
  retryAfterSecs : Option ℕ
  wall : ℕ

namespace FailureCall

/-- The monotone clock at the moment of the call. -/
def now (origin : ℤ) (c : FailureCall) : ℤ := origin + c.wall

/-- The wall clock in whole seconds. -/
def nowUnix (c : FailureCall) : ℕ := unixNow c.wall

def outcome (origin : ℤ) (c : FailureCall) : UpstreamOutcome where
  status := c.status
  workerExhausted := c.workerExhausted
  retryAfter := c.retryAfterSecs.map secs
  latencyMs := 0
  now := c.now origin
  nowUnix := c.nowUnix

/-- `Instant::now() + backoff` is an `Instant`; its seconds are an `i64`. -/
def Fits (origin : ℤ) (c : FailureCall) (backoff : ℕ) : Prop := c.now origin + backoff < 2 ^ 63 * secs 1

instance (origin : ℤ) (c : FailureCall) (backoff : ℕ) : Decidable (c.Fits origin backoff) :=
  inferInstanceAs (Decidable (c.now origin + backoff < 2 ^ 63 * secs 1))

/-- The back-off that the call writes, if it writes one. -/
def backoff (origin : ℤ) (c : FailureCall) : Option ℕ :=
  (Routed.cooldownFor c.status c.workerExhausted (c.retryAfterSecs.map secs)).filter fun b => decide (c.Fits origin b)

/-- The call is about the lane of a slot. -/
def OfSlot (acq : Acquired) (c : FailureCall) : Prop :=
  c.acq.provider = acq.provider ∧ c.acq.slotPool = acq.slotPool ∧ c.acq.slotGen = acq.slotGen ∧
    c.acq.slotLane = acq.slotLane

end FailureCall

/-- `PersistOp::Cooldown`. -/
structure CooldownOp where
  provider : String
  key : String
  untilUnixMs : ℕ
  deriving DecidableEq

/-- `now_unix * 1000 + backoff.as_millis() as u64`, in a release build. -/
def untilUnixMs (nowUnix backoff : ℕ) : ℕ := (nowUnix * 1000 + asMillis backoff % 2 ^ 64) % 2 ^ 64

/-- The table `cooldowns`: by provider and key, `until_unix_ms`. -/
def CooldownTable : Type := String × String → Option ℤ

/-- `apply_op` of a `Cooldown`. -/
def CooldownTable.applyOp (db : CooldownTable) (op : CooldownOp) : CooldownTable :=
  Function.update db (op.provider, op.key) (some (asI64 op.untilUnixMs))

/-- `writer_loop`, on what is queued. -/
def CooldownTable.write (db : CooldownTable) (queue : List CooldownOp) : CooldownTable :=
  queue.foldl CooldownTable.applyOp db

/-- The lane of a slot. -/
def Routed.lane (r : Routed) (acq : Acquired) : Option Lane :=
  ((r.router.pools acq.slotPool).gens acq.slotGen).lanes[acq.slotLane]?

/-- `slot.pool.lane_key(slot.lane).unwrap_or_default()`. -/
def Routed.laneKey (r : Routed) (acq : Acquired) : String :=
  (((r.router.pools acq.slotPool).gens acq.slotGen).laneKey acq.slotLane).getD ""

/-- The router, with the channel to the writer. -/
structure PersistedRouted where
  routed : Routed
  /-- Oldest first. -/
  queue : List CooldownOp := []

namespace PersistedRouted

/-- `finish_failure`, with what it sends.  Where `penalize` panics, the marks are made and nothing else. -/
def finishFailure (origin : ℤ) (s : PersistedRouted) (c : FailureCall) : PersistedRouted :=
  match s.routed.router.runtimes c.acq.provider with
  | none => s
  | some a =>
      match Routed.cooldownFor c.status c.workerExhausted (c.retryAfterSecs.map secs) with
      | none => { s with routed := s.routed.finishFailure c.acq (c.outcome origin) }
      | some backoff =>
          if c.Fits origin backoff then
            { routed := s.routed.finishFailure c.acq (c.outcome origin)
              queue := s.queue ++
                [⟨c.acq.provider, s.routed.laneKey c.acq, untilUnixMs c.nowUnix backoff⟩] }
          else if providerFailed c.status then
            { s with routed := s.routed.mark c.acq.provider a true (c.outcome origin) }
          else s

/-- A sequence of calls. -/
def run (origin : ℤ) (s : PersistedRouted) (calls : List FailureCall) : PersistedRouted :=
  calls.foldl (finishFailure origin) s

end PersistedRouted

/-! ## One call -/

namespace Routed

variable {r : Routed} {acq acq' : Acquired} {o : UpstreamOutcome} {a : ℕ}

theorem lane_congr (h : acq'.slotPool = acq.slotPool ∧ acq'.slotGen = acq.slotGen ∧ acq'.slotLane = acq.slotLane) :
    r.lane acq' = r.lane acq := by
  unfold lane
  rw [h.1, h.2.1, h.2.2]

theorem laneKey_of_lane {l : Lane} (h : r.lane acq = some l) : r.laneKey acq = l.key := by
  have hlane : ((r.router.pools acq.slotPool).gens acq.slotGen).lanes[acq.slotLane]? = some l := h
  unfold laneKey Pool.laneKey
  rw [hlane]
  rfl

/-- A back-off on the lane of the slot. -/
theorem lane_cool (r : Routed) (acq : Acquired) (backoff : ℕ) (now : ℤ) :
    (r.cool acq backoff now).lane acq = (r.lane acq).map (Lane.coolUntil (now + backoff)) := by
  unfold lane cool Fleet.setHandle
  simp only [Function.update_self, PoolHandle.setGen_gens]
  exact (Pool.modifyLane_get _ _ _ _).trans (by simp)

/-- What a failure does to the lane and the registry. -/
theorem finishFailure_lane (hreg : r.router.runtimes acq.provider = some a) (o : UpstreamOutcome) :
    (r.finishFailure acq o).router.runtimes = r.router.runtimes ∧
    (r.finishFailure acq o).lane acq =
      (match cooldownFor o.status o.workerExhausted o.retryAfter with
        | some backoff => (r.lane acq).map (Lane.coolUntil (o.now + backoff))
        | none => r.lane acq) := by
  unfold finishFailure
  rw [hreg]
  dsimp only
  cases hcool : cooldownFor o.status o.workerExhausted o.retryAfter with
  | none =>
      dsimp only
      split <;> split <;> exact ⟨rfl, rfl⟩
  | some backoff =>
      dsimp only
      split <;> split <;> exact ⟨rfl, lane_cool _ acq backoff o.now⟩

end Routed

namespace FailureCall

/-- The back-offs that a sequence of calls writes, each with its call. -/
def written (origin : ℤ) (calls : List FailureCall) : List (FailureCall × ℕ) :=
  calls.filterMap fun c => (c.backoff origin).map fun b => (c, b)

/-- A back-off is a whole number of seconds. -/
theorem backoff_secs {origin : ℤ} {c : FailureCall} {b : ℕ} (h : c.backoff origin = some b) : ∃ n, b = secs n := by
  obtain ⟨hcool, -⟩ := Option.filter_eq_some_iff.mp h
  unfold Routed.cooldownFor at hcool
  split at hcool
  · cases hcool
  · split at hcool
    · exact ⟨5, (Option.some.inj hcool).symm⟩
    · split at hcool
      · cases hafter : c.retryAfterSecs with
        | none =>
            rw [hafter] at hcool
            exact ⟨10, (Option.some.inj hcool).symm⟩
        | some n =>
            rw [hafter] at hcool
            exact ⟨n, (Option.some.inj hcool).symm⟩
      · cases hcool

end FailureCall

namespace PersistedRouted

variable {origin : ℤ} {s : PersistedRouted} {acq : Acquired} {l : Lane} {a : ℕ} {c : FailureCall}
  {calls : List FailureCall}

/-- The operation of a back-off on the lane of a slot. -/
def opOf (acq : Acquired) (l : Lane) (x : FailureCall × ℕ) : CooldownOp :=
  ⟨acq.provider, l.key, untilUnixMs x.1.nowUnix x.2⟩

/-- A back-off on a lane. -/
def coolBy (origin : ℤ) (l : Lane) (x : FailureCall × ℕ) : Lane := l.coolUntil (x.1.now origin + x.2)

theorem key_foldl_coolBy (origin : ℤ) (xs : List (FailureCall × ℕ)) (l : Lane) :
    (xs.foldl (coolBy origin) l).key = l.key := by
  induction xs generalizing l with
  | nil => rfl
  | cons x xs ih => exact ih (coolBy origin l x)

/-- The lane keeps the latest end. -/
theorem foldl_coolBy_le_iff (origin : ℤ) (xs : List (FailureCall × ℕ)) (l : Lane) (u : ℤ) :
    (xs.foldl (coolBy origin) l).cooldownUntil ≤ u ↔
      l.cooldownUntil ≤ u ∧ ∀ x ∈ xs, x.1.now origin + x.2 ≤ u := by
  induction xs generalizing l with
  | nil => simp
  | cons x xs ih =>
      have hcool : (coolBy origin l x).cooldownUntil ≤ u ↔
          l.cooldownUntil ≤ u ∧ x.1.now origin + x.2 ≤ u := by
        simp only [coolBy, Lane.coolUntil]
        split <;> omega
      rw [List.foldl_cons, ih, hcool, List.forall_mem_cons, and_assoc]

/-- **One call, said once**: the back-off it writes goes to the lane and to the queue. -/
theorem finishFailure_spec (hreg : s.routed.router.runtimes acq.provider = some a) (hlane : s.routed.lane acq = some l)
    (hslot : c.OfSlot acq) :
    (s.finishFailure origin c).routed.router.runtimes = s.routed.router.runtimes ∧
    (s.finishFailure origin c).routed.lane acq = some ((FailureCall.written origin [c]).foldl (coolBy origin) l) ∧
    (s.finishFailure origin c).queue = s.queue ++ (FailureCall.written origin [c]).map (opOf acq l) := by
  -- the slot lies where the call says, so what it does to that lane is what it does to this one
  obtain ⟨hprovider, hplace⟩ := hslot
  have hreg' : s.routed.router.runtimes c.acq.provider = some a := by
    rw [hprovider]
    exact hreg
  have hlane' : s.routed.lane c.acq = some l := (Routed.lane_congr hplace).trans hlane
  obtain ⟨hruntimes, hcool⟩ := Routed.finishFailure_lane hreg' (c.outcome origin)
  rw [Routed.lane_congr hplace, hlane'] at hcool
  unfold finishFailure FailureCall.written FailureCall.backoff
  rw [hreg']
  dsimp only
  cases hwait : Routed.cooldownFor c.status c.workerExhausted (c.retryAfterSecs.map secs) with
  | none =>
      have hnone : Routed.cooldownFor (c.outcome origin).status (c.outcome origin).workerExhausted
          (c.outcome origin).retryAfter = none := hwait
      rw [hnone] at hcool
      simp only [hwait, Option.filter_none, Option.map_none, List.filterMap_cons, List.filterMap_nil, List.foldl_nil,
        List.map_nil, List.append_nil, and_true]
      exact ⟨hruntimes, hcool⟩
  | some b =>
      have hsome : Routed.cooldownFor (c.outcome origin).status (c.outcome origin).workerExhausted
          (c.outcome origin).retryAfter = some b := hwait
      rw [hsome] at hcool
      dsimp only
      by_cases hfits : c.Fits origin b
      -- the backoff can be added to the clock: the lane is cooled and the row is queued
      · have hkey := Routed.laneKey_of_lane hlane'
        rw [if_pos hfits]
        simp only [hwait, Option.filter_some, hfits, decide_true, if_true, Option.map_some, List.filterMap_cons,
          List.filterMap_nil, List.foldl_cons, List.foldl_nil, List.map_cons, List.map_nil]
        refine ⟨hruntimes, hcool, ?_⟩
        rw [hkey, hprovider]
        rfl
      · -- `penalize` panics after the marks, which touch no pool
        rw [if_neg hfits]
        simp only [hwait, Option.filter_some, hfits, decide_false, Bool.false_eq_true, if_false, Option.map_none,
          List.filterMap_cons, List.filterMap_nil, List.foldl_nil, List.map_nil, List.append_nil]
        split
        · exact ⟨rfl, hlane, rfl⟩
        · exact ⟨rfl, hlane, rfl⟩

/-- **A sequence of calls**: its back-offs, in order, in the lane and in the queue. -/
theorem run_spec (hreg : s.routed.router.runtimes acq.provider = some a) (hlane : s.routed.lane acq = some l)
    (hslot : ∀ c ∈ calls, c.OfSlot acq) :
    (s.run origin calls).routed.router.runtimes = s.routed.router.runtimes ∧
    (s.run origin calls).routed.lane acq = some ((FailureCall.written origin calls).foldl (coolBy origin) l) ∧
    (s.run origin calls).queue = s.queue ++ (FailureCall.written origin calls).map (opOf acq l) := by
  induction calls using List.reverseRecOn with
  | nil => exact ⟨rfl, hlane, (List.append_nil _).symm⟩
  | append_singleton calls c ih =>
      obtain ⟨hruntimes, hcooled, hqueue⟩ := ih fun x hx => hslot x (List.mem_append_left _ hx)
      have hrun : s.run origin (calls ++ [c]) = (s.run origin calls).finishFailure origin c := by
        simp [run]
      have hwritten : FailureCall.written origin (calls ++ [c]) =
          FailureCall.written origin calls ++ FailureCall.written origin [c] := List.filterMap_append
      obtain ⟨hruntimes', hcooled', hqueue'⟩ :=
        @finishFailure_spec origin _ acq _ a c (by rw [hruntimes]; exact hreg) hcooled (hslot c (by simp))
      have hkey : opOf acq ((FailureCall.written origin calls).foldl (coolBy origin) l) = opOf acq l := by
        funext x
        unfold opOf
        rw [key_foldl_coolBy]
      rw [hrun, hwritten, List.foldl_append, List.map_append]
      refine ⟨hruntimes'.trans hruntimes, hcooled', ?_⟩
      rw [hqueue', hqueue, hkey, List.append_assoc]

/-- The row of the key is what the last back-off wrote. -/
theorem write_concat (db : CooldownTable) (xs : List (FailureCall × ℕ)) (x : FailureCall × ℕ) :
    db.write ((xs ++ [x]).map (opOf acq l)) (acq.provider, l.key) = some (asI64 (untilUnixMs x.1.nowUnix x.2)) := by
  unfold CooldownTable.write
  rw [List.map_append, List.foldl_append]
  exact Function.update_self _ _ _

/-- **A row remembers a cooldown** up to a second: it ends no more than a second before the lane's does. -/
def Remembered (origin until_ : ℤ) (row : Option ℤ) : Prop :=
  ∃ ms, row = some ms ∧ until_ - origin ≤ ms * millis 1 + secs 1

/-- What is left, at a call, of the second that `unix_now` read. -/
def restOfSecond (c : FailureCall) : ℤ := (c.nowUnix + 1) * secs 1 - c.wall

/-- A column that wrapped remembers nothing; one that did not ends with the back-off, less the part of the second
that had passed. -/
theorem remembered_column {u : ℤ} {c : FailureCall} {n : ℕ} (hlater : c.now origin + secs n ≤ u) :
    u - origin ≤ asI64 (untilUnixMs c.nowUnix (secs n)) * millis 1 + secs 1 ↔
      c.nowUnix * 1000 + asMillis (secs n) < 2 ^ 63 ∧ u ≤ c.now origin + secs n + restOfSecond c := by
  have hcolumn : ∀ x : ℕ, (x < 2 ^ 63 ∧ asI64 x = x) ∨ (2 ^ 63 ≤ x ∧ asI64 x = x - 2 ^ 64) := by
    intro x
    unfold asI64
    split <;> omega
  have hsum : untilUnixMs c.nowUnix (secs n) = (c.nowUnix * 1000 + n * 1000 % 2 ^ 64) % 2 ^ 64 := by
    unfold untilUnixMs asMillis secs millis
    omega
  have hmillis : asMillis (secs n) = n * 1000 := by
    unfold asMillis secs millis
    omega
  have hunix : c.nowUnix * 1000000000 ≤ c.wall ∧ c.wall < (c.nowUnix + 1) * 1000000000 := by
    unfold FailureCall.nowUnix unixNow secs
    omega
  rw [hmillis]
  have hcases := hcolumn (untilUnixMs c.nowUnix (secs n))
  rw [hsum] at hcases ⊢
  generalize asI64 _ = column at hcases ⊢
  simp only [restOfSecond, FailureCall.now, secs, millis] at *
  omega

/-- The property: if a sequence of calls wrote a back-off, then, when the writer has applied all that is queued, the
row of the key remembers the cooldown of the lane. -/
def BackOffKept (origin : ℤ) (s : PersistedRouted) (acq : Acquired) (l : Lane) (db : CooldownTable)
    (calls : List FailureCall) : Prop :=
  FailureCall.written origin calls ≠ [] → ∃ l', (s.run origin calls).routed.lane acq = some l' ∧
    Remembered origin l'.cooldownUntil (db.write (s.run origin calls).queue (acq.provider, l.key))

/-- **`EndsLast origin l earlier last b`** — the back-off `b` of the call `last` fits the column, and neither the
cooldown that the lane had before nor an earlier back-off ends later than it, by more than what is left of the second
at the last call. -/
structure EndsLast (origin : ℤ) (l : Lane) (earlier : List (FailureCall × ℕ)) (last : FailureCall) (b : ℕ) : Prop where
  fits : last.nowUnix * 1000 + asMillis b < 2 ^ 63
  before : l.cooldownUntil ≤ last.now origin + b + restOfSecond last
  earlier : ∀ x ∈ earlier, x.1.now origin + x.2 ≤ last.now origin + b + restOfSecond last

/-- The latest end, and the row of the last back-off. -/
theorem remembered_iff_endsLast {earlier : List (FailureCall × ℕ)} {last : FailureCall} {b : ℕ}
    (hb : last.backoff origin = some b) :
    Remembered origin ((earlier ++ [(last, b)]).foldl (coolBy origin) l).cooldownUntil
        (some (asI64 (untilUnixMs last.nowUnix b))) ↔ EndsLast origin l earlier last b := by
  obtain ⟨n, rfl⟩ := FailureCall.backoff_secs hb
  have hends := foldl_coolBy_le_iff origin (earlier ++ [(last, secs n)]) l
  have hlater := ((hends _).mp (le_refl _)).2 (last, secs n) (by simp)
  have hcolumn := remembered_column hlater
  constructor
  · rintro ⟨ms, hms, hle⟩
    cases hms
    obtain ⟨hfits, hle⟩ := hcolumn.mp hle
    obtain ⟨hbefore, hall⟩ := (hends _).mp hle
    exact ⟨hfits, hbefore, fun x hx => hall x (List.mem_append_left _ hx)⟩
  · rintro ⟨hfits, hbefore, hall⟩
    refine ⟨_, rfl, hcolumn.mpr ⟨hfits, (hends _).mpr ⟨hbefore, fun x hx => ?_⟩⟩⟩
    rcases List.mem_append.mp hx with hx | hx
    · exact hall x hx
    · obtain rfl := List.mem_singleton.mp hx
      have hrest : 0 ≤ restOfSecond last := by
        unfold restOfSecond FailureCall.nowUnix unixNow secs
        omega
      show last.now origin + secs n ≤ last.now origin + secs n + restOfSecond last
      omega

/-- **When a back-off is kept.**  Calls of `finish_failure` on attempts of one lane leave a row that remembers the
lane's cooldown exactly if the last back-off they write fits the column and ends last. -/
theorem back_off_kept_iff (hreg : s.routed.router.runtimes acq.provider = some a)
    (hlane : s.routed.lane acq = some l) (hslot : ∀ c ∈ calls, c.OfSlot acq) (db : CooldownTable) :
    BackOffKept origin s acq l db calls ↔
      ∀ earlier last b, FailureCall.written origin calls = earlier ++ [(last, b)] →
        EndsLast origin l earlier last b := by
  obtain ⟨-, hcooled, hqueue⟩ := @run_spec origin s acq l a calls hreg hlane hslot
  -- of the calls that wrote a row, the last one decides what the table has
  have hkept : ∀ earlier last b, FailureCall.written origin calls = earlier ++ [(last, b)] →
      ((∃ l', (s.run origin calls).routed.lane acq = some l' ∧
          Remembered origin l'.cooldownUntil (db.write (s.run origin calls).queue (acq.provider, l.key))) ↔
        EndsLast origin l earlier last b) := by
    intro earlier last b hsplit
    have hb : last.backoff origin = some b := by
      have hmem : (last, b) ∈ FailureCall.written origin calls := by
        rw [hsplit]
        simp
      obtain ⟨c, -, hc⟩ := List.mem_filterMap.mp hmem
      obtain ⟨b', hb', heq⟩ := Option.map_eq_some_iff.mp hc
      cases heq
      exact hb'
    have hwrite : db.write (s.run origin calls).queue =
        (db.write s.queue).write ((earlier ++ [(last, b)]).map (opOf acq l)) := by
      rw [hqueue, hsplit]
      unfold CooldownTable.write
      rw [List.foldl_append]
    rw [hcooled, hwrite, write_concat, hsplit, ← remembered_iff_endsLast hb]
    simp
  -- without a row there is nothing to lose
  constructor
  · intro h earlier last b hsplit
    apply (hkept earlier last b hsplit).mp
    apply h
    rw [hsplit]
    simp
  · intro h hne
    obtain ⟨earlier, ⟨last, b⟩, hsplit⟩ := (List.eq_nil_or_concat' _).resolve_left hne
    exact (hkept earlier last b hsplit).mpr (h earlier last b hsplit)

/-- A router with one key, of one provider. -/
def oneKey : PersistedRouted where
  routed :=
    { router := ((Router.empty {}).build (fun _ => none) { name := "groq", keys := [{ key := "k" }] } 0).1.register
        "groq" 0
      governors := fun _ => .empty
      governorOverrides := [] }

/-- A failure of an attempt on that key, a thousand seconds after the epoch. -/
def failed (status : ℕ) (retryAfterSecs : Option ℕ) : FailureCall :=
  ⟨⟨"groq", "m", .hybrid, 0, 0, 0, none⟩, status, false, retryAfterSecs, 1000000000000⟩

theorem ofSlot_failed {c : FailureCall} {status status' : ℕ} {secs₁ secs₂ : Option ℕ}
    (h : c ∈ [failed status secs₁, failed status' secs₂]) : c.OfSlot (failed 0 none).acq := by
  simp only [List.mem_cons, List.not_mem_nil, or_false] at h
  rcases h with rfl | rfl <;> exact ⟨rfl, rfl, rfl, rfl⟩

/-- Two connection failures: the row ends with the lane's cooldown. -/
theorem back_off_kept_iff_same :
    ∃ l, oneKey.routed.lane (failed 0 none).acq = some l ∧
      BackOffKept 0 oneKey (failed 0 none).acq l (fun _ => none) [failed 0 none, failed 0 none] := by
  have hlane : oneKey.routed.lane (failed 0 none).acq = some ⟨"k", 60, [], 0⟩ := by decide +kernel
  refine ⟨_, hlane, (@back_off_kept_iff 0 oneKey (failed 0 none).acq _ 0 [failed 0 none, failed 0 none]
    (by decide +kernel) hlane (fun _ => ofSlot_failed) fun _ => none).mpr ?_⟩
  intro earlier last b hsplit
  have hwritten : FailureCall.written 0 [failed 0 none, failed 0 none] =
      [(failed 0 none, secs 5)] ++ [(failed 0 none, secs 5)] := rfl
  obtain ⟨hearlier, hlast⟩ := List.append_inj' (hwritten.symm.trans hsplit) rfl
  cases hearlier
  cases hlast
  refine ⟨by decide, by decide, fun x hx => ?_⟩
  obtain rfl := List.mem_singleton.mp hx
  decide

/-- **A long back-off is forgotten.**  The upstream asks for a minute, and then a connection fails: the lane cools for
a minute, and the row says five seconds. -/
theorem back_off_forgotten :
    ∃ l, oneKey.routed.lane (failed 0 none).acq = some l ∧
      ¬ BackOffKept 0 oneKey (failed 0 none).acq l (fun _ => none) [failed 429 (some 60), failed 0 none] := by
  have hlane : oneKey.routed.lane (failed 0 none).acq = some ⟨"k", 60, [], 0⟩ := by decide +kernel
  have hafter : (oneKey.run 0 [failed 429 (some 60), failed 0 none]).routed.lane (failed 0 none).acq =
      some ⟨"k", 60, [], 1060000000000⟩ := by decide +kernel
  have hqueue : (oneKey.run 0 [failed 429 (some 60), failed 0 none]).queue =
      [⟨"groq", "k", 1060000⟩, ⟨"groq", "k", 1005000⟩] := by decide +kernel
  refine ⟨_, hlane, fun h => ?_⟩
  obtain ⟨l', hl', ms, hms, hle⟩ := h (by decide)
  rw [hafter] at hl'
  cases hl'
  rw [hqueue] at hms
  have hrow : ms = 1005000 := by
    cases hms
    decide
  subst hrow
  exact absurd hle (by decide)

end PersistedRouted

end Flock
