/-
# Flock.Health.Persist — the health view across a restart.

Every operation of `HealthDb` changes the maps in memory and sends the writer an operation of its own.  The writer
applies these to two tables; the next boot reads the tables back.

    memory     record_health · record_latency · set_elo · set_sticky · sweep
    queue      ProviderHealthTouched · ProviderLatency · ProviderElo · Sticky · StickySweep
    tables     provider_state(healthy = 1, latency_ms, elo = 1500, last_probe_unix = 0), sticky_sessions

Memory keeps a smoothed latency and the table the last sample; an expiry is a `u64` in memory and an `i64` in the
table.  Nothing else is lost (`survives_restart_iff`).
-/
import Flock.Health
import Mathlib.Data.List.Induction
import Mathlib.Tactic.Linarith

namespace Flock

/-! ## What the parts keep

What memory and table each keep of the samples of a provider: an average, and the last of them. -/

/-- The weighted mean of samples, oldest first: a sample weighs 0.7, the mean of those before it 0.3. -/
def smoothed (samples : List ℚ) : Option ℚ :=
  samples.foldl (fun mean ms => some (7 / 10 * ms + 3 / 10 * mean.getD ms)) none

/-- The last sample is the mean of those before it, if there are any. -/
def Settled (samples : List ℚ) : Prop :=
  ∀ before last, samples = before ++ [last] → before = [] ∨ smoothed before = some last

theorem smoothed_concat (samples : List ℚ) (ms : ℚ) :
    smoothed (samples ++ [ms]) = some (7 / 10 * ms + 3 / 10 * (smoothed samples).getD ms) := by
  unfold smoothed
  rw [List.foldl_append]
  rfl

/-- Without a sample there is no average. -/
theorem smoothed_eq_none {samples : List ℚ} : smoothed samples = none ↔ samples = [] := by
  induction samples using List.reverseRecOn with
  | nil => exact iff_of_true rfl rfl
  | append_singleton before last _ =>
      rw [smoothed_concat]
      simp

/-- The mean is the last sample exactly where the samples have settled. -/
theorem smoothed_eq_getLast_iff (samples : List ℚ) : samples.getLast? = smoothed samples ↔ Settled samples := by
  unfold Settled
  induction samples using List.reverseRecOn with
  | nil => exact iff_of_true rfl fun before last h => by simp at h
  | append_singleton before last _ =>
      have hmean : some last = smoothed (before ++ [last]) ↔ (smoothed before).getD last = last := by
        rw [smoothed_concat, Option.some.injEq]
        constructor <;> intro h <;> linarith
      rw [List.getLast?_concat, hmean]
      constructor
      · intro h before' last' heq
        obtain ⟨rfl, hlast⟩ := List.append_inj' heq rfl
        obtain rfl : last = last' := (List.cons.inj hlast).1
        cases hbefore : smoothed before with
        | none => exact .inl (smoothed_eq_none.mp hbefore)
        | some mean =>
            rw [hbefore] at h
            exact .inr (congrArg some h)
      · intro h
        rcases h before last rfl with rfl | hbefore
        · rfl
        · rw [hbefore]
          rfl

/-! ## Operations

A timestamp that an operation brings is the reading of the wall clock of its call. -/

/-- A call of `HealthDb`. -/
inductive HealthOp where
  | recordHealth (provider : String) (healthy : Bool) (nowUnix : ℕ)
  | recordLatency (provider : String) (ms : ℚ)
  | setElo (provider : String) (elo : ℤ)
  | setSticky (session provider : String) (ttlSecs nowUnix : ℕ)
  | sweepExpiredStickies (nowUnix : ℕ)
  deriving DecidableEq

namespace HealthOp

/-- The time a call is given. -/
def time : HealthOp → Option ℕ
  | recordHealth _ _ nowUnix | setSticky _ _ _ nowUnix | sweepExpiredStickies nowUnix => some nowUnix
  | recordLatency _ _ | setElo _ _ => none

/-- The latencies recorded of a provider, oldest first. -/
def samples (provider : String) (ops : List HealthOp) : List ℚ :=
  ops.filterMap fun
    | recordLatency p ms => if p = provider then some ms else none
    | _ => none

/-- The pin a session was given last, with its expiry. -/
def lastPin (session : String) (ops : List HealthOp) : Option (String × ℕ) :=
  ops.foldl (fun pin op =>
    match op with
    | setSticky s provider ttlSecs nowUnix =>
        if s = session then some (provider, (nowUnix + ttlSecs) % 2 ^ 64) else pin
    | _ => pin) none

end HealthOp

/-- `PersistOp`, of the five kinds `HealthDb` sends. -/
inductive PersistOp where
  | providerHealthTouched (provider : String) (healthy : Bool) (nowUnix : ℕ)
  | providerLatency (provider : String) (latencyMs : ℚ)
  | providerElo (provider : String) (elo : ℤ)
  | sticky (session provider : String) (expiresUnix : ℕ)
  | stickySweep (nowUnix : ℕ)
  deriving DecidableEq

/-! ## Memory and queue

The queue is a list of operations in the order in which they were sent.  The sweep sends its own clock, so the table
forgets what memory forgets. -/

/-- `HealthDb`, with the channel to the writer. -/
structure PersistedHealth where
  inner : HealthDb := {}
  /-- The keys of `inner.stickies`. -/
  sessions : List String := []
  /-- Oldest first. -/
  queue : List PersistOp := []

namespace PersistedHealth

/-- The sessions a sweep removes. -/
def expired (s : PersistedHealth) (nowUnix : ℕ) : List String :=
  s.sessions.filter fun session => (s.inner.stickies session).any fun pin => decide (pin.2 ≤ nowUnix)

/-- What a call sends to the writer. A sweep that removes nothing sends nothing. -/
def sent (s : PersistedHealth) : HealthOp → List PersistOp
  | .recordHealth provider healthy nowUnix => [.providerHealthTouched provider healthy nowUnix]
  | .recordLatency provider ms => [.providerLatency provider ms]
  | .setElo provider elo => [.providerElo provider elo]
  | .setSticky session provider ttlSecs nowUnix => [.sticky session provider ((nowUnix + ttlSecs) % 2 ^ 64)]
  | .sweepExpiredStickies nowUnix => if 0 < (s.expired nowUnix).length then [.stickySweep nowUnix] else []

/-- What a call does in memory. -/
def change (h : HealthDb) : HealthOp → HealthDb
  | .recordHealth provider healthy nowUnix => h.recordHealth provider healthy nowUnix
  | .recordLatency provider ms => h.recordLatency provider ms
  | .setElo provider elo => h.setElo provider elo
  | .setSticky session provider ttlSecs nowUnix => h.setSticky session provider ttlSecs nowUnix
  | .sweepExpiredStickies nowUnix => h.sweepExpiredStickies nowUnix

/-- The names that have ever had a session. -/
def changeSessions (s : PersistedHealth) : HealthOp → List String
  | .setSticky session _ _ _ => s.sessions.insert session
  | .sweepExpiredStickies nowUnix => s.sessions.filter fun x => x ∉ s.expired nowUnix
  | _ => s.sessions

/-- One operation, in memory and in the queue. -/
def act (s : PersistedHealth) (op : HealthOp) : PersistedHealth where
  inner := change s.inner op
  sessions := s.changeSessions op
  queue := s.queue ++ s.sent op

/-- Operations, one after the other, from an empty database. -/
def run (ops : List HealthOp) : PersistedHealth := ops.foldl act {}

end PersistedHealth

/-! ## The tables

A row is created by the first operation that needs it, with the defaults of its columns; later operations change their
own column and leave the others. -/

/-- `n as i64`. -/
def asI64 (n : ℕ) : ℤ := if n < 2 ^ 63 then n else n - 2 ^ 64

/-- `z as u64`. -/
def asU64 (z : ℤ) : ℕ := (z % 2 ^ 64).toNat

/-- A row of `provider_state`, with the defaults of its columns. -/
structure ProviderRow where
  healthy : ℤ := 1
  latencyMs : Option ℚ := none
  elo : ℤ := 1500
  lastProbeUnix : ℤ := 0

/-- The tables, by their primary keys. -/
structure StateDb where
  providers : String → Option ProviderRow := fun _ => none
  stickies : String → Option (String × ℤ) := fun _ => none

namespace StateDb

/-- The row of a provider, or what an insert would start from. -/
def row (db : StateDb) (provider : String) : ProviderRow := (db.providers provider).getD {}

/-- `INSERT … ON CONFLICT(provider) DO UPDATE`: the columns `f` writes, the others as they are or by default. -/
def upsert (db : StateDb) (provider : String) (f : ProviderRow → ProviderRow) : StateDb :=
  { db with providers := Function.update db.providers provider (some (f (db.row provider))) }

/-- `apply_op`. -/
def applyOp (db : StateDb) : PersistOp → StateDb
  | .providerHealthTouched provider healthy nowUnix =>
      db.upsert provider fun r => { r with healthy := if healthy then 1 else 0, lastProbeUnix := asI64 nowUnix }
  | .providerLatency provider latencyMs => db.upsert provider fun r => { r with latencyMs := some latencyMs }
  | .providerElo provider elo => db.upsert provider fun r => { r with elo := elo }
  | .sticky session provider expiresUnix =>
      { db with stickies := Function.update db.stickies session (some (provider, asI64 expiresUnix)) }
  | .stickySweep nowUnix =>
      { db with stickies := fun session => (db.stickies session).filter fun r => !decide (r.2 ≤ asI64 nowUnix) }

/-- `writer_loop`. -/
def write (queue : List PersistOp) : StateDb := queue.foldl applyOp {}

end StateDb

/-! ## The next boot

The next process reads the rows into empty maps.  A row that was created by another operation has its defaults read
too, which are those of a provider that nothing is known of. -/

/-- `ProviderStateRow`. -/
structure ProviderStateRow where
  healthy : Bool
  latencyMs : Option ℚ
  elo : ℤ
  lastProbeUnix : ℕ

/-- `RestoredProviders`, by provider and by session. -/
structure RestoredProviders where
  rows : String → Option ProviderStateRow
  stickies : String → Option (String × ℕ)

/-- A row as `restore` reads it. -/
def ProviderRow.read (r : ProviderRow) : ProviderStateRow where
  healthy := r.healthy != 0
  latencyMs := r.latencyMs
  elo := r.elo
  lastProbeUnix := asU64 r.lastProbeUnix

/-- `restore`, at the time `nowUnix`. -/
def restore (db : StateDb) (nowUnix : ℕ) : RestoredProviders where
  rows provider := (db.providers provider).map ProviderRow.read
  stickies session :=
    ((db.stickies session).filter fun r => decide (asI64 nowUnix < r.2)).map fun r => (r.1, asU64 r.2)

/-- `apply_restored`. -/
def HealthDb.applyRestored (h : HealthDb) (r : RestoredProviders) : HealthDb where
  healthy provider := ((r.rows provider).map (·.healthy)).or (h.healthy provider)
  lastProbeUnix provider := ((r.rows provider).map (·.lastProbeUnix)).or (h.lastProbeUnix provider)
  latenciesMs provider := ((r.rows provider).bind (·.latencyMs)).or (h.latenciesMs provider)
  elos provider := ((r.rows provider).map (·.elo)).or (h.elos provider)
  stickies session := (r.stickies session).or (h.stickies session)

/-! ## One provider

The two columns and the map change together; the average is what the column does not have. -/

namespace StateDb

variable {db : StateDb} {p provider : String} {f : ProviderRow → ProviderRow}

theorem row_upsert_self : (db.upsert p f).row p = f (db.row p) := by
  simp [row, upsert]

theorem row_upsert_of_ne (h : p ≠ provider) : (db.upsert provider f).row p = db.row p := by
  simp [row, upsert, Function.update_of_ne h]

end StateDb

/-- What memory and the row of a provider hold after some samples. -/
structure SameProvider (p : String) (samples : List ℚ) (h : HealthDb) (r : ProviderRow) : Prop where
  healthy : r.read.healthy = h.isHealthy p
  elo : r.elo = h.getElo p
  sample : r.latencyMs = samples.getLast?
  latency : h.latenciesMs p = smoothed samples

theorem HealthOp.samples_concat (p : String) (ops : List HealthOp) (op : HealthOp) :
    samples p (ops ++ [op]) = samples p ops ++ samples p [op] :=
  List.filterMap_append

/-- The writer's part of a call. -/
def PersistedHealth.written (s : PersistedHealth) (op : HealthOp) (db : StateDb) : StateDb :=
  (s.sent op).foldl StateDb.applyOp db

namespace SameProvider

variable {p : String} {ops : List HealthOp} {s : PersistedHealth} {h : HealthDb} {db : StateDb}

theorem recordHealth (hs : SameProvider p (HealthOp.samples p ops) h (db.row p)) (q : String) (healthy : Bool)
    (t : ℕ) : SameProvider p (HealthOp.samples p ops) (h.recordHealth q healthy t)
      ((db.applyOp (.providerHealthTouched q healthy t)).row p) := by
  unfold StateDb.applyOp
  by_cases hq : p = q
  · subst hq
    rw [StateDb.row_upsert_self]
    refine ⟨?_, hs.elo, hs.sample, hs.latency⟩
    rw [HealthDb.isHealthy_recordHealth, if_pos rfl]
    cases healthy <;> rfl
  · rw [StateDb.row_upsert_of_ne hq]
    refine ⟨?_, hs.elo, hs.sample, hs.latency⟩
    rw [HealthDb.isHealthy_recordHealth, if_neg hq]
    exact hs.healthy

theorem setElo (hs : SameProvider p (HealthOp.samples p ops) h (db.row p)) (q : String) (elo : ℤ) :
    SameProvider p (HealthOp.samples p ops) (h.setElo q elo) ((db.applyOp (.providerElo q elo)).row p) := by
  unfold StateDb.applyOp
  by_cases hq : p = q
  · subst hq
    rw [StateDb.row_upsert_self]
    refine ⟨hs.healthy, ?_, hs.sample, hs.latency⟩
    rw [HealthDb.getElo_setElo, if_pos rfl]
  · rw [StateDb.row_upsert_of_ne hq]
    refine ⟨hs.healthy, ?_, hs.sample, hs.latency⟩
    rw [HealthDb.getElo_setElo, if_neg hq]
    exact hs.elo

/-- Memory averages the sample in, the row takes it. -/
theorem recordLatency (hs : SameProvider p (HealthOp.samples p ops) h (db.row p)) (q : String) (ms : ℚ) :
    SameProvider p (HealthOp.samples p ops ++ HealthOp.samples p [.recordLatency q ms]) (h.recordLatency q ms)
      ((db.applyOp (.providerLatency q ms)).row p) := by
  unfold StateDb.applyOp
  by_cases hq : p = q
  · subst hq
    have hone : HealthOp.samples p [.recordLatency p ms] = [ms] := by simp [HealthOp.samples]
    rw [hone, StateDb.row_upsert_self]
    refine ⟨hs.healthy, hs.elo, List.getLast?_concat.symm, ?_⟩
    rw [HealthDb.latenciesMs_recordLatency, if_pos rfl, smoothed_concat, hs.latency]
  · have hnone : HealthOp.samples p [.recordLatency q ms] = [] := by simp [HealthOp.samples, Ne.symm hq]
    rw [hnone, List.append_nil, StateDb.row_upsert_of_ne hq]
    refine ⟨hs.healthy, hs.elo, hs.sample, ?_⟩
    rw [HealthDb.latenciesMs_recordLatency, if_neg hq]
    exact hs.latency

/-- **One call**, on either side. -/
theorem act (hs : SameProvider p (HealthOp.samples p ops) s.inner (db.row p)) (op : HealthOp) :
    SameProvider p (HealthOp.samples p (ops ++ [op])) (s.act op).inner ((s.written op db).row p) := by
  rw [HealthOp.samples_concat]
  cases op with
  | recordHealth q healthy t =>
      rw [show HealthOp.samples p [.recordHealth q healthy t] = [] from rfl, List.append_nil]
      exact hs.recordHealth q healthy t
  | recordLatency q ms => exact hs.recordLatency q ms
  | setElo q elo =>
      rw [show HealthOp.samples p [.setElo q elo] = [] from rfl, List.append_nil]
      exact hs.setElo q elo
  | setSticky session provider ttlSecs t =>
      rw [show HealthOp.samples p [.setSticky session provider ttlSecs t] = [] from rfl, List.append_nil]
      exact ⟨hs.healthy, hs.elo, hs.sample, hs.latency⟩
  | sweepExpiredStickies t =>
      rw [show HealthOp.samples p [.sweepExpiredStickies t] = [] from rfl, List.append_nil]
      have hrow : (s.written (.sweepExpiredStickies t) db).row p = db.row p := by
        unfold PersistedHealth.written PersistedHealth.sent
        dsimp only
        split <;> rfl
      rw [hrow]
      exact ⟨hs.healthy, hs.elo, hs.sample, hs.latency⟩

end SameProvider

/-! ## One session

A pin is replaced by the next one and dropped when it has expired.  Both sides look at the same expiry, one as an
unsigned number and one as a signed one. -/

theorem HealthOp.lastPin_concat (session : String) (ops : List HealthOp) (op : HealthOp) :
    lastPin session (ops ++ [op]) = (lastPin session [op]).or (lastPin session ops) := by
  unfold lastPin
  rw [List.foldl_append]
  cases op with
  | setSticky s provider ttlSecs t =>
      simp only [List.foldl_cons, List.foldl_nil]
      split <;> rfl
  | recordHealth _ _ _ => rfl
  | recordLatency _ _ => rfl
  | setElo _ _ => rfl
  | sweepExpiredStickies _ => rfl

/-- What memory and the table hold of a session's last pin: the pin, or nothing if it is over at `T`. The table
compares expiries as `i64`. -/
structure SameSession (T : ℕ) (pin : Option (String × ℕ)) (memory : Option (String × ℕ))
    (table : Option (String × ℤ)) : Prop where
  memory : memory = pin ∨ memory = none ∧ ∃ x, pin = some x ∧ x.2 ≤ T
  table : table = pin.map (fun x => (x.1, asI64 x.2)) ∨ table = none ∧ ∃ x, pin = some x ∧ asI64 x.2 ≤ T

namespace SameSession

variable {T : ℕ} {session : String} {ops : List HealthOp} {s : PersistedHealth} {db : StateDb}

/-- A pin that was just set is on all sides. -/
theorem set (pin : String × ℕ) : SameSession T (some pin) (some pin) (some (pin.1, asI64 pin.2)) :=
  ⟨.inl rfl, .inl rfl⟩

/-- A sweep drops what is over. -/
theorem sweep {pin memory : Option (String × ℕ)} {table : Option (String × ℤ)} (hs : SameSession T pin memory table)
    {t : ℕ} (ht : t ≤ T) (hT : T < 2 ^ 63) :
    SameSession T pin (memory.filter fun x => decide (x.2 > t)) (table.filter fun r => !decide (r.2 ≤ asI64 t)) := by
  have hcast : asI64 t = t := if_pos (by omega)
  constructor
  · rcases hs.memory with rfl | ⟨rfl, hover⟩
    · cases memory with
      | none => exact .inl rfl
      | some x =>
          by_cases hx : x.2 > t
          · exact .inl (Option.filter_some_pos (by simpa using hx))
          · exact .inr ⟨Option.filter_some_neg (by simpa using hx), x, rfl, by omega⟩
    · exact .inr ⟨rfl, hover⟩
  · rcases hs.table with rfl | ⟨rfl, hover⟩
    · cases pin with
      | none => exact .inl rfl
      | some x =>
          by_cases hx : asI64 x.2 ≤ asI64 t
          · exact .inr ⟨Option.filter_some_neg (by simpa using hx), x, rfl, by omega⟩
          · exact .inl (Option.filter_some_pos (by simpa using hx))
    · exact .inr ⟨rfl, hover⟩

/-- **One call**, on either side. -/
theorem act (hs : SameSession T (HealthOp.lastPin session ops) (s.inner.stickies session) (db.stickies session))
    {op : HealthOp} (htime : ∀ t, op.time = some t → t ≤ T) (hT : T < 2 ^ 63) :
    SameSession T (HealthOp.lastPin session (ops ++ [op])) ((s.act op).inner.stickies session)
      ((s.written op db).stickies session) := by
  rw [HealthOp.lastPin_concat]
  cases op with
  -- a pin: memory and table write the same, under another sign
  | setSticky x provider ttlSecs t =>
      have hmemory := HealthDb.stickies_setSticky s.inner session x provider ttlSecs t
      have htable : (s.written (.setSticky x provider ttlSecs t) db).stickies session =
          if session = x then some (provider, asI64 ((t + ttlSecs) % 2 ^ 64)) else db.stickies session := by
        by_cases hx : session = x <;> simp [PersistedHealth.written, PersistedHealth.sent, StateDb.applyOp, hx]
      show SameSession T _ ((s.inner.setSticky x provider ttlSecs t).stickies session) _
      rw [hmemory, htable]
      by_cases hx : session = x
      · subst hx
        have hpin : HealthOp.lastPin session [.setSticky session provider ttlSecs t] =
            some (provider, (t + ttlSecs) % 2 ^ 64) := by simp [HealthOp.lastPin]
        rw [hpin, if_pos rfl, if_pos rfl]
        exact .set _
      · have hpin : HealthOp.lastPin session [.setSticky x provider ttlSecs t] = none := by
          simp [HealthOp.lastPin, Ne.symm hx]
        rw [hpin, if_neg hx, if_neg hx]
        exact hs
  -- a sweep: both drop what has expired at its time
  | sweepExpiredStickies t =>
      have hswept := hs.sweep (htime t rfl) hT
      have hpin : HealthOp.lastPin session [.sweepExpiredStickies t] = none := rfl
      rw [hpin, Option.none_or]
      refine ⟨hswept.memory, ?_⟩
      unfold PersistedHealth.written PersistedHealth.sent
      dsimp only
      split
      · exact hswept.table
      · -- nothing was sent
        exact hs.table
  -- these do not concern sessions
  | recordHealth _ _ _ => exact hs
  | recordLatency _ _ => exact hs
  | setElo _ _ => exact hs

end SameSession

/-! ## The restart

At the moment of the restart the queue has been written out; what is compared is the health view of the old process
with that of the new one. -/

/-- The tables after every operation in the queue of `s` was applied in order. -/
def PersistedHealth.tables (s : PersistedHealth) : StateDb := StateDb.write s.queue

/-- The health view of the next boot, at the time `T`. -/
def PersistedHealth.rebooted (s : PersistedHealth) (T : ℕ) : HealthDb :=
  ({} : HealthDb).applyRestored (restore s.tables T)

/-- The tables, one operation later. -/
theorem tables_act (s : PersistedHealth) (op : HealthOp) : (s.act op).tables = s.written op s.tables :=
  List.foldl_append

theorem run_concat (ops : List HealthOp) (op : HealthOp) :
    PersistedHealth.run (ops ++ [op]) = (PersistedHealth.run ops).act op :=
  List.foldl_append

theorem sameProvider_run (p : String) (ops : List HealthOp) :
    SameProvider p (HealthOp.samples p ops) (PersistedHealth.run ops).inner ((PersistedHealth.run ops).tables.row p) := by
  induction ops using List.reverseRecOn with
  | nil => exact ⟨rfl, rfl, rfl, rfl⟩
  | append_singleton ops op ih =>
      rw [run_concat, tables_act]
      exact ih.act op

/-- A session after any run whose clock has been at `T` at most. -/
theorem sameSession_run (session : String) {ops : List HealthOp} {T : ℕ} (htimes : ∀ op ∈ ops, ∀ t, op.time = some t → t ≤ T)
    (hT : T < 2 ^ 63) : SameSession T (HealthOp.lastPin session ops) ((PersistedHealth.run ops).inner.stickies session)
      ((PersistedHealth.run ops).tables.stickies session) := by
  induction ops using List.reverseRecOn with
  | nil => exact ⟨.inl rfl, .inl rfl⟩
  | append_singleton ops op ih =>
      rw [run_concat, tables_act]
      exact (ih fun o ho => htimes o (List.mem_append_left _ ho)).act (htimes op (by simp)) hT

section Restored

variable {s : PersistedHealth} {T : ℕ} {p session : String}

/-- What the new process says of the health. -/
theorem isHealthy_rebooted : (s.rebooted T).isHealthy p = (s.tables.row p).read.healthy := by
  show ((((s.tables.providers p).map ProviderRow.read).map (·.healthy)).or none).getD true =
    ((s.tables.providers p).getD {}).read.healthy
  cases s.tables.providers p <;> rfl

theorem getElo_rebooted : (s.rebooted T).getElo p = (s.tables.row p).elo := by
  show ((((s.tables.providers p).map ProviderRow.read).map (·.elo)).or none).getD 1500 =
    ((s.tables.providers p).getD {}).elo
  cases s.tables.providers p <;> rfl

theorem latencyMs_rebooted : (s.rebooted T).latencyMs p = (s.tables.row p).latencyMs := by
  show (((s.tables.providers p).map ProviderRow.read).bind (·.latencyMs)).or none =
    ((s.tables.providers p).getD {}).latencyMs
  rw [Option.or_none]
  cases s.tables.providers p <;> rfl

theorem stickies_rebooted : (s.rebooted T).stickies session =
    ((s.tables.stickies session).filter fun r => decide (asI64 T < r.2)).map fun r => (r.1, asU64 r.2) :=
  Option.or_none

/-- An unsigned number comes back from its signed form. -/
theorem asU64_asI64 {n : ℕ} (h : n < 2 ^ 64) : asU64 (asI64 n) = n := by
  unfold asU64 asI64
  split <;> omega

/-- An expiry is an unsigned number. -/
theorem lastPin_lt {ops : List HealthOp} {x : String × ℕ} (h : HealthOp.lastPin session ops = some x) :
    x.2 < 2 ^ 64 := by
  induction ops using List.reverseRecOn with
  | nil => cases h
  | append_singleton ops op ih =>
      rw [HealthOp.lastPin_concat] at h
      cases op with
      | setSticky y provider ttlSecs t =>
          by_cases hy : y = session
          · have hpin : HealthOp.lastPin session [.setSticky y provider ttlSecs t] =
                some (provider, (t + ttlSecs) % 2 ^ 64) := by simp [HealthOp.lastPin, hy]
            rw [hpin] at h
            cases h
            exact Nat.mod_lt _ (by decide)
          · have hpin : HealthOp.lastPin session [.setSticky y provider ttlSecs t] = none := by
              simp [HealthOp.lastPin, hy]
            rw [hpin] at h
            exact ih h
      | recordHealth _ _ _ => exact ih h
      | recordLatency _ _ => exact ih h
      | setElo _ _ => exact ih h
      | sweepExpiredStickies _ => exact ih h

/-- A pin that is honoured at `T`. -/
def honoured (T : ℕ) (pin : Option (String × ℕ)) : Option String := (pin.filter fun x => decide (T < x.2)).map (·.1)

/-- A pin is honoured until it expires. -/
theorem getSticky_eq_honoured (h : HealthDb) : h.getSticky session T = honoured T (h.stickies session) := by
  unfold HealthDb.getSticky honoured
  cases h.stickies session with
  | none => rfl
  | some x =>
      by_cases hx : T < x.2
      · rw [Option.filter_some_pos (by simpa using hx)]
        exact if_pos hx
      · rw [Option.filter_some_neg (by simpa using hx)]
        exact if_neg hx

variable {pin memory : Option (String × ℕ)} {table : Option (String × ℤ)}

/-- Memory honours the last pin. -/
theorem SameSession.honoured_memory (hs : SameSession T pin memory table) : honoured T memory = honoured T pin := by
  rcases hs.memory with rfl | ⟨rfl, x, rfl, hover⟩
  · rfl
  · unfold honoured
    rw [Option.filter_some_neg (by simpa using hover)]
    rfl

/-- The next boot honours it if its expiry fits an `i64`. -/
theorem SameSession.honoured_table (hs : SameSession T pin memory table) (hT : T < 2 ^ 63) (x : String × ℕ)
    (hpin : pin = some x) (hx : x.2 < 2 ^ 64) :
    honoured T ((table.filter fun r => decide (asI64 T < r.2)).map fun r => (r.1, asU64 r.2)) =
      if T < x.2 ∧ x.2 < 2 ^ 63 then some x.1 else none := by
  have hcast : asI64 T = T := if_pos hT
  have hexpiry : asI64 x.2 = if x.2 < 2 ^ 63 then (x.2 : ℤ) else x.2 - 2 ^ 64 := rfl
  subst hpin
  rcases hs.table with rfl | ⟨rfl, y, hy, hover⟩
  · by_cases halive : T < x.2 ∧ x.2 < 2 ^ 63
    · rw [if_pos halive.2] at hexpiry
      unfold honoured
      rw [if_pos halive, Option.map_some, Option.filter_some_pos (by simp only [decide_eq_true_eq]; omega),
        Option.map_some, asU64_asI64 hx, Option.filter_some_pos (by simpa using halive.1)]
      rfl
    · have hdropped : ¬ asI64 T < asI64 x.2 := by
        split at hexpiry <;> omega
      rw [if_neg halive, Option.map_some, Option.filter_some_neg (by simpa using hdropped)]
      rfl
  · obtain rfl := Option.some.inj hy
    rw [if_neg]
    · rfl
    · rintro ⟨halive, hfits⟩
      rw [if_pos hfits] at hexpiry
      omega

/-- **A pin survives** if its expiry fits the table, and only then. -/
theorem getSticky_rebooted {ops : List HealthOp} (hs : SameSession T (HealthOp.lastPin session ops)
    (s.inner.stickies session) (s.tables.stickies session)) (hT : T < 2 ^ 63) :
    (s.rebooted T).getSticky session T = s.inner.getSticky session T ↔
      ∀ x, HealthOp.lastPin session ops = some x → x.2 < 2 ^ 63 := by
  rw [getSticky_eq_honoured, getSticky_eq_honoured, hs.honoured_memory, stickies_rebooted]
  cases hpin : HealthOp.lastPin session ops with
  | none =>
      rw [hpin] at hs
      have htable : s.tables.stickies session = none := by
        rcases hs.table with h | ⟨h, -⟩
        · exact h
        · exact h
      rw [htable]
      exact iff_of_true rfl fun x hx => by cases hx
  | some x =>
      rw [hs.honoured_table hT x hpin (lastPin_lt hpin)]
      unfold honoured
      by_cases hfits : x.2 < 2 ^ 63
      · refine iff_of_true ?_ fun y hy => Option.some.inj hy ▸ hfits
        by_cases halive : T < x.2
        · rw [if_pos ⟨halive, hfits⟩, Option.filter_some_pos (by simpa using halive)]
          rfl
        · rw [if_neg fun h => halive h.1, Option.filter_some_neg (by simpa using halive)]
          rfl
      · -- alive in memory, negative in the table
        have halive : T < x.2 := by omega
        refine iff_of_false ?_ fun h => hfits (h x rfl)
        rw [if_neg fun h => hfits h.2, Option.filter_some_pos (by simpa using halive)]
        exact Option.some_ne_none _ ∘ Eq.symm

end Restored

/-- **`Survives`** — the next boot answers every question as the process that ended would. -/
def Survives (ops : List HealthOp) (T : ℕ) : Prop :=
  (∀ p, ((PersistedHealth.run ops).rebooted T).isHealthy p = (PersistedHealth.run ops).inner.isHealthy p ∧
    ((PersistedHealth.run ops).rebooted T).latencyMs p = (PersistedHealth.run ops).inner.latencyMs p ∧
    ((PersistedHealth.run ops).rebooted T).getElo p = (PersistedHealth.run ops).inner.getElo p) ∧
  ∀ session, ((PersistedHealth.run ops).rebooted T).getSticky session T =
    (PersistedHealth.run ops).inner.getSticky session T

/-- **`survives_restart_iff`** — the health view survives a restart exactly if every provider's samples have settled
and every session's last pin has an expiry of 63 bits.  A unix time is below `2 ^ 63`. -/
theorem survives_restart_iff (ops : List HealthOp) (T : ℕ) (htimes : ∀ op ∈ ops, ∀ t, op.time = some t → t ≤ T)
    (hT : T < 2 ^ 63) : Survives ops T ↔
      (∀ p, Settled (HealthOp.samples p ops)) ∧
        ∀ session x, HealthOp.lastPin session ops = some x → x.2 < 2 ^ 63 := by
  have hsession : ∀ session, ((PersistedHealth.run ops).rebooted T).getSticky session T =
      (PersistedHealth.run ops).inner.getSticky session T ↔
        ∀ x, HealthOp.lastPin session ops = some x → x.2 < 2 ^ 63 := fun session =>
    getSticky_rebooted (sameSession_run session htimes hT) hT
  have hprovider : ∀ p, ((PersistedHealth.run ops).rebooted T).latencyMs p =
      (PersistedHealth.run ops).inner.latencyMs p ↔ Settled (HealthOp.samples p ops) := by
    intro p
    have hs := sameProvider_run p ops
    rw [latencyMs_rebooted, hs.sample, ← smoothed_eq_getLast_iff, ← hs.latency]
    rfl
  unfold Survives
  refine and_congr (forall_congr' fun p => ?_) (forall_congr' hsession)
  have hs := sameProvider_run p ops
  rw [← hprovider p]
  constructor
  · exact fun h => h.2.1
  · intro h
    exact ⟨isHealthy_rebooted.trans hs.healthy, h, getElo_rebooted.trans hs.elo⟩

/-- One sample is averaged with itself. -/
theorem settled_of_length_le_one {samples : List ℚ} (h : samples.length ≤ 1) : Settled samples := by
  rintro before last rfl
  rw [List.length_append, List.length_singleton] at h
  exact .inl (List.length_eq_zero_iff.mp (by omega))

/-- A provider that is down, one with a rating and a pin. -/
theorem survives_restart_iff_one :
    Survives [.recordHealth "nvidia" false 10, .recordLatency "nvidia" 100, .setElo "groq" 1600,
      .setSticky "s" "groq" 3600 20, .sweepExpiredStickies 30] 40 := by
  refine (survives_restart_iff _ 40 (by decide) (by decide)).mpr ⟨fun p => settled_of_length_le_one ?_, ?_⟩
  · unfold HealthOp.samples
    by_cases hp : "nvidia" = p <;> simp [hp]
  · intro session x hx
    by_cases hs : "s" = session
    · simp only [HealthOp.lastPin, List.foldl_cons, List.foldl_nil, if_pos hs, Option.some.injEq] at hx
      rw [← hx]
      decide
    · simp [HealthOp.lastPin, hs] at hx

/-- Two samples: 170 ms in memory, 200 ms after the restart. -/
theorem latency_not_restored : ¬ Survives [.recordLatency "nvidia" 100, .recordLatency "nvidia" 200] 0 := by
  intro h
  have hlatency := (h.1 "nvidia").2.1
  revert hlatency
  decide +kernel

end Flock
