/-
# Flock.Router.Saturation — what a buffered request does when the candidates have no room.

`Dry` is a call in which every turn finds a dry bucket.  Such a turn sleeps for 50 ms and counts as an attempt, so
the attempts can run out before the deadline does: `dry_call_waits_iff` says when.  `SlowCandidate` is a turn whose
candidate cannot give a permit or a slot before the deadline, while another that has had no turn would.
-/
import Flock.Router.Answers

namespace Flock

open Lib (System)

variable {ν : Type} {json : BodyCodec ν} {c : BufferedCall} {s s' : Exec} {t : Turn} {turns : ℕ → Turn}
  {ts : List Turn} {n : ℕ}

namespace BufferedCall

/-! ## Single turns -/

theorem step_deadline (hresult : s.result = none) (hclock : s.clock ≤ t.now) (hlate : c.ctx.deadline ≤ t.now) :
    c.step json s t = some (Exec.fail { s with clock := t.now } .deadline) := by
  unfold step
  rw [if_neg (by rw [hresult]; simp; omega)]
  dsimp only
  rw [if_pos hlate]

theorem step_spent (hresult : s.result = none) (hclock : s.clock ≤ t.now) (hearly : t.now < c.ctx.deadline)
    (hspent : c.maxAttempts ≤ s.attempts) :
    c.step json s t = some (Exec.fail { s with clock := t.now } s.lastError) := by
  unfold step
  rw [if_neg (by rw [hresult]; simp; omega)]
  dsimp only
  rw [if_neg (by omega), if_pos hspent]

/-- A turn whose `acquire` fails. -/
theorem step_refused (hresult : s.result = none) (hclock : s.clock ≤ t.now) (hearly : t.now < c.ctx.deadline)
    (hbudget : s.attempts < c.maxAttempts) {candidate : RouteCandidate} {e : RouteError}
    (hcandidate : c.candidates[s.attempts % c.candidates.length]? = some candidate)
    (hacquire : c.ctx.acquire candidate t.gates = some (.error e)) :
    c.step json s t = some (refuse { s with clock := t.now, attempts := s.attempts + 1 } t e) := by
  unfold step
  rw [if_neg (by rw [hresult]; simp; omega)]
  dsimp only
  rw [if_neg (by omega), if_neg (by omega), hcandidate]
  dsimp only
  rw [hacquire]

/-- A call that has returned takes no turn. -/
theorem exec_of_returned (hresult : s.result ≠ none) : System.exec (c.step json) s (t :: ts) = none := by
  cases hstep : c.step json s t with
  | none =>
      show (c.step json s t).bind _ = none
      rw [hstep]
      rfl
  | some s' => exact absurd (step_cases hstep).1 hresult

/-! ## Every bucket is dry -/

/-- **`Dry c turns`** — a call that is not answered by a leader, and finds a dry bucket at every turn. -/
structure Dry (c : BufferedCall) (turns : ℕ → Turn) : Prop where
  candidates : c.candidates ≠ []
  alone : c.enter.result = none
  start : c.start ≤ (turns 0).now
  /-- The clock, across the sleep between two turns. -/
  clock : ∀ n, (turns n).now + millis 50 ≤ (turns (n + 1)).now
  dry : ∀ n candidate, c.candidates[n % c.candidates.length]? = some candidate →
    ∃ p, c.ctx.acquire candidate (turns n).gates = some (.error (.rateLimited p))

theorem Dry.mono (h : Dry c turns) {m n : ℕ} (hle : m ≤ n) : (turns m).now ≤ (turns n).now := by
  induction n, hle using Nat.le_induction with
  | base => exact le_rfl
  | succ n _ ih =>
      have hnext := h.clock n
      omega

theorem Dry.candidate (h : Dry c turns) (n : ℕ) :
    ∃ candidate, c.candidates[n % c.candidates.length]? = some candidate := by
  have hpos : 0 < c.candidates.length := List.length_pos_of_ne_nil h.candidates
  exact ⟨_, List.getElem?_eq_getElem (Nat.mod_lt n hpos)⟩

theorem enter_clock (c : BufferedCall) : c.enter.clock = c.start := by
  obtain ⟨lead, result, henter⟩ := enter_eq c
  rw [henter]

/-- One turn more. -/
theorem executeBuffered_succ (hexec : executeBuffered json c ((List.range n).map turns) = some s)
    (hstep : c.step json s (turns n) = some s') :
    executeBuffered json c ((List.range (n + 1)).map turns) = some s' := by
  rw [List.range_succ, List.map_append]
  unfold executeBuffered at hexec ⊢
  rw [System.exec_append hexec]
  show (c.step json s (turns n)).bind _ = _
  rw [hstep]
  rfl

/-- As long as neither the deadline nor the budget is reached, each turn is one more attempt. -/
theorem Dry.run (h : Dry c turns) (json : BodyCodec ν) (hearly : ∀ i < n, (turns i).now < c.ctx.deadline)
    (hbudget : n ≤ c.maxAttempts) :
    ∃ s, executeBuffered json c ((List.range n).map turns) = some s ∧ s.result = none ∧ s.attempts = n ∧
      s.clock ≤ (turns n).now ∧ (0 < n → ∃ p, s.lastError = .rateLimited p) := by
  induction n with
  | zero =>
      refine ⟨c.enter, rfl, h.alone, (enter_frame c).1, ?_, fun hpos => absurd hpos (by decide)⟩
      rw [enter_clock]
      exact h.start
  | succ n ih =>
      obtain ⟨s, hexec, hresult, hattempts, hclock, -⟩ :=
        ih (fun i hi => hearly i (by omega)) (by omega)
      obtain ⟨candidate, hcandidate⟩ := h.candidate n
      obtain ⟨p, hacquire⟩ := h.dry n candidate hcandidate
      rw [← hattempts] at hcandidate
      have hstep : c.step json s (turns n) = some _ :=
        step_refused hresult hclock (hearly n (by omega)) (by omega) hcandidate hacquire
      refine ⟨_, executeBuffered_succ hexec hstep, hresult, ?_, h.clock n, fun _ => ⟨p, rfl⟩⟩
      show s.attempts + 1 = n + 1
      omega

theorem maxAttempts_pos (c : BufferedCall) : 0 < c.maxAttempts := by
  unfold maxAttempts
  split <;> omega

/-- The call ends at the deadline, with `Deadline`. -/
def WaitsOut (json : BodyCodec ν) (c : BufferedCall) (turns : ℕ → Turn) : Prop :=
  ∃ n s, executeBuffered json c ((List.range (n + 1)).map turns) = some s ∧ s.result = some (.error .deadline) ∧
    c.ctx.deadline ≤ (turns n).now

/-- The deadline comes before the budget is spent. -/
theorem Dry.waitsOut (h : Dry c turns) (json : BodyCodec ν) (hlate : c.ctx.deadline ≤ (turns c.maxAttempts).now) :
    WaitsOut json c turns := by
  have hexists : ∃ n, c.ctx.deadline ≤ (turns n).now := ⟨_, hlate⟩
  classical
  -- the first turn whose reading is not before the deadline
  have hle : Nat.find hexists ≤ c.maxAttempts := Nat.find_min' hexists hlate
  have hearly : ∀ i < Nat.find hexists, (turns i).now < c.ctx.deadline := by
    intro i hi
    have := Nat.find_min hexists hi
    omega
  obtain ⟨s, hexec, hresult, -, hclock, -⟩ := h.run json hearly hle
  have hstep : c.step json s _ = some _ := step_deadline hresult hclock (Nat.find_spec hexists)
  exact ⟨_, _, executeBuffered_succ hexec hstep, rfl, Nat.find_spec hexists⟩

/-- The budget is spent before the deadline comes. -/
theorem Dry.spent (h : Dry c turns) (json : BodyCodec ν) (hearly : (turns c.maxAttempts).now < c.ctx.deadline) :
    ∃ s p, executeBuffered json c ((List.range (c.maxAttempts + 1)).map turns) = some s ∧
      s.result = some (.error (.rateLimited p)) := by
  have hbefore : ∀ i < c.maxAttempts, (turns i).now < c.ctx.deadline := fun i hi =>
    lt_of_le_of_lt (h.mono (Nat.le_of_lt hi)) hearly
  obtain ⟨s, hexec, hresult, hattempts, hclock, hlast⟩ := h.run json hbefore le_rfl
  obtain ⟨p, hp⟩ := hlast (maxAttempts_pos c)
  have hstep : c.step json s _ = some _ := step_spent hresult hclock hearly hattempts.ge
  refine ⟨_, p, executeBuffered_succ hexec hstep, ?_⟩
  rw [hp]
  rfl

/-- A call that has ended has ended at that turn. -/
theorem le_of_returned {m : ℕ} (hexec : executeBuffered json c ((List.range n).map turns) = some s)
    (hresult : s.result ≠ none) (hmore : executeBuffered json c ((List.range m).map turns) = some s') : m ≤ n := by
  by_contra hlt
  obtain ⟨d, rfl⟩ : ∃ d, m = n + (d + 1) := ⟨m - n - 1, by omega⟩
  rw [List.range_add, List.map_append] at hmore
  unfold executeBuffered at hexec hmore
  rw [System.exec_append hexec, List.range_succ_eq_map, List.map_cons, List.map_cons,
    exec_of_returned hresult] at hmore
  cases hmore

end BufferedCall

open BufferedCall (Dry WaitsOut)

/-- **When a call on dry buckets waits.**  It ends at the deadline, with `Deadline`, if and only if the deadline has
come when it would take the turn after its last attempt.  Otherwise it ends there with `RateLimited`, a 502. -/
theorem dry_call_waits_iff (json : BodyCodec ν) (h : Dry c turns) :
    (WaitsOut json c turns ↔ c.ctx.deadline ≤ (turns c.maxAttempts).now) ∧
      (¬ WaitsOut json c turns → ∃ n s e, executeBuffered json c ((List.range n).map turns) = some s ∧
        s.result = some (.error e) ∧ e.httpStatus = 502) := by
  have hiff : WaitsOut json c turns ↔ c.ctx.deadline ≤ (turns c.maxAttempts).now := by
    refine ⟨?_, h.waitsOut json⟩
    rintro ⟨n, s, hexec, -, hlate⟩
    by_contra hearly
    obtain ⟨s', p, hexec', hresult'⟩ := h.spent json (by omega)
    have hle := BufferedCall.le_of_returned hexec' (by rw [hresult']; simp) hexec
    have hmono := h.mono (show n ≤ c.maxAttempts by omega)
    omega
  refine ⟨hiff, fun hnot => ?_⟩
  obtain ⟨s, p, hexec, hresult⟩ := h.spent json (by rw [hiff] at hnot; omega)
  exact ⟨_, s, _, hexec, hresult, rfl⟩

/-! Two providers whose buckets stay dry. -/

/-- A turn every 50 ms. -/
def dryTurn (n : ℕ) : Turn := ⟨n * millis 50, openGates 0, .connectError "", 0, 0, 0⟩

theorem acquire_dry (ctx : AcquireCtx) (candidate : RouteCandidate) :
    ctx.acquire candidate (openGates 0) = some (.error (.rateLimited candidate.provider)) := by
  have hcircuit : (CircuitBreaker.astmatrixDefaults.allow 0).1 = true := rfl
  have hbucket : ((openGates 0).limiter.allow candidate.provider 0).1 = false := by
    show (TokenBucket.allow ⟨0, 60, 1, 0⟩ 0).1 = false
    decide +kernel
  unfold AcquireCtx.acquire
  show (if (CircuitBreaker.astmatrixDefaults.allow 0).1 = false then _
    else if ((openGates 0).limiter.allow candidate.provider 0).1 = false then _ else _) = _
  rw [hcircuit, if_neg (by decide), hbucket, if_pos rfl]

theorem two_dry : Dry (chatCall ["openai", "groq"]) dryTurn where
  candidates := by simp [chatCall]
  alone := rfl
  start := by decide
  clock n := by
    show (n : ℤ) * millis 50 + millis 50 ≤ ((n + 1 : ℕ) : ℤ) * millis 50
    push_cast
    linarith
  dry n candidate _ := ⟨_, acquire_dry _ candidate⟩

theorem dry_call_waits_iff_two :
    (WaitsOut embeddingJson (chatCall ["openai", "groq"]) dryTurn ↔
      (chatCall ["openai", "groq"]).ctx.deadline ≤
        (dryTurn (chatCall ["openai", "groq"]).maxAttempts).now) ∧
    (¬ WaitsOut embeddingJson (chatCall ["openai", "groq"]) dryTurn → ∃ n s e,
      executeBuffered embeddingJson (chatCall ["openai", "groq"]) ((List.range n).map dryTurn) = some s ∧
        s.result = some (.error e) ∧ e.httpStatus = 502) :=
  dry_call_waits_iff embeddingJson two_dry

/-- Three attempts are spent in 150 ms, ten minutes before the deadline: a 502. -/
theorem dry_call_not_waited : Dry (chatCall ["openai", "groq"]) dryTurn ∧ ∃ s,
    executeBuffered embeddingJson (chatCall ["openai", "groq"]) ((List.range 4).map dryTurn) = some s ∧
      s.result = some (.error (.rateLimited "openai")) ∧ (dryTurn 3).now = millis 150 ∧
      (chatCall ["openai", "groq"]).ctx.deadline = secs 600 := by
  refine ⟨two_dry, ?_⟩
  have heval : (executeBuffered embeddingJson (chatCall ["openai", "groq"]) ((List.range 4).map dryTurn)).any
      (fun s => decide (s.result = some (.error (.rateLimited "openai")))) = true := by decide +kernel
  obtain ⟨s, hs, hresult⟩ := (Option.any_eq_true _ _).mp heval
  exact ⟨s, hs, of_decide_eq_true hresult, by decide, rfl⟩

/-! ## One slow candidate -/

/-- The same gates, where nothing waits for a second round. -/
def Gates.atOnce (g : Gates) : Gates := { g with permits := g.permits.take 1, slots := g.slots.take 1 }

/-- A clock reading of the waits for a permit and for a slot. -/
def Gates.readings (g : Gates) : List ℤ :=
  g.permits.map (·.checkedAt) ++ g.slots.filterMap fun r =>
    match r with
    | .reserve _ _ _ checkedAt => some checkedAt
    | .clientGone => none

/-- **`SlowCandidate c s t j g`** — before the deadline, the candidate of this turn turns out to have no permit or
no slot until the deadline; candidate `j` has had no turn, is within the budget, and would be granted at once. -/
structure SlowCandidate (c : BufferedCall) (s : Exec) (t : Turn) (j : ℕ) (g : Gates) : Prop where
  several : 2 ≤ c.candidates.length
  running : s.result = none
  clock : s.clock ≤ t.now
  early : t.now < c.ctx.deadline
  before : ∀ r ∈ t.gates.readings, r < c.ctx.deadline
  budget : s.attempts < c.maxAttempts
  slow : ∃ candidate, c.candidates[s.attempts % c.candidates.length]? = some candidate ∧
    c.ctx.acquire candidate t.gates = some (.error .deadline)
  untried : s.attempts < j ∧ j < c.candidates.length ∧ j < c.maxAttempts
  granted : ∃ other x, c.candidates[j]? = some other ∧ c.ctx.acquire other g.atOnce = some (.ok x)

/-- After this turn the call comes to an attempt on candidate `j`. -/
def GoesOn (json : BodyCodec ν) (c : BufferedCall) (s : Exec) (t : Turn) (j : ℕ) : Prop :=
  ∃ ts s', System.exec (c.step json) s (t :: ts) = some s' ∧ ∃ a ∈ s'.log, a.number = j + 1

/-- **A slow candidate ends the call.**  In every state of every call: where the candidate of a turn has no room
before the deadline, the call returns `Deadline` there, and never comes to the candidate that has room. -/
theorem slow_candidate_ends_call {j : ℕ} {g : Gates} (hexec : executeBuffered json c ts = some s)
    (h : SlowCandidate c s t j g) :
    (∃ s', c.step json s t = some s' ∧ s'.result = some (.error .deadline)) ∧ ¬ GoesOn json c s t j := by
  obtain ⟨candidate, hcandidate, hacquire⟩ := h.slow
  obtain ⟨s₁, hstep, hresult, hlog⟩ : ∃ s₁, c.step json s t = some s₁ ∧ s₁.result = some (.error .deadline) ∧
      s₁.log = s.log :=
    ⟨_, BufferedCall.step_refused h.running h.clock h.early h.budget hcandidate hacquire, rfl, rfl⟩
  refine ⟨⟨s₁, hstep, hresult⟩, ?_⟩
  rintro ⟨ts', s', hmore, a, ha, hnumber⟩
  rw [System.exec, hstep, Option.bind_some] at hmore
  cases ts' with
  | cons t' ts' =>
      -- the call has returned
      rw [BufferedCall.exec_of_returned (by rw [hresult]; simp)] at hmore
      cases hmore
  | nil =>
      obtain rfl := Option.some.inj hmore
      rw [hlog] at ha
      have hle := (BufferedCall.executeBuffered_booked hexec).numbered a ha
      have hlt := h.untried.1
      omega

/-- A pool whose one key is spent. -/
def spentPool : Pool := ⟨[⟨"sk-1", 1, [0], 0⟩], 1, by decide⟩

/-- A call that waits for 30 s at most. -/
def hastyCall : BufferedCall := { chatCall ["openai", "groq"] with ctx := ⟨secs 30, secs 5, true, none, none⟩ }

/-- The first candidate has no slot for a minute. -/
def slowTurn : Turn := ⟨1, { openGates 60 with slots := [.reserve 0 spentPool 1 1] }, .connectError "", 0, 0, 0⟩

deriving instance DecidableEq for Acquired

theorem slowTurn_refused : hastyCall.ctx.acquire ⟨"openai", "m", .hybrid⟩ slowTurn.gates = some (.error .deadline) := by
  decide +kernel

theorem openGates_granted : hastyCall.ctx.acquire ⟨"groq", "m", .hybrid⟩ (openGates 60).atOnce =
    some (.ok (⟨"groq", "m", .hybrid, 0, 0, 0, none⟩, ⟨"https://integrate.api.nvidia.com", "m", "nvapi-1"⟩)) := by
  decide +kernel

theorem slowTurn_slow : SlowCandidate hastyCall hastyCall.enter slowTurn 1 (openGates 60) where
  several := by decide
  running := rfl
  clock := by decide
  early := by decide
  before := by decide
  budget := by decide
  slow := ⟨⟨"openai", "m", .hybrid⟩, rfl, slowTurn_refused⟩
  untried := by decide
  granted := ⟨⟨"groq", "m", .hybrid⟩, _, rfl, openGates_granted⟩

theorem slow_candidate_ends_call_hasty :
    (∃ s', hastyCall.step embeddingJson hastyCall.enter slowTurn = some s' ∧
      s'.result = some (.error .deadline)) ∧ ¬ GoesOn embeddingJson hastyCall hastyCall.enter slowTurn 1 :=
  have hexec : executeBuffered embeddingJson hastyCall [] = some hastyCall.enter := rfl
  slow_candidate_ends_call hexec slowTurn_slow

/-- A call for two providers is refused after one nanosecond, with 30 s to go and the second one free. -/
theorem free_candidate_not_asked : SlowCandidate hastyCall hastyCall.enter slowTurn 1 (openGates 60) ∧ ∃ s,
    executeBuffered embeddingJson hastyCall [slowTurn] = some s ∧ s.result = some (.error .deadline) ∧
      s.attempts = 1 ∧ s.log.length = 0 := by
  refine ⟨slowTurn_slow, ?_⟩
  have heval : (executeBuffered embeddingJson hastyCall [slowTurn]).any (fun s =>
      decide (s.result = some (.error .deadline)) && decide (s.attempts = 1 ∧ s.log.length = 0)) = true := by
    decide +kernel
  obtain ⟨s, hs, htest⟩ := (Option.any_eq_true _ _).mp heval
  simp only [Bool.and_eq_true, decide_eq_true_eq] at htest
  exact ⟨s, hs, htest.1, htest.2⟩

end Flock
