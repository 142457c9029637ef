/-
# Flock.Client.KeyPool — the key pool of the two SDKs.

One pool, written twice: in TypeScript the clock counts milliseconds, in Python seconds, and the two trim keys by
their own notion of white space (`Sdk`).  Requests that run side by side share the pool, so their outcomes are
reported in any order.

A 429 parks its key.  A success of an earlier request on the same key takes the park away again, and another 429
may end it earlier; where neither happens while the park runs (`KeepsParks`) the key is not handed out before the
park is over.
-/
import Flock.Lib.Transition
import Mathlib.Algebra.Order.Field.Rat
import Mathlib.Data.List.Induction
import Mathlib.Data.List.Nodup

namespace Flock.Client

open Lib (System)

/-! ## The two SDKs -/

inductive Sdk where
  | typescript
  | python
  deriving DecidableEq, Repr

/-- `DEFAULT_RETRY_AFTER_MS`. -/
def defaultRetryAfterMs : ℚ := 60000

/-- The white space of `String.prototype.trim` and of `str.strip`: they agree but for the byte order mark, the
separators of ASCII and the next-line character. -/
def Sdk.isSpace (sdk : Sdk) (c : Char) : Bool :=
  let n := c.toNat
  (0x09 ≤ n && n ≤ 0x0D) || n == 0x20 || n == 0xA0 || n == 0x1680 || (0x2000 ≤ n && n ≤ 0x200A) || n == 0x2028 ||
    n == 0x2029 || n == 0x202F || n == 0x205F || n == 0x3000 ||
    match sdk with
    | .typescript => n == 0xFEFF
    | .python => (0x1C ≤ n && n ≤ 0x1F) || n == 0x85

def Sdk.trim (sdk : Sdk) (s : String) : String :=
  String.ofList ((s.toList.dropWhile sdk.isSpace).reverse.dropWhile sdk.isSpace).reverse

/-- How long a 429 parks, on the SDK's clock. -/
def Sdk.delay (sdk : Sdk) (retryAfterMs : Option ℚ) : ℚ :=
  match sdk with
  | .typescript => retryAfterMs.getD defaultRetryAfterMs
  | .python => retryAfterMs.getD defaultRetryAfterMs / 1000

/-! ## The pool -/

structure KeyState where
  key : String
  successCount : ℕ := 0
  failureCount : ℕ := 0
  rateLimitCount : ℕ := 0
  rateLimitedUntil : Option ℚ := none
  lastFailureReason : Option String := none
  deriving DecidableEq

/-- `isLimited`. -/
def KeyState.isLimited (s : KeyState) (now : ℚ) : Bool := s.rateLimitedUntil.any fun u => decide (now < u)

/-- `FlockKeyPool`: no key is registered twice. -/
structure KeyPool where
  keys : List KeyState
  cursor : ℕ
  distinct : (keys.map (·.key)).Nodup

/-- The keys a pool is built from: trimmed, none empty, none twice. -/
def registered (sdk : Sdk) (keys : List String) : List String :=
  keys.foldl (fun seen raw =>
    let key := sdk.trim raw
    if key = "" ∨ key ∈ seen then seen else seen ++ [key]) []

theorem registered_nodup (sdk : Sdk) (keys : List String) : (registered sdk keys).Nodup := by
  unfold registered
  induction keys using List.reverseRecOn with
  | nil => exact List.nodup_nil
  | append_singleton keys raw ih =>
      rw [List.foldl_append, List.foldl_cons, List.foldl_nil]
      dsimp only
      split
      · exact ih
      · rename_i hnew
        rw [not_or] at hnew
        refine List.nodup_append.mpr ⟨ih, List.nodup_singleton _, ?_⟩
        intro x hx y hy heq
        obtain rfl := List.mem_singleton.mp hy
        exact hnew.2 (heq ▸ hx)

/-- What a report does to the first state of a key. -/
def modifyKey (key : String) (f : KeyState → KeyState) : List KeyState → List KeyState
  | [] => []
  | s :: rest => if s.key = key then f s :: rest else s :: modifyKey key f rest

theorem map_key_modifyKey (key : String) {f : KeyState → KeyState} (hf : ∀ s, (f s).key = s.key)
    (l : List KeyState) : (modifyKey key f l).map (·.key) = l.map (·.key) := by
  induction l with
  | nil => rfl
  | cons s rest ih =>
      unfold modifyKey
      split
      · rw [List.map_cons, List.map_cons, hf]
      · rw [List.map_cons, List.map_cons, ih]

namespace KeyPool

/-- The constructor. -/
def new (sdk : Sdk) (keys : List String) : KeyPool where
  keys := (registered sdk keys).map fun key => { key }
  cursor := 0
  distinct := by
    rw [List.map_map]
    exact (List.map_id _).symm ▸ registered_nodup sdk keys

def modify (p : KeyPool) (key : String) (f : KeyState → KeyState) (hf : ∀ s, (f s).key = s.key) : KeyPool where
  keys := modifyKey key f p.keys
  cursor := p.cursor
  distinct := (map_key_modifyKey key hf p.keys).symm ▸ p.distinct

/-- `recordSuccess`. -/
def recordSuccess (p : KeyPool) (key : String) : KeyPool :=
  p.modify key (fun s => { s with
    successCount := s.successCount + 1
    rateLimitedUntil := none
    lastFailureReason := none }) fun _ => rfl

/-- `recordFailure`. -/
def recordFailure (p : KeyPool) (key reason : String) : KeyPool :=
  p.modify key (fun s => { s with
    failureCount := s.failureCount + 1
    lastFailureReason := some reason }) fun _ => rfl

/-- `recordRateLimit`, at the time `now`. -/
def recordRateLimit (p : KeyPool) (sdk : Sdk) (now : ℚ) (key : String) (retryAfterMs : Option ℚ) : KeyPool :=
  p.modify key (fun s => { s with
    rateLimitCount := s.rateLimitCount + 1
    lastFailureReason := some "Rate limited (429)"
    rateLimitedUntil := some (now + sdk.delay retryAfterMs) }) fun _ => rfl

/-- The index the rotation looks at in its `i`-th round. -/
def turn (p : KeyPool) (i : ℕ) : ℕ := (p.cursor + i) % p.keys.length

/-- The state that is handed out from index `idx`, unless it is limited. -/
def usable (p : KeyPool) (now : ℚ) (idx : ℕ) : Option KeyState :=
  p.keys[idx]?.filter fun s => !s.isLimited now

/-- `nextAvailable`, at the time `now`. -/
def nextAvailable (p : KeyPool) (now : ℚ) : KeyPool × Option String :=
  match (List.range p.keys.length).findSome? fun i => (p.usable now (p.turn i)).map fun s => (p.turn i, s.key) with
  | some (idx, key) => ({ p with cursor := (idx + 1) % p.keys.length }, some key)
  | none => (p, none)

/-- Until when a key is parked, by the pool. -/
def parkedUntil (p : KeyPool) (key : String) : Option ℚ :=
  (p.keys.find? (·.key == key)).bind (·.rateLimitedUntil)

end KeyPool

/-! ## Reports and hand-outs -/

theorem find_modifyKey {key : String} {f : KeyState → KeyState} (hf : ∀ s, (f s).key = s.key) (k : String)
    (l : List KeyState) : (modifyKey key f l).find? (·.key == k) =
      if k = key then (l.find? (·.key == k)).map f else l.find? (·.key == k) := by
  induction l with
  | nil => split <;> rfl
  | cons s rest ih =>
      unfold modifyKey
      by_cases hs : s.key = key
      · rw [if_pos hs]
        by_cases hk : k = key
        · rw [if_pos hk, List.find?_cons_of_pos (by simp [hf, hs, hk]), List.find?_cons_of_pos (by simp [hs, hk])]
          rfl
        · have hne : ¬ s.key = k := fun h => hk (h.symm.trans hs)
          rw [if_neg hk, List.find?_cons_of_neg (by simpa [hf] using hne), List.find?_cons_of_neg (by simpa using hne)]
      · rw [if_neg hs]
        by_cases hsk : s.key = k
        · have hk : ¬ k = key := fun h => hs (hsk.trans h)
          rw [if_neg hk, List.find?_cons_of_pos (by simp [hsk]), List.find?_cons_of_pos (by simp [hsk])]
        · rw [List.find?_cons_of_neg (by simpa using hsk), List.find?_cons_of_neg (by simpa using hsk), ih]

/-- Where no key is there twice, a state is the one its key finds. -/
theorem find_key_of_mem {l : List KeyState} (h : (l.map (·.key)).Nodup) {s : KeyState} (hs : s ∈ l) :
    l.find? (·.key == s.key) = some s := by
  induction l with
  | nil => cases hs
  | cons x rest ih =>
      rw [List.map_cons, List.nodup_cons] at h
      rcases List.mem_cons.mp hs with rfl | hrest
      · exact List.find?_cons_of_pos (by simp)
      · have hne : ¬ x.key = s.key := fun heq => h.1 (heq ▸ List.mem_map_of_mem hrest)
        rw [List.find?_cons_of_neg (by simpa using hne), ih h.2 hrest]

namespace KeyPool

variable {p : KeyPool} {sdk : Sdk} {key k : String} {now u : ℚ}

theorem parkedUntil_modify_of_ne {f : KeyState → KeyState} (hf : ∀ s, (f s).key = s.key) (h : k ≠ key) :
    (p.modify key f hf).parkedUntil k = p.parkedUntil k := by
  unfold parkedUntil
  show ((modifyKey key f p.keys).find? _).bind _ = _
  rw [find_modifyKey hf, if_neg h]

theorem parkedUntil_modify {f : KeyState → KeyState} (hf : ∀ s, (f s).key = s.key) :
    (p.modify key f hf).parkedUntil key = (p.keys.find? (·.key == key)).bind fun s => (f s).rateLimitedUntil := by
  unfold parkedUntil
  show ((modifyKey key f p.keys).find? _).bind _ = _
  rw [find_modifyKey hf, if_pos rfl, Option.bind_map]
  rfl

/-- A failure leaves every park alone. -/
theorem parkedUntil_recordFailure (reason : String) : (p.recordFailure key reason).parkedUntil k = p.parkedUntil k := by
  unfold recordFailure
  by_cases h : k = key
  · subst h
    rw [parkedUntil_modify]
    rfl
  · exact parkedUntil_modify_of_ne _ h

theorem parkedUntil_recordSuccess_of_ne (h : k ≠ key) : (p.recordSuccess key).parkedUntil k = p.parkedUntil k :=
  parkedUntil_modify_of_ne _ h

theorem parkedUntil_recordRateLimit_of_ne (d : Option ℚ) (h : k ≠ key) :
    (p.recordRateLimit sdk now key d).parkedUntil k = p.parkedUntil k :=
  parkedUntil_modify_of_ne _ h

/-- Whether a key is in the pool. -/
def has (p : KeyPool) (key : String) : Prop := (p.keys.find? (·.key == key)).isSome = true

theorem has_modify {f : KeyState → KeyState} (hf : ∀ s, (f s).key = s.key) :
    (p.modify key f hf).has k ↔ p.has k := by
  unfold has
  show ((modifyKey key f p.keys).find? _).isSome = true ↔ _
  rw [find_modifyKey hf]
  split
  · rw [Option.isSome_map]
  · rfl

theorem has_recordSuccess : (p.recordSuccess key).has k ↔ p.has k := by
  unfold recordSuccess
  exact has_modify _

theorem has_recordFailure (reason : String) : (p.recordFailure key reason).has k ↔ p.has k := by
  unfold recordFailure
  exact has_modify _

theorem has_recordRateLimit (d : Option ℚ) : (p.recordRateLimit sdk now key d).has k ↔ p.has k := by
  unfold recordRateLimit
  exact has_modify _

/-- A 429 parks its key for the delay. -/
theorem parkedUntil_recordRateLimit (h : p.has key) (d : Option ℚ) :
    (p.recordRateLimit sdk now key d).parkedUntil key = some (now + sdk.delay d) := by
  unfold recordRateLimit
  obtain ⟨s, hs⟩ := Option.isSome_iff_exists.mp h
  rw [parkedUntil_modify, hs]
  rfl

theorem keys_nextAvailable (p : KeyPool) (now : ℚ) : (p.nextAvailable now).1.keys = p.keys := by
  unfold nextAvailable
  split <;> rfl

/-- **What `nextAvailable` hands out** is a key of the pool whose park, if it has one, is over. -/
theorem nextAvailable_eq_some (h : (p.nextAvailable now).2 = some k) :
    p.has k ∧ ∀ u, p.parkedUntil k = some u → u ≤ now := by
  unfold nextAvailable at h
  split at h
  · rename_i idx key hfound
    cases h
    obtain ⟨i, -, hturn⟩ := List.exists_of_findSome?_eq_some hfound
    obtain ⟨s, husable, heq⟩ := Option.map_eq_some_iff.mp hturn
    obtain ⟨hidx, rfl⟩ := Prod.mk.inj heq
    obtain ⟨hget, hfree⟩ := Option.filter_eq_some_iff.mp husable
    -- no two states have one key, so the state handed out is the one reports go to
    have hfind : p.keys.find? (·.key == s.key) = some s :=
      find_key_of_mem p.distinct (List.mem_of_getElem? hget)
    refine ⟨?_, ?_⟩
    · unfold has
      rw [hfind]
      rfl
    · intro u hu
      unfold parkedUntil at hu
      rw [hfind, Option.bind_some] at hu
      unfold KeyState.isLimited at hfree
      rw [hu] at hfree
      simpa using hfree
  · cases h

end KeyPool

/-! ## Runs -/

/-- A pool in use. -/
structure Usage where
  pool : KeyPool
  /-- Ghost: the latest reading of the clock. -/
  clock : ℚ

/-- One call of the pool, at the time `now`: a request takes a key, or the outcome of one is reported.  Only
`nextAvailable` and `recordRateLimit` read the clock. -/
inductive Call where
  | nextAvailable (now : ℚ)
  | recordSuccess (now : ℚ) (key : String)
  | recordFailure (now : ℚ) (key reason : String)
  | recordRateLimit (now : ℚ) (key : String) (retryAfterMs : Option ℚ)

def Call.now : Call → ℚ
  | nextAvailable now | recordSuccess now _ | recordFailure now _ _ | recordRateLimit now _ _ => now

namespace Usage

def act (sdk : Sdk) (p : KeyPool) : Call → KeyPool
  | .nextAvailable now => (p.nextAvailable now).1
  | .recordSuccess _ key => p.recordSuccess key
  | .recordFailure _ key reason => p.recordFailure key reason
  | .recordRateLimit now key d => p.recordRateLimit sdk now key d

def step (sdk : Sdk) (s : Usage) (c : Call) : Option Usage :=
  some ⟨act sdk s.pool c, max s.clock c.now⟩

/-- **`KeepsParks`** — the clock is not set back, and a park that runs is not taken away by a success nor ended
earlier by another 429. -/
def KeepsParks (sdk : Sdk) (s : Usage) (c : Call) : Prop :=
  s.clock ≤ c.now ∧
    match c with
    | .recordSuccess now key => ∀ u, s.pool.parkedUntil key = some u → u ≤ now
    | .recordRateLimit now key d => ∀ u, s.pool.parkedUntil key = some u → u ≤ now ∨ u ≤ now + sdk.delay d
    | _ => True

end Usage

/-- Every order of calls, from every pool the constructor builds. -/
def keySystem (sdk : Sdk) : System Usage Call :=
  .ofStep (fun s => ∃ keys t, s = ⟨.new sdk keys, t⟩) (Usage.step sdk)

namespace Usage

variable {sdk : Sdk} {s s₁ s₂ : Usage} {c : Call} {key k : String} {u now t : ℚ} {d : Option ℚ} {cs : List Call}

/-- The key is parked until `u` or longer, unless that is over. -/
def Parked (key : String) (u : ℚ) (s : Usage) : Prop :=
  s.clock < u → ∃ v, s.pool.parkedUntil key = some v ∧ u ≤ v

theorem parked_recordRateLimit (h : s.pool.has key) (hstep : s.step sdk (.recordRateLimit t key d) = some s₁) :
    Parked key (t + sdk.delay d) s₁ := by
  cases hstep
  exact fun _ => ⟨_, KeyPool.parkedUntil_recordRateLimit h d, le_rfl⟩

/-- **One call keeps a park**, under the condition. -/
theorem Parked.step (h : Parked key u s) (hhas : s.pool.has key) (hstep : s.step sdk c = some s₁)
    (hkeeps : KeepsParks sdk s c) : Parked key u s₁ := by
  cases hstep
  obtain ⟨hclock, hkeeps⟩ := hkeeps
  intro hlt
  rw [max_eq_right hclock] at hlt
  obtain ⟨v, hv, hle⟩ := h (hclock.trans_lt hlt)
  cases c with
  | nextAvailable now =>
      refine ⟨v, ?_, hle⟩
      show (s.pool.nextAvailable now).1.parkedUntil key = _
      unfold KeyPool.parkedUntil
      rw [KeyPool.keys_nextAvailable]
      exact hv
  | recordFailure now k reason => exact ⟨v, (KeyPool.parkedUntil_recordFailure reason).trans hv, hle⟩
  | recordSuccess now k =>
      by_cases hk : key = k
      · subst hk
        -- only a park that is over is taken away
        exact absurd (hle.trans (hkeeps v hv)) (not_le.mpr hlt)
      · exact ⟨v, (KeyPool.parkedUntil_recordSuccess_of_ne hk).trans hv, hle⟩
  | recordRateLimit now k d =>
      by_cases hk : key = k
      · subst hk
        refine ⟨_, KeyPool.parkedUntil_recordRateLimit hhas d, ?_⟩
        rcases hkeeps v hv with hover | hlonger
        · exact absurd (hle.trans hover) (not_le.mpr hlt)
        · exact hle.trans hlonger
      · exact ⟨v, (KeyPool.parkedUntil_recordRateLimit_of_ne d hk).trans hv, hle⟩

/-- The keys of a pool are what they were. -/
theorem has_step (hstep : s.step sdk c = some s₁) : s₁.pool.has key ↔ s.pool.has key := by
  cases hstep
  cases c with
  | nextAvailable now =>
      show (s.pool.nextAvailable now).1.has key ↔ _
      unfold KeyPool.has
      rw [KeyPool.keys_nextAvailable]
  | recordSuccess now k => exact KeyPool.has_recordSuccess
  | recordFailure now k reason => exact KeyPool.has_recordFailure reason
  | recordRateLimit now k d => exact KeyPool.has_recordRateLimit d

theorem has_run (hrun : ((keySystem sdk).restrict (KeepsParks sdk)).Run s cs s₁) :
    s₁.pool.has key ↔ s.pool.has key := by
  induction hrun with
  | nil => exact Iff.rfl
  | snoc _ hstep ih => exact (has_step hstep.1).trans ih

/-- **A run keeps a park**, under the condition. -/
theorem Parked.run (h : Parked key u s) (hhas : s.pool.has key)
    (hrun : ((keySystem sdk).restrict (KeepsParks sdk)).Run s cs s₁) : Parked key u s₁ := by
  induction hrun with
  | nil => exact h
  | snoc hbefore hstep ih => exact ih.step ((has_run hbefore).mpr hhas) hstep.1 hstep.2

/-- Two requests are on their way with one key, a 429 parks it for half a minute, and it is handed out again in that
time. -/
def HandedOutParked (sdk : Sdk) (meanwhile : List Call) : Prop :=
  ∃ s s₁ s₂, (keySystem sdk).Run ⟨.new sdk ["k"], 0⟩ [.nextAvailable 0, .nextAvailable 1] s ∧
    (keySystem sdk).step s (.recordRateLimit 10 "k" (some 30000)) s₁ ∧ (keySystem sdk).Run s₁ meanwhile s₂ ∧
    25 < 10 + sdk.delay (some 30000) ∧ (s₂.pool.nextAvailable 25).2 = some "k"

end Usage

end Flock.Client
