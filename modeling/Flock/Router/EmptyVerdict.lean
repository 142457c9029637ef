/-
# Flock.Router.EmptyVerdict — when "all candidates returned empty completions" is true.

The loop of `execute_buffered` counts the empty completions of a call and gives up when there are as many as
candidates.  It does not count candidates: it cycles over the list, so one candidate can come back empty twice while
another failed in some other way, and the count is reached all the same.  By the pigeonhole principle the report is
true exactly where no candidate came back empty twice, and that is sure exactly where the attempts of a call cannot
outnumber its candidates.
-/
import Flock.Lib.Orderings
import Flock.Router.Saturation

namespace Flock

open Lib (System)

variable {ν : Type} {json : BodyCodec ν} {c : BufferedCall} {s s' : Exec} {t : Turn} {acq : Acquired}
  {reply : UpstreamReply} {turns : List Turn}

/-- An empty completion: a 2xx on a chat-completions path whose body has no substance. -/
def UpstreamReply.empty (json : BodyCodec ν) (path : String) : UpstreamReply → Bool
  | .connectError _ => false
  | .response r => guarded path r.status && r.bytes.any fun body => !hasSubstance json body

/-- The text of the report. -/
def emptyVerdict (model : String) : String :=
  "all candidates returned empty completions for model '" ++ model ++ "'"

/-- The call reports that all candidates came back empty, having counted as many. -/
def ReportsEmpty (c : BufferedCall) (s : Exec) : Prop :=
  s.result = some (.error (.unavailable (emptyVerdict c.model))) ∧ c.candidates.length ≤ s.emptyCount

/-- The position of the candidate that an attempt was made on. -/
def Attempt.position (c : BufferedCall) (a : Attempt) : ℕ := (a.number - 1) % c.candidates.length

/-- **`AllEmpty`** — each candidate in the list returned an empty completion in the call. -/
def AllEmpty (json : BodyCodec ν) (c : BufferedCall) (s : Exec) : Prop :=
  ∀ j candidate, c.candidates[j]? = some candidate → ∃ a ∈ s.log, a.position c = j ∧
    a.acq.provider = candidate.provider ∧ a.reply.empty json c.request.pathQuery.text = true

/-- **`NoneTwice`** — no candidate came back empty twice. -/
def NoneTwice (json : BodyCodec ν) (c : BufferedCall) (s : Exec) : Prop :=
  ∀ a ∈ s.log, ∀ b ∈ s.log, a.reply.empty json c.request.pathQuery.text = true →
    b.reply.empty json c.request.pathQuery.text = true → a.position c = b.position c → a.number = b.number

/-- The report, if the call makes it, is true. -/
def HonestVerdict (json : BodyCodec ν) (c : BufferedCall) (s : Exec) : Prop :=
  ReportsEmpty c s → AllEmpty json c s

/-- A call that comes to its substance guard with more attempts than candidates, of which there are several. -/
structure Overcounts (c : BufferedCall) : Prop where
  chat : isChatCompletionsPath c.request.pathQuery.text = true
  alone : c.enter.result = none
  early : c.start < c.ctx.deadline
  several : 2 ≤ c.candidates.length
  retries : c.candidates.length < c.routing.maxRetries

namespace BufferedCall

/-! ## A turn, and what it counts

The count goes up at one place in the loop, and an attempt is logged at one place.  Both are read off `settle`, so the
log can stand for the count. -/

/-- The attempts of a log that came back empty, by number. -/
def emptyNumbers (json : BodyCodec ν) (c : BufferedCall) (log : List Attempt) : List ℕ :=
  (log.filter fun a => a.reply.empty json c.request.pathQuery.text).map (·.number)

/-- An empty completion goes to `emptyAnswer`. -/
theorem settle_empty (s : Exec) (acq : Acquired) (t : Turn)
    (hempty : reply.empty json c.request.pathQuery.text = true) :
    ∃ r, reply = .response r ∧ c.settle json s acq t reply = c.emptyAnswer s acq t r := by
  cases reply with
  | connectError e => cases hempty
  | response r =>
      simp only [UpstreamReply.empty, Bool.and_eq_true, Option.any_eq_true] at hempty
      obtain ⟨hguarded, body, hbytes, hnone⟩ := hempty
      refine ⟨r, rfl, ?_⟩
      unfold settle chatAnswer
      dsimp only
      rw [not_retryable_of_guarded hguarded, if_neg (by decide), if_pos hguarded, hbytes]
      dsimp only
      rw [if_neg (by simpa using hnone)]

/-- Nothing else is counted. -/
theorem settle_nonempty (s : Exec) (acq : Acquired) (t : Turn)
    (hnonempty : reply.empty json c.request.pathQuery.text = false) :
    (c.settle json s acq t reply).emptyCount = s.emptyCount := by
  cases reply with
  | connectError e => rfl
  | response r =>
      unfold settle
      dsimp only
      split
      · rfl
      · split
        · rename_i hguarded
          unfold chatAnswer
          split
          · rfl
          · rename_i body hbytes
            simp only [UpstreamReply.empty, hguarded, hbytes, Bool.true_and, Option.any_some,
              Bool.not_eq_false'] at hnonempty
            rw [if_pos hnonempty]
            dsimp only
            split <;> rfl
        · unfold otherAnswer
          dsimp only
          split
          · split <;> rfl
          · rfl

/-- An empty completion is counted once, and a call that goes on has not counted as many as candidates. -/
theorem settle_counts (acq : Acquired) (t : Turn) (hlt : s.emptyCount < c.candidates.length) :
    (c.settle json s acq t reply).emptyCount =
        s.emptyCount + (if reply.empty json c.request.pathQuery.text = true then 1 else 0) ∧
      ((c.settle json s acq t reply).result = none →
        (c.settle json s acq t reply).emptyCount < c.candidates.length) := by
  cases hempty : reply.empty json c.request.pathQuery.text with
  | false =>
      rw [settle_nonempty s acq t hempty]
      exact ⟨rfl, fun _ => hlt⟩
  | true =>
      obtain ⟨r, -, hsettle⟩ := settle_empty s acq t hempty
      rw [hsettle]
      unfold emptyAnswer
      dsimp only
      split
      · exact ⟨rfl, fun hnone => absurd hnone (by simp [Exec.fail])⟩
      · rename_i hmore
        exact ⟨rfl, fun _ => Nat.lt_of_not_le hmore⟩

/-- **`Tallied json c s`** — the count is that of the empty completions, and a call that goes on has not counted as
many as candidates. -/
structure Tallied (json : BodyCodec ν) (c : BufferedCall) (s : Exec) : Prop where
  count : s.emptyCount = (emptyNumbers json c s.log).length
  bounded : s.emptyCount ≤ c.candidates.length
  running : s.result = none → s.emptyCount < c.candidates.length
  budget : s.attempts ≤ c.maxAttempts
  clock : c.start ≤ s.clock
  early : s.log ≠ [] → c.start < c.ctx.deadline

/-- **`Placed c s`** — every attempt was made on the candidate at its position. -/
structure Placed (c : BufferedCall) (s : Exec) : Prop where
  positive : ∀ a ∈ s.log, 0 < a.number
  candidate : ∀ a ∈ s.log, ∃ candidate, c.candidates[a.position c]? = some candidate ∧
    a.acq.provider = candidate.provider

/-- A turn that has acquired an attempt. -/
structure Attempts (c : BufferedCall) (s : Exec) (t : Turn) (acq : Acquired) : Prop where
  early : t.now < c.ctx.deadline
  budget : s.attempts < c.maxAttempts
  candidate : ∃ candidate, c.candidates[s.attempts % c.candidates.length]? = some candidate ∧
    acq.provider = candidate.provider

/-- A turn that has not: nothing is logged or counted. -/
structure Skips (c : BufferedCall) (s s' : Exec) : Prop where
  log : s'.log = s.log
  count : s'.emptyCount = s.emptyCount
  clock : s.clock ≤ s'.clock
  budget : s'.attempts = s.attempts ∨ s'.attempts ≤ c.maxAttempts
  result : s.result = none

theorem refuse_skips (hresult : s.result = none) (hclock : s.clock ≤ t.now) (hlt : s.attempts < c.maxAttempts)
    (e : RouteError) :
    Skips c s (refuse { s with clock := t.now, attempts := s.attempts + 1 } t e) := by
  cases e with
  | unavailable p => exact ⟨rfl, rfl, hclock, .inr hlt, hresult⟩
  | rateLimited p =>
      refine ⟨rfl, rfl, ?_, .inr hlt, hresult⟩
      show s.clock ≤ t.now + millis 50
      omega
  | deadline => exact ⟨rfl, rfl, hclock, .inr hlt, hresult⟩
  | clientGone => exact ⟨rfl, rfl, hclock, .inr hlt, hresult⟩

/-- **What a turn can do**, with the candidate it is taken on. -/
theorem step_attempt (h : c.step json s t = some s') : Skips c s s' ∨
    ∃ acq sent, Attempts c s t acq ∧ s.result = none ∧ s.clock ≤ t.now ∧
      s' = c.settle json (acquired s t acq sent) acq t t.reply := by
  unfold step at h
  split at h
  · cases h
  · rename_i hopen
    rw [not_or, Bool.not_eq_true, Option.isSome_eq_false_iff, Option.isNone_iff_eq_none] at hopen
    obtain ⟨hresult, hclock⟩ := hopen
    have hclock : s.clock ≤ t.now := by omega
    dsimp only at h
    split at h
    · obtain rfl := Option.some.inj h
      exact .inl ⟨rfl, rfl, hclock, .inl rfl, hresult⟩
    · split at h
      · obtain rfl := Option.some.inj h
        exact .inl ⟨rfl, rfl, hclock, .inl rfl, hresult⟩
      · rename_i hearly hbudget
        split at h
        · cases h
        · rename_i candidate hcandidate
          split at h
          · cases h
          · obtain rfl := Option.some.inj h
            exact .inl (refuse_skips hresult hclock (by omega) _)
          · rename_i acq target hacquire
            obtain rfl := Option.some.inj h
            refine .inr ⟨acq, c.request.upstream json target, ?_, hresult, hclock, rfl⟩
            exact ⟨by omega, by omega, candidate, hcandidate, (AcquireCtx.acquire_ok hacquire).1⟩

/-! ## The invariants of a call

The count is the number of empty completions in the log (`Tallied`), and each was made on the candidate at the place
of its number, modulo the length of the list (`Placed`). -/

theorem emptyNumbers_concat (log : List Attempt) (a : Attempt) :
    emptyNumbers json c (log ++ [a]) = emptyNumbers json c log ++
      if a.reply.empty json c.request.pathQuery.text = true then [a.number] else [] := by
  unfold emptyNumbers
  rw [List.filter_append, List.map_append]
  congr 1
  cases hempty : a.reply.empty json c.request.pathQuery.text <;> simp [hempty]

theorem enter_emptyCount (c : BufferedCall) : c.enter.emptyCount = 0 := by
  obtain ⟨lead, result, henter⟩ := enter_eq c
  rw [henter]

/-- A call that comes to its loop has candidates. -/
theorem candidates_pos (halone : c.enter.result = none) : 0 < c.candidates.length := by
  apply List.length_pos_of_ne_nil
  intro hnil
  rw [enter, hnil] at halone
  cases halone

/-- A call begins with nothing counted. -/
theorem tallied_enter (halone : c.enter.result = none) : Tallied json c c.enter := by
  obtain ⟨hattempts, hlog, -⟩ := enter_frame c
  have hpos := candidates_pos halone
  have hcount := enter_emptyCount c
  refine ⟨?_, by omega, fun _ => by omega, by omega, (enter_clock c).ge, ?_⟩
  · rw [hcount, hlog]
    rfl
  · exact fun hne => absurd hlog hne

theorem tallied_step (hbefore : Tallied json c s) (h : c.step json s t = some s') : Tallied json c s' := by
  rcases step_attempt h with hskips | ⟨acq, sent, hattempts, hresult, hclock, rfl⟩
  -- a turn that attempts nothing counts nothing
  · have hlt := hbefore.running hskips.result
    have hbudget := hbefore.budget
    have hbudget' := hskips.budget
    refine ⟨?_, ?_, fun _ => ?_, by omega, hbefore.clock.trans hskips.clock, ?_⟩
    · rw [hskips.count, hskips.log]
      exact hbefore.count
    · rw [hskips.count]
      exact hbefore.bounded
    · rw [hskips.count]
      exact hlt
    · rw [hskips.log]
      exact hbefore.early
  · have hlt := hbefore.running hresult
    obtain ⟨hlog, hnumber, hread⟩ := @settle_frame ν json c (acquired s t acq sent) acq t t.reply
    have hstart : c.start ≤ t.now := hbefore.clock.trans hclock
    -- an attempt is counted exactly if it came back empty
    have hcounted : (emptyNumbers json c (acquired s t acq sent).log).length = s.emptyCount +
        if t.reply.empty json c.request.pathQuery.text = true then 1 else 0 := by
      show (emptyNumbers json c (s.log ++ [_])).length = _
      rw [emptyNumbers_concat, List.length_append, ← hbefore.count]
      split <;> rfl
    obtain ⟨hcount, hmore⟩ := @settle_counts ν json c (acquired s t acq sent) t.reply acq t hlt
    refine ⟨?_, ?_, hmore, ?_, ?_, fun _ => lt_of_le_of_lt hstart hattempts.early⟩
    · rw [hcount, hlog, hcounted]
      rfl
    · rw [hcount]
      show s.emptyCount + _ ≤ _
      split <;> omega
    · rw [hnumber]
      exact hattempts.budget
    · rw [hread]
      exact hstart

theorem placed_step (hbefore : Placed c s) (h : c.step json s t = some s') : Placed c s' := by
  rcases step_attempt h with hskips | ⟨acq, sent, hattempts, -, -, rfl⟩
  · refine ⟨?_, ?_⟩
    · rw [hskips.log]
      exact hbefore.positive
    · rw [hskips.log]
      exact hbefore.candidate
  · have hlog : (c.settle json (acquired s t acq sent) acq t t.reply).log = _ := (settle_frame _ acq t t.reply).1
    refine ⟨?_, ?_⟩
    · rw [hlog]
      intro a ha
      rcases List.mem_append.mp ha with hold | hnew
      · exact hbefore.positive a hold
      · obtain rfl := List.mem_singleton.mp hnew
        exact Nat.succ_pos _
    · rw [hlog]
      intro a ha
      rcases List.mem_append.mp ha with hold | hnew
      · exact hbefore.candidate a hold
      · obtain rfl := List.mem_singleton.mp hnew
        exact hattempts.candidate

/-- **What holds at the end of any turn of a call that comes to its loop.** -/
theorem executeBuffered_tallied (halone : c.enter.result = none) (h : executeBuffered json c turns = some s) :
    Tallied json c s ∧ Placed c s := by
  have hrun := executeBuffered_run h
  refine ⟨hrun.preserves tallied_step (tallied_enter halone), hrun.preserves placed_step ?_⟩
  obtain ⟨-, hlog, -⟩ := enter_frame c
  refine ⟨?_, ?_⟩
  · rw [hlog]
    intro a ha
    cases ha
  · rw [hlog]
    intro a ha
    cases ha

/-! ## As many empty completions as candidates

Now it is counting: as many empty completions as there are candidates, over the places of the list.  They cover all
places exactly if no place occurs twice. -/

theorem mem_emptyNumbers {log : List Attempt} {k : ℕ} : k ∈ emptyNumbers json c log ↔
    ∃ a ∈ log, a.reply.empty json c.request.pathQuery.text = true ∧ a.number = k := by
  simp only [emptyNumbers, List.mem_map, List.mem_filter, and_assoc]

/-- The positions at which a call has met an empty completion. -/
def emptyPositions (json : BodyCodec ν) (c : BufferedCall) (log : List Attempt) : List ℕ :=
  (emptyNumbers json c log).map fun k => (k - 1) % c.candidates.length

/-- Each candidate came back empty if every place occurs. -/
theorem allEmpty_iff_covers (hplaced : Placed c s) :
    AllEmpty json c s ↔ ∀ j < c.candidates.length, j ∈ emptyPositions json c s.log := by
  unfold emptyPositions
  constructor
  · intro hall j hj
    obtain ⟨a, ha, hposition, -, hempty⟩ := hall j _ (List.getElem?_eq_getElem hj)
    exact List.mem_map.mpr ⟨a.number, mem_emptyNumbers.mpr ⟨a, ha, hempty, rfl⟩, hposition⟩
  · intro hcovers j candidate hj
    obtain ⟨hlt, -⟩ := List.getElem?_eq_some_iff.mp hj
    obtain ⟨k, hk, hposition⟩ := List.mem_map.mp (hcovers j hlt)
    obtain ⟨a, ha, hempty, rfl⟩ := mem_emptyNumbers.mp hk
    obtain ⟨candidate', hcandidate', hprovider⟩ := hplaced.candidate a ha
    have hposition : a.position c = j := hposition
    rw [hposition, hj] at hcandidate'
    obtain rfl := Option.some.inj hcandidate'
    exact ⟨a, ha, hposition, hprovider, hempty⟩

/-- None came back empty twice if no place occurs twice. -/
theorem noneTwice_iff_nodup (hbooked : Booked c.request.pathQuery.text s) :
    NoneTwice json c s ↔ (emptyPositions json c s.log).Nodup := by
  have hnumbers : (emptyNumbers json c s.log).Nodup := by
    have hordered : (emptyNumbers json c s.log).Pairwise (· < ·) :=
      List.pairwise_map.mpr (hbooked.ordered.filter _)
    exact hordered.imp Nat.ne_of_lt
  unfold emptyPositions
  constructor
  · intro htwice
    refine hnumbers.map_on ?_
    intro k hk l hl hkl
    obtain ⟨a, ha, hempty, rfl⟩ := mem_emptyNumbers.mp hk
    obtain ⟨b, hb, hempty', rfl⟩ := mem_emptyNumbers.mp hl
    exact htwice a ha b hb hempty hempty' hkl
  · intro hnodup a ha b hb hempty hempty' hposition
    have hk := mem_emptyNumbers.mpr ⟨a, ha, hempty, rfl⟩
    have hl := mem_emptyNumbers.mpr ⟨b, hb, hempty', rfl⟩
    exact List.inj_on_of_nodup_map hnodup hk hl hposition

/-- **Where the count is reached, the report is true exactly if no candidate came back empty twice.** -/
theorem allEmpty_iff_noneTwice (halone : c.enter.result = none) (h : executeBuffered json c turns = some s)
    (hreached : c.candidates.length ≤ s.emptyCount) : AllEmpty json c s ↔ NoneTwice json c s := by
  obtain ⟨htallied, hplaced⟩ := executeBuffered_tallied halone h
  rw [allEmpty_iff_covers hplaced, noneTwice_iff_nodup (executeBuffered_booked h)]
  have hbounded := htallied.bounded
  have hcount := htallied.count
  have hlength : (emptyPositions json c s.log).length = c.candidates.length := by
    unfold emptyPositions
    rw [List.length_map]
    omega
  refine (Lib.nodup_iff_covers hlength ?_).symm
  intro p hp
  obtain ⟨k, -, rfl⟩ := List.mem_map.mp hp
  exact Nat.mod_lt _ (candidates_pos halone)

/-! ## No more attempts than candidates

The attempts of a call are bounded by `maxAttempts`; within one round of the list no place occurs twice. -/

/-- The empty completions of a call that has counted some came on the chat path, before the deadline. -/
theorem exists_of_counted (htallied : Tallied json c s) (hpos : 0 < s.emptyCount) :
    isChatCompletionsPath c.request.pathQuery.text = true ∧ c.start < c.ctx.deadline := by
  rw [htallied.count] at hpos
  obtain ⟨k, hk⟩ := List.exists_mem_of_length_pos hpos
  obtain ⟨a, ha, hempty, -⟩ := mem_emptyNumbers.mp hk
  refine ⟨?_, htallied.early (List.ne_nil_of_mem ha)⟩
  obtain ⟨r, hreply⟩ : ∃ r, a.reply = .response r := by
    cases hreply : a.reply with
    | connectError e =>
        rw [hreply] at hempty
        cases hempty
    | response r => exact ⟨r, rfl⟩
  rw [hreply] at hempty
  simp only [UpstreamReply.empty, guarded, Bool.and_eq_true] at hempty
  exact hempty.1.2

/-- A lone candidate is counted once, and within as many attempts as candidates nobody has a second turn. -/
theorem noneTwice_of_few (halone : c.enter.result = none) (h : executeBuffered json c turns = some s)
    (hfew : c.candidates.length = 1 ∨ c.maxAttempts ≤ c.candidates.length) : NoneTwice json c s := by
  obtain ⟨htallied, hplaced⟩ := executeBuffered_tallied halone h
  intro a ha b hb hempty hempty' hposition
  rcases hfew with hlone | hfew
  · have hle : (emptyNumbers json c s.log).length ≤ 1 := by
      rw [← htallied.count, ← hlone]
      exact htallied.bounded
    have hk := mem_emptyNumbers.mpr ⟨a, ha, hempty, rfl⟩
    have hl := mem_emptyNumbers.mpr ⟨b, hb, hempty', rfl⟩
    obtain ⟨x, hx⟩ : ∃ x, emptyNumbers json c s.log = [x] := by
      apply List.length_eq_one_iff.mp
      have hpos := List.length_pos_of_mem hk
      omega
    rw [hx, List.mem_singleton] at hk hl
    rw [hk, hl]
  · -- the position of an attempt is then its number, less one
    have hin : ∀ x ∈ s.log, x.position c = x.number - 1 := by
      intro x hx
      have hnumbered := (executeBuffered_booked h).numbered x hx
      have hpositive := hplaced.positive x hx
      have hbudget := htallied.budget
      exact Nat.mod_eq_of_lt (by omega)
    have hapos := hplaced.positive a ha
    have hbpos := hplaced.positive b hb
    rw [hin a ha, hin b hb] at hposition
    omega

/-- A call that does not overcount tells the truth. -/
theorem honest_of_not_overcounts (hnot : ¬ Overcounts c) (h : executeBuffered json c turns = some s) :
    HonestVerdict json c s := by
  rintro ⟨-, hreached⟩
  by_cases halone : c.enter.result = none
  · rw [allEmpty_iff_noneTwice halone h hreached]
    have hpos := candidates_pos halone
    obtain ⟨hchat, hearly⟩ := exists_of_counted (executeBuffered_tallied halone h).1 (by omega)
    apply noneTwice_of_few halone h
    by_contra hmany
    obtain ⟨hlone, hmore⟩ := not_or.mp hmany
    have hretries : c.candidates.length < c.routing.maxRetries := by
      unfold maxAttempts at hmore
      rw [if_neg hlone] at hmore
      omega
    exact hnot ⟨hchat, halone, hearly, by omega, hretries⟩
  · -- a leader has answered, or there is no candidate
    obtain rfl := eq_enter h halone
    rw [enter_emptyCount] at hreached
    have hnil : c.candidates = [] := List.length_eq_zero_iff.mp (by omega)
    intro j candidate hj
    rw [hnil] at hj
    cases hj

/-! ## One attempt more than candidates

The other direction needs turns that make the report false.  On open gates every turn is an attempt, and all are
answered with an empty completion but the second, which fails; the round that follows brings the count up to the
number of candidates. -/

/-- A turn that acquires an attempt. -/
theorem step_acquires (hresult : s.result = none) (hclock : s.clock ≤ t.now) (hearly : t.now < c.ctx.deadline)
    (hbudget : s.attempts < c.maxAttempts) {candidate : RouteCandidate} {target : Target}
    (hcandidate : c.candidates[s.attempts % c.candidates.length]? = some candidate)
    (hacquire : c.ctx.acquire candidate t.gates = some (.ok (acq, target))) :
    c.step json s t =
      some (c.settle json (acquired s t acq (c.request.upstream json target)) acq t t.reply) := by
  unfold step
  rw [if_neg (by rw [hresult]; simp; omega)]
  dsimp only
  rw [if_neg (by omega), if_neg (by omega), hcandidate]
  dsimp only
  rw [hacquire]
  rfl

/-- With more to come, the call goes on. -/
theorem emptyAnswer_more (s : Exec) (acq : Acquired) (t : Turn) (r : UpstreamResponse)
    (hmore : s.emptyCount + 1 < c.candidates.length) :
    (c.emptyAnswer s acq t r).result = s.result ∧ (c.emptyAnswer s acq t r).emptyCount = s.emptyCount + 1 := by
  unfold emptyAnswer
  dsimp only
  split
  · rename_i hlast
    exact absurd hlast (Nat.not_le_of_lt hmore)
  · exact ⟨rfl, rfl⟩

/-- With none to come, it reports. -/
theorem emptyAnswer_last (s : Exec) (acq : Acquired) (t : Turn) (r : UpstreamResponse)
    (hlast : c.candidates.length ≤ s.emptyCount + 1) : ReportsEmpty c (c.emptyAnswer s acq t r) := by
  unfold emptyAnswer
  dsimp only
  split
  · exact ⟨rfl, hlast⟩
  · rename_i hmore
    exact absurd hlast hmore

end BufferedCall

/-- The one lane of `openGates` is free, whatever lane is preferred. -/
theorem openPool_ready (prefer : Option ℕ) : ∃ stamp sticky,
    ((Pool.new [⟨"nvapi-1", 40, true⟩] 0).reserve 0 prefer).2 = .ready 0 "nvapi-1" stamp sticky := by
  have hlane : (prefer.filter fun i => decide (i < (Pool.new [⟨"nvapi-1", 40, true⟩] 0).active)) = none ∨
      (prefer.filter fun i => decide (i < (Pool.new [⟨"nvapi-1", 40, true⟩] 0).active)) = some 0 := by
    have hactive : (Pool.new [⟨"nvapi-1", 40, true⟩] 0).active = 1 := by decide
    rw [hactive]
    cases prefer with
    | none => exact .inl rfl
    | some i =>
        cases i with
        | zero => exact .inr rfl
        | succ i => exact .inl rfl
  unfold Pool.reserve
  rcases hlane with hnone | hzero
  · rw [hnone]
    exact ⟨0, false, by decide +kernel⟩
  · rw [hzero]
    exact ⟨0, true, by decide +kernel⟩

/-- Open gates let every call through, on every candidate. -/
theorem acquire_open (ctx : AcquireCtx) (candidate : RouteCandidate) : ∃ acq target,
    ctx.acquire candidate (openGates 60) = some (.ok (acq, target)) := by
  have hcircuit : (CircuitBreaker.astmatrixDefaults.allow 0).1 = true := rfl
  have hbucket : ((openGates 60).limiter.allow candidate.provider 0).1 = true := by
    show (TokenBucket.allow ⟨60, 60, 1, 0⟩ 0).1 = true
    decide +kernel
  have hpermit : ctx.admitModel candidate.model (openGates 60) = some (.ok ()) := rfl
  obtain ⟨stamp, sticky, hready⟩ := openPool_ready ctx.preferLane
  have hslot : ctx.awaitSlot (openGates 60).slots = some (.ok (0, 0, "nvapi-1")) := by
    show ctx.awaitSlot [.reserve 0 (.new [⟨"nvapi-1", 40, true⟩] 0) 0 0] = _
    unfold AcquireCtx.awaitSlot
    rw [hready]
  unfold AcquireCtx.acquire
  show ∃ acq target, (if (CircuitBreaker.astmatrixDefaults.allow 0).1 = false then _
    else if ((openGates 60).limiter.allow candidate.provider 0).1 = false then _ else _) = _
  rw [hcircuit, if_neg (by decide), hbucket, if_neg (by decide), hpermit]
  dsimp only
  rw [hslot]
  exact ⟨_, _, rfl⟩

/-- A chat completion without choices. -/
def emptyCompletion : List UInt8 := utf8 "\x7b\"choices\":[]\x7d"

/-- A codec that reads it has found nothing of substance. -/
theorem emptyCompletion_hollow (hjson : json.fromSlice emptyCompletion = some (.obj [("choices", .arr [])])) :
    hasSubstance json emptyCompletion = false := by
  unfold hasSubstance
  rw [hjson]
  rfl

/-- Turns at this moment, all on open gates and all answered with it, but the second, which fails to connect. -/
def secondFails (start : ℤ) (i : ℕ) : Turn :=
  answeredTurn start (if i = 1 then .connectError "" else .response (okResponse (some emptyCompletion)))

namespace BufferedCall

variable {i : ℕ}

/-- What these turns are answered with, on a chat path. -/
theorem secondFails_empty (hchat : isChatCompletionsPath c.request.pathQuery.text = true)
    (hhollow : hasSubstance json emptyCompletion = false) (hi : i ≠ 1) :
    (secondFails c.start i).reply.empty json c.request.pathQuery.text = true := by
  have hguarded : guarded c.request.pathQuery.text 200 = true := by
    simp [guarded, hchat]
  have hreply : (secondFails c.start i).reply = .response (okResponse (some emptyCompletion)) := if_neg hi
  rw [hreply]
  simp [UpstreamReply.empty, okResponse, hguarded, hhollow]

/-- Each of these turns is an attempt. -/
theorem secondFails_step (hover : Overcounts c) (hi : i ≤ c.candidates.length) (hresult : s.result = none)
    (hattempts : s.attempts = i) (hclock : s.clock ≤ c.start) : ∃ acq sent,
    c.step json s (secondFails c.start i) = some (c.settle json (acquired s (secondFails c.start i) acq sent) acq
      (secondFails c.start i) (secondFails c.start i).reply) := by
  have hseveral := hover.several
  have hbudget : s.attempts < c.maxAttempts := by
    have hretries := hover.retries
    unfold maxAttempts
    rw [if_neg (by omega)]
    omega
  have hlt : s.attempts % c.candidates.length < c.candidates.length := Nat.mod_lt _ (by omega)
  obtain ⟨acq, target, hacquire⟩ := acquire_open c.ctx c.candidates[s.attempts % c.candidates.length]
  exact ⟨acq, _, step_acquires hresult hclock hover.early hbudget (List.getElem?_eq_getElem hlt) hacquire⟩

/-- The log after one of these turns. -/
theorem secondFails_log {acq : Acquired} {sent : UpstreamRequest} (hattempts : s.attempts = i)
    (hsecond : ∀ a ∈ s.log, a.number = 2 → a.reply = .connectError "") :
    ∀ a ∈ (c.settle json (acquired s (secondFails c.start i) acq sent) acq (secondFails c.start i)
      (secondFails c.start i).reply).log, a.number = 2 → a.reply = .connectError "" := by
  rw [(settle_frame _ acq _ _).1]
  intro a ha hnumber
  rcases List.mem_append.mp ha with hold | hnew
  · exact hsecond a hold hnumber
  · obtain rfl := List.mem_singleton.mp hnew
    have hi : i = 1 := by
      have hnumber : s.attempts + 1 = 2 := hnumber
      omega
    show (secondFails c.start i).reply = _
    rw [hi]
    rfl

/-- The call after as many of these turns as there are candidates, or fewer: all of them but the second have
counted. -/
theorem secondFails_run (hover : Overcounts c) (hhollow : hasSubstance json emptyCompletion = false)
    (hi : i ≤ c.candidates.length) :
    ∃ s, executeBuffered json c ((List.range i).map (secondFails c.start)) = some s ∧ s.result = none ∧
      s.attempts = i ∧ s.clock ≤ c.start ∧ s.emptyCount + (if 2 ≤ i then 1 else 0) = i ∧
      ∀ a ∈ s.log, a.number = 2 → a.reply = .connectError "" := by
  -- by turns: all but the second come back empty, and the second does not connect
  induction i with
  | zero =>
      obtain ⟨hattempts, hlog, -⟩ := enter_frame c
      refine ⟨c.enter, rfl, hover.alone, hattempts, (enter_clock c).le, enter_emptyCount c, ?_⟩
      rw [hlog]
      intro a ha
      cases ha
  | succ i ih =>
      obtain ⟨s, hexec, hresult, hattempts, hclock, hcount, hsecond⟩ := ih (by omega)
      obtain ⟨acq, sent, hstep⟩ := @secondFails_step ν json c s i hover (by omega) hresult hattempts hclock
      have hcounts : ∀ s', s' = c.settle json (acquired s (secondFails c.start i) acq sent) acq
          (secondFails c.start i) (secondFails c.start i).reply →
          s'.result = none ∧ s'.emptyCount + (if 2 ≤ i + 1 then 1 else 0) = i + 1 := by
        rintro s' rfl
        -- the second turn counts nothing
        by_cases hfails : i = 1
        · subst hfails
          have hsame : (c.settle json (acquired s (secondFails c.start 1) acq sent) acq (secondFails c.start 1)
              (secondFails c.start 1).reply).emptyCount = s.emptyCount := settle_nonempty _ _ _ rfl
          rw [hsame]
          exact ⟨hresult, by simpa using hcount⟩
        · obtain ⟨r, -, hsettle⟩ := settle_empty (acquired s (secondFails c.start i) acq sent) acq
            (secondFails c.start i) (secondFails_empty hover.chat hhollow hfails)
          -- so the count stays below the candidates, and no turn ends the call
          have hmore : s.emptyCount + 1 < c.candidates.length := by
            have hseveral := hover.several
            split at hcount <;> omega
          obtain ⟨hgoes, hnew⟩ := @emptyAnswer_more c (acquired s (secondFails c.start i) acq sent) acq
            (secondFails c.start i) r hmore
          rw [hsettle, hgoes, hnew]
          refine ⟨hresult, ?_⟩
          show s.emptyCount + 1 + _ = _
          split at hcount <;> split <;> omega
      obtain ⟨hgoes, hnew⟩ := hcounts _ rfl
      refine ⟨_, executeBuffered_succ hexec hstep, hgoes, ?_, ?_, hnew, secondFails_log hattempts hsecond⟩
      · rw [(settle_frame _ acq _ _).2.1]
        show s.attempts + 1 = i + 1
        rw [hattempts]
      · rw [(settle_frame _ acq _ _).2.2]
        exact le_rfl

/-- **A call that overcounts can report what is not so**: its second candidate has not come back empty. -/
theorem overcounts_dishonest (hover : Overcounts c) (hhollow : hasSubstance json emptyCompletion = false) :
    ∃ turns s, executeBuffered json c turns = some s ∧ ReportsEmpty c s ∧ ¬ AllEmpty json c s := by
  obtain ⟨s, hexec, hresult, hattempts, hclock, hcount, hsecond⟩ :=
    secondFails_run hover hhollow (Nat.le_refl c.candidates.length)
  obtain ⟨acq, sent, hstep⟩ := @secondFails_step ν json c s _ hover le_rfl hresult hattempts hclock
  have hexec' := executeBuffered_succ hexec hstep
  have hseveral := hover.several
  obtain ⟨r, -, hsettle⟩ := settle_empty (acquired s (secondFails c.start c.candidates.length) acq sent) acq
    (secondFails c.start c.candidates.length)
    (@secondFails_empty ν json c c.candidates.length hover.chat hhollow (by omega))
  have hlast : c.candidates.length ≤ s.emptyCount + 1 := by
    rw [if_pos hseveral] at hcount
    omega
  refine ⟨_, _, hexec', ?_, ?_⟩
  · rw [hsettle]
    exact emptyAnswer_last _ _ _ _ hlast
  · intro hall
    obtain ⟨a, ha, hposition, -, hempty⟩ := hall 1 _ (List.getElem?_eq_getElem (by omega))
    -- the only attempt on the second candidate is the second one
    have hnumbered := (executeBuffered_booked hexec').numbered a ha
    rw [(settle_frame _ acq _ _).2.1] at hnumbered
    have hnumbered : a.number ≤ c.candidates.length + 1 := by
      rw [← hattempts]
      exact hnumbered
    have hnumber : a.number = 2 := by
      unfold Attempt.position at hposition
      rcases Nat.lt_or_ge (a.number - 1) c.candidates.length with hlt | hge
      · rw [Nat.mod_eq_of_lt hlt] at hposition
        omega
      · obtain heq : a.number - 1 = c.candidates.length := by omega
        rw [heq, Nat.mod_self] at hposition
        omega
    rw [secondFails_log hattempts hsecond a ha hnumber] at hempty
    cases hempty

end BufferedCall

/-- **When "all candidates returned empty completions" is true.**  For every call, whatever its candidates: in every
run of it the report, if it is made, is true, if and only if the call cannot overcount.  And in a run that has
counted as many empty completions as there are candidates, each candidate has come back empty if and only if none did so
twice. -/
theorem empty_verdict_honest_iff (json : BodyCodec ν) (c : BufferedCall)
    (hjson : json.fromSlice emptyCompletion = some (.obj [("choices", .arr [])])) :
    ((∀ turns s, executeBuffered json c turns = some s → HonestVerdict json c s) ↔ ¬ Overcounts c) ∧
      ∀ turns s, executeBuffered json c turns = some s → ReportsEmpty c s →
        (AllEmpty json c s ↔ NoneTwice json c s) := by
  have hhollow := emptyCompletion_hollow hjson
  refine ⟨⟨?_, ?_⟩, ?_⟩
  · intro hhonest hover
    obtain ⟨turns, s, hexec, hreports, hnot⟩ := BufferedCall.overcounts_dishonest hover hhollow
    exact hnot (hhonest turns s hexec hreports)
  · intro hnot turns s hexec
    exact BufferedCall.honest_of_not_overcounts hnot hexec
  · intro turns s hexec hreports
    by_cases halone : c.enter.result = none
    · exact BufferedCall.allEmpty_iff_noneTwice halone hexec hreports.2
    · -- nothing was attempted, and there is no candidate
      obtain rfl := BufferedCall.eq_enter hexec halone
      obtain ⟨-, hlog, -⟩ := BufferedCall.enter_frame c
      have hall := BufferedCall.honest_of_not_overcounts (fun hover => halone hover.alone) hexec hreports
      refine ⟨fun _ a ha => ?_, fun _ => hall⟩
      rw [hlog] at ha
      cases ha

/-- The completion without choices, read. -/
def choicelessJson : BodyCodec ℕ where
  fromSlice body := if body = emptyCompletion then some (.obj [("choices", .arr [])]) else none
  toVec _ := none

theorem empty_verdict_honest_iff_choiceless :
    ((∀ turns s, executeBuffered choicelessJson (chatCall ["openai", "groq"]) turns = some s →
        HonestVerdict choicelessJson (chatCall ["openai", "groq"]) s) ↔ ¬ Overcounts (chatCall ["openai", "groq"])) ∧
      ∀ turns s, executeBuffered choicelessJson (chatCall ["openai", "groq"]) turns = some s →
        ReportsEmpty (chatCall ["openai", "groq"]) s →
          (AllEmpty choicelessJson (chatCall ["openai", "groq"]) s ↔
            NoneTwice choicelessJson (chatCall ["openai", "groq"]) s) :=
  have hjson : choicelessJson.fromSlice emptyCompletion = some (.obj [("choices", .arr [])]) := by
    simp [choicelessJson]
  empty_verdict_honest_iff choicelessJson (chatCall ["openai", "groq"]) hjson

/-- Two candidates and three attempts: the first is empty, the second does not connect, the first is empty again. -/
theorem verdict_without_second : ∃ s,
    executeBuffered choicelessJson (chatCall ["openai", "groq"]) ((List.range 3).map (secondFails 0)) = some s ∧
      s.result = some (.error (.unavailable (emptyVerdict "m"))) ∧
      ¬ HonestVerdict choicelessJson (chatCall ["openai", "groq"]) s := by
  have heval : (executeBuffered choicelessJson (chatCall ["openai", "groq"])
      ((List.range 3).map (secondFails 0))).any (fun s =>
        decide (s.result = some (.error (.unavailable (emptyVerdict "m")))) && decide (2 ≤ s.emptyCount) &&
          s.log.all fun a => a.acq.provider != "groq" ||
            !a.reply.empty choicelessJson "/v1/chat/completions") = true := by decide +kernel
  obtain ⟨s, hs, htest⟩ := (Option.any_eq_true _ _).mp heval
  simp only [Bool.and_eq_true, decide_eq_true_eq, List.all_eq_true, Bool.or_eq_true, bne_iff_ne, ne_eq,
    Bool.not_eq_true'] at htest
  obtain ⟨⟨hresult, hcount⟩, hgroq⟩ := htest
  refine ⟨s, hs, hresult, fun hhonest => ?_⟩
  obtain ⟨a, ha, -, hprovider, hempty⟩ := hhonest ⟨hresult, hcount⟩ 1 ⟨"groq", "m", .hybrid⟩ rfl
  rcases hgroq a ha with hother | hnonempty
  · exact hother hprovider
  · have hempty : a.reply.empty choicelessJson "/v1/chat/completions" = true := hempty
    rw [hnonempty] at hempty
    cases hempty

end Flock
