/-
# Flock.Client.Alone — a request that nothing runs beside.

The pool is shared, so a key may be gone when a request wakes that slept for it, and a success elsewhere may take a
park away.  Alone neither happens.  A park ends only by time, so no key is tried again before its `Retry-After` is
over (`Alone`); and a request that found every key parked sleeps until the first park is over, and then there is a key
(`Patient`).  The second needs sleeps that last: a park of 30 days is one millisecond to `setTimeout`, and after that
every key is parked still.

The other requests of the client may be anywhere, as long as they do nothing meanwhile.
-/
import Flock.Client.Request
import Mathlib.Data.List.DropRight
import Mathlib.Data.List.TakeWhile

namespace Flock.Client

open Lib (System)

variable {cfg : ClientConfig} {s s' : ClientState} {c c' : RequestCall} {id : ℕ} {e : ClientEvent}
  {es : List ClientEvent} {sdk : Sdk} {key : String} {o : Outcome}

/-! ## The pool of a client

The results on the rotation (`Client.Fairness`) ask that the cursor is within the ring and that there is a key.  Both
hold of every pool a client can have. -/

/-- Trimming an end that is trimmed already. -/
theorem dropWhile_rdropWhile {α : Type*} (p : α → Bool) (l : List α) (h : l.dropWhile p = l) :
    (l.rdropWhile p).dropWhile p = l.rdropWhile p := by
  rw [List.dropWhile_eq_self_iff] at h ⊢
  intro hpos
  have hpre := List.rdropWhile_prefix p (l := l)
  have hlen : 0 < l.length := hpos.trans_le hpre.length_le
  rw [hpre.getElem hpos]
  exact h hlen

/-- Trimming twice is trimming once. -/
theorem Sdk.trim_trim (sdk : Sdk) (s : String) : sdk.trim (sdk.trim s) = sdk.trim s := by
  have htrim : ∀ s : String, (sdk.trim s).toList = (s.toList.dropWhile sdk.isSpace).rdropWhile sdk.isSpace := by
    intro s
    simp [Sdk.trim, List.rdropWhile]
  apply String.toList_injective
  rw [htrim, htrim, dropWhile_rdropWhile _ _ (List.dropWhile_idempotent ..), List.rdropWhile_idempotent]

/-- The keys that are registered have been trimmed, and are not empty. -/
theorem trim_registered {keys : List String} (h : key ∈ registered sdk keys) : sdk.trim key = key ∧ key ≠ "" := by
  unfold registered at h
  induction keys using List.reverseRecOn with
  | nil => cases h
  | append_singleton keys raw ih =>
      rw [List.foldl_append, List.foldl_cons, List.foldl_nil] at h
      dsimp only at h
      split at h
      · exact ih h
      · rename_i hnew
        rcases List.mem_append.mp h with hold | hlast
        · exact ih hold
        · obtain rfl := List.mem_singleton.mp hlast
          exact ⟨sdk.trim_trim raw, fun hempty => hnew (.inl hempty)⟩

/-- A key with something in it is registered, whatever is before and behind it. -/
theorem registered_ne_nil {keys : List String} (hkey : key ∈ keys) (htrim : sdk.trim key ≠ "") :
    registered sdk keys ≠ [] := by
  unfold registered
  induction keys using List.reverseRecOn with
  | nil => cases hkey
  | append_singleton keys raw ih =>
      rw [List.foldl_append, List.foldl_cons, List.foldl_nil]
      dsimp only
      rcases List.mem_append.mp hkey with hold | hlast
      · split
        · exact ih hold
        · simp
      · obtain rfl := List.mem_singleton.mp hlast
        split
        · rename_i hseen
          rcases hseen with hempty | hmem
          · exact absurd hempty htrim
          · exact List.ne_nil_of_mem hmem
        · simp

/-- A client has a key. -/
theorem ClientConfig.Opens.keys (h : cfg.Opens) : (KeyPool.new cfg.sdk cfg.apiKeys).keys ≠ [] := by
  obtain ⟨⟨raw, hraw⟩, hne⟩ := h
  obtain ⟨key, hkey⟩ := List.exists_mem_of_ne_nil _ hne
  obtain ⟨htrim, hempty⟩ := trim_registered (hraw ▸ hkey)
  have hregistered := registered_ne_nil hkey (htrim.symm ▸ hempty)
  simpa [KeyPool.new] using hregistered

/-- What every pool of a client has: a key, and a cursor in the ring. -/
structure KeyPool.Turning (p : KeyPool) : Prop where
  keys : p.keys ≠ []
  cursor : p.cursor < max 1 p.names.length

/-- No report takes a key away or moves the cursor out of the ring. -/
theorem KeyPool.Turning.act {p : KeyPool} (h : p.Turning) (sdk : Sdk) (call : Call) : (Usage.act sdk p call).Turning := by
  refine ⟨fun hnil => h.keys ?_, cursor_act h.cursor call⟩
  have hnames := p.names_act sdk call
  unfold KeyPool.names at hnames
  rw [hnil] at hnames
  exact List.map_eq_nil_iff.mp hnames.symm

/-- Every client has such a pool, from its constructor on. -/
theorem pool_turning (h : (clientSystem cfg).Reachable s) : s.pool.Turning := by
  refine h.invariant (I := fun s => s.pool.Turning) ?_ ?_
  · rintro s ⟨hopens, now, rfl⟩
    exact ⟨hopens.keys, by simp [KeyPool.new]⟩
  · intro s e s' hs hstep
    rcases ClientState.step_calls hstep with ⟨now, rfl, -⟩ | ⟨id, -, ⟨-, rfl⟩ | ⟨c, c₁, pool, new, -, hmoves, rfl⟩⟩
    · exact hs
    · exact hs
    · cases hmoves with
      | picked | starved | woken | gaveUp => exact hs.act .python (.nextAvailable s.now)
      | exhausted | measured | refused | sent => exact hs
      | ended key o hphase =>
          show ((o.report s.now key).elim s.pool (Usage.act cfg.sdk s.pool)).Turning
          cases o.report s.now key with
          | none => exact hs
          | some call => exact hs.act cfg.sdk call

/-- Where a park is over, there is a key. -/
theorem nextAvailable_isSome {p : KeyPool} (h : p.Turning) {now u : ℚ} (hu : p.earliestRetryAt = some u) (hle : u ≤ now) :
    (p.nextAvailable now).2 ≠ none := by
  intro hnone
  have hlimited := (granted_eq_none (r := ⟨p, now⟩) h.cursor).mp hnone
  obtain ⟨st, hst, hparked⟩ := List.mem_filterMap.mp (List.min?_mem hu)
  have hst := hlimited st hst
  unfold KeyState.isLimited at hst
  rw [hparked] at hst
  simp only [Option.any_some, decide_eq_true_eq] at hst
  exact absurd hle (not_le.mpr hst)

/-- Where every key is parked, there is a first park to end. -/
theorem earliestRetryAt_of_none {p : KeyPool} (h : p.Turning) {now : ℚ} (hnone : (p.nextAvailable now).2 = none) :
    ∃ u, p.earliestRetryAt = some u := by
  have hlimited := (granted_eq_none (r := ⟨p, now⟩) h.cursor).mp hnone
  obtain ⟨st, hst⟩ := List.exists_mem_of_ne_nil _ h.keys
  have hparked := hlimited st hst
  unfold KeyState.isLimited at hparked
  cases hu : st.rateLimitedUntil with
  | none =>
      rw [hu] at hparked
      cases hparked
  | some u =>
      refine Option.isSome_iff_exists.mp (Option.isSome_iff_ne_none.mpr fun hmin => ?_)
      have hnil := List.min?_eq_none_iff.mp hmin
      have hmem : u ∈ p.keys.filterMap (·.rateLimitedUntil) := List.mem_filterMap.mpr ⟨st, hst, hu⟩
      rw [hnil] at hmem
      cases hmem

/-! ## Alone

The first result.  While the request is alone, each park that one of its fetches got is in the pool until it is over,
since only a success on the same key takes a park away, and the key is not handed out meanwhile. -/

/-- A fetch with a key goes out once the parks of the key are over that fetches before it got. -/
def Waits (sdk : Sdk) (later earlier : Wire) : Prop :=
  ∀ id id' key d t now, later = .sent id key now → earlier = .ended id' key (.status 429 d) t →
    t + sdk.delay (some d) ≤ now

/-- The parks of a key that these fetches got are over. -/
def Rested (sdk : Sdk) (new : List Wire) (key : String) (now : ℚ) : Prop :=
  ∀ id d t, .ended id key (.status 429 d) t ∈ new → t + sdk.delay (some d) ≤ now

/-- A request that runs alone has a key that is not parked, if it has one. -/
def RequestCall.Holds (cfg : ClientConfig) (p : KeyPool) (new : List Wire) (now : ℚ) (c : RequestCall) : Prop :=
  match c.phase with
  | .granted key _ | .fetching key => p.has key ∧ Rested cfg.sdk new key now
  | .looping | .starved | .sleeping _ | .done _ => True

/-- Since `base`, only the request `id` has done anything. -/
structure Alone (cfg : ClientConfig) (base : List Wire) (id : ℕ) (new : List Wire) (s : ClientState) : Prop where
  wire : s.wire = new ++ base
  waits : new.Pairwise (Waits cfg.sdk)
  /-- Every park these fetches got is over, or the pool has it. -/
  parks : ∀ id' key d t, .ended id' key (.status 429 d) t ∈ new → t + cfg.sdk.delay (some d) ≤ s.now ∨
    ∃ u, s.pool.parkedUntil key = some u ∧ t + cfg.sdk.delay (some d) ≤ u
  holds : ∀ c, s.calls id = some c → c.Holds cfg s.pool new s.now

/-- A park that is over stays over. -/
theorem Rested.mono {new : List Wire} {now now' : ℚ} (h : Rested sdk new key now) (hle : now ≤ now') :
    Rested sdk new key now' := fun id d t hmem => (h id d t hmem).trans hle

theorem RequestCall.Holds.mono {p : KeyPool} {new : List Wire} {now now' : ℚ} (h : c.Holds cfg p new now)
    (hle : now ≤ now') : c.Holds cfg p new now' := by
  unfold RequestCall.Holds at h ⊢
  cases hphase : c.phase with
  | granted key wake | fetching key =>
      rw [hphase] at h
      exact ⟨h.1, h.2.mono hle⟩
  | looping | starved | sleeping wake | done r => trivial

/-- A key that is handed out has rested. -/
theorem Alone.rested {base new : List Wire} (h : Alone cfg base id new s)
    (hkey : (s.pool.nextAvailable s.now).2 = some key) : s.pool.has key ∧ Rested cfg.sdk new key s.now := by
  obtain ⟨hhas, hfree⟩ := KeyPool.nextAvailable_eq_some hkey
  refine ⟨hhas, fun id' d t hmem => ?_⟩
  rcases h.parks id' key d t hmem with hover | ⟨u, hu, hle⟩
  · exact hover
  · exact hle.trans (hfree u hu)

/-- The rotation looks at parks and changes none. -/
theorem parkedUntil_nextAvailable (p : KeyPool) (now : ℚ) (k : String) :
    (p.nextAvailable now).1.parkedUntil k = p.parkedUntil k := by
  unfold KeyPool.parkedUntil
  rw [KeyPool.keys_nextAvailable]

/-- The request goes on, and neither the clock nor what the pool knows of parks has changed. -/
theorem Alone.goOn {base new sent : List Wire} {pool : KeyPool} (h : Alone cfg base id new s)
    (hparks : ∀ k, pool.parkedUntil k = s.pool.parkedUntil k) (hholds : c'.Holds cfg pool (sent ++ new) s.now)
    (hsent : sent = [] ∨ ∃ key, sent = [.sent id key s.now] ∧ Rested cfg.sdk new key s.now) :
    Alone cfg base id (sent ++ new) { s.setCall id c' with pool, wire := sent ++ s.wire } := by
  have hold : ∀ {id' key d t}, Wire.ended id' key (.status 429 d) t ∈ sent ++ new →
      Wire.ended id' key (.status 429 d) t ∈ new := by
    intro id' key d t hmem
    rcases hsent with rfl | ⟨key', rfl, -⟩
    · exact hmem
    · simpa using hmem
  refine ⟨by rw [List.append_assoc, ← h.wire], ?_, fun id' key d t hmem => ?_, fun c₁ hc₁ => ?_⟩
  · rcases hsent with rfl | ⟨key, rfl, hrested⟩
    · exact h.waits
    · refine List.pairwise_cons.mpr ⟨fun earlier hmem => ?_, h.waits⟩
      rintro id₁ id₂ k d t now hsent rfl
      obtain ⟨-, rfl, rfl⟩ := Wire.sent.inj hsent
      exact hrested id₂ d t hmem
  · show _ ∨ ∃ u, pool.parkedUntil key = some u ∧ _
    rw [hparks]
    exact h.parks id' key d t (hold hmem)
  · rcases ClientState.calls_setCall hc₁ with ⟨-, rfl⟩ | ⟨hne, -⟩
    · exact hholds
    · exact absurd rfl hne

/-- The request is handed a key, and neither the clock nor what the pool knows of parks has changed. -/
theorem Alone.grant {base new : List Wire} (h : Alone cfg base id new s)
    (hkey : (s.pool.nextAvailable s.now).2 = some key) :
    Alone cfg base id ([] ++ new)
      { s.setCall id (c.grant cfg s.now key) with pool := (s.pool.nextAvailable s.now).1, wire := [] ++ s.wire } := by
  obtain ⟨hhas, hrested⟩ := h.rested hkey
  have hhas : (s.pool.nextAvailable s.now).1.has key := by
    unfold KeyPool.has
    rw [KeyPool.keys_nextAvailable]
    exact hhas
  refine h.goOn (parkedUntil_nextAvailable s.pool s.now) ?_ (.inl rfl)
  rcases c.grant_cases cfg s.now key with ⟨wake, hgrant⟩ | ⟨-, -, hgrant⟩
  · rw [hgrant]
    exact ⟨hhas, hrested⟩
  · rw [hgrant]
    trivial

/-- A report leaves the parks of other keys alone, and a 429 parks its own. -/
theorem parkedUntil_report {p : KeyPool} {now : ℚ} {k : String} (hne : k ≠ key) :
    ((o.report now key).elim p (Usage.act sdk p)).parkedUntil k = p.parkedUntil k := by
  cases hreport : o.report now key with
  | none => rfl
  | some call =>
      cases o with
      | ok | malformed =>
          cases hreport
          exact KeyPool.parkedUntil_recordSuccess_of_ne hne
      | timeout served =>
          cases served with
          | true =>
              cases hreport
              exact KeyPool.parkedUntil_recordSuccess_of_ne hne
          | false => cases hreport
      | unparsed | failed => cases hreport
      | status code d =>
          simp only [Outcome.report] at hreport
          split at hreport
          · cases hreport
            exact KeyPool.parkedUntil_recordRateLimit_of_ne _ hne
          · cases hreport
            exact KeyPool.parkedUntil_recordFailure _

/-- A fetch of the request has ended. -/
theorem Alone.ended {base new : List Wire} (h : Alone cfg base id new s) (hhas : s.pool.has key)
    (hrested : Rested cfg.sdk new key s.now) (o : Outcome) :
    Alone cfg base id ([.ended id key o s.now] ++ new)
      { s.setCall id (c.ended cfg key o) with
        pool := (o.report s.now key).elim s.pool (Usage.act cfg.sdk s.pool)
        wire := [.ended id key o s.now] ++ s.wire } := by
  refine ⟨by rw [List.append_assoc, ← h.wire], ?_, fun id' k d t hmem => ?_, fun c₁ hc₁ => ?_⟩
  · refine List.pairwise_cons.mpr ⟨fun earlier hmem => ?_, h.waits⟩
    intro id₁ id₂ k d t now hsent
    cases hsent
  · show _ ∨ ∃ u, ((o.report s.now key).elim s.pool (Usage.act cfg.sdk s.pool)).parkedUntil k = some u ∧ _
    rcases List.mem_cons.mp hmem with heq | hold
    · obtain ⟨-, rfl, rfl, rfl⟩ := Wire.ended.inj heq
      exact .inr ⟨_, KeyPool.parkedUntil_recordRateLimit hhas _, le_rfl⟩
    · by_cases hkey : k = key
      · subst hkey
        exact .inl (hrested id' d t hold)
      · rw [parkedUntil_report hkey]
        exact h.parks id' k d t hold
  · rcases ClientState.calls_setCall hc₁ with ⟨-, rfl⟩ | ⟨hne, -⟩
    · unfold RequestCall.ended
      split <;> trivial
    · exact absurd rfl hne

/-- One operation. -/
theorem Alone.moves {base new sent : List Wire} {pool : KeyPool} (h : Alone cfg base id new s)
    (hc : s.calls id = some c) (hmoves : Moves cfg s id c c' pool sent) :
    Alone cfg base id (sent ++ new) { s.setCall id c' with pool, wire := sent ++ s.wire } := by
  have hholds := h.holds c hc
  unfold RequestCall.Holds at hholds
  have hsame := parkedUntil_nextAvailable s.pool s.now
  cases hmoves with
  | picked key hphase hle hnext | woken wake key hphase hle hnext => exact h.grant hnext
  | starved | gaveUp => exact h.goOn hsame trivial (.inl rfl)
  | exhausted | measured | refused => exact h.goOn (fun _ => rfl) trivial (.inl rfl)
  | sent key wake hphase hle =>
      rw [hphase] at hholds
      refine h.goOn (fun _ => rfl) ⟨hholds.1, fun id' d t hmem => ?_⟩ (.inr ⟨key, rfl, hholds.2⟩)
      exact hholds.2 id' d t (by simpa using hmem)
  | ended key o hphase =>
      rw [hphase] at hholds
      exact h.ended hholds.1 hholds.2 o

/-- Every step of a run in which only this request does anything. -/
theorem Alone.step {base new : List Wire} (h : Alone cfg base id new s) (honly : ∀ id', e.id = some id' → id' = id)
    (hstep : (clientSystem cfg).step s e s') : ∃ new', Alone cfg base id new' s' := by
  rcases ClientState.step_calls hstep with
    ⟨now, rfl, hle⟩ | ⟨id', hid, ⟨-, rfl⟩ | ⟨c, c₁, pool, sent, hc, hmoves, rfl⟩⟩
  · refine ⟨new, h.wire, h.waits, fun id' key d t hmem => ?_, fun c hc => (h.holds c hc).mono hle⟩
    rcases h.parks id' key d t hmem with hover | hparked
    · exact .inl (hover.trans hle)
    · exact .inr hparked
  · obtain rfl := honly id' hid
    refine ⟨new, h.wire, h.waits, h.parks, fun c hc => ?_⟩
    rcases ClientState.calls_setCall hc with ⟨-, rfl⟩ | ⟨hne, -⟩
    · trivial
    · exact absurd rfl hne
  · obtain rfl := honly id' hid
    exact ⟨_, h.moves hc hmoves⟩

/-! ## Patience

The second result, for runs whose sleeps last.  What keeps a request from giving up is that the first park it measured
is still the first one when it wakes, and is over then. -/

/-- A request that runs alone, and whose sleeps last: where it found every key parked, there is a first park to end, and
it sleeps until then; and it is over only with a final answer or after its last try. -/
def RequestCall.Patient (cfg : ClientConfig) (p : KeyPool) (c : RequestCall) : Prop :=
  match c.phase with
  | .looping | .granted _ _ | .fetching _ => True
  | .starved => ∃ u, p.earliestRetryAt = some u
  | .sleeping wake => ∃ u, p.earliestRetryAt = some u ∧ u ≤ wake
  | .done r => cfg.maxRetries < 0 ∨ ∃ t, c.tries.head? = some t ∧ r = t.2.result ∧
      (cfg.sdk.retries t.2 = false ∨ (c.tries.length : ℤ) = cfg.maxRetries + 1)

/-- Where the backoff does not raise, a request with a key goes on. -/
theorem RequestCall.Patient.grant {p : KeyPool} (hbackoff : (c.backoff cfg).isSome = true) (now : ℚ) (key : String) :
    (c.grant cfg now key).Patient cfg p := by
  rcases c.grant_cases cfg now key with ⟨wake, hgrant⟩ | ⟨-, hnone, -⟩
  · rw [hgrant]
    trivial
  · rw [hnone] at hbackoff
    cases hbackoff

/-- It is over with its last fetch. -/
theorem RequestCall.Patient.ended {p : KeyPool} (hlive : c.Live cfg) (hle : (c.attempt : ℤ) ≤ cfg.maxRetries)
    (key : String) (o : Outcome) : (c.ended cfg key o).Patient cfg p := by
  unfold RequestCall.ended
  split
  · trivial
  · rename_i hlast
    refine .inr ⟨_, rfl, rfl, ?_⟩
    rw [not_and_or] at hlast
    rcases hlast with hfinal | hspent
    · exact .inl (by simpa using hfinal)
    · refine .inr ?_
      show ((c.tries.length + 1 : ℕ) : ℤ) = _
      rw [hlive.attempt]
      omega

/-- A sleep that lasts ends after the first park. -/
theorem ClientState.wait_le {u slept : ℚ} (hu : s.pool.earliestRetryAt = some u)
    (hlasts : cfg.sdk.LastsOut (s.wait cfg)) (hslept : cfg.sdk.sleep (s.wait cfg) = some slept) : u ≤ s.now + slept := by
  obtain ⟨slept', hslept', hle⟩ := Sdk.lastsOut_iff.mp hlasts
  obtain rfl : slept = slept' := Option.some.inj (hslept.symm.trans hslept')
  have hwait : u - s.now ≤ s.wait cfg := by
    unfold ClientState.wait
    rw [hu]
    exact le_max_right 0 (u - s.now)
  exact sub_le_iff_le_add'.mp (hwait.trans hle)

/-- One operation whose sleep lasts. -/
theorem RequestCall.Patient.moves {pool : KeyPool} {sent : List Wire} (h : c.Patient cfg s.pool)
    (hpool : s.pool.Turning) (hsound : c.Sound cfg) (hmoves : Moves cfg s id c c' pool sent)
    (hsleeps : c.SleepsAt cfg s c.phase) : c'.Patient cfg pool := by
  unfold RequestCall.Patient at h
  unfold RequestCall.Sound at hsound
  have hfirst : (s.pool.nextAvailable s.now).1.earliestRetryAt = s.pool.earliestRetryAt := by
    unfold KeyPool.earliestRetryAt
    rw [KeyPool.keys_nextAvailable]
  cases hmoves with
  | picked key hphase | woken wake key hphase =>
      rw [hphase] at hsleeps
      exact .grant hsleeps s.now key
  | starved hphase hle hnext =>
      show ∃ u, (s.pool.nextAvailable s.now).1.earliestRetryAt = some u
      rw [hfirst]
      exact earliestRetryAt_of_none hpool hnext
  | exhausted hphase hlt =>
      rw [hphase] at hsound
      refine .inl ?_
      have hbound := hsound.bound
      omega
  | measured slept hphase hslept =>
      rw [hphase] at h hsleeps
      obtain ⟨u, hu⟩ := h
      exact ⟨u, hu, ClientState.wait_le hu hsleeps hslept⟩
  | refused hphase hnone =>
      rw [hphase] at hsleeps
      obtain ⟨slept, hslept, -⟩ := Sdk.lastsOut_iff.mp hsleeps
      rw [hnone] at hslept
      cases hslept
  | gaveUp wake hphase hle hnext =>
      -- the first park is over
      rw [hphase] at h
      obtain ⟨u, hu, hwake⟩ := h
      exact absurd hnext (nextAvailable_isSome hpool hu (hwake.trans hle))
  | sent key wake hphase => trivial
  | ended key o hphase =>
      rw [hphase] at hsound
      exact .ended hsound.1 hsound.2 key o

/-- Every step of a run in which only this request does anything, and whose sleeps last. -/
theorem patient_step (hreach : (clientSystem cfg).Reachable s) (h : ∀ c, s.calls id = some c → c.Patient cfg s.pool)
    (honly : ∀ id', e.id = some id' → id' = id) (hstep : (clientSystem cfg).step s e s') (hsleeps : s.Sleeps cfg e) :
    ∀ c, s'.calls id = some c → c.Patient cfg s'.pool := by
  intro c₂ hc₂
  rcases ClientState.step_calls hstep with
    ⟨now, rfl, -⟩ | ⟨id', hid, ⟨-, rfl⟩ | ⟨c, c₁, pool, sent, hc, hmoves, rfl⟩⟩
  · exact h c₂ hc₂
  · obtain rfl := honly id' hid
    rcases ClientState.calls_setCall hc₂ with ⟨-, rfl⟩ | ⟨hne, -⟩
    · trivial
    · exact absurd rfl hne
  · obtain rfl := honly id' hid
    rcases ClientState.calls_setCall hc₂ with ⟨-, rfl⟩ | ⟨hne, -⟩
    · have hsleeps : c.SleepsAt cfg s c.phase := hsleeps c (by rw [hid]; exact hc)
      exact (h c hc).moves (pool_turning hreach) (request_sound hreach hc) hmoves hsleeps
    · exact absurd rfl hne

end Flock.Client
