/-
# Flock.Coalescer — one upstream call for identical requests in flight.

The model of `coalescer.rs`, and of every interleaving of the calls on one coalescer.  A `Lead` is a value that
is consumed in two steps: `complete` publishes on its channel, and the drop at its end (or a drop alone) removes
the entry of its KEY.  Leaders are numbered in the order they are made; the number stands for the channel that
the handle, the map entry and the followers share.

An entry is replaced once it is older than the time to live while its leader may still be running, so a drop can
find the entry of somebody else: `NoLateDrop` is the condition that keeps it from doing so.
-/
import Mathlib.Logic.Function.Basic
import Mathlib.Data.List.Basic
import Flock.Lib.SlidingWindow
import Flock.Lib.Transition
import Flock.Pool.Basic

namespace Flock

open Lib (age System)

/-! ## The coalescer

The map has one entry for a key.  `register` reaps what is twice as old as the time to live, and so it can happen that
an entry is neither young nor gone. -/

/-- `SharedResponse`. -/
structure SharedResponse where
  status : ℕ
  contentType : String
  body : List UInt8
  deriving DecidableEq, Repr

/-- `Entry`, with the number of the leader whose channel it holds. -/
structure CoalescerEntry where
  tx : ℕ
  created : ℤ
  deriving DecidableEq, Repr

/-- `Coalesce`. -/
inductive Coalesce where
  | follow (rx : ℕ)
  | lead (tx : ℕ)
  deriving DecidableEq, Repr

/-- `Coalescer`. -/
structure Coalescer where
  entries : String → Option CoalescerEntry
  ttl : ℕ

namespace Coalescer

/-- The empty coalescer. -/
def new (ttl : ℕ) : Coalescer := ⟨fun _ => none, ttl⟩

/-- The expired entries go first. -/
def reap (c : Coalescer) (t : ℤ) : Coalescer :=
  { c with entries := fun key => (c.entries key).filter fun e => decide (age t e.created < c.ttl * 2) }

/-- An entry put in. -/
def insert (c : Coalescer) (key : String) (e : CoalescerEntry) : Coalescer :=
  { c with entries := Function.update c.entries key (some e) }

/-- `register`, where a leader would get the channel `tx`. -/
def register (c : Coalescer) (key : String) (tx : ℕ) (t : ℤ) : Coalesce × Coalescer :=
  let c := c.reap t
  match (c.entries key).filter fun e => decide (age t e.created < c.ttl) with
  | some e => (.follow e.tx, c)
  | none => (.lead tx, c.insert key ⟨tx, t⟩)

/-- `remove`. -/
def remove (c : Coalescer) (key : String) : Coalescer :=
  { c with entries := Function.update c.entries key none }

variable {c : Coalescer} {key k : String} {tx rx : ℕ} {t : ℤ} {e : CoalescerEntry}

/-- Reaping keeps the time to live. -/
@[simp] theorem ttl_reap (c : Coalescer) (t : ℤ) : (c.reap t).ttl = c.ttl := rfl

@[simp] theorem ttl_insert (c : Coalescer) (key : String) (e : CoalescerEntry) : (c.insert key e).ttl = c.ttl := rfl

@[simp] theorem ttl_remove (c : Coalescer) (key : String) : (c.remove key).ttl = c.ttl := rfl

@[simp] theorem entries_insert_self (c : Coalescer) (key : String) (e : CoalescerEntry) :
    (c.insert key e).entries key = some e := Function.update_self key _ _

theorem entries_insert_of_ne (h : k ≠ key) (c : Coalescer) (e : CoalescerEntry) :
    (c.insert key e).entries k = c.entries k := Function.update_of_ne h _ _

@[simp] theorem entries_remove_self (c : Coalescer) (key : String) : (c.remove key).entries key = none :=
  Function.update_self key _ _

theorem entries_remove_of_ne (h : k ≠ key) (c : Coalescer) : (c.remove key).entries k = c.entries k :=
  Function.update_of_ne h _ _

/-- An entry survives the reaping if it is less than twice as old as the time to live. -/
theorem entries_reap (c : Coalescer) (t : ℤ) (key : String) :
    (c.reap t).entries key = (c.entries key).filter fun e => decide (age t e.created < c.ttl * 2) := rfl

theorem entries_reap_eq_some_iff :
    (c.reap t).entries key = some e ↔ c.entries key = some e ∧ age t e.created < c.ttl * 2 := by
  rw [entries_reap, Option.filter_eq_some_iff, decide_eq_true_eq]

/-- A young entry is not reaped. -/
theorem entries_reap_of_young (h : c.entries key = some e) (hyoung : age t e.created < c.ttl) :
    (c.reap t).entries key = some e := by
  rw [entries_reap_eq_some_iff]
  exact ⟨h, by omega⟩

/-- **What `register` does**: it follows the young entry of the key, or puts its own in. -/
theorem register_spec (c : Coalescer) (key : String) (tx : ℕ) (t : ℤ) :
    (∃ e, c.entries key = some e ∧ age t e.created < c.ttl ∧
      c.register key tx t = (.follow e.tx, c.reap t)) ∨
    ((∀ e, c.entries key = some e → c.ttl ≤ age t e.created) ∧
      c.register key tx t = (.lead tx, (c.reap t).insert key ⟨tx, t⟩)) := by
  unfold register
  dsimp only
  cases hfound : ((c.reap t).entries key).filter fun e => decide (age t e.created < (c.reap t).ttl) with
  | some e =>
      rw [Option.filter_eq_some_iff, entries_reap_eq_some_iff, decide_eq_true_eq] at hfound
      exact .inl ⟨e, hfound.1.1, hfound.2, rfl⟩
  | none =>
      refine .inr ⟨?_, rfl⟩
      intro e he
      by_contra hyoung
      have hlt : age t e.created < c.ttl := by omega
      rw [entries_reap_of_young he hlt] at hfound
      simp [hlt] at hfound

/-- A registration follows `rx` exactly if the entry of the key is young and holds that channel. -/
theorem register_follow_iff :
    (c.register key tx t).1 = .follow rx ↔
      ∃ e, c.entries key = some e ∧ age t e.created < c.ttl ∧ e.tx = rx := by
  rcases register_spec c key tx t with ⟨e, he, hyoung, heq⟩ | ⟨hold, heq⟩
  · rw [heq]
    constructor
    · intro hfollow
      exact ⟨e, he, hyoung, Coalesce.follow.inj hfollow⟩
    · rintro ⟨e', he', -, rfl⟩
      obtain rfl : e = e' := Option.some.inj (he.symm.trans he')
      rfl
  · rw [heq]
    constructor
    · intro hfollow
      cases hfollow
    · rintro ⟨e, he, hyoung, -⟩
      have := hold e he
      omega

end Coalescer

/-! ## Every interleaving

A leader and its followers are requests of their own, so between the two halves of `complete` anything can happen.
The clock is read once in each event. -/

variable {ρ : Type*}

/-- A `Lead`, with the request that made it: what its channel holds, and whether the handle is gone. -/
structure Leader (ρ : Type*) where
  request : ρ
  created : ℤ
  value : Option SharedResponse := none
  dropped : Bool := false
  deriving DecidableEq

namespace Leader

/-- It has neither completed nor been dropped. -/
def live (l : Leader ρ) : Bool := !l.dropped && l.value.isNone

end Leader

/-- A coalescer, the leaders it has made, the followers that wait, and what followers have received. -/
structure Coalescing (ρ : Type*) where
  coalescer : Coalescer
  leaders : List (Leader ρ)
  waiting : List (ρ × ℕ)
  received : List (ρ × ℕ × SharedResponse)
  now : ℤ

/-- What can happen next: `send` is the first half of `complete`, `drop` its second half or a drop alone, and
`wait` the end of a follower's wait. -/
inductive CoalescerEvent (ρ : Type*) where
  | register (r : ρ)
  | send (tx : ℕ) (resp : SharedResponse)
  | drop (tx : ℕ)
  | wait (i : ℕ)

namespace Coalescing

/-- Nobody has asked for anything. -/
def new (ttl : ℕ) (now : ℤ) : Coalescing ρ := ⟨.new ttl, [], [], [], now⟩

/-- What an event does at `t`. -/
def act (key : ρ → String) (s : Coalescing ρ) (t : ℤ) : CoalescerEvent ρ → Option (Coalescing ρ)
  | .register r =>
      match s.coalescer.register (key r) s.leaders.length t with
      | (.follow rx, c) => some { s with coalescer := c, waiting := s.waiting ++ [(r, rx)], now := t }
      | (.lead _, c) =>
          some { s with coalescer := c, leaders := s.leaders ++ [{ request := r, created := t }], now := t }
  | .send tx resp =>
      match s.leaders[tx]? with
      | some l =>
          if l.live then
            some { s with leaders := s.leaders.set tx { l with value := some resp }, now := t }
          else none
      | none => none
  | .drop tx =>
      match s.leaders[tx]? with
      | some l =>
          if l.dropped then none
          else
            some { s with
              coalescer := s.coalescer.remove (key l.request)
              leaders := s.leaders.set tx { l with dropped := true }
              now := t }
      | none => none
  | .wait i =>
      match s.waiting[i]? with
      | some (r, rx) =>
          -- nothing on the channel: the sender is gone, or the wait timed out
          match (s.leaders[rx]?).bind (·.value) with
          | some resp =>
              some { s with
                waiting := s.waiting.eraseIdx i, received := s.received ++ [(r, rx, resp)], now := t }
          | none => some { s with waiting := s.waiting.eraseIdx i, now := t }
      | none => none

/-- One event, at a clock reading that is not before the last one. -/
def step (key : ρ → String) (s : Coalescing ρ) (x : CoalescerEvent ρ × ℤ) : Option (Coalescing ρ) :=
  if s.now ≤ x.2 then s.act key x.2 x.1 else none

end Coalescing

/-- Every interleaving of the calls on one coalescer. -/
def coalescerSystem (key : ρ → String) (ttl : ℕ) : System (Coalescing ρ) (CoalescerEvent ρ × ℤ) :=
  .ofStep (fun s => ∃ now, s = .new ttl now) (Coalescing.step key)

namespace Coalescing

variable {key : ρ → String} {s s' : Coalescing ρ} {x : CoalescerEvent ρ × ℤ} {e : CoalescerEvent ρ} {t now : ℤ}
  {ttl tx : ℕ} {l l' : Leader ρ} {es : List (CoalescerEvent ρ × ℤ)}

/-- What a step can be. -/
inductive Moves (key : ρ → String) (s : Coalescing ρ) (t : ℤ) : CoalescerEvent ρ → Coalescing ρ → Prop
  | follow {r : ρ} {e : CoalescerEntry} (hentry : s.coalescer.entries (key r) = some e)
      (hyoung : age t e.created < s.coalescer.ttl) :
      Moves key s t (.register r)
        { s with coalescer := s.coalescer.reap t, waiting := s.waiting ++ [(r, e.tx)], now := t }
  | lead {r : ρ} (hold : ∀ e, s.coalescer.entries (key r) = some e → s.coalescer.ttl ≤ age t e.created) :
      Moves key s t (.register r)
        { s with
          coalescer := (s.coalescer.reap t).insert (key r) ⟨s.leaders.length, t⟩
          leaders := s.leaders ++ [{ request := r, created := t }]
          now := t }
  | send {tx : ℕ} {resp : SharedResponse} {l : Leader ρ} (hget : s.leaders[tx]? = some l)
      (hlive : l.live = true) :
      Moves key s t (.send tx resp)
        { s with leaders := s.leaders.set tx { l with value := some resp }, now := t }
  | drop {tx : ℕ} {l : Leader ρ} (hget : s.leaders[tx]? = some l) :
      Moves key s t (.drop tx)
        { s with
          coalescer := s.coalescer.remove (key l.request)
          leaders := s.leaders.set tx { l with dropped := true }
          now := t }
  | receive {i rx : ℕ} {r : ρ} {l : Leader ρ} {resp : SharedResponse} (hwait : s.waiting[i]? = some (r, rx))
      (hget : s.leaders[rx]? = some l) (hvalue : l.value = some resp) :
      Moves key s t (.wait i)
        { s with waiting := s.waiting.eraseIdx i, received := s.received ++ [(r, rx, resp)], now := t }
  | leave {i : ℕ} : Moves key s t (.wait i) { s with waiting := s.waiting.eraseIdx i, now := t }

/-- What an event does is one of these. -/
theorem moves_of_act (h : s.act key t e = some s') : Moves key s t e s' := by
  cases e with
  -- `register` either follows the young entry, or there is none and the caller leads
  | register r =>
      rcases s.coalescer.register_spec (key r) s.leaders.length t with ⟨e, he, hyoung, heq⟩ | ⟨hold, heq⟩
      · rw [act, heq] at h
        obtain rfl := Option.some.inj h
        exact .follow he hyoung
      · rw [act, heq] at h
        obtain rfl := Option.some.inj h
        exact .lead hold
  | send tx resp =>
      cases hget : s.leaders[tx]? with
      | none => simp [act, hget] at h
      | some l =>
          simp only [act, hget, Option.ite_none_right_eq_some] at h
          obtain ⟨hlive, h⟩ := h
          obtain rfl := Option.some.inj h
          exact .send hget hlive
  | drop tx =>
      cases hget : s.leaders[tx]? with
      | none => simp [act, hget] at h
      | some l =>
          simp only [act, hget, Option.ite_none_left_eq_some] at h
          obtain ⟨-, h⟩ := h
          obtain rfl := Option.some.inj h
          exact .drop hget
  -- a wait that ends without a value gives the caller nothing
  | wait i =>
      cases hwait : s.waiting[i]? with
      | none => simp [act, hwait] at h
      | some w =>
          obtain ⟨r, rx⟩ := w
          cases hvalue : (s.leaders[rx]?).bind (·.value) with
          | none =>
              simp only [act, hwait, hvalue] at h
              obtain rfl := Option.some.inj h
              exact .leave
          | some resp =>
              simp only [act, hwait, hvalue] at h
              obtain rfl := Option.some.inj h
              obtain ⟨l, hget, hl⟩ := Option.bind_eq_some_iff.mp hvalue
              exact .receive hwait hget hl

/-- So is a step, which also moves the clock. -/
theorem step_moves (h : s.step key x = some s') : s.now ≤ x.2 ∧ Moves key s x.2 x.1 s' := by
  simp only [step, Option.ite_none_right_eq_some] at h
  exact ⟨h.1, moves_of_act h.2⟩

/-! ## What an entry stands for

An entry knows its leader by number, and was made when the leader was.  A leader that has lost its entry is known to
nobody but its followers. -/

/-- **`Sound key s`** — an entry is that of the leader whose channel it holds. -/
def Sound (key : ρ → String) (s : Coalescing ρ) : Prop :=
  ∀ k e, s.coalescer.entries k = some e →
    ∃ l, s.leaders[e.tx]? = some l ∧ key l.request = k ∧ l.created = e.created

/-- At the beginning there is no entry. -/
theorem sound_new : Sound key (new ttl now) := by
  intro k e he
  cases he

/-- The leaders, one of them replaced. -/
theorem getElem?_set_leader (hget : s.leaders[tx]? = some l) (l' : Leader ρ) (i : ℕ) :
    (s.leaders.set tx l')[i]? = if i = tx then some l' else s.leaders[i]? := by
  obtain ⟨hlt, -⟩ := List.getElem?_eq_some_iff.mp hget
  rw [List.getElem?_set]
  by_cases hi : i = tx
  · subst hi
    rw [if_pos rfl, if_pos rfl, if_pos hlt]
  · rw [if_neg (Ne.symm hi), if_neg hi]

/-- What becomes of a handle leaves the requests and the times as they are. -/
theorem leader_set (l' : Leader ρ) (hget : s.leaders[tx]? = some l) (hrequest : l'.request = l.request)
    (hcreated : l'.created = l.created) {i : ℕ} {m : Leader ρ} (hm : s.leaders[i]? = some m) :
    ∃ m', (s.leaders.set tx l')[i]? = some m' ∧ m'.request = m.request ∧ m'.created = m.created := by
  rw [getElem?_set_leader hget]
  by_cases hi : i = tx
  · subst hi
    obtain rfl : l = m := Option.some.inj (hget.symm.trans hm)
    exact ⟨l', if_pos rfl, hrequest, hcreated⟩
  · exact ⟨m, by rw [if_neg hi]; exact hm, rfl, rfl⟩

/-- A leader stays where it is when another one is made. -/
theorem leader_append {i : ℕ} {m : Leader ρ} (hm : s.leaders[i]? = some m) :
    (s.leaders ++ [l])[i]? = some m := by
  obtain ⟨hlt, -⟩ := List.getElem?_eq_some_iff.mp hm
  rw [List.getElem?_append_left hlt]
  exact hm

/-- A leader is one of before, or the one just made. -/
theorem leader_of_append {i : ℕ} {m : Leader ρ} (hm : (s.leaders ++ [l])[i]? = some m) :
    s.leaders[i]? = some m ∨ i = s.leaders.length ∧ m = l := by
  rw [List.getElem?_append] at hm
  split at hm
  · exact .inl hm
  · rename_i hlt
    obtain ⟨hbound, hlast⟩ := List.getElem?_eq_some_iff.mp hm
    have hzero : i - s.leaders.length = 0 := by
      simp only [List.length_singleton] at hbound
      omega
    refine .inr ⟨by omega, ?_⟩
    simpa [hzero] using hlast.symm

theorem sound_moves (h : Sound key s) (hmoves : Moves key s t e s') : Sound key s' := by
  intro k f hf
  cases hmoves with
  | follow hentry hyoung => exact h k f (Coalescer.entries_reap_eq_some_iff.mp hf).1
  | @lead r hold =>
      -- the entry just made, or one that the reaping spared
      dsimp only at hf ⊢
      by_cases hk : k = key r
      · subst hk
        rw [Coalescer.entries_insert_self] at hf
        obtain rfl := Option.some.inj hf
        exact ⟨_, List.getElem?_concat_length, rfl, rfl⟩
      · rw [Coalescer.entries_insert_of_ne hk, Coalescer.entries_reap_eq_some_iff] at hf
        obtain ⟨l, hget, hkey, hcreated⟩ := h k f hf.1
        exact ⟨l, leader_append hget, hkey, hcreated⟩
  | @send tx resp l hget hlive =>
      obtain ⟨m, hm, hkey, hcreated⟩ := h k f hf
      obtain ⟨m', hm', hreq, hmade⟩ := leader_set { l with value := some resp } hget rfl rfl hm
      exact ⟨m', hm', by rw [hreq, hkey], hmade.trans hcreated⟩
  | @drop tx l hget =>
      -- the entry of the key is gone, whoever's it was; the others stand
      dsimp only at hf ⊢
      by_cases hk : k = key l.request
      · rw [hk, Coalescer.entries_remove_self] at hf
        cases hf
      · rw [Coalescer.entries_remove_of_ne hk] at hf
        obtain ⟨m, hm, hkey, hcreated⟩ := h k f hf
        obtain ⟨m', hm', hreq, hmade⟩ := leader_set { l with dropped := true } hget rfl rfl hm
        exact ⟨m', hm', by rw [hreq, hkey], hmade.trans hcreated⟩
  | receive hwait hget hvalue => exact h k f hf
  | leave => exact h k f hf

/-! ## Leadership

To lead is to be followed: a request that registers under the key gets the channel of the leader. -/

/-- **`Led key s`** — as long as a leader is live and young, whoever asks for its key follows it; so a key has at
most one such leader. -/
structure Led (key : ρ → String) (s : Coalescing ρ) : Prop where
  follows : ∀ tx l, s.leaders[tx]? = some l → l.live = true →
    ∀ t, s.now ≤ t → age t l.created < s.coalescer.ttl →
    ∀ r, key r = key l.request → (s.coalescer.register (key r) s.leaders.length t).1 = .follow tx
  unique : ∀ (i j : ℕ) (l l' : Leader ρ), s.leaders[i]? = some l → s.leaders[j]? = some l' →
    l.live = true → l'.live = true →
    age s.now l.created < s.coalescer.ttl → age s.now l'.created < s.coalescer.ttl →
    key l.request = key l'.request → i = j

/-- The condition: whoever drops a handle leaves no other leader of the key behind that is live and young. -/
def NoLateDrop (key : ρ → String) (s : Coalescing ρ) (x : CoalescerEvent ρ × ℤ) : Prop :=
  ∀ tx l i l', x.1 = .drop tx → s.leaders[tx]? = some l → s.leaders[i]? = some l' → i ≠ tx →
    l'.live = true → key l'.request = key l.request → s.coalescer.ttl ≤ age x.2 l'.created

/-- A live and young leader has the entry of its key. -/
def Held (key : ρ → String) (s : Coalescing ρ) : Prop :=
  ∀ tx l, s.leaders[tx]? = some l → l.live = true → age s.now l.created < s.coalescer.ttl →
    s.coalescer.entries (key l.request) = some ⟨tx, l.created⟩

theorem Held.led (h : Held key s) : Led key s where
  follows tx l hget hlive t hle hyoung r hr := by
    have hnow : age s.now l.created < s.coalescer.ttl := lt_of_le_of_lt (Lib.age_mono hle _) hyoung
    rw [Coalescer.register_follow_iff, hr]
    exact ⟨_, h tx l hget hlive hnow, hyoung, rfl⟩
  unique i j l l' hi hj hlive hlive' hyoung hyoung' hkey := by
    have hentry := h i l hi hlive hyoung
    rw [hkey, h j l' hj hlive' hyoung'] at hentry
    exact (congrArg CoalescerEntry.tx (Option.some.inj hentry)).symm

theorem Led.held (hsound : Sound key s) (h : Led key s) : Held key s := by
  intro tx l hget hlive hyoung
  have hfollow := h.follows tx l hget hlive s.now (le_refl s.now) hyoung l.request rfl
  obtain ⟨e, he, -, rfl⟩ := Coalescer.register_follow_iff.mp hfollow
  obtain ⟨m, hm, -, hcreated⟩ := hsound _ e he
  obtain rfl : l = m := Option.some.inj (hget.symm.trans hm)
  rw [he, hcreated]

theorem led_iff_held (hsound : Sound key s) : Led key s ↔ Held key s := ⟨Led.held hsound, Held.led⟩

/-! ## One step

A move concerns one key at a time, and only the entry of that key. -/

/-- Time passes, and other entries are reaped. -/
theorem held_reap (h : Held key s) (hle : s.now ≤ t) {l : Leader ρ} (hget : s.leaders[tx]? = some l)
    (hlive : l.live = true) (hyoung : age t l.created < s.coalescer.ttl) :
    (s.coalescer.reap t).entries (key l.request) = some ⟨tx, l.created⟩ := by
  have hnow := lt_of_le_of_lt (Lib.age_mono hle l.created) hyoung
  exact Coalescer.entries_reap_of_young (h tx l hget hlive hnow) hyoung

/-- A new leader of a key finds no live and young one. -/
theorem held_lead {r : ρ} (h : Held key s) (hle : s.now ≤ t)
    (hold : ∀ e, s.coalescer.entries (key r) = some e → s.coalescer.ttl ≤ age t e.created) :
    Held key { s with
      coalescer := (s.coalescer.reap t).insert (key r) ⟨s.leaders.length, t⟩
      leaders := s.leaders ++ [{ request := r, created := t }]
      now := t } := by
  intro tx l hget hlive hyoung
  dsimp only at hget hyoung ⊢
  rw [Coalescer.ttl_insert, Coalescer.ttl_reap] at hyoung
  rcases leader_of_append hget with hbefore | ⟨rfl, rfl⟩
  · have hentry := held_reap h hle hbefore hlive hyoung
    -- a live and young leader of `key r` would have its entry, and the entry is old
    have hne : key l.request ≠ key r := by
      intro hkey
      rw [hkey] at hentry
      have hage := hold _ (Coalescer.entries_reap_eq_some_iff.mp hentry).1
      dsimp only at hage
      omega
    rw [Coalescer.entries_insert_of_ne hne]
    exact hentry
  · exact Coalescer.entries_insert_self _ _ _

/-- A leader that completes is not live, and the others stay. -/
theorem held_send {resp : SharedResponse} (h : Held key s) (hle : s.now ≤ t)
    (hget : s.leaders[tx]? = some l) :
    Held key { s with leaders := s.leaders.set tx { l with value := some resp }, now := t } := by
  intro i m hm hlive hyoung
  dsimp only at hm hyoung ⊢
  rw [getElem?_set_leader hget] at hm
  split at hm
  · obtain rfl := Option.some.inj hm
    simp [Leader.live] at hlive
  · exact h i m hm hlive (lt_of_le_of_lt (Lib.age_mono hle m.created) hyoung)

/-- A drop removes the entry of its key, whoever has it. -/
theorem held_drop_iff (h : Held key s) (hle : s.now ≤ t) (hget : s.leaders[tx]? = some l) :
    Held key { s with
      coalescer := s.coalescer.remove (key l.request)
      leaders := s.leaders.set tx { l with dropped := true }
      now := t } ↔ NoLateDrop key s (.drop tx, t) := by
  constructor
  · intro hafter tx' l' i m htx hget' hm hne hlive hkey
    obtain rfl : tx = tx' := CoalescerEvent.drop.inj htx
    obtain rfl : l = l' := Option.some.inj (hget.symm.trans hget')
    by_contra hyoung
    -- the leader left behind would need the entry that the drop removed
    have hkept := getElem?_set_leader hget { l with dropped := true } i
    rw [if_neg hne, hm] at hkept
    have hentry := hafter i m hkept hlive (by simpa using hyoung)
    rw [hkey] at hentry
    simp at hentry
  · intro hlate i m hm hlive hyoung
    dsimp only at hm hyoung ⊢
    rw [getElem?_set_leader hget] at hm
    rw [Coalescer.ttl_remove] at hyoung
    split at hm
    · obtain rfl := Option.some.inj hm
      simp [Leader.live] at hlive
    · rename_i hne
      have hother : key m.request ≠ key l.request := by
        intro hkey
        have hage := hlate tx l i m rfl hget hm hne hlive hkey
        dsimp only at hage
        omega
      rw [Coalescer.entries_remove_of_ne hother]
      exact h i m hm hlive (lt_of_le_of_lt (Lib.age_mono hle m.created) hyoung)

/-- **Leadership over one step.**  Only a late drop loses it. -/
theorem held_moves_iff (h : Held key s) (hle : s.now ≤ t) (hmoves : Moves key s t e s') :
    Held key s' ↔ NoLateDrop key s (e, t) := by
  have hother : (∀ tx, e ≠ .drop tx) → NoLateDrop key s (e, t) := by
    intro hne tx l i l' htx
    exact absurd htx (hne tx)
  cases hmoves with
  | follow hentry hyoung =>
      refine iff_of_true ?_ (hother fun tx hdrop => by cases hdrop)
      intro tx l hget hlive hyoung
      exact held_reap h hle hget hlive hyoung
  | lead hold => exact iff_of_true (held_lead h hle hold) (hother fun tx hdrop => by cases hdrop)
  | send hget hlive => exact iff_of_true (held_send h hle hget) (hother fun tx hdrop => by cases hdrop)
  | drop hget => exact held_drop_iff h hle hget
  | receive hwait hget hvalue =>
      refine iff_of_true ?_ (hother fun tx hdrop => by cases hdrop)
      intro tx l hget hlive hyoung
      exact h tx l hget hlive (lt_of_le_of_lt (Lib.age_mono hle l.created) hyoung)
  | leave =>
      refine iff_of_true ?_ (hother fun tx hdrop => by cases hdrop)
      intro tx l hget hlive hyoung
      exact h tx l hget hlive (lt_of_le_of_lt (Lib.age_mono hle l.created) hyoung)

/-! ## Whole runs

From the empty coalescer, along any run. -/

/-- At the beginning there is nobody to lead. -/
theorem held_new : Held key (new ttl now) := by
  intro tx l hget
  cases hget

/-- **Coalescing leadership.**  The leaders lead at every moment of a run exactly if no drop of the run was
late. -/
theorem leadership_iff (key : ρ → String) (ttl : ℕ) (now : ℤ) (es : List (CoalescerEvent ρ × ℤ))
    (s' : Coalescing ρ) :
    ((coalescerSystem key ttl).within (Led key)).Run (.new ttl now) es s' ↔
      ((coalescerSystem key ttl).restrict (NoLateDrop key)).Run (.new ttl now) es s' := by
  refine System.Run.within_iff (K := Sound key) ?_ ?_ sound_new held_new.led
  · intro s x s' hsound hstep
    exact sound_moves hsound (step_moves hstep).2
  · intro s x s' hsound hled hstep
    obtain ⟨hle, hmoves⟩ := step_moves hstep
    rw [led_iff_held (sound_moves hsound hmoves)]
    exact held_moves_iff (hled.held hsound) hle hmoves

/-- The drop of a leader that is six seconds old takes the entry of the one that replaced it: the next request
leads as well. -/
theorem late_drop_splits :
    ∃ s, (coalescerSystem id (secs 5)).Reachable s ∧ ¬ Led id s := by
  have hexec : (System.exec (step id) (new (secs 5) 0)
      [(.register "k", 0), (.register "k", secs 6), (.drop 0, secs 7), (.register "k", secs 7)]).any
      (fun s : Coalescing String =>
        decide (s.leaders = [⟨"k", 0, none, true⟩, ⟨"k", secs 6, none, false⟩, ⟨"k", secs 7, none, false⟩]) &&
          decide (s.now = secs 7) && decide (s.coalescer.ttl = secs 5)) = true := by
    decide +kernel
  obtain ⟨s, hreach, hend⟩ := System.reachable_of_exec
    (show (coalescerSystem id (secs 5)).init (new (secs 5) 0) from ⟨0, rfl⟩) hexec
  simp only [Bool.and_eq_true, decide_eq_true_eq] at hend
  obtain ⟨⟨hleaders, hnow⟩, httl⟩ := hend
  refine ⟨s, hreach, ?_⟩
  intro hled
  have hsame := hled.unique 1 2 ⟨"k", secs 6, none, false⟩ ⟨"k", secs 7, none, false⟩ (by rw [hleaders]; rfl)
    (by rw [hleaders]; rfl) rfl rfl (by rw [hnow, httl]; decide) (by rw [hnow, httl]; decide) rfl
  cases hsame

end Coalescing

end Flock
