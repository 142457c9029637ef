/-
# Flock.Client.Fairness — the rotation of the SDK key pool is fair.

Every call of `nextAvailable` is a round of `Flock.Lib.RoundRobin`: the slots are the keys, and those that are not
parked are open.  The reports between two calls park and unpark keys as they like.  They leave the keys and the cursor
alone, so the rounds of a run are rounds of one ring.

A key that was handed out is behind all others, and stays behind each of them that is available from then on.

That a key is available is asked at two calls only, the last one and those in between.  What it is in the rest of the
run does not matter, since the order of the ring is the order of the keys.
-/
import Flock.Client.KeyPool
import Flock.Lib.RoundRobin

namespace Flock.Client

open Lib

namespace KeyPool

/-- The keys, in the order of the ring. -/
def names (p : KeyPool) : List String := p.keys.map (·.key)

/-- The key is in the pool, and not parked. -/
def Available (p : KeyPool) (now : ℚ) (key : String) : Prop := ∃ s ∈ p.keys, s.key = key ∧ s.isLimited now = false

/-- The slots that are open. -/
def isOpen (p : KeyPool) (now : ℚ) (idx : ℕ) : Bool := (p.usable now idx).isSome

variable {p : KeyPool} {sdk : Sdk} {now : ℚ} {key : String} {idx : ℕ}

/-- A usable slot is that of a key which is not parked. -/
theorem usable_eq_some {s : KeyState} (h : p.usable now idx = some s) :
    p.names[idx]? = some s.key ∧ s ∈ p.keys ∧ s.isLimited now = false := by
  obtain ⟨hget, hfree⟩ := Option.filter_eq_some_iff.mp h
  refine ⟨?_, List.mem_of_getElem? hget, by simpa using hfree⟩
  unfold names
  rw [List.getElem?_map, hget]
  rfl

/-- An available key is at an open slot. -/
theorem isOpen_of_available (h : p.Available now key) (hkey : p.names[idx]? = some key) : p.isOpen now idx = true := by
  obtain ⟨s, hs, rfl, hfree⟩ := h
  obtain ⟨j, hj⟩ := List.mem_iff_getElem?.mp hs
  have hname : p.names[j]? = some s.key := by
    unfold names
    rw [List.getElem?_map, hj]
    rfl
  obtain ⟨hidx, hget⟩ := List.getElem?_eq_some_iff.mp hkey
  obtain ⟨hj', hget'⟩ := List.getElem?_eq_some_iff.mp hname
  obtain rfl : idx = j := (List.Nodup.getElem_inj_iff p.distinct).mp (hget.trans hget'.symm)
  unfold isOpen usable
  rw [hj]
  simp [hfree]

/-- To find a value is to find where there is one. -/
theorem findSome?_eq_bind {α β : Type} (f : α → Option β) (l : List α) :
    l.findSome? f = (l.find? fun a => (f a).isSome).bind f := by
  induction l with
  | nil => rfl
  | cons a l ih =>
      rw [List.findSome?_cons, List.find?_cons]
      cases h : f a with
      | none => exact ih
      | some b => exact h.symm

/-- **A call of `nextAvailable` is a round.** -/
theorem nextAvailable_eq (p : KeyPool) (now : ℚ) :
    (p.nextAvailable now).1.cursor =
        RoundRobin.next p.keys.length p.cursor (RoundRobin.pick p.keys.length (p.isOpen now) p.cursor) ∧
      (p.nextAvailable now).2 = (RoundRobin.pick p.keys.length (p.isOpen now) p.cursor).bind (p.names[·]?) := by
  have hopen : (fun i => ((p.usable now (p.turn i)).map fun s => (p.turn i, s.key)).isSome) =
      fun i => p.isOpen now ((p.cursor + i) % p.keys.length) := by
    funext i
    rw [Option.isSome_map]
    rfl
  unfold nextAvailable RoundRobin.pick
  rw [findSome?_eq_bind, hopen]
  cases hfind : (List.range p.keys.length).find? fun i => p.isOpen now ((p.cursor + i) % p.keys.length) with
  | none => exact ⟨rfl, rfl⟩
  | some i =>
      have husable : (p.usable now (p.turn i)).isSome = true :=
        (List.find?_range_eq_some.mp hfind).1
      obtain ⟨s, hs⟩ := Option.isSome_iff_exists.mp husable
      rw [Option.bind_some, hs]
      exact ⟨rfl, (usable_eq_some hs).1.symm⟩

theorem names_modify (p : KeyPool) (key : String) {f : KeyState → KeyState} (hf : ∀ s, (f s).key = s.key) :
    (p.modify key f hf).names = p.names := map_key_modifyKey key hf p.keys

theorem names_nextAvailable (p : KeyPool) (now : ℚ) : (p.nextAvailable now).1.names = p.names := by
  unfold names
  rw [keys_nextAvailable]

/-- So the keys are those of the beginning. -/
theorem names_act (sdk : Sdk) (p : KeyPool) (c : Call) : (Usage.act sdk p c).names = p.names := by
  cases c with
  | nextAvailable now => exact names_nextAvailable p now
  | recordSuccess now key =>
      unfold Usage.act recordSuccess
      exact names_modify p key _
  | recordFailure now key reason =>
      unfold Usage.act recordFailure
      exact names_modify p key _
  | recordRateLimit now key d =>
      unfold Usage.act recordRateLimit
      exact names_modify p key _

theorem length_names (p : KeyPool) : p.names.length = p.keys.length := List.length_map _

end KeyPool

/-! ## The rounds of a run

The ring turns under changing circumstances: every round has its own pool and its own clock, and the same keys. -/

/-- A call of `nextAvailable`. -/
structure Round where
  pool : KeyPool
  now : ℚ

/-- The key it hands out. -/
def Round.granted (r : Round) : Option String := (r.pool.nextAvailable r.now).2

/-- What is open in the round. -/
def Round.isOpen (r : Round) : ℕ → Bool := r.pool.isOpen r.now

/-- The key is available at the call. -/
def Round.Available (r : Round) (key : String) : Prop := r.pool.Available r.now key

/-- The round of a call, if it is one. -/
def Call.round (p : KeyPool) : Call → List Round
  | .nextAvailable now => [⟨p, now⟩]
  | _ => []

/-- The rounds of some calls, from a pool on. -/
def rounds (sdk : Sdk) (p : KeyPool) : List Call → List Round
  | [] => []
  | c :: cs => c.round p ++ rounds sdk (Usage.act sdk p c) cs

section Rounds

variable {sdk : Sdk} {p : KeyPool} {cs : List Call} {r : Round}

/-- The keys of a round are those of the pool that the run began with. -/
theorem names_of_mem_rounds (h : r ∈ rounds sdk p cs) : r.pool.names = p.names := by
  induction cs generalizing p with
  | nil => cases h
  | cons c cs ih =>
      rcases List.mem_append.mp h with h | h
      · cases c with
        | nextAvailable now =>
            obtain rfl := List.mem_singleton.mp h
            rfl
        | _ => cases h
      · exact (ih h).trans (KeyPool.names_act sdk p c)

/-- **The rounds of a run are those of the ring.** -/
theorem granted_rounds (sdk : Sdk) (p : KeyPool) (cs : List Call) :
    (rounds sdk p cs).map Round.granted =
      (RoundRobin.served p.names.length p.cursor ((rounds sdk p cs).map Round.isOpen)).map
        fun slot => slot.bind (p.names[·]?) := by
  induction cs generalizing p with
  | nil => rfl
  | cons c cs ih =>
      have hrest := ih (Usage.act sdk p c)
      rw [KeyPool.names_act] at hrest
      cases c with
      | nextAvailable now =>
          obtain ⟨hcursor, hgranted⟩ := KeyPool.nextAvailable_eq p now
          rw [← KeyPool.length_names] at hcursor hgranted
          have hrest : (rounds sdk (p.nextAvailable now).1 cs).map Round.granted =
              (RoundRobin.served p.names.length (p.nextAvailable now).1.cursor _).map _ := hrest
          rw [hcursor] at hrest
          exact congrArg₂ List.cons hgranted hrest
      | recordSuccess now key => exact hrest
      | recordFailure now key reason => exact hrest
      | recordRateLimit now key d => exact hrest

/-- After a round the run goes on from the pool it left. -/
theorem rounds_split {pre post : List Round} (h : rounds sdk p cs = pre ++ r :: post) :
    ∃ cs', post = rounds sdk (r.pool.nextAvailable r.now).1 cs' := by
  induction cs generalizing p pre with
  | nil => simp [rounds] at h
  | cons c cs ih =>
      cases c with
      | nextAvailable now =>
          cases pre with
          | nil =>
              obtain ⟨rfl, rfl⟩ := List.cons.inj h
              exact ⟨cs, rfl⟩
          | cons first pre => exact ih (List.cons.inj h).2
      | recordSuccess now key => exact ih h
      | recordFailure now key reason => exact ih h
      | recordRateLimit now key d => exact ih h

/-- What is handed out is at the slot that is served. -/
theorem granted_eq_some {key : String} (h : r.granted = some key) :
    ∃ slot, r.pool.names[slot]? = some key ∧
      (r.pool.nextAvailable r.now).1.cursor = (slot + 1) % r.pool.names.length := by
  obtain ⟨hnext, hgranted⟩ := KeyPool.nextAvailable_eq r.pool r.now
  rw [Round.granted, hgranted] at h
  obtain ⟨slot, hpick, hname⟩ := Option.bind_eq_some_iff.mp h
  rw [hpick, ← KeyPool.length_names] at hnext
  exact ⟨slot, hname, hnext⟩

/-- All of these rounds are about the same keys. -/
theorem names_of_mem_mid {pre mid post : List Round} (hsplit : rounds sdk p cs = pre ++ r :: (mid ++ post)) :
    ∀ r' ∈ mid, r'.pool.names = r.pool.names := by
  intro r' hr'
  obtain ⟨cs', hcs'⟩ := rounds_split hsplit
  have hmem : r' ∈ rounds sdk (r.pool.nextAvailable r.now).1 cs' := hcs' ▸ List.mem_append_left _ hr'
  exact (names_of_mem_rounds hmem).trans (KeyPool.names_nextAvailable r.pool r.now)

/-- The rounds after a round are those of the ring, from the cursor that it left. -/
theorem granted_mid {pre mid post : List Round} (hsplit : rounds sdk p cs = pre ++ r :: (mid ++ post)) :
    mid.map Round.granted =
      (RoundRobin.served r.pool.names.length (r.pool.nextAvailable r.now).1.cursor (mid.map Round.isOpen)).map
        fun slot => slot.bind (r.pool.names[·]?) := by
  obtain ⟨cs', hcs'⟩ := rounds_split hsplit
  obtain ⟨cursor', hserved⟩ := RoundRobin.served_append r.pool.names.length (r.pool.nextAvailable r.now).1.cursor
    (mid.map Round.isOpen) (post.map Round.isOpen)
  have hring := granted_rounds sdk (r.pool.nextAvailable r.now).1 cs'
  rw [← hcs', KeyPool.names_nextAvailable, List.map_append, List.map_append, hserved, List.map_append] at hring
  refine (List.append_inj hring ?_).1
  rw [List.length_map, List.length_map, RoundRobin.length_served, List.length_map]

/-- A key is handed out in them exactly if its slot is served. -/
theorem mem_served_iff {pre mid post : List Round} (hsplit : rounds sdk p cs = pre ++ r :: (mid ++ post)) {slot : ℕ}
    {key : String} (hkey : r.pool.names[slot]? = some key) :
    some slot ∈ RoundRobin.served r.pool.names.length (r.pool.nextAvailable r.now).1.cursor (mid.map Round.isOpen) ↔
      ∃ r' ∈ mid, r'.granted = some key := by
  rw [← List.mem_map, granted_mid hsplit, List.mem_map]
  constructor
  · intro hmem
    exact ⟨some slot, hmem, hkey⟩
  · rintro ⟨slot', hmem, hkey'⟩
    obtain ⟨slot', rfl, hkey'⟩ := Option.bind_eq_some_iff.mp hkey'
    obtain ⟨h, hget⟩ := List.getElem?_eq_some_iff.mp hkey
    obtain ⟨h', hget'⟩ := List.getElem?_eq_some_iff.mp hkey'
    obtain rfl : slot' = slot := (List.Nodup.getElem_inj_iff r.pool.distinct).mp (hget'.trans hget.symm)
    exact hmem

/-- **A key that was handed out waits** for every other that is available from then on. -/
theorem not_granted_again {pre mid post : List Round} {x y : String}
    (hsplit : rounds sdk p cs = pre ++ r :: (mid ++ post)) (hx : r.granted = some x) (hne : y ≠ x)
    (hopen : ∀ r' ∈ mid, r'.Available y) (hwaits : ∀ r' ∈ mid, r'.granted ≠ some y) :
    ∀ r' ∈ mid, r'.granted ≠ some x := by
  intro r₁ hr₁ hgranted₁
  obtain ⟨a, hxa, hcursor⟩ := granted_eq_some hx
  have hnames := names_of_mem_mid hsplit
  -- the two keys have slots of their own
  obtain ⟨b, hyb⟩ : ∃ b, r.pool.names[b]? = some y := by
    obtain ⟨s, hs, rfl, -⟩ := hopen r₁ hr₁
    rw [← hnames r₁ hr₁]
    exact List.mem_iff_getElem?.mp (List.mem_map_of_mem hs)
  obtain ⟨ha, hxa'⟩ := List.getElem?_eq_some_iff.mp hxa
  obtain ⟨hb, hyb'⟩ := List.getElem?_eq_some_iff.mp hyb
  have hab : b ≠ a := by
    rintro rfl
    exact hne (hyb'.symm.trans hxa')
  -- and from behind the slot of `x` that of `y` is the nearer one
  have hx' := (mem_served_iff hsplit hxa).mpr ⟨r₁, hr₁, hgranted₁⟩
  have hy' := (mem_served_iff hsplit hyb).not.mpr fun ⟨r', hr', hgranted⟩ => hwaits r' hr' hgranted
  rw [hcursor] at hx' hy'
  have hopen' : ∀ isOpen ∈ mid.map Round.isOpen, isOpen b = true := by
    intro isOpen hmem
    obtain ⟨r', hr', rfl⟩ := List.mem_map.mp hmem
    exact KeyPool.isOpen_of_available (hopen r' hr') (by rw [hnames r' hr']; exact hyb)
  exact RoundRobin.not_overtaken (RoundRobin.next_lt ha (some a)) hb ha (RoundRobin.distance_behind ha hb hab) hopen'
    hy' hx'

end Rounds

/-! ## Fairness

Two grants of one key, and every other key that is available all the time in between: it is granted there too. -/

/-- **`Fair key between last`** — `key` was handed out before the rounds `between`, not in one of them, and then in
`last`: so was every other key in the meantime that was available, at `last` too; and none was twice, if `key` itself
was available. -/
structure Fair (key : String) (between : List Round) (last : Round) : Prop where
  served : ∀ other ∈ last.pool.names, other ≠ key → (∀ r ∈ between ++ [last], r.Available other) →
    ∃ r ∈ between, r.granted = some other
  once : (∀ r ∈ between, r.Available key) →
    between.Pairwise fun r r' => ∀ other, r.granted = some other → r'.granted ≠ some other

/-- It is what the ring says, with keys for slots. -/
theorem fair_of_rounds {sdk : Sdk} {p : KeyPool} {cs : List Call} {before between after : List Round}
    {first last : Round} {key : String}
    (hsplit : rounds sdk p cs = before ++ first :: (between ++ last :: after)) (hfirst : first.granted = some key)
    (hlast : last.granted = some key) (hbetween : ∀ r ∈ between, r.granted ≠ some key) : Fair key between last where
  served other hother hne hopen := by
    by_contra hnone
    have hsplit' : rounds sdk p cs = before ++ first :: ((between ++ [last]) ++ after) := by
      rw [hsplit, List.append_assoc, List.singleton_append]
    have hwaits : ∀ r ∈ between ++ [last], r.granted ≠ some other := by
      intro r hr hgranted
      rcases List.mem_append.mp hr with hr | hr
      · exact hnone ⟨r, hr, hgranted⟩
      · obtain rfl := List.mem_singleton.mp hr
        exact hne (Option.some.inj (hgranted.symm.trans hlast))
    exact not_granted_again hsplit' hfirst hne hopen hwaits last (by simp) hlast
  once hopen := by
    rw [List.pairwise_iff_getElem]
    intro i j hi hj hij other hgi
    have hmem : between[j] ∈ between.drop (i + 1) := by
      rw [List.mem_drop_iff_getElem]
      exact ⟨j - (i + 1), by omega, by congr 1; omega⟩
    have hcut : between = between.take i ++ between[i] :: between.drop (i + 1) := by
      rw [List.getElem_cons_drop, List.take_append_drop]
    have hsplit' : rounds sdk p cs = (before ++ first :: between.take i) ++
        between[i] :: (between.drop (i + 1) ++ last :: after) := by
      rw [hsplit, List.append_assoc, List.cons_append, ← List.cons_append (a := between[i]), ← List.append_assoc,
        ← hcut]
    have hne : key ≠ other := by
      rintro rfl
      exact hbetween _ (List.getElem_mem hi) hgi
    exact not_granted_again hsplit' hgi hne (fun r hr => hopen r (List.mem_of_mem_drop hr))
      (fun r hr => hbetween r (List.mem_of_mem_drop hr)) _ hmem

/-- The cursor stays in the ring, or at 0 where there is none. -/
theorem cursor_act {sdk : Sdk} {p : KeyPool} (h : p.cursor < max 1 p.names.length) (c : Call) :
    (Usage.act sdk p c).cursor < max 1 (Usage.act sdk p c).names.length := by
  rw [KeyPool.names_act]
  cases c with
  | nextAvailable now =>
      show (p.nextAvailable now).1.cursor < _
      rw [(KeyPool.nextAvailable_eq p now).1, ← KeyPool.length_names]
      rcases Nat.eq_zero_or_pos p.names.length with hempty | hpos
      · rw [hempty] at h ⊢
        exact h
      · rw [max_eq_right hpos] at h ⊢
        exact RoundRobin.next_lt h _
  | recordSuccess now key => exact h
  | recordFailure now key reason => exact h
  | recordRateLimit now key d => exact h

/-- In particular after a run from a new pool. -/
theorem cursor_run (sdk : Sdk) (keys : List String) (cs : List Call) :
    (cs.foldl (Usage.act sdk) (.new sdk keys)).cursor < max 1 (cs.foldl (Usage.act sdk) (.new sdk keys)).names.length :=
  List.foldlRecOn (motive := fun p : KeyPool => p.cursor < max 1 p.names.length) _ _ (by simp [KeyPool.new])
    fun _ h c _ => cursor_act h c

/-- Nothing is handed out exactly if every key is parked. -/
theorem granted_eq_none {r : Round} (hcursor : r.pool.cursor < max 1 r.pool.names.length) :
    r.granted = none ↔ ∀ s ∈ r.pool.keys, s.isLimited r.now = true := by
  rcases Nat.eq_zero_or_pos r.pool.names.length with hempty | hpos
  · have hkeys : r.pool.keys = [] := List.length_eq_zero_iff.mp (r.pool.length_names ▸ hempty)
    refine iff_of_true ?_ (by rw [hkeys]; simp)
    rw [Round.granted, (KeyPool.nextAvailable_eq r.pool r.now).2, hkeys]
    rfl
  · rw [max_eq_right hpos] at hcursor
    have hclosed : ∀ idx s, r.pool.keys[idx]? = some s → (r.pool.isOpen r.now idx = false ↔ s.isLimited r.now = true) := by
      intro idx s hs
      unfold KeyPool.isOpen KeyPool.usable
      rw [hs]
      cases hlimited : s.isLimited r.now <;> simp [hlimited]
    have hpick : r.granted = none ↔
        RoundRobin.pick r.pool.names.length (r.pool.isOpen r.now) r.pool.cursor = none := by
      rw [Round.granted, (KeyPool.nextAvailable_eq r.pool r.now).2, ← KeyPool.length_names]
      cases hslot : RoundRobin.pick r.pool.names.length (r.pool.isOpen r.now) r.pool.cursor with
      | none => simp
      | some slot =>
          obtain ⟨hlt, -⟩ := RoundRobin.pick_eq_some hcursor hslot
          simp [List.getElem?_eq_getElem hlt]
    rw [hpick, RoundRobin.pick_eq_none hcursor, KeyPool.length_names]
    constructor
    · intro h s hs
      obtain ⟨idx, hidx⟩ := List.mem_iff_getElem?.mp hs
      exact (hclosed idx s hidx).mp (h idx (List.getElem?_eq_some_iff.mp hidx).1)
    · intro h idx hlt
      have hidx := List.getElem?_eq_getElem hlt
      exact (hclosed idx _ hidx).mpr (h _ (List.getElem_mem hlt))

/-- The pool of a round is one that some calls lead to. -/
theorem pool_of_mem_rounds {sdk : Sdk} {p : KeyPool} {cs : List Call} {r : Round} (h : r ∈ rounds sdk p cs) :
    ∃ cs' : List Call, r.pool = cs'.foldl (Usage.act sdk) p := by
  induction cs generalizing p with
  | nil => cases h
  | cons c cs ih =>
      rcases List.mem_append.mp h with h | h
      · cases c with
        | nextAvailable now =>
            obtain rfl := List.mem_singleton.mp h
            exact ⟨[], rfl⟩
        | _ => cases h
      · obtain ⟨cs', hpool⟩ := ih h
        exact ⟨c :: cs', hpool⟩

/-- **The rotation is fair.**  Whatever is called on a new pool, the cursor stays below its size, or at 0 in a pool
without keys; a call of `nextAvailable` hands out nothing exactly if every key is parked then; and from one hand-out
of a key to the next it is fair. -/
theorem round_robin (sdk : Sdk) (keys : List String) (cs : List Call) :
    (cs.foldl (Usage.act sdk) (.new sdk keys)).cursor < max 1 (cs.foldl (Usage.act sdk) (.new sdk keys)).keys.length ∧
    (∀ r ∈ rounds sdk (.new sdk keys) cs, r.granted = none ↔ ∀ s ∈ r.pool.keys, s.isLimited r.now = true) ∧
    ∀ before first between last after key,
      rounds sdk (.new sdk keys) cs = before ++ first :: (between ++ last :: after) → first.granted = some key →
      last.granted = some key → (∀ r ∈ between, r.granted ≠ some key) → Fair key between last := by
  refine ⟨?_, fun r hr => granted_eq_none ?_, fun _ _ _ _ _ _ => fair_of_rounds⟩
  · rw [← KeyPool.length_names]
    exact cursor_run sdk keys cs
  · obtain ⟨cs', hpool⟩ := pool_of_mem_rounds hr
    rw [hpool]
    exact cursor_run sdk keys cs'

/-- Two keys; a call gets the one, which is all there is between the two calls that get the other. -/
example : (rounds .python (.new .python ["a", "b"]) [.nextAvailable 0, .nextAvailable 1, .nextAvailable 2]).map
    Round.granted = [some "a", some "b", some "a"] := by decide +kernel

/-- **Where the last call is left out of it**, a key that gets parked just before that call was available in the
meantime, and yet not handed out.  And without keys there is nothing the cursor could be below. -/
theorem not_round_robin_between : (∀ sdk, ¬ (KeyPool.new sdk []).cursor < (KeyPool.new sdk []).keys.length) ∧
    ∀ sdk, ∃ first last, rounds sdk (.new sdk ["a", "b"])
        [.nextAvailable 0, .recordRateLimit 0 "b" none, .nextAvailable 1] = [] ++ first :: ([] ++ last :: []) ∧
      first.granted = some "a" ∧ last.granted = some "a" ∧ "b" ∈ last.pool.names ∧
      ¬ ((∀ r ∈ ([] : List Round), r.Available "b") → ∃ r ∈ ([] : List Round), r.granted = some "b") := by
  refine ⟨fun sdk => by cases sdk <;> decide, fun sdk => ⟨_, _, rfl, ?_, ?_, ?_, by simp⟩⟩
  · cases sdk <;> decide +kernel
  · cases sdk <;> decide +kernel
  · cases sdk <;> decide +kernel

end Flock.Client
