/-
# Flock.Pool.Boot — a pool from its restored windows on.

The rows of the table are what earlier pools exported; there is one for each key.  At the boot each is restored to
the lane of its key in a fresh pool, and from then on the pool lives as any other.

A row is sorted, and the lane it is restored to has sent nothing yet, so the life of a booted pool is a life of
`Flock.Pool.Life` and its deques are in order.  That is what the front of the deque is popped for, and what
`sent[len - rpm]` is looked up for: `DequeOrder` says what both then mean.
-/
import Flock.Pool.Restart

namespace Flock

open Lib (System age inWindow popExpired Chronological)

/-! ## The table -/

/-- `lane_windows`, for one provider. -/
abbrev WindowTable : Type := String → Option (List ℕ)

namespace WindowTable

/-- `apply_op` of `LaneWindows`: a row takes the place of the one of its key. -/
def applyOp (db : WindowTable) (rows : List (String × List ℕ)) : WindowTable :=
  rows.foldl (fun db row => Function.update db row.1 (some row.2)) db

/-- The table after some pools were exported, each at its second and its instant. -/
def ofExports (exports : List (Pool × ℕ × ℤ)) : WindowTable :=
  exports.foldl (fun db e => applyOp db (e.1.laneWindowRows e.2.1 e.2.2)) fun _ => none

/-- `SELECT provider, key, sent_ms FROM lane_windows`, in any order, with the cut-off of the read. -/
structure Rows (db : WindowTable) (nowUnix : ℕ) (rows : List (String × List ℕ)) : Prop where
  keys : (rows.map Prod.fst).Nodup
  mem : ∀ row, row ∈ rows ↔ ∃ ms, db row.1 = some ms ∧ row = Pool.readRow nowUnix (row.1, ms)

/-- Every row is in order. -/
def Sorted (db : WindowTable) : Prop := ∀ key ms, db key = some ms → ms.Pairwise (· ≤ ·)

theorem Sorted.applyOp {db : WindowTable} (h : db.Sorted) {rows : List (String × List ℕ)}
    (hrows : ∀ row ∈ rows, row.2.Pairwise (· ≤ ·)) : (db.applyOp rows).Sorted := by
  refine List.foldlRecOn (motive := Sorted) _ _ h fun db hdb row hrow key ms hms => ?_
  by_cases hkey : key = row.1
  · subst hkey
    rw [Function.update_self] at hms
    cases hms
    exact hrows row hrow
  · rw [Function.update_of_ne hkey] at hms
    exact hdb key ms hms

theorem sorted_ofExports (exports : List (Pool × ℕ × ℤ)) : (ofExports exports).Sorted := by
  refine List.foldlRecOn (motive := Sorted) _ _ (fun key ms hms => nomatch hms) fun db hdb e _ => ?_
  apply hdb.applyOp
  intro row hrow
  obtain ⟨l, -, rfl⟩ := List.mem_map.mp (List.mem_of_mem_filter hrow)
  exact List.pairwise_insertionSort _ _

theorem Rows.sorted {exports : List (Pool × ℕ × ℤ)} {nowUnix : ℕ} {rows : List (String × List ℕ)}
    (h : (ofExports exports).Rows nowUnix rows) {row : String × List ℕ} (hrow : row ∈ rows) :
    row.2.Pairwise (· ≤ ·) := by
  obtain ⟨ms, hms, heq⟩ := (h.mem row).mp hrow
  rw [heq]
  exact (sorted_ofExports exports row.1 ms hms).sublist List.filter_sublist

end WindowTable

/-! ## The boot -/

namespace PoolLife

/-- One row of `ProviderRuntime::restore`. -/
def bootStep (nowUnix : ℕ) (s : PoolLife) (e : (String × List ℕ) × ℤ) : Option PoolLife :=
  if s.now ≤ e.2 then some ⟨s.pool.restoreLaneWindow e.1.1 e.1.2 nowUnix e.2, e.2⟩ else none

end PoolLife

/-- A fresh pool takes rows, one after the other. -/
def bootSystem (nowUnix : ℕ) : System PoolLife ((String × List ℕ) × ℤ) :=
  .ofStep (fun s => ∃ specs, s.pool = Pool.new specs s.now) (PoolLife.bootStep nowUnix)

/-- **`bootedLife`** — a pool that was booted from the table, and whatever happens to it then. -/
def bootedLife : System PoolLife PoolOp where
  init s := ∃ exports nowUnix rows fresh, (WindowTable.ofExports exports).Rows nowUnix (rows.map Prod.fst) ∧
    (bootSystem nowUnix).init fresh ∧ (bootSystem nowUnix).Run fresh rows s
  step s op s' := poolLife.step s op s' ∧ ∀ key ms nowUnix t, op ≠ .restoreLaneWindow key ms nowUnix t

namespace PoolLife

variable {s s' fresh : PoolLife} {nowUnix : ℕ} {rows : List ((String × List ℕ) × ℤ)}

/-- Only the lane of the key takes a row. -/
theorem unsent_restoreLaneWindow {p : Pool} {key k : String} (hne : k ≠ key) (h : Unsent p k) (ms : List ℕ)
    (nowUnix : ℕ) (t : ℤ) : Unsent (p.restoreLaneWindow key ms nowUnix t) k := by
  intro l hl hkey
  rcases Pool.mem_modifyKey hl with hl | ⟨l₀, -, hl₀, rfl⟩
  · exact h l hl hkey
  · exact absurd (hkey.symm.trans hl₀) hne

/-- **A boot is the beginning of a life**: every row goes to a lane that has sent nothing. -/
theorem reachable_boot (hfresh : (bootSystem nowUnix).init fresh) (hrun : (bootSystem nowUnix).Run fresh rows s)
    (hkeys : (rows.map fun row => row.1.1).Nodup) (hsorted : ∀ row ∈ rows, row.1.2.Pairwise (· ≤ ·)) :
    poolLife.Reachable s ∧ ∀ key, key ∉ rows.map (fun row => row.1.1) → Unsent s.pool key := by
  induction hrun with
  | nil =>
      obtain ⟨specs, hnew⟩ := hfresh
      refine ⟨⟨fresh, [], ⟨specs, hnew⟩, .nil fresh⟩, fun key _ l hl _ => ?_⟩
      rw [hnew] at hl
      obtain ⟨j, hj⟩ := List.mem_iff_getElem?.mp hl
      obtain ⟨spec, -, rfl⟩ := Pool.assemble_get hj
      rfl
  | @snoc s s' rows row _ hstep ih =>
      rw [List.map_append, List.nodup_append] at hkeys
      obtain ⟨hbefore, -, hdisjoint⟩ := hkeys
      obtain ⟨hreach, hunsent⟩ := ih hbefore fun row hrow => hsorted row (List.mem_append_left _ hrow)
      obtain ⟨hle, rfl⟩ : s.now ≤ row.2 ∧ ⟨s.pool.restoreLaneWindow row.1.1 row.1.2 nowUnix row.2, row.2⟩ = s' := by
        simpa [bootSystem, System.ofStep, bootStep] using hstep
      have hnew : row.1.1 ∉ rows.map fun row => row.1.1 :=
        fun hmem => hdisjoint _ hmem _ (List.mem_singleton_self _) rfl
      constructor
      · have haction : s.step (.restoreLaneWindow row.1.1 row.1.2 nowUnix row.2) =
            some ⟨s.pool.restoreLaneWindow row.1.1 row.1.2 nowUnix row.2, row.2⟩ :=
          if_pos ⟨hle, hsorted row (by simp), hunsent _ hnew⟩
        exact reachable_step hreach haction
      · intro key hkey
        rw [List.map_append, List.mem_append, not_or] at hkey
        exact unsent_restoreLaneWindow (by simpa using hkey.2) (hunsent key hkey.1) _ _ _

theorem poolLife_of_bootedLife (h : bootedLife.Reachable s) : poolLife.Reachable s := by
  refine System.Reachable.invariant (I := poolLife.Reachable) ?_ ?_ h
  · rintro s ⟨exports, nowUnix, rows, fresh, hrows, hfresh, hrun⟩
    have hkeys := hrows.keys
    rw [List.map_map] at hkeys
    exact (reachable_boot hfresh hrun hkeys fun row hrow => hrows.sorted (List.mem_map_of_mem hrow)).1
  · rintro s op s' hreach ⟨hstep, -⟩
    exact reachable_step hreach hstep

end PoolLife

/-! ## What the order is for -/

/-- **`DequeOrder now l`** — the deque is in order; at any instant the stamps that are popped from its front are those
that have left the window; and where the budget is used up, the stamp at `len - rpm` is the one that has to leave the
window for a slot to be free. -/
structure DequeOrder (now : ℤ) (l : Lane) : Prop where
  ordered : l.sent.Pairwise (· ≤ ·)
  expired : ∀ t, now ≤ t → (l.expire t).sent = l.sent.filter fun stamp => decide (age t stamp < window)
  frees : ∀ t t', now ≤ t → t ≤ t' → ∀ _ : 0 < l.rpm, ∀ h : l.rpm ≤ (l.expire t).sent.length,
    (inWindow window t' l.sent).length < l.rpm ↔
      window ≤ age t' ((l.expire t).sent.get ⟨(l.expire t).sent.length - l.rpm, by omega⟩)

theorem Lane.dequeOrder {now : ℤ} {l : Lane} (h : Chronological now l.sent) : DequeOrder now l where
  ordered := h.ordered
  expired t hle := Lane.sent_expire (h.later hle)
  frees t t' hle hle' hrpm hfull := by
    have hordered : (l.expire t).sent.Pairwise (· ≤ ·) := h.ordered.sublist (Lib.popExpired_sublist window t l.sent)
    have hframe : inWindow window t' (l.expire t).sent = inWindow window t' l.sent := Lib.inWindow_popExpired hle' l.sent
    rw [← hframe, Lib.length_inWindow_lt_iff hordered hrpm hfull t', List.getD_eq_getElem, List.get_eq_getElem]

namespace PoolLife

/-- **The deques are in order** in every state of a booted pool. -/
theorem deque_order {s : PoolLife} (h : bootedLife.Reachable s) : ∀ l ∈ s.pool.lanes, DequeOrder s.now l :=
  fun l hl => Lane.dequeOrder (chronicled_of_reachable (poolLife_of_bootedLife h) l hl)

/-- The table after one export, fifteen seconds before the boot. -/
def bootTable : WindowTable := .ofExports [(sentOnce.pool, 100, 10000000000)]

theorem bootTable_rows : bootTable.Rows 105 [("a", [90000])] := by
  have htable : bootTable = Function.update (fun _ => none) "a" (some [90000]) := rfl
  refine ⟨List.nodup_singleton _, fun row => ?_⟩
  rw [htable]
  constructor
  · intro hrow
    obtain rfl := List.mem_singleton.mp hrow
    exact ⟨[90000], Function.update_self _ _ _, by decide⟩
  · rintro ⟨ms, hms, heq⟩
    by_cases hkey : row.1 = "a"
    · rw [hkey, Function.update_self] at hms
      cases hms
      rw [heq, hkey]
      decide
    · rw [Function.update_of_ne hkey] at hms
      cases hms

/-- A restored send, and one more. -/
theorem deque_order_booted :
    DequeOrder 20000000000 ⟨"a", 2, [-5000000000, 20000000000], 0⟩ := by
  have hboot : bootedLife.init ⟨⟨[⟨"a", 2, [-5000000000], 0⟩], 1, by decide⟩, 10000000000⟩ :=
    ⟨_, 105, [(("a", [90000]), 10000000000)], ⟨Pool.new [⟨"a", 2, true⟩] 0, 0⟩, bootTable_rows, ⟨_, rfl⟩,
      System.Run.single rfl⟩
  have hsend : bootedLife.step ⟨⟨[⟨"a", 2, [-5000000000], 0⟩], 1, by decide⟩, 10000000000⟩ (.reserve none 20000000000)
      ⟨⟨[⟨"a", 2, [-5000000000, 20000000000], 0⟩], 1, by decide⟩, 20000000000⟩ :=
    ⟨rfl, by simp⟩
  exact deque_order ⟨_, [_], hboot, .single hsend⟩ _ (List.mem_singleton_self _)

end PoolLife

end Flock
