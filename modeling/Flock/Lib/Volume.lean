/-
# Flock.Lib.Volume — a directory of append-only files, and what a crash leaves of it.

Processes see a directory at once; on the disk a name may still have any of the entries it has had since the last
sync of the directory.  Of a file the bytes that were synced are safe, and a crash may cut the rest at any length.

`Begins v i line` says that a file begins with a line that no crash can take, and `Settled v n` that a name has one
entry that no crash can take.  Both survive every operation here, so a name that is bound to a synced file for the
first time is seen whole or not at all: that is what publishing a file by a link is for.
-/
import Mathlib.Data.List.Basic
import Mathlib.Logic.Function.Basic

namespace Flock.Lib

universe u

/-- A directory of files. -/
structure Volume (N : Type u) where
  /-- The directory as processes see it: the file a name is bound to. -/
  entry : N → Option ℕ := fun _ => none
  /-- What a crash may leave of each name. -/
  left : N → List (Option ℕ) := fun _ => [none]
  data : ℕ → List UInt8 := fun _ => []
  /-- How many bytes of each file have been synced. -/
  synced : ℕ → ℕ := fun _ => 0
  /-- The first number no file has had. -/
  next : ℕ := 0

namespace Volume

variable {N : Type u} [DecidableEq N]

/-! ## Operations -/

/-- A new entry, or none, for a name. -/
def bind (v : Volume N) (n : N) (i : Option ℕ) : Volume N :=
  { v with entry := Function.update v.entry n i, left := Function.update v.left n (i :: v.left n) }

/-- A new file under a name. -/
def create (v : Volume N) (n : N) : Volume N :=
  { v.bind n (some v.next) with
    data := Function.update v.data v.next []
    synced := Function.update v.synced v.next 0
    next := v.next + 1 }

/-- Bytes at the end of a file. -/
def append (v : Volume N) (i : ℕ) (bytes : List UInt8) : Volume N :=
  { v with data := Function.update v.data i (v.data i ++ bytes) }

/-- A sync of a file. -/
def sync (v : Volume N) (i : ℕ) : Volume N :=
  { v with synced := Function.update v.synced i (v.data i).length }

/-- A sync of the directory. -/
def syncDirectory (v : Volume N) : Volume N := { v with left := fun n => [v.entry n] }

/-- What a crash leaves: one of the entries of each name, and so many bytes of each file. -/
def crash (v : Volume N) (pick : N → Option ℕ) (keep : ℕ → ℕ) : Volume N where
  entry := pick
  left n := [pick n]
  data i := (v.data i).take (keep i)
  synced i := ((v.data i).take (keep i)).length
  next := v.next

/-- The crashes that can happen. -/
def Crashes (v : Volume N) (pick : N → Option ℕ) (keep : ℕ → ℕ) : Prop :=
  (∀ n, pick n ∈ v.left n) ∧ ∀ i, v.synced i ≤ keep i

/-! ## What is safe -/

/-- A file begins with these bytes, and they have been synced. -/
def Begins (v : Volume N) (i : ℕ) (line : List UInt8) : Prop := line <+: v.data i ∧ line.length ≤ v.synced i

/-- A name is bound to one file, on the disk too. -/
def Settled (v : Volume N) (n : N) (i : ℕ) : Prop := v.entry n = some i ∧ v.left n = [some i]

/-- Numbers are given out once, and a name can be left as it is. -/
structure Sane (v : Volume N) : Prop where
  used : ∀ n i, some i ∈ v.left n → i < v.next
  current : ∀ n, v.entry n ∈ v.left n

variable {v : Volume N} {n n' : N} {i j : ℕ} {line bytes : List UInt8}

@[simp] theorem entry_bind_self (v : Volume N) (n : N) (j : Option ℕ) : (v.bind n j).entry n = j :=
  Function.update_self ..

theorem entry_bind_of_ne (h : n ≠ n') (v : Volume N) (j : Option ℕ) : (v.bind n' j).entry n = v.entry n :=
  Function.update_of_ne h ..

@[simp] theorem left_bind_self (v : Volume N) (n : N) (j : Option ℕ) : (v.bind n j).left n = j :: v.left n :=
  Function.update_self ..

theorem left_bind_of_ne (h : n ≠ n') (v : Volume N) (j : Option ℕ) : (v.bind n' j).left n = v.left n :=
  Function.update_of_ne h ..

@[simp] theorem entry_create_self (v : Volume N) (n : N) : (v.create n).entry n = some v.next :=
  entry_bind_self ..

theorem entry_create_of_ne (h : n ≠ n') (v : Volume N) : (v.create n').entry n = v.entry n := entry_bind_of_ne h ..

theorem left_create_of_ne (h : n ≠ n') (v : Volume N) : (v.create n').left n = v.left n := left_bind_of_ne h ..

@[simp] theorem data_create_self (v : Volume N) (n : N) : (v.create n).data v.next = [] := Function.update_self ..

theorem data_create_of_ne (h : i ≠ v.next) (n : N) : (v.create n).data i = v.data i := Function.update_of_ne h ..

omit [DecidableEq N] in
@[simp] theorem data_append_self (v : Volume N) (i : ℕ) (bytes : List UInt8) :
    (v.append i bytes).data i = v.data i ++ bytes := Function.update_self ..

omit [DecidableEq N] in
theorem data_append_of_ne (h : i ≠ j) (v : Volume N) (bytes : List UInt8) :
    (v.append j bytes).data i = v.data i := Function.update_of_ne h ..

omit [DecidableEq N] in
theorem prefix_append (v : Volume N) (i j : ℕ) (bytes : List UInt8) : v.data i <+: (v.append j bytes).data i := by
  by_cases h : i = j
  · subst h
    rw [data_append_self]
    exact List.prefix_append _ _
  · have hsame := data_append_of_ne h v bytes
    exact hsame ▸ List.prefix_rfl

namespace Begins

omit [DecidableEq N] in
theorem append (h : v.Begins i line) (j : ℕ) (bytes : List UInt8) : (v.append j bytes).Begins i line :=
  ⟨h.1.trans (v.prefix_append i j bytes), h.2⟩

omit [DecidableEq N] in
theorem sync (h : v.Begins i line) (j : ℕ) : (v.sync j).Begins i line := by
  refine ⟨h.1, ?_⟩
  show line.length ≤ Function.update v.synced j (v.data j).length i
  by_cases hij : i = j
  · subst hij
    rw [Function.update_self]
    exact h.1.length_le
  · rw [Function.update_of_ne hij]
    exact h.2

theorem bind (h : v.Begins i line) (n : N) (j : Option ℕ) : (v.bind n j).Begins i line := h

theorem create (h : v.Begins i line) (hi : i < v.next) (n : N) : (v.create n).Begins i line := by
  have hne : i ≠ v.next := by omega
  refine ⟨?_, ?_⟩
  · rw [data_create_of_ne hne]
    exact h.1
  · show line.length ≤ Function.update v.synced v.next 0 i
    rw [Function.update_of_ne hne]
    exact h.2

omit [DecidableEq N] in
theorem syncDirectory (h : v.Begins i line) : v.syncDirectory.Begins i line := h

omit [DecidableEq N] in
/-- No crash takes them. -/
theorem crash (h : v.Begins i line) {pick : N → Option ℕ} {keep : ℕ → ℕ} (hcrash : v.Crashes pick keep) :
    (v.crash pick keep).Begins i line := by
  have hkeep : line.length ≤ keep i := Nat.le_trans h.2 (hcrash.2 i)
  have hpre : line <+: (v.data i).take (keep i) := by
    rw [List.prefix_take_iff]
    exact ⟨h.1, hkeep⟩
  exact ⟨hpre, hpre.length_le⟩

end Begins

omit [DecidableEq N] in
/-- A synced file begins with what was written. -/
theorem begins_sync (h : line <+: v.data i) : (v.sync i).Begins i line := by
  refine ⟨h, ?_⟩
  show line.length ≤ Function.update v.synced i (v.data i).length i
  rw [Function.update_self]
  exact h.length_le

namespace Settled

theorem bind (h : v.Settled n i) (hne : n ≠ n') (j : Option ℕ) : (v.bind n' j).Settled n i :=
  ⟨(Function.update_of_ne hne _ _).trans h.1, (Function.update_of_ne hne _ _).trans h.2⟩

theorem create (h : v.Settled n i) (hne : n ≠ n') : (v.create n').Settled n i := h.bind hne _

omit [DecidableEq N] in
theorem syncDirectory (h : v.Settled n i) : v.syncDirectory.Settled n i := ⟨h.1, by rw [← h.1]; rfl⟩

omit [DecidableEq N] in
/-- No crash takes the entry. -/
theorem crash (h : v.Settled n i) {pick : N → Option ℕ} {keep : ℕ → ℕ} (hcrash : v.Crashes pick keep) :
    (v.crash pick keep).Settled n i := by
  have hpick : pick n = some i := by
    have hmem := hcrash.1 n
    rw [h.2] at hmem
    exact List.mem_singleton.mp hmem
  exact ⟨hpick, congrArg (fun x => [x]) hpick⟩

end Settled

omit [DecidableEq N] in
/-- A synced directory has settled. -/
theorem settled_syncDirectory (h : v.entry n = some i) : v.syncDirectory.Settled n i := ⟨h, congrArg (fun x => [x]) h⟩

namespace Sane

omit [DecidableEq N] in
theorem boot : (({} : Volume N)).Sane where
  used n i h := by
    have h := List.mem_singleton.mp h
    cases h
  current _ := List.mem_singleton_self _

theorem bind (h : v.Sane) (n : N) {j : Option ℕ} (hj : ∀ i, j = some i → i < v.next) : (v.bind n j).Sane := by
  constructor
  · intro n' i hmem
    have hmem : some i ∈ Function.update v.left n (j :: v.left n) n' := hmem
    by_cases hn : n' = n
    · subst hn
      rw [Function.update_self] at hmem
      rcases List.mem_cons.mp hmem with heq | hmem
      · exact hj i heq.symm
      · exact h.used n' i hmem
    · rw [Function.update_of_ne hn] at hmem
      exact h.used n' i hmem
  · intro n'
    show Function.update v.entry n j n' ∈ Function.update v.left n (j :: v.left n) n'
    by_cases hn : n' = n
    · subst hn
      rw [Function.update_self, Function.update_self]
      exact List.mem_cons_self
    · rw [Function.update_of_ne hn, Function.update_of_ne hn]
      exact h.current n'

theorem create (h : v.Sane) (n : N) : (v.create n).Sane := by
  have hused : ∀ n i, some i ∈ v.left n → i < v.next + 1 := fun n i hmem => Nat.lt_succ_of_lt (h.used n i hmem)
  have hgrown : Sane { v with next := v.next + 1 } := ⟨hused, h.current⟩
  have hbound := hgrown.bind n (j := some v.next) fun i hi => by
    obtain rfl := Option.some.inj hi
    exact Nat.lt_succ_self _
  exact ⟨hbound.used, hbound.current⟩

omit [DecidableEq N] in
theorem append (h : v.Sane) (i : ℕ) (bytes : List UInt8) : (v.append i bytes).Sane := ⟨h.used, h.current⟩

omit [DecidableEq N] in
theorem sync (h : v.Sane) (i : ℕ) : (v.sync i).Sane := ⟨h.used, h.current⟩

omit [DecidableEq N] in
theorem syncDirectory (h : v.Sane) : v.syncDirectory.Sane where
  used n i hmem := h.used n i (List.mem_singleton.mp hmem ▸ h.current n)
  current _ := List.mem_singleton_self _

omit [DecidableEq N] in
theorem crash (h : v.Sane) {pick : N → Option ℕ} {keep : ℕ → ℕ} (hcrash : v.Crashes pick keep) :
    (v.crash pick keep).Sane where
  used n i hmem := h.used n i (List.mem_singleton.mp hmem ▸ hcrash.1 n)
  current _ := List.mem_singleton_self _

end Sane

end Volume

end Flock.Lib
