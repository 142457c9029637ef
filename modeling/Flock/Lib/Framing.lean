/-
# Flock.Lib.Framing — parts, each after its length.

A sequence of byte strings is written as one byte string: before each part stands its length, big-endian, in a
fixed number of bytes.  As long as the lengths fit, the parts can be read off again, whatever bytes they hold and
however many they are.
-/
import Mathlib.Algebra.Ring.Nat
import Mathlib.Data.Nat.Basic
import Mathlib.Tactic.Ring

namespace Flock.Lib

/-! ## Fixed-width numbers -/

/-- The low `k` bytes of `n`, the highest first. -/
def bigEndian : ℕ → ℕ → List UInt8
  | 0, _ => []
  | k + 1, n => bigEndian k (n / 256) ++ [UInt8.ofNat n]

@[simp] theorem length_bigEndian (k n : ℕ) : (bigEndian k n).length = k := by
  induction k generalizing n with
  | zero => rfl
  | succ k ih => rw [bigEndian, List.length_append, ih, List.length_singleton]

/-- A number that fits is determined by its bytes. -/
theorem bigEndian_inj {k m n : ℕ} (hm : m < 256 ^ k) (hn : n < 256 ^ k) (h : bigEndian k m = bigEndian k n) :
    m = n := by
  induction k generalizing m n with
  | zero =>
      rw [pow_zero] at hm hn
      omega
  | succ k ih =>
      obtain ⟨hhigh, hlow⟩ := List.append_inj' h rfl
      rw [pow_succ] at hm hn
      have hdiv : m / 256 = n / 256 :=
        ih (Nat.div_lt_of_lt_mul (by omega)) (Nat.div_lt_of_lt_mul (by omega)) hhigh
      have hmod : m % 256 = n % 256 := by
        have hbyte := congrArg UInt8.toNat (List.cons.inj hlow).1
        rwa [UInt8.toNat_ofNat', UInt8.toNat_ofNat'] at hbyte
      omega

/-! ## Frames -/

/-- The parts, each after its length in `k` bytes. -/
def frame (k : ℕ) (parts : List (List UInt8)) : List UInt8 :=
  parts.flatMap fun p => bigEndian k p.length ++ p

variable {k : ℕ} {p q : List UInt8} {ps qs : List (List UInt8)}

theorem frame_cons (p : List UInt8) (ps : List (List UInt8)) :
    frame k (p :: ps) = bigEndian k p.length ++ (p ++ frame k ps) := by
  unfold frame
  rw [List.flatMap_cons, List.append_assoc]

/-- A first part that fits can be read off. -/
theorem frame_cons_inj (hp : p.length < 256 ^ k) (hq : q.length < 256 ^ k)
    (h : frame k (p :: ps) = frame k (q :: qs)) : p = q ∧ frame k ps = frame k qs := by
  rw [frame_cons, frame_cons] at h
  obtain ⟨hhead, hrest⟩ := List.append_inj h (by simp)
  have hlength : p.length = q.length := bigEndian_inj hp hq hhead
  exact List.append_inj hrest hlength

theorem frame_cons_ne_nil (hk : 0 < k) (p : List UInt8) (ps : List (List UInt8)) : frame k (p :: ps) ≠ [] := by
  intro h
  have hlength := congrArg List.length h
  rw [frame_cons, List.length_append, length_bigEndian, List.length_nil] at hlength
  omega

/-- **Parts that fit can be read off**, all of them. -/
theorem frame_inj (hk : 0 < k) (hps : ∀ p ∈ ps, p.length < 256 ^ k) (hqs : ∀ q ∈ qs, q.length < 256 ^ k)
    (h : frame k ps = frame k qs) : ps = qs := by
  induction ps generalizing qs with
  | nil =>
      cases qs with
      | nil => rfl
      | cons q qs => exact absurd h.symm (frame_cons_ne_nil hk q qs)
  | cons p ps ih =>
      cases qs with
      | nil => exact absurd h (frame_cons_ne_nil hk p ps)
      | cons q qs =>
          obtain ⟨rfl, hrest⟩ := frame_cons_inj (hps p List.mem_cons_self) (hqs q List.mem_cons_self) h
          have htail : ps = qs :=
            ih (fun x hx => hps x (List.mem_cons_of_mem _ hx)) (fun x hx => hqs x (List.mem_cons_of_mem _ hx)) hrest
          rw [htail]

end Flock.Lib
