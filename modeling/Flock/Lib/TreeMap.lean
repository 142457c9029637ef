/-
# Flock.Lib.TreeMap — sums and tests over the entries of a tree map.

A map into an additive monoid gives every key a value, zero where it has none.  Adding the entries of one map to
another adds the values up, key by key; what a list of entries says of a key is the sum of its entries.

Entries without a repeated key may be inserted in any order, and a map is what its entries make of the empty one.

Both halves are used together: counters that are kept per key are summed up over entries, and a map that is sent as a
list and read again is rebuilt from its entries.
-/
import Mathlib.Algebra.BigOperators.Group.List.Basic
import Mathlib.Tactic.Tauto

namespace Flock.Lib

open Std (ExtTreeMap)

universe u v

variable {κ : Type u} {M : Type v} [DecidableEq κ]

/-! ## Entries

An entry sum is defined for any list, so that an induction does not have to know that the keys are distinct. -/

section Entries

variable [AddMonoid M] {key : κ}

/-- The sum of the entries of one key. -/
def entrySum (key : κ) (entries : List (κ × M)) : M := ((entries.filter fun e => e.1 = key).map Prod.snd).sum

@[simp] theorem entrySum_nil (key : κ) : entrySum key ([] : List (κ × M)) = 0 := rfl

/-- The first entry counts if it is of the key. -/
theorem entrySum_cons (key : κ) (e : κ × M) (entries : List (κ × M)) :
    entrySum key (e :: entries) = (if e.1 = key then e.2 else 0) + entrySum key entries := by
  unfold entrySum
  by_cases he : e.1 = key
  · rw [List.filter_cons_of_pos (by simpa using he), if_pos he, List.map_cons, List.sum_cons]
  · rw [List.filter_cons_of_neg (by simpa using he), if_neg he, zero_add]

/-- Without an entry the sum is zero. -/
theorem entrySum_eq_zero {entries : List (κ × M)} (h : ∀ e ∈ entries, e.1 ≠ key) : entrySum key entries = 0 := by
  unfold entrySum
  rw [List.filter_eq_nil_iff.mpr fun e he => by simpa using h e he]
  rfl

theorem entrySum_append (key : κ) (entries entries' : List (κ × M)) :
    entrySum key (entries ++ entries') = entrySum key entries + entrySum key entries' := by
  unfold entrySum
  rw [List.filter_append, List.map_append, List.sum_append]

/-- Other keys, as long as they tell this one from the rest. -/
theorem entrySum_map_key {κ' : Type u} [DecidableEq κ'] {f : κ → κ'} {entries : List (κ × M)}
    (h : ∀ e ∈ entries, f e.1 = f key → e.1 = key) :
    entrySum (f key) (entries.map fun e => (f e.1, e.2)) = entrySum key entries := by
  induction entries with
  | nil => rfl
  | cons e entries ih =>
      have hkey : f e.1 = f key ↔ e.1 = key := ⟨h e List.mem_cons_self, congrArg f⟩
      rw [List.map_cons, entrySum_cons, entrySum_cons, ih fun e' he' => h e' (List.mem_cons_of_mem _ he')]
      simp only [hkey]

/-- Where no key is repeated, the sum is the entry. -/
theorem entrySum_of_mem {entries : List (κ × M)} (hdistinct : entries.Pairwise fun e e' => e.1 ≠ e'.1) {value : M}
    (h : (key, value) ∈ entries) : entrySum key entries = value := by
  induction entries with
  | nil => exact absurd h List.not_mem_nil
  | cons e entries ih =>
      obtain ⟨hne, hdistinct⟩ := List.pairwise_cons.mp hdistinct
      rw [entrySum_cons]
      rcases List.mem_cons.mp h with rfl | hrest
      · rw [if_pos rfl, entrySum_eq_zero fun e' he' => (hne e' he').symm, add_zero]
      · rw [if_neg (hne _ hrest), ih hdistinct hrest, zero_add]

end Entries

/-! ## Entries, inserted

Inserting keeps the last value of a key; where no key is repeated, any order will do. -/

section Inserted

omit [DecidableEq κ]

variable {V : Type v} {cmp : κ → κ → Ordering} [Std.TransCmp cmp] [Std.LawfulEqCmp cmp] {key : κ} {value : V}
  {entries : List (κ × V)} {m : ExtTreeMap κ V cmp}

/-- The entries of a list, over those of a map. -/
def insertAll (m : ExtTreeMap κ V cmp) (entries : List (κ × V)) : ExtTreeMap κ V cmp :=
  entries.foldl (fun m e => m.insert e.1 e.2) m

omit [Std.LawfulEqCmp cmp] in
/-- Two lists, one after the other. -/
theorem insertAll_append (m : ExtTreeMap κ V cmp) (entries entries' : List (κ × V)) :
    insertAll m (entries ++ entries') = insertAll (insertAll m entries) entries' := List.foldl_append ..

/-- A key that is not inserted stays. -/
theorem getElem?_insertAll_of_notMem (h : ∀ e ∈ entries, e.1 ≠ key) (m : ExtTreeMap κ V cmp) :
    (insertAll m entries)[key]? = m[key]? := by
  induction entries generalizing m with
  | nil => rfl
  | cons e entries ih =>
      have hne : ¬ cmp e.1 key = .eq := fun heq => h e List.mem_cons_self (Std.LawfulEqCmp.compare_eq_iff_eq.mp heq)
      show (insertAll (m.insert e.1 e.2) entries)[key]? = m[key]?
      rw [ih fun e' he' => h e' (List.mem_cons_of_mem _ he'), ExtTreeMap.getElem?_insert, if_neg hne]

/-- A key that is inserted once has that value. -/
theorem getElem?_insertAll_of_mem (hdistinct : entries.Pairwise fun e e' => e.1 ≠ e'.1) (h : (key, value) ∈ entries)
    (m : ExtTreeMap κ V cmp) : (insertAll m entries)[key]? = some value := by
  induction entries generalizing m with
  | nil => exact absurd h List.not_mem_nil
  | cons e entries ih =>
      obtain ⟨hne, hdistinct⟩ := List.pairwise_cons.mp hdistinct
      show (insertAll (m.insert e.1 e.2) entries)[key]? = some value
      rcases List.mem_cons.mp h with rfl | hrest
      · rw [getElem?_insertAll_of_notMem fun e' he' => (hne e' he').symm, ExtTreeMap.getElem?_insert,
          if_pos Std.ReflCmp.compare_self]
      · exact ih hdistinct hrest _

/-- Whatever is inserted, the keys are those of the map and those of the entries. -/
theorem mem_foldl_insert {W : Type v} {value : ExtTreeMap κ V cmp → κ × W → V} {entries : List (κ × W)}
    {m : ExtTreeMap κ V cmp} :
    key ∈ entries.foldl (fun m e => m.insert e.1 (value m e)) m ↔ key ∈ m ∨ ∃ e ∈ entries, e.1 = key := by
  induction entries generalizing m with
  | nil => simp
  | cons e entries ih =>
      rw [List.foldl_cons, ih, ExtTreeMap.mem_insert, Std.LawfulEqCmp.compare_eq_iff_eq]
      simp only [List.mem_cons, exists_eq_or_imp]
      tauto

/-- A key with an entry is a key of the map. -/
theorem exists_mem_toList_iff : (∃ e ∈ m.toList, e.1 = key) ↔ key ∈ m := by
  rw [← ExtTreeMap.mem_keys, ← ExtTreeMap.map_fst_toList_eq_keys, List.mem_map]

/-- The list of a map repeats no key. -/
theorem distinct_toList (m : ExtTreeMap κ V cmp) : m.toList.Pairwise fun e e' => e.1 ≠ e'.1 :=
  ExtTreeMap.distinct_keys_toList.imp fun hne heq => hne (by rw [heq]; exact Std.ReflCmp.compare_self)

/-- A key that is not in the map has no entry. -/
theorem notMem_of_getElem?_eq_none (h : m[key]? = none) : ∀ e ∈ m.toList, e.1 ≠ key := by
  rintro ⟨key', value⟩ he rfl
  rw [ExtTreeMap.mem_toList_iff_getElem?_eq_some.mp he] at h
  cases h

/-- Inserting the entries of a map one by one gives the map back. -/
theorem insertAll_toList (m : ExtTreeMap κ V cmp) : insertAll ∅ m.toList = m := by
  apply ExtTreeMap.ext_getElem?
  intro key
  cases hget : m[key]? with
  | some value =>
      exact getElem?_insertAll_of_mem (distinct_toList m) (ExtTreeMap.mem_toList_iff_getElem?_eq_some.mpr hget) _
  | none =>
      rw [getElem?_insertAll_of_notMem (notMem_of_getElem?_eq_none hget)]
      exact ExtTreeMap.getElem?_empty

theorem foldl_insert_toList (m : ExtTreeMap κ V cmp) : m.toList.foldl (fun m e => m.insert e.1 e.2) ∅ = m :=
  insertAll_toList m

/-- **A map in two parts**: each part makes its own map, with the values of the whole. -/
theorem getElem?_insertAll_of_perm [DecidableEq κ] {these those : List (κ × V)} (h : m.toList.Perm (these ++ those)) :
    (insertAll (∅ : ExtTreeMap κ V cmp) these)[key]? = if key ∈ these.map Prod.fst then m[key]? else none := by
  have hdistinct : (these ++ those).Pairwise fun e e' => e.1 ≠ e'.1 :=
    h.pairwise (distinct_toList m) fun hne => hne.symm
  split
  · rename_i hmem
    obtain ⟨⟨_, value⟩, he, rfl⟩ := List.mem_map.mp hmem
    have hall : (_, value) ∈ m.toList := h.mem_iff.mpr (List.mem_append_left _ he)
    rw [ExtTreeMap.mem_toList_iff_getElem?_eq_some.mp hall]
    exact getElem?_insertAll_of_mem (List.pairwise_append.mp hdistinct).1 he _
  · rename_i hnot
    rw [getElem?_insertAll_of_notMem fun e he heq => hnot (List.mem_map.mpr ⟨e, he, heq⟩)]
    exact ExtTreeMap.getElem?_empty

/-- The other part has the other keys. -/
theorem mem_keys_of_perm [DecidableEq κ] {these those : List (κ × V)} (h : m.toList.Perm (these ++ those)) :
    (if key ∈ those.map Prod.fst then m[key]? else none) = if key ∈ these.map Prod.fst then none else m[key]? := by
  have hdistinct : (these ++ those).Pairwise fun e e' => e.1 ≠ e'.1 :=
    h.pairwise (distinct_toList m) fun hne => hne.symm
  by_cases hthese : key ∈ these.map Prod.fst
  · rw [if_pos hthese]
    obtain ⟨e, he, rfl⟩ := List.mem_map.mp hthese
    have hthose : e.1 ∉ those.map Prod.fst := by
      intro hmem
      obtain ⟨e', he', heq⟩ := List.mem_map.mp hmem
      exact (List.pairwise_append.mp hdistinct).2.2 e he e' he' heq.symm
    rw [if_neg hthose]
  · rw [if_neg hthese]
    split
    · rfl
    · rename_i hthose
      cases hget : m[key]? with
      | none => rfl
      | some value =>
          have hmem := h.mem_iff.mp (ExtTreeMap.mem_toList_iff_getElem?_eq_some.mpr hget)
          rcases List.mem_append.mp hmem with he | he
          · exact absurd (List.mem_map.mpr ⟨_, he, rfl⟩) hthese
          · exact absurd (List.mem_map.mpr ⟨_, he, rfl⟩) hthose

end Inserted

/-- The order of the entries does not matter. -/
theorem entrySum_perm {M : Type v} [AddCommMonoid M] {key : κ} {entries entries' : List (κ × M)}
    (h : entries.Perm entries') : entrySum key entries = entrySum key entries' := ((h.filter _).map _).sum_eq

/-! ## Maps

A map is looked at through its list of entries; these three say that nothing is lost on the way. -/

section Maps

variable {cmp : κ → κ → Ordering} [Std.TransCmp cmp] [Std.LawfulEqCmp cmp] [AddMonoid M] {key : κ}
  {m : ExtTreeMap κ M cmp}

/-- **The entries of a map** have its values. -/
theorem entrySum_toList (key : κ) (m : ExtTreeMap κ M cmp) : entrySum key m.toList = m.getD key 0 := by
  rw [ExtTreeMap.getD_eq_getD_getElem?]
  cases hget : m[key]? with
  | some value => exact entrySum_of_mem (distinct_toList m) (ExtTreeMap.mem_toList_iff_getElem?_eq_some.mpr hget)
  | none => exact entrySum_eq_zero (notMem_of_getElem?_eq_none hget)

/-- **Adding entries to a map** adds up the values of each key. -/
theorem getD_foldl_add (entries : List (κ × M)) (m : ExtTreeMap κ M cmp) :
    (entries.foldl (fun m e => m.insert e.1 (m.getD e.1 0 + e.2)) m).getD key 0 =
      m.getD key 0 + entrySum key entries := by
  induction entries generalizing m with
  | nil => exact (add_zero _).symm
  | cons e entries ih =>
      rw [List.foldl_cons, ih, ExtTreeMap.getD_insert, entrySum_cons]
      by_cases he : e.1 = key
      · rw [if_pos (Std.LawfulEqCmp.compare_eq_iff_eq.mpr he), if_pos he, he, add_assoc]
      · rw [if_neg (mt Std.LawfulEqCmp.compare_eq_iff_eq.mp he), if_neg he, zero_add]

omit [DecidableEq κ] [Std.LawfulEqCmp cmp] [AddMonoid M] in
/-- A test of the entries, in their order. -/
theorem any_eq_any_toList (m : ExtTreeMap κ M cmp) (p : κ → M → Bool) :
    m.any p = m.toList.any fun e => p e.1 e.2 := by
  have hloop : m.any p = Id.run (do
      for e in m do
        if p e.1 e.2 then return true
      return false) := by
    obtain ⟨m⟩ := m
    induction m using Std.ExtDTreeMap.inductionOn with
    | mk m => rfl
  rw [hloop, ExtTreeMap.forIn_eq_forIn_toList]
  induction m.toList with
  | nil => rfl
  | cons e entries ih =>
      rw [List.forIn_cons, List.any_cons]
      by_cases he : p e.1 e.2 = true
      · simp [he]
      · rw [Bool.not_eq_true] at he
        simpa [he] using ih

end Maps

end Flock.Lib
