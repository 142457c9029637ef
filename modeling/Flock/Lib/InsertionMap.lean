/-
# Flock.Lib.InsertionMap — a map that remembers the order of its keys.

A key stands where it was first set, and setting it again replaces the value there.  That no key is listed twice is a
field, so looking a key up finds all there is of it.

It is the `Map` of JavaScript, and `IndexMap` elsewhere.  A map built by setting entries one after the other is read
either by its values, in order, or by a key, and then the last entry with the key is what counts.
-/
import Mathlib.Data.List.Induction
import Mathlib.Data.List.Nodup

namespace Flock.Lib

universe u v w

/-- A map, its keys in the order of their first insertion. -/
structure InsertionMap (κ : Type u) (V : Type v) where
  entries : List (κ × V)
  distinct : (entries.map Prod.fst).Nodup

namespace InsertionMap

variable {κ : Type u} {V : Type v} [DecidableEq κ] {k k' : κ} {v : V} {m : InsertionMap κ V}

/-- The empty map. -/
def empty : InsertionMap κ V := ⟨[], List.nodup_nil⟩

/-- The value of a key. -/
def get? (m : InsertionMap κ V) (k : κ) : Option V := m.entries.lookup k

/-- The key has a value. -/
def has (m : InsertionMap κ V) (k : κ) : Bool := (m.get? k).isSome

/-- The values, in order. -/
def values (m : InsertionMap κ V) : List V := m.entries.map Prod.snd

/-- Entries with a key set: in its place, or at the end. -/
def setEntry (k : κ) (v : V) : List (κ × V) → List (κ × V)
  | [] => [(k, v)]
  | e :: rest => if e.1 = k then (k, v) :: rest else e :: setEntry k v rest

/-- An entry is the one that was set, or was there. -/
theorem mem_setEntry {e : κ × V} {entries : List (κ × V)} (h : e ∈ setEntry k v entries) :
    e = (k, v) ∨ e ∈ entries := by
  induction entries with
  | nil => exact .inl (List.mem_singleton.mp h)
  | cons e' rest ih =>
      unfold setEntry at h
      split at h
      · rcases List.mem_cons.mp h with rfl | hrest
        · exact .inl rfl
        · exact .inr (List.mem_cons_of_mem _ hrest)
      · rcases List.mem_cons.mp h with rfl | hrest
        · exact .inr List.mem_cons_self
        · exact (ih hrest).imp_right (List.mem_cons_of_mem _)

/-- Setting a key lists none twice. -/
theorem distinct_setEntry {entries : List (κ × V)} (h : (entries.map Prod.fst).Nodup) :
    ((setEntry k v entries).map Prod.fst).Nodup := by
  induction entries with
  | nil => exact List.nodup_singleton k
  | cons e rest ih =>
      obtain ⟨hnot, hrest⟩ := List.nodup_cons.mp h
      unfold setEntry
      split
      · rename_i heq
        subst heq
        exact h
      · rename_i hne
        refine List.nodup_cons.mpr ⟨fun hmem => ?_, ih hrest⟩
        obtain ⟨e', he', heq⟩ := List.mem_map.mp hmem
        rcases mem_setEntry he' with rfl | hold
        · exact hne heq.symm
        · exact hnot (List.mem_map.mpr ⟨e', hold, heq⟩)

/-- The first entry decides, if it is of the key. -/
theorem lookup_cons_eq (k : κ) (e : κ × V) (rest : List (κ × V)) :
    (e :: rest).lookup k = if e.1 = k then some e.2 else rest.lookup k := by
  rw [List.lookup_cons]
  by_cases heq : e.1 = k
  · rw [if_pos heq, beq_iff_eq.mpr heq.symm]
  · rw [if_neg heq, beq_false_of_ne fun hk => heq hk.symm]

/-- What a key has after another one was set. -/
theorem lookup_setEntry (entries : List (κ × V)) :
    (setEntry k v entries).lookup k' = if k = k' then some v else entries.lookup k' := by
  induction entries with
  | nil => exact lookup_cons_eq k' (k, v) []
  | cons e rest ih =>
      unfold setEntry
      split
      · rename_i heq
        subst heq
        simp only [lookup_cons_eq]
        split <;> rfl
      · rename_i hne
        simp only [lookup_cons_eq, ih]
        by_cases hk : k = k'
        · subst hk
          rw [if_neg hne, if_pos rfl, if_pos rfl]
        · simp only [if_neg hk]

/-- The map with a key set. -/
def set (m : InsertionMap κ V) (k : κ) (v : V) : InsertionMap κ V :=
  ⟨setEntry k v m.entries, distinct_setEntry m.distinct⟩

/-- Entries, set one after the other: of a key, the last stays. -/
def setAll (m : InsertionMap κ V) (entries : List (κ × V)) : InsertionMap κ V :=
  entries.foldl (fun m e => m.set e.1 e.2) m

/-! ## Reading

`lastEntry` is what a list of entries means by a key.  The map built from the list has just that. -/

/-- Of a key, the last entry. -/
def lastEntry (k : κ) (entries : List (κ × V)) : Option V := ((entries.filter fun e => e.1 = k).getLast?).map Prod.snd

/-- The entry at the end decides, if it is of the key. -/
theorem lastEntry_concat (k : κ) (entries : List (κ × V)) (e : κ × V) :
    lastEntry k (entries ++ [e]) = if e.1 = k then some e.2 else lastEntry k entries := by
  unfold lastEntry
  rw [List.filter_append]
  by_cases hk : e.1 = k
  · simp [hk]
  · simp [hk]

/-- A key that is in no entry has none. -/
theorem lastEntry_eq_none {entries : List (κ × V)} : lastEntry k entries = none ↔ ∀ e ∈ entries, e.1 ≠ k := by
  simp [lastEntry]

/-- Where no key comes twice, an entry is the last of its key. -/
theorem lastEntry_of_mem {entries : List (κ × V)} (hdistinct : entries.Pairwise fun e e' => e.1 ≠ e'.1)
    (h : (k, v) ∈ entries) : lastEntry k entries = some v := by
  induction entries using List.reverseRecOn with
  | nil => exact absurd h List.not_mem_nil
  | append_singleton entries e ih =>
      obtain ⟨hfront, -, hne⟩ := List.pairwise_append.mp hdistinct
      rw [lastEntry_concat]
      rcases List.mem_append.mp h with hold | hlast
      · rw [if_neg (hne _ hold e List.mem_cons_self).symm, ih hfront hold]
      · obtain rfl := List.mem_singleton.mp hlast
        exact if_pos rfl

/-- Other keys, as long as they tell this one from the rest. -/
theorem lastEntry_map_key {κ' : Type w} [DecidableEq κ'] {f : κ → κ'} {entries : List (κ × V)}
    (h : ∀ e ∈ entries, f e.1 = f k → e.1 = k) :
    lastEntry (f k) (entries.map fun e => (f e.1, e.2)) = lastEntry k entries := by
  have hfilter : (entries.filter fun e => f e.1 = f k) = entries.filter fun e => e.1 = k := by
    apply List.filter_congr
    intro e he
    simp only [decide_eq_decide]
    exact ⟨h e he, congrArg f⟩
  unfold lastEntry
  rw [List.filter_map, List.getLast?_map, Option.map_map]
  show ((entries.filter fun e => f e.1 = f k).getLast?).map _ = _
  rw [hfilter]
  rfl

/-- The key that was set has its value; the others keep theirs. -/
theorem get?_set (m : InsertionMap κ V) (k k' : κ) (v : V) :
    (m.set k v).get? k' = if k = k' then some v else m.get? k' := lookup_setEntry m.entries

/-- The entries after setting a key. -/
theorem mem_entries_set {e : κ × V} (h : e ∈ (m.set k v).entries) : e = (k, v) ∨ e ∈ m.entries := mem_setEntry h

theorem mem_of_get? (hget : m.get? k = some v) : (k, v) ∈ m.entries := by
  unfold get? at hget
  generalize m.entries = entries at hget ⊢
  induction entries with
  | nil => cases hget
  | cons e rest ih =>
      rw [lookup_cons_eq] at hget
      split at hget
      · rename_i hk
        subst hk
        obtain rfl := Option.some.inj hget
        exact List.mem_cons_self
      · exact List.mem_cons_of_mem _ (ih hget)

/-- **The values of a key**: where every value stands under its own key, looking up finds them all. -/
theorem filter_values {f : V → κ} (h : ∀ e ∈ m.entries, f e.2 = e.1) (k : κ) :
    (m.values.filter fun v => f v = k) = (m.get? k).toList := by
  obtain ⟨entries, hdistinct⟩ := m
  unfold values get?
  dsimp only at h ⊢
  induction entries with
  | nil => rfl
  | cons e rest ih =>
      obtain ⟨hnot, hrest⟩ := List.nodup_cons.mp hdistinct
      have hkey := h e List.mem_cons_self
      have ih := ih hrest fun e' he' => h e' (List.mem_cons_of_mem _ he')
      rw [List.map_cons, lookup_cons_eq]
      by_cases hk : e.1 = k
      · subst hk
        have hnone : ((rest.map Prod.snd).filter fun v => f v = e.1) = [] := by
          apply List.filter_eq_nil_iff.mpr
          intro v hv heq
          obtain ⟨e', he', rfl⟩ := List.mem_map.mp hv
          rw [decide_eq_true_eq, h e' (List.mem_cons_of_mem _ he')] at heq
          exact hnot (List.mem_map.mpr ⟨e', he', heq⟩)
        rw [List.filter_cons_of_pos (by simpa using hkey), hnone, if_pos rfl]
        rfl
      · rw [List.filter_cons_of_neg (by simpa [hkey] using hk), ih, if_neg hk]

end InsertionMap

end Flock.Lib
