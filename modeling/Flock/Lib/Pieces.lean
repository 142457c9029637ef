/-
# Flock.Lib.Pieces — splitting what arrives bit by bit, and joining it.

A list is cut at its separators.  Every piece but the last is CLOSED by one; the last is still OPEN.  A further
element either closes the open piece or joins it, and changes nothing else.

Parts are joined with a separator between them.  A buffer that takes one part after the other, and a separator only
where it has something already, has what is left of the parts once the empty ones at the front are dropped.
-/
import Mathlib.Data.List.Basic
import Mathlib.Data.List.Induction

namespace Flock.Lib

universe u

variable {α : Type u} (p : α → Bool)

/-- The pieces that a separator closes. -/
def closedPieces (l : List α) : List (List α) := (l.splitOnP p).dropLast

/-- What comes after the last separator. -/
def openPiece (l : List α) : List α := (l.splitOnP p).getLastD []

variable {p} {a : α}

/-- Cutting gives the closed pieces and the open one. -/
theorem splitOnP_eq_closed_append_open (l : List α) : l.splitOnP p = closedPieces p l ++ [openPiece p l] := by
  have hne := List.splitOnP_ne_nil p l
  unfold closedPieces openPiece
  rw [List.getLastD_eq_getLast?, List.getLast?_eq_some_getLast hne, Option.getD_some, List.dropLast_append_getLast hne]

/-- The pieces of a list that splits so. -/
theorem pieces_of_splitOnP {l : List α} {closed : List (List α)} {piece : List α}
    (h : l.splitOnP p = closed ++ [piece]) : closedPieces p l = closed ∧ openPiece p l = piece := by
  unfold closedPieces openPiece
  rw [h, List.dropLast_concat, List.getLastD_concat]
  exact ⟨rfl, rfl⟩

/-- **A separator** closes the open piece. -/
theorem pieces_concat_of_pos (h : p a = true) (l : List α) :
    closedPieces p (l ++ [a]) = closedPieces p l ++ [openPiece p l] ∧ openPiece p (l ++ [a]) = [] := by
  apply pieces_of_splitOnP
  rw [List.splitOnP_append_cons l [] h, splitOnP_eq_closed_append_open l, List.splitOnP_nil]

/-- An element that is no separator joins the open piece. -/
theorem splitOnP_concat_of_neg (h : p a = false) (l : List α) :
    (l ++ [a]).splitOnP p = closedPieces p l ++ [openPiece p l ++ [a]] := by
  induction l with
  | nil => exact List.splitOnP_eq_singleton fun x hx => List.mem_singleton.mp hx ▸ h
  | cons x l ih =>
      have hl := splitOnP_eq_closed_append_open (p := p) l
      rw [List.cons_append, List.splitOnP_cons_eq_if_modifyHead, ih]
      by_cases hx : p x = true
      · have hsplit : (x :: l).splitOnP p = ([] :: closedPieces p l) ++ [openPiece p l] := by
          rw [List.splitOnP_cons_eq_if_modifyHead, if_pos hx, hl, List.cons_append]
        obtain ⟨hclosed, hopen⟩ := pieces_of_splitOnP hsplit
        rw [if_pos hx, hclosed, hopen, List.cons_append]
      · -- the first piece, closed or open, takes `x`
        rw [if_neg hx]
        cases hclosed : closedPieces p l with
        | nil =>
            rw [hclosed] at hl
            have hsplit : (x :: l).splitOnP p = [] ++ [x :: openPiece p l] := by
              rw [List.splitOnP_cons_eq_if_modifyHead, if_neg hx, hl]
              rfl
            obtain ⟨hclosed', hopen⟩ := pieces_of_splitOnP hsplit
            rw [hclosed', hopen]
            rfl
        | cons first rest =>
            rw [hclosed] at hl
            have hsplit : (x :: l).splitOnP p = ((x :: first) :: rest) ++ [openPiece p l] := by
              rw [List.splitOnP_cons_eq_if_modifyHead, if_neg hx, hl]
              rfl
            obtain ⟨hclosed', hopen⟩ := pieces_of_splitOnP hsplit
            rw [hclosed', hopen]
            rfl

/-- **Anything else** joins the open piece. -/
theorem pieces_concat_of_neg (h : p a = false) (l : List α) :
    closedPieces p (l ++ [a]) = closedPieces p l ∧ openPiece p (l ++ [a]) = openPiece p l ++ [a] :=
  pieces_of_splitOnP (splitOnP_concat_of_neg h l)

/-- Pieces without a separator are open. -/
theorem pieces_of_open {l : List α} (hl : ∀ x ∈ l, p x = false) : closedPieces p l = [] ∧ openPiece p l = l :=
  pieces_of_splitOnP (by rw [List.splitOnP_eq_singleton hl, List.nil_append])

/-- The open piece has no separator. -/
theorem not_of_mem_openPiece (l : List α) : ∀ x ∈ openPiece p l, p x = false := by
  induction l using List.reverseRecOn with
  | nil => exact fun x hx => absurd hx List.not_mem_nil
  | append_singleton l a ih =>
      by_cases hp : p a = true
      · rw [(pieces_concat_of_pos hp l).2]
        exact fun x hx => absurd hx List.not_mem_nil
      · have hp' : p a = false := Bool.eq_false_iff.mpr hp
        rw [(pieces_concat_of_neg hp' l).2]
        intro x hx
        rcases List.mem_append.mp hx with hold | hnew
        · exact ih x hold
        · rw [List.mem_singleton.mp hnew]
          exact hp'

/-- **Of what has been cut** only the open piece matters to what comes behind it. -/
theorem pieces_append (l l' : List α) :
    closedPieces p (l ++ l') = closedPieces p l ++ closedPieces p (openPiece p l ++ l') ∧
      openPiece p (l ++ l') = openPiece p (openPiece p l ++ l') := by
  induction l' using List.reverseRecOn with
  | nil =>
      obtain ⟨hclosed, hopen⟩ := pieces_of_open (not_of_mem_openPiece (p := p) l)
      rw [List.append_nil, List.append_nil, hclosed, hopen, List.append_nil]
      exact ⟨rfl, rfl⟩
  | append_singleton l' a ih =>
      rw [← List.append_assoc, ← List.append_assoc]
      by_cases hp : p a = true
      · obtain ⟨hclosed, hopen⟩ := pieces_concat_of_pos hp (l ++ l')
        obtain ⟨hclosed', hopen'⟩ := pieces_concat_of_pos hp (openPiece p l ++ l')
        rw [hclosed, hclosed', hopen, hopen', ih.1, ih.2, List.append_assoc]
        exact ⟨rfl, rfl⟩
      · obtain ⟨hclosed, hopen⟩ := pieces_concat_of_neg (Bool.eq_false_iff.mpr hp) (l ++ l')
        obtain ⟨hclosed', hopen'⟩ := pieces_concat_of_neg (Bool.eq_false_iff.mpr hp) (openPiece p l ++ l')
        rw [hclosed, hclosed', hopen, hopen', ih.1, ih.2]
        exact ⟨rfl, rfl⟩

/-- After a separator everything is split on its own. -/
theorem pieces_append_of_closed {l : List α} (h : openPiece p l = []) (l' : List α) :
    closedPieces p (l ++ l') = closedPieces p l ++ closedPieces p l' ∧ openPiece p (l ++ l') = openPiece p l' := by
  have happend := pieces_append (p := p) l l'
  rwa [h, List.nil_append] at happend

/-- A piece without a separator, and the separator that closes it. -/
theorem pieces_of_closed {l : List α} (hl : ∀ x ∈ l, p x = false) (ha : p a = true) :
    closedPieces p (l ++ [a]) = [l] ∧ openPiece p (l ++ [a]) = [] := by
  obtain ⟨hclosed, hopen⟩ := pieces_of_open hl
  obtain ⟨hclosed', hdone⟩ := pieces_concat_of_pos ha l
  rw [hclosed', hclosed, hopen]
  exact ⟨rfl, hdone⟩

/-- One element more, through a filter. -/
theorem filterMap_concat {β : Type u} (f : α → Option β) (l : List α) (a : α) :
    (l ++ [a]).filterMap f = l.filterMap f ++ (f a).toList := by
  rw [List.filterMap_append]
  cases h : f a <;> simp [h]

/-! ## Joining

`intercalate` writes a separator between two parts, also where one of them is empty.  A buffer that looks at its own
content instead leaves out those behind empty parts at the front. -/

variable {sep : α} {d : List α} {parts : List (List α)}

/-- One part more, behind at least one. -/
theorem intercalate_concat (h : parts ≠ []) (d : List α) :
    [sep].intercalate (parts ++ [d]) = [sep].intercalate parts ++ sep :: d := by
  induction parts with
  | nil => exact absurd rfl h
  | cons first rest ih =>
      cases rest with
      | nil => simp [List.intercalate_cons_cons, List.intercalate_singleton]
      | cons second rest =>
          rw [List.cons_append, List.intercalate_cons_of_ne_nil (by simp), ih (List.cons_ne_nil _ _),
            List.intercalate_cons_of_ne_nil (List.cons_ne_nil _ _)]
          simp

/-- What is left starts with a part that is not empty. -/
theorem intercalate_dropWhile_eq_nil :
    [sep].intercalate (parts.dropWhile List.isEmpty) = [] ↔ parts.dropWhile List.isEmpty = [] := by
  refine ⟨fun h => ?_, fun h => by rw [h]; rfl⟩
  by_contra hne
  have hhead := List.head_dropWhile_not List.isEmpty hne
  obtain ⟨first, rest, hcons⟩ := List.exists_cons_of_ne_nil hne
  have hfirst : first ≠ [] := by simpa [hcons] using hhead
  rw [hcons] at h
  cases rest with
  | nil => exact hfirst (by rwa [List.intercalate_singleton] at h)
  | cons second rest => simp [List.intercalate_cons_cons] at h

/-- **One more part** is appended to the buffer, after a separator if there is something already. -/
theorem intercalate_dropWhile_concat (parts : List (List α)) (d : List α) :
    [sep].intercalate ((parts ++ [d]).dropWhile List.isEmpty) =
      [sep].intercalate (parts.dropWhile List.isEmpty) ++
        (if [sep].intercalate (parts.dropWhile List.isEmpty) = [] then [] else [sep]) ++ d := by
  simp only [List.dropWhile_append, List.isEmpty_iff, intercalate_dropWhile_eq_nil]
  split
  · rename_i hnil
    rw [hnil]
    cases d with
    | nil => rfl
    | cons x d => simp [List.intercalate_singleton, List.intercalate_nil]
  · rename_i hne
    rw [intercalate_concat hne]
    simp

/-- The parts, joined, have separators before what is left of them. -/
theorem intercalate_eq_replicate_append (parts : List (List α)) :
    ∃ n, [sep].intercalate parts = List.replicate n sep ++ [sep].intercalate (parts.dropWhile List.isEmpty) := by
  induction parts with
  | nil => exact ⟨0, rfl⟩
  | cons first rest ih =>
      obtain ⟨n, hn⟩ := ih
      cases first with
      | cons x first => exact ⟨0, by simp⟩
      | nil =>
          cases rest with
          | nil => exact ⟨0, by simp [List.intercalate_singleton, List.intercalate_nil]⟩
          | cons second rest =>
              refine ⟨n + 1, ?_⟩
              rw [List.intercalate_cons_of_ne_nil (List.cons_ne_nil _ _), hn, List.replicate_succ]
              simp

end Flock.Lib
