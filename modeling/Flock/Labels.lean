/-
# Flock.Labels — the model labels of a run.

`label_model` is called under one lock, so the calls of a run have an order, whatever requests they are for.  The
labels are what an `Lib.Admission` passes on: 256 of them, and `other` for what comes after them.

`other` is a label that a client can send as well.  It is one of the 256 if it comes early, and itself in any case.
-/
import Flock.Governor.Gate
import Flock.Lib.Admission

namespace Flock

open ModelRequest (Plain plain_of_decide sanitizeLabel_eq_iff)

/-- The labels of some requests, in the order of their calls, from the labels that were seen before. -/
def modelLabels : Finset String → List String → List String
  | _, [] => []
  | seen, raw :: raws => (labelModel seen raw).1 :: modelLabels (labelModel seen raw).2 raws

theorem labelModel_eq_offer (seen : Finset String) (raw : String) :
    labelModel seen raw = Lib.Admission.offer modelLabelCap "other" seen (sanitizeLabel raw) := rfl

/-- **They are what the set passes on.** -/
theorem modelLabels_eq_outputs (seen : Finset String) (raws : List String) :
    modelLabels seen raws = Lib.Admission.outputs modelLabelCap "other" seen (raws.map sanitizeLabel) := by
  induction raws generalizing seen with
  | nil => rfl
  | cons raw raws ih =>
      have hrest := ih (labelModel seen raw).2
      rw [labelModel_eq_offer] at hrest
      exact congrArg (_ :: ·) hrest

/-- Whatever is sent, its label is plain. -/
theorem plain_sanitizeLabel (raw : String) : Plain (sanitizeLabel raw) := by
  unfold sanitizeLabel
  dsimp only
  split
  · exact plain_of_decide (by decide)
  · rename_i hempty
    unfold Plain
    rw [String.toList_ofList]
    refine ⟨by simpa using hempty, List.length_take_le _ _, fun c hc => ?_⟩
    exact (List.mem_filter.mp (List.mem_of_mem_take hc)).2

/-- **Label hygiene.**  Whatever the requests ask for, there are at most 257 labels, each of them is plain, and a model
string that is plain, and was labelled as itself once, is so from then on. -/
theorem label_hygiene (raws : List String) :
    (modelLabels ∅ raws).toFinset.card ≤ modelLabelCap + 1 ∧ (∀ label ∈ modelLabels ∅ raws, Plain label) ∧
      ∀ (model : String) (i j : ℕ), Plain model → i ≤ j → raws[i]? = some model → raws[j]? = some model →
        (modelLabels ∅ raws)[i]? = some model → (modelLabels ∅ raws)[j]? = some model := by
  rw [modelLabels_eq_outputs]
  refine ⟨Lib.Admission.card_outputs_le (Nat.zero_le _), fun label hlabel => ?_,
    fun model i j hplain hle hi hj hout => ?_⟩
  · rcases Lib.Admission.eq_or_of_mem_outputs hlabel with hmem | rfl
    · obtain ⟨raw, -, rfl⟩ := List.mem_map.mp hmem
      exact plain_sanitizeLabel raw
    · exact plain_of_decide (by decide)
  · -- such a string is its own sanitized form, so the set sees the string itself
    have hsame : ∀ {k : ℕ}, raws[k]? = some model → (raws.map sanitizeLabel)[k]? = some model := by
      intro k hk
      rw [List.getElem?_map, hk, Option.map_some, (sanitizeLabel_eq_iff model).mpr hplain]
    exact Lib.Admission.outputs_stable hle (hsame hi) (hsame hj) hout

/-- A label, and the model string whose characters it is made of. -/
example : modelLabels ∅ ["meta/llama-3.3-70b", "<script>", "other", ""] =
    ["meta/llama-3.3-70b", "script", "other", "none"] := by decide +kernel

end Flock
