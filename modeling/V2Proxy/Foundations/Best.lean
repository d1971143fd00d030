/-
# The best of a list, if any is good

A search keeps the best score so far and the first element that has it; it begins with
the score zero and no element, so zero also stands for "not good" (`better`).  What it
ends with is the first of the largest scores among the positive ones
(`foldl_better`), so something is found just if some score is positive
(`isSome_best_iff`), and the score of what is found does not depend on the order of the
list (`best_perm`).
-/

import Mathlib.Data.List.MinMax
import Mathlib.Order.Nat

namespace Foundations

variable {α : Type*} (f : α → ℕ)

/-- A round of the search. -/
def better (best : ℕ × Option α) (a : α) : ℕ × Option α :=
  if best.1 < f a then (f a, some a) else best

/-- The first of the largest positive scores. -/
def best (l : List α) : Option α := (l.filter fun a => 0 < f a).argmax f

/-- **What the search ends with.** -/
theorem foldl_better (l : List α) :
    l.foldl (better f) (0, none) = (((best f l).map f).getD 0, best f l) := by
  induction l using List.reverseRecOn with
  | nil => rfl
  | append_singleton l a ih =>
      rw [List.foldl_append, ih, List.foldl_cons, List.foldl_nil, better]
      by_cases ha : 0 < f a
      · have hfilter : (l ++ [a]).filter (fun a => 0 < f a) = l.filter (fun a => 0 < f a) ++ [a] := by
          rw [List.filter_append, List.filter_cons_of_pos (by simpa using ha), List.filter_nil]
        rw [best, best, hfilter, List.argmax_concat]
        rcases (l.filter fun a => 0 < f a).argmax f with _ | c
        · exact if_pos ha
        · by_cases hc : f c < f a
          · simp [hc]
          · simp [hc]
      · have hfilter : (l ++ [a]).filter (fun a => 0 < f a) = l.filter (fun a => 0 < f a) := by
          rw [List.filter_append, List.filter_cons_of_neg (by simpa using ha), List.filter_nil,
            List.append_nil]
        rw [best, best, hfilter, if_neg (by omega)]

variable {f} {l : List α} {a : α}

/-- **What is found is one of the best.** -/
theorem best_eq_some (h : best f l = some a) :
    a ∈ l ∧ 0 < f a ∧ ∀ b ∈ l, f b ≤ f a := by
  have hmem := List.argmax_mem h
  rw [List.mem_filter, decide_eq_true_eq] at hmem
  refine ⟨hmem.1, hmem.2, fun b hb => ?_⟩
  by_cases hpos : 0 < f b
  · exact List.le_of_mem_argmax (List.mem_filter.2 ⟨hb, decide_eq_true hpos⟩) h
  · omega

/-- **Something is found just if something is good.** -/
theorem isSome_best_iff : (best f l).isSome ↔ ∃ a ∈ l, 0 < f a := by
  rw [← not_iff_not, Bool.not_eq_true, Option.isSome_eq_false_iff, Option.isNone_iff_eq_none, best,
    List.argmax_eq_none, List.filter_eq_nil_iff]
  simp

/-- **The order of the list does not matter for the score.** -/
theorem best_perm {l' : List α} (hperm : l'.Perm l) (h : best f l = some a) :
    ∃ a', best f l' = some a' ∧ f a' = f a := by
  obtain ⟨hmem, hpos, hbest⟩ := best_eq_some h
  obtain ⟨a', ha'⟩ := Option.isSome_iff_exists.1 (isSome_best_iff.2 ⟨a, hperm.mem_iff.2 hmem, hpos⟩)
  obtain ⟨hmem', -, hbest'⟩ := best_eq_some ha'
  exact ⟨a', ha', le_antisymm (hbest a' (hperm.mem_iff.1 hmem')) (hbest' a (hperm.mem_iff.2 hmem))⟩

end Foundations
