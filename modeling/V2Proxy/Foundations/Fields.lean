/-
# The fields of a delimited text

`List.splitOn a s` is the list of the fields of `s` between the delimiters `a`.
The first field ends at the first delimiter and the fields behind it are those of
the rest (`splitOn_eq_cons_cons_iff`); the last one comes after the last delimiter
(`getLast?_splitOn`).

What is searched for is the first field that begins with a given key
(`find?_splitOn_append`): it is the one that begins at a delimiter, or at the
start of the text, when the key does not occur before.
-/

import V2Proxy.Foundations.Search
import Mathlib.Data.List.DropRight

namespace Foundations

variable {α : Type*} [DecidableEq α]

/-- The first field reaches to the first delimiter; the others lie in the text. -/
theorem splitOn_eq_cons (a : α) (s : List α) :
    ∃ t, s.splitOn a = s.takeWhile (· ≠ a) :: t ∧ ∀ x ∈ t, x <:+: s := by
  induction s with
  | nil => exact ⟨[], by simp [List.splitOn_nil], by simp⟩
  | cons c s ih =>
      obtain ⟨t, ht, hmem⟩ := ih
      rw [List.splitOn_cons_eq_if_modifyHead, ht]
      by_cases h : c = a
      · refine ⟨s.takeWhile (· ≠ a) :: t, by simp [h], fun x hx => ?_⟩
        rcases List.mem_cons.1 hx with rfl | hx
        · exact (List.takeWhile_prefix _).isInfix.trans (List.suffix_cons c s).isInfix
        · exact (hmem x hx).trans (List.suffix_cons c s).isInfix
      · refine ⟨t, by simp [h], fun x hx => ?_⟩
        exact (hmem x hx).trans (List.suffix_cons c s).isInfix

/-- Every field lies in the text. -/
theorem infix_of_mem_splitOn {a : α} {s x : List α} (h : x ∈ s.splitOn a) : x <:+: s := by
  obtain ⟨t, ht, hmem⟩ := splitOn_eq_cons a s
  rw [ht] at h
  rcases List.mem_cons.1 h with rfl | h
  · exact (List.takeWhile_prefix _).isInfix
  · exact hmem x h

/-- No field has a delimiter in it. -/
theorem not_mem_of_mem_splitOn {a : α} {s x : List α} (h : x ∈ s.splitOn a) : a ∉ x := by
  induction s generalizing x with
  | nil =>
      rw [List.splitOn_nil, List.mem_singleton] at h
      rw [h]
      exact List.not_mem_nil
  | cons c s ih =>
      rw [List.splitOn_cons_eq_if_modifyHead] at h
      obtain ⟨t, ts, hts⟩ := List.exists_cons_of_ne_nil (List.splitOn_ne_nil a s)
      by_cases hc : c = a
      · rw [if_pos (beq_iff_eq.2 hc)] at h
        rcases List.mem_cons.1 h with rfl | h
        · exact List.not_mem_nil
        · exact ih h
      · rw [if_neg (by rwa [beq_iff_eq]), hts, List.modifyHead_cons] at h
        rcases List.mem_cons.1 h with rfl | h
        · rw [List.mem_cons, not_or]
          exact ⟨Ne.symm hc, ih (by rw [hts]; exact List.mem_cons_self)⟩
        · exact ih (by rw [hts]; exact List.mem_cons_of_mem t h)

/-- **The first field ends at the first delimiter.** -/
theorem splitOn_eq_cons_cons_iff {a : α} {s t t' : List α} {ts : List (List α)} :
    s.splitOn a = t :: t' :: ts ↔ ∃ s', s = t ++ a :: s' ∧ a ∉ t ∧ s'.splitOn a = t' :: ts := by
  constructor
  · intro h
    have hmem : ∀ x ∈ t :: t' :: ts, a ∉ x := by
      intro x hx
      exact not_mem_of_mem_splitOn (by rwa [h])
    refine ⟨[a].intercalate (t' :: ts), ?_, hmem t List.mem_cons_self, ?_⟩
    · have hs : [a].intercalate (s.splitOn a) = s := List.intercalate_splitOn a
      rw [← hs, h, List.intercalate_cons_cons, List.append_assoc]
      rfl
    · exact List.splitOn_intercalate a (fun x hx => hmem x (List.mem_cons_of_mem t hx))
        (List.cons_ne_nil _ _)
  · rintro ⟨s', rfl, ht, hs'⟩
    rw [List.splitOn_append_cons_self_of_not_mem ht, hs']

/-- **The last field comes after the last delimiter.** -/
theorem getLast?_splitOn (a : α) (s : List α) :
    (s.splitOn a).getLast? = some (s.rtakeWhile (· ≠ a)) := by
  have hlast : a ∉ s.rtakeWhile (· ≠ a) := by
    intro h
    have hne := List.mem_rtakeWhile_imp h
    exact of_decide_eq_true hne rfl
  have hs : s.rdropWhile (· ≠ a) ++ s.rtakeWhile (· ≠ a) = s := List.rdropWhile_append_rtakeWhile
  by_cases hnil : s.rdropWhile (fun x => decide (x ≠ a)) = []
  · rw [hnil, List.nil_append] at hs
    rw [hs] at hlast ⊢
    rw [List.splitOn_eq_singleton hlast, List.getLast?_singleton]
  · have ha := List.rdropWhile_last_not (fun x => decide (x ≠ a)) s hnil
    rw [decide_eq_true_eq, not_not] at ha
    rw [← List.dropLast_append_getLast hnil, ha, List.append_assoc, List.singleton_append] at hs
    have hfields := List.splitOn_append_cons_self (a := a)
      (s.rdropWhile fun x => decide (x ≠ a)).dropLast (s.rtakeWhile fun x => decide (x ≠ a))
    rw [hs, List.splitOn_eq_singleton hlast] at hfields
    rw [hfields, List.getLast?_append, List.getLast?_singleton, Option.some_or]

/-- **The first field with a key.**  `u` ends a field, or is empty, and the key
does not occur in it: then the field that begins right after `u` is the first
one that begins with the key. -/
theorem find?_splitOn_append {a : α} {key u v : List α} (hu : u = [] ∨ ∃ w, u = w ++ [a])
    (hkey : ¬ key <:+: u) (ha : a ∉ key) (hv : key <+: v) :
    ((u ++ v).splitOn a).find? (key.isPrefixOf ·) = some (v.takeWhile (· ≠ a)) := by
  have hfirst : (v.splitOn a).find? (key.isPrefixOf ·) = some (v.takeWhile (· ≠ a)) := by
    obtain ⟨t, ht, -⟩ := splitOn_eq_cons a v
    obtain ⟨w, rfl⟩ := hv
    have htake : (key ++ w).takeWhile (· ≠ a) = key ++ w.takeWhile (· ≠ a) := by
      refine List.takeWhile_append_of_pos fun x hx => decide_eq_true fun h => ha ?_
      exact h ▸ hx
    rw [ht, List.find?_cons_of_pos]
    rw [htake, List.isPrefixOf_iff_prefix]
    exact List.prefix_append _ _
  rcases hu with rfl | ⟨w, rfl⟩
  · exact hfirst
  · rw [List.append_assoc, List.singleton_append, List.splitOn_append_cons_self,
      List.find?_append, hfirst, List.find?_eq_none.2, Option.none_or]
    intro x hx hp
    refine hkey ((List.isPrefixOf_iff_prefix.1 hp).isInfix.trans ?_)
    exact (infix_of_mem_splitOn hx).trans (List.prefix_append _ _).isInfix

end Foundations
