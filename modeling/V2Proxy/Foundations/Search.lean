/-
# The first occurrence of a pattern in a list

`find pat s` is the position at which `pat` first occurs in `s`.  A reader that
gets its input in pieces searches a growing list, so the laws here say how the
answer moves when the list grows on the right: an occurrence that is found stays
the first one (`find_append_of_some`), and an occurrence that was not there ends
past the old list (`length_lt_of_find_append`).
-/

import Mathlib.Data.List.Infix
import Mathlib.Data.List.TakeWhile
import Mathlib.Tactic.Common

namespace Foundations

variable {α : Type*} [DecidableEq α]

/-- The position of the first occurrence of `pat` in the list. -/
def find (pat : List α) : List α → Option ℕ
  | [] => if pat = [] then some 0 else none
  | x :: s => if pat <+: x :: s then some 0 else (find pat s).map (· + 1)

/-- **`find` is the first occurrence:** the pattern stands at the position, and
at no position before it. -/
theorem find_eq_some_iff {pat s : List α} {i : ℕ} :
    find pat s = some i ↔ i ≤ s.length ∧ pat <+: s.drop i ∧ ∀ j < i, ¬ pat <+: s.drop j := by
  induction s generalizing i with
  | nil =>
      rw [find]
      split_ifs with h
      · subst h
        simp only [Option.some.injEq, List.length_nil, Nat.le_zero, List.drop_nil,
          List.prefix_rfl, true_and]
        constructor
        · rintro rfl
          exact ⟨rfl, by simp⟩
        · exact fun h => h.1.symm
      · simp [h]
  | cons x s ih =>
      rw [find]
      split_ifs with h
      · simp only [Option.some.injEq]
        constructor
        · rintro rfl
          exact ⟨Nat.zero_le _, h, by simp⟩
        · rintro ⟨-, -, hfirst⟩
          by_contra hi
          exact hfirst 0 (by omega) h
      · cases i with
        | zero =>
            simp only [Option.map_eq_some_iff, Nat.add_eq_zero_iff]
            constructor
            · rintro ⟨_, _, _, h1⟩
              exact absurd h1 Nat.one_ne_zero
            · exact fun h' => absurd h'.2.1 h
        | succ i =>
            simp only [Option.map_eq_some_iff, Nat.add_right_cancel_iff, exists_eq_right, ih,
              List.length_cons, List.drop_succ_cons, Nat.add_le_add_iff_right]
            refine and_congr_right fun _ => and_congr_right fun _ =>
              ⟨fun hf j hj => ?_, fun hf j hj => ?_⟩
            · cases j with
              | zero => exact h
              | succ j => exact hf j (by omega)
            · exact hf (j + 1) (by omega)

/-- The pattern occurs iff it is found. -/
theorem find_eq_none_iff {pat s : List α} : find pat s = none ↔ ¬ pat <:+: s := by
  induction s with
  | nil =>
      rw [find]
      split_ifs with h <;> simp [h]
  | cons x s ih =>
      rw [find, List.infix_cons_iff]
      split_ifs with h
      · simp [h]
      · simp [h, ih]

theorem find_isSome_iff {pat s : List α} : (find pat s).isSome ↔ pat <:+: s := by
  rw [← not_iff_not, Bool.not_eq_true, Option.isSome_eq_false_iff, Option.isNone_iff_eq_none,
    find_eq_none_iff]

/-- A found occurrence lies inside the list. -/
theorem add_length_le_of_find {pat s : List α} {i : ℕ} (h : find pat s = some i) :
    i + pat.length ≤ s.length := by
  obtain ⟨hi, hp, -⟩ := find_eq_some_iff.1 h
  have := hp.length_le
  rw [List.length_drop] at this
  omega

/-- A found occurrence cuts the list in three. -/
theorem eq_append_of_find {pat s : List α} {i : ℕ} (h : find pat s = some i) :
    s = s.take i ++ (pat ++ s.drop (i + pat.length)) := by
  obtain ⟨-, ⟨t, ht⟩, -⟩ := find_eq_some_iff.1 h
  have hd : s.drop (i + pat.length) = t := by
    rw [← List.drop_drop, ← ht, List.drop_left]
  rw [hd, ht, List.take_append_drop]

theorem take_add_length_of_find {pat s : List α} {i : ℕ} (h : find pat s = some i) :
    s.take (i + pat.length) = s.take i ++ pat := by
  obtain ⟨-, hp, -⟩ := find_eq_some_iff.1 h
  rw [List.take_add, ← List.prefix_iff_eq_take.1 hp]

/-- **An occurrence that is found stays the first** when the list grows. -/
theorem find_append_of_some {pat s : List α} {i : ℕ} (h : find pat s = some i) (t : List α) :
    find pat (s ++ t) = some i := by
  have hlen := add_length_le_of_find h
  obtain ⟨hi, hp, hfirst⟩ := find_eq_some_iff.1 h
  refine find_eq_some_iff.2 ⟨by simp; omega, ?_, fun j hj hpj => hfirst j hj ?_⟩
  · rw [List.drop_append_of_le_length hi]
    exact hp.trans (List.prefix_append _ _)
  · rw [List.drop_append_of_le_length (by omega)] at hpj
    exact List.prefix_of_prefix_length_le hpj (List.prefix_append _ _) (by
      rw [List.length_drop]; omega)

/-- An occurrence that is found is found in every prefix that contains it. -/
theorem find_take_of_some {pat s : List α} {i n : ℕ} (h : find pat s = some i)
    (hn : i + pat.length ≤ n) : find pat (s.take n) = some i := by
  have hlen := add_length_le_of_find h
  obtain ⟨hi, hp, hfirst⟩ := find_eq_some_iff.1 h
  refine find_eq_some_iff.2 ⟨by rw [List.length_take]; omega, ?_, fun j hj hpj => hfirst j hj ?_⟩
  · rw [List.drop_take, List.prefix_take_iff]
    exact ⟨hp, by omega⟩
  · rw [List.drop_take, List.prefix_take_iff] at hpj
    exact hpj.1

/-- What comes before the first occurrence has none. -/
theorem not_infix_take_of_find {pat s : List α} {i : ℕ} (hpat : pat ≠ []) (h : find pat s = some i) :
    ¬ pat <:+: s.take i := by
  rw [← find_eq_none_iff]
  rcases hj : find pat (s.take i) with _ | j
  · rfl
  · have hle := add_length_le_of_find hj
    have hlen := List.length_pos_iff.2 hpat
    have hji := find_append_of_some hj (s.drop i)
    rw [List.take_append_drop, h] at hji
    rw [List.length_take, Option.some.inj hji] at hle
    omega

theorem find_take_of_find {pat s : List α} {i : ℕ} (hpat : pat ≠ []) (h : find pat s = some i) :
    find pat (s.take i) = none :=
  find_eq_none_iff.2 (not_infix_take_of_find hpat h)

/-- A part of a list has no more occurrences than the list. -/
theorem find_eq_none_of_infix {pat s t : List α} (h : find pat s = none) (ht : t <:+: s) :
    find pat t = none :=
  find_eq_none_iff.2 fun hpat => find_eq_none_iff.1 h (hpat.trans ht)

/-- **A new occurrence ends past the old list.** -/
theorem length_lt_of_find_append {pat s t : List α} {i : ℕ} (hs : find pat s = none)
    (h : find pat (s ++ t) = some i) : s.length < i + pat.length := by
  by_contra hle
  obtain ⟨hi, hp, -⟩ := find_eq_some_iff.1 h
  refine find_eq_none_iff.1 hs ?_
  rw [List.drop_append_of_le_length (by omega)] at hp
  have hpre : pat <+: s.drop i :=
    List.prefix_of_prefix_length_le hp (List.prefix_append _ _) (by rw [List.length_drop]; omega)
  exact hpre.isInfix.trans (List.drop_suffix i s).isInfix

/-- **The first occurrence after a text that does not reach into it:** when no
occurrence of `pat` starts inside `u`, it is found right after `u`. -/
theorem find_append_self {pat u : List α} (v : List α)
    (hu : ∀ j < u.length, ¬ pat <+: u.drop j ++ pat) :
    find pat (u ++ (pat ++ v)) = some u.length := by
  refine find_eq_some_iff.2 ⟨by simp, by simp, fun j hj hp => hu j hj ?_⟩
  rw [List.drop_append_of_le_length hj.le, ← List.append_assoc] at hp
  exact List.prefix_of_prefix_length_le hp (List.prefix_append _ _) (by simp)

/-- The first place of a value behind a list that does not have it. -/
theorem find_singleton_append {c : α} {u : List α} (h : c ∉ u) (v : List α) :
    find [c] (u ++ c :: v) = some u.length := by
  show find [c] (u ++ ([c] ++ v)) = some u.length
  refine find_append_self v fun j hj hpat => h ?_
  rw [List.drop_eq_getElem_cons hj, List.cons_append, List.cons_prefix_cons] at hpat
  rw [hpat.1]
  exact List.getElem_mem hj

/-- The text up to the first `c`. -/
theorem take_of_find_singleton {c : α} {s : List α} {i : ℕ} (h : find [c] s = some i) :
    s.take i = s.takeWhile (· ≠ c) ∧ c ∈ s := by
  induction s generalizing i with
  | nil => simp [find] at h
  | cons x s ih =>
      rw [find] at h
      by_cases hx : c = x
      · subst hx
        have hpre : [c] <+: c :: s := List.prefix_append [c] s
        rw [if_pos hpre] at h
        cases h
        simp
      · rw [if_neg (by rw [List.cons_prefix_cons]; exact fun hpre => hx hpre.1)] at h
        obtain ⟨j, hj, rfl⟩ := Option.map_eq_some_iff.1 h
        obtain ⟨htake, hmem⟩ := ih hj
        refine ⟨?_, List.mem_cons_of_mem x hmem⟩
        rw [List.take_succ_cons, htake, List.takeWhile_cons_of_pos (by simpa using Ne.symm hx)]

theorem not_mem_of_find_singleton {c : α} {s : List α} (h : find [c] s = none) : c ∉ s := by
  intro hmem
  obtain ⟨before, after, rfl⟩ := List.append_of_mem hmem
  refine find_eq_none_iff.1 h ⟨before, after, ?_⟩
  rw [List.append_assoc]
  rfl

theorem takeWhile_of_not_mem {c : α} {s : List α} (h : c ∉ s) : s.takeWhile (· ≠ c) = s := by
  refine List.takeWhile_eq_self_iff.2 fun x hx => decide_eq_true ?_
  rintro rfl
  exact h hx

theorem takeWhile_append_of_mem {c : α} {s : List α} (h : c ∈ s) (t : List α) :
    (s ++ t).takeWhile (· ≠ c) = s.takeWhile (· ≠ c) := by
  rw [List.takeWhile_append, if_neg fun hlength => ?_]
  have hself := (List.takeWhile_prefix (l := s) (· ≠ c)).eq_of_length hlength
  exact of_decide_eq_true (List.takeWhile_eq_self_iff.1 hself c h) rfl

omit [DecidableEq α] in
/-- The longest run ends where the next element is none of its kind. -/
theorem takeWhile_append_of_head? {p : α → Bool} {s t : List α} (hs : ∀ x ∈ s, p x = true)
    (ht : ∀ x, t.head? = some x → p x = false) : (s ++ t).takeWhile p = s := by
  rw [List.takeWhile_append_of_pos hs]
  rcases t with _ | ⟨x, t⟩
  · rw [List.takeWhile_nil, List.append_nil]
  · rw [List.takeWhile_cons_of_neg (by rw [ht x rfl]; decide), List.append_nil]

omit [DecidableEq α] in
/-- **Where an occurrence stands:** in front of a text that it shares no element with, or
behind it. -/
theorem prefix_drop_cases {pat s u t : List α} {i : ℕ} (hnil : pat ≠ []) (hu : u ≠ [])
    (hpat : ∀ c ∈ pat, c ∉ u) (h : pat <+: (s ++ (u ++ t)).drop i) :
    i + pat.length ≤ s.length ∨ s.length + u.length ≤ i := by
  by_contra hcut
  have hpos := List.length_pos_iff.2 hnil
  have hpos' := List.length_pos_iff.2 hu
  -- then some place belongs to both
  obtain ⟨q, hq₁, hq₂, hq₃, hq₄⟩ : ∃ q, i ≤ q ∧ q < i + pat.length ∧ s.length ≤ q ∧
      q < s.length + u.length := ⟨max i s.length, by omega, by omega, by omega, by omega⟩
  obtain ⟨after, hafter⟩ := h
  have hat : (pat ++ after)[q - i]? = ((s ++ (u ++ t)).drop i)[q - i]? := by rw [hafter]
  rw [List.getElem?_append_left (by omega), List.getElem?_drop, show i + (q - i) = q by omega,
    List.getElem?_append_right hq₃, List.getElem?_append_left (by omega),
    List.getElem?_eq_getElem (by omega), List.getElem?_eq_getElem (by omega)] at hat
  have hmem := List.getElem_mem (show q - i < pat.length by omega)
  rw [Option.some.inj hat] at hmem
  exact hpat _ hmem (List.getElem_mem _)

/-- **An occurrence behind a text without one:** `u` shares no element with the pattern,
which does not occur in `s`; then its first place is the first one behind both. -/
theorem find_append_of_disjoint {pat s u t : List α} {i : ℕ} (hnil : pat ≠ []) (hu : u ≠ [])
    (hpat : ∀ c ∈ pat, c ∉ u) (hs : ¬ pat <:+: s) (h : find pat t = some i) :
    find pat (s ++ (u ++ t)) = some (s.length + u.length + i) := by
  obtain ⟨hi, hat, hfirst⟩ := find_eq_some_iff.1 h
  have hdrop : ∀ j, (s ++ (u ++ t)).drop (s.length + u.length + j) = t.drop j := by
    intro j
    rw [← List.append_assoc, ← List.drop_drop, List.drop_left' (by rw [List.length_append])]
  refine find_eq_some_iff.2 ⟨by simp only [List.length_append]; omega, by rwa [hdrop],
    fun j hj hp => ?_⟩
  rcases prefix_drop_cases hnil hu hpat hp with hle | hge
  · refine hs (List.IsPrefix.isInfix ?_ |>.trans (List.drop_suffix j s).isInfix)
    rw [List.drop_append_of_le_length (by omega)] at hp
    exact List.prefix_of_prefix_length_le hp (List.prefix_append _ _) (by rw [List.length_drop]; omega)
  · obtain ⟨k, rfl⟩ := Nat.exists_eq_add_of_le hge
    rw [hdrop] at hp
    exact hfirst k (by omega) hp

omit [DecidableEq α] in
/-- **What is inserted splits the occurrences:** a text that shares no element with
`u` occurs before `u` or after it. -/
theorem infix_append_cases {pat s u t : List α} (hu : u ≠ []) (hpat : ∀ c ∈ pat, c ∉ u)
    (h : pat <:+: s ++ (u ++ t)) : pat <:+: s ∨ pat <:+: t := by
  by_cases hnil : pat = []
  · rw [hnil]
    exact Or.inl List.nil_infix
  obtain ⟨before, after, heq⟩ := h
  have hat : pat <+: (s ++ (u ++ t)).drop before.length := by
    rw [← heq, List.append_assoc, List.drop_left]
    exact List.prefix_append pat after
  rcases prefix_drop_cases hnil hu hpat hat with hle | hge
  · left
    rw [List.drop_append_of_le_length (by omega)] at hat
    have hfits : pat.length ≤ (s.drop before.length).length := by
      rw [List.length_drop]
      omega
    have hpre := List.prefix_of_prefix_length_le hat (List.prefix_append _ _) hfits
    exact hpre.isInfix.trans (List.drop_suffix _ s).isInfix
  · right
    obtain ⟨k, hk⟩ := Nat.exists_eq_add_of_le hge
    rw [hk, ← List.append_assoc, ← List.length_append, List.drop_append] at hat
    simp only [List.drop_eq_nil_of_le (Nat.le_add_right _ _),
      Nat.add_sub_cancel_left, List.nil_append] at hat
    exact hat.isInfix.trans (List.drop_suffix k t).isInfix

end Foundations
