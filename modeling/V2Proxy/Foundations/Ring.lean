/-
# A list read around its end

A ring is a list with two indices: what it holds reaches from `pop` to `push`, around the
end of the list if `push` comes first (`ringContents`).  An index moves up to the end of
the list, which is its start again (`wrapAt`).  Writing at `push` appends to the contents
(`ringContents_overwrite`), and moving `pop` on drops from their front
(`ringContents_drop`), as long as neither runs into the other.

Where the indices meet, the ring is empty: a full one keeps a slot free.
-/

import Mathlib.Data.List.Basic
import Mathlib.Order.Nat
import Mathlib.Tactic.Common

namespace Foundations

variable {α : Type*}

/-- An index that has reached the end of a list of length `n` is at its start. -/
def wrapAt (n i : ℕ) : ℕ := if i = n then 0 else i

/-- The elements from `pop` to `push`. -/
def ringContents (l : List α) (pop push : ℕ) : List α :=
  if pop ≤ push then (l.take push).drop pop else l.drop pop ++ l.take push

/-- The list with `chunk` written at `i`. -/
def overwrite (l : List α) (i : ℕ) (chunk : List α) : List α :=
  l.take i ++ chunk ++ l.drop (i + chunk.length)

variable {l chunk : List α} {pop push i k n : ℕ}

theorem wrapAt_lt (hn : 0 < n) (hi : i ≤ n) : wrapAt n i < n := by
  unfold wrapAt
  split_ifs <;> omega

theorem length_ringContents (hpush : push < l.length) :
    (ringContents l pop push).length =
      if pop ≤ push then push - pop else l.length - pop + push := by
  unfold ringContents
  split_ifs
  · rw [List.length_drop, List.length_take, Nat.min_eq_left hpush.le]
  · rw [List.length_append, List.length_drop, List.length_take, Nat.min_eq_left hpush.le]

theorem length_overwrite (h : i + chunk.length ≤ l.length) :
    (overwrite l i chunk).length = l.length := by
  simp only [overwrite, List.length_append, List.length_take, List.length_drop]
  omega

/-- What is written ends the part in front. -/
theorem take_overwrite (h : i + chunk.length ≤ l.length) :
    (overwrite l i chunk).take (i + chunk.length) = l.take i ++ chunk := by
  refine List.take_left' ?_
  rw [List.length_append, List.length_take]
  omega

/-- What is written does not reach the part behind. -/
theorem drop_overwrite (h : i + chunk.length ≤ pop) (hpop : pop ≤ l.length) :
    (overwrite l i chunk).drop pop = l.drop pop := by
  have hlength : (l.take i ++ chunk).length = i + chunk.length := by
    rw [List.length_append, List.length_take]
    omega
  rw [overwrite, List.drop_append, List.drop_eq_nil_of_le (by omega), List.nil_append,
    List.drop_drop, hlength]
  congr 1
  omega

/-- **Writing at `push` appends to the contents,** if the indices do not meet. -/
theorem ringContents_overwrite (hpush : push < l.length) (hpop : pop < l.length)
    (hend : push + chunk.length ≤ l.length)
    (hfree : if pop ≤ push then 0 < pop ∨ push + chunk.length < l.length
      else push + chunk.length < pop) :
    ringContents (overwrite l push chunk) pop (wrapAt l.length (push + chunk.length)) =
      ringContents l pop push ++ chunk := by
  by_cases hle : pop ≤ push
  · rw [if_pos hle] at hfree
    have hinside : pop ≤ (l.take push).length := by
      rw [List.length_take]
      omega
    have hcontents : ringContents l pop push ++ chunk = (l.take push ++ chunk).drop pop := by
      rw [ringContents, if_pos hle, List.drop_append_of_le_length hinside]
    rw [hcontents]
    by_cases hwrap : push + chunk.length = l.length
    · have hpos : ¬ pop ≤ 0 := by omega
      have htake : (overwrite l push chunk).take (push + chunk.length) = l.take push ++ chunk :=
        take_overwrite hend
      rw [wrapAt, if_pos hwrap, ringContents, if_neg hpos, List.take_zero, List.append_nil, ← htake,
        hwrap, List.take_of_length_le (length_overwrite hend).le]
    · rw [wrapAt, if_neg hwrap, ringContents, if_pos (by omega), take_overwrite hend]
  · rw [if_neg hle] at hfree
    rw [wrapAt, if_neg (by omega), ringContents, if_neg (by omega), ringContents, if_neg hle,
      take_overwrite hend, drop_overwrite hfree.le hpop.le, List.append_assoc]

/-- What stands at `pop` is the front of the contents. -/
theorem take_ringContents
    (hk : if pop ≤ push then pop + k ≤ push else pop + k ≤ l.length) :
    (ringContents l pop push).take k = (l.drop pop).take k := by
  by_cases hle : pop ≤ push
  · rw [if_pos hle] at hk
    rw [ringContents, if_pos hle, List.drop_take, List.take_take]
    congr 1
    omega
  · rw [if_neg hle] at hk
    rw [ringContents, if_neg hle, List.take_append_of_le_length]
    rw [List.length_drop]
    omega

/-- **Moving `pop` on drops from the front of the contents.** -/
theorem ringContents_drop (hpush : push < l.length)
    (hk : if pop ≤ push then pop + k ≤ push else pop + k ≤ l.length) :
    ringContents l (wrapAt l.length (pop + k)) push = (ringContents l pop push).drop k := by
  by_cases hle : pop ≤ push
  · rw [if_pos hle] at hk
    rw [wrapAt, if_neg (by omega), ringContents, if_pos hk, ringContents, if_pos hle,
      List.drop_drop]
  · rw [if_neg hle] at hk
    have hlength : (l.drop pop).length = l.length - pop := List.length_drop
    rw [ringContents, ringContents, if_neg hle, wrapAt]
    by_cases hwrap : pop + k = l.length
    · have hall : (l.drop pop).length = k := by omega
      rw [if_pos hwrap, if_pos (Nat.zero_le _), List.drop_zero, List.drop_left' hall]
    · rw [if_neg hwrap, if_neg (by omega), List.drop_append_of_le_length (by omega),
        List.drop_drop]

end Foundations
