/-
# Schedules that repeat

A schedule is a nondecreasing list of times after a base; its last time is its
period.  `periodic s b j` is the time of event number `j` when the schedule
is run over and over: in period `j / s.length`, entry `j % s.length`.

The events are in order (`periodic_mono`), the next one is at most a period
away (`periodic_step`), and if the period is positive, some event is later
than any time (`lt_periodic`).
-/

import Mathlib.Algebra.Order.Group.Nat
import Mathlib.Data.List.GetD
import Mathlib.Order.Monotone.Basic
import Mathlib.Tactic.Common

namespace Foundations

/-- The period of a schedule. -/
def period (s : List ℕ) : ℕ := s.getLast?.getD 0

/-- The time of event `j`. -/
def periodic (s : List ℕ) (b j : ℕ) : ℕ :=
  b + j / s.length * period s + s.getD (j % s.length) 0

variable {s : List ℕ} {b i j : ℕ}

theorem periodic_of_lt (h : j < s.length) : periodic s b j = b + s.getD j 0 := by
  rw [periodic, Nat.div_eq_of_lt h, Nat.mod_eq_of_lt h, Nat.zero_mul, Nat.add_zero]

theorem period_eq_getD (s : List ℕ) : period s = s.getD (s.length - 1) 0 := by
  rw [period, List.getLast?_eq_getElem?, List.getD_eq_getElem?_getD]

section Step

variable (hs : s ≠ [])

include hs

/-- Within a period the next entry is the next event. -/
theorem periodic_succ (hj : (j + 1) % s.length ≠ 0) :
    (j + 1) % s.length = j % s.length + 1 ∧ (j + 1) / s.length = j / s.length := by
  have hlength := List.length_pos_iff.2 hs
  have hlt := Nat.mod_lt j hlength
  have hmod : (j + 1) % s.length = (j % s.length + 1) % s.length := (Nat.mod_add_mod j _ 1).symm
  have hdiv : ¬s.length ∣ j + 1 := fun h => hj (Nat.mod_eq_zero_of_dvd h)
  refine ⟨?_, Nat.succ_div_of_not_dvd hdiv⟩
  rcases Nat.lt_or_ge (j % s.length + 1) s.length with h | h
  · rw [hmod, Nat.mod_eq_of_lt h]
  · have heq : j % s.length + 1 = s.length := by omega
    rw [heq, Nat.mod_self] at hmod
    exact absurd hmod hj

/-- Where a period ends, the last entry is the base of the next period. -/
theorem periodic_wrap (hj : (j + 1) % s.length = 0) :
    (j + 1) / s.length = j / s.length + 1 ∧
      periodic s b j = b + (j + 1) / s.length * period s := by
  have hlength := List.length_pos_iff.2 hs
  have hlt := Nat.mod_lt j hlength
  have hdiv : (j + 1) / s.length = j / s.length + 1 :=
    Nat.succ_div_of_dvd (Nat.dvd_of_mod_eq_zero hj)
  have hmod : (j % s.length + 1) % s.length = 0 := by rw [Nat.mod_add_mod, hj]
  have hlast : j % s.length = s.length - 1 := by
    rcases Nat.lt_or_ge (j % s.length + 1) s.length with h | h
    · rw [Nat.mod_eq_of_lt h] at hmod
      omega
    · omega
  refine ⟨hdiv, ?_⟩
  rw [periodic, hlast, ← period_eq_getD, hdiv, Nat.add_one_mul, Nat.add_assoc]

/-- If the period is positive, some event is later than any time. -/
theorem lt_periodic (hperiod : 0 < period s) (time : ℕ) :
    time < periodic s b (s.length * (time + 1)) := by
  have hlength := List.length_pos_iff.2 hs
  rw [periodic, Nat.mul_div_cancel_left _ hlength]
  have hle : (time + 1) * 1 ≤ (time + 1) * period s := Nat.mul_le_mul_left _ hperiod
  omega

end Step

section Sorted

variable (hsorted : s.Pairwise (· ≤ ·))

include hsorted

theorem getD_mono (hij : i ≤ j) (hj : j < s.length) : s.getD i 0 ≤ s.getD j 0 := by
  rw [List.getD_eq_getElem _ _ (hij.trans_lt hj), List.getD_eq_getElem _ _ hj]
  rcases Nat.lt_or_eq_of_le hij with hlt | rfl
  · exact List.pairwise_iff_getElem.1 hsorted i j _ hj hlt
  · exact Nat.le_refl _

theorem getD_le_period (hi : i < s.length) : s.getD i 0 ≤ period s := by
  rw [period_eq_getD]
  exact getD_mono hsorted (by omega) (by omega)

/-- **The next event is not earlier, and at most a period away.** -/
theorem periodic_step (hs : s ≠ []) (b j : ℕ) :
    periodic s b j ≤ periodic s b (j + 1) ∧
      periodic s b (j + 1) ≤ periodic s b j + period s := by
  have hlt := Nat.mod_lt (j + 1) (List.length_pos_iff.2 hs)
  have hle := getD_le_period hsorted hlt
  by_cases hwrap : (j + 1) % s.length = 0
  · rw [(periodic_wrap hs hwrap).2, periodic]
    omega
  · obtain ⟨hmod, hdiv⟩ := periodic_succ hs hwrap
    have hmono := getD_mono hsorted (i := j % s.length) (by omega) hlt
    rw [periodic, periodic, hdiv]
    omega

/-- **The events are in order.** -/
theorem periodic_mono (hs : s ≠ []) (b : ℕ) : Monotone (periodic s b) :=
  monotone_nat_of_le_succ fun j => (periodic_step hsorted hs b j).1

end Sorted

end Foundations
