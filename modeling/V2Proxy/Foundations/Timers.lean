/-
# Periodic updates that are made late

A `Timer` is a system with an update that is due every `period`.  `advance t s` makes the
updates that are due before the time `t`, however many there are.

Advancing in two steps is advancing in one (`advance_advance`).  So a system that makes its
updates late, all that are due at once, is where the timer is, as long as nothing else
happens to it between the time of an update and the update.
-/

import V2Proxy.Foundations.Loop

namespace Foundations

/-- An update that is due every `period`, the next time `period` after `last`.  The times are
below `bound`. -/
structure Timer (ε σ : Type*) where
  tick : σ → Except ε σ
  last : σ → ℕ
  period : ℕ
  bound : ℕ
  period_pos : 0 < period
  last_tick : ∀ {s s'}, tick s = .ok s' → last s + period < bound → last s' = last s + period

namespace Timer

variable {ε σ : Type*} (T : Timer ε σ)

/-- How many updates are due before `t`. -/
def due (t : ℕ) (s : σ) : ℕ := (t - 1 - T.last s) / T.period

/-- Updates, one after another. -/
def ticks : ℕ → σ → Except ε σ
  | 0, s => .ok s
  | n + 1, s => T.tick s >>= ticks n

/-- The updates that are due before `t`. -/
def advance (t : ℕ) (s : σ) : Except ε σ := T.ticks (T.due t s) s

variable {T} {s s' : σ} {t t' : ℕ}

/-- The updates that are due are those at `last + period`, `last + 2 * period` and so on before
`t`. -/
theorem le_due_iff {n : ℕ} (hn : 0 < n) : n ≤ T.due t s ↔ T.last s + n * T.period < t := by
  have hpos : 0 < n * T.period := Nat.mul_pos hn T.period_pos
  rw [due, Nat.le_div_iff_mul_le T.period_pos]
  omega

theorem due_eq_zero_iff : T.due t s = 0 ↔ t ≤ T.last s + T.period := by
  have h := le_due_iff (T := T) (s := s) (t := t) Nat.one_pos
  omega

theorem ticks_add (m n : ℕ) (s : σ) : T.ticks (m + n) s = T.ticks m s >>= T.ticks n := by
  induction m generalizing s with
  | zero => rw [Nat.zero_add, ticks, ok_bind]
  | succ m ih =>
      rw [Nat.succ_add, ticks, ticks]
      rcases T.tick s with e | s₁
      · rfl
      · exact ih s₁

theorem last_ticks {n : ℕ} (h : T.ticks n s = .ok s') (hbound : T.last s + n * T.period < T.bound) :
    T.last s' = T.last s + n * T.period := by
  induction n generalizing s with
  | zero =>
      cases h
      omega
  | succ n ih =>
      obtain ⟨s₁, hs₁, h⟩ := bind_eq_ok.1 h
      rw [Nat.succ_mul] at hbound ⊢
      have hlast := T.last_tick hs₁ (by omega)
      rw [ih h (by omega), hlast]
      omega

theorem advance_of_le (h : t ≤ T.last s + T.period) : T.advance t s = .ok s := by
  rw [advance, due_eq_zero_iff.2 h, ticks]

/-- **After an advance the last update is less than a period ago,** and before the time. -/
theorem last_advance (h : T.advance t s = .ok s') (hbound : t ≤ T.bound) :
    T.last s' = T.last s + T.due t s * T.period ∧ t ≤ T.last s' + T.period ∧
      (T.last s ≤ t → T.last s' ≤ t) := by
  have hlast : T.last s' = T.last s + T.due t s * T.period := by
    rcases Nat.eq_zero_or_pos (T.due t s) with hzero | hpos
    · rw [advance, hzero, ticks] at h
      cases h
      rw [hzero, Nat.zero_mul, Nat.add_zero]
    · exact last_ticks h ((le_due_iff hpos).1 le_rfl |>.trans_le hbound)
  have hnext := (le_due_iff (T := T) (s := s) (t := t) (Nat.succ_pos (T.due t s))).not.1 (by omega)
  rw [Nat.succ_mul] at hnext
  refine ⟨hlast, by omega, fun hle => ?_⟩
  rcases Nat.eq_zero_or_pos (T.due t s) with hzero | hpos
  · rwa [hlast, hzero, Nat.zero_mul, Nat.add_zero]
  · exact hlast.trans_le ((le_due_iff hpos).1 le_rfl).le

/-- **Advancing in two steps is advancing in one.** -/
theorem advance_advance (h : T.advance t s = .ok s') (hbound : t ≤ T.bound) (hle : t ≤ t') :
    T.advance t' s' = T.advance t' s := by
  obtain ⟨hlast, hlate, -⟩ := last_advance h hbound
  have hdue : T.due t' s = T.due t s + T.due t' s' := by
    have hmono : T.due t s ≤ T.due t' s := Nat.div_le_div_right (by omega)
    have hrest : T.due t' s' = T.due t' s - T.due t s := by
      rw [due, hlast, ← Nat.sub_sub, Nat.mul_comm, Nat.sub_mul_div]
      rfl
    omega
  rw [advance, advance, hdue, ticks_add]
  exact (congrArg (· >>= T.ticks (T.due t' s')) h).symm

end Timer

end Foundations
