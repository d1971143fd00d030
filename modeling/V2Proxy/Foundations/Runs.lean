/-
# Runs of a step relation

`step s a s'` says that the system goes from `s` to `s'` on the action `a`, and
`Run step s as s'` that it goes from `s` to `s'` on the actions `as`, one after
another.  A property of every reachable state is proved by the invariant rule
(`Run.invariant`); a property of all runs that meet a condition at every step is
one of the runs of the restricted relation.
-/

import V2Proxy.Foundations.Loop
import Mathlib.Tactic.Common

namespace Foundations

variable {σ α : Type*}

/-- The runs of `step`. -/
inductive Run (step : σ → α → σ → Prop) : σ → List α → σ → Prop
  | nil (s : σ) : Run step s [] s
  | cons {s s' s'' : σ} {a : α} {as : List α} :
      step s a s' → Run step s' as s'' → Run step s (a :: as) s''

namespace Run

variable {step : σ → α → σ → Prop} {s s' s'' : σ} {a : α} {as : List α}

@[simp] theorem nil_iff : Run step s [] s' ↔ s = s' := by
  constructor
  · rintro ⟨⟩
    rfl
  · rintro rfl
    exact .nil s

theorem cons_iff : Run step s (a :: as) s'' ↔ ∃ s', step s a s' ∧ Run step s' as s'' := by
  constructor
  · rintro (_ | ⟨h, hr⟩)
    exact ⟨_, h, hr⟩
  · rintro ⟨s', h, hr⟩
    exact .cons h hr

/-- One run after another. -/
theorem append {bs : List α} (h : Run step s as s') (h' : Run step s' bs s'') :
    Run step s (as ++ bs) s'' := by
  induction h with
  | nil s => exact h'
  | cons ha _ ih => exact .cons ha (ih h')

/-- A fold is a run. -/
theorem of_foldlM {ε τ : Type*} {f : τ → α → Except ε τ} {as : List α} {t t' : τ}
    (h : as.foldlM f t = .ok t') : Run (fun t a t' => f t a = .ok t') t as t' := by
  induction as generalizing t with
  | nil =>
      obtain rfl := Except.ok.inj h
      exact .nil t
  | cons a as ih =>
      rw [List.foldlM_cons] at h
      obtain ⟨t₁, ha, h⟩ := bind_eq_ok.1 h
      exact .cons ha (ih h)

/-- **The invariant rule:** what every step preserves, every run preserves. -/
theorem invariant {I : σ → Prop} (next : ∀ s a s', I s → step s a s' → I s')
    (h : Run step s as s') (hs : I s) : I s' := by
  induction h with
  | nil s => exact hs
  | cons ha _ ih => exact ih (next _ _ _ hs ha)

/-- The runs of a restricted relation are runs. -/
theorem mono {step' : σ → α → σ → Prop} (hstep : ∀ s a s', step s a s' → step' s a s')
    (h : Run step s as s') : Run step' s as s' := by
  induction h with
  | nil s => exact .nil s
  | cons ha _ ih => exact .cons (hstep _ _ _ ha) ih

/-- A deterministic system has one run on given actions. -/
theorem unique (next : ∀ s a s' s'', step s a s' → step s a s'' → s' = s'')
    (h : Run step s as s') (h' : Run step s as s'') : s' = s'' := by
  induction h with
  | nil s => exact nil_iff.1 h'
  | cons ha _ ih =>
      obtain ⟨s₁, ha', h'⟩ := cons_iff.1 h'
      obtain rfl := next _ _ _ _ ha ha'
      exact ih h'

end Run

end Foundations
