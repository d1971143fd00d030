/-
# What a computation may throw

`Throws P x` says that every error of `x` satisfies `P`: the computation returns,
or fails in one of the ways `P` lists.  The rules follow the structure of a
computation (`Throws.bind`, `throws_ite`), and a loop throws what its rounds throw
(`Loop.run_throws_of`, `Loop.run_throws`).
-/

import V2Proxy.Foundations.Loop

namespace Foundations

universe u

variable {ε ε' : Type*} {α β : Type u} {P : ε → Prop} {P' : ε' → Prop}

/-- Every error of `x` satisfies `P`. -/
def Throws (P : ε → Prop) (x : Except ε α) : Prop := ∀ e, x = .error e → P e

/-- What returns throws nothing. -/
@[simp] theorem throws_ok (a : α) : Throws P (.ok a : Except ε α) := by
  intro e h
  cases h

/-- The same, written `pure`. -/
@[simp] theorem throws_pure (a : α) : Throws P (pure a : Except ε α) := throws_ok a

/-- What fails throws its error. -/
@[simp] theorem throws_error {e : ε} : Throws P (.error e : Except ε α) ↔ P e := by
  constructor
  · exact fun h => h e rfl
  · intro he e' h
    cases h
    exact he

/-- A weaker condition on the errors. -/
theorem Throws.mono {Q : ε → Prop} {x : Except ε α} (h : Throws P x) (hPQ : ∀ e, P e → Q e) :
    Throws Q x :=
  fun e he => hPQ e (h e he)

/-- **Sequencing.** -/
theorem Throws.bind {x : Except ε α} {f : α → Except ε β} (hx : Throws P x)
    (hf : ∀ a, x = .ok a → Throws P (f a)) : Throws P (x >>= f) := by
  rcases x with e | a
  · exact fun e' h => hx e' (by cases h; rfl)
  · exact hf a rfl

/-- Both branches. -/
theorem throws_ite {c : Prop} [Decidable c] {x y : Except ε α} (hx : c → Throws P x)
    (hy : ¬ c → Throws P y) : Throws P (if c then x else y) := by
  split_ifs with h
  · exact hx h
  · exact hy h

/-- Errors under another name. -/
theorem Throws.mapError {x : Except ε α} {g : ε → ε'} (hx : Throws P x)
    (hg : ∀ e, P e → P' (g e)) : Throws P' (x.mapError g) := by
  rcases x with e | a
  · exact throws_error.2 (hg e (hx e rfl))
  · exact throws_ok a

/-- Every step of a fold. -/
theorem throws_foldlM {σ : Type u} {f : σ → β → Except ε σ} (hf : ∀ s b, Throws P (f s b))
    (bs : List β) (s : σ) : Throws P (bs.foldlM f s) := by
  induction bs generalizing s with
  | nil => exact throws_pure s
  | cons b bs ih => exact (hf s b).bind fun s' _ => ih s'

/-- **A loop throws what its rounds throw**, on the states that satisfy an invariant. -/
theorem Loop.run_throws_of {σ : Type*} {ρ : Type u} {L : Loop ε σ ρ} {I : σ → Prop}
    (next : ∀ s s', I s → L.step s = .ok (.inl s') → I s')
    (throws : ∀ s, I s → Throws P (L.step s)) {s : σ} (hs : I s) : Throws P (L.run s) := by
  refine L.run_induction (motive := fun s r => I s → Throws P r) (fun s e he hs => ?_)
    (fun _ x _ _ => throws_ok x) (fun s s' hs' ih hs => ih (next s s' hs hs')) s hs
  exact throws_error.2 (throws s hs e he)

/-- A loop throws what its rounds throw. -/
theorem Loop.run_throws {σ : Type*} {ρ : Type u} {L : Loop ε σ ρ}
    (h : ∀ s, Throws P (L.step s)) (s : σ) : Throws P (L.run s) :=
  L.run_throws_of (I := fun _ => True) (fun _ _ _ _ => trivial) (fun s _ => h s) trivial

end Foundations
