/-
# Loops that may fail, leave early, or not end

A loop body is a function `f : σ → Except ε (σ ⊕ ρ)`: it fails, goes on with a
new state (`inl`), or leaves with a result (`inr`).  `iterate f n s` runs it at
most `n` times and is `none` while the loop is still going; `Returns f s r`
says that the loop ends, with outcome `r`.

A `Loop` is a body with a measure that every round decreases.  It always ends,
so `Loop.run` is a total function and `Loop.run_eq` unfolds it without fuel.
`Loop.run_induction` is its induction rule and `Loop.run_post` its invariant
rule, `Loop.run_total` the one of a loop that does not fail.  For a fold these
are `foldlM_invariant` and `foldlM_reads`, and `foldlM_eq_ok_iff` says what a
fold is whose rounds fail on some elements only.  `Loop.run_simulate` relates
two loops whose rounds agree: with the second one reading longer input than the
first, it says that running on the longer input is running on the shorter one
and resuming.
-/

import Mathlib.Data.List.Induction
import Mathlib.Tactic.Common
import Mathlib.Order.Nat

namespace Foundations

universe u

variable {ε σ : Type*} {ρ : Type u}

/-- A computation that returns hands its result on. -/
@[simp] theorem ok_bind {α β : Type u} (a : α) (g : α → Except ε β) :
    (Except.ok a >>= g) = g a := rfl

/-- A computation that fails is the end. -/
@[simp] theorem error_bind {α β : Type u} (e : ε) (g : α → Except ε β) :
    ((Except.error e : Except ε α) >>= g) = .error e := rfl

/-- A sequence returns if both of its parts do. -/
theorem bind_eq_ok {α β : Type u} {x : Except ε α} {g : α → Except ε β} {b : β} :
    x >>= g = .ok b ↔ ∃ a, x = .ok a ∧ g a = .ok b := by
  rcases x with e | a
  · simp
  · simp

/-- What a function is applied to has to be there. -/
theorem map_eq_ok {α β : Type*} {x : Except ε α} {g : α → β} {b : β} :
    x.map g = .ok b ↔ ∃ a, x = .ok a ∧ g a = b := by
  rcases x with e | a
  · simp [Except.map]
  · simp [Except.map]

/-- Renaming the errors keeps the results. -/
theorem mapError_eq_ok {α ε' : Type*} {x : Except ε α} {g : ε → ε'} {a : α} :
    x.mapError g = .ok a ↔ x = .ok a := by
  rcases x with e | b
  · simp [Except.mapError]
  · simp [Except.mapError]

/-- A guard that throws has not thrown. -/
theorem ite_error_eq_ok {α : Type*} {c : Prop} [Decidable c] {e : ε} {x : Except ε α} {a : α} :
    (if c then .error e else x) = .ok a ↔ ¬ c ∧ x = .ok a := by
  split_ifs with h
  · exact iff_of_false (by simp) fun h' => h'.1 h
  · exact (and_iff_right h).symm

/-- **The invariant rule of a fold that may fail.** -/
theorem foldlM_invariant {α : Type*} {τ : Type u} {f : τ → α → Except ε τ} {I : τ → Prop}
    (next : ∀ s a s', I s → f s a = .ok s' → I s') {l : List α} {s s' : τ} (hs : I s)
    (h : l.foldlM f s = .ok s') : I s' := by
  induction l generalizing s with
  | nil =>
      obtain rfl := Except.ok.inj h
      exact hs
  | cons a l ih =>
      rw [List.foldlM_cons] at h
      obtain ⟨s₁, hs₁, h⟩ := bind_eq_ok.1 h
      exact ih (next s a s₁ hs hs₁) h

/-- **The rule of a fold that does not fail,** with an invariant of what it has read. -/
theorem foldlM_reads {α : Type*} {τ : Type u} {f : τ → α → Except ε τ} {I : List α → τ → Prop}
    {l : List α} (next : ∀ p s a, p ++ [a] <+: l → I p s → ∃ s', f s a = .ok s' ∧ I (p ++ [a]) s')
    {s : τ} (hs : I [] s) : ∃ s', l.foldlM f s = .ok s' ∧ I l s' := by
  induction l using List.reverseRecOn with
  | nil => exact ⟨s, rfl, hs⟩
  | append_singleton l a ih =>
      obtain ⟨s₁, hs₁, hI⟩ := ih fun p s b hb => next p s b (hb.trans (List.prefix_append l [a]))
      obtain ⟨s₂, hs₂, hI'⟩ := next l s₁ a List.prefix_rfl hI
      refine ⟨s₂, ?_, hI'⟩
      rw [List.foldlM_append, hs₁, ok_bind, List.foldlM_cons, hs₂]
      rfl

/-- **A fold whose rounds fail on some elements only** fails just if there is one. -/
theorem foldlM_eq_ok_iff {α : Type*} {τ : Type u} {f : τ → α → Except ε τ} {g : τ → α → τ}
    {P : α → Prop} (h : ∀ s a s', f s a = .ok s' ↔ P a ∧ s' = g s a) {l : List α} {s s' : τ} :
    l.foldlM f s = .ok s' ↔ (∀ a ∈ l, P a) ∧ s' = l.foldl g s := by
  induction l generalizing s with
  | nil => simp [pure, Except.pure, eq_comm]
  | cons a l ih =>
      simp [List.foldlM_cons, bind_eq_ok, h, ih, and_assoc]

/-- **Where a fold fails:** the elements before are folded, and the next one fails. -/
theorem foldlM_eq_error {α : Type*} {τ : Type u} {f : τ → α → Except ε τ} {l : List α} {s : τ} {e : ε}
    (h : l.foldlM f s = .error e) :
    ∃ before a after s', l = before ++ a :: after ∧ before.foldlM f s = .ok s' ∧ f s' a = .error e := by
  induction l generalizing s with
  | nil => cases h
  | cons a l ih =>
      rw [List.foldlM_cons] at h
      rcases hs : f s a with e' | s₁
      · rw [hs] at h
        cases h
        exact ⟨[], a, l, s, rfl, rfl, hs⟩
      · rw [hs] at h
        obtain ⟨before, b, after, s', rfl, hbefore, hb⟩ := ih h
        refine ⟨a :: before, b, after, s', rfl, ?_, hb⟩
        rw [List.foldlM_cons, hs]
        exact hbefore

/-- At most `n` rounds of the loop with body `f`; `none` while it still runs. -/
def iterate (f : σ → Except ε (σ ⊕ ρ)) : ℕ → σ → Option (Except ε ρ)
  | 0, _ => none
  | n + 1, s =>
      match f s with
      | .error e => some (.error e)
      | .ok (.inl s') => iterate f n s'
      | .ok (.inr r) => some (.ok r)

/-- The loop with body `f` ends from `s`, with outcome `r`. -/
def Returns (f : σ → Except ε (σ ⊕ ρ)) (s : σ) (r : Except ε ρ) : Prop :=
  ∃ n, iterate f n s = some r

section Partial

variable {f : σ → Except ε (σ ⊕ ρ)} {s s' : σ} {r r' : Except ε ρ}

/-- One round, and the others behind it. -/
theorem iterate_succ (f : σ → Except ε (σ ⊕ ρ)) (n : ℕ) (s : σ) :
    iterate f (n + 1) s =
      match f s with
      | .error e => some (.error e)
      | .ok (.inl s') => iterate f n s'
      | .ok (.inr r) => some (.ok r) := rfl

/-- More rounds do not change an outcome. -/
theorem iterate_mono {n m : ℕ} (hnm : n ≤ m) (h : iterate f n s = some r) :
    iterate f m s = some r := by
  induction n generalizing m s with
  | zero => simp [iterate] at h
  | succ n ih =>
      obtain ⟨m, rfl⟩ : ∃ k, m = k + 1 := ⟨m - 1, by omega⟩
      rw [iterate_succ] at h ⊢
      rcases hf : f s with e | s' | r'
      · simpa [hf] using h
      · rw [hf] at h
        exact ih (by omega) h
      · simpa [hf] using h

/-- A loop has one result. -/
theorem Returns.unique (h : Returns f s r) (h' : Returns f s r') : r = r' := by
  obtain ⟨n, hn⟩ := h
  obtain ⟨m, hm⟩ := h'
  have h₁ := iterate_mono (le_max_left n m) hn
  have h₂ := iterate_mono (le_max_right n m) hm
  exact Option.some.inj (h₁.symm.trans h₂)

/-- A round that fails ends the loop. -/
theorem Returns.of_error {e : ε} (h : f s = .error e) : Returns f s (.error e) :=
  ⟨1, by rw [iterate_succ, h]⟩

/-- So does one that leaves. -/
theorem Returns.of_leave {x : ρ} (h : f s = .ok (.inr x)) : Returns f s (.ok x) :=
  ⟨1, by rw [iterate_succ, h]⟩

/-- One more round in front. -/
theorem returns_iff_of_next (h : f s = .ok (.inl s')) : Returns f s r ↔ Returns f s' r := by
  constructor
  · rintro ⟨_ | n, hn⟩
    · simp [iterate] at hn
    · rw [iterate_succ, h] at hn
      exact ⟨n, hn⟩
  · rintro ⟨n, hn⟩
    exact ⟨n + 1, by rw [iterate_succ, h]; exact hn⟩

/-- **Induction on a run that ends**, with one case for each way a round goes. -/
theorem Returns.induction {motive : σ → Except ε ρ → Prop}
    (error : ∀ s e, f s = .error e → motive s (.error e))
    (leave : ∀ s x, f s = .ok (.inr x) → motive s (.ok x))
    (next : ∀ s s' r, f s = .ok (.inl s') → Returns f s' r → motive s' r → motive s r)
    (h : Returns f s r) : motive s r := by
  obtain ⟨n, hn⟩ := h
  induction n generalizing s with
  | zero => simp [iterate] at hn
  | succ n ih =>
      rw [iterate_succ] at hn
      rcases hf : f s with e | s' | x
      · rw [hf] at hn
        obtain rfl := Option.some.inj hn
        exact error s e hf
      · rw [hf] at hn
        exact next s s' r hf ⟨n, hn⟩ (ih hn)
      · rw [hf] at hn
        obtain rfl := Option.some.inj hn
        exact leave s x hf

end Partial

section Earlier

variable {τ : Type u} {f g : τ → Except ε (τ ⊕ τ)} {s s' : τ}

/-- The loop `f` is the loop `g` that leaves earlier: they go the same way as long
as `f` goes on, and `f` may leave at any point where `g` goes on or leaves. -/
structure Earlier (f g : τ → Except ε (τ ⊕ τ)) : Prop where
  next : ∀ s s', f s = .ok (.inl s') → g s = .ok (.inl s')
  leave : ∀ s x, f s = .ok (.inr x) → x = s
  early : ∀ s s', g s = .ok (.inl s') → f s = .ok (.inl s') ∨ f s = .ok (.inr s)
  late : ∀ s x, g s = .ok (.inr x) → f s = .ok (.inr s)

/-- **A loop resumes where an earlier one left.** -/
theorem Earlier.resume (h : Earlier f g) {r : Except ε τ} (hf : Returns f s (.ok s')) :
    Returns g s' r ↔ Returns g s r := by
  refine Returns.induction (f := f)
    (motive := fun s y => ∀ s', y = .ok s' → (Returns g s' r ↔ Returns g s r))
    (fun _ _ _ _ hy => by cases hy) (fun s x hx s' hy => ?_)
    (fun s s₁ y hs _ ih s' hy => ?_) hf s' rfl
  · cases hy
    rw [h.leave s _ hx]
  · rw [ih s' hy, returns_iff_of_next (h.next s s₁ hs)]

/-- An earlier loop returns where the later one does. -/
theorem Earlier.returns (h : Earlier f g) (hg : Returns g s (.ok s')) :
    ∃ s₁, Returns f s (.ok s₁) := by
  refine Returns.induction (f := g)
    (motive := fun s y => ∀ s', y = .ok s' → ∃ s₁, Returns f s (.ok s₁))
    (fun _ _ _ _ hy => by cases hy) (fun s x hx s' _ => ⟨s, .of_leave (h.late s x hx)⟩)
    (fun s s₁ y hs _ ih s' hy => ?_) hg s' rfl
  rcases h.early s s₁ hs with hf | hf
  · obtain ⟨s₂, hs₂⟩ := ih s' hy
    exact ⟨s₂, (returns_iff_of_next hf).2 hs₂⟩
  · exact ⟨s, .of_leave hf⟩

end Earlier

/-- A loop body with a measure that every round decreases. -/
structure Loop (ε σ : Type*) (ρ : Type u) where
  step : σ → Except ε (σ ⊕ ρ)
  measure : σ → ℕ
  decreases : ∀ {s s'}, step s = .ok (.inl s') → measure s' < measure s

namespace Loop

variable (L : Loop ε σ ρ)

/-- As many rounds as the measure says are enough. -/
theorem isSome_iterate {n : ℕ} {s : σ} (h : L.measure s < n) : (iterate L.step n s).isSome := by
  induction n generalizing s with
  | zero => omega
  | succ n ih =>
      rw [iterate_succ]
      rcases hf : L.step s with e | s' | r
      · rfl
      · exact ih (by have := L.decreases hf; omega)
      · rfl

/-- The outcome of the loop. -/
def run (s : σ) : Except ε ρ :=
  (iterate L.step (L.measure s + 1) s).get (L.isSome_iterate (Nat.lt_succ_self _))

/-- `run` is the result of the loop. -/
theorem returns_run (s : σ) : Returns L.step s (L.run s) :=
  ⟨_, (Option.some_get _).symm⟩

/-- It is the only one. -/
theorem run_eq_iff {s : σ} {r : Except ε ρ} : L.run s = r ↔ Returns L.step s r :=
  ⟨fun h => h ▸ L.returns_run s, fun h => (L.returns_run s).unique h⟩

variable {L} {s s' : σ}

/-- A loop whose next round fails. -/
theorem run_of_error {e : ε} (h : L.step s = .error e) : L.run s = .error e :=
  L.run_eq_iff.2 (.of_error h)

/-- A loop whose next round leaves. -/
theorem run_of_leave {x : ρ} (h : L.step s = .ok (.inr x)) : L.run s = .ok x :=
  L.run_eq_iff.2 (.of_leave h)

/-- A loop whose next round goes on. -/
theorem run_of_next (h : L.step s = .ok (.inl s')) : L.run s = L.run s' :=
  L.run_eq_iff.2 ((returns_iff_of_next h).2 (L.returns_run s'))

/-- **The loop unfolds by one round.** -/
theorem run_eq (s : σ) :
    L.run s =
      match L.step s with
      | .error e => .error e
      | .ok (.inl s') => L.run s'
      | .ok (.inr x) => .ok x := by
  rcases h : L.step s with e | s' | x
  · exact run_of_error h
  · exact run_of_next h
  · exact run_of_leave h

/-- Two states with the same first round have the same run. -/
theorem run_congr (h : L.step s = L.step s') : L.run s = L.run s' := by
  rw [run_eq s, run_eq s', h]

/-- **Induction on the run**, with one case for each way a round goes. -/
theorem run_induction {motive : σ → Except ε ρ → Prop}
    (error : ∀ s e, L.step s = .error e → motive s (.error e))
    (leave : ∀ s x, L.step s = .ok (.inr x) → motive s (.ok x))
    (next : ∀ s s', L.step s = .ok (.inl s') → motive s' (L.run s') → motive s (L.run s'))
    (s : σ) : motive s (L.run s) := by
  refine (L.returns_run s).induction error leave fun s s' r h hr ih => ?_
  obtain rfl := L.run_eq_iff.2 hr
  exact next s s' h ih

/-- **The invariant rule:** an invariant of the rounds that gives the
postcondition where the loop leaves gives it for the run. -/
theorem run_post {I : σ → Prop} {Q : ρ → Prop}
    (next : ∀ s s', I s → L.step s = .ok (.inl s') → I s')
    (leave : ∀ s x, I s → L.step s = .ok (.inr x) → Q x)
    {s : σ} (hs : I s) {x : ρ} (h : L.run s = .ok x) : Q x := by
  refine L.run_induction (motive := fun s r => I s → r = .ok x → Q x)
    (fun _ _ _ _ hr => by cases hr) (fun s y hy hs hr => ?_)
    (fun s s' hs' ih hs hr => ih (next s s' hs hs') hr) s hs h
  cases hr
  exact leave s _ hs hy

/-- **The invariant rule of a loop that does not fail:** from the invariant, a round
leaves with the postcondition or goes on with the invariant. -/
theorem run_total {I : σ → Prop} {Q : ρ → Prop}
    (round : ∀ s, I s → (∃ x, L.step s = .ok (.inr x) ∧ Q x) ∨
      ∃ s', L.step s = .ok (.inl s') ∧ I s')
    {s : σ} (hs : I s) : ∃ x, L.run s = .ok x ∧ Q x := by
  refine L.run_induction (motive := fun s r => I s → ∃ x, r = .ok x ∧ Q x)
    (fun s e he hs => ?_) (fun s x hx hs => ?_) (fun s s' hs' ih hs => ?_) s hs
  · rcases round s hs with ⟨x, hx, -⟩ | ⟨s', hs', -⟩
    · cases he.symm.trans hx
    · cases he.symm.trans hs'
  · rcases round s hs with ⟨y, hy, hQ⟩ | ⟨s', hs', -⟩
    · obtain rfl := Sum.inr.inj (Except.ok.inj (hx.symm.trans hy))
      exact ⟨x, rfl, hQ⟩
    · cases hx.symm.trans hs'
  · rcases round s hs with ⟨x, hx, -⟩ | ⟨s₁, hs₁, hI⟩
    · cases hs'.symm.trans hx
    · obtain rfl := Sum.inl.inj (Except.ok.inj (hs'.symm.trans hs₁))
      exact ih hI

/-- **Simulation.**  `F` takes the states of `L` to states of `M`.  If on
the states that satisfy `I` a round of `L` that fails or goes on is also a
round of `M`, and where `L` leaves with `x` the run of `M` is `resume x`, then
the run of `M` is the run of `L` followed by `resume`.

For a loop that reads input, with `F` appending the input that is still
missing, this says that running on the longer input is running on the shorter
one and resuming. -/
theorem run_simulate {σ' : Type*} {ρ' : Type u} {M : Loop ε σ' ρ'} {I : σ → Prop}
    {F : σ → σ'} {resume : ρ → Except ε ρ'}
    (error : ∀ s e, I s → L.step s = .error e → M.step (F s) = .error e)
    (next : ∀ s s', I s → L.step s = .ok (.inl s') →
      I s' ∧ M.step (F s) = .ok (.inl (F s')))
    (leave : ∀ s x, I s → L.step s = .ok (.inr x) → M.run (F s) = resume x)
    {s : σ} (hs : I s) : M.run (F s) = L.run s >>= resume := by
  refine L.run_induction (motive := fun s r => I s → M.run (F s) = r >>= resume)
    (fun s e he hs => run_of_error (error s e hs he)) (fun s x hx hs => leave s x hs hx)
    (fun s s' h ih hs => ?_) s hs
  obtain ⟨hs', hM⟩ := next s s' hs h
  rw [run_of_next hM, ih hs']

end Loop

end Foundations
