/-
# Reading a stream in pieces

A reader takes its input in pieces: `feed s piece` is its state after one more
piece, or a failure.  It does not see where the input was cut if feeding two
pieces one after the other is feeding them as one (`Seamless`).  Then every cut
of a stream into nonempty pieces of bounded length leads where the cut into
single elements leads (`Seamless.foldlM_eq`), so any two cuts lead to the same
outcome (`Seamless.foldlM_congr`).

The bound is there for readers that are seamless only on pieces of bounded
length; `inv` holds of the states between two pieces.
-/

import V2Proxy.Foundations.Loop

namespace Foundations

variable {ε β : Type*} {σ : Type u}

/-- On the states that satisfy `inv`, feeding `a ++ b` of at most `bound`
elements is feeding `a` and then `b`. -/
structure Seamless (feed : σ → List β → Except ε σ) (inv : σ → Prop) (bound : ℕ) : Prop where
  keep : ∀ {s s' piece}, inv s → piece.length ≤ bound → feed s piece = .ok s' → inv s'
  append : ∀ {s a b}, inv s → (a ++ b).length ≤ bound →
    feed s (a ++ b) = feed s a >>= fun s' => feed s' b

namespace Seamless

variable {feed : σ → List β → Except ε σ} {inv : σ → Prop} {bound : ℕ} {s : σ}

/-- One nonempty piece is its elements one by one. -/
theorem feed_eq_foldlM (h : Seamless feed inv bound) (hs : inv s) {piece : List β}
    (hne : piece ≠ []) (hlen : piece.length ≤ bound) :
    feed s piece = piece.foldlM (fun s x => feed s [x]) s := by
  induction piece generalizing s with
  | nil => exact absurd rfl hne
  | cons x piece ih =>
      rw [List.foldlM_cons]
      rcases eq_or_ne piece [] with rfl | hp
      · rcases feed s [x] with e | s' <;> rfl
      · have hx : [x].length ≤ bound := le_trans (by simp) hlen
        rw [← List.singleton_append, h.append hs (by simpa using hlen)]
        rcases hf : feed s [x] with e | s'
        · rfl
        · exact ih (h.keep hs hx hf) hp (le_trans (by simp) hlen)

/-- **A cut does not matter:** it leads where the cut into single elements
leads. -/
theorem foldlM_eq (h : Seamless feed inv bound) (hs : inv s) {pieces : List (List β)}
    (hp : ∀ p ∈ pieces, p ≠ [] ∧ p.length ≤ bound) :
    pieces.foldlM feed s = pieces.flatten.foldlM (fun s x => feed s [x]) s := by
  induction pieces generalizing s with
  | nil => rfl
  | cons p pieces ih =>
      obtain ⟨hne, hlen⟩ := hp p (by simp)
      rw [List.foldlM_cons, List.flatten_cons, List.foldlM_append,
        ← h.feed_eq_foldlM hs hne hlen]
      rcases hf : feed s p with e | s'
      · rfl
      · exact ih (h.keep hs hlen hf) fun q hq => hp q (by simp [hq])

/-- **Two cuts of one stream lead to the same outcome.** -/
theorem foldlM_congr (h : Seamless feed inv bound) (hs : inv s) {pieces pieces' : List (List β)}
    (hp : ∀ p ∈ pieces, p ≠ [] ∧ p.length ≤ bound)
    (hp' : ∀ p ∈ pieces', p ≠ [] ∧ p.length ≤ bound)
    (heq : pieces.flatten = pieces'.flatten) : pieces.foldlM feed s = pieces'.foldlM feed s := by
  rw [h.foldlM_eq hs hp, h.foldlM_eq hs hp', heq]

end Seamless

end Foundations
