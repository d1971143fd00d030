/-
# The least time to get through

A link lets packets in at one time and out at another one.  A message that is made at
time `t` gets through with a packet that comes in at `t` or later, and `waits ps t` are
the times that it may take.

On a link that keeps the order (`Fifo`) the least of them is found without looking
further than needed: it is the least delay of the packets that come in at `t`, if there
are any (`Fifo.isLeast_waits`), and otherwise one waits for the next packet to come in
(`isLeast_waits_of_gap`).
-/

import Mathlib.Algebra.Order.Group.Defs
import Mathlib.Order.Bounds.Basic
import Mathlib.Tactic.Abel

namespace Foundations

/-- A packet goes in and out. -/
structure Passage (T : Type*) where
  arrival : T
  departure : T
  deriving DecidableEq

variable {T : Type*} [AddCommGroup T] [LinearOrder T] [IsOrderedAddMonoid T]
  {ps : List (Passage T)} {t d : T}

/-- A packet that comes in earlier does not go out later. -/
def Fifo (ps : List (Passage T)) : Prop :=
  ∀ p ∈ ps, ∀ q ∈ ps, p.arrival < q.arrival → p.departure ≤ q.departure

omit [AddCommGroup T] [IsOrderedAddMonoid T] in
/-- Packets that come in and go out one after another. -/
theorem Fifo.of_pairwise (harrival : ps.Pairwise fun p q => p.arrival ≤ q.arrival)
    (hdeparture : ps.Pairwise fun p q => p.departure ≤ q.departure) : Fifo ps := by
  intro p hp q hq hlt
  obtain ⟨i, hi, rfl⟩ := List.getElem_of_mem hp
  obtain ⟨j, hj, rfl⟩ := List.getElem_of_mem hq
  rcases lt_trichotomy i j with hij | rfl | hji
  · exact List.pairwise_iff_getElem.1 hdeparture i j hi hj hij
  · exact le_rfl
  · exact absurd hlt (List.pairwise_iff_getElem.1 harrival j i hj hi hji).not_gt

/-- The delays of the packets that come in at a time. -/
def delaysAt (ps : List (Passage T)) (t : T) : Set T :=
  {x | ∃ p ∈ ps, p.arrival = t ∧ x = p.departure - t}

/-- The times that a message made at `t` may take. -/
def waits (ps : List (Passage T)) (t : T) : Set T :=
  {x | ∃ p ∈ ps, t ≤ p.arrival ∧ x = p.departure - t}

omit [LinearOrder T] [IsOrderedAddMonoid T] in
/-- One more packet at a time. -/
theorem delaysAt_concat_self (ps : List (Passage T)) (p : Passage T) :
    delaysAt (ps ++ [p]) p.arrival = insert (p.departure - p.arrival) (delaysAt ps p.arrival) := by
  ext x
  simp only [delaysAt, List.mem_append, List.mem_singleton, Set.mem_ofPred_eq, Set.mem_insert_iff]
  constructor
  · rintro ⟨q, hq | rfl, hat, rfl⟩
    · exact Or.inr ⟨q, hq, hat, rfl⟩
    · exact Or.inl rfl
  · rintro (rfl | ⟨q, hq, hat, rfl⟩)
    · exact ⟨p, Or.inr rfl, rfl, rfl⟩
    · exact ⟨q, Or.inl hq, hat, rfl⟩

omit [LinearOrder T] [IsOrderedAddMonoid T] in
/-- One more packet at another time. -/
theorem delaysAt_concat_of_ne {p : Passage T} (h : p.arrival ≠ t) :
    delaysAt (ps ++ [p]) t = delaysAt ps t := by
  ext x
  simp only [delaysAt, List.mem_append, List.mem_singleton, Set.mem_ofPred_eq]
  constructor
  · rintro ⟨q, hq | rfl, hat, rfl⟩
    · exact ⟨q, hq, hat, rfl⟩
    · exact absurd hat h
  · rintro ⟨q, hq, hat, rfl⟩
    exact ⟨q, Or.inl hq, hat, rfl⟩

/-- **Where packets come in, the least delay is the least time,** if the order is kept. -/
theorem Fifo.isLeast_waits (h : Fifo ps) (hd : IsLeast (delaysAt ps t) d) :
    IsLeast (waits ps t) d := by
  obtain ⟨⟨p, hp, hat, rfl⟩, hleast⟩ := hd
  refine ⟨⟨p, hp, hat.ge, rfl⟩, ?_⟩
  rintro x ⟨q, hq, hle, rfl⟩
  rcases hle.eq_or_lt with hsame | hlater
  · exact hleast ⟨q, hq, hsame.symm, rfl⟩
  · exact sub_le_sub_right (h p hp q hq (hat ▸ hlater)) t

/-- **Where none comes in, one waits for the next one.** -/
theorem isLeast_waits_of_gap {u : T} (htu : t ≤ u)
    (hgap : ∀ p ∈ ps, t ≤ p.arrival → u ≤ p.arrival) (hd : IsLeast (waits ps u) d) :
    IsLeast (waits ps t) (d + (u - t)) := by
  obtain ⟨⟨p, hp, hle, rfl⟩, hleast⟩ := hd
  refine ⟨⟨p, hp, htu.trans hle, by abel⟩, ?_⟩
  rintro x ⟨q, hq, hq_le, rfl⟩
  have hq_least := hleast ⟨q, hq, hgap q hq hq_le, rfl⟩
  calc p.departure - u + (u - t) ≤ q.departure - u + (u - t) := add_le_add_left hq_least (u - t)
    _ = q.departure - t := by abel

end Foundations
