/-
# The packets in a link can be delivered

The inner loop of `LinkQueue::rationalize` asserts that the packet in transit has
arrived, fits into an opportunity and is not used up.  `Deliverable` is what the
link keeps so that no assertion fails (`sendLoop_ok`); the inner loop also leaves
the place of the link in its schedule alone (`SamePlace`).
-/

import V2Proxy.Frontend.LinkQueue

namespace V2Proxy

open Foundations

/-- The time that the line of an opportunity records. -/
def LogEvent.deliveryTime : LogEvent → Option ℕ
  | .opportunity time _ => some time
  | _ => none

namespace LinkQueue

/-- The delivery times that have been consumed. -/
def consumed (l : LinkQueue) : List ℕ := l.log.filterMap LogEvent.deliveryTime

/-- The packets in the link pass the assertions at an opportunity at `t`. -/
structure Deliverable (l : LinkQueue) (t : ℕ) : Prop where
  sound : l.packetQueue.Sound
  packets : ∀ p ∈ l.packetQueue.packets,
    p.arrivalTime ≤ t ∧ 0 < p.contents.length ∧ p.contents.length ≤ PACKET_SIZE
  inTransit : l.packetInTransitBytesLeft ≠ 0 → l.InTransit t

variable {l l' : LinkQueue} {t t' : ℕ}

/-- A later opportunity is as good. -/
theorem Deliverable.mono (h : l.Deliverable t) (hle : t ≤ t') : l.Deliverable t' := by
  refine ⟨h.sound, fun p hp => ?_, fun hleft => ?_⟩
  · obtain ⟨harrival, hpos, hsize⟩ := h.packets p hp
    exact ⟨harrival.trans hle, hpos, hsize⟩
  · obtain ⟨harrived, hfits, hpos, hsize⟩ := h.inTransit hleft
    exact ⟨harrived.trans hle, hfits, hpos, hsize⟩

/-- `l'` is at the same place of the schedule as `l`. -/
structure SamePlace (l l' : LinkQueue) : Prop where
  nextDelivery : l'.nextDelivery = l.nextDelivery
  schedule : l'.schedule = l.schedule
  baseTimestamp : l'.baseTimestamp = l.baseTimestamp
  repeats : l'.repeats = l.repeats
  finished : l'.finished = l.finished
  consumed : l'.consumed = l.consumed

theorem SamePlace.refl (l : LinkQueue) : SamePlace l l := ⟨rfl, rfl, rfl, rfl, rfl, rfl⟩

theorem SamePlace.trans {l'' : LinkQueue} (h : SamePlace l l') (h' : SamePlace l' l'') :
    SamePlace l l'' :=
  ⟨h'.1.trans h.1, h'.2.trans h.2, h'.3.trans h.3, h'.4.trans h.4, h'.5.trans h.5, h'.6.trans h.6⟩

/-- The next delivery depends on the place alone. -/
theorem SamePlace.nextDeliveryTime (h : SamePlace l l') :
    l'.nextDeliveryTime = l.nextDeliveryTime := by
  unfold LinkQueue.nextDeliveryTime
  rw [h.finished, h.schedule, h.nextDelivery, h.baseTimestamp]

/-- Loading a packet does not touch the schedule. -/
theorem Loaded.samePlace (h : Loaded l l') : SamePlace l l' := by
  cases h with
  | inTransit _ => exact .refl l
  | next _ _ => exact ⟨rfl, rfl, rfl, rfl, rfl, rfl⟩

/-- Nor does sending bytes. -/
theorem transmit_samePlace (t bytesLeft : ℕ) (l : LinkQueue) :
    SamePlace l (transmit t bytesLeft l).2 := by
  simp only [transmit]
  split_ifs
  · refine ⟨rfl, rfl, rfl, rfl, rfl, ?_⟩
    simp [consumed, depart, recordDeparture, LogEvent.deliveryTime]
  · exact ⟨rfl, rfl, rfl, rfl, rfl, rfl⟩

/-- **The inner loop stays at the same place of the schedule.** -/
theorem sendLoop_samePlace {s s' : ℕ × LinkQueue} (h : (sendLoop t).run s = .ok s') :
    SamePlace s.2 s'.2 := by
  refine Loop.run_post (L := sendLoop t) (I := fun s₁ => SamePlace s.2 s₁.2)
    (Q := fun s₁ => SamePlace s.2 s₁.2) (fun s₁ s₂ hs₁ hnext => ?_) (fun s₁ s₂ hs₁ hleave => ?_)
    (.refl _) h
  · obtain ⟨-, l, hload, -, rfl⟩ := sendStep_next hnext
    exact (hs₁.trans hload.samePlace).trans (transmit_samePlace t s₁.1 l)
  · rwa [(sendStep_leave hleave).1]

/-- What is left of the packet can be delivered later. -/
theorem transmit_deliverable (bytesLeft : ℕ) (hl : l.Deliverable t) (ht : l.InTransit t) :
    (transmit t bytesLeft l).2.Deliverable t ∧ SamePlace l (transmit t bytesLeft l).2 := by
  refine ⟨?_, transmit_samePlace t bytesLeft l⟩
  simp only [transmit]
  split_ifs with hdone
  · exact ⟨hl.sound, hl.packets, fun hleft => absurd rfl hleft⟩
  · refine ⟨hl.sound, hl.packets, fun _ => ?_⟩
    obtain ⟨harrived, hfits, -, hsize⟩ := ht
    exact ⟨harrived, (Nat.sub_le _ _).trans hfits, Nat.pos_of_ne_zero hdone,
      (Nat.sub_le _ _).trans hsize⟩

/-- **A packet that is loaded passes the assertions,** and the packets behind it can still be
delivered. -/
theorem Loaded.deliverable (h : Loaded l l') (hl : l.Deliverable t) :
    l'.Deliverable t ∧ l'.InTransit t := by
  cases h with
  | inTransit hleft => exact ⟨hl, hl.inTransit hleft⟩
  | @next p q hleft hq =>
      have hne : l.packetQueue.packets ≠ [] := fun hnil => by
        have hsub := AbstractPacketQueue.dequeue_sublist hq
        rw [hnil] at hsub
        exact List.cons_ne_nil _ _ (List.sublist_nil.1 hsub)
      obtain ⟨p', q', hq', hsound⟩ := hl.sound.dequeue hne
      rw [hq] at hq'
      cases hq'
      have hsub := (AbstractPacketQueue.dequeue_sublist hq).subset
      obtain ⟨harrived, hpos, hsize⟩ := hl.packets p (hsub List.mem_cons_self)
      have hbytes : p.contents.length % 2 ^ 32 = p.contents.length :=
        Nat.mod_eq_of_lt (by unfold PACKET_SIZE at hsize; omega)
      have hload : (l.load p q).InTransit t :=
        ⟨harrived, hbytes.trans_le hsize, hpos.trans_eq hbytes.symm, hbytes.le⟩
      exact ⟨⟨hsound, fun p' hp' => hl.packets p' (hsub (List.mem_cons_of_mem _ hp')),
        fun _ => hload⟩, hload⟩

/-- **No assertion of the inner loop fails.** -/
theorem sendStep_ok {s : ℕ × LinkQueue} (hl : s.2.Deliverable t) :
    sendStep t s = .ok (.inr s) ∨
      ∃ s', sendStep t s = .ok (.inl s') ∧ s'.2.Deliverable t ∧ SamePlace s.2 s'.2 := by
  have hsends : ∀ l, Loaded s.2 l → l.assertInTransit t = .ok () ∧
      (transmit t s.1 l).2.Deliverable t ∧ SamePlace s.2 (transmit t s.1 l).2 := by
    intro l hload
    obtain ⟨hdeliverable, hin⟩ := hload.deliverable hl
    obtain ⟨h₁, h₂⟩ := transmit_deliverable s.1 hdeliverable hin
    exact ⟨assertInTransit_eq_ok.2 hin, h₁, hload.samePlace.trans h₂⟩
  rw [sendStep]
  by_cases hbytes : s.1 = 0
  · rw [if_pos hbytes]
    exact Or.inl rfl
  · rw [if_neg hbytes]
    by_cases hleft : s.2.packetInTransitBytesLeft = 0
    · rw [if_pos hleft]
      by_cases hempty : s.2.packetQueue.packets = []
      · have hq : s.2.packetQueue.empty = true := decide_eq_true hempty
        rw [if_pos hq]
        exact Or.inl rfl
      · have hq : ¬s.2.packetQueue.empty = true := fun h => hempty (of_decide_eq_true h)
        rw [if_neg hq]
        obtain ⟨p, q, hq, -⟩ := hl.sound.dequeue hempty
        obtain ⟨hassert, h₁, h₂⟩ := hsends _ (.next hleft hq)
        rw [hq, ok_bind]
        dsimp only
        rw [hassert, ok_bind]
        exact Or.inr ⟨_, rfl, h₁, h₂⟩
    · obtain ⟨hassert, h₁, h₂⟩ := hsends _ (.inTransit hleft)
      rw [if_neg hleft, hassert, ok_bind]
      exact Or.inr ⟨_, rfl, h₁, h₂⟩

theorem sendLoop_ok {s : ℕ × LinkQueue} (hl : s.2.Deliverable t) :
    ∃ s', (sendLoop t).run s = .ok s' ∧ s'.2.Deliverable t ∧ SamePlace s.2 s'.2 := by
  refine Loop.run_total (I := fun s' => s'.2.Deliverable t ∧ SamePlace s.2 s'.2)
    (fun s₁ hs₁ => ?_) ⟨hl, .refl _⟩
  rcases sendStep_ok hs₁.1 with h | ⟨s₂, h, hs₂, hplace⟩
  · exact Or.inl ⟨s₁, h, hs₁⟩
  · exact Or.inr ⟨s₂, h, hs₂, hs₁.2.trans hplace⟩

end LinkQueue

end V2Proxy
