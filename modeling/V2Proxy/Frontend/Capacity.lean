/-
# The rate of a link

An opportunity of `LinkQueue::rationalize` has a budget of 1504 bytes, and a
packet in transit has bytes left to send; both are counted down together.
`sent` adds up what has left the packet queue: the packets that are ready, and
the bytes of the packet in transit that have been transmitted.  A round of the
inner loop moves bytes from the budget to `sent` (`transmit_sent`), so an
opportunity is spent in full unless the link runs dry (`rationalizeStep_sent`).

Both hold in the middle of a call too: `Rounds` are rounds of the outer loop.
-/

import V2Proxy.Frontend.Link
import Mathlib.Logic.Relation

namespace V2Proxy

open Foundations

/-- The lines of the opportunities. -/
def LogEvent.isOpportunity : LogEvent → Bool
  | .opportunity _ _ => true
  | _ => false

namespace LinkQueue

/-- The delivery opportunities that have been used. -/
def opportunities (l : LinkQueue) : ℕ := (l.log.filter LogEvent.isOpportunity).length

/-- The bytes of packets that have been fully sent and wait to be written. -/
def ready (l : LinkQueue) : ℕ := (l.outputQueue.map List.length).sum

/-- The bytes of the packet in transit that have been sent. -/
def transmitted (l : LinkQueue) : ℕ :=
  if l.packetInTransitBytesLeft = 0 then 0
  else l.packetInTransit.contents.length - l.packetInTransitBytesLeft

/-- The bytes that have been sent and wait to be written, or are in transit. -/
def sent (l : LinkQueue) : ℕ := l.ready + l.transmitted

/-- Every packet fits into an opportunity, and the packet in transit has no more
bytes left than it has. -/
structure Fits (l : LinkQueue) : Prop where
  packets : ∀ p ∈ l.packetQueue.packets, p.contents.length ≤ PACKET_SIZE
  left : l.packetInTransitBytesLeft ≤ l.packetInTransit.contents.length

/-- Rounds of the outer loop of `rationalize`. -/
def Rounds (now : ℕ) : LinkQueue → LinkQueue → Prop :=
  Relation.ReflTransGen fun l l' => rationalizeStep now l = .ok (.inl l')

variable {l l' : LinkQueue} {t : ℕ}

theorem opportunities_record (l : LinkQueue) (t : ℕ) :
    (l.recordOpportunity t).opportunities = l.opportunities + 1 := by
  rw [opportunities, recordOpportunity, List.filter_append, List.length_append]
  rfl

/-- Loading a packet sends nothing. -/
theorem Loaded.sent (h : Loaded l l') (hl : l.Fits) :
    l'.Fits ∧ l'.sent = l.sent ∧ l'.opportunities = l.opportunities := by
  cases h with
  | inTransit hleft => exact ⟨hl, rfl, rfl⟩
  | next hleft hq =>
      rename_i p q
      have hsub := (AbstractPacketQueue.dequeue_sublist hq).subset
      have hp : p.contents.length ≤ PACKET_SIZE := hl.packets p (hsub List.mem_cons_self)
      have hbytes : p.contents.length % 2 ^ 32 = p.contents.length :=
        Nat.mod_eq_of_lt (by unfold PACKET_SIZE at hp; omega)
      refine ⟨⟨fun p' hp' => hl.packets p' (hsub (List.mem_cons_of_mem _ hp')), ?_⟩, ?_, rfl⟩
      · exact hbytes.le
      · have htransmitted : l.transmitted = 0 := if_pos hleft
        have htransmitted' : (l.load p q).transmitted = 0 := by
          unfold transmitted
          split_ifs
          · rfl
          · exact Nat.sub_eq_zero_of_le hbytes.ge
        rw [LinkQueue.sent, LinkQueue.sent, htransmitted, htransmitted']
        rfl

/-- **Bytes move from the budget of the opportunity to the packet.** -/
theorem transmit_sent (bytesLeft : ℕ) (ht : l.InTransit t) (hl : l.Fits) :
    (transmit t bytesLeft l).2.Fits ∧
      (transmit t bytesLeft l).2.sent + (transmit t bytesLeft l).1 = l.sent + bytesLeft ∧
      (transmit t bytesLeft l).2.opportunities = l.opportunities := by
  have hpos := ht.pos
  have hleft := ht.le_size
  have htransmitted : l.transmitted =
      l.packetInTransit.contents.length - l.packetInTransitBytesLeft := if_neg hpos.ne'
  simp only [transmit]
  split_ifs with hdone
  · have hready : (l.depart t).ready = l.ready + l.packetInTransit.contents.length := by
      simp [ready, depart]
    have hdeparted : (l.depart t).transmitted = 0 := if_pos rfl
    refine ⟨⟨hl.packets, Nat.zero_le _⟩, ?_, ?_⟩
    · rw [sent, sent, hready, hdeparted, htransmitted]
      omega
    · simp [opportunities, depart, recordDeparture, LogEvent.isOpportunity]
  · refine ⟨⟨hl.packets, ?_⟩, ?_, rfl⟩
    · change l.packetInTransitBytesLeft - _ ≤ l.packetInTransit.contents.length
      omega
    · rw [sent, sent, htransmitted, transmitted, if_neg hdone]
      change l.ready + (l.packetInTransit.contents.length - (l.packetInTransitBytesLeft - _)) + _ = _
      omega

/-- The link has nothing to send. -/
def RunsDry (l : LinkQueue) : Prop :=
  l.packetInTransitBytesLeft = 0 ∧ l.packetQueue.packets = []

theorem sendLoop_sent {s s' : ℕ × LinkQueue} (hl : s.2.Fits) (h : (sendLoop t).run s = .ok s') :
    s'.2.Fits ∧ s'.2.sent + s'.1 = s.2.sent + s.1 ∧ s'.2.opportunities = s.2.opportunities ∧
      (s'.1 = 0 ∨ s'.2.RunsDry) := by
  refine Loop.run_post (L := sendLoop t)
    (I := fun s₁ => s₁.2.Fits ∧ s₁.2.sent + s₁.1 = s.2.sent + s.1 ∧
      s₁.2.opportunities = s.2.opportunities)
    (Q := fun s₁ => s₁.2.Fits ∧ s₁.2.sent + s₁.1 = s.2.sent + s.1 ∧
      s₁.2.opportunities = s.2.opportunities ∧ (s₁.1 = 0 ∨ s₁.2.RunsDry))
    (fun s₁ s₂ hs₁ hnext => ?_) (fun s₁ s₂ hs₁ hleave => ?_) ⟨hl, rfl, rfl⟩ h
  · obtain ⟨hfits, hsent, hopp⟩ := hs₁
    obtain ⟨-, l₁, hload, hl₁, rfl⟩ := sendStep_next hnext
    obtain ⟨hfits', hsent', hopp'⟩ := hload.sent hfits
    obtain ⟨hfits'', hsent'', hopp''⟩ := transmit_sent s₁.1 hl₁ hfits'
    exact ⟨hfits'', by rw [hsent'', hsent', hsent], by rw [hopp'', hopp', hopp]⟩
  · obtain ⟨rfl, hend⟩ := sendStep_leave hleave
    exact ⟨hs₁.1, hs₁.2.1, hs₁.2.2, hend⟩

/-- **An opportunity is spent in full, unless the link runs dry.** -/
theorem rationalizeStep_sent {now : ℕ} (hl : l.Fits) (h : rationalizeStep now l = .ok (.inl l')) :
    l'.Fits ∧ l'.opportunities = l.opportunities + 1 ∧ l'.sent ≤ l.sent + PACKET_SIZE ∧
      (l'.sent = l.sent + PACKET_SIZE ∨ l'.RunsDry) := by
  obtain ⟨t, n, -, -, hrun⟩ := rationalizeStep_next h
  obtain ⟨_, _, _, hadvance⟩ := (l.recordOpportunity t).advance_eq
  rw [hadvance] at hrun
  obtain ⟨hfits, hsent, hopp, hend⟩ := sendLoop_sent ⟨hl.packets, hl.left⟩ hrun
  change l'.sent + n = l.sent + PACKET_SIZE at hsent
  refine ⟨hfits, hopp.trans (l.opportunities_record t), by omega, ?_⟩
  rcases hend with hend | hend
  · change n = 0 at hend
    exact Or.inl (by omega)
  · exact Or.inr hend

end LinkQueue

namespace Link

open LinkQueue

/-- The bytes of the packets that have been written. -/
def writtenBytes (k : Link) : ℕ := (k.written.map List.length).sum

/-- What has been sent is within the opportunities used. -/
structure WithinRate (k : Link) : Prop where
  fits : k.queue.Fits
  rate : k.writtenBytes + k.queue.sent ≤ PACKET_SIZE * k.queue.opportunities

variable {k k' : Link}

theorem WithinRate.round {now : ℕ} {l : LinkQueue} (h : k.WithinRate)
    (hl : rationalizeStep now k.queue = .ok (.inl l)) : WithinRate { k with queue := l } := by
  obtain ⟨hfits, hopp, hsent, -⟩ := rationalizeStep_sent h.fits hl
  have hrate := h.rate
  refine ⟨hfits, ?_⟩
  change k.writtenBytes + l.sent ≤ PACKET_SIZE * l.opportunities
  rw [hopp, Nat.mul_add, Nat.mul_one]
  omega

theorem WithinRate.rationalizes {now : ℕ} {l : LinkQueue} (h : k.WithinRate)
    (hl : k.queue.Rationalizes now l) : WithinRate { k with queue := l } :=
  hl.invariant (I := fun l => WithinRate { k with queue := l })
    (fun _ _ hl₁ hnext => hl₁.round hnext) h

/-- **Every call stays within the rate.** -/
theorem WithinRate.step {c : Call} (h : k.WithinRate) (hstep : Step k c k') : k'.WithinRate := by
  cases hstep with
  | @readPacket contents now l _ hsize hrat haccept =>
      have hk := h.rationalizes hrat
      obtain ⟨q, hq, rfl⟩ := acceptPacket_eq_ok haccept
      have hopp : (l.recordArrival now contents.length).opportunities = l.opportunities := by
        simp [opportunities, recordArrival, LogEvent.isOpportunity]
      refine ⟨⟨fun p hp => ?_, hk.fits.left⟩, ?_⟩
      · rcases List.mem_append.1 ((AbstractPacketQueue.enqueue_sublist hq).subset hp) with hp | hp
        · exact hk.fits.packets p hp
        · rw [List.mem_singleton.1 hp]
          exact hsize
      · change k.writtenBytes + l.sent ≤
          PACKET_SIZE * (l.recordArrival now contents.length).opportunities
        rw [hopp]
        exact hk.rate
  | waitTime hrat _ => exact h.rationalizes hrat
  | writePackets =>
      refine ⟨⟨h.fits.packets, h.fits.left⟩, ?_⟩
      have hwritten : writtenBytes { k with
          queue := k.queue.writePackets.2
          written := k.written ++ k.queue.writePackets.1 } = k.writtenBytes + k.queue.ready := by
        simp [writtenBytes, LinkQueue.writePackets, ready]
      rw [hwritten]
      have hrate := h.rate
      rw [sent] at hrate
      change k.writtenBytes + k.queue.ready + (0 + k.queue.transmitted) ≤ _
      rw [Nat.zero_add, Nat.add_assoc]
      exact hrate

theorem WithinRate.start {type args filename trace : Bytes} {repeats : Bool} {timestamp : ℕ}
    {clock : Stream' ℕ} {draws : Stream' Float}
    (h : Link.start type args filename trace repeats timestamp clock draws = .ok k) :
    k.WithinRate := by
  obtain ⟨schedule, q, -, hpackets, -, -, rfl⟩ := start_eq_ok h
  refine ⟨⟨fun p hp => ?_, Nat.le_refl _⟩, Nat.le_refl _⟩
  change p ∈ q.packets at hp
  rw [hpackets] at hp
  cases hp

/-- **The link keeps the rate of its trace.**  At every point of a run, in the
middle of a call too, the packets that have been fully sent and the transmitted
bytes of the packet in transit are within 1504 bytes for each opportunity used;
and an opportunity transmits exactly 1504 bytes, or ends with nothing queued and
nothing in transit. -/
theorem rate_of_trace {type args filename trace : Bytes} {repeats : Bool} {timestamp now : ℕ}
    {clock : Stream' ℕ} {draws : Stream' Float} {calls : List Call} {l : LinkQueue}
    (hstart : Link.start type args filename trace repeats timestamp clock draws = .ok k)
    (hrun : Run Step k calls k') (hrounds : Rounds now k'.queue l) :
    ((k'.written ++ l.outputQueue).map List.length).sum + l.transmitted ≤
        PACKET_SIZE * l.opportunities ∧
      ∀ l', rationalizeStep now l = .ok (.inl l') →
        l'.opportunities = l.opportunities + 1 ∧
          (l'.sent = l.sent + PACKET_SIZE ∨
            l'.packetInTransitBytesLeft = 0 ∧ l'.packetQueue.packets = []) := by
  have hk' : k'.WithinRate := hrun.invariant (fun _ _ _ h hstep => h.step hstep) (.start hstart)
  have hl : WithinRate { k' with queue := l } := by
    refine hrounds.head_induction_on (motive := fun l₁ _ => WithinRate { k' with queue := l₁ } →
      WithinRate { k' with queue := l }) (fun h => h) (fun hnext _ ih h => ih (h.round hnext)) hk'
  refine ⟨?_, fun l' hnext => ?_⟩
  · have hrate := hl.rate
    rw [List.map_append, List.sum_append, Nat.add_assoc]
    exact hrate
  · obtain ⟨-, hopp, -, hend⟩ := rationalizeStep_sent hl.fits hnext
    exact ⟨hopp, hend⟩

/-- Two packets fill the first opportunity, and a byte is left for the second one. -/
theorem rate_of_trace_twoLines :
    ∃ (k' : Link) (l : LinkQueue),
      Run Step { queue := twoLines }
          [.readPacket [7] 0, .readPacket fullPacket 0, .waitTime 1] k' ∧
        Rounds 3 k'.queue l ∧ l.opportunities = 1 ∧ l.transmitted = 1503 ∧
        ((k'.written ++ l.outputQueue).map List.length).sum + l.transmitted ≤
          PACKET_SIZE * l.opportunities ∧
        ∀ l', rationalizeStep 3 l = .ok (.inl l') →
          l'.opportunities = l.opportunities + 1 ∧
            (l'.sent = l.sent + PACKET_SIZE ∨
              l'.packetInTransitBytesLeft = 0 ∧ l'.packetQueue.packets = []) := by
  have htransmitted : begun.transmitted = 1503 := by
    have hcontents : begun.packetInTransit.contents = fullPacket := rfl
    have hleft : begun.packetInTransitBytesLeft = 1 := rfl
    rw [transmitted, hcontents, hleft, length_fullPacket]
    rfl
  exact ⟨_, begun, run_begun, .refl, rfl, htransmitted, rate_of_trace (start_twoLines
    (Stream'.const 0) (Stream'.const 0)) run_begun .refl⟩

end Link

end V2Proxy
