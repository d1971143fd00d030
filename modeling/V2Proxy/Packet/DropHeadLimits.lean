/-
# What `DropHeadPacketQueue::enqueue` keeps

`enqueue` takes the new packet in and drops packets from the front of the queue until
the limits are met.  The packets it keeps would be the longest end of the queue that is
within the limits (`KeepsLongest`), but `dequeue` asserts that they are met as soon as
it has taken one packet off.  So `enqueue` returns just if it has to drop no packet or
one (`enqueue_eq`), and otherwise the process aborts.

The counters are `int`s, and nothing is assumed here about the sizes of the packets: a
queue is `Tallied` if they are the counts up to overflow.  A negative counter fails an
assertion too (`Countable`).
-/

import V2Proxy.Packet.DroppingPacketQueue

namespace V2Proxy

open Foundations

/-- Overflow does not make a count larger. -/
theorem toInt32_le (n : ℕ) : toInt32 n ≤ n := by
  unfold toInt32
  rw [Int.bmod_def]
  split_ifs <;> omega

namespace DroppingPacketQueue

/-- The packets are within the limits. -/
def Fits (q : DroppingPacketQueue) (packets : List QueuedPacket) : Prop :=
  (q.byteLimit = 0 ∨ totalBytes packets ≤ q.byteLimit) ∧
    (q.packetLimit = 0 ∨ packets.length ≤ q.packetLimit)

/-- The packets are within the limits as far as the counters tell. -/
def FitsCounters (q : DroppingPacketQueue) (packets : List QueuedPacket) : Prop :=
  (q.byteLimit = 0 ∨ toInt32 (totalBytes packets) ≤ q.byteLimit) ∧
    (q.packetLimit = 0 ∨ toInt32 packets.length ≤ q.packetLimit)

instance (q : DroppingPacketQueue) (packets : List QueuedPacket) : Decidable (q.Fits packets) :=
  inferInstanceAs (Decidable (_ ∧ _))

instance (q : DroppingPacketQueue) (packets : List QueuedPacket) :
    Decidable (q.FitsCounters packets) :=
  inferInstanceAs (Decidable (_ ∧ _))

/-- The counters of these packets are not negative. -/
def Countable (packets : List QueuedPacket) : Prop :=
  0 ≤ toInt32 (totalBytes packets) ∧ 0 ≤ toInt32 packets.length

instance (packets : List QueuedPacket) : Decidable (Countable packets) :=
  inferInstanceAs (Decidable (_ ∧ _))

/-- The counters are the counts, up to overflow. -/
structure Tallied (q : DroppingPacketQueue) : Prop where
  bytes : q.queueSizeInBytes = toInt32 (totalBytes q.internalQueue)
  packets : q.queueSizeInPackets = toInt32 q.internalQueue.length

variable {q q' : DroppingPacketQueue} {p : QueuedPacket} {packets rest : List QueuedPacket}

/-- What fits, the counters say so of it. -/
theorem Fits.counters (h : q.Fits packets) : q.FitsCounters packets := by
  have hbytes := toInt32_le (totalBytes packets)
  have hpackets := toInt32_le packets.length
  exact ⟨h.1.imp_right fun hle => by omega, h.2.imp_right fun hle => by omega⟩

/-- A new queue is tallied. -/
theorem tallied_new {args : Bytes} (h : new args = .ok q) : q.Tallied := by
  obtain ⟨hs, hnil⟩ := sound_new h
  refine ⟨?_, ?_⟩
  · rw [hs.bytes, hnil]
    rfl
  · rw [hs.packets, hnil]
    rfl

/-- **Accepting a packet** keeps the tally. -/
theorem Tallied.accept (h : q.Tallied) (p : QueuedPacket) : (q.accept p).Tallied := by
  refine ⟨?_, ?_⟩
  · change toInt32 (q.queueSizeInBytes + p.contents.length) =
      toInt32 (totalBytes (q.internalQueue ++ [p]))
    rw [h.bytes, toInt32_add (totalBytes_append_singleton _ p).symm]
  · change toInt32 (q.queueSizeInPackets + (1 : ℕ)) = toInt32 (q.internalQueue ++ [p]).length
    have hlength : q.internalQueue.length + 1 = (q.internalQueue ++ [p]).length := by
      rw [List.length_append, List.length_singleton]
    rw [h.packets, toInt32_add hlength]

/-- The queue without its first packet. -/
def dropFront (q : DroppingPacketQueue) (p : QueuedPacket) (rest : List QueuedPacket) :
    DroppingPacketQueue :=
  { q with
    queueSizeInBytes := toInt32 (q.queueSizeInBytes - p.contents.length)
    queueSizeInPackets := toInt32 (q.queueSizeInPackets - 1)
    internalQueue := rest }

/-- Taking off the first packet. -/
theorem dequeue_cons (h : q.internalQueue = p :: rest) :
    q.dequeue = (q.dropFront p rest).assertGood >>= fun _ => .ok (p, q.dropFront p rest) := by
  rw [dequeue, h]
  rfl

/-- Taking one off keeps it, too. -/
theorem Tallied.dropFront (h : q.Tallied) (hq : q.internalQueue = p :: rest) :
    (q.dropFront p rest).Tallied := by
  have htotal : totalBytes q.internalQueue = p.contents.length + totalBytes rest := by
    rw [hq, totalBytes_cons]
  have hlength : q.internalQueue.length = 1 + rest.length := by
    rw [hq, List.length_cons, Nat.add_comm]
  refine ⟨?_, ?_⟩
  · change toInt32 (q.queueSizeInBytes - p.contents.length) = toInt32 (totalBytes rest)
    rw [h.bytes, toInt32_sub htotal]
  · change toInt32 (q.queueSizeInPackets - (1 : ℕ)) = toInt32 rest.length
    rw [h.packets, toInt32_sub hlength]

/-- The size in bytes is the counter. -/
theorem sizeBytes_eq (h : 0 ≤ q.queueSizeInBytes) :
    q.sizeBytes = .ok q.queueSizeInBytes.toNat := by
  rw [sizeBytes, assert_of h]
  rfl

/-- The size in packets is the counter. -/
theorem sizePackets_eq (h : 0 ≤ q.queueSizeInPackets) :
    q.sizePackets = .ok q.queueSizeInPackets.toNat := by
  rw [sizePackets, assert_of h]
  rfl

/-- **What `good()` finds out:** whether the counters are within the limits. -/
theorem Tallied.good (h : q.Tallied) (hc : Countable q.internalQueue) :
    q.good = .ok (decide (q.FitsCounters q.internalQueue)) := by
  obtain ⟨hbytes, hpackets⟩ := hc
  rw [← h.bytes] at hbytes
  rw [← h.packets] at hpackets
  have hbytes' : q.queueSizeInBytes.toNat % 2 ^ 32 = q.queueSizeInBytes.toNat := by
    have hlt : q.queueSizeInBytes < 2 ^ 32 := by
      rw [h.bytes]
      unfold toInt32
      have := Int.bmod_lt (x := totalBytes q.internalQueue) (m := 2 ^ 32) (by decide)
      omega
    exact Nat.mod_eq_of_lt (by omega)
  have hpackets' : q.queueSizeInPackets.toNat % 2 ^ 32 = q.queueSizeInPackets.toNat := by
    have hlt : q.queueSizeInPackets < 2 ^ 32 := by
      rw [h.packets]
      unfold toInt32
      have := Int.bmod_lt (x := q.internalQueue.length) (m := 2 ^ 32) (by decide)
      omega
    exact Nat.mod_eq_of_lt (by omega)
  rw [DroppingPacketQueue.good, sizeBytes_eq hbytes, ok_bind, sizePackets_eq hpackets, ok_bind]
  change Except.ok (q.goodWith _ _) = _
  rw [goodWith, hbytes', hpackets']
  congr 1
  rw [Bool.eq_iff_iff, decide_eq_true_iff, FitsCounters, ← h.bytes, ← h.packets]
  simp only [Bool.and_eq_true, Bool.or_eq_true, decide_eq_true_eq, Int.toNat_le]

/-- With a negative counter it does not return. -/
theorem Tallied.good_throws (h : q.Tallied) (hc : ¬ Countable q.internalQueue) :
    ∃ text, q.good = .error (.assertion text) := by
  rw [Countable, ← h.bytes, ← h.packets, not_and_or] at hc
  rw [DroppingPacketQueue.good]
  by_cases hbytes : 0 ≤ q.queueSizeInBytes
  · have hpackets := hc.resolve_left (not_not.2 hbytes)
    rw [sizeBytes_eq hbytes, ok_bind, sizePackets, assert_of_not hpackets]
    exact ⟨_, rfl⟩
  · rw [sizeBytes, assert_of_not hbytes]
    exact ⟨_, rfl⟩

/-- The assertion after a packet is dropped. -/
theorem Tallied.assertGood_cases (h : q.Tallied) :
    (Countable q.internalQueue ∧ q.FitsCounters q.internalQueue ∧ q.assertGood = .ok ()) ∨
      (¬ (Countable q.internalQueue ∧ q.FitsCounters q.internalQueue) ∧
        ∃ text, q.assertGood = .error (.assertion text)) := by
  by_cases hc : Countable q.internalQueue
  · have hgood := h.good hc
    by_cases hf : q.FitsCounters q.internalQueue
    · refine Or.inl ⟨hc, hf, ?_⟩
      rw [assertGood, hgood, ok_bind]
      exact assert_of (decide_eq_true hf) _
    · refine Or.inr ⟨fun hboth => hf hboth.2, ascii "good()", ?_⟩
      rw [assertGood, hgood, ok_bind]
      refine assert_of_not ?_ _
      rw [decide_eq_true_iff]
      exact hf
  · obtain ⟨text, hthrows⟩ := h.good_throws hc
    refine Or.inr ⟨fun hboth => hc hboth.1, text, ?_⟩
    rw [assertGood, hthrows]
    rfl

end DroppingPacketQueue

namespace DropHeadPacketQueue

open DroppingPacketQueue

variable {q q' : DroppingPacketQueue} {p : QueuedPacket}

/-- The loop leaves a queue that is within the limits. -/
theorem run_dropLoop_of_fits (h : q.Tallied) (hc : Countable q.internalQueue)
    (hf : q.FitsCounters q.internalQueue) : dropLoop.run q = .ok q := by
  refine Loop.run_of_leave ?_
  change dropStep q = _
  rw [dropStep, h.good hc, ok_bind]
  exact if_pos (decide_eq_true hf)

/-- A round of the loop drops the packet in front of a queue that is not. -/
theorem dropStep_of_not_fits {rest : List QueuedPacket} (h : q.Tallied)
    (hq : q.internalQueue = p :: rest) (hc : Countable q.internalQueue)
    (hf : ¬ q.FitsCounters q.internalQueue) :
    dropStep q = (q.dropFront p rest).assertGood >>= fun _ => .ok (.inl (q.dropFront p rest)) := by
  have hfalse : ¬ decide (q.FitsCounters q.internalQueue) = true := by
    rw [decide_eq_true_iff]
    exact hf
  rw [dropStep, h.good hc, ok_bind]
  refine (if_neg hfalse).trans ?_
  rw [dequeue_cons hq]
  rcases (q.dropFront p rest).assertGood with e | u <;> rfl

/-- **What `enqueue` does to a queue whose counters are the counts:** it keeps all
packets, or all but the first, or fails an assertion. -/
theorem enqueue_eq (h : q.Tallied) (p : QueuedPacket) :
    (Countable (q.internalQueue ++ [p]) ∧ q.FitsCounters (q.internalQueue ++ [p]) ∧
      enqueue q p = .ok (q.accept p)) ∨
    (Countable (q.internalQueue ++ [p]) ∧ ¬ q.FitsCounters (q.internalQueue ++ [p]) ∧
      Countable (q.internalQueue ++ [p]).tail ∧ q.FitsCounters (q.internalQueue ++ [p]).tail ∧
      ∃ q', enqueue q p = .ok q' ∧ q'.internalQueue = (q.internalQueue ++ [p]).tail ∧ q'.Tallied) ∨
    (¬ (Countable (q.internalQueue ++ [p]) ∧ (q.FitsCounters (q.internalQueue ++ [p]) ∨
        Countable (q.internalQueue ++ [p]).tail ∧ q.FitsCounters (q.internalQueue ++ [p]).tail)) ∧
      ∃ text, enqueue q p = .error (.assertion text)) := by
  have hq := h.accept p
  have hqueue : (q.accept p).internalQueue = q.internalQueue ++ [p] := rfl
  by_cases hc : Countable (q.internalQueue ++ [p])
  swap
  · obtain ⟨text, hgood⟩ := hq.good_throws hc
    refine Or.inr (Or.inr ⟨fun hcount => hc hcount.1, text, Loop.run_of_error (L := dropLoop) ?_⟩)
    change dropStep _ = _
    rw [dropStep, hgood]
    rfl
  by_cases hf : q.FitsCounters (q.internalQueue ++ [p])
  · exact Or.inl ⟨hc, hf, run_dropLoop_of_fits hq hc hf⟩
  -- one packet is dropped, and then the limits must be met
  obtain ⟨first, rest, hcons⟩ : ∃ first rest, q.internalQueue ++ [p] = first :: rest :=
    List.exists_cons_of_ne_nil (by simp)
  have hfront := hq.dropFront (hqueue.trans hcons)
  have hstep := dropStep_of_not_fits hq (hqueue.trans hcons) hc hf
  have htail : (q.internalQueue ++ [p]).tail = rest := by
    rw [hcons]
    rfl
  rw [htail]
  rcases hfront.assertGood_cases with ⟨hcr, hfr, hgood⟩ | ⟨hno, text, hgood⟩
  · rw [hgood, ok_bind] at hstep
    exact Or.inr (Or.inl ⟨hc, hf, hcr, hfr, _,
      (Loop.run_of_next (L := dropLoop) hstep).trans (run_dropLoop_of_fits hfront hcr hfr), rfl,
      hfront⟩)
  · rw [hgood, error_bind] at hstep
    exact Or.inr (Or.inr ⟨fun hcount => hcount.2.elim hf hno, text,
      Loop.run_of_error (L := dropLoop) hstep⟩)

/-! ### Runs -/

/-- What is done to the queue of a link. -/
inductive Call where
  | enqueue (p : QueuedPacket)
  | dequeue
deriving DecidableEq

/-- One call, as long as no assertion fails. -/
def call (q : DroppingPacketQueue) : Call → Except Fault DroppingPacketQueue
  | .enqueue p => enqueue q p
  | .dequeue => q.dequeue.map Prod.snd

/-- Every call leaves counters that are the counts. -/
theorem tallied_call {c : Call} (h : q.Tallied) (hq : call q c = .ok q') : q'.Tallied := by
  cases c with
  | enqueue p =>
      have hq : enqueue q p = .ok q' := hq
      rcases enqueue_eq h p with ⟨-, -, heq⟩ | ⟨-, -, -, -, q₁, heq, -, hq₁⟩ | ⟨-, text, heq⟩ <;>
        rw [heq] at hq
      · cases hq
        exact h.accept p
      · cases hq
        exact hq₁
      · cases hq
  | dequeue =>
      obtain ⟨⟨p, q₁⟩, hdequeue, rfl⟩ := map_eq_ok.1 hq
      have hcons := dequeue_eq_ok hdequeue
      rw [dequeue_cons hcons] at hdequeue
      obtain ⟨_, -, hdequeue⟩ := bind_eq_ok.1 hdequeue
      have hsame := congrArg Prod.snd (Except.ok.inj hdequeue)
      exact hsame ▸ h.dropFront hcons

/-- `enqueue` returns, and keeps the longest end of the queue with the packet that is
within both limits. -/
def KeepsLongest (q : DroppingPacketQueue) (p : QueuedPacket) : Prop :=
  ∃ q', enqueue q p = .ok q' ∧
    q'.internalQueue <:+ q.internalQueue ++ [p] ∧ q.Fits q'.internalQueue ∧
    ∀ packets, packets <:+ q.internalQueue ++ [p] → q.Fits packets →
      packets.length ≤ q'.internalQueue.length

/-- **`enqueue` keeps the longest end that is within the limits if and only if that is the
whole queue with the packet, or all but its first packet,** and the counters tell. -/
theorem keepsLongest_iff {args : Bytes} {q₀ : DroppingPacketQueue} (hnew : new args = .ok q₀)
    {calls : List Call} (hrun : calls.foldlM call q₀ = .ok q) (p : QueuedPacket) :
    KeepsLongest q p ↔ Countable (q.internalQueue ++ [p]) ∧
      (q.Fits (q.internalQueue ++ [p]) ∨ ¬ q.FitsCounters (q.internalQueue ++ [p]) ∧
        Countable (q.internalQueue ++ [p]).tail ∧ q.Fits (q.internalQueue ++ [p]).tail) := by
  have htallied : q.Tallied :=
    foldlM_invariant (I := Tallied) (fun _ _ _ hs hs' => tallied_call hs hs') (tallied_new hnew) hrun
  have hlength : (q.internalQueue ++ [p]).tail.length + 1 = (q.internalQueue ++ [p]).length := by
    rw [List.length_tail, List.length_append, List.length_singleton]
    omega
  rcases enqueue_eq htallied p with
    ⟨hc, hf, heq⟩ | ⟨hc, hf, hcr, hfr, q₁, heq, hq₁, -⟩ | ⟨hno, text, heq⟩
  · constructor
    · rintro ⟨q', hq', -, hfits, -⟩
      rw [heq] at hq'
      cases hq'
      exact ⟨hc, Or.inl hfits⟩
    · rintro ⟨-, hfits | ⟨hnot, -⟩⟩
      · exact ⟨q.accept p, heq, List.suffix_rfl, hfits, fun packets hsuffix _ => hsuffix.length_le⟩
      · exact absurd hf hnot
  · constructor
    · rintro ⟨q', hq', -, hfits, -⟩
      rw [heq] at hq'
      cases hq'
      rw [hq₁] at hfits
      exact ⟨hc, Or.inr ⟨hf, hcr, hfits⟩⟩
    · rintro ⟨-, hfits | ⟨-, -, hfits⟩⟩
      · exact absurd hfits.counters hf
      · refine ⟨q₁, heq, hq₁ ▸ List.tail_suffix _, hq₁ ▸ hfits, fun packets hsuffix hpackets => ?_⟩
        rw [hq₁]
        by_contra hlonger
        have hall : packets = q.internalQueue ++ [p] :=
          hsuffix.eq_of_length (by have := hsuffix.length_le; omega)
        exact hf (hall ▸ hpackets).counters
  · constructor
    · rintro ⟨q', hq', -⟩
      rw [heq] at hq'
      cases hq'
    · rintro ⟨hc, hfits | ⟨-, hcr, hfits⟩⟩
      · exact absurd ⟨hc, Or.inl hfits.counters⟩ hno
      · exact absurd ⟨hc, Or.inr ⟨hcr, hfits.counters⟩⟩ hno

/-- A packet of given size. -/
def packetOf (size : ℕ) : QueuedPacket := { arrivalTime := 0, contents := List.replicate size 0 }

/-- A queue of at most eight bytes. -/
def eightBytes : DroppingPacketQueue := { packetLimit := 0, byteLimit := 8 }

/-- A queue with two packets of four bytes. -/
def twoPackets : DroppingPacketQueue :=
  { eightBytes with
    queueSizeInBytes := 8
    queueSizeInPackets := 2
    internalQueue := [packetOf 4, packetOf 4] }

/-- A third packet of four bytes drops the first one. -/
theorem keepsLongest_iff_oneDrop : KeepsLongest twoPackets (packetOf 4) := by
  have hnew : new (ascii "bytes=8") = .ok eightBytes := by decide +kernel
  have hcalls : [Call.enqueue (packetOf 4), .enqueue (packetOf 4)].foldlM call eightBytes =
      .ok twoPackets := by
    decide +kernel
  exact (keepsLongest_iff hnew hcalls (packetOf 4)).2 (by decide +kernel)

/-- **A packet of eight bytes aborts the process:** two packets must go, and `dequeue`
asserts that the limits are met after the first. -/
theorem two_drops_abort :
    new (ascii "bytes=8") = .ok eightBytes ∧
      [Call.enqueue (packetOf 4), .enqueue (packetOf 4)].foldlM call eightBytes = .ok twoPackets ∧
      enqueue twoPackets (packetOf 8) = .error (.assertion (ascii "good()")) ∧
      ¬ KeepsLongest twoPackets (packetOf 8) := by
  have hfail : enqueue twoPackets (packetOf 8) = .error (.assertion (ascii "good()")) := by
    decide +kernel
  refine ⟨by decide +kernel, by decide +kernel, hfail, ?_⟩
  rintro ⟨q', hq', -⟩
  rw [hfail] at hq'
  cases hq'

end DropHeadPacketQueue

end V2Proxy
