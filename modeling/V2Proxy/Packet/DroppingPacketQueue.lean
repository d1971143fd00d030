/-
# `InfinitePacketQueue`, `DroppingPacketQueue`, droptail and drophead

`src/packet/queued_packet.hh`, `src/packet/infinite_packet_queue.hh`,
`src/packet/dropping_packet_queue.cc`, `src/packet/drop_tail_packet_queue.hh` and
`src/packet/drop_head_packet_queue.hh`.

A `DroppingPacketQueue` counts its bytes and packets in two `int`s next to the
queue, and asserts after each operation that the limits are met (`good`).  It is
`Sound` while the counters are the counts and the limits are met.
-/

import V2Proxy.Util.Ezio

namespace V2Proxy

open Foundations

/-- A packet and the time of its arrival. -/
structure QueuedPacket where
  /-- a `uint64_t` -/
  arrivalTime : ℕ
  contents : Bytes
deriving DecidableEq

/-- The failure of `assert( not internal_queue_.empty() )`. -/
def dequeueEmpty : Fault := .assertion (ascii "not internal_queue_.empty()")

/-- A queue that drops nothing. -/
structure InfinitePacketQueue where
  internalQueue : List QueuedPacket := []
deriving DecidableEq

namespace InfinitePacketQueue

/-- `InfinitePacketQueue::InfinitePacketQueue`. -/
def new (args : Bytes) : Except Fault InfinitePacketQueue :=
  if args ≠ [] then
    .error (.runtimeError (ascii "InfinitePacketQueue does " ++ ascii "not take arguments."))
  else .ok {}

/-- `InfinitePacketQueue::enqueue`. -/
def enqueue (q : InfinitePacketQueue) (p : QueuedPacket) : InfinitePacketQueue :=
  { internalQueue := q.internalQueue ++ [p] }

/-- `InfinitePacketQueue::dequeue`. -/
def dequeue (q : InfinitePacketQueue) : Except Fault (QueuedPacket × InfinitePacketQueue) :=
  match q.internalQueue with
  | [] => .error dequeueEmpty
  | ret :: rest => .ok (ret, { internalQueue := rest })

end InfinitePacketQueue

/-- The members of `DroppingPacketQueue`.  The sizes are `int`s, the limits
`unsigned int`s, of which zero stands for none. -/
structure DroppingPacketQueue where
  queueSizeInBytes : ℤ := 0
  queueSizeInPackets : ℤ := 0
  internalQueue : List QueuedPacket := []
  packetLimit : ℕ
  byteLimit : ℕ
deriving DecidableEq

namespace DroppingPacketQueue

/-- `DroppingPacketQueue::get_arg`. -/
def getArg (args name : Bytes) : Except Fault ℕ :=
  match find name args with
  | none => .ok 0
  | some offset => do
      let next ← substr args (offset + name.length) 1
      if next ≠ ascii "=" then
        .error (.runtimeError (ascii "could not parse queue arguments: " ++ args))
      else
        let tail ← substr args (offset + name.length + 1) npos
        let digitString := tail.takeWhile fun c => (digitValue 10 c).isSome
        if digitString = [] then
          .error (.runtimeError (ascii "could not parse queue arguments: " ++ args))
        else
          let value ← myatoi digitString 10
          return (value % 2 ^ 32).toNat

/-- `DroppingPacketQueue::DroppingPacketQueue`. -/
def new (args : Bytes) : Except Fault DroppingPacketQueue := do
  let packetLimit ← getArg args (ascii "packets")
  let byteLimit ← getArg args (ascii "bytes")
  if packetLimit = 0 ∧ byteLimit = 0 then
    .error (.runtimeError (ascii "Dropping queue must have " ++ ascii "a byte or packet limit."))
  else return { packetLimit := packetLimit, byteLimit := byteLimit }

/-- `DroppingPacketQueue::size_bytes`. -/
def sizeBytes (q : DroppingPacketQueue) : Except Fault ℕ := do
  assert (0 ≤ q.queueSizeInBytes) "queue_size_in_bytes_ >= 0"
  return q.queueSizeInBytes.toNat

/-- `DroppingPacketQueue::size_packets`. -/
def sizePackets (q : DroppingPacketQueue) : Except Fault ℕ := do
  assert (0 ≤ q.queueSizeInPackets) "queue_size_in_packets_ >= 0"
  return q.queueSizeInPackets.toNat

/-- `DroppingPacketQueue::good_with`.  Both arguments are `unsigned int`s. -/
def goodWith (q : DroppingPacketQueue) (sizeInBytes sizeInPackets : ℕ) : Bool :=
  (q.byteLimit = 0 || sizeInBytes % 2 ^ 32 ≤ q.byteLimit) &&
    (q.packetLimit = 0 || sizeInPackets % 2 ^ 32 ≤ q.packetLimit)

/-- `DroppingPacketQueue::good`. -/
def good (q : DroppingPacketQueue) : Except Fault Bool := do
  let sizeInBytes ← q.sizeBytes
  let sizeInPackets ← q.sizePackets
  return q.goodWith sizeInBytes sizeInPackets

/-- `assert( good() )`. -/
def assertGood (q : DroppingPacketQueue) : Except Fault Unit := do
  let ret ← q.good
  assert (ret = true) "good()"

/-- `DroppingPacketQueue::accept`. -/
def accept (q : DroppingPacketQueue) (p : QueuedPacket) : DroppingPacketQueue :=
  { q with
    queueSizeInBytes := toInt32 (q.queueSizeInBytes + p.contents.length)
    queueSizeInPackets := toInt32 (q.queueSizeInPackets + 1)
    internalQueue := q.internalQueue ++ [p] }

/-- `DroppingPacketQueue::dequeue`. -/
def dequeue (q : DroppingPacketQueue) : Except Fault (QueuedPacket × DroppingPacketQueue) :=
  match q.internalQueue with
  | [] => .error dequeueEmpty
  | ret :: rest => do
      let q' : DroppingPacketQueue := { q with
        queueSizeInBytes := toInt32 (q.queueSizeInBytes - ret.contents.length)
        queueSizeInPackets := toInt32 (q.queueSizeInPackets - 1)
        internalQueue := rest }
      q'.assertGood
      return (ret, q')

/-- `size_bytes() + p.contents.size()` and `size_packets() + 1` are within the
limits. -/
def goodWithPacket (q : DroppingPacketQueue) (p : QueuedPacket) : Except Fault Bool := do
  let sizeInBytes ← q.sizeBytes
  let sizeInPackets ← q.sizePackets
  return q.goodWith (sizeInBytes + p.contents.length) (sizeInPackets + 1)

/-- The packet is accepted if it is within the limits, and dropped otherwise. -/
def acceptWithin (q : DroppingPacketQueue) (p : QueuedPacket) : Except Fault DroppingPacketQueue := do
  let within ← q.goodWithPacket p
  let q' := if within then q.accept p else q
  q'.assertGood
  return q'

/-- **`dequeue` returns the packet in front.** -/
theorem dequeue_eq_ok {q q' : DroppingPacketQueue} {p : QueuedPacket}
    (h : q.dequeue = .ok (p, q')) : q.internalQueue = p :: q'.internalQueue := by
  rw [dequeue] at h
  split at h
  · cases h
  · rename_i ret rest hq
    obtain ⟨_, -, h⟩ := bind_eq_ok.1 h
    cases h
    exact hq

/-- `acceptWithin` puts the packet on the back, or drops it. -/
theorem acceptWithin_eq_ok {q q' : DroppingPacketQueue} {p : QueuedPacket}
    (h : q.acceptWithin p = .ok q') :
    q'.internalQueue = q.internalQueue ++ [p] ∨ q'.internalQueue = q.internalQueue := by
  obtain ⟨within, -, h⟩ := bind_eq_ok.1 h
  obtain ⟨_, -, h⟩ := bind_eq_ok.1 h
  cases h
  cases within
  · exact Or.inr rfl
  · exact Or.inl rfl

/-- The bytes in the queue. -/
def totalBytes (packets : List QueuedPacket) : ℕ := (packets.map (·.contents.length)).sum

/-- The bytes of the first packet and of the others. -/
@[simp] theorem totalBytes_cons (p : QueuedPacket) (rest : List QueuedPacket) :
    totalBytes (p :: rest) = p.contents.length + totalBytes rest := by
  simp [totalBytes]

/-- The bytes of one more packet. -/
@[simp] theorem totalBytes_append_singleton (packets : List QueuedPacket) (p : QueuedPacket) :
    totalBytes (packets ++ [p]) = totalBytes packets + p.contents.length := by
  simp [totalBytes]

/-- A counter that is counted up, overflow included. -/
theorem toInt32_add {total part sum : ℕ} (h : total + part = sum) :
    toInt32 (toInt32 total + part) = toInt32 sum := by
  unfold toInt32
  rw [Int.bmod_add_bmod, ← h, Int.natCast_add]

/-- A counter that is counted down. -/
theorem toInt32_sub {total part rest : ℕ} (h : total = part + rest) :
    toInt32 (toInt32 total - part) = toInt32 rest := by
  unfold toInt32
  rw [Int.bmod_sub_bmod, h]
  congr 1
  omega

/-- The counters are the counts, and the limits are met. -/
structure Sound (q : DroppingPacketQueue) : Prop where
  bytes : q.queueSizeInBytes = totalBytes q.internalQueue
  packets : q.queueSizeInPackets = q.internalQueue.length
  bytes_lt : totalBytes q.internalQueue < 2 ^ 31
  packets_lt : q.internalQueue.length < 2 ^ 31
  byteLimit : q.byteLimit = 0 ∨ totalBytes q.internalQueue ≤ q.byteLimit
  packetLimit : q.packetLimit = 0 ∨ q.internalQueue.length ≤ q.packetLimit

/-- A new queue is sound and empty. -/
theorem sound_new {args : Bytes} {q : DroppingPacketQueue} (h : new args = .ok q) :
    q.Sound ∧ q.internalQueue = [] := by
  obtain ⟨packetLimit, -, h⟩ := bind_eq_ok.1 h
  obtain ⟨byteLimit, -, h⟩ := bind_eq_ok.1 h
  split_ifs at h
  cases h
  exact ⟨⟨rfl, rfl, Nat.two_pow_pos 31, Nat.two_pow_pos 31, Or.inr (Nat.zero_le _),
    Or.inr (Nat.zero_le _)⟩, rfl⟩

variable {q : DroppingPacketQueue}

/-- Its size in bytes is that of its packets. -/
theorem Sound.sizeBytes (h : q.Sound) : q.sizeBytes = .ok (totalBytes q.internalQueue) := by
  rw [DroppingPacketQueue.sizeBytes, assert_of (by rw [h.bytes]; omega), h.bytes]
  rfl

/-- Its size in packets is their number. -/
theorem Sound.sizePackets (h : q.Sound) : q.sizePackets = .ok q.internalQueue.length := by
  rw [DroppingPacketQueue.sizePackets, assert_of (by rw [h.packets]; omega), h.packets]
  rfl

/-- A sound queue passes its assertion. -/
theorem Sound.assertGood (h : q.Sound) : q.assertGood = .ok () := by
  have hb := h.bytes_lt
  have hp := h.packets_lt
  have hgood : q.goodWith (totalBytes q.internalQueue) q.internalQueue.length = true := by
    rw [goodWith, Nat.mod_eq_of_lt (by omega), Nat.mod_eq_of_lt (by omega)]
    simp only [Bool.and_eq_true, Bool.or_eq_true, decide_eq_true_eq]
    exact ⟨h.byteLimit, h.packetLimit⟩
  rw [DroppingPacketQueue.assertGood, good, h.sizeBytes, ok_bind, h.sizePackets, ok_bind]
  exact assert_of hgood _

/-- **A sound queue with a packet can be dequeued, and stays sound.** -/
theorem Sound.dequeue (h : q.Sound) {p : QueuedPacket} {rest : List QueuedPacket}
    (hq : q.internalQueue = p :: rest) :
    ∃ q', q.dequeue = .ok (p, q') ∧ q'.Sound ∧ q'.internalQueue = rest := by
  obtain ⟨hbytes, hpackets, hbl, hpl, hbyte, hpacket⟩ := h
  have htotal : totalBytes q.internalQueue = p.contents.length + totalBytes rest := by
    rw [hq, totalBytes_cons]
  have hlength : q.internalQueue.length = rest.length + 1 := by
    rw [hq, List.length_cons]
  have hint : ∀ n : ℕ, n < 2 ^ 31 → toInt32 n = n := by
    intro n hn
    unfold toInt32
    rw [Int.bmod_eq_of_le (by omega) (by omega)]
  set q' : DroppingPacketQueue := { q with
    queueSizeInBytes := toInt32 (q.queueSizeInBytes - p.contents.length)
    queueSizeInPackets := toInt32 (q.queueSizeInPackets - 1)
    internalQueue := rest } with hq'
  have hsound : q'.Sound := by
    refine ⟨?_, ?_, by change totalBytes rest < _; omega, by change rest.length < _; omega, ?_, ?_⟩
    · change toInt32 (q.queueSizeInBytes - p.contents.length) = totalBytes rest
      rw [hbytes, htotal, ← hint (totalBytes rest) (by omega)]
      congr 1
      omega
    · change toInt32 (q.queueSizeInPackets - 1) = rest.length
      rw [hpackets, hlength, ← hint rest.length (by omega)]
      congr 1
      omega
    · rcases hbyte with hbyte | hbyte
      · exact Or.inl hbyte
      · exact Or.inr (by change totalBytes rest ≤ q.byteLimit; omega)
    · rcases hpacket with hpacket | hpacket
      · exact Or.inl hpacket
      · exact Or.inr (by change rest.length ≤ q.packetLimit; omega)
  refine ⟨q', ?_, hsound, rfl⟩
  rw [DroppingPacketQueue.dequeue, hq]
  dsimp only
  rw [hsound.assertGood]
  rfl

/-- The counters are the counts, up to the overflow of an `int`. -/
structure Counted (q : DroppingPacketQueue) : Prop where
  bytes : q.queueSizeInBytes = toInt32 (totalBytes q.internalQueue)
  packets : q.queueSizeInPackets = toInt32 q.internalQueue.length
  bytes_lt : totalBytes q.internalQueue < 2 ^ 32
  packets_lt : q.internalQueue.length < 2 ^ 32

/-- What overflows an `int` is negative. -/
theorem toInt32_of_nonneg {n : ℕ} (hn : n < 2 ^ 32) (h : 0 ≤ toInt32 n) :
    toInt32 n = n ∧ n < 2 ^ 31 := by
  unfold toInt32 at h ⊢
  rw [Int.bmod_def] at h ⊢
  split_ifs at h ⊢ <;> omega

/-- **The assertion `good()` finds out about an overflow.** -/
theorem Counted.sound (h : q.Counted) (hgood : q.good = .ok true) : q.Sound := by
  obtain ⟨sizeInBytes, hbytes, hgood⟩ := bind_eq_ok.1 hgood
  obtain ⟨sizeInPackets, hpackets, hgood⟩ := bind_eq_ok.1 hgood
  obtain ⟨_, hbytes₀, hbytes⟩ := bind_eq_ok.1 hbytes
  obtain ⟨_, hpackets₀, hpackets⟩ := bind_eq_ok.1 hpackets
  have hb := assert_eq_ok.1 hbytes₀
  have hp := assert_eq_ok.1 hpackets₀
  rw [h.bytes] at hb
  rw [h.packets] at hp
  obtain ⟨hb, hb'⟩ := toInt32_of_nonneg h.bytes_lt hb
  obtain ⟨hp, hp'⟩ := toInt32_of_nonneg h.packets_lt hp
  cases hbytes
  cases hpackets
  have hwith := Except.ok.inj hgood
  rw [h.bytes, hb, h.packets, hp, Int.toNat_natCast, Int.toNat_natCast, goodWith,
    Nat.mod_eq_of_lt h.bytes_lt, Nat.mod_eq_of_lt h.packets_lt] at hwith
  simp only [Bool.and_eq_true, Bool.or_eq_true, decide_eq_true_eq] at hwith
  exact ⟨h.bytes.trans hb, h.packets.trans hp, hb', hp', hwith.1, hwith.2⟩

/-- An assertion that has held. -/
theorem assertGood_eq_ok {u : Unit} (h : q.assertGood = .ok u) : q.good = .ok true := by
  obtain ⟨ret, hret, h⟩ := bind_eq_ok.1 h
  rw [hret, assert_eq_ok.1 h]

/-- **Accepting a packet** keeps the counters. -/
theorem Sound.accept (h : q.Sound) {p : QueuedPacket} (hp : p.contents.length < 2 ^ 31) :
    (q.accept p).Counted := by
  have hbytes := h.bytes_lt
  have hpackets := h.packets_lt
  refine ⟨?_, ?_, ?_, ?_⟩
  · change toInt32 (q.queueSizeInBytes + p.contents.length) =
      toInt32 (totalBytes (q.internalQueue ++ [p]))
    rw [h.bytes, totalBytes_append_singleton, Int.natCast_add]
  · change toInt32 (q.queueSizeInPackets + 1) = toInt32 (q.internalQueue ++ [p]).length
    rw [h.packets, List.length_append, Int.natCast_add]
    rfl
  · change totalBytes (q.internalQueue ++ [p]) < _
    rw [totalBytes_append_singleton]
    omega
  · change (q.internalQueue ++ [p]).length < _
    rw [List.length_append, List.length_singleton]
    omega

/-- **A queue that accepts within its limits stays sound.** -/
theorem Sound.acceptWithin (h : q.Sound) {p : QueuedPacket} (hp : p.contents.length < 2 ^ 31)
    {q' : DroppingPacketQueue} (hq' : q.acceptWithin p = .ok q') : q'.Sound := by
  obtain ⟨within, -, hq'⟩ := bind_eq_ok.1 hq'
  obtain ⟨_, hgood, hq'⟩ := bind_eq_ok.1 hq'
  cases hq'
  cases within
  · exact h
  · exact (h.accept hp).sound (assertGood_eq_ok hgood)

/-- So does taking one off. -/
theorem Counted.dequeue (h : q.Counted) {p : QueuedPacket} {q' : DroppingPacketQueue}
    (hq' : q.dequeue = .ok (p, q')) : q'.Counted := by
  rw [DroppingPacketQueue.dequeue] at hq'
  split at hq'
  · cases hq'
  · rename_i ret rest hq
    obtain ⟨_, -, hq'⟩ := bind_eq_ok.1 hq'
    cases hq'
    have hbytes := h.bytes_lt
    have hpackets := h.packets_lt
    have htotal : totalBytes q.internalQueue = p.contents.length + totalBytes rest := by
      rw [hq, totalBytes_cons]
    have hlength : q.internalQueue.length = 1 + rest.length := by
      rw [hq, List.length_cons, Nat.add_comm]
    refine ⟨?_, ?_, ?_, ?_⟩
    · change toInt32 (q.queueSizeInBytes - p.contents.length) = toInt32 (totalBytes rest)
      rw [h.bytes, toInt32_sub htotal]
    · change toInt32 (q.queueSizeInPackets - (1 : ℕ)) = toInt32 rest.length
      rw [h.packets, toInt32_sub hlength]
    · change totalBytes rest < _
      omega
    · change rest.length < _
      omega

end DroppingPacketQueue

/-- `DropTailPacketQueue::enqueue`. -/
def DropTailPacketQueue.enqueue (q : DroppingPacketQueue) (p : QueuedPacket) :
    Except Fault DroppingPacketQueue :=
  q.acceptWithin p

namespace DropHeadPacketQueue

/-- A round of `while ( not good() ) { dequeue(); }`. -/
def dropStep (q : DroppingPacketQueue) :
    Except Fault (DroppingPacketQueue ⊕ DroppingPacketQueue) := do
  let ret ← q.good
  if ret then return .inr q
  else
    let (_, q') ← q.dequeue
    return .inl q'

/-- What a round that goes on does: it drops the packet in front. -/
theorem dropStep_next {q q' : DroppingPacketQueue} (h : dropStep q = .ok (.inl q')) :
    ∃ p, q.internalQueue = p :: q'.internalQueue := by
  obtain ⟨ret, -, h⟩ := bind_eq_ok.1 h
  split_ifs at h
  · cases h
  · obtain ⟨⟨p, q₁⟩, hq₁, h⟩ := bind_eq_ok.1 h
    cases h
    exact ⟨p, DroppingPacketQueue.dequeue_eq_ok hq₁⟩

/-- The last round of the loop drops nothing. -/
theorem dropStep_leave {q q' : DroppingPacketQueue} (h : dropStep q = .ok (.inr q')) : q' = q := by
  obtain ⟨ret, -, h⟩ := bind_eq_ok.1 h
  split_ifs at h
  · cases h
    rfl
  · obtain ⟨_, -, h⟩ := bind_eq_ok.1 h
    cases h

/-- The loop of `DropHeadPacketQueue::enqueue`. -/
def dropLoop : Loop Fault DroppingPacketQueue DroppingPacketQueue where
  step := dropStep
  measure q := q.internalQueue.length
  decreases h := by
    obtain ⟨p, hp⟩ := dropStep_next h
    rw [hp]
    exact Nat.lt_succ_self _

/-- `DropHeadPacketQueue::enqueue`. -/
def enqueue (q : DroppingPacketQueue) (p : QueuedPacket) : Except Fault DroppingPacketQueue :=
  dropLoop.run (q.accept p)

/-- `enqueue` drops packets from the front of the queue with the new one. -/
theorem enqueue_eq_ok {q q' : DroppingPacketQueue} {p : QueuedPacket}
    (h : enqueue q p = .ok q') : q'.internalQueue <:+ q.internalQueue ++ [p] := by
  refine Loop.run_post (L := dropLoop)
    (I := fun q₁ => q₁.internalQueue <:+ q.internalQueue ++ [p])
    (Q := fun q₁ => q₁.internalQueue <:+ q.internalQueue ++ [p])
    (fun q₁ q₂ hs hn => ?_) (fun q₁ q₂ hs hl => ?_) List.suffix_rfl h
  · obtain ⟨p₁, hp₁⟩ := dropStep_next hn
    rw [hp₁] at hs
    exact (List.suffix_cons p₁ _).trans hs
  · rwa [dropStep_leave hl]

/-- **A sound queue stays sound.** -/
theorem enqueue_of_sound {q q' : DroppingPacketQueue} (hq : q.Sound) {p : QueuedPacket}
    (hp : p.contents.length < 2 ^ 31) (h : enqueue q p = .ok q') : q'.Sound := by
  refine Loop.run_post (L := dropLoop) (I := DroppingPacketQueue.Counted)
    (Q := DroppingPacketQueue.Sound) (fun q₁ q₂ hs hn => ?_) (fun q₁ q₂ hs hl => ?_)
    (hq.accept hp) h
  · obtain ⟨ret, -, hn⟩ := bind_eq_ok.1 hn
    split_ifs at hn
    · cases hn
    · obtain ⟨⟨p₁, q₃⟩, hq₃, hn⟩ := bind_eq_ok.1 hn
      cases hn
      exact hs.dequeue hq₃
  · obtain ⟨ret, hret, hl⟩ := bind_eq_ok.1 hl
    split_ifs at hl with hgood
    · cases hl
      exact hs.sound (hgood ▸ hret)
    · obtain ⟨_, -, hl⟩ := bind_eq_ok.1 hl
      cases hl

end DropHeadPacketQueue

end V2Proxy
