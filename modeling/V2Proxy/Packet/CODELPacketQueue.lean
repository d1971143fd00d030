/-
# `CODELPacketQueue`

`src/packet/codel_packet_queue.cc`: a `DroppingPacketQueue` that drops packets
which waited too long, when it is dequeued.  A call of `dequeue` reads the clock
once and takes one or more packets off the queue; the first one is returned,
whatever becomes of the others (the inner `r` of the source shadows the outer
one).

The readings that `timestamp()` is still to return are a stream in the state.
`double` is `Float`.
-/

import V2Proxy.Packet.DroppingPacketQueue
import Mathlib.Data.Stream.Defs

namespace V2Proxy

open Foundations
open scoped List

structure CODELPacketQueue extends DroppingPacketQueue where
  target : UInt32
  interval : UInt32
  /-- a `uint64_t`, as `drop_next_` -/
  firstAboveTime : ℕ := 0
  dropNext : ℕ := 0
  count : UInt32 := 0
  lastcount : UInt32 := 0
  dropping : Bool := false
  /-- the readings `timestamp()` is still to return -/
  clock : Stream' ℕ

namespace CODELPacketQueue

/-- `PACKET_SIZE`. -/
def PACKET_SIZE : ℕ := 1504

/-- `CODELPacketQueue::CODELPacketQueue`. -/
def new (args : Bytes) (clock : Stream' ℕ) : Except Fault CODELPacketQueue := do
  let base ← DroppingPacketQueue.new args
  let target ← DroppingPacketQueue.getArg args (ascii "target")
  let interval ← DroppingPacketQueue.getArg args (ascii "interval")
  if target = 0 ∨ interval = 0 then
    .error (.runtimeError (ascii "CoDel queue must have " ++ ascii "target and interval arguments."))
  else return { base with
    target := UInt32.ofNat target, interval := UInt32.ofNat interval, clock := clock }

/-- A new queue has the counters at zero. -/
theorem new_eq_ok {args : Bytes} {clock : Stream' ℕ} {q : CODELPacketQueue}
    (h : new args clock = .ok q) :
    ∃ base target interval, DroppingPacketQueue.new args = .ok base ∧ q = { base with
      target := target, interval := interval, clock := clock } := by
  obtain ⟨base, hbase, h⟩ := bind_eq_ok.1 h
  obtain ⟨target, -, h⟩ := bind_eq_ok.1 h
  obtain ⟨interval, -, h⟩ := bind_eq_ok.1 h
  split_ifs at h
  cases h
  exact ⟨base, _, _, hbase, rfl⟩

/-- The packet that was dequeued last waited too long and more than one packet
is left behind it. -/
def aboveTarget (q : CODELPacketQueue) (now : ℕ) (p : QueuedPacket) : Except Fault Bool :=
  if sizeSub now p.arrivalTime < q.target.toNat then .ok false
  else do
    let sizeInBytes ← q.sizeBytes
    return PACKET_SIZE < sizeInBytes

/-- `CODELPacketQueue::dodequeue`: the packet, `ok_to_drop`, and the queue. -/
def dodequeue (q : CODELPacketQueue) (now : ℕ) :
    Except Fault (QueuedPacket × Bool × CODELPacketQueue) := do
  let (p, base) ← q.toDroppingPacketQueue.dequeue
  let q : CODELPacketQueue := { q with toDroppingPacketQueue := base }
  if q.internalQueue = [] then return (p, false, { q with firstAboveTime := 0 })
  else
    let above ← q.aboveTarget now p
    if above = false then return (p, false, { q with firstAboveTime := 0 })
    else if q.firstAboveTime = 0 then
      return (p, false, { q with firstAboveTime := (now + q.interval.toNat) % 2 ^ 64 })
    else return (p, q.firstAboveTime ≤ now, q)

/-- `CODELPacketQueue::control_law`. -/
def controlLaw (q : CODELPacketQueue) (t : ℕ) (count : UInt32) : ℕ :=
  let d := Float.ofNat q.interval.toNat / Float.sqrt (Float.ofNat count.toNat)
  (t + d.toUInt64.toNat) % 2 ^ 64

/-- A round of the `while` loop of `dequeue`. -/
def dropStep (now : ℕ) (q : CODELPacketQueue) :
    Except Fault (CODELPacketQueue ⊕ CODELPacketQueue) :=
  if q.dropNext ≤ now ∧ q.dropping = true then do
    let (_, okToDrop, q) ← q.dodequeue now
    let q := { q with count := q.count + 1 }
    return .inl (if okToDrop then { q with dropNext := q.controlLaw q.dropNext q.count }
      else { q with dropping := false })
  else return .inr q

/-- **What `dodequeue` does to the packets:** it takes the one in front, and the
next one may be dropped only if there is one. -/
theorem dodequeue_eq_ok {q q' : CODELPacketQueue} {now : ℕ} {p : QueuedPacket} {okToDrop : Bool}
    (h : q.dodequeue now = .ok (p, okToDrop, q')) :
    q.internalQueue = p :: q'.internalQueue ∧ (okToDrop = true → q'.internalQueue ≠ []) := by
  obtain ⟨⟨p', base⟩, hbase, h⟩ := bind_eq_ok.1 h
  have hqueue := DroppingPacketQueue.dequeue_eq_ok hbase
  dsimp only at h
  by_cases hempty : base.internalQueue = []
  · rw [if_pos hempty] at h
    cases h
    exact ⟨hqueue, fun h => by cases h⟩
  · rw [if_neg hempty] at h
    obtain ⟨above, -, h⟩ := bind_eq_ok.1 h
    split_ifs at h <;> cases h <;> exact ⟨hqueue, fun _ => hempty⟩

theorem dropStep_next {q q' : CODELPacketQueue} {now : ℕ} (h : dropStep now q = .ok (.inl q')) :
    ∃ p, q.internalQueue = p :: q'.internalQueue := by
  rw [dropStep] at h
  split_ifs at h with hdrop
  · obtain ⟨⟨p, okToDrop, q₁⟩, hq₁, h⟩ := bind_eq_ok.1 h
    cases h
    refine ⟨p, (dodequeue_eq_ok hq₁).1.trans ?_⟩
    cases okToDrop <;> rfl
  · cases h

theorem dropStep_leave {q q' : CODELPacketQueue} {now : ℕ} (h : dropStep now q = .ok (.inr q')) :
    q' = q := by
  rw [dropStep] at h
  split_ifs at h
  · obtain ⟨_, -, h⟩ := bind_eq_ok.1 h
    cases h
  · cases h
    rfl

/-- The `while` loop of `dequeue`. -/
def dropLoop (now : ℕ) : Loop Fault CODELPacketQueue CODELPacketQueue where
  step := dropStep now
  measure q := q.internalQueue.length
  decreases h := by
    obtain ⟨p, hp⟩ := dropStep_next h
    rw [hp]
    exact Nat.lt_succ_self _

/-- `CODELPacketQueue::dequeue` while `dropping_`. -/
def dequeueDropping (q : CODELPacketQueue) (now : ℕ) (okToDrop : Bool) :
    Except Fault CODELPacketQueue :=
  (dropLoop now).run (if okToDrop then q else { q with dropping := false })

/-- `CODELPacketQueue::dequeue` when it starts dropping. -/
def startDropping (q : CODELPacketQueue) (now : ℕ) : Except Fault CODELPacketQueue := do
  let (_, _, q) ← q.dodequeue now
  let delta := q.count - q.lastcount
  let count := if 1 < delta ∧ sizeSub now q.dropNext < (16 * q.interval).toNat then delta else 1
  return { q with
    dropping := true
    count := count
    dropNext := q.controlLaw now count
    lastcount := count }

/-- `CODELPacketQueue::dequeue`. -/
def dequeue (q : CODELPacketQueue) : Except Fault (QueuedPacket × CODELPacketQueue) := do
  let now := q.clock.head
  let (p, okToDrop, q) ← CODELPacketQueue.dodequeue { q with clock := q.clock.tail } now
  if q.dropping = true then
    let q ← q.dequeueDropping now okToDrop
    return (p, q)
  else if okToDrop = true then
    let q ← q.startDropping now
    return (p, q)
  else return (p, q)

/-- `CODELPacketQueue::enqueue`. -/
def enqueue (q : CODELPacketQueue) (p : QueuedPacket) : Except Fault CODELPacketQueue := do
  let base ← q.acceptWithin p
  return { q with toDroppingPacketQueue := base }

theorem run_dropLoop {q q' : CODELPacketQueue} {now : ℕ} (h : (dropLoop now).run q = .ok q') :
    q'.internalQueue <:+ q.internalQueue := by
  refine Loop.run_post (L := dropLoop now) (I := fun q₁ => q₁.internalQueue <:+ q.internalQueue)
    (Q := fun q₁ => q₁.internalQueue <:+ q.internalQueue)
    (fun q₁ q₂ hs hn => ?_) (fun q₁ q₂ hs hl => ?_) List.suffix_rfl h
  · obtain ⟨p, hp⟩ := dropStep_next hn
    rw [hp] at hs
    exact (List.suffix_cons p _).trans hs
  · rwa [dropStep_leave hl]

/-- **`dequeue` returns the packet in front,** and drops packets behind it. -/
theorem dequeue_eq_ok {q q' : CODELPacketQueue} {p : QueuedPacket} (h : q.dequeue = .ok (p, q')) :
    p :: q'.internalQueue <+ q.internalQueue := by
  obtain ⟨⟨p₁, okToDrop, q₁⟩, hq₁, h⟩ := bind_eq_ok.1 h
  have hqueue : q.internalQueue = p₁ :: q₁.internalQueue := (dodequeue_eq_ok hq₁).1
  have hfront : ∀ {q₂ : CODELPacketQueue}, q₂.internalQueue <:+ q₁.internalQueue →
      p₁ :: q₂.internalQueue <+ q.internalQueue := fun hs => by
    rw [hqueue]
    exact hs.sublist.cons_cons p₁
  dsimp only at h
  split_ifs at h
  · obtain ⟨q₂, hq₂, h⟩ := bind_eq_ok.1 h
    cases h
    refine hfront ((run_dropLoop hq₂).trans ?_)
    split_ifs <;> exact List.suffix_rfl
  · obtain ⟨q₂, hq₂, h⟩ := bind_eq_ok.1 h
    cases h
    obtain ⟨⟨p₃, okToDrop₃, q₃⟩, hq₃, hq₂⟩ := bind_eq_ok.1 hq₂
    cases hq₂
    refine hfront ?_
    rw [(dodequeue_eq_ok hq₃).1]
    exact List.suffix_cons p₃ _
  · cases h
    exact hfront List.suffix_rfl

theorem enqueue_eq_ok {q q' : CODELPacketQueue} {p : QueuedPacket} (h : q.enqueue p = .ok q') :
    q'.internalQueue = q.internalQueue ++ [p] ∨ q'.internalQueue = q.internalQueue := by
  obtain ⟨base, hbase, h⟩ := bind_eq_ok.1 h
  cases h
  exact DroppingPacketQueue.acceptWithin_eq_ok hbase

end CODELPacketQueue

end V2Proxy
