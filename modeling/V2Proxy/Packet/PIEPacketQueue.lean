/-
# `PIEPacketQueue`

`src/packet/pie_packet_queue.cc`: a `DroppingPacketQueue` that drops arriving
packets at random, with a probability that it updates for every 30 ms that have
passed.  Its `double`s are `Float`s.  The readings that `timestamp()` and the
numbers that the random generator are still to return are streams in the state.
-/

import V2Proxy.Packet.DroppingPacketQueue
import Mathlib.Data.Stream.Defs

namespace V2Proxy

open Foundations

/-- `DQ_COUNT_INVALID`. -/
def DQ_COUNT_INVALID : UInt32 := 2 ^ 32 - 1

/-- `PIEPacketQueue`: the queue, the drop probability and the measurement of the rate.
-/
structure PIEPacketQueue extends DroppingPacketQueue where
  qdelayRef : UInt32
  maxBurst : UInt32
  dropProb : Float := 0
  burstAllowance : UInt32 := 0
  qdelayOld : UInt32 := 0
  currentQdelay : UInt32 := 0
  dqCount : UInt32 := DQ_COUNT_INVALID
  dqTstamp : UInt32 := 0
  avgDqRate : UInt32 := 0
  /-- a `uint64_t` -/
  lastUpdate : ℕ
  /-- the readings `timestamp()` is still to return -/
  clock : Stream' ℕ
  /-- what `uniform_generator_( prng_ )` is still to return -/
  draws : Stream' Float

namespace PIEPacketQueue

/-- `PACKET_SIZE`. -/
def PACKET_SIZE : ℕ := 1504

/-- `alpha_`. -/
def alpha : Float := 0.125

/-- `beta_`. -/
def beta : Float := 1.25

/-- `t_update_`, in ms. -/
def tUpdate : ℕ := 30

/-- `dq_threshold_`, in bytes. -/
def dqThreshold : ℕ := 16384

/-- `PIEPacketQueue::PIEPacketQueue`. -/
def new (args : Bytes) (clock : Stream' ℕ) (draws : Stream' Float) : Except Fault PIEPacketQueue := do
  let base ← DroppingPacketQueue.new args
  let qdelayRef ← DroppingPacketQueue.getArg args (ascii "qdelay_ref")
  let maxBurst ← DroppingPacketQueue.getArg args (ascii "max_burst")
  if qdelayRef = 0 ∨ maxBurst = 0 then
    .error (.runtimeError (ascii "PIE AQM queue must have " ++
      ascii "qdelay_ref and max_burst parameters"))
  else return { base with
    qdelayRef := UInt32.ofNat qdelayRef, maxBurst := UInt32.ofNat maxBurst,
    lastUpdate := clock.head, clock := clock.tail, draws := draws }

/-- A new queue has read the clock once. -/
theorem new_eq_ok {args : Bytes} {clock : Stream' ℕ} {draws : Stream' Float} {q : PIEPacketQueue}
    (h : new args clock draws = .ok q) :
    ∃ base qdelayRef maxBurst, DroppingPacketQueue.new args = .ok base ∧ q = { base with
      qdelayRef := qdelayRef, maxBurst := maxBurst,
      lastUpdate := clock.head, clock := clock.tail, draws := draws } := by
  obtain ⟨base, hbase, h⟩ := bind_eq_ok.1 h
  obtain ⟨qdelayRef, -, h⟩ := bind_eq_ok.1 h
  obtain ⟨maxBurst, -, h⟩ := bind_eq_ok.1 h
  split_ifs at h
  cases h
  exact ⟨base, _, _, hbase, rfl⟩

/-- `timestamp()`. -/
def timestamp (q : PIEPacketQueue) : ℕ × PIEPacketQueue :=
  (q.clock.head, { q with clock := q.clock.tail })

/-- `(int)( a - b )` of two `uint32_t`s, as a `double`. -/
def intDifference (a b : UInt32) : Float := Float.ofInt (toInt32 (a - b).toNat)

/-- The new `drop_prob_` before it is reduced, and `update_prob`. -/
def nextDropProb (q : PIEPacketQueue) (updateProb : Bool) : Float × Bool :=
  let p := alpha * intDifference q.currentQdelay q.qdelayRef +
    beta * intDifference q.currentQdelay q.qdelayOld
  let p := if q.dropProb < 0.01 then p / 128 else if q.dropProb < 0.1 then p / 32 else p / 16
  let dropProb := q.dropProb + p
  if dropProb < 0 then (0, updateProb)
  else if 1 < dropProb then (1, false)
  else (dropProb, updateProb)

/-- `max( 0, (int) burst_allowance_ - (int) t_update_ )`. -/
def reducedBurst (burstAllowance : UInt32) : UInt32 :=
  UInt32.ofNat (max 0 (toInt32 burstAllowance.toNat - tUpdate)).toNat

/-- The updates of a round of `calculate_drop_prob`, with `size_bytes()` known. -/
def update (q : PIEPacketQueue) (sizeInBytes : ℕ) : PIEPacketQueue :=
  let q := { q with
    qdelayOld := q.currentQdelay
    currentQdelay := if 0 < q.avgDqRate then UInt32.ofNat sizeInBytes / q.avgDqRate else 0 }
  let (dropProb, updateProb) := q.nextDropProb ¬ (q.currentQdelay = 0 ∧ sizeInBytes ≠ 0)
  let q := { q with
    dropProb := if q.currentQdelay = 0 ∧ q.qdelayOld = 0 ∧ updateProb then dropProb * 0.98
      else dropProb
    burstAllowance := reducedBurst q.burstAllowance
    lastUpdate := (q.lastUpdate + tUpdate) % 2 ^ 64 }
  if q.dropProb == 0 ∧ q.currentQdelay < q.qdelayRef / 2 ∧ q.qdelayOld < q.qdelayRef / 2 ∧
      0 < q.avgDqRate then
    { q with dqCount := DQ_COUNT_INVALID, avgDqRate := 0, burstAllowance := q.maxBurst }
  else q

/-- A round of the `while` loop of `calculate_drop_prob`. -/
def updateStep (now : ℕ) (q : PIEPacketQueue) : Except Fault (PIEPacketQueue ⊕ PIEPacketQueue) :=
  if tUpdate < sizeSub now q.lastUpdate then do
    let sizeInBytes ← q.sizeBytes
    return .inl (q.update sizeInBytes)
  else return .inr q

/-- An update does not touch the queue. -/
theorem update_base (q : PIEPacketQueue) (sizeInBytes : ℕ) :
    (q.update sizeInBytes).toDroppingPacketQueue = q.toDroppingPacketQueue ∧
      (q.update sizeInBytes).lastUpdate = (q.lastUpdate + tUpdate) % 2 ^ 64 := by
  unfold update
  dsimp only
  split_ifs <;> exact ⟨rfl, rfl⟩

/-- A round of the replay leaves the packets, and less to replay. -/
theorem updateStep_next {now : ℕ} {q q' : PIEPacketQueue} (h : updateStep now q = .ok (.inl q')) :
    q'.toDroppingPacketQueue = q.toDroppingPacketQueue ∧
      sizeSub now q'.lastUpdate < sizeSub now q.lastUpdate := by
  rw [updateStep] at h
  split_ifs at h with hlate
  · obtain ⟨sizeInBytes, -, h⟩ := bind_eq_ok.1 h
    cases h
    obtain ⟨hbase, hlast⟩ := q.update_base sizeInBytes
    refine ⟨hbase, ?_⟩
    rw [hlast]
    simp only [sizeSub, tUpdate] at hlate ⊢
    omega
  · cases h

/-- The last round does nothing. -/
theorem updateStep_leave {now : ℕ} {q q' : PIEPacketQueue} (h : updateStep now q = .ok (.inr q')) :
    q' = q := by
  rw [updateStep] at h
  split_ifs at h
  · obtain ⟨_, -, h⟩ := bind_eq_ok.1 h
    cases h
  · cases h
    rfl

/-- The `while` loop of `calculate_drop_prob`. -/
def updateLoop (now : ℕ) : Loop Fault PIEPacketQueue PIEPacketQueue where
  step := updateStep now
  measure q := sizeSub now q.lastUpdate
  decreases h := (updateStep_next h).2

/-- `PIEPacketQueue::calculate_drop_prob`. -/
def calculateDropProb (q : PIEPacketQueue) : Except Fault PIEPacketQueue :=
  let (now, q) := q.timestamp
  (updateLoop now).run q

/-- `PIEPacketQueue::drop_early`: whether to drop, and the queue after a draw. -/
def dropEarly (q : PIEPacketQueue) : Except Fault (Bool × PIEPacketQueue) :=
  if 0 < q.burstAllowance then .ok (false, q)
  else if q.qdelayOld < q.qdelayRef / 2 ∧ q.dropProb < 0.2 then .ok (false, q)
  else do
    let sizeInBytes ← q.sizeBytes
    if sizeInBytes < 2 * PACKET_SIZE then return (false, q)
    else return (q.draws.head < q.dropProb, { q with draws := q.draws.tail })

/-- `PIEPacketQueue::enqueue`. -/
def enqueue (q : PIEPacketQueue) (p : QueuedPacket) : Except Fault PIEPacketQueue := do
  let q ← q.calculateDropProb
  let within ← q.goodWithPacket p
  if within = false then return q
  else
    let (early, q) ← q.dropEarly
    let base := if early then q.toDroppingPacketQueue else q.accept p
    base.assertGood
    return { q with toDroppingPacketQueue := base }

/-- A measurement starts when enough bytes wait and none is under way. -/
def startMeasurement (q : PIEPacketQueue) (now : UInt32) (sizeInBytes : ℕ) : PIEPacketQueue :=
  if dqThreshold ≤ sizeInBytes ∧ q.dqCount = DQ_COUNT_INVALID then
    { q with dqTstamp := now, dqCount := 0 }
  else q

/-- A measurement that is over is followed by another one, if enough bytes
wait. -/
def endMeasurement (q : PIEPacketQueue) (now : UInt32) (sizeInBytes : ℕ) : PIEPacketQueue :=
  if sizeInBytes < dqThreshold then { q with dqCount := DQ_COUNT_INVALID }
  else { q with dqCount := 0, dqTstamp := now }

/-- The burst that is allowed shrinks by the time of the measurement. -/
def spendBurst (q : PIEPacketQueue) (dtime : UInt32) : PIEPacketQueue :=
  { q with burstAllowance :=
      if 0 < q.burstAllowance ∧ dtime < q.burstAllowance then q.burstAllowance - dtime else 0 }

/-- The rate sample of `dequeue`. -/
def sampleRate (q : PIEPacketQueue) (dtime : UInt32) : PIEPacketQueue :=
  let rateSample := q.dqCount / dtime
  { q with avgDqRate := if q.avgDqRate = 0 then rateSample
      else q.avgDqRate - q.avgDqRate >>> 3 + rateSample >>> 3 }

/-- The measurement of `dequeue`, once it is under way. -/
def measureRate (q : PIEPacketQueue) (now : UInt32) (size sizeInBytes : ℕ) : PIEPacketQueue :=
  let q := { q with dqCount := q.dqCount + UInt32.ofNat size }
  let dtime := now - q.dqTstamp
  if dqThreshold < q.dqCount.toNat ∧ 0 < dtime then
    ((q.sampleRate dtime).endMeasurement now sizeInBytes).spendBurst dtime
  else q

/-- What `dequeue` does before it updates the drop probability, with
`size_bytes()` known. -/
def measureDequeue (q : PIEPacketQueue) (now : UInt32) (size sizeInBytes : ℕ) : PIEPacketQueue :=
  let q := q.startMeasurement now sizeInBytes
  if q.dqCount ≠ DQ_COUNT_INVALID then q.measureRate now size sizeInBytes else q

/-- `PIEPacketQueue::dequeue`. -/
def dequeue (q : PIEPacketQueue) : Except Fault (QueuedPacket × PIEPacketQueue) := do
  let (ret, base) ← q.toDroppingPacketQueue.dequeue
  let (now, q) := timestamp { q with toDroppingPacketQueue := base }
  let sizeInBytes ← q.sizeBytes
  let q ← (q.measureDequeue (UInt32.ofNat now) ret.contents.length sizeInBytes).calculateDropProb
  return (ret, q)

/-- Calculating the probability leaves the packets. -/
theorem calculateDropProb_base {q q' : PIEPacketQueue} (h : q.calculateDropProb = .ok q') :
    q'.toDroppingPacketQueue = q.toDroppingPacketQueue := by
  refine Loop.run_post (L := updateLoop q.clock.head)
    (I := fun q₁ => q₁.toDroppingPacketQueue = q.toDroppingPacketQueue)
    (Q := fun q₁ => q₁.toDroppingPacketQueue = q.toDroppingPacketQueue)
    (fun q₁ q₂ hs hn => (updateStep_next hn).1.trans hs) (fun q₁ q₂ hs hl => ?_)
    (s := { q with clock := q.clock.tail }) rfl h
  rwa [updateStep_leave hl]

/-- **What the measurement of `dequeue` changes.** -/
theorem measureDequeue_eq (q : PIEPacketQueue) (now : UInt32) (size sizeInBytes : ℕ) :
    ∃ burstAllowance dqCount dqTstamp avgDqRate, q.measureDequeue now size sizeInBytes = { q with
      burstAllowance := burstAllowance, dqCount := dqCount, dqTstamp := dqTstamp,
      avgDqRate := avgDqRate } := by
  have hstart : ∃ dqCount dqTstamp, q.startMeasurement now sizeInBytes = { q with
      dqCount := dqCount, dqTstamp := dqTstamp } := by
    unfold startMeasurement
    split_ifs <;> exact ⟨_, _, rfl⟩
  have hrate : ∀ q : PIEPacketQueue, ∃ burstAllowance dqCount dqTstamp avgDqRate,
      q.measureRate now size sizeInBytes = { q with
        burstAllowance := burstAllowance, dqCount := dqCount, dqTstamp := dqTstamp,
        avgDqRate := avgDqRate } := by
    intro q
    unfold measureRate spendBurst endMeasurement sampleRate
    dsimp only
    split_ifs <;> exact ⟨_, _, _, _, rfl⟩
  obtain ⟨dqCount, dqTstamp, hstart⟩ := hstart
  rw [measureDequeue, hstart]
  dsimp only
  split_ifs
  · obtain ⟨_, _, _, _, hrate⟩ := hrate { q with dqCount := dqCount, dqTstamp := dqTstamp }
    exact ⟨_, _, _, _, hrate⟩
  · exact ⟨_, _, _, _, rfl⟩

/-- So does the measurement. -/
theorem measureDequeue_base (q : PIEPacketQueue) (now : UInt32) (size sizeInBytes : ℕ) :
    (q.measureDequeue now size sizeInBytes).toDroppingPacketQueue = q.toDroppingPacketQueue := by
  obtain ⟨_, _, _, _, hmeasure⟩ := q.measureDequeue_eq now size sizeInBytes
  rw [hmeasure]

/-- So does the decision to drop. -/
theorem dropEarly_base {q q' : PIEPacketQueue} {early : Bool} (h : q.dropEarly = .ok (early, q')) :
    q'.toDroppingPacketQueue = q.toDroppingPacketQueue := by
  rw [dropEarly] at h
  split_ifs at h
  · cases h
    rfl
  · cases h
    rfl
  · obtain ⟨sizeInBytes, -, h⟩ := bind_eq_ok.1 h
    split_ifs at h <;> cases h <;> rfl

/-- **`dequeue` returns the packet in front.** -/
theorem dequeue_eq_ok {q q' : PIEPacketQueue} {p : QueuedPacket} (h : q.dequeue = .ok (p, q')) :
    q.internalQueue = p :: q'.internalQueue := by
  obtain ⟨⟨ret, base⟩, hbase, h⟩ := bind_eq_ok.1 h
  obtain ⟨sizeInBytes, -, h⟩ := bind_eq_ok.1 h
  obtain ⟨q₁, hq₁, h⟩ := bind_eq_ok.1 h
  cases h
  have hq := DroppingPacketQueue.dequeue_eq_ok hbase
  rw [calculateDropProb_base hq₁, measureDequeue_base]
  exact hq

/-- `enqueue` puts the packet on the back, or drops it. -/
theorem enqueue_eq_ok {q q' : PIEPacketQueue} {p : QueuedPacket} (h : q.enqueue p = .ok q') :
    q'.internalQueue = q.internalQueue ++ [p] ∨ q'.internalQueue = q.internalQueue := by
  obtain ⟨q₁, hq₁, h⟩ := bind_eq_ok.1 h
  have hbase := calculateDropProb_base hq₁
  obtain ⟨within, -, h⟩ := bind_eq_ok.1 h
  split_ifs at h
  · cases h
    exact Or.inr (by rw [hbase])
  · obtain ⟨⟨early, q₂⟩, hq₂, h⟩ := bind_eq_ok.1 h
    obtain ⟨_, -, h⟩ := bind_eq_ok.1 h
    cases h
    have hearly := dropEarly_base hq₂
    cases early
    · refine Or.inl ?_
      change q₂.internalQueue ++ [p] = _
      rw [hearly, hbase]
    · refine Or.inr ?_
      change q₂.internalQueue = _
      rw [hearly, hbase]

/-- A sound queue passes the updates. -/
theorem calculateDropProb_of_sound {q : PIEPacketQueue} (h : q.toDroppingPacketQueue.Sound) :
    ∃ q', q.calculateDropProb = .ok q' ∧ q'.toDroppingPacketQueue.Sound := by
  refine Loop.run_total (L := updateLoop q.clock.head) (I := fun q => q.toDroppingPacketQueue.Sound)
    (fun q₁ hs => ?_) h
  change (∃ x, updateStep _ q₁ = _ ∧ _) ∨ ∃ s', updateStep _ q₁ = _ ∧ _
  rw [updateStep, hs.sizeBytes]
  split_ifs
  · right
    refine ⟨_, rfl, ?_⟩
    rw [(update_base q₁ _).1]
    exact hs
  · exact Or.inl ⟨q₁, rfl, hs⟩

/-- **A sound queue with a packet can be dequeued.** -/
theorem dequeue_of_sound {q : PIEPacketQueue} (h : q.toDroppingPacketQueue.Sound)
    (hne : q.internalQueue ≠ []) :
    ∃ p q', q.dequeue = .ok (p, q') ∧ q'.toDroppingPacketQueue.Sound := by
  obtain ⟨p, rest, hq⟩ := List.exists_cons_of_ne_nil hne
  obtain ⟨base, hbase, hsound, -⟩ := h.dequeue hq
  set q₁ : PIEPacketQueue := { q with toDroppingPacketQueue := base, clock := q.clock.tail } with hq₁
  have hsize : q₁.sizeBytes = .ok (DroppingPacketQueue.totalBytes base.internalQueue) :=
    hsound.sizeBytes
  have hmeasured := q₁.measureDequeue_base (UInt32.ofNat q.clock.head) p.contents.length
    (DroppingPacketQueue.totalBytes base.internalQueue)
  obtain ⟨q₂, hq₂, hs₂⟩ := calculateDropProb_of_sound (hmeasured ▸ hsound :
    (q₁.measureDequeue (UInt32.ofNat q.clock.head) p.contents.length
      (DroppingPacketQueue.totalBytes base.internalQueue)).toDroppingPacketQueue.Sound)
  refine ⟨p, q₂, ?_, hs₂⟩
  rw [dequeue, hbase, ok_bind]
  change (q₁.sizeBytes >>= _) = _
  rw [hsize, ok_bind, hq₂]
  rfl

/-- **A sound queue stays so** when a packet arrives. -/
theorem enqueue_of_sound {q q' : PIEPacketQueue} (hq : q.toDroppingPacketQueue.Sound)
    {p : QueuedPacket} (hp : p.contents.length < 2 ^ 31) (h : q.enqueue p = .ok q') :
    q'.toDroppingPacketQueue.Sound := by
  obtain ⟨q₁, hq₁, h⟩ := bind_eq_ok.1 h
  have hs := hq
  rw [← calculateDropProb_base hq₁] at hs
  obtain ⟨within, -, h⟩ := bind_eq_ok.1 h
  split_ifs at h
  · cases h
    exact hs
  · obtain ⟨⟨early, q₂⟩, hq₂, h⟩ := bind_eq_ok.1 h
    obtain ⟨_, hgood, h⟩ := bind_eq_ok.1 h
    cases h
    rw [← dropEarly_base hq₂] at hs
    cases early
    · exact (hs.accept hp).sound (DroppingPacketQueue.assertGood_eq_ok hgood)
    · exact hs

end PIEPacketQueue

end V2Proxy
