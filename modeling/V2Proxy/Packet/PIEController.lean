/-
# `PIEPacketQueue` over any numbers

The functions of `src/packet/pie_packet_queue.cc` once more, with any arithmetic in the place
of that of `double`: `Float`, or exact numbers.  The readings of the clock and the draw of the
random generator are arguments.  With `Float` these are the functions of `PIEPacketQueue`
(`enqueue_state`, `dequeue_state`).

`catchUp` is `calculate_drop_prob`, `arrive` is what `enqueue` does after it, and `takeOff`
what `dequeue` does before it.
-/

import V2Proxy.Packet.PIECatchUp
import Mathlib.Data.Rat.Defs

namespace V2Proxy

open Foundations

/-- The arithmetic of `double`, exact or not. -/
class Arithmetic (F : Type) extends Add F, Mul F, Div F, LT F, BEq F, OfScientific F,
    IntCast F where
  ofNat : ∀ n, OfNat F n
  decLt : DecidableLT F

attribute [reducible, instance] Arithmetic.ofNat Arithmetic.decLt

/-- The arithmetic of the code. -/
instance : Arithmetic Float where
  intCast := Float.ofInt
  ofNat _ := inferInstance
  decLt := inferInstance

/-- Exact arithmetic. -/
instance : Arithmetic ℚ where
  ofNat n := ⟨(n : ℚ)⟩
  decLt := inferInstance

/-- The members of `PIEPacketQueue`. -/
structure PIEState (F : Type) extends DroppingPacketQueue where
  qdelayRef : UInt32
  maxBurst : UInt32
  dropProb : F
  burstAllowance : UInt32 := 0
  qdelayOld : UInt32 := 0
  currentQdelay : UInt32 := 0
  dqCount : UInt32 := DQ_COUNT_INVALID
  dqTstamp : UInt32 := 0
  avgDqRate : UInt32 := 0
  /-- a `uint64_t` -/
  lastUpdate : ℕ

namespace PIEState

variable {F : Type}

/-- A measurement starts when enough bytes wait and none is under way. -/
def startMeasurement (q : PIEState F) (now : UInt32) (sizeInBytes : ℕ) : PIEState F :=
  if PIEPacketQueue.dqThreshold ≤ sizeInBytes ∧ q.dqCount = DQ_COUNT_INVALID then
    { q with dqTstamp := now, dqCount := 0 }
  else q

/-- A measurement that is over is followed by another one, if enough bytes
wait. -/
def endMeasurement (q : PIEState F) (now : UInt32) (sizeInBytes : ℕ) : PIEState F :=
  if sizeInBytes < PIEPacketQueue.dqThreshold then { q with dqCount := DQ_COUNT_INVALID }
  else { q with dqCount := 0, dqTstamp := now }

/-- The burst that is allowed shrinks by the time of the measurement. -/
def spendBurst (q : PIEState F) (dtime : UInt32) : PIEState F :=
  { q with burstAllowance :=
      if 0 < q.burstAllowance ∧ dtime < q.burstAllowance then q.burstAllowance - dtime else 0 }

/-- The rate sample of `dequeue`. -/
def sampleRate (q : PIEState F) (dtime : UInt32) : PIEState F :=
  let rateSample := q.dqCount / dtime
  { q with avgDqRate := if q.avgDqRate = 0 then rateSample
      else q.avgDqRate - q.avgDqRate >>> 3 + rateSample >>> 3 }

/-- The measurement of `dequeue`, once it is under way. -/
def measureRate (q : PIEState F) (now : UInt32) (size sizeInBytes : ℕ) : PIEState F :=
  let q := { q with dqCount := q.dqCount + UInt32.ofNat size }
  let dtime := now - q.dqTstamp
  if PIEPacketQueue.dqThreshold < q.dqCount.toNat ∧ 0 < dtime then
    ((q.sampleRate dtime).endMeasurement now sizeInBytes).spendBurst dtime
  else q

/-- The measurement of `dequeue`, with `size_bytes()` known. -/
def measureDequeue (q : PIEState F) (now : UInt32) (size sizeInBytes : ℕ) : PIEState F :=
  let q := q.startMeasurement now sizeInBytes
  if q.dqCount ≠ DQ_COUNT_INVALID then q.measureRate now size sizeInBytes else q

/-- What `dequeue` does before `calculate_drop_prob`. -/
def takeOff (q : PIEState F) (now : ℕ) : Except Fault (QueuedPacket × PIEState F) := do
  let (ret, base) ← q.toDroppingPacketQueue.dequeue
  let q := { q with toDroppingPacketQueue := base }
  let sizeInBytes ← q.sizeBytes
  return (ret, q.measureDequeue (UInt32.ofNat now) ret.contents.length sizeInBytes)

variable [Arithmetic F]

/-- `PIEPacketQueue::PIEPacketQueue`. -/
def new (args : Bytes) (timestamp : ℕ) : Except Fault (PIEState F) := do
  let base ← DroppingPacketQueue.new args
  let qdelayRef ← DroppingPacketQueue.getArg args (ascii "qdelay_ref")
  let maxBurst ← DroppingPacketQueue.getArg args (ascii "max_burst")
  if qdelayRef = 0 ∨ maxBurst = 0 then
    .error (.runtimeError (ascii "PIE AQM queue must have " ++
      ascii "qdelay_ref and max_burst parameters"))
  else return { base with
    qdelayRef := UInt32.ofNat qdelayRef, maxBurst := UInt32.ofNat maxBurst, dropProb := 0,
    lastUpdate := timestamp }

/-- `(int)( a - b )` of two `uint32_t`s. -/
def intDifference (a b : UInt32) : F := ((toInt32 (a - b).toNat : ℤ) : F)

/-- The new `drop_prob_` before it is reduced, and `update_prob`. -/
def nextDropProb (q : PIEState F) (updateProb : Bool) : F × Bool :=
  let p := 0.125 * intDifference q.currentQdelay q.qdelayRef +
    1.25 * intDifference q.currentQdelay q.qdelayOld
  let p := if q.dropProb < 0.01 then p / 128 else if q.dropProb < 0.1 then p / 32 else p / 16
  let dropProb := q.dropProb + p
  if dropProb < 0 then (0, updateProb)
  else if 1 < dropProb then (1, false)
  else (dropProb, updateProb)

/-- The delay that the update sees, with `size_bytes()` known. -/
def updateDelay (q : PIEState F) (sizeInBytes : ℕ) : PIEState F :=
  { q with
    qdelayOld := q.currentQdelay
    currentQdelay := if 0 < q.avgDqRate then UInt32.ofNat sizeInBytes / q.avgDqRate else 0 }

/-- The rest of the update, with the new `drop_prob_` and `update_prob` known: the probability
decays when nothing waits, the burst that is allowed shrinks, and a calm queue starts afresh. -/
def applyDropProb (q : PIEState F) (next : F × Bool) : PIEState F :=
  let q := { q with
    dropProb := if q.currentQdelay = 0 ∧ q.qdelayOld = 0 ∧ next.2 then next.1 * 0.98 else next.1
    burstAllowance := PIEPacketQueue.reducedBurst q.burstAllowance
    lastUpdate := (q.lastUpdate + PIEPacketQueue.tUpdate) % 2 ^ 64 }
  if q.dropProb == 0 ∧ q.currentQdelay < q.qdelayRef / 2 ∧ q.qdelayOld < q.qdelayRef / 2 ∧
      0 < q.avgDqRate then
    { q with dqCount := DQ_COUNT_INVALID, avgDqRate := 0, burstAllowance := q.maxBurst }
  else q

/-- The updates of a round of `calculate_drop_prob`, with `size_bytes()` known. -/
def update (q : PIEState F) (sizeInBytes : ℕ) : PIEState F :=
  let q := q.updateDelay sizeInBytes
  q.applyDropProb (q.nextDropProb ¬ (q.currentQdelay = 0 ∧ sizeInBytes ≠ 0))

/-- A round of the `while` loop of `calculate_drop_prob`. -/
def updateStep (now : ℕ) (q : PIEState F) : Except Fault (PIEState F ⊕ PIEState F) :=
  if PIEPacketQueue.tUpdate < sizeSub now q.lastUpdate then do
    let sizeInBytes ← q.sizeBytes
    return .inl (q.update sizeInBytes)
  else return .inr q

/-- An update does not touch the queue. -/
theorem update_base (q : PIEState F) (sizeInBytes : ℕ) :
    (q.update sizeInBytes).toDroppingPacketQueue = q.toDroppingPacketQueue ∧
      (q.update sizeInBytes).lastUpdate = (q.lastUpdate + PIEPacketQueue.tUpdate) % 2 ^ 64 := by
  unfold update applyDropProb
  dsimp only
  split_ifs <;> exact ⟨rfl, rfl⟩

/-- A round that goes on is one period. -/
theorem updateStep_next {now : ℕ} {q q' : PIEState F} (h : updateStep now q = .ok (.inl q')) :
    PIEPacketQueue.tUpdate < sizeSub now q.lastUpdate ∧
      ∃ sizeInBytes, q.sizeBytes = .ok sizeInBytes ∧ q' = q.update sizeInBytes := by
  rw [updateStep] at h
  split_ifs at h with hlate
  · obtain ⟨sizeInBytes, hsize, h⟩ := bind_eq_ok.1 h
    cases h
    exact ⟨hlate, sizeInBytes, hsize, rfl⟩
  · cases h

/-- Each period brings the last update nearer to the present. -/
theorem updateStep_decreases {now : ℕ} {q q' : PIEState F}
    (h : updateStep now q = .ok (.inl q')) :
    sizeSub now q'.lastUpdate < sizeSub now q.lastUpdate := by
  obtain ⟨hlate, sizeInBytes, -, rfl⟩ := updateStep_next h
  rw [(update_base _ sizeInBytes).2]
  simp only [sizeSub, PIEPacketQueue.tUpdate] at hlate ⊢
  omega

/-- The `while` loop of `calculate_drop_prob`. -/
def updateLoop (now : ℕ) : Loop Fault (PIEState F) (PIEState F) where
  step := updateStep now
  measure q := sizeSub now q.lastUpdate
  decreases := updateStep_decreases

/-- `PIEPacketQueue::calculate_drop_prob`, where the clock reads `now`. -/
def catchUp (q : PIEState F) (now : ℕ) : Except Fault (PIEState F) := (updateLoop now).run q

/-- `PIEPacketQueue::drop_early`; `draw` is what the random generator returns, if it is
asked. -/
def dropEarly (q : PIEState F) (draw : F) : Except Fault Bool :=
  if 0 < q.burstAllowance then .ok false
  else if q.qdelayOld < q.qdelayRef / 2 ∧ q.dropProb < 0.2 then .ok false
  else do
    let sizeInBytes ← q.sizeBytes
    if sizeInBytes < 2 * PIEPacketQueue.PACKET_SIZE then return false
    else return draw < q.dropProb

/-- What `enqueue` does after `calculate_drop_prob`. -/
def arrive (q : PIEState F) (draw : F) (p : QueuedPacket) : Except Fault (PIEState F) := do
  let within ← q.goodWithPacket p
  if within = false then return q
  else
    let early ← q.dropEarly draw
    let base := if early then q.toDroppingPacketQueue else q.accept p
    base.assertGood
    return { q with toDroppingPacketQueue := base }

/-- `PIEPacketQueue::enqueue`. -/
def enqueue (q : PIEState F) (now : ℕ) (draw : F) (p : QueuedPacket) :
    Except Fault (PIEState F) := do
  let q ← q.catchUp now
  q.arrive draw p

/-- `PIEPacketQueue::dequeue`; `later` is the reading of the clock in `calculate_drop_prob`. -/
def dequeue (q : PIEState F) (now later : ℕ) : Except Fault (QueuedPacket × PIEState F) := do
  let (ret, q) ← q.takeOff now
  let q ← q.catchUp later
  return (ret, q)

end PIEState

namespace PIEPacketQueue

/-- The members without the readings and draws that are still to come. -/
def state (q : PIEPacketQueue) : PIEState Float :=
  { q.toDroppingPacketQueue with
    qdelayRef := q.qdelayRef
    maxBurst := q.maxBurst
    dropProb := q.dropProb
    burstAllowance := q.burstAllowance
    qdelayOld := q.qdelayOld
    currentQdelay := q.currentQdelay
    dqCount := q.dqCount
    dqTstamp := q.dqTstamp
    avgDqRate := q.avgDqRate
    lastUpdate := q.lastUpdate }

/-- With `Float`, the constructor is that of `PIEPacketQueue`. -/
theorem new_state (args : Bytes) (clock : Stream' ℕ) (draws : Stream' Float) :
    (new args clock draws).map state = PIEState.new args clock.head := by
  rw [new, PIEState.new]
  rcases DroppingPacketQueue.new args with e | base
  · rfl
  · rw [ok_bind, ok_bind]
    rcases DroppingPacketQueue.getArg args (ascii "qdelay_ref") with e | qdelayRef
    · rfl
    · rw [ok_bind, ok_bind]
      rcases DroppingPacketQueue.getArg args (ascii "max_burst") with e | maxBurst
      · rfl
      · rw [ok_bind, ok_bind]
        split_ifs <;> rfl

/-- The cast of the instance of `Float`. -/
theorem intCast_float (z : ℤ) : @Int.cast Float Arithmetic.toIntCast z = Float.ofInt z := rfl

/-- The controller over `Float` is that of the code: the difference of two times. -/
theorem intDifference_state (a b : UInt32) :
    (PIEState.intDifference a b : Float) = intDifference a b := by
  rw [PIEState.intDifference, intDifference]
  exact intCast_float _

/-- The drop probability. -/
theorem nextDropProb_state (q : PIEPacketQueue) (updateProb : Bool) :
    q.state.nextDropProb updateProb = q.nextDropProb updateProb := by
  have href : (PIEState.intDifference q.state.currentQdelay q.state.qdelayRef : Float) =
    intDifference q.currentQdelay q.qdelayRef := intDifference_state _ _
  have hold : (PIEState.intDifference q.state.currentQdelay q.state.qdelayOld : Float) =
    intDifference q.currentQdelay q.qdelayOld := intDifference_state _ _
  rw [PIEState.nextDropProb, nextDropProb, href, hold]
  generalize intDifference q.currentQdelay q.qdelayRef = x
  generalize intDifference q.currentQdelay q.qdelayOld = y
  rfl

/-- One period. -/
theorem update_state (q : PIEPacketQueue) (sizeInBytes : ℕ) :
    (q.update sizeInBytes).state = q.state.update sizeInBytes := by
  unfold update
  extract_lets q₁
  have hdelay : q.state.updateDelay sizeInBytes = q₁.state := rfl
  rw [PIEState.update, hdelay, nextDropProb_state]
  change _ = q₁.state.applyDropProb (q₁.nextDropProb ¬ (q₁.currentQdelay = 0 ∧ sizeInBytes ≠ 0))
  generalize q₁.nextDropProb _ = next
  obtain ⟨dropProb, updateProb⟩ := next
  clear_value q₁
  dsimp only
  rw [apply_ite state]
  rfl

/-- The start of a measurement. -/
theorem startMeasurement_state (q : PIEPacketQueue) (now : UInt32) (sizeInBytes : ℕ) :
    (q.startMeasurement now sizeInBytes).state = q.state.startMeasurement now sizeInBytes := by
  rw [startMeasurement, apply_ite state]
  rfl

/-- Its end. -/
theorem endMeasurement_state (q : PIEPacketQueue) (now : UInt32) (sizeInBytes : ℕ) :
    (q.endMeasurement now sizeInBytes).state = q.state.endMeasurement now sizeInBytes := by
  rw [endMeasurement, apply_ite state]
  rfl

/-- The rate of one dequeue. -/
theorem measureRate_state (q : PIEPacketQueue) (now : UInt32) (size sizeInBytes : ℕ) :
    (q.measureRate now size sizeInBytes).state = q.state.measureRate now size sizeInBytes := by
  have hover : ∀ (q : PIEPacketQueue) (dtime : UInt32),
      (((q.sampleRate dtime).endMeasurement now sizeInBytes).spendBurst dtime).state =
        ((q.state.sampleRate dtime).endMeasurement now sizeInBytes).spendBurst dtime := by
    intro q dtime
    have hsample : (q.sampleRate dtime).state = q.state.sampleRate dtime := rfl
    rw [← hsample, ← endMeasurement_state]
    rfl
  rw [measureRate, apply_ite state, hover]
  rfl

/-- A dequeue. -/
theorem measureDequeue_state (q : PIEPacketQueue) (now : UInt32) (size sizeInBytes : ℕ) :
    (q.measureDequeue now size sizeInBytes).state =
      q.state.measureDequeue now size sizeInBytes := by
  rw [PIEState.measureDequeue, ← startMeasurement_state, ← measureRate_state, measureDequeue,
    apply_ite state]
  rfl

/-- A round of the one loop is a round of the other. -/
theorem updateStep_state (now : ℕ) (q : PIEPacketQueue) :
    PIEState.updateStep now q.state = (updateStep now q).map (Sum.map state state) := by
  change (if tUpdate < sizeSub now q.lastUpdate then
      q.sizeBytes >>= fun sizeInBytes => .ok (Sum.inl (q.state.update sizeInBytes))
    else .ok (Sum.inr q.state)) = _
  rw [updateStep]
  split_ifs
  · rcases q.sizeBytes with e | sizeInBytes
    · rfl
    · rw [ok_bind, ok_bind, ← update_state]
      rfl
  · rfl

/-- The periods that were missed. -/
theorem catchUp_state (q : PIEPacketQueue) :
    q.state.catchUp q.clock.head = q.calculateDropProb.map state := by
  have hround : ∀ q' r, updateStep q.clock.head q' = r →
      PIEState.updateStep q.clock.head q'.state = r.map (Sum.map state state) := by
    rintro q' r rfl
    exact updateStep_state _ q'
  have hrun : q.state.catchUp q.clock.head = (updateLoop q.clock.head).run
      { q with clock := q.clock.tail } >>= fun q' => .ok q'.state :=
    Loop.run_simulate (L := updateLoop q.clock.head) (M := PIEState.updateLoop q.clock.head)
      (I := fun _ => True) (F := state) (fun q' e _ h => hround q' _ h)
      (fun q' q'' _ h => ⟨trivial, hround q' _ h⟩)
      (fun q' q'' _ h => Loop.run_of_leave (hround q' _ h))
      (s := { q with clock := q.clock.tail }) trivial
  refine hrun.trans ?_
  change q.calculateDropProb >>= _ = _
  rcases q.calculateDropProb with e | q' <;> rfl

/-- Catching up draws no random numbers. -/
theorem calculateDropProb_draws {q q' : PIEPacketQueue} (h : q.calculateDropProb = .ok q') :
    q'.draws = q.draws := by
  refine Loop.run_post (L := updateLoop q.clock.head) (I := fun q₁ => q₁.draws = q.draws)
    (Q := fun q₁ => q₁.draws = q.draws) (fun q₁ q₂ hq₁ hnext => ?_)
    (fun q₁ q₂ hq₁ hleave => updateStep_leave hleave ▸ hq₁)
    (s := { q with clock := q.clock.tail }) rfl h
  change updateStep _ q₁ = _ at hnext
  rw [updateStep] at hnext
  split_ifs at hnext
  · obtain ⟨sizeInBytes, -, hnext⟩ := bind_eq_ok.1 hnext
    cases hnext
    unfold update
    dsimp only
    split_ifs <;> exact hq₁
  · cases hnext

/-- The early drop. -/
theorem dropEarly_state (q : PIEPacketQueue) :
    q.state.dropEarly q.draws.head = q.dropEarly.map Prod.fst := by
  change (if 0 < q.burstAllowance then .ok false
    else if q.qdelayOld < q.qdelayRef / 2 ∧ q.dropProb < 0.2 then .ok false
    else q.sizeBytes >>= fun sizeInBytes =>
      if sizeInBytes < 2 * PACKET_SIZE then .ok false else .ok (q.draws.head < q.dropProb)) = _
  rw [dropEarly]
  split_ifs
  · rfl
  · rfl
  · rcases q.sizeBytes with e | sizeInBytes
    · rfl
    · rw [ok_bind, ok_bind]
      split_ifs <;> rfl

/-- Only a random number is taken for it. -/
theorem dropEarly_kept {q q' : PIEPacketQueue} {early : Bool}
    (h : q.dropEarly = .ok (early, q')) : q'.state = q.state := by
  rw [dropEarly] at h
  split_ifs at h
  · cases h
    rfl
  · cases h
    rfl
  · obtain ⟨sizeInBytes, -, h⟩ := bind_eq_ok.1 h
    split_ifs at h <;> cases h <;> rfl

/-- An arrival. -/
theorem arrive_state (q : PIEPacketQueue) (p : QueuedPacket) :
    q.state.arrive q.draws.head p = Except.map state (do
      let within ← q.goodWithPacket p
      if within = false then return q
      else
        let (early, q) ← q.dropEarly
        let base := if early then q.toDroppingPacketQueue else q.accept p
        base.assertGood
        return { q with toDroppingPacketQueue := base }) := by
  rw [PIEState.arrive]
  change (q.goodWithPacket p >>= _) = _
  rcases q.goodWithPacket p with e | within
  · rfl
  · rw [ok_bind, ok_bind]
    split_ifs
    · rfl
    · rw [dropEarly_state]
      rcases hearly : q.dropEarly with e | ⟨early, q₁⟩
      · rfl
      · have hstate := dropEarly_kept hearly
        have hbase := dropEarly_base hearly
        change ((if early then q.toDroppingPacketQueue else q.accept p).assertGood >>= fun _ =>
          .ok { q.state with
            toDroppingPacketQueue := if early then q.toDroppingPacketQueue else q.accept p }) = _
        rw [← hstate, ← hbase]
        change _ = Except.map state
          ((if early then q₁.toDroppingPacketQueue else q₁.accept p).assertGood >>= _)
        rcases (if early then q₁.toDroppingPacketQueue else q₁.accept p).assertGood <;> rfl

/-- With `Float`, `enqueue` is that of `PIEPacketQueue`. -/
theorem enqueue_state (q : PIEPacketQueue) (p : QueuedPacket) :
    (q.enqueue p).map state = q.state.enqueue q.clock.head q.draws.head p := by
  rw [PIEState.enqueue, catchUp_state, enqueue]
  rcases hq : q.calculateDropProb with e | q₁
  · rfl
  · rw [← calculateDropProb_draws hq]
    exact (q₁.arrive_state p).symm

/-- What `dequeue` does once the packet is out. -/
theorem measured_state (q : PIEPacketQueue) (ret : QueuedPacket) (now : UInt32) :
    (q.sizeBytes >>= fun sizeInBytes =>
        (q.measureDequeue now ret.contents.length sizeInBytes).calculateDropProb >>= fun q =>
          .ok (ret, q)).map (fun x => (x.1, x.2.state)) =
      (q.sizeBytes >>= fun sizeInBytes =>
        .ok (ret, q.state.measureDequeue now ret.contents.length sizeInBytes)) >>= fun x =>
          x.2.catchUp q.clock.head >>= fun q => .ok (x.1, q) := by
  rcases q.sizeBytes with e | sizeInBytes
  · rfl
  rw [ok_bind, ok_bind, ok_bind, ← measureDequeue_state, ← (measureDequeue_times q _ _ _).2,
    catchUp_state]
  rcases (q.measureDequeue now ret.contents.length sizeInBytes).calculateDropProb <;> rfl

/-- With `Float`, `dequeue` is that of `PIEPacketQueue`. -/
theorem dequeue_state (q : PIEPacketQueue) :
    q.dequeue.map (fun x => (x.1, x.2.state)) =
      q.state.dequeue q.clock.head q.clock.tail.head := by
  rw [PIEState.dequeue, PIEState.takeOff, dequeue]
  change _ = (q.toDroppingPacketQueue.dequeue >>= _) >>= _
  rcases q.toDroppingPacketQueue.dequeue with e | ⟨ret, base⟩
  · rfl
  · exact measured_state { q with toDroppingPacketQueue := base, clock := q.clock.tail } ret _

end PIEPacketQueue

end V2Proxy
