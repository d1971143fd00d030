/-
# `LinkQueue`

`src/frontend/link_queue.cc`: a link that delivers packets at the times of a
trace.  Each time is an opportunity to send 1504 bytes; a packet may take several
opportunities, and several small packets may share one.  `rationalize` emulates
the link up to a clock reading.

`uint64_t` and `unsigned int` are natural numbers with the reductions written
out.  The readings of the clock are arguments.  The log holds the lines that
`record_arrival`, `record_departure_opportunity` and `record_departure` write;
the header of the log file and the live graphs are left out.

The outer loop of `rationalize` has no bound of its own (a period of a wrapped
clock never ends), so a call is a relation, `Rationalizes`: the loop returns, and
returns that link.  A round of the inner loop is described once, in
`sendStep_next`.
-/

import V2Proxy.Packet.AbstractPacketQueue

namespace V2Proxy

open Foundations

/-- A line of the log. -/
inductive LogEvent where
  /-- `<< arrival_time << " + " << pkt_size` -/
  | arrival (time size : ℕ)
  /-- `<< next_delivery_time() << " # " << PACKET_SIZE` -/
  | opportunity (time size : ℕ)
  /-- `<< departure_time << " - " << size << " " << departure_time - arrival_time` -/
  | departure (time size delay : ℕ)
deriving DecidableEq

structure LinkQueue where
  nextDelivery : ℕ := 0
  schedule : List ℕ
  baseTimestamp : ℕ
  packetQueue : AbstractPacketQueue
  packetInTransit : QueuedPacket := { arrivalTime := 0, contents := [] }
  packetInTransitBytesLeft : ℕ := 0
  outputQueue : List Bytes := []
  log : List LogEvent := []
  repeats : Bool
  finished : Bool := false

namespace LinkQueue

/-- `PACKET_SIZE`. -/
def PACKET_SIZE : ℕ := 1504

/-- One line of the trace. -/
def addLine (filename : Bytes) (schedule : List ℕ) (line : Bytes) : Except Fault (List ℕ) :=
  if line = [] then .error (.runtimeError (filename ++ ascii ": invalid empty line"))
  else do
    let value ← myatoi line 10
    let ms := toUInt64 value
    if schedule ≠ [] ∧ ms < schedule.getLast?.getD 0 then
      .error (.runtimeError (filename ++
        (ascii ": timestamps must be " ++ ascii "monotonically nondecreasing")))
    else return schedule ++ [ms]

/-- The trace loading of `LinkQueue::LinkQueue`. -/
def loadSchedule (filename trace : Bytes) : Except Fault (List ℕ) := do
  let schedule ← (getLines trace).foldlM (addLine filename) []
  if schedule = [] then
    .error (.runtimeError (filename ++ ascii ": no valid timestamps found"))
  else if schedule.getLast?.getD 0 = 0 then
    .error (.runtimeError (filename ++
      (ascii ": trace must last for " ++ ascii "a nonzero amount of time")))
  else return schedule

/-- `LinkQueue::LinkQueue`, with `timestamp()` the base timestamp. -/
def new (filename trace : Bytes) (repeats : Bool) (packetQueue : AbstractPacketQueue)
    (timestamp : ℕ) : Except Fault LinkQueue := do
  let schedule ← loadSchedule filename trace
  return { schedule := schedule, baseTimestamp := timestamp, packetQueue := packetQueue,
           repeats := repeats }

/-- `LinkQueue::record_arrival`. -/
def recordArrival (l : LinkQueue) (arrivalTime pktSize : ℕ) : LinkQueue :=
  { l with log := l.log ++ [.arrival arrivalTime pktSize] }

/-- `LinkQueue::next_delivery_time`. -/
def nextDeliveryTime (l : LinkQueue) : Except Fault ℕ :=
  if l.finished then .ok npos
  else
    match l.schedule[l.nextDelivery]? with
    | some ms => .ok ((ms + l.baseTimestamp) % 2 ^ 64)
    | none => .error (.outOfRange (ascii "vector::_M_range_check"))

/-- The line of an opportunity at `time`. -/
def recordOpportunity (l : LinkQueue) (time : ℕ) : LinkQueue :=
  { l with log := l.log ++ [.opportunity time PACKET_SIZE] }

/-- `LinkQueue::record_departure_opportunity`. -/
def recordDepartureOpportunity (l : LinkQueue) : Except Fault LinkQueue := do
  let time ← l.nextDeliveryTime
  return l.recordOpportunity time

/-- `LinkQueue::record_departure`. -/
def recordDeparture (l : LinkQueue) (departureTime : ℕ) (packet : QueuedPacket) : LinkQueue :=
  { l with log := l.log ++ [.departure departureTime packet.contents.length
      (sizeSub departureTime packet.arrivalTime)] }

/-- The index of the next delivery moves on, and wraps around. -/
def advance (l : LinkQueue) : LinkQueue :=
  let nextDelivery := ((l.nextDelivery + 1) % 2 ^ 32) % l.schedule.length
  if nextDelivery = 0 then
    if l.repeats then
      { l with
        nextDelivery := nextDelivery
        baseTimestamp := (l.baseTimestamp + l.schedule.getLast?.getD 0) % 2 ^ 64 }
    else { l with nextDelivery := nextDelivery, finished := true }
  else { l with nextDelivery := nextDelivery }

/-- Only the schedule's position moves. -/
theorem advance_eq (l : LinkQueue) : ∃ (nextDelivery baseTimestamp : ℕ) (finished : Bool),
    l.advance = { l with
      nextDelivery := nextDelivery, baseTimestamp := baseTimestamp, finished := finished } := by
  rw [advance]
  by_cases hwrap : ((l.nextDelivery + 1) % 2 ^ 32) % l.schedule.length = 0
  · rw [if_pos hwrap]
    by_cases hrepeat : l.repeats = true
    · rw [if_pos hrepeat]
      exact ⟨_, _, _, rfl⟩
    · rw [if_neg hrepeat]
      exact ⟨_, _, _, rfl⟩
  · rw [if_neg hwrap]
    exact ⟨_, _, _, rfl⟩

/-- `LinkQueue::use_a_delivery_opportunity`. -/
def useADeliveryOpportunity (l : LinkQueue) : Except Fault LinkQueue := do
  let l ← l.recordDepartureOpportunity
  return l.advance

/-- The dequeued packet is the one in transit. -/
def load (l : LinkQueue) (p : QueuedPacket) (q : AbstractPacketQueue) : LinkQueue :=
  { l with
    packetQueue := q
    packetInTransit := p
    packetInTransitBytesLeft := p.contents.length % 2 ^ 32 }

/-- The packet in transit has been fully sent.  Its contents are moved to the
output queue. -/
def depart (l : LinkQueue) (thisDeliveryTime : ℕ) : LinkQueue :=
  let l' := l.recordDeparture thisDeliveryTime l.packetInTransit
  { l' with
    packetInTransitBytesLeft := 0
    packetInTransit := { l.packetInTransit with contents := [] }
    outputQueue := l.outputQueue ++ [l.packetInTransit.contents] }

/-- Bytes of the packet in transit are sent. -/
def transmit (thisDeliveryTime bytesLeft : ℕ) (l : LinkQueue) : ℕ × LinkQueue :=
  let amountToSend := min bytesLeft l.packetInTransitBytesLeft
  (bytesLeft - amountToSend,
    if l.packetInTransitBytesLeft - amountToSend = 0 then l.depart thisDeliveryTime
    else { l with packetInTransitBytesLeft := l.packetInTransitBytesLeft - amountToSend })

/-- The assertions of `rationalize`. -/
def assertInTransit (l : LinkQueue) (thisDeliveryTime : ℕ) : Except Fault Unit := do
  assert (l.packetInTransit.arrivalTime ≤ thisDeliveryTime)
    "packet_in_transit_.arrival_time <= this_delivery_time"
  assert (l.packetInTransitBytesLeft ≤ PACKET_SIZE) "packet_in_transit_bytes_left_ <= PACKET_SIZE"
  assert (0 < l.packetInTransitBytesLeft) "packet_in_transit_bytes_left_ > 0"
  assert (l.packetInTransitBytesLeft ≤ l.packetInTransit.contents.length)
    "packet_in_transit_bytes_left_ <= packet_in_transit_.contents.size()"

/-- A round of the inner loop of `rationalize`; the state is
`bytes_left_in_this_delivery` and the link. -/
def sendStep (thisDeliveryTime : ℕ) (s : ℕ × LinkQueue) :
    Except Fault ((ℕ × LinkQueue) ⊕ (ℕ × LinkQueue)) :=
  if s.1 = 0 then return .inr s
  else if s.2.packetInTransitBytesLeft = 0 then
    if s.2.packetQueue.empty then return .inr s
    else do
      let (p, q) ← s.2.packetQueue.dequeue
      (s.2.load p q).assertInTransit thisDeliveryTime
      return .inl (transmit thisDeliveryTime s.1 (s.2.load p q))
  else do
    s.2.assertInTransit thisDeliveryTime
    return .inl (transmit thisDeliveryTime s.1 s.2)

/-- What the assertions leave of a packet in transit. -/
structure InTransit (l : LinkQueue) (thisDeliveryTime : ℕ) : Prop where
  arrived : l.packetInTransit.arrivalTime ≤ thisDeliveryTime
  fits : l.packetInTransitBytesLeft ≤ PACKET_SIZE
  pos : 0 < l.packetInTransitBytesLeft
  le_size : l.packetInTransitBytesLeft ≤ l.packetInTransit.contents.length

theorem assertInTransit_eq_ok {l : LinkQueue} {t : ℕ} {u : Unit} :
    l.assertInTransit t = .ok u ↔ l.InTransit t := by
  constructor
  · intro h
    obtain ⟨_, h₁, h⟩ := bind_eq_ok.1 h
    obtain ⟨_, h₂, h⟩ := bind_eq_ok.1 h
    obtain ⟨_, h₃, h⟩ := bind_eq_ok.1 h
    exact ⟨assert_eq_ok.1 h₁, assert_eq_ok.1 h₂, assert_eq_ok.1 h₃, assert_eq_ok.1 h⟩
  · rintro ⟨h₁, h₂, h₃, h₄⟩
    rw [assertInTransit, assert_of h₁, ok_bind, assert_of h₂, ok_bind, assert_of h₃, ok_bind,
      assert_of h₄]

/-- A packet is in transit: the one that was, or else the next one. -/
inductive Loaded : LinkQueue → LinkQueue → Prop
  | inTransit {l : LinkQueue} : l.packetInTransitBytesLeft ≠ 0 → Loaded l l
  | next {l : LinkQueue} {p : QueuedPacket} {q : AbstractPacketQueue} :
      l.packetInTransitBytesLeft = 0 → l.packetQueue.dequeue = .ok (p, q) → Loaded l (l.load p q)

/-- **What a round of the inner loop does when it goes on:** it loads a packet if
none is in transit, and sends bytes of it. -/
theorem sendStep_next {t : ℕ} {s s' : ℕ × LinkQueue} (h : sendStep t s = .ok (.inl s')) :
    s.1 ≠ 0 ∧ ∃ l, Loaded s.2 l ∧ l.InTransit t ∧ s' = transmit t s.1 l := by
  rw [sendStep] at h
  split_ifs at h with hbytes hleft hempty
  · cases h
  · cases h
  · obtain ⟨⟨p, q⟩, hq, h⟩ := bind_eq_ok.1 h
    obtain ⟨_, hassert, h⟩ := bind_eq_ok.1 h
    cases h
    exact ⟨hbytes, _, .next hleft hq, assertInTransit_eq_ok.1 hassert, rfl⟩
  · obtain ⟨_, hassert, h⟩ := bind_eq_ok.1 h
    cases h
    exact ⟨hbytes, _, .inTransit hleft, assertInTransit_eq_ok.1 hassert, rfl⟩

/-- **Where the inner loop leaves,** the opportunity is used up, or there is
nothing to send. -/
theorem sendStep_leave {t : ℕ} {s s' : ℕ × LinkQueue} (h : sendStep t s = .ok (.inr s')) :
    s' = s ∧ (s.1 = 0 ∨ s.2.packetInTransitBytesLeft = 0 ∧ s.2.packetQueue.packets = []) := by
  rw [sendStep] at h
  split_ifs at h with hbytes hleft hempty
  · cases h
    exact ⟨rfl, Or.inl hbytes⟩
  · cases h
    exact ⟨rfl, Or.inr ⟨hleft, of_decide_eq_true hempty⟩⟩
  · obtain ⟨_, -, h⟩ := bind_eq_ok.1 h
    obtain ⟨_, -, h⟩ := bind_eq_ok.1 h
    cases h
  · obtain ⟨_, -, h⟩ := bind_eq_ok.1 h
    cases h

/-- The inner loop of `rationalize`: every round sends a byte at least. -/
def sendLoop (thisDeliveryTime : ℕ) : Loop Fault (ℕ × LinkQueue) (ℕ × LinkQueue) where
  step := sendStep thisDeliveryTime
  measure := Prod.fst
  decreases h := by
    obtain ⟨hbytes, l, -, hl, rfl⟩ := sendStep_next h
    have := hl.pos
    simp only [transmit]
    omega

/-- A round of the outer loop of `rationalize`. -/
def rationalizeStep (now : ℕ) (l : LinkQueue) : Except Fault (LinkQueue ⊕ LinkQueue) := do
  let thisDeliveryTime ← l.nextDeliveryTime
  if thisDeliveryTime ≤ now then
    let l ← l.useADeliveryOpportunity
    let s ← (sendLoop thisDeliveryTime).run (PACKET_SIZE, l)
    return .inl s.2
  else return .inr l

/-- `LinkQueue::rationalize` returns, and leaves the link at `l'`. -/
def Rationalizes (now : ℕ) (l l' : LinkQueue) : Prop := Returns (rationalizeStep now) l (.ok l')

/-- `LinkQueue::read_packet` once the link is rationalized. -/
def acceptPacket (l : LinkQueue) (contents : Bytes) (now : ℕ) : Except Fault LinkQueue := do
  let l := l.recordArrival now contents.length
  let q ← l.packetQueue.enqueue { arrivalTime := now, contents := contents }
  return { l with packetQueue := q }

/-- `LinkQueue::write_packets`: what is written, and the link. -/
def writePackets (l : LinkQueue) : List Bytes × LinkQueue :=
  (l.outputQueue, { l with outputQueue := [] })

/-- What `LinkQueue::wait_time` returns once the link is rationalized, an
`unsigned int`. -/
def waitAfter (l : LinkQueue) (now : ℕ) : Except Fault ℕ := do
  let next ← l.nextDeliveryTime
  return if next ≤ now then 0 else (next - now) % 2 ^ 32

theorem useADeliveryOpportunity_eq {l : LinkQueue} {t : ℕ} (ht : l.nextDeliveryTime = .ok t) :
    l.useADeliveryOpportunity = .ok (l.recordOpportunity t).advance := by
  rw [useADeliveryOpportunity, recordDepartureOpportunity, ht, ok_bind, pure_bind]
  rfl

/-- A round of the outer loop goes on if the inner loop does not fail. -/
theorem rationalizeStep_of_le {now t : ℕ} {l : LinkQueue} {r : ℕ × LinkQueue}
    (ht : l.nextDeliveryTime = .ok t) (hle : t ≤ now)
    (hr : (sendLoop t).run (PACKET_SIZE, (l.recordOpportunity t).advance) = .ok r) :
    rationalizeStep now l = .ok (.inl r.2) := by
  rw [rationalizeStep, ht, ok_bind, if_pos hle, useADeliveryOpportunity_eq ht, ok_bind, hr]
  rfl

theorem rationalizeStep_of_lt {now t : ℕ} {l : LinkQueue} (ht : l.nextDeliveryTime = .ok t)
    (hlt : now < t) : rationalizeStep now l = .ok (.inr l) := by
  rw [rationalizeStep, ht, ok_bind, if_neg (by omega)]
  rfl

/-- **What a round of the outer loop does when it goes on.** -/
theorem rationalizeStep_next {now : ℕ} {l l' : LinkQueue}
    (h : rationalizeStep now l = .ok (.inl l')) :
    ∃ (t bytesLeft : ℕ), l.nextDeliveryTime = .ok t ∧ t ≤ now ∧
      (sendLoop t).run (PACKET_SIZE, (l.recordOpportunity t).advance) = .ok (bytesLeft, l') := by
  obtain ⟨t, ht, h⟩ := bind_eq_ok.1 h
  split_ifs at h with hle
  · obtain ⟨l₁, hl₁, h⟩ := bind_eq_ok.1 h
    obtain ⟨⟨n, l₂⟩, hl₂, h⟩ := bind_eq_ok.1 h
    cases h
    rw [useADeliveryOpportunity_eq ht] at hl₁
    cases hl₁
    exact ⟨t, n, ht, hle, hl₂⟩
  · cases h

/-- Where the outer loop leaves, the next delivery is still to come. -/
theorem rationalizeStep_leave {now : ℕ} {l l' : LinkQueue}
    (h : rationalizeStep now l = .ok (.inr l')) :
    l' = l ∧ ∃ t, l.nextDeliveryTime = .ok t ∧ now < t := by
  obtain ⟨t, ht, h⟩ := bind_eq_ok.1 h
  split_ifs at h with hle
  · obtain ⟨_, -, h⟩ := bind_eq_ok.1 h
    obtain ⟨_, -, h⟩ := bind_eq_ok.1 h
    cases h
  · cases h
    exact ⟨rfl, t, ht, by omega⟩

/-- **The invariant rule of a call of `rationalize`.** -/
theorem Rationalizes.invariant {I : LinkQueue → Prop} {now : ℕ} {l l' : LinkQueue}
    (next : ∀ l l', I l → rationalizeStep now l = .ok (.inl l') → I l')
    (h : Rationalizes now l l') (hl : I l) : I l' := by
  refine Returns.induction (f := rationalizeStep now)
    (motive := fun l r => I l → ∀ l', r = .ok l' → I l')
    (fun _ _ _ _ _ hr => by cases hr) (fun l x hx hl l' hr => ?_)
    (fun l l₁ r hn _ ih hl => ih (next l l₁ hl hn)) h hl l' rfl
  cases hr
  rwa [(rationalizeStep_leave hx).1]

/-- Where a call returns, the next delivery is still to come. -/
theorem Rationalizes.nextDeliveryTime {now : ℕ} {l l' : LinkQueue} (h : Rationalizes now l l') :
    ∃ t, l'.nextDeliveryTime = .ok t ∧ now < t := by
  refine Returns.induction (f := rationalizeStep now)
    (motive := fun _ r => ∀ l', r = .ok l' → ∃ t, l'.nextDeliveryTime = .ok t ∧ now < t)
    (fun _ _ _ _ hr => by cases hr) (fun l x hx l' hr => ?_) (fun _ _ _ _ _ ih => ih) h l' rfl
  cases hr
  obtain ⟨rfl, ht⟩ := rationalizeStep_leave hx
  exact ht

/-- **A call with an earlier reading of the clock leaves earlier.** -/
theorem rationalizeStep_earlier {now now' : ℕ} (h : now ≤ now') :
    Earlier (rationalizeStep now) (rationalizeStep now') := by
  refine ⟨fun l l' hl => ?_, fun l x hx => (rationalizeStep_leave hx).1, fun l l' hl => ?_,
    fun l x hx => ?_⟩
  · obtain ⟨t, -, ht, hle, -⟩ := rationalizeStep_next hl
    rw [rationalizeStep, ht, ok_bind, if_pos hle] at hl
    rw [rationalizeStep, ht, ok_bind, if_pos (hle.trans h), hl]
  · obtain ⟨t, -, ht, hle', -⟩ := rationalizeStep_next hl
    rw [rationalizeStep, ht, ok_bind, if_pos hle'] at hl
    by_cases hle : t ≤ now
    · rw [rationalizeStep, ht, ok_bind, if_pos hle]
      exact Or.inl hl
    · exact Or.inr (rationalizeStep_of_lt ht (by omega))
  · obtain ⟨-, t, ht, hlt⟩ := rationalizeStep_leave hx
    exact rationalizeStep_of_lt ht (by omega)

end LinkQueue

end V2Proxy
