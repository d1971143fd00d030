/-
# `DelayQueue`

`src/frontend/delay_queue.cc`: a packet is released a fixed delay after it has arrived.
`write_packets` reads the clock once for each packet it looks at, and stops at the first one
that is not due.

Nothing behind that one is due either, because the queue is sorted by release time as long
as the clock does not go back (`writeLoop_spec`).  So packets are written in the order in
which they arrived, none before its time, and a call leaves none behind that is due
(`delivers`).

The readings that `timestamp()` is still to return are a stream in the state.
-/

import V2Proxy.Foundations.Runs
import V2Proxy.Util.Bytes
import Mathlib.Data.Stream.Init

namespace V2Proxy

open Foundations

structure DelayQueue where
  /-- a `uint64_t` -/
  delayMs : ℕ
  /-- release timestamp, contents -/
  packetQueue : List (ℕ × Bytes) := []
  /-- the readings `timestamp()` is still to return -/
  clock : Stream' ℕ

namespace DelayQueue

/-- `DelayQueue::read_packet`. -/
def readPacket (q : DelayQueue) (contents : Bytes) : DelayQueue :=
  { q with
    packetQueue := q.packetQueue ++ [((q.clock.head + q.delayMs) % 2 ^ 64, contents)]
    clock := q.clock.tail }

/-- What a call of `write_packets` does: the readings of the clock, what it writes with the
reading before, and the queue it leaves. -/
structure Output where
  readings : List ℕ
  written : List (ℕ × Bytes)
  queue : DelayQueue

/-- The loop of `write_packets`. -/
def writeLoop (q : DelayQueue) : List (ℕ × Bytes) → Stream' ℕ → Output
  | [], clock => { readings := [], written := [], queue := { q with packetQueue := [], clock := clock } }
  | (release, contents) :: rest, clock =>
      let now := clock.head
      if release ≤ now then
        let out := writeLoop q rest clock.tail
        { out with
          readings := now :: out.readings
          written := (now, contents) :: out.written }
      else
        { readings := [now], written := [],
          queue := { q with packetQueue := (release, contents) :: rest, clock := clock.tail } }

/-- `DelayQueue::write_packets`. -/
def writePackets (q : DelayQueue) : Output := q.writeLoop q.packetQueue q.clock

/-- `DelayQueue::wait_time`, an `unsigned int`, and the queue after a reading of the clock. -/
def waitTime (q : DelayQueue) : ℕ × DelayQueue :=
  match q.packetQueue with
  | [] => (2 ^ 16 - 1, q)
  | (release, _) :: _ =>
      let now := q.clock.head
      (if release ≤ now then 0 else (release - now) % 2 ^ 32, { q with clock := q.clock.tail })

/-- The readings of a clock that does not go back. -/
def Steady (clock : Stream' ℕ) : Prop := ∀ n, clock.get n ≤ clock.get (n + 1)

theorem Steady.drop {clock : Stream' ℕ} (h : Steady clock) (n : ℕ) : Steady (clock.drop n) := by
  intro m
  rw [Stream'.get_drop, Stream'.get_drop]
  exact h (n + m)

theorem Steady.get_le {clock : Stream' ℕ} (h : Steady clock) (n : ℕ) :
    clock.head ≤ clock.get n := by
  induction n with
  | zero => exact Nat.le_refl _
  | succ n ih => exact ih.trans (h n)

/-- The packet was written unchanged, and not before its release. -/
def WrittenAfter (w p : ℕ × Bytes) : Prop := w.2 = p.2 ∧ p.1 ≤ w.1

/-- **What the loop does to a queue that is sorted by release time:** it writes packets from
the front, none before its release, and leaves none that is due at its last reading. -/
theorem writeLoop_spec (q : DelayQueue) {packets : List (ℕ × Bytes)} (clock : Stream' ℕ)
    (hsorted : packets.Pairwise fun p p' => p.1 ≤ p'.1) :
    (∃ sent, packets = sent ++ (q.writeLoop packets clock).queue.packetQueue ∧
      List.Forall₂ WrittenAfter (q.writeLoop packets clock).written sent) ∧
    (∃ n, (q.writeLoop packets clock).queue.clock = clock.drop n) ∧
    (q.writeLoop packets clock).queue.delayMs = q.delayMs ∧
    ((q.writeLoop packets clock).readings = [] →
      (q.writeLoop packets clock).queue.packetQueue = []) ∧
    ∀ t, (q.writeLoop packets clock).readings.getLast? = some t →
      ∀ p ∈ (q.writeLoop packets clock).queue.packetQueue, t < p.1 := by
  induction packets generalizing clock with
  | nil =>
      refine ⟨⟨[], rfl, .nil⟩, ⟨0, rfl⟩, rfl, fun _ => rfl, fun t ht => ?_⟩
      cases ht
  | cons p rest ih =>
      obtain ⟨release, contents⟩ := p
      obtain ⟨hfirst, hrest⟩ := List.pairwise_cons.1 hsorted
      rw [writeLoop]
      by_cases hdue : release ≤ clock.head
      · obtain ⟨⟨sent, hsent, hwritten⟩, ⟨n, hn⟩, hdelay, hnone, hlast⟩ :=
          ih clock.tail hrest
        dsimp only
        rw [if_pos hdue]
        refine ⟨⟨(release, contents) :: sent, ?_, .cons ⟨rfl, hdue⟩ hwritten⟩, ⟨n + 1, ?_⟩, hdelay,
          fun h => absurd h (List.cons_ne_nil _ _), fun t ht => ?_⟩
        · exact congrArg _ hsent
        · rw [← Stream'.drop_tail']
          exact hn
        · rcases List.eq_nil_or_concat (q.writeLoop rest clock.tail).readings with hnil | ⟨l, a, hl⟩
          · change ∀ p ∈ (q.writeLoop rest clock.tail).queue.packetQueue, _
            rw [hnone hnil]
            exact fun p hp => absurd hp List.not_mem_nil
          · refine hlast t ?_
            change (_ :: (q.writeLoop rest clock.tail).readings).getLast? = _ at ht
            rw [hl, List.concat_eq_append] at ht ⊢
            rw [← List.cons_append, List.getLast?_concat] at ht
            rw [List.getLast?_concat, ht]
      · dsimp only
        rw [if_neg hdue]
        refine ⟨⟨[], rfl, .nil⟩, ⟨1, rfl⟩, rfl, fun h => absurd h (List.cons_ne_nil _ _),
          fun t ht p hp => ?_⟩
        obtain rfl : clock.head = t := by simpa using ht
        rcases List.mem_cons.1 hp with rfl | hp
        · exact Nat.lt_of_not_le hdue
        · exact (Nat.lt_of_not_le hdue).trans_le (hfirst p hp)

end DelayQueue

/-- A queue, the packets that were read into it with the reading at their arrival, and those
it has written with the reading before. -/
structure DelayLink where
  queue : DelayQueue
  read : List (ℕ × Bytes) := []
  written : List (ℕ × Bytes) := []

namespace DelayLink

open DelayQueue

/-- A call of the event loop. -/
inductive Call where
  | readPacket (contents : Bytes)
  | writePackets
  | waitTime

/-- One call. -/
def call (k : DelayLink) : Call → DelayLink
  | .readPacket contents =>
      { k with queue := k.queue.readPacket contents, read := k.read ++ [(k.queue.clock.head, contents)] }
  | .writePackets =>
      { k with
        queue := k.queue.writePackets.queue
        written := k.written ++ k.queue.writePackets.written }
  | .waitTime => { k with queue := k.queue.waitTime.2 }

/-- The packets read are those written, in this order and each after the delay, and those
waiting, which are the ones in the queue. -/
structure Splits (d : ℕ) (k : DelayLink) (waiting : List (ℕ × Bytes)) : Prop where
  split : ∃ sent, k.read = sent ++ waiting ∧
    List.Forall₂ (fun w r => w.2 = r.2 ∧ r.1 + d ≤ w.1) k.written sent
  queue : k.queue.packetQueue = waiting.map fun r => (r.1 + d, r.2)

/-- What every call maintains while the clock does not go back. -/
structure Delays (d : ℕ) (k : DelayLink) : Prop where
  delay : k.queue.delayMs = d
  splits : ∃ waiting, k.Splits d waiting
  sorted : k.read.Pairwise fun r r' => r.1 ≤ r'.1
  read_le : ∀ r ∈ k.read, r.1 ≤ k.queue.clock.head
  steady : Steady k.queue.clock
  inRange : ∀ n, k.queue.clock.get n + d < 2 ^ 64

variable {d : ℕ} {k : DelayLink}

/-- The clock has been read. -/
theorem Delays.clock_drop (h : Delays d k) {clock : Stream' ℕ} {n : ℕ}
    (hclock : clock = k.queue.clock.drop n) :
    (∀ r ∈ k.read, r.1 ≤ clock.head) ∧ Steady clock ∧ ∀ m, clock.get m + d < 2 ^ 64 := by
  rw [hclock]
  refine ⟨fun r hr => ?_, h.steady.drop n, fun m => ?_⟩
  · rw [Stream'.head_drop]
    exact (h.read_le r hr).trans (h.steady.get_le n)
  · rw [Stream'.get_drop]
    exact h.inRange (n + m)

theorem Delays.readPacket (h : Delays d k) (contents : Bytes) :
    Delays d (k.call (.readPacket contents)) := by
  obtain ⟨waiting, ⟨sent, hread, hwritten⟩, hqueue⟩ := h.splits
  have htail : k.queue.clock.tail = k.queue.clock.drop 1 := rfl
  obtain ⟨hle, hsteady, hrange⟩ := h.clock_drop htail
  have hnow : k.queue.clock.head ≤ k.queue.clock.tail.head := h.steady 0
  have hmod : (k.queue.clock.head + d) % 2 ^ 64 = k.queue.clock.head + d :=
    Nat.mod_eq_of_lt (h.inRange 0)
  refine ⟨h.delay, ⟨waiting ++ [(k.queue.clock.head, contents)], ⟨sent, ?_, hwritten⟩, ?_⟩, ?_, ?_,
    hsteady, hrange⟩
  · change k.read ++ _ = _
    rw [hread, List.append_assoc]
  · change k.queue.packetQueue ++ _ = _
    rw [hqueue, h.delay, hmod, List.map_append]
    rfl
  · refine List.pairwise_append.2 ⟨h.sorted, List.pairwise_singleton _ _, fun r hr r' hr' => ?_⟩
    rw [List.mem_singleton.1 hr']
    exact h.read_le r hr
  · intro r hr
    rcases List.mem_append.1 hr with hr | hr
    · exact hle r hr
    · rw [List.mem_singleton.1 hr]
      exact hnow

/-- **After `write_packets` no packet waits that is due at its last reading.** -/
theorem Delays.writePackets (h : Delays d k) :
    Delays d (k.call .writePackets) ∧ ∃ waiting, (k.call .writePackets).Splits d waiting ∧
      (k.queue.writePackets.readings = [] → waiting = []) ∧
      ∀ t, k.queue.writePackets.readings.getLast? = some t → ∀ r ∈ waiting, t < r.1 + d := by
  obtain ⟨waiting, ⟨sent, hread, hwritten⟩, hqueue⟩ := h.splits
  have hsorted : k.queue.packetQueue.Pairwise fun p p' => p.1 ≤ p'.1 := by
    have hwaiting := (List.pairwise_append.1 (hread ▸ h.sorted)).2.1
    rw [hqueue, List.pairwise_map]
    exact hwaiting.imp fun hle => Nat.add_le_add_right hle d
  obtain ⟨⟨sent', hsent', hwritten'⟩, ⟨n, hn⟩, hdelay, hnone, hlast⟩ :=
    k.queue.writeLoop_spec k.queue.clock hsorted
  -- the packets written are the first ones that waited
  obtain ⟨first, left, rfl, hfirst, hleft⟩ :=
    List.map_eq_append_iff.1 (hqueue.symm.trans hsent')
  have hsplits : (k.call .writePackets).Splits d left := by
    refine ⟨⟨sent ++ first, ?_, ?_⟩, hleft.symm⟩
    · change k.read = _
      rw [hread, List.append_assoc]
    · refine List.rel_append hwritten ?_
      rw [← hfirst, List.forall₂_map_right_iff] at hwritten'
      exact hwritten'
  obtain ⟨hle, hsteady, hrange⟩ := h.clock_drop hn
  refine ⟨⟨hdelay.trans h.delay, ⟨left, hsplits⟩, h.sorted, hle, hsteady, hrange⟩, left, hsplits,
    fun hreadings => ?_, fun t ht r hr => ?_⟩
  · exact List.map_eq_nil_iff.1 (hleft.trans (hnone hreadings))
  · refine hlast t ht (r.1 + d, r.2) ?_
    rw [← hleft]
    exact List.mem_map.2 ⟨r, hr, rfl⟩

theorem Delays.call (h : Delays d k) (c : Call) : Delays d (k.call c) := by
  cases c with
  | readPacket contents => exact h.readPacket contents
  | writePackets => exact h.writePackets.1
  | waitTime =>
      obtain ⟨hdelay, ⟨waiting, hsplit, hqueue⟩, hsorted, -, -, -⟩ := id h
      obtain ⟨n, hclock, hpackets, hms⟩ : ∃ n, k.queue.waitTime.2.clock = k.queue.clock.drop n ∧
          k.queue.waitTime.2.packetQueue = k.queue.packetQueue ∧
          k.queue.waitTime.2.delayMs = k.queue.delayMs := by
        rw [waitTime]
        split
        · exact ⟨0, rfl, rfl, rfl⟩
        · exact ⟨1, rfl, rfl, rfl⟩
      obtain ⟨hle, hsteady, hrange⟩ := h.clock_drop hclock
      exact ⟨hms.trans hdelay, ⟨waiting, hsplit, hpackets.trans hqueue⟩, hsorted, hle, hsteady, hrange⟩

/-- **A delay queue delivers what it reads, after the delay.**  Whatever the calls are, the
packets written are the first ones that were read, unchanged, each at a reading that is not
before its arrival plus the delay; the others are queued.  After a call of `write_packets`
none of these is due at the last reading of the call, and if it took no reading, none is
left. -/
theorem delivers {clock : Stream' ℕ} (hclock : ∀ n, clock.get n ≤ clock.get (n + 1))
    (hrange : ∀ n, clock.get n + d < 2 ^ 64) {calls : List Call}
    (hrun : Run (fun k c k' => k' = DelayLink.call k c)
      { queue := { delayMs := d, clock := clock } } calls k) :
    (∃ waiting, k.Splits d waiting) ∧
      ∃ waiting, (k.call .writePackets).Splits d waiting ∧
        (k.queue.writePackets.readings = [] → waiting = []) ∧
        ∀ t, k.queue.writePackets.readings.getLast? = some t → ∀ r ∈ waiting, t < r.1 + d := by
  have hstart : Delays d { queue := { delayMs := d, clock := clock } } :=
    ⟨rfl, ⟨[], ⟨[], rfl, .nil⟩, rfl⟩, .nil, fun _ h => absurd h List.not_mem_nil, hclock, hrange⟩
  have hk : Delays d k := by
    refine hrun.invariant (I := Delays d) (fun k c k' hk hstep => ?_) hstart
    rw [hstep]
    exact hk.call c
  exact ⟨hk.splits, hk.writePackets.2⟩

/-- Two packets arrive at 0 and 1, and are delayed by 2; at the readings 2 and 2 only the
first one is written. -/
theorem delivers_two :
    ∃ k : DelayLink, k.written = [(2, [7])] ∧
      (∃ waiting, k.Splits 2 waiting) ∧
      ∃ waiting, (k.call .writePackets).Splits 2 waiting ∧
        (k.queue.writePackets.readings = [] → waiting = []) ∧
        ∀ t, k.queue.writePackets.readings.getLast? = some t → ∀ r ∈ waiting, t < r.1 + 2 := by
  have hrun : Run (fun k c k' => k' = DelayLink.call k c)
      { queue := { delayMs := 2, clock := fun n => min n 2 } }
      [.readPacket [7], .readPacket [8], .writePackets] _ :=
    .cons rfl (.cons rfl (.cons rfl (.nil _)))
  refine ⟨_, ?_, delivers (fun n => ?_) (fun n => ?_) hrun⟩
  · rfl
  · change min n 2 ≤ min (n + 1) 2
    omega
  · change min n 2 + 2 < 2 ^ 64
    omega

end DelayLink

end V2Proxy
