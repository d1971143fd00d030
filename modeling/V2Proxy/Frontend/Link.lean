/-
# A link at work

`PacketShell`'s event loop reads a packet into the `LinkQueue`, asks it how long
to wait, and writes out the packets that are ready.  `Link` is the queue with a
record of the packets read and of the packets written, and `Link.Step` is one
call.  A call that fails has no step, so a run of `Link.Step` is a run that does
not abort.

A packet moves from the packet queue into transit and from there to the output
queue.  `flow` lists the three in the order in which the packets arrived, and
`Moves` says what all code between two states does to it: packets are dropped
from the flow, none is added, and an infinite queue drops none.
-/

import V2Proxy.Frontend.LinkQueue
import V2Proxy.Foundations.Runs

namespace V2Proxy

open Foundations
open scoped List

namespace LinkQueue

/-- The packet in transit, if there is one. -/
def inTransit (l : LinkQueue) : List Bytes :=
  if l.packetInTransitBytesLeft = 0 then [] else [l.packetInTransit.contents]

/-- The packets in the link, in the order of their arrival. -/
def flow (l : LinkQueue) : List Bytes :=
  l.outputQueue ++ l.inTransit ++ l.packetQueue.packets.map QueuedPacket.contents

/-- From `l` to `l'` packets only move, or are dropped; none is dropped from an
infinite queue. -/
structure Moves (l l' : LinkQueue) : Prop where
  sublist : l'.flow <+ l.flow
  infinite : l.packetQueue.isInfinite = true →
    l'.packetQueue.isInfinite = true ∧ l'.flow = l.flow

variable {l l' l'' : LinkQueue}

/-- Nothing moves. -/
theorem Moves.refl (l : LinkQueue) : Moves l l :=
  ⟨List.Sublist.refl _, fun h => ⟨h, rfl⟩⟩

/-- One move after the other. -/
theorem Moves.trans (h : Moves l l') (h' : Moves l' l'') : Moves l l'' := by
  refine ⟨h'.sublist.trans h.sublist, fun hq => ?_⟩
  obtain ⟨hq', hflow⟩ := h.infinite hq
  obtain ⟨hq'', hflow'⟩ := h'.infinite hq'
  exact ⟨hq'', hflow'.trans hflow⟩

/-- A change that keeps the packet queue and the flow. -/
theorem Moves.of_eq (hq : l'.packetQueue = l.packetQueue) (hflow : l'.flow = l.flow) :
    Moves l l' :=
  ⟨hflow ▸ List.Sublist.refl _, fun h => ⟨hq ▸ h, hflow⟩⟩

/-- The next opportunity moves no packet. -/
theorem advance_moves (l : LinkQueue) : Moves l l.advance := by
  obtain ⟨_, _, _, hadvance⟩ := l.advance_eq
  rw [hadvance]
  exact .of_eq rfl rfl

/-- The packet that is loaded was the first one of the queue. -/
theorem Loaded.moves {t : ℕ} (h : Loaded l l') (ht : l'.InTransit t) : Moves l l' := by
  cases h with
  | inTransit hleft => exact Moves.refl l
  | next hleft hq =>
      rename_i p q
      have hflow : l.flow = l.outputQueue ++ l.packetQueue.packets.map QueuedPacket.contents := by
        rw [flow, LinkQueue.inTransit, if_pos hleft, List.append_nil]
      have hflow' : (l.load p q).flow =
          l.outputQueue ++ (p :: q.packets).map QueuedPacket.contents := by
        rw [flow, LinkQueue.inTransit, if_neg ht.pos.ne', List.append_assoc]
        rfl
      constructor
      · rw [hflow, hflow']
        exact ((AbstractPacketQueue.dequeue_sublist hq).map _).append_left _
      · intro hinf
        obtain ⟨hinf', hpackets⟩ := AbstractPacketQueue.dequeue_infinite hinf hq
        exact ⟨hinf', by rw [hflow, hflow', hpackets]⟩

/-- Sending bytes moves the packet on once all of it has been sent. -/
theorem transmit_moves {t : ℕ} (bytesLeft : ℕ) (ht : l.InTransit t) :
    Moves l (transmit t bytesLeft l).2 := by
  have hin : l.inTransit = [l.packetInTransit.contents] := if_neg ht.pos.ne'
  simp only [transmit]
  split_ifs with hsent
  · refine .of_eq rfl ?_
    rw [flow, flow, hin]
    simp [inTransit, depart, recordDeparture]
  · refine .of_eq rfl ?_
    rw [flow, flow, hin, inTransit, if_neg hsent]

/-- **An opportunity moves packets on,** in order. -/
theorem sendLoop_moves {t : ℕ} {s s' : ℕ × LinkQueue} (h : (sendLoop t).run s = .ok s') :
    Moves s.2 s'.2 := by
  refine Loop.run_post (L := sendLoop t) (I := fun s₁ => Moves s.2 s₁.2)
    (Q := fun s₁ => Moves s.2 s₁.2) (fun s₁ s₂ hs₁ hnext => ?_)
    (fun s₁ x hs₁ hleave => ?_) (Moves.refl _) h
  · obtain ⟨-, l, hload, hl, rfl⟩ := sendStep_next hnext
    exact (hs₁.trans (hload.moves hl)).trans (transmit_moves s₁.1 hl)
  · rwa [(sendStep_leave hleave).1]

/-- **An emulated stretch of time only moves packets,** or drops them. -/
theorem Rationalizes.moves {now : ℕ} (h : Rationalizes now l l') : Moves l l' := by
  refine h.invariant (I := Moves l) (fun l₁ l₂ hl₁ hnext => ?_) (Moves.refl l)
  obtain ⟨t, n, -, -, hrun⟩ := rationalizeStep_next hnext
  have hopportunity : Moves l₁ (l₁.recordOpportunity t) := .of_eq rfl rfl
  exact hl₁.trans ((hopportunity.trans (advance_moves _)).trans (sendLoop_moves hrun))

/-- What an accepted packet adds to the flow. -/
theorem acceptPacket_eq_ok {contents : Bytes} {now : ℕ} (h : l.acceptPacket contents now = .ok l') :
    ∃ q, l.packetQueue.enqueue { arrivalTime := now, contents := contents } = .ok q ∧
      l' = { l.recordArrival now contents.length with packetQueue := q } := by
  obtain ⟨q, hq, h⟩ := bind_eq_ok.1 h
  cases h
  exact ⟨q, hq, rfl⟩

/-- A packet that is read is the last one, or is dropped. -/
theorem acceptPacket_flow {contents : Bytes} {now : ℕ}
    (h : l.acceptPacket contents now = .ok l') :
    l'.flow <+ l.flow ++ [contents] ∧ (l.packetQueue.isInfinite = true →
      l'.packetQueue.isInfinite = true ∧ l'.flow = l.flow ++ [contents]) := by
  obtain ⟨q, hq, rfl⟩ := acceptPacket_eq_ok h
  constructor
  · have hsub := ((AbstractPacketQueue.enqueue_sublist hq).map QueuedPacket.contents).append_left
      (l.outputQueue ++ l.inTransit)
    rw [List.map_append, ← List.append_assoc] at hsub
    exact hsub
  · intro hinf
    obtain ⟨hinf', hpackets⟩ := AbstractPacketQueue.enqueue_infinite hinf hq
    refine ⟨hinf', ?_⟩
    change l.outputQueue ++ l.inTransit ++ q.packets.map QueuedPacket.contents = _
    rw [hpackets, List.map_append, ← List.append_assoc]
    rfl

end LinkQueue

/-- A call of the event loop; `now` is what the clock reads. -/
inductive Call where
  | readPacket (contents : Bytes) (now : ℕ)
  | waitTime (now : ℕ)
  | writePackets

/-- The reading of the clock that a call starts with. -/
def Call.reading : Call → Option ℕ
  | .readPacket _ now => some now
  | .waitTime now => some now
  | .writePackets => none

/-- A link, the packets that were read into it, and the packets it has written. -/
structure Link where
  queue : LinkQueue
  read : List Bytes := []
  written : List Bytes := []

namespace Link

open LinkQueue

/-- The link of the command line: its packet queue, its trace, and whether it
starts over at the end of the trace. -/
def start (type args filename trace : Bytes) (repeats : Bool) (timestamp : ℕ)
    (clock : Stream' ℕ) (draws : Stream' Float) : Except Fault Link := do
  let packetQueue ← getPacketQueue type args clock draws
  let queue ← LinkQueue.new filename trace repeats packetQueue timestamp
  return { queue := queue }

/-- A new link has an empty packet queue, and the schedule of its trace. -/
theorem start_eq_ok {type args filename trace : Bytes} {repeats : Bool} {timestamp : ℕ}
    {clock : Stream' ℕ} {draws : Stream' Float} {k : Link}
    (h : start type args filename trace repeats timestamp clock draws = .ok k) :
    ∃ schedule packetQueue, LinkQueue.loadSchedule filename trace = .ok schedule ∧
      packetQueue.packets = [] ∧ packetQueue.Sound ∧
      (type = ascii "infinite" → packetQueue.isInfinite = true) ∧
      k = { queue := { schedule := schedule, baseTimestamp := timestamp,
                       packetQueue := packetQueue, repeats := repeats } } := by
  obtain ⟨packetQueue, hqueue, h⟩ := bind_eq_ok.1 h
  obtain ⟨l, hl, h⟩ := bind_eq_ok.1 h
  cases h
  obtain ⟨schedule, hschedule, hl⟩ := bind_eq_ok.1 hl
  cases hl
  obtain ⟨hpackets, hsound, hinfinite⟩ := getPacketQueue_spec hqueue
  exact ⟨schedule, packetQueue, hschedule, hpackets, hsound, hinfinite, rfl⟩

/-- `LinkQueue::read_packet`, `LinkQueue::wait_time` and
`LinkQueue::write_packets`. -/
inductive Step : Link → Call → Link → Prop
  | readPacket {k : Link} {contents : Bytes} {now : ℕ} {l l' : LinkQueue} :
      contents.length ≤ PACKET_SIZE → k.queue.Rationalizes now l →
      l.acceptPacket contents now = .ok l' →
      Step k (.readPacket contents now) { k with queue := l', read := k.read ++ [contents] }
  | waitTime {k : Link} {now n : ℕ} {l : LinkQueue} :
      k.queue.Rationalizes now l → l.waitAfter now = .ok n →
      Step k (.waitTime now) { k with queue := l }
  | writePackets {k : Link} :
      Step k .writePackets { k with
        queue := k.queue.writePackets.2
        written := k.written ++ k.queue.writePackets.1 }

/-- The shortest trace: an opportunity each millisecond. -/
def everyMillisecond : LinkQueue :=
  { schedule := [1], baseTimestamp := 0, packetQueue := .infinite {}, repeats := true }

/-- The link is the one of this trace. -/
theorem start_everyMillisecond (clock : Stream' ℕ) (draws : Stream' Float) :
    start (ascii "infinite") [] [] (ascii "1\n") true 0 clock draws =
      .ok { queue := everyMillisecond } := by
  have hschedule : loadSchedule [] (ascii "1\n") = .ok [1] := by decide +kernel
  unfold start LinkQueue.new
  rw [getPacketQueue, if_pos rfl, hschedule]
  rfl

/-- A trace of two opportunities. -/
def twoLines : LinkQueue :=
  { schedule := [1, 3], baseTimestamp := 0, packetQueue := .infinite {}, repeats := true }

/-- The link of that trace, with an infinite queue. -/
theorem start_twoLines (clock : Stream' ℕ) (draws : Stream' Float) :
    start (ascii "infinite") [] [] (ascii "1\n3\n") true 0 clock draws =
      .ok { queue := twoLines } := by
  have hschedule : loadSchedule [] (ascii "1\n3\n") = .ok [1, 3] := by decide +kernel
  unfold start LinkQueue.new
  rw [getPacketQueue, if_pos rfl, hschedule]
  rfl

/-- A packet as long as an opportunity. -/
def fullPacket : Bytes := List.replicate PACKET_SIZE 8

/-- It fills the opportunity. -/
theorem length_fullPacket : fullPacket.length = PACKET_SIZE := List.length_replicate

/-- It is not empty. -/
theorem fullPacket_ne_nil : fullPacket ≠ [] :=
  List.ne_nil_of_length_pos (by rw [length_fullPacket]; decide)

/-- The link after the first opportunity: the full packet, behind one of one byte,
has a byte left. -/
def begun : LinkQueue :=
  { twoLines with
    nextDelivery := 1
    packetInTransit := { arrivalTime := 0, contents := fullPacket }
    packetInTransitBytesLeft := 1
    outputQueue := [[7]]
    log := [.arrival 0 1, .arrival 0 1504, .opportunity 1 1504, .departure 1 1 1] }

/-- The link after the second one. -/
def ended : LinkQueue :=
  { twoLines with
    baseTimestamp := 3
    packetInTransit := { arrivalTime := 0, contents := [] }
    log := begun.log ++ [.opportunity 3 1504, .departure 3 1504 3] }

/-- Two packets come, one behind the other, and are waited for and written. -/
def twoPackets : List Call :=
  [.readPacket [7] 0, .readPacket fullPacket 0, .waitTime 1, .waitTime 3, .writePackets]

set_option maxRecDepth 8000 in
/-- Two packets are read, and the first opportunity comes. -/
theorem run_begun :
    Run Step { queue := twoLines } [.readPacket [7] 0, .readPacket fullPacket 0, .waitTime 1]
      { queue := begun, read := [[7], fullPacket] } := by
  refine .cons (.readPacket (by decide) ⟨1, rfl⟩ rfl) ?_
  refine .cons (.readPacket length_fullPacket.le ⟨1, rfl⟩ rfl) ?_
  exact .cons (.waitTime (n := 2) ⟨2, rfl⟩ rfl) (.nil _)

set_option maxRecDepth 8000 in
/-- The second opportunity takes the last byte, and both packets are written. -/
theorem run_twoLines :
    Run Step { queue := twoLines } twoPackets
      { queue := ended, read := [[7], fullPacket], written := [[7], fullPacket] } :=
  run_begun.append (.cons (.waitTime (n := 1) ⟨2, rfl⟩ rfl) (.cons .writePackets (.nil _)))

/-- What holds between the packets read, those written and those in the link;
`infinite` says whether the link was given an infinite queue. -/
structure InOrder (infinite : Prop) (k : Link) : Prop where
  sublist : k.written ++ k.queue.flow <+ k.read
  complete : infinite →
    k.queue.packetQueue.isInfinite = true ∧ k.written ++ k.queue.flow = k.read

variable {infinite : Prop} {k k' : Link}

/-- Packets that move stay in order. -/
theorem InOrder.moves {l : LinkQueue} (h : InOrder infinite k) (hl : k.queue.Moves l) :
    InOrder infinite { k with queue := l } := by
  refine ⟨(hl.sublist.append_left _).trans h.sublist, fun hinf => ?_⟩
  obtain ⟨hq, hread⟩ := h.complete hinf
  obtain ⟨hq', hflow⟩ := hl.infinite hq
  exact ⟨hq', by rw [hflow, hread]⟩

/-- **Every call keeps the packets in order.** -/
theorem InOrder.step {c : Call} (h : InOrder infinite k) (hstep : Step k c k') :
    InOrder infinite k' := by
  cases hstep with
  | @readPacket contents _ _ _ _ hrat haccept =>
      have hk := h.moves hrat.moves
      obtain ⟨hsub, hinf'⟩ := acceptPacket_flow haccept
      refine ⟨?_, fun hinf => ?_⟩
      · have hread := hk.sublist.append_right [contents]
        rw [List.append_assoc] at hread
        exact (hsub.append_left k.written).trans hread
      · obtain ⟨hq, hread⟩ := hk.complete hinf
        obtain ⟨hq', hflow⟩ := hinf' hq
        exact ⟨hq', by rw [hflow, ← List.append_assoc, hread]⟩
  | waitTime hrat _ => exact h.moves hrat.moves
  | writePackets =>
      have hflow : (k.written ++ k.queue.writePackets.1) ++ k.queue.writePackets.2.flow =
          k.written ++ k.queue.flow := by
        rw [flow, flow, List.append_assoc, List.append_assoc, List.append_assoc]
        rfl
      exact ⟨by rw [hflow]; exact h.sublist, fun hinf => ⟨(h.complete hinf).1,
        by rw [hflow]; exact (h.complete hinf).2⟩⟩

/-- Nothing has been read at the start. -/
theorem InOrder.start {type args filename trace : Bytes} {repeats : Bool} {timestamp : ℕ}
    {clock : Stream' ℕ} {draws : Stream' Float}
    (h : Link.start type args filename trace repeats timestamp clock draws = .ok k) :
    InOrder (type = ascii "infinite") k := by
  obtain ⟨schedule, q, -, hpackets, -, hinf, rfl⟩ := start_eq_ok h
  have hflow : LinkQueue.flow { schedule := schedule, baseTimestamp := timestamp,
                                packetQueue := q, repeats := repeats } = [] := by
    simp [flow, inTransit, hpackets]
  exact ⟨by rw [hflow]; exact List.Sublist.refl _, fun h => ⟨hinf h, by rw [hflow]; rfl⟩⟩

/-- **A link delivers what it reads, in order and unchanged.**  Whatever the
packet queue does, the packets written and those ready to be written are a
subsequence of the packets read.  With an infinite queue nothing is lost: the
packets read are the written ones, the ready ones, the one in transit and those
still queued, in this order. -/
theorem delivered_in_order {type args filename trace : Bytes} {repeats : Bool} {timestamp : ℕ}
    {clock : Stream' ℕ} {draws : Stream' Float} {calls : List Call}
    (hstart : Link.start type args filename trace repeats timestamp clock draws = .ok k)
    (hrun : Run Step k calls k') :
    k'.written ++ k'.queue.outputQueue <+ k'.read ∧
      (type = ascii "infinite" → k'.read = k'.written ++ k'.queue.outputQueue ++
        k'.queue.inTransit ++ k'.queue.packetQueue.packets.map QueuedPacket.contents) := by
  have hk' : InOrder (type = ascii "infinite") k' :=
    hrun.invariant (fun _ _ _ h hstep => h.step hstep) (.start hstart)
  refine ⟨?_, fun hinf => ?_⟩
  · refine List.Sublist.trans ?_ hk'.sublist
    rw [flow, List.append_assoc, ← List.append_assoc]
    exact List.sublist_append_left _ _
  · rw [← (hk'.complete hinf).2, flow]
    simp only [List.append_assoc]

/-- Two packets, one of which takes two opportunities. -/
theorem delivered_in_order_twoLines :
    ∃ k' : Link,
      Run Step { queue := twoLines } twoPackets k' ∧
        k'.written = [[7], fullPacket] ∧ k'.written ++ k'.queue.outputQueue <+ k'.read ∧
          (ascii "infinite" = ascii "infinite" → k'.read = k'.written ++ k'.queue.outputQueue ++
            k'.queue.inTransit ++ k'.queue.packetQueue.packets.map QueuedPacket.contents) :=
  ⟨_, run_twoLines, rfl, delivered_in_order (start_twoLines (Stream'.const 0)
    (Stream'.const 0)) run_twoLines⟩

end Link

end V2Proxy
