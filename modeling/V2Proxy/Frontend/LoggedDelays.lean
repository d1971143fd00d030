/-
# What a departure in the log says

A line of a departure has the time, the size and the delay of a packet.  `Delivers` says
what a stretch of the inner loop of `rationalize` adds to the log: departures of packets
that were in the link, in the order in which these arrived.  So in every run the departures
of the log, each put back to the time at which its packet arrived, are arrivals of the log
in order, and their sizes are those of the packets that are delivered (`log_truthful`).

The graphs are made of these departures.  Where the clock does not go back they keep the
order, and `mm-delay-graph` and `mm-throughput-graph` compute the signal delay of the link
from its log file (`graphs_of_link`).
-/

import V2Proxy.Frontend.EventLog
import V2Proxy.Frontend.LinkLog
import V2Proxy.Scripts.SignalDelay

namespace V2Proxy

open Foundations
open scoped List

/-- The time at which a packet arrived, and its size. -/
def QueuedPacket.entry (p : QueuedPacket) : ℕ × ℕ := (p.arrivalTime, p.contents.length)

/-- The packet that an arrival is about. -/
def LogEvent.arrived : LogEvent → Option (ℕ × ℕ)
  | .arrival time size => some (time, size)
  | _ => none

/-- The packet that a departure is about, by its delay. -/
def LogEvent.departed : LogEvent → Option (ℕ × ℕ)
  | .departure time size delay => some (time - delay, size)
  | _ => none

/-- The packet that is read. -/
def Call.arrived : Call → Option (ℕ × ℕ)
  | .readPacket contents now => some (now, contents.length)
  | _ => none

namespace LinkQueue

/-- The packets that have arrived, according to the log. -/
def arrived (l : LinkQueue) : List (ℕ × ℕ) := l.log.filterMap LogEvent.arrived

/-- The packets that have departed, according to the log. -/
def departed (l : LinkQueue) : List (ℕ × ℕ) := l.log.filterMap LogEvent.departed

/-- The packet in transit and those in the queue. -/
def pending (l : LinkQueue) : List (ℕ × ℕ) :=
  (if l.packetInTransitBytesLeft = 0 then [] else [l.packetInTransit.entry]) ++
    l.packetQueue.packets.map QueuedPacket.entry

/-- From `l` to `l'` the packets `sent` depart at `t`. -/
structure Delivers (t : ℕ) (sent : List (ℕ × ℕ)) (l l' : LinkQueue) : Prop where
  log : l'.log = l.log ++ sent.map fun p => .departure t p.2 (t - p.1)
  output : l'.outputQueue.map List.length = l.outputQueue.map List.length ++ sent.map Prod.snd
  in_time : ∀ p ∈ sent, p.1 ≤ t
  sublist : sent ++ l'.pending <+ l.pending
  infinite : l.packetQueue.isInfinite = true →
    l'.packetQueue.isInfinite = true ∧ sent ++ l'.pending = l.pending

variable {l l' l'' : LinkQueue} {t now : ℕ} {sent sent' : List (ℕ × ℕ)}

/-- Nothing is delivered where nothing happens. -/
theorem Delivers.refl (t : ℕ) (l : LinkQueue) : Delivers t [] l l := by
  constructor
  · simp
  · simp
  · simp
  · exact List.Sublist.refl _
  · exact fun h => ⟨h, rfl⟩

/-- One stretch after the other. -/
theorem Delivers.trans (h : Delivers t sent l l') (h' : Delivers t sent' l' l'') :
    Delivers t (sent ++ sent') l l'' := by
  constructor
  · rw [h'.log, h.log, List.map_append, List.append_assoc]
  · rw [h'.output, h.output, List.map_append, List.append_assoc]
  · exact fun p hp => (List.mem_append.1 hp).elim (h.in_time p) (h'.in_time p)
  · rw [List.append_assoc]
    exact (h'.sublist.append_left sent).trans h.sublist
  · intro hq
    obtain ⟨hq', heq⟩ := h.infinite hq
    obtain ⟨hq'', heq'⟩ := h'.infinite hq'
    exact ⟨hq'', by rw [List.append_assoc, heq', heq]⟩

/-- A change outside of the log and the packets. -/
theorem Delivers.of_eq (hlog : l'.log = l.log) (houtput : l'.outputQueue = l.outputQueue)
    (hqueue : l'.packetQueue = l.packetQueue) (hpending : l'.pending = l.pending) :
    Delivers t [] l l' := by
  constructor
  · simp [hlog]
  · simp [houtput]
  · simp
  · rw [List.nil_append, hpending]
  · rw [hqueue, List.nil_append]
    exact fun h => ⟨h, hpending⟩

/-- Passing an opportunity delivers nothing. -/
theorem advance_delivers (t : ℕ) (l : LinkQueue) : Delivers t [] l l.advance := by
  obtain ⟨_, _, _, hadvance⟩ := l.advance_eq
  rw [hadvance]
  exact .of_eq rfl rfl rfl rfl

/-- The packet that is loaded was the first one of the queue. -/
theorem Loaded.delivers_nil (h : Loaded l l') (ht : l'.InTransit t) : Delivers t [] l l' := by
  cases h with
  | inTransit hleft => exact .refl t l
  | @next p q hleft hq =>
      have hpending : l.pending = l.packetQueue.packets.map QueuedPacket.entry := by
        rw [pending, if_pos hleft, List.nil_append]
      have hpending' : (l.load p q).pending = (p :: q.packets).map QueuedPacket.entry := by
        rw [pending, if_neg ht.pos.ne']
        rfl
      constructor
      · exact (List.append_nil _).symm
      · exact (List.append_nil _).symm
      · simp
      · rw [List.nil_append, hpending, hpending']
        exact (AbstractPacketQueue.dequeue_sublist hq).map _
      · intro hinf
        obtain ⟨hinf', hpackets⟩ := AbstractPacketQueue.dequeue_infinite hinf hq
        exact ⟨hinf', by rw [List.nil_append, hpending, hpending', hpackets]⟩

/-- **A packet departs once all of it has been sent.** -/
theorem transmit_delivers (bytesLeft : ℕ) (ht : l.InTransit t) (hword : t < 2 ^ 64) :
    ∃ sent, Delivers t sent l (transmit t bytesLeft l).2 := by
  have hpending : l.pending =
      l.packetInTransit.entry :: l.packetQueue.packets.map QueuedPacket.entry := by
    rw [pending, if_neg ht.pos.ne']
    rfl
  simp only [transmit]
  split_ifs with hdone
  · refine ⟨[l.packetInTransit.entry], ?_, ?_, ?_, ?_, ?_⟩
    · change l.log ++ [.departure t _ (sizeSub t l.packetInTransit.arrivalTime)] = _
      rw [sizeSub_of_le ht.arrived hword]
      rfl
    · simp [depart, QueuedPacket.entry]
    · simpa [QueuedPacket.entry] using ht.arrived
    · rw [hpending]
      exact List.Sublist.refl _
    · rw [hpending]
      exact fun hq => ⟨hq, rfl⟩
  · refine ⟨[], .of_eq rfl rfl rfl ?_⟩
    rw [hpending, pending, if_neg hdone]
    rfl

/-- The loop over the packets of one opportunity. -/
theorem sendLoop_delivers {s s' : ℕ × LinkQueue} (hword : t < 2 ^ 64)
    (h : (sendLoop t).run s = .ok s') : ∃ sent, Delivers t sent s.2 s'.2 := by
  refine Loop.run_post (L := sendLoop t) (I := fun s₁ => ∃ sent, Delivers t sent s.2 s₁.2)
    (Q := fun s₁ => ∃ sent, Delivers t sent s.2 s₁.2) (fun s₁ s₂ hs₁ hnext => ?_)
    (fun s₁ x hs₁ hleave => ?_) ⟨[], .refl t _⟩ h
  · obtain ⟨before, hbefore⟩ := hs₁
    obtain ⟨-, l, hload, hl, rfl⟩ := sendStep_next hnext
    obtain ⟨sent, hsent⟩ := transmit_delivers s₁.1 hl hword
    exact ⟨_, (hbefore.trans (hload.delivers_nil hl)).trans hsent⟩
  · rwa [(sendStep_leave hleave).1]

/-- A delivery time is 64 bits. -/
theorem nextDeliveryTime_lt (h : l.nextDeliveryTime = .ok t) : t < 2 ^ 64 := by
  rw [LinkQueue.nextDeliveryTime] at h
  split_ifs at h
  · cases h
    decide
  · split at h
    · cases h
      exact Nat.mod_lt _ (by decide)
    · cases h

/-- **A round of `rationalize` logs an opportunity and the departures that use it.** -/
theorem rationalizeStep_delivers (h : rationalizeStep now l = .ok (.inl l')) :
    ∃ t sent, l.nextDeliveryTime = .ok t ∧ Delivers t sent (l.recordOpportunity t) l' := by
  obtain ⟨t, n, ht, -, hrun⟩ := rationalizeStep_next h
  obtain ⟨sent, hsent⟩ := sendLoop_delivers (nextDeliveryTime_lt ht) hrun
  exact ⟨t, sent, ht, (advance_delivers t _).trans hsent⟩

/-- What the log says of the packets. -/
theorem Delivers.entries (h : Delivers t sent (l.recordOpportunity t) l') :
    l'.arrived = l.arrived ∧ l'.departed = l.departed ++ sent := by
  have hsent : (sent.map fun p => LogEvent.departure t p.2 (t - p.1)).filterMap LogEvent.departed =
      sent := by
    rw [List.filterMap_map]
    conv_rhs => rw [← List.filterMap_some (l := sent)]
    refine List.filterMap_congr fun p hp => ?_
    have hle := h.in_time p hp
    simp only [Function.comp_apply, LogEvent.departed, Nat.sub_sub_self hle]
  have hnone : (sent.map fun p => LogEvent.departure t p.2 (t - p.1)).filterMap LogEvent.arrived =
      [] := by
    rw [List.filterMap_map]
    exact List.filterMap_eq_nil_iff.2 fun _ _ => rfl
  constructor
  · rw [arrived, h.log, List.filterMap_append, hnone]
    simp [arrived, recordOpportunity, LogEvent.arrived]
  · rw [departed, h.log, List.filterMap_append, hsent]
    simp [departed, recordOpportunity, LogEvent.departed]

/-- **What the log says of the packets in the link and of those that left it;** `infinite`
says whether the link was given an infinite queue. -/
structure Truthful (infinite : Prop) (delivered : List ℕ) (l : LinkQueue) : Prop where
  sizes : delivered ++ l.outputQueue.map List.length = l.departed.map Prod.snd
  sublist : l.departed ++ l.pending <+ l.arrived
  complete : infinite → l.packetQueue.isInfinite = true ∧ l.departed ++ l.pending = l.arrived
  delay_le : ∀ time size delay, .departure time size delay ∈ l.log → delay ≤ time

variable {infinite : Prop} {delivered : List ℕ}

/-- **A round keeps the log truthful.** -/
theorem Truthful.round (h : Truthful infinite delivered l)
    (hnext : rationalizeStep now l = .ok (.inl l')) : Truthful infinite delivered l' := by
  obtain ⟨t, sent, -, hsent⟩ := rationalizeStep_delivers hnext
  obtain ⟨harrived, hdeparted⟩ := hsent.entries
  constructor
  · rw [hdeparted, List.map_append, ← h.sizes, hsent.output, List.append_assoc]
    rfl
  · rw [harrived, hdeparted, List.append_assoc]
    exact (hsent.sublist.append_left _).trans h.sublist
  · intro hinf
    obtain ⟨hq, heq⟩ := h.complete hinf
    obtain ⟨hq', hpending⟩ := hsent.infinite hq
    refine ⟨hq', ?_⟩
    rw [harrived, hdeparted, List.append_assoc, hpending, ← heq]
    rfl
  · intro time size delay hmem
    rw [hsent.log] at hmem
    rcases List.mem_append.1 hmem with hmem | hmem
    · rcases List.mem_append.1 hmem with hmem | hmem
      · exact h.delay_le time size delay hmem
      · cases List.mem_singleton.1 hmem
    · obtain ⟨p, -, hp⟩ := List.mem_map.1 hmem
      cases hp
      exact Nat.sub_le _ _

/-- A packet that is accepted comes last, or is dropped, or makes others be dropped. -/
theorem acceptPacket_pending {contents : Bytes} (haccept : l.acceptPacket contents now = .ok l') :
    l'.pending <+ l.pending ++ [(now, contents.length)] := by
  obtain ⟨q, hq, rfl⟩ := acceptPacket_eq_ok haccept
  have hpackets := (AbstractPacketQueue.enqueue_sublist hq).map QueuedPacket.entry
  rw [List.map_append] at hpackets
  rw [pending, pending, List.append_assoc]
  exact hpackets.append_left _

/-- **A packet that is accepted is logged.** -/
theorem Truthful.accept {contents : Bytes} (h : Truthful infinite delivered l)
    (haccept : l.acceptPacket contents now = .ok l') :
    Truthful infinite delivered l' ∧ l'.arrived = l.arrived ++ [(now, contents.length)] := by
  have hsub := acceptPacket_pending haccept
  obtain ⟨q, hq, rfl⟩ := acceptPacket_eq_ok haccept
  set l' : LinkQueue := { l.recordArrival now contents.length with packetQueue := q } with hl'
  have harrived : l'.arrived = l.arrived ++ [(now, contents.length)] := by
    change (l.log ++ [_]).filterMap _ = _
    simp [arrived, LogEvent.arrived]
  have hdeparted : l'.departed = l.departed := by
    change (l.log ++ [_]).filterMap _ = _
    simp [departed, LogEvent.departed]
  refine ⟨⟨?_, ?_, ?_, ?_⟩, harrived⟩
  · rw [hdeparted]
    exact h.sizes
  · rw [hdeparted, harrived]
    refine (hsub.append_left _).trans ?_
    rw [← List.append_assoc]
    exact h.sublist.append_right _
  · intro hinf
    obtain ⟨hinfinite, heq⟩ := h.complete hinf
    obtain ⟨hinfinite', hpackets⟩ := AbstractPacketQueue.enqueue_infinite hinfinite hq
    refine ⟨hinfinite', ?_⟩
    have hpending : l'.pending = l.pending ++ [(now, contents.length)] := by
      rw [pending, pending, List.append_assoc]
      change _ ++ q.packets.map QueuedPacket.entry = _
      rw [hpackets, List.map_append]
      rfl
    rw [hdeparted, harrived, hpending, ← List.append_assoc, heq]
  · intro time size delay hmem
    rcases List.mem_append.1 hmem with hmem | hmem
    · exact h.delay_le time size delay hmem
    · cases List.mem_singleton.1 hmem

end LinkQueue

namespace Link

open LinkQueue

variable {k k' : Link} {c : Call} {calls : List Call} {infinite : Prop}

/-- **Every call keeps the log truthful,** and logs the packet that it reads. -/
theorem truthful_step (h : Truthful infinite (k.written.map List.length) k.queue)
    (hstep : Step k c k') :
    Truthful infinite (k'.written.map List.length) k'.queue ∧
      k'.queue.arrived = k.queue.arrived ++ c.arrived.toList := by
  have hrounds : ∀ {now : ℕ} {l : LinkQueue}, k.queue.Rationalizes now l →
      Truthful infinite (k.written.map List.length) l ∧ l.arrived = k.queue.arrived := by
    intro now l hrat
    refine hrat.invariant (I := fun l => Truthful infinite (k.written.map List.length) l ∧
      l.arrived = k.queue.arrived) (fun l₁ l₂ hl₁ hnext => ?_) ⟨h, rfl⟩
    obtain ⟨t, sent, -, hsent⟩ := rationalizeStep_delivers hnext
    exact ⟨hl₁.1.round hnext, hsent.entries.1.trans hl₁.2⟩
  cases hstep with
  | @readPacket contents now l l' hsize hrat haccept =>
      obtain ⟨hl, harrived⟩ := hrounds hrat
      obtain ⟨hl', harrived'⟩ := hl.accept haccept
      exact ⟨hl', by rw [harrived', harrived]; rfl⟩
  | waitTime hrat _ =>
      obtain ⟨hl, harrived⟩ := hrounds hrat
      exact ⟨hl, by rw [harrived]; exact (List.append_nil _).symm⟩
  | writePackets =>
      refine ⟨⟨?_, h.sublist, h.complete, h.delay_le⟩, (List.append_nil _).symm⟩
      change (k.written ++ k.queue.outputQueue).map List.length ++ [] = _
      rw [List.map_append, List.append_nil]
      exact h.sizes

/-- The log is empty at the start. -/
theorem truthful_start {type args filename trace : Bytes} {repeats : Bool} {timestamp : ℕ}
    {clock : Stream' ℕ} {draws : Stream' Float}
    (h : Link.start type args filename trace repeats timestamp clock draws = .ok k) :
    Truthful (type = ascii "infinite") (k.written.map List.length) k.queue ∧ k.queue.log = [] ∧
      k.queue.pending = [] ∧ k.queue.baseTimestamp = timestamp := by
  obtain ⟨schedule, q, -, hpackets, -, hinf, rfl⟩ := start_eq_ok h
  set l : LinkQueue := {
    schedule := schedule, baseTimestamp := timestamp, packetQueue := q, repeats := repeats }
  have hpending : l.pending = [] := by
    rw [pending, if_pos rfl, List.nil_append, List.map_eq_nil_iff]
    exact hpackets
  refine ⟨⟨rfl, ?_, fun h => ⟨hinf h, ?_⟩, fun _ _ _ hmem => by cases hmem⟩, rfl, hpending, rfl⟩
  · rw [hpending]
    exact List.Sublist.refl _
  · rw [hpending]
    rfl

/-- **In every run the log is truthful.** -/
theorem truthful_run (h : Truthful infinite (k.written.map List.length) k.queue)
    (hrun : Run Step k calls k') :
    Truthful infinite (k'.written.map List.length) k'.queue ∧
      k'.queue.arrived = k.queue.arrived ++ calls.filterMap Call.arrived := by
  induction hrun with
  | nil k => exact ⟨h, (List.append_nil _).symm⟩
  | @cons _ _ _ c calls hstep _ ih =>
      obtain ⟨h', harrived⟩ := truthful_step h hstep
      obtain ⟨h'', harrived'⟩ := ih h'
      refine ⟨h'', ?_⟩
      rw [harrived', harrived, List.append_assoc]
      cases hc : c.arrived <;> simp [hc]

/-- **The log tells what the link did.**  The arrivals are the packets that are read, each
with the reading of the clock and its size; the sizes of the departures are those of the
packets that are delivered.  A departure, put back by its delay, is the arrival of its
packet: they are arrivals of the log in order, and where the queue is infinite all of them
but those of the packets still in the link. -/
theorem log_truthful {type args filename trace : Bytes} {repeats : Bool} {timestamp : ℕ}
    {clock : Stream' ℕ} {draws : Stream' Float}
    (hstart : Link.start type args filename trace repeats timestamp clock draws = .ok k)
    (hrun : Run Step k calls k') :
    k'.queue.arrived = calls.filterMap Call.arrived ∧
      (k'.written ++ k'.queue.outputQueue).map List.length = k'.queue.departed.map Prod.snd ∧
      k'.queue.departed ++ k'.queue.pending <+ k'.queue.arrived ∧
      (type = ascii "infinite" → k'.queue.departed ++ k'.queue.pending = k'.queue.arrived) ∧
      ∀ time size delay, .departure time size delay ∈ k'.queue.log → delay ≤ time := by
  obtain ⟨hk, hlog, -⟩ := truthful_start hstart
  obtain ⟨⟨hsizes, hsublist, hcomplete, hdelay⟩, harrived⟩ := truthful_run hk hrun
  refine ⟨?_, ?_, hsublist, fun h => (hcomplete h).2, hdelay⟩
  · rw [harrived, arrived, hlog]
    rfl
  · rw [List.map_append]
    exact hsizes

/-- Two packets, one of which takes two opportunities: six lines in the log. -/
theorem log_truthful_twoLines :
    ∃ k' : Link, Run Step { queue := twoLines } twoPackets k' ∧
      k'.queue.departed = [(0, 1), (0, 1504)] ∧ k'.queue.departed <+ k'.queue.arrived := by
  obtain ⟨-, -, hsublist, -⟩ := log_truthful (start_twoLines (Stream'.const 0) (Stream'.const 0))
    run_twoLines
  exact ⟨_, run_twoLines, rfl, (List.sublist_append_left _ _).trans hsublist⟩

end Link

/-! ### The graphs of a link -/

/-- The passage of the packet that departs, counted from `base`. -/
def LogEvent.passage (base : ℕ) : LogEvent → Option (Passage ℚ)
  | .departure time _ delay => some ⟨(time - base : ℤ) - delay, (time - base : ℤ)⟩
  | _ => none

/-- **No line of a link is refused by `mm-delay-graph`.** -/
theorem LogEvent.delayGraphReads (base : ℕ) (e : LogEvent) :
    GraphLog.DelayGraphReads (e.read base) := by
  have hplus : ascii "+" ≠ ascii "-" := by decide +kernel
  have hhash : ascii "#" ≠ ascii "-" := by decide +kernel
  cases e <;> simp [GraphLog.DelayGraphReads, LogEvent.read, hplus, hhash]

/-- Perl reads a decimal number as it was written. -/
theorem numify_decimal (n : ℕ) : Perl.numify (decimal n) = n := by
  rw [Perl.numify_digits (decimal_ne_nil n) fun c hc => isSome_of_mem_decimal hc, digitsValue_decimal]

/-- **Nor by `mm-throughput-graph`,** unless the packet arrived before the base timestamp. -/
theorem LogEvent.throughputGraphReads {base msPerBin : ℕ} (hbin : msPerBin ≠ 0) {e : LogEvent}
    (he : ∀ time size delay, e = .departure time size delay → delay ≤ time ∧ base ≤ time - delay) :
    GraphLog.ThroughputGraphReads msPerBin (e.read base) := by
  have hplus : ascii "+" ≠ ascii "-" := by decide +kernel
  have hhash : ascii "#" ≠ ascii "-" := by decide +kernel
  refine ⟨hbin, ?_, ?_⟩
  · cases e <;> simp [LogEvent.read]
  · cases e with
    | arrival time size => exact fun h => absurd h hplus
    | opportunity time size => exact fun h => absurd h hhash
    | departure time size delay =>
        intro _
        obtain ⟨hle, hbase⟩ := he time size delay rfl
        refine ⟨_, rfl, ?_, ?_⟩
        · rw [numify_decimal]
          exact Nat.cast_nonneg delay
        · rw [numify_decimal]
          have hsum : ((base + delay : ℕ) : ℚ) ≤ (time : ℕ) := Nat.cast_le.2 (by omega)
          simp only [LogEvent.read]
          push_cast at hsum ⊢
          linarith

namespace LinkQueue

/-- The packets that have departed: when each went in and when it came out. -/
def passages (base : ℕ) (l : LinkQueue) : List (Passage ℚ) := l.log.filterMap (LogEvent.passage base)

variable {l l' : LinkQueue} {t now base : ℕ}

/-- **The passages that the scripts read.** -/
theorem passages_read (base : ℕ) (l : LinkQueue) :
    GraphLog.passages (l.log.map (LogEvent.read base)) = l.passages base := by
  rw [GraphLog.passages, List.filterMap_map, passages]
  refine List.filterMap_congr fun e _ => ?_
  have hplus : ascii "+" ≠ ascii "-" := by decide +kernel
  have hhash : ascii "#" ≠ ascii "-" := by decide +kernel
  rw [Function.comp_apply, GraphLog.passage]
  cases e with
  | arrival time size => simp [LogEvent.read, LogEvent.passage, hplus]
  | opportunity time size => simp [LogEvent.read, LogEvent.passage, hhash]
  | departure time size delay =>
      simp [LogEvent.read, LogEvent.passage, numify_decimal]

/-- No passages without a departure. -/
theorem passages_eq_nil_iff : l.passages base = [] ↔ l.departed = [] := by
  rw [passages, departed, List.filterMap_eq_nil_iff, List.filterMap_eq_nil_iff]
  refine forall₂_congr fun e _ => ?_
  cases e <;> simp [LogEvent.passage, LogEvent.departed]

/-- **A link whose log is in order of time keeps the order.** -/
theorem ofLink_passages (hsorted : l.log.Pairwise fun e e' => e.time ≤ e'.time)
    (hsublist : l.departed <+ l.arrived)
    (hdelay : ∀ time size delay, .departure time size delay ∈ l.log → delay ≤ time) :
    GraphLog.OfLink (l.passages base) := by
  have harrived : (l.arrived.map Prod.fst).Pairwise (· ≤ ·) := by
    rw [List.pairwise_map, arrived, List.pairwise_filterMap]
    refine hsorted.imp fun {e e'} hle p hp p' hp' => ?_
    cases e <;> cases hp
    cases e' <;> cases hp'
    exact hle
  have hdeparted : (l.departed.map Prod.fst).Pairwise (· ≤ ·) := harrived.sublist (hsublist.map _)
  have harrivals : (l.passages base).map Passage.arrival =
      (l.departed.map Prod.fst).map fun time : ℕ => (time : ℚ) - base := by
    rw [passages, departed, List.map_map, List.map_filterMap, List.map_filterMap]
    refine List.filterMap_congr fun e he => ?_
    cases e with
    | arrival time size => rfl
    | opportunity time size => rfl
    | departure time size delay =>
        have hle := hdelay time size delay he
        simp only [LogEvent.passage, LogEvent.departed, Option.map_some, Function.comp_apply]
        push_cast [hle]
        ring_nf
  constructor
  · refine Fifo.of_pairwise ?_ ?_
    · rw [← List.pairwise_map (f := Passage.arrival) (R := (· ≤ ·)), harrivals, List.pairwise_map]
      exact hdeparted.imp fun hle => sub_le_sub_right (Nat.cast_le.2 hle) _
    · rw [passages, List.pairwise_filterMap]
      refine hsorted.imp fun {e e'} hle p hp p' hp' => ?_
      cases e <;> cases hp
      cases e' <;> cases hp'
      exact Int.cast_le.2 (Int.sub_le_sub_right (Int.ofNat_le.2 hle) _)
  · intro p hp
    obtain ⟨e, -, he⟩ := List.mem_filterMap.1 hp
    cases e <;> cases he
    rename_i time size delay
    exact ⟨(time : ℤ) - base - delay, by push_cast; ring⟩

/-- **A departure is later than an arrival,** so that the log lasts. -/
theorem logLasts_readEvents (hsorted : l.log.Pairwise fun e e' => e.time ≤ e'.time)
    (hsublist : l.departed <+ l.arrived)
    (hdelay : ∀ time size delay, .departure time size delay ∈ l.log → 0 < delay ∧ delay ≤ time)
    (hne : l.departed ≠ []) : GraphLog.LogLasts (GraphLog.readEvents base l.log) := by
  obtain ⟨p, hp⟩ := List.exists_mem_of_ne_nil _ hne
  obtain ⟨arrival, harrival, hp'⟩ := List.mem_filterMap.1 (hsublist.subset hp)
  obtain ⟨departure, hdeparture, hp⟩ := List.mem_filterMap.1 hp
  have hlater : arrival.time < departure.time := by
    cases arrival <;> cases hp'
    cases departure <;> cases hp
    rename_i size time delay
    obtain ⟨hpos, hle⟩ := hdelay time size delay hdeparture
    change time - delay < time
    omega
  have hlog : l.log ≠ [] := List.ne_nil_of_mem harrival
  obtain ⟨last, hlast⟩ : ∃ last, (l.log.map fun e => (e.time : ℤ) - base).max? = some last := by
    rw [← Option.isSome_iff_exists, List.isSome_max?_iff]
    simpa using hlog
  refine ⟨_, last, congrArg (Option.map _) (List.head?_eq_some_head hlog), hlast, ?_⟩
  have hfirst_le := hsorted.rel_head harrival
  have hle_last := (List.max?_eq_some_iff.1 hlast).2 _ (List.mem_map_of_mem hdeparture)
  change last - (((l.log.head hlog).time : ℤ) - base) ≠ 0
  omega

/-- `Ready`, and the packets in the link have to wait for the next delivery. -/
structure Waits (l : LinkQueue) (t : ℕ) : Prop where
  ready : l.Ready t
  ahead : ∀ p ∈ l.pending, p.1 < t
  delay_pos : ∀ time size delay, .departure time size delay ∈ l.log → 0 < delay

/-- The queue goes on waiting behind an opportunity. -/
theorem Waits.round (h : l.Waits t) (hfit : l.SumsFit) (hfit' : l'.SumsFit)
    (hnext : rationalizeStep now l = .ok (.inl l')) : ∃ t', l'.Waits t' := by
  obtain ⟨-, ⟨t', hready, hle⟩, -⟩ := h.ready.round hfit hfit' hnext
  obtain ⟨t₁, sent, ht, hsent⟩ := rationalizeStep_delivers hnext
  rw [h.ready.time] at ht
  cases ht
  have hahead : ∀ p ∈ sent ++ l'.pending, p.1 < t := fun p hp => h.ahead p (hsent.sublist.subset hp)
  refine ⟨t', hready, fun p hp => ?_, fun time size delay hmem => ?_⟩
  · exact (hahead p (List.mem_append_right sent hp)).trans_le hle
  · rw [hsent.log] at hmem
    rcases List.mem_append.1 hmem with hmem | hmem
    · rcases List.mem_append.1 hmem with hmem | hmem
      · exact h.delay_pos time size delay hmem
      · cases List.mem_singleton.1 hmem
    · obtain ⟨p, hp, heq⟩ := List.mem_map.1 hmem
      cases heq
      exact Nat.sub_pos_of_lt (hahead p (List.mem_append_left _ hp))

/-- Behind any number of them. -/
theorem Waits.rounds (h : l.Waits t) (hfit : l.SumsFitDuring now) (hrounds : Rounds now l l') :
    ∃ t', l'.Waits t' := by
  induction hrounds with
  | refl => exact ⟨t, h⟩
  | tail hrounds hnext ih =>
      obtain ⟨t₁, h₁⟩ := ih
      exact h₁.round (hfit _ hrounds) (hfit _ (hrounds.tail hnext)) hnext

/-- A packet that comes in waits for the same opportunity. -/
theorem Waits.accept {contents : Bytes} (h : l.Waits t) (hpos : contents ≠ [])
    (hsize : contents.length ≤ PACKET_SIZE) (hnow : now < t)
    (haccept : l.acceptPacket contents now = .ok l') : l'.Waits t := by
  refine ⟨(h.ready.accept hpos hsize hnow.le haccept).1, fun p hp => ?_, fun time size delay hmem => ?_⟩
  · rcases List.mem_append.1 ((acceptPacket_pending haccept).subset hp) with hp | hp
    · exact h.ahead p hp
    · rw [List.mem_singleton.1 hp]
      exact hnow
  · obtain ⟨q, -, rfl⟩ := acceptPacket_eq_ok haccept
    rcases List.mem_append.1 hmem with hmem | hmem
    · exact h.delay_pos time size delay hmem
    · cases List.mem_singleton.1 hmem

end LinkQueue

namespace Link

open LinkQueue

variable {k k' : Link} {c : Call} {calls : List Call}

/-- **Every packet waits,** in a run whose sums fit. -/
theorem waits_step (h : ∃ t, k.queue.Waits t) (hstep : FittingStep k c k') :
    ∃ t, k'.queue.Waits t := by
  obtain ⟨t, h⟩ := h
  obtain ⟨hstep, hpos, hfit⟩ := hstep
  cases hstep with
  | @readPacket contents r l l' hsize hrat haccept =>
      obtain ⟨t', h'⟩ := h.rounds (hfit r rfl) hrat.rounds
      obtain ⟨t₁, ht₁, hlt⟩ := hrat.nextDeliveryTime
      rw [h'.ready.time] at ht₁
      cases ht₁
      exact ⟨t', h'.accept (hpos contents r rfl) hsize hlt haccept⟩
  | @waitTime r _ _ hrat _ => exact h.rounds (hfit r rfl) hrat.rounds
  | writePackets =>
      obtain ⟨h₁, h₂, h₃, h₄, h₅, ⟨h₆, h₇, hin⟩, h₈⟩ := h.ready
      refine ⟨t, ⟨h₁, h₂, h₃, h₄, h₅, ⟨h₆, h₇, fun hleft => ?_⟩, h₈⟩, h.ahead, h.delay_pos⟩
      obtain ⟨h₁, h₂, h₃, h₄⟩ := hin hleft
      exact ⟨h₁, h₂, h₃, h₄⟩

/-- What a run leaves in the log, if its clock does not go back. -/
theorem logged_run {type args filename trace : Bytes} {repeats : Bool} {timestamp : ℕ}
    {clock : Stream' ℕ} {draws : Stream' Float}
    (hstart : Link.start type args filename trace repeats timestamp clock draws = .ok k)
    (hrun : Run FittingStep k calls k')
    (hclock : (timestamp :: calls.filterMap Call.reading).Pairwise (· ≤ ·)) :
    k.queue.baseTimestamp = timestamp ∧
      (k'.queue.log.Pairwise fun e e' => e.time ≤ e'.time) ∧
      k'.queue.departed <+ k'.queue.arrived ∧ (∀ p ∈ k'.queue.arrived, timestamp ≤ p.1) ∧
      ∀ time size delay, .departure time size delay ∈ k'.queue.log → 0 < delay ∧ delay ≤ time := by
  obtain ⟨hk, hlog, hpending, hbase⟩ := truthful_start hstart
  obtain ⟨⟨t, hready⟩, hlogged⟩ := ready_start hstart
  obtain ⟨hfirst, hreadings⟩ := List.pairwise_cons.1 hclock
  have hsteps : Run Step k calls k' := hrun.mono fun _ _ _ hstep => hstep.1
  obtain ⟨hk', harrived⟩ := truthful_run hk hsteps
  obtain ⟨-, hrounds⟩ := ready_run 0 hready hrun
  obtain ⟨last, -, hlast⟩ := hrounds hlogged
    (List.pairwise_cons.2 ⟨fun r _ => Nat.zero_le r, hreadings⟩)
  have hwaits : ∃ t, k.queue.Waits t := by
    refine ⟨t, hready, fun p hp => ?_, fun time size delay hmem => ?_⟩
    · rw [hpending] at hp
      cases hp
    · rw [hlog] at hmem
      cases hmem
  obtain ⟨t', ht'⟩ := hrun.invariant (fun _ _ _ h hstep => waits_step h hstep) hwaits
  refine ⟨hbase, hlast.sorted, (List.sublist_append_left _ _).trans hk'.sublist, fun p hp => ?_,
    fun time size delay hmem => ⟨ht'.delay_pos time size delay hmem, hk'.delay_le time size delay hmem⟩⟩
  rw [harrived, arrived, hlog, List.filterMap_nil, List.nil_append] at hp
  obtain ⟨c, hc, hp⟩ := List.mem_filterMap.1 hp
  cases c <;> cases hp
  exact hfirst _ (List.mem_filterMap.2 ⟨_, hc, rfl⟩)

/-- **The scripts compute the signal delay of a link from its log file.**  The clock of the
link does not go back, and the names in the header have no line endings.  Then
`mm-delay-graph` completes a signal delay just if a packet has departed, and
`mm-throughput-graph` just if its bins are not empty as well.  Both are, for each
millisecond from the first arrival of a packet that departed to the last, the least time in
which a message that is made then gets through. -/
theorem graphs_of_link {type args filename trace : Bytes} {repeats : Bool} {timestamp : ℕ}
    {clock : Stream' ℕ} {draws : Stream' Float} {header : LogHeader} (hheader : header.OneLine)
    (hstart : Link.start type args filename trace repeats timestamp clock draws = .ok k)
    (hrun : Run FittingStep k calls k')
    (hclock : (timestamp :: calls.filterMap Call.reading).Pairwise (· ≤ ·)) (msPerBin : ℕ) :
    (∀ table, GraphLog.delayGraph (getLines (logFile header k.queue k'.queue.log)) = .ok table →
      GraphLog.SignalDelay (k'.queue.passages timestamp) table) ∧
    (∀ table, GraphLog.throughputGraph msPerBin
        (getLines (logFile header k.queue k'.queue.log)) = .ok table →
      GraphLog.SignalDelay (k'.queue.passages timestamp) table) ∧
    ((∃ table, GraphLog.delayGraph (getLines (logFile header k.queue k'.queue.log)) = .ok table) ↔
      k'.queue.departed ≠ []) ∧
    ((∃ table, GraphLog.throughputGraph msPerBin
        (getLines (logFile header k.queue k'.queue.log)) = .ok table) ↔
      msPerBin ≠ 0 ∧ k'.queue.departed ≠ []) := by
  obtain ⟨hbase, hsorted, hsublist, harrived, hdelay⟩ := logged_run hstart hrun hclock
  have hevents := GraphLog.events_logFile hheader k.queue k'.queue.log
  rw [hbase] at hevents
  have hpassages : GraphLog.passages (GraphLog.readEvents timestamp k'.queue.log).graph =
      k'.queue.passages timestamp := passages_read timestamp k'.queue
  have hlink : GraphLog.OfLink (k'.queue.passages timestamp) :=
    ofLink_passages hsorted hsublist fun time size delay hmem => (hdelay time size delay hmem).2
  have hbefore : ∀ time size delay, .departure time size delay ∈ k'.queue.log →
      timestamp ≤ time - delay := fun time size delay hmem =>
    harrived _ (hsublist.subset (List.mem_filterMap.2 ⟨_, hmem, rfl⟩))
  have hdelayReads : ∀ e ∈ (GraphLog.readEvents timestamp k'.queue.log).graph,
      GraphLog.DelayGraphReads e := by
    intro e he
    obtain ⟨e, he, rfl⟩ := List.mem_map.1 he
    exact e.delayGraphReads timestamp
  have hthroughputReads : msPerBin ≠ 0 → ∀ e ∈ (GraphLog.readEvents timestamp k'.queue.log).graph,
      GraphLog.ThroughputGraphReads msPerBin e := by
    intro hbin e he
    obtain ⟨e, hmem, rfl⟩ := List.mem_map.1 he
    refine LogEvent.throughputGraphReads hbin fun time size delay heq => ?_
    rw [heq] at hmem
    exact ⟨(hdelay time size delay hmem).2, hbefore time size delay hmem⟩
  have hcomplete := GraphLog.complete_recorded
    (GraphLog.recorded_foldl (GraphLog.readEvents timestamp k'.queue.log).graph) (hpassages ▸ hlink)
  rw [hpassages] at hcomplete
  have hsound : ∀ table, k'.queue.passages timestamp ≠ [] →
      GraphLog.complete ((GraphLog.readEvents timestamp k'.queue.log).graph.foldl
        GraphLog.Departures.after {}).signalDelay = .ok table →
      GraphLog.SignalDelay (k'.queue.passages timestamp) table := by
    intro table hne htable
    obtain ⟨table', htable', hleast⟩ := hcomplete hne
    obtain rfl := Except.ok.inj (htable.symm.trans htable')
    exact hleast
  simp only [GraphLog.delayGraph_eq_ok_iff hevents, GraphLog.throughputGraph_eq_ok_iff hevents, hpassages]
  refine ⟨fun table htable => hsound table htable.1.2 htable.2,
    fun table htable => hsound table htable.1.2.2 htable.2, ?_, ?_⟩
  · constructor
    · rintro ⟨table, ⟨-, hne⟩, -⟩
      exact passages_eq_nil_iff.not.1 hne
    · intro hne
      obtain ⟨table, htable, -⟩ := hcomplete (passages_eq_nil_iff.not.2 hne)
      exact ⟨table, ⟨hdelayReads, passages_eq_nil_iff.not.2 hne⟩, htable⟩
  · constructor
    · rintro ⟨table, ⟨hreads, -, hne⟩, -⟩
      obtain ⟨p, hp⟩ := List.exists_mem_of_ne_nil _ hne
      obtain ⟨e, he, -⟩ := List.mem_filterMap.1 hp
      exact ⟨(hreads _ (List.mem_map_of_mem he)).1, passages_eq_nil_iff.not.1 hne⟩
    · rintro ⟨hbin, hne⟩
      have hlasts : GraphLog.LogLasts (GraphLog.readEvents timestamp k'.queue.log) :=
        logLasts_readEvents hsorted hsublist hdelay hne
      obtain ⟨table, htable, -⟩ := hcomplete (passages_eq_nil_iff.not.2 hne)
      exact ⟨table, ⟨hthroughputReads hbin, hlasts, passages_eq_nil_iff.not.2 hne⟩, htable⟩

/-- The header of a log file of `twoLines`. -/
def twoLinesHeader : LogHeader where
  linkName := ascii "Uplink"
  filename := ascii "trace"
  logfile := ascii "log"
  commandLine := ascii "mm-link trace trace --uplink-log=log"
  initialTimestamp := 1700000000000
  shellPrefix := some (ascii "[link] ")

/-- The graphs of two packets, one of which takes two opportunities. -/
theorem graphs_of_twoLines : ∃ (k' : Link) (lines : List Bytes) (table : GraphLog.Hash),
    Run FittingStep { queue := twoLines } twoPackets k' ∧
      lines = getLines (logFile twoLinesHeader twoLines k'.queue.log) ∧
      GraphLog.throughputGraph 500 lines = .ok table ∧ table.value 0 = some 1 := by
  have hone : twoLinesHeader.OneLine := by
    refine ⟨by decide +kernel, by decide +kernel, by decide +kernel, by decide +kernel, ?_⟩
    intro config hconfig
    cases hconfig
    decide +kernel
  have hclock : (0 :: twoPackets.filterMap Call.reading).Pairwise (· ≤ ·) := by
    change [0, 0, 0, 1, 3].Pairwise (· ≤ ·)
    decide
  obtain ⟨-, hsignal, -, hiff⟩ := graphs_of_link hone (start_twoLines (Stream'.const 0)
    (Stream'.const 0)) fittingRun_twoLines hclock 500
  obtain ⟨table, htable⟩ := hiff.2 ⟨by decide, by decide⟩
  have hpassages : ended.passages 0 = [⟨0, 1⟩, ⟨0, 3⟩] := by
    have hfirst : LogEvent.passage 0 (.departure 1 1 1) = some ⟨0, 1⟩ := by
      rw [LogEvent.passage]
      norm_num
    have hsecond : LogEvent.passage 0 (.departure 3 1504 3) = some ⟨0, 3⟩ := by
      rw [LogEvent.passage]
      norm_num
    have hlog : ended.log = [.arrival 0 1, .arrival 0 1504, .opportunity 1 1504, .departure 1 1 1,
      .opportunity 3 1504, .departure 3 1504 3] := rfl
    rw [passages, hlog, List.filterMap_cons_none rfl, List.filterMap_cons_none rfl,
      List.filterMap_cons_none rfl, List.filterMap_cons_some hfirst, List.filterMap_cons_none rfl,
      List.filterMap_cons_some hsecond, List.filterMap_nil]
  obtain ⟨d, hd, ⟨p, hp, -, rfl⟩, hleast⟩ := hsignal table htable 0
    ⟨⟨0, 1⟩, by simp [hpassages], by simp⟩ ⟨⟨0, 1⟩, by simp [hpassages], by simp⟩
  have hle : p.departure - ((0 : ℤ) : ℚ) ≤ 1 := by
    refine hleast ⟨⟨0, 1⟩, by simp [hpassages], by simp, ?_⟩
    norm_num
  rw [hpassages, List.mem_cons, List.mem_singleton] at hp
  rcases hp with rfl | rfl
  · exact ⟨_, _, table, fittingRun_twoLines, rfl, htable, by simpa using hd⟩
  · norm_num at hle

end Link

end V2Proxy
