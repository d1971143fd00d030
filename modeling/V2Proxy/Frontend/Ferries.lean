/-
# The ferries of `mm-link` and `mm-delay`

A `PacketShell` carries packets with a `LinkQueue` or a `DelayQueue`.  Each is a queue that a
ferry can rely on (`linkLaws`, `delayLaws`), and in both the calls of the ferry are calls of the
event loop as `Link.Step` and `DelayLink.call` have them, so what holds of every run of these
holds of the queue of a ferry.

The ferry of a link delivers packets in order, all of them if the queue of the link is infinite;
when the link has finished, all packets that have left it are written before the ferry exits
(`link_ferry`).  The ferry of a delay queue delivers each packet no earlier than its delay
(`delay_ferry`); it would be stopped for a busy wait if the clock went back between the question
whether output is pending and the write.
-/

import V2Proxy.Frontend.DelayQueue
import V2Proxy.Frontend.Link
import V2Proxy.Packet.Ferry

namespace V2Proxy

open Foundations Poller
open scoped List

namespace LinkQueue

variable {l l' : LinkQueue}

/-- A round of deliveries appends to the output queue. -/
theorem sendLoop_outputQueue {t : ℕ} {s s' : ℕ × LinkQueue} (h : (sendLoop t).run s = .ok s') :
    s.2.outputQueue <+: s'.2.outputQueue := by
  refine Loop.run_post (L := sendLoop t) (I := fun s₁ => s.2.outputQueue <+: s₁.2.outputQueue)
    (Q := fun s₁ => s.2.outputQueue <+: s₁.2.outputQueue) (fun s₁ s₂ hs₁ hnext => ?_)
    (fun s₁ x hs₁ hleave => ?_) List.prefix_rfl h
  · obtain ⟨-, l, hload, -, rfl⟩ := sendStep_next hnext
    have hl : l.outputQueue = s₁.2.outputQueue := by
      cases hload with
      | inTransit _ => rfl
      | next _ _ => rfl
    refine hs₁.trans ?_
    rw [← hl]
    simp only [transmit]
    split_ifs
    · exact List.prefix_append _ _
    · exact List.prefix_rfl
  · rwa [(sendStep_leave hleave).1]

/-- Packets that are ready to go stay so. -/
theorem Rationalizes.outputQueue {now : ℕ} (h : Rationalizes now l l') :
    l.outputQueue <+: l'.outputQueue := by
  refine h.invariant (I := fun l₁ => l.outputQueue <+: l₁.outputQueue) (fun l₁ l₂ hl₁ hnext => ?_)
    List.prefix_rfl
  obtain ⟨t, n, -, -, hrun⟩ := rationalizeStep_next hnext
  obtain ⟨_, _, _, hadvance⟩ := (l₁.recordOpportunity t).advance_eq
  have hsend := sendLoop_outputQueue hrun
  rw [hadvance] at hsend
  exact hl₁.trans hsend

/-- A link that has finished stays as it is. -/
theorem Rationalizes.of_finished {now : ℕ} (h : Rationalizes now l l') (hfinished : l.finished = true)
    (hnow : now < npos) : l' = l := by
  have ht : l.nextDeliveryTime = .ok npos := by
    rw [LinkQueue.nextDeliveryTime, if_pos hfinished]
  have hleave : Returns (rationalizeStep now) l (.ok l) :=
    Returns.of_leave (rationalizeStep_of_lt ht hnow)
  exact (Except.ok.inj (hleave.unique h)).symm

/-- What a call reads of the clock, and in how many rounds `rationalize` has to return. -/
structure Reading where
  now : ℕ
  rounds : ℕ
  /-- a finished link is due at the largest `uint64_t` -/
  now_lt : now < npos

/-- A reading with a few rounds. -/
def Reading.at (now : ℕ) (h : now < npos) : Reading := { now := now, rounds := 4, now_lt := h }

/-- `LinkQueue::rationalize`. -/
def rationalize (a : Reading) (l : LinkQueue) : Except (Option Fault) LinkQueue :=
  match iterate (rationalizeStep a.now) a.rounds l with
  | none => .error none
  | some (.error e) => .error (some e)
  | some (.ok l) => .ok l

/-- What `rationalize` did, it did in rounds. -/
theorem rationalize_eq_ok {a : Reading} (h : l.rationalize a = .ok l') : l.Rationalizes a.now l' := by
  rw [rationalize] at h
  split at h
  · cases h
  · cases h
  · rename_i hl
    cases h
    exact ⟨a.rounds, hl⟩

end LinkQueue

namespace Link

open LinkQueue

/-- `LinkQueue::read_packet`. -/
def readPacket (a : Reading) (contents : Bytes) (k : Link) : Except (Option Fault) Link :=
  if PACKET_SIZE < contents.length then
    .error (some (.runtimeError (ascii "packet size is greater than maximum")))
  else do
    let l ← k.queue.rationalize a
    let l ← (l.acceptPacket contents a.now).mapError some
    return { k with queue := l, read := k.read ++ [contents] }

/-- `LinkQueue::wait_time`. -/
def waitTime (a : Reading) (k : Link) : Except (Option Fault) (ℕ × Link) := do
  let l ← k.queue.rationalize a
  let n ← (l.waitAfter a.now).mapError some
  return (n, { k with queue := l })

/-- The queue of a ferry of `mm-link`. -/
def ferryQueue : FerryQueue Link Reading where
  readPacket := readPacket
  writePackets k := (k.queue.writePackets.1, { k with
    queue := k.queue.writePackets.2
    written := k.written ++ k.queue.writePackets.1 })
  waitTime := waitTime
  pendingOutput k := (k.queue.outputQueue ≠ [], k)
  finished k := k.queue.finished

/-- A packet that was read. -/
theorem readPacket_eq_ok {a : Reading} {contents : Bytes} {k k' : Link}
    (h : readPacket a contents k = .ok k') : ∃ l l', k.queue.Rationalizes a.now l ∧
      l.acceptPacket contents a.now = .ok l' ∧ contents.length ≤ PACKET_SIZE ∧
      k' = { k with queue := l', read := k.read ++ [contents] } := by
  obtain ⟨hsize, h⟩ := ite_error_eq_ok.1 h
  obtain ⟨l, hl, h⟩ := bind_eq_ok.1 h
  obtain ⟨l', hl', h⟩ := bind_eq_ok.1 h
  cases h
  exact ⟨l, l', rationalize_eq_ok hl, mapError_eq_ok.1 hl', Nat.le_of_not_lt hsize, rfl⟩

/-- A wait that was computed. -/
theorem waitTime_eq_ok {a : Reading} {n : ℕ} {k k' : Link} (h : waitTime a k = .ok (n, k')) :
    ∃ l, k.queue.Rationalizes a.now l ∧ l.waitAfter a.now = .ok n ∧ k' = { k with queue := l } := by
  obtain ⟨l, hl, h⟩ := bind_eq_ok.1 h
  obtain ⟨n', hn, h⟩ := bind_eq_ok.1 h
  cases h
  exact ⟨l, rationalize_eq_ok hl, mapError_eq_ok.1 hn, rfl⟩

/-- A link of the command line, some calls after its start. -/
structure Reached (infinite : Prop) (start k : Link) : Prop where
  run : ∃ calls, Run Step start calls k
  order : InOrder infinite k

/-- One more call. -/
theorem Reached.step {infinite : Prop} {start k k' : Link} {c : Call} (h : Reached infinite start k)
    (hstep : Step k c k') : Reached infinite start k' := by
  obtain ⟨calls, hrun⟩ := h.run
  exact ⟨⟨calls ++ [c], hrun.append (.cons hstep (.nil _))⟩, h.order.step hstep⟩

/-- A ferry can rely on a link. -/
def laws (infinite : Prop) (start : Link) : ferryQueue.Laws where
  inv := Reached infinite start
  read := Link.read
  written := Link.written
  held k := k.queue.flow
  pending k := k.queue.outputQueue ≠ []
  drained k := k.queue.outputQueue = []
  lossless := infinite
  order hk := ⟨hk.order.sublist, fun hinf => (hk.order.complete hinf).2⟩
  readPacket {a contents k k'} hk h := by
    obtain ⟨l, l', hl, hl', hsize, rfl⟩ := readPacket_eq_ok h
    refine ⟨hk.step (.readPacket hsize hl hl'), rfl, rfl, fun hne => ?_⟩
    obtain ⟨q, -, rfl⟩ := acceptPacket_eq_ok hl'
    exact hl.outputQueue.ne_nil hne
  writePackets {k} hk := by
    refine ⟨hk.step .writePackets, rfl, rfl, ?_, id⟩
    change k.queue.outputQueue <+ k.queue.outputQueue ++ k.queue.inTransit ++ _
    rw [List.append_assoc]
    exact List.sublist_append_left _ _
  waitTime {a n k k'} hk h := by
    obtain ⟨l, hl, hn, rfl⟩ := waitTime_eq_ok h
    exact ⟨hk.step (.waitTime hl hn), rfl, rfl⟩
  pendingOutput hk := ⟨hk, rfl, rfl, of_decide_eq_true, id⟩
  drained_of_not_pending _ h := by
    by_contra hne
    exact of_decide_eq_false h hne
  drained_writePackets _ _ := rfl
  drained_readPacket {a contents k k'} _ hfinished h := by
    obtain ⟨l, l', hl, hl', -, rfl⟩ := readPacket_eq_ok h
    obtain rfl := hl.of_finished hfinished a.now_lt
    obtain ⟨q, -, rfl⟩ := acceptPacket_eq_ok hl'
    exact ⟨hfinished, id⟩

/-- **The ferry of a link.**  Its queue makes a run of the calls of the event loop.  The packets
written, and those in the link, are in order among those read; with an infinite queue they are
all of them.  A round throws for a busy wait only if 2^32 packets have been read, and for a write
only if one of them is empty.  Its exit status is 0, or 77 when the link has finished, and then
every packet that has left the link is written. -/
theorem link_ferry {type args filename trace : Bytes} {repeats : Bool} {timestamp : ℕ}
    {clock : Stream' ℕ} {draws : Stream' Float} {k : Link}
    {events : List (Reading × Option (Ferry.Handler → Report (Ferry.Input Reading)))}
    {x : State Ferry.Handler (Ferry Link)}
    (hstart : Link.start type args filename trace repeats timestamp clock draws = .ok k)
    (hrun : Run (Ferry.Continues ferryQueue) (Poller.start { queue := k }) events x) :
    (∃ calls, Run Step k calls x.shared.queue) ∧
    x.shared.read = x.shared.queue.read ∧ x.shared.written = x.shared.queue.written ∧
    x.shared.written ++ x.shared.queue.queue.flow <+ x.shared.read ∧
    (type = ascii "infinite" → x.shared.written ++ x.shared.queue.queue.flow = x.shared.read) ∧
    ∀ reading report, (∃ e, Ferry.round ferryQueue reading report x = .error e ∧ Ferry.Throws e) ∨
      ∃ r x', Ferry.round ferryQueue reading report x = .ok (r, x') ∧
        ∀ exitStatus, r = .Exit exitStatus → exitStatus = 0 ∨ exitStatus = 77 ∧
          (∃ n k', waitTime reading x.shared.queue = .ok (n, k') ∧ k'.queue.finished = true) ∧
          ∀ reported, report = some reported →
            (reported .writeSibling).revents.ready = (reported .finish).revents.ready →
              x'.shared.queue.queue.outputQueue = [] := by
  have hreached : Reached (type = ascii "infinite") k k := ⟨⟨[], .nil k⟩, .start hstart⟩
  have hnothing : k.read = [] ∧ k.written = [] := by
    obtain ⟨schedule, q, -, -, -, -, rfl⟩ := start_eq_ok hstart
    exact ⟨rfl, rfl⟩
  have hx := Ferry.holds_of_run (L := laws (type = ascii "infinite") k) hreached hnothing.1
    hnothing.2 hrun
  refine ⟨hx.inv.inv.run, hx.inv.read, hx.inv.written, hx.inv.order.1, hx.inv.order.2,
    fun reading report => ?_⟩
  rcases Ferry.round_spec hx reading report with h | ⟨r, x', hr, -, hexit⟩
  · exact Or.inl h
  refine Or.inr ⟨r, x', hr, ?_⟩
  rintro exitStatus rfl
  rcases hexit exitStatus rfl with h | ⟨rfl, hfinished⟩
  · exact Or.inl h
  · refine Or.inr ⟨rfl, hfinished, ?_⟩
    rintro reported rfl hsame
    exact Ferry.drained_of_exit hx hsame hr

/-- A packet of one byte arrives at 0, and leaves at 1. -/
def oneByte : List (Reading × Option (Ferry.Handler → Report (Ferry.Input Reading))) :=
  [(.at 0 (by decide), some fun
      | .readTun => {
          revents := { ready := true }
          input := { reading := .at 0 (by decide), packet := some [7] } }
      | _ => { revents := {}, input := { reading := .at 0 (by decide) } }),
    (.at 1 (by decide), some fun
      | .writeSibling => { revents := { ready := true }, input := { reading := .at 1 (by decide) } }
      | _ => { revents := {}, input := { reading := .at 1 (by decide) } })]

/-- One packet is read, and written a millisecond later. -/
theorem link_ferry_everyMillisecond :
    ∃ x, Run (Ferry.Continues ferryQueue) (Poller.start { queue := { queue := everyMillisecond } })
        oneByte x ∧ x.shared.written = [[7]] ∧
      x.shared.written = x.shared.queue.written ∧
      ∀ reading report,
        (∃ e, Ferry.round ferryQueue reading report x = .error e ∧ Ferry.Throws e) ∨
          ∃ r x', Ferry.round ferryQueue reading report x = .ok (r, x') := by
  obtain ⟨x, hrun, hx⟩ : ∃ x, Run (Ferry.Continues ferryQueue)
      (Poller.start { queue := { queue := everyMillisecond } }) oneByte x ∧
        x.shared.written = [[7]] :=
    ⟨_, .cons ⟨.Success, rfl, by rintro _ ⟨⟩⟩ (.cons ⟨.Success, rfl, by rintro _ ⟨⟩⟩ (.nil _)), rfl⟩
  obtain ⟨-, -, hwritten, -, -, hround⟩ := link_ferry
    (start_everyMillisecond (Stream'.const 0) (Stream'.const 0)) hrun
  refine ⟨x, hrun, hx, hwritten, fun reading report => ?_⟩
  rcases hround reading report with h | ⟨r, x', hr, -⟩
  · exact Or.inl h
  · exact Or.inr ⟨r, x', hr⟩

end Link

namespace DelayLink

open DelayQueue

/-- The queue of a ferry of `mm-delay`.  `pending_output` is `wait_time() <= 0`, and reads the
clock; the clock is in the queue. -/
def ferryQueue : FerryQueue DelayLink Unit where
  readPacket _ contents k := .ok (k.call (.readPacket contents))
  writePackets k := (k.queue.writePackets.written.map Prod.snd, k.call .writePackets)
  waitTime _ k := .ok (k.queue.waitTime.1, k.call .waitTime)
  pendingOutput k := (k.queue.waitTime.1 ≤ 0, k.call .waitTime)
  finished _ := false

/-- The first packet of the queue is due when the clock is next read. -/
def Due (k : DelayLink) : Prop :=
  ∃ release contents rest, k.queue.packetQueue = (release, contents) :: rest ∧
    release ≤ k.queue.clock.head

variable {d : ℕ} {k : DelayLink}

/-- The packets in the queue. -/
def held (k : DelayLink) : List Bytes := k.queue.packetQueue.map Prod.snd

/-- An empty queue waits as long as it can. -/
theorem waitTime_nil {q : DelayQueue} (h : q.packetQueue = []) : q.waitTime = (2 ^ 16 - 1, q) := by
  rw [waitTime, h]

/-- The wait until the first packet is due, cut to 32 bits. -/
theorem waitTime_cons {q : DelayQueue} {release : ℕ} {contents : Bytes} {rest : List (ℕ × Bytes)}
    (h : q.packetQueue = (release, contents) :: rest) :
    q.waitTime = (if release ≤ q.clock.head then 0 else (release - q.clock.head) % 2 ^ 32,
      { q with clock := q.clock.tail }) := by
  rw [waitTime, h]

/-- Waiting takes no packet off. -/
theorem waitTime_packetQueue (q : DelayQueue) : q.waitTime.2.packetQueue = q.packetQueue := by
  rcases hqueue : q.packetQueue with _ | ⟨⟨release, contents⟩, rest⟩
  · rw [waitTime_nil hqueue, hqueue]
  · rw [waitTime_cons hqueue, ← hqueue]

/-- A queue that says that output is pending has a packet that is due, also at later readings. -/
theorem due_of_waitTime (h : Steady k.queue.clock) (hpending : k.queue.waitTime.1 ≤ 0)
    (hrange : ∀ p ∈ k.queue.packetQueue, p.1 < k.queue.clock.head + 2 ^ 32) :
    Due (k.call .waitTime) := by
  rcases hqueue : k.queue.packetQueue with _ | ⟨⟨release, contents⟩, rest⟩
  · rw [waitTime_nil hqueue] at hpending
    cases hpending
  · refine ⟨release, contents, rest, (waitTime_packetQueue _).trans hqueue, ?_⟩
    have hnext : k.queue.clock.head ≤ k.queue.clock.tail.head := h 0
    have hrange : release < k.queue.clock.head + 2 ^ 32 :=
      hrange (release, contents) (hqueue ▸ List.mem_cons_self)
    change release ≤ k.queue.waitTime.2.clock.head
    rw [waitTime_cons hqueue] at hpending ⊢
    by_cases hdue : release ≤ k.queue.clock.head
    · exact hdue.trans hnext
    · dsimp only at hpending
      rw [if_neg hdue, Nat.mod_eq_of_lt (by omega)] at hpending
      omega

/-- A packet that is due stays so while the clock does not go back. -/
theorem Due.call (h : Due k) (hsteady : Steady k.queue.clock) {c : Call} (hc : c ≠ .writePackets) :
    Due (k.call c) := by
  obtain ⟨release, contents, rest, hqueue, hdue⟩ := h
  have hnext : k.queue.clock.head ≤ k.queue.clock.tail.head := hsteady 0
  cases c with
  | readPacket bytes =>
      have hqueue' : (k.call (.readPacket bytes)).queue.packetQueue = (release, contents) ::
          (rest ++ [((k.queue.clock.head + k.queue.delayMs) % 2 ^ 64, bytes)]) := by
        change k.queue.packetQueue ++ _ = _
        rw [hqueue]
        rfl
      exact ⟨release, contents, _, hqueue', hdue.trans hnext⟩
  | writePackets => exact absurd rfl hc
  | waitTime =>
      refine ⟨release, contents, rest, (waitTime_packetQueue _).trans hqueue, ?_⟩
      change release ≤ k.queue.waitTime.2.clock.head
      rw [waitTime_cons hqueue]
      exact hdue.trans hnext

/-- What the loop of `write_packets` writes is what was at the front of the queue. -/
theorem writeLoop_writes_first (q : DelayQueue) (packets : List (ℕ × Bytes)) (clock : Stream' ℕ) :
    (q.writeLoop packets clock).written.map Prod.snd <+: packets.map Prod.snd := by
  induction packets generalizing clock with
  | nil => exact List.prefix_rfl
  | cons p rest ih =>
      rw [writeLoop]
      dsimp only
      split_ifs
      · exact List.cons_prefix_cons.2 ⟨rfl, ih clock.tail⟩
      · exact List.nil_prefix

/-- A packet is never further from its release than the delay. -/
theorem Delays.release_le (h : Delays d k) {release : ℕ} {contents : Bytes}
    (hp : (release, contents) ∈ k.queue.packetQueue) : release ≤ k.queue.clock.head + d := by
  obtain ⟨waiting, ⟨sent, hread, -⟩, hqueue⟩ := h.splits
  rw [hqueue] at hp
  obtain ⟨r, hr, heq⟩ := List.mem_map.1 hp
  cases heq
  refine Nat.add_le_add_right (h.read_le r ?_) d
  rw [hread]
  exact List.mem_append_right _ hr

/-- Every packet is due in less than 2^32 from now. -/
theorem Delays.release_lt (h : Delays d k) (hd : d < 2 ^ 32) {p : ℕ × Bytes}
    (hp : p ∈ k.queue.packetQueue) : p.1 < k.queue.clock.head + 2 ^ 32 := by
  have hle : p.1 ≤ k.queue.clock.head + d := h.release_le hp
  omega

/-- The packets written and those in the queue are the packets read. -/
theorem Delays.order (h : Delays d k) :
    k.written.map Prod.snd ++ k.queue.packetQueue.map Prod.snd = k.read.map Prod.snd := by
  obtain ⟨waiting, ⟨sent, hread, hwritten⟩, hqueue⟩ := h.splits
  have hsent : k.written.map Prod.snd = sent.map Prod.snd := by
    refine List.forall₂_eq_eq_eq ▸ List.forall₂_map_left_iff.2 (List.forall₂_map_right_iff.2 ?_)
    exact hwritten.imp fun _ _ h => h.1
  rw [hsent, hqueue, hread, List.map_append, List.map_map]
  rfl

/-- A ferry can rely on a delay queue, if the delay is less than 2^32 milliseconds. -/
def laws (d : ℕ) (hd : d < 2 ^ 32) : ferryQueue.Laws where
  inv := Delays d
  read k := k.read.map Prod.snd
  written k := k.written.map Prod.snd
  held k := k.queue.packetQueue.map Prod.snd
  pending := Due
  drained _ := True
  lossless := True
  order hk := ⟨hk.order ▸ List.Sublist.refl _, fun _ => hk.order⟩
  readPacket {a contents k k'} hk h := by
    cases h
    refine ⟨hk.call _, ?_, rfl, fun hdue => hdue.call hk.steady (by rintro ⟨⟩)⟩
    exact List.map_append
  writePackets {k} hk := by
    refine ⟨hk.call .writePackets, rfl, List.map_append, (writeLoop_writes_first _ _ _).sublist,
      fun hdue => ?_⟩
    obtain ⟨release, contents, rest, hqueue, hdue⟩ := hdue
    change (k.queue.writeLoop k.queue.packetQueue k.queue.clock).written.map Prod.snd ≠ []
    rw [hqueue, writeLoop]
    dsimp only
    rw [if_pos hdue]
    exact List.cons_ne_nil _ _
  waitTime {a n k k'} hk h := by
    cases h
    exact ⟨hk.call _, rfl, rfl⟩
  pendingOutput {k} hk := by
    refine ⟨hk.call .waitTime, rfl, rfl, fun h => ?_, fun hdue => hdue.call hk.steady (by rintro ⟨⟩)⟩
    exact due_of_waitTime hk.steady (of_decide_eq_true h) fun _ hp => hk.release_lt hd hp
  drained_of_not_pending _ _ := trivial
  drained_writePackets _ _ := trivial
  drained_readPacket _ h _ := by cases h

/-- **The ferry of a delay queue.**  While the clock does not go back, the packets that the ferry
has written are the first ones that it has read, unchanged, each written at a reading that is not
before its arrival plus the delay; the others wait in the queue.  Failing system calls apart, a
further round goes on, exits with status 0 (for a signal, an error or a hang-up) or throws: a write
only for an empty packet, the poller only once 2^32 packets have been read.

The delay is below 2^32: a longer one is cut to 32 bits where the wait is computed, and the poller may
then find nothing to write. -/
theorem delay_ferry {clock : Stream' ℕ} (hd : d < 2 ^ 32)
    (hclock : ∀ n, clock.get n ≤ clock.get (n + 1)) (hrange : ∀ n, clock.get n + d < 2 ^ 64)
    {events : List (Unit × Option (Ferry.Handler → Report (Ferry.Input Unit)))}
    {x : State Ferry.Handler (Ferry DelayLink)}
    (hrun : Run (Ferry.Continues ferryQueue)
      (Poller.start { queue := { queue := { delayMs := d, clock := clock } } }) events x) :
    (x.shared.read = x.shared.queue.read.map Prod.snd ∧
      x.shared.written = x.shared.queue.written.map Prod.snd ∧
      ∃ waiting, x.shared.queue.Splits d waiting) ∧
    ∀ report, (∃ e, Ferry.round ferryQueue () report x = .error e ∧ Ferry.Throws e) ∨
      ∃ r x', Ferry.round ferryQueue () report x = .ok (r, x') ∧
        ∀ exitStatus, r = .Exit exitStatus → exitStatus = 0 := by
  have hstart : Delays d { queue := { delayMs := d, clock := clock } } :=
    ⟨rfl, ⟨[], ⟨[], rfl, .nil⟩, rfl⟩, .nil, fun _ h => absurd h List.not_mem_nil, hclock, hrange⟩
  have hx := Ferry.holds_of_run (L := laws d hd) hstart rfl rfl hrun
  refine ⟨⟨hx.inv.read, hx.inv.written, hx.inv.inv.splits⟩, fun report => ?_⟩
  rcases Ferry.round_spec hx () report with h | ⟨r, x', hr, -, hexit⟩
  · exact Or.inl h
  refine Or.inr ⟨r, x', hr, fun exitStatus h => ?_⟩
  rcases hexit exitStatus h with hzero | ⟨-, n, queue, -, hfinished⟩
  · exact hzero
  · cases hfinished

/-- Two packets arrive at 0 and 1, and are delayed by 2: in a round at 2, one is written. -/
theorem delay_ferry_two :
    ∃ events x, Run (Ferry.Continues ferryQueue)
        (Poller.start { queue := { queue := { delayMs := 2, clock := fun n => min (n / 3) 2 } } }) events x ∧
      x.shared.written = [[7]] ∧ x.shared.read = [[7], [8]] ∧
      ∃ waiting, x.shared.queue.Splits 2 waiting := by
  have hrun : Run (Ferry.Continues ferryQueue)
      (Poller.start { queue := { queue := { delayMs := 2, clock := fun n => min (n / 3) 2 } } })
      [((), some fun
          | .readTun => { revents := { ready := true }, input := { reading := (), packet := some [7] } }
          | _ => { revents := {}, input := { reading := () } }),
        ((), some fun
          | .readTun => { revents := { ready := true }, input := { reading := (), packet := some [8] } }
          | _ => { revents := {}, input := { reading := () } }),
        ((), none),
        ((), some fun
          | .writeSibling => { revents := { ready := true }, input := { reading := () } }
          | _ => { revents := {}, input := { reading := () } })] _ :=
    .cons ⟨.Success, rfl, by rintro _ ⟨⟩⟩ (.cons ⟨.Success, rfl, by rintro _ ⟨⟩⟩
      (.cons ⟨.Timeout, rfl, by rintro _ ⟨⟩⟩ (.cons ⟨.Success, rfl, by rintro _ ⟨⟩⟩ (.nil _))))
  refine ⟨_, _, hrun, rfl, rfl, (delay_ferry (by decide) (fun n => ?_) (fun n => ?_) hrun).1.2.2⟩
  · change min (n / 3) 2 ≤ min ((n + 1) / 3) 2
    omega
  · change min (n / 3) 2 + 2 < 2 ^ 64
    omega

end DelayLink

end V2Proxy
