/-
# The count of `CODELPacketQueue`

`control_law` divides by the square root of `count_`, and a call that starts dropping
subtracts `lastcount_` from it.  Neither goes wrong as long as `count_` does not wrap around:
it counts no more than the packets that have been dropped (`Counts`), so it takes `2 ^ 32`
drops.  `drops` counts them along a run, and `Counts` is kept in the middle of a call
(`Recorded.Counting`), where the drops of the call itself count too.

A call may drop many packets, so it is not enough that there were fewer than `2 ^ 32 - 1`
drops before it: after `2 ^ 32 - 2` calls that drop one packet each, a call that drops two
passes zero to `control_law` (`count_wraps`).
-/

import V2Proxy.Packet.CODELCalls
import V2Proxy.Packet.QueueLimits

namespace V2Proxy

open Foundations

namespace CODELPacketQueue

variable {q q' : CODELPacketQueue} {p : QueuedPacket} {okToDrop : Bool} {now : ℕ}

/-- **What `dodequeue` does not change:** the packets and `first_above_time_` apart, all. -/
theorem dodequeue_changes (h : q.dodequeue now = .ok (p, okToDrop, q')) :
    ∃ base firstAboveTime, q' =
      { q with toDroppingPacketQueue := base, firstAboveTime := firstAboveTime } := by
  obtain ⟨⟨p', base⟩, hbase, h⟩ := bind_eq_ok.1 h
  dsimp only at h
  by_cases hempty : base.internalQueue = []
  · rw [if_pos hempty] at h
    cases h
    exact ⟨base, 0, rfl⟩
  · rw [if_neg hempty] at h
    obtain ⟨above, -, h⟩ := bind_eq_ok.1 h
    split_ifs at h <;> cases h <;> exact ⟨base, _, rfl⟩

/-- The counts do not exceed the drops, until `2 ^ 32` packets have been dropped. -/
def Counts (drops : ℕ) (q : CODELPacketQueue) : Prop :=
  drops < 2 ^ 32 → q.lastcount ≤ q.count ∧ q.count.toNat ≤ drops

end CODELPacketQueue

namespace Recorded

variable {law : CODELPacketQueue → ℕ → UInt32 → ℕ} {s s' : Recorded} {r : Taken} {drops now : ℕ}

/-- The packets dropped so far, when `drops` were dropped before the call: all that were
taken but the one that is delivered. -/
def dropped (drops : ℕ) (s : Recorded) : ℕ := drops + (s.taken.length - 1)

/-- In the middle of a call: the counts do not exceed the drops, and no `control_law` was
called with zero before `2 ^ 32` packets had been dropped. -/
structure Counting (drops : ℕ) (s : Recorded) : Prop where
  taken : s.taken ≠ []
  counts : s.queue.Counts (s.dropped drops)
  laws : ∀ c ∈ s.laws, drops + (c.1 - 1) < 2 ^ 32 → 1 ≤ c.2

/-- Taking a packet changes no count, and does not read the clock. -/
theorem dodequeue_counts (h : s.dodequeue now = .ok (r, s')) :
    s'.queue.count = s.queue.count ∧ s'.queue.lastcount = s.queue.lastcount ∧
      s'.queue.clock = s.queue.clock := by
  obtain ⟨_, _, hq⟩ := CODELPacketQueue.dodequeue_changes (dodequeue_eq_ok h).1
  rw [hq]
  exact ⟨rfl, rfl, rfl⟩

/-- A further packet is dropped. -/
theorem dropped_succ (hne : s.taken ≠ []) (h : s.dodequeue now = .ok (r, s')) :
    s'.dropped drops = s.dropped drops + 1 := by
  have hpos := List.length_pos_iff.2 hne
  rw [dropped, dropped, (dodequeue_eq_ok h).2.2.1, List.length_append, List.length_singleton]
  omega

/-- Counting one more, below 2^32. -/
theorem toNat_succ {c : UInt32} {n : ℕ} (hle : c.toNat ≤ n) (hlt : n + 1 < 2 ^ 32) :
    (c + 1).toNat = c.toNat + 1 := by
  rw [UInt32.toNat_add]
  exact Nat.mod_eq_of_lt (by rw [UInt32.toNat_one]; omega)

/-- **A round of the loop counts the packet that it drops.** -/
theorem Counting.dropStep (h : Counting drops s) (hnext : dropStep law now s = .ok (.inl s')) :
    Counting drops s' := by
  obtain ⟨-, r, s₁, hs₁, rfl⟩ := dropStep_next hnext
  obtain ⟨hcount, hlastcount, -⟩ := dodequeue_counts hs₁
  obtain ⟨-, -, htaken, hlaws⟩ := dodequeue_eq_ok hs₁
  have hdropped : s₁.dropped drops = s.dropped drops + 1 := dropped_succ h.taken hs₁
  have hsucc : s₁.dropped drops < 2 ^ 32 → s.queue.lastcount.toNat ≤ s.queue.count.toNat ∧
      s.queue.count.toNat ≤ s.dropped drops ∧
      (s₁.queue.count + 1).toNat = s.queue.count.toNat + 1 := by
    intro hlt
    obtain ⟨hle, hcounts⟩ := h.counts (by omega)
    refine ⟨UInt32.le_iff_toNat_le.1 hle, hcounts, ?_⟩
    rw [hcount]
    exact toNat_succ hcounts (by omega)
  have hcounts : ∀ q : CODELPacketQueue, q.count = s₁.queue.count + 1 →
      q.lastcount = s₁.queue.lastcount → q.Counts (s₁.dropped drops) := by
    intro q hq hq' hlt
    obtain ⟨hle, hcounts, hsucc⟩ := hsucc hlt
    rw [UInt32.le_iff_toNat_le, hq, hq', hlastcount, hsucc]
    omega
  have hne : s₁.taken ≠ [] := by
    rw [htaken]
    exact List.append_ne_nil_of_right_ne_nil _ (List.cons_ne_nil _ _)
  unfold countDrop
  dsimp only
  split_ifs
  · refine ⟨hne, hcounts _ rfl rfl, fun c hc hlt => ?_⟩
    rcases List.mem_append.1 hc with hc | hc
    · exact h.laws c (hlaws ▸ hc) hlt
    · rw [List.mem_singleton.1 hc] at hlt ⊢
      obtain ⟨-, -, hsucc⟩ := hsucc hlt
      rw [UInt32.le_iff_toNat_le, UInt32.toNat_one]
      change 1 ≤ (s₁.queue.count + 1).toNat
      omega
  · exact ⟨hne, hcounts _ rfl rfl, fun c hc => h.laws c (hlaws ▸ hc)⟩

/-- The loop counts what it drops. -/
theorem Counting.run_dropLoop (h : Counting drops s) (hrun : (dropLoop law now).run s = .ok s') :
    Counting drops s' := by
  refine Loop.run_post (L := dropLoop law now) (I := Counting drops) (Q := Counting drops)
    (fun _ _ hs hnext => hs.dropStep hnext) (fun _ _ hs hleave => ?_) h hrun
  rwa [(dropStep_leave hleave).1]

/-- **The call that starts dropping:** the difference of the counts does not wrap. -/
theorem Counting.startDropping (h : Counting drops s) (hrun : s.startDropping law now = .ok s') :
    Counting drops s' := by
  obtain ⟨⟨r, s₁⟩, hs₁, hrun⟩ := bind_eq_ok.1 hrun
  cases hrun
  obtain ⟨hcount, hlastcount, -⟩ := dodequeue_counts hs₁
  obtain ⟨-, -, htaken, hlaws⟩ := dodequeue_eq_ok hs₁
  have hdropped : s₁.dropped drops = s.dropped drops + 1 := dropped_succ h.taken hs₁
  have hne : s₁.taken ≠ [] := by
    rw [htaken]
    exact List.append_ne_nil_of_right_ne_nil _ (List.cons_ne_nil _ _)
  set delta := s₁.queue.count - s₁.queue.lastcount with hdelta
  have hle : s₁.dropped drops < 2 ^ 32 → delta.toNat ≤ s.dropped drops := by
    intro hlt
    obtain ⟨hle, hcounts⟩ := h.counts (by omega)
    rw [hdelta, hcount, hlastcount, UInt32.toNat_sub_of_le _ _ hle]
    omega
  set count : UInt32 := if 1 < delta ∧ sizeSub now s₁.queue.dropNext <
    (16 * s₁.queue.interval).toNat then delta else 1 with hcountEq
  have hpos : 1 ≤ count := by
    rw [hcountEq]
    split_ifs with hstart
    · exact UInt32.le_of_lt hstart.1
    · exact UInt32.le_refl 1
  have hcounts : s₁.dropped drops < 2 ^ 32 → count.toNat ≤ s₁.dropped drops := by
    intro hlt
    have := hle hlt
    rw [hcountEq]
    split_ifs
    · omega
    · rw [UInt32.toNat_one]
      omega
  refine ⟨hne, fun hlt => ⟨UInt32.le_refl count, hcounts hlt⟩, fun c hc => ?_⟩
  rcases List.mem_append.1 hc with hc | hc
  · exact h.laws c (hlaws ▸ hc)
  · rw [List.mem_singleton.1 hc]
    exact fun _ => hpos

end Recorded

namespace CODELPacketQueue

variable {law : CODELPacketQueue → ℕ → UInt32 → ℕ} {q q' q₀ : CODELPacketQueue} {r : Taken}
  {s : Recorded} {drops : ℕ}

/-- **The counts at the end of a call.** -/
theorem Counts.dequeueRecorded (h : q.Counts drops) (hs : q.dequeueRecorded law = .ok (r, s)) :
    s.Counting drops := by
  obtain ⟨⟨r₁, s₁⟩, hs₁, hs⟩ := bind_eq_ok.1 hs
  obtain ⟨hcount, hlastcount, -⟩ := Recorded.dodequeue_counts hs₁
  obtain ⟨-, -, htaken, hlaws⟩ := Recorded.dodequeue_eq_ok hs₁
  have hcounting : ∀ q : CODELPacketQueue, q.count = s₁.queue.count →
      q.lastcount = s₁.queue.lastcount → Recorded.Counting drops { s₁ with queue := q } := by
    intro q₁ hq₁ hq₁'
    have hdropped : Recorded.dropped drops { s₁ with queue := q₁ } = drops := by
      rw [Recorded.dropped, htaken]
      rfl
    refine ⟨?_, fun hlt => ?_, fun c hc => ?_⟩
    · rw [htaken]
      exact List.cons_ne_nil _ _
    · rw [hdropped] at hlt ⊢
      rw [hq₁, hq₁', hcount, hlastcount]
      exact h hlt
    · rw [hlaws] at hc
      cases hc
  dsimp only at hs
  split_ifs at hs
  · obtain ⟨s₂, hs₂, hs⟩ := bind_eq_ok.1 hs
    cases hs
    refine Recorded.Counting.run_dropLoop ?_ hs₂
    split_ifs <;> exact hcounting _ rfl rfl
  · obtain ⟨s₂, hs₂, hs⟩ := bind_eq_ok.1 hs
    cases hs
    exact Recorded.Counting.startDropping (hcounting s₁.queue rfl rfl) hs₂
  · cases hs
    exact hcounting s.queue rfl rfl

/-! ### Runs -/

/-- A call, with the number of packets that `dequeue` has dropped. -/
inductive CountedStep :
    CODELPacketQueue × ℕ → DropHeadPacketQueue.Call → CODELPacketQueue × ℕ → Prop
  | enqueue {q q' : CODELPacketQueue} {p : QueuedPacket} {drops : ℕ} :
      p.contents.length < 2 ^ 31 → q.enqueue p = .ok q' →
      CountedStep (q, drops) (.enqueue p) (q', drops)
  | dequeue {q : CODELPacketQueue} {r : Taken} {s : Recorded} {drops : ℕ}
      {law : CODELPacketQueue → ℕ → UInt32 → ℕ} :
      q.internalQueue ≠ [] → q.dequeueRecorded law = .ok (r, s) →
      CountedStep (q, drops) .dequeue (s.queue, s.dropped drops)

/-- The runs are those of `CallStep`. -/
theorem run_of_counted {k k' : CODELPacketQueue × ℕ} {calls : List DropHeadPacketQueue.Call}
    (hrun : Run CountedStep k calls k') : Run CallStep k.1 calls k'.1 := by
  induction hrun with
  | nil k => exact .nil _
  | cons hstep _ ih =>
      cases hstep with
      | enqueue hp hq => exact .cons (.enqueue hp hq) ih
      | dequeue hne hs => exact .cons (.dequeue hne hs) ih

/-- **Every run counts.** -/
theorem counts_run {args : Bytes} {clock : Stream' ℕ} {calls : List DropHeadPacketQueue.Call}
    (hnew : new args clock = .ok q₀) (hrun : Run CountedStep (q₀, 0) calls (q, drops)) :
    q.Counts drops := by
  refine hrun.invariant (I := fun k => k.1.Counts k.2) (fun k c k' hk hstep => ?_) ?_
  · cases hstep with
    | enqueue hp hq =>
        obtain ⟨base, hbase, hq⟩ := bind_eq_ok.1 hq
        cases hq
        exact hk
    | dequeue hne hs => exact (hk.dequeueRecorded hs).counts
  · obtain ⟨base, target, interval, -, rfl⟩ := new_eq_ok hnew
    exact fun _ => ⟨UInt32.le_refl 0, Nat.le_refl 0⟩

/-! ### A run of `2 ^ 32 - 2` drops -/

open DroppingPacketQueue

/-- A limit of ten packets. -/
def tenPackets : DroppingPacketQueue := { packetLimit := 10, byteLimit := 0 }

/-- A packet of 800 bytes. -/
def packetAt (arrivalTime : ℕ) : QueuedPacket :=
  { arrivalTime := arrivalTime, contents := List.replicate 800 0 }

/-- The queue with other packets. -/
def withBase (q : CODELPacketQueue) (base : DroppingPacketQueue) : CODELPacketQueue :=
  { q with toDroppingPacketQueue := base }

/-- At `now` the packet in front may be dropped, if two are left behind it. -/
structure Busy (now : ℕ) (q : CODELPacketQueue) : Prop where
  keeps : Keeps tenPackets q.toDroppingPacketQueue
  packets : ∀ p ∈ q.internalQueue, p.contents.length = 800 ∧ p.arrivalTime < now
  target : q.target = 1
  above : q.firstAboveTime ≠ 0 ∧ q.firstAboveTime ≤ now

variable {now n : ℕ} {p : QueuedPacket}

/-- Packets of the same size. -/
theorem totalBytes_eq {packets : List QueuedPacket} {size : ℕ}
    (h : ∀ p ∈ packets, p.contents.length = size) : totalBytes packets = packets.length * size := by
  induction packets with
  | nil => exact (Nat.zero_mul size).symm
  | cons p rest ih =>
      obtain ⟨hp, hrest⟩ := List.forall_mem_cons.1 h
      rw [totalBytes_cons, hp, ih hrest, List.length_cons, Nat.add_one_mul, Nat.add_comm]

/-- The packet in front is taken, and may be dropped. -/
theorem Busy.dodequeue (h : Busy now q) (hnow : now < 2 ^ 64)
    (hlength : 3 ≤ q.internalQueue.length) : ∃ p base,
      q.dodequeue now = .ok (p, true, q.withBase base) ∧
      Busy now (q.withBase base) ∧
      base.internalQueue.length + 1 = q.internalQueue.length := by
  obtain ⟨p, rest, hq⟩ := List.exists_cons_of_ne_nil (l := q.internalQueue) (List.ne_nil_of_length_pos (by omega))
  have hlength' : q.internalQueue.length = rest.length + 1 := by rw [hq, List.length_cons]
  have hpackets := h.packets
  rw [hq] at hpackets
  obtain ⟨hp, hrest⟩ := List.forall_mem_cons.1 hpackets
  have hmay : q.MayDrop now p rest := by
    refine ⟨?_, ?_, h.above⟩
    · rw [h.target, UInt32.toNat_one, sizeSub_of_le hp.2.le hnow]
      omega
    · rw [totalBytes_eq fun p hp => (hrest p hp).1, PACKET_SIZE]
      omega
  obtain ⟨base, firstAboveTime, hdodequeue, -, hbase, hfirst⟩ := dodequeue_eq h.keeps.sound hq now
  rw [decide_eq_true hmay, hfirst hmay] at hdodequeue
  refine ⟨p, base, hdodequeue, ⟨h.keeps.dequeue (dodequeue_base hdodequeue), ?_, h.target, h.above⟩, ?_⟩
  · change ∀ p ∈ base.internalQueue, _
    rw [hbase]
    exact hrest
  · rw [hbase, hlength']

/-- A further packet arrives. -/
theorem Busy.enqueue (h : Busy now q) (hlength : q.internalQueue.length < 10) {t : ℕ}
    (harrival : t < now) : ∃ base,
      q.enqueue (packetAt t) = .ok (q.withBase base) ∧
      Busy now (q.withBase base) ∧
      base.internalQueue.length = q.internalQueue.length + 1 := by
  have hsize : (packetAt t).contents.length = 800 := List.length_replicate
  have hfits : tenPackets.Fits (q.internalQueue ++ [packetAt t]) := by
    refine ⟨Or.inl rfl, Or.inr ?_⟩
    rw [List.length_append, List.length_singleton]
    exact hlength
  obtain ⟨base, hbase, hkeeps, hqueue⟩ :=
    h.keeps.acceptWithin (p := packetAt t) (Or.inr (by decide)) (by omega)
  rw [if_pos hfits] at hqueue
  refine ⟨base, ?_, ⟨hkeeps, fun p hp => ?_, h.target, h.above⟩, ?_⟩
  · rw [CODELPacketQueue.enqueue, hbase]
    rfl
  · change p ∈ base.internalQueue at hp
    rw [hqueue] at hp
    rcases List.mem_append.1 hp with hp | hp
    · exact h.packets p hp
    · rw [List.mem_singleton.1 hp]
      exact ⟨hsize, harrival⟩
  · rw [hqueue, List.length_append, List.length_singleton]

/-- The packet is short. -/
theorem length_packetAt (t : ℕ) : (packetAt t).contents.length < 2 ^ 31 := by
  rw [packetAt, List.length_replicate]
  decide

/-- Further packets arrive, one after another. -/
theorem Busy.fill (h : Busy now q) {m t : ℕ} (hroom : q.internalQueue.length + m ≤ 10)
    (harrival : t < now) (drops : ℕ) : ∃ base,
      Run CountedStep (q, drops) (List.replicate m (.enqueue (packetAt t)))
        (q.withBase base, drops) ∧
      Busy now (q.withBase base) ∧
      base.internalQueue.length = q.internalQueue.length + m := by
  induction m generalizing q with
  | zero => exact ⟨q.toDroppingPacketQueue, .nil _, h, rfl⟩
  | succ m ih =>
      obtain ⟨base₁, hq₁, hbusy₁, hlength₁⟩ := h.enqueue (by omega) harrival
      have hroom₁ : (q.withBase base₁).internalQueue.length + m ≤ 10 := by
        change base₁.internalQueue.length + m ≤ 10
        omega
      obtain ⟨base, hrun, hbusy, hlength⟩ := ih hbusy₁ hroom₁
      change base.internalQueue.length = base₁.internalQueue.length + m at hlength
      exact ⟨base, .cons (.enqueue (length_packetAt t) hq₁) hrun, hbusy, by omega⟩

/-- The first packet of a call is taken. -/
theorem Busy.take {s : Recorded} (h : Busy now s.queue) (hnow : now < 2 ^ 64)
    (hlength : 3 ≤ s.queue.internalQueue.length) : ∃ p base,
      s.dodequeue now = .ok ({ number := s.taken.length, packet := p, okToDrop := true },
        { s with
          queue := s.queue.withBase base
          taken := s.taken ++ [{ number := s.taken.length, packet := p, okToDrop := true }] }) ∧
      Busy now (s.queue.withBase base) ∧
      base.internalQueue.length + 1 = s.queue.internalQueue.length := by
  obtain ⟨p, base, hq, hbusy, hlength'⟩ := h.dodequeue hnow hlength
  refine ⟨p, base, ?_, hbusy, hlength'⟩
  rw [Recorded.dodequeue, hq]
  rfl

/-- **A round of the loop drops a packet.** -/
theorem Busy.dropStep {s : Recorded} (h : Busy now s.queue) (hnow : now < 2 ^ 64)
    (hlength : 3 ≤ s.queue.internalQueue.length)
    (hdrop : s.queue.dropNext ≤ now ∧ s.queue.dropping = true)
    (law : CODELPacketQueue → ℕ → UInt32 → ℕ) : ∃ p base,
      Recorded.dropStep law now s = .ok (.inl (Recorded.countDrop law
        { s with
          queue := s.queue.withBase base
          taken := s.taken ++ [{ number := s.taken.length, packet := p, okToDrop := true }] }
        { number := s.taken.length, packet := p, okToDrop := true })) ∧
      Busy now (s.queue.withBase base) ∧
      base.internalQueue.length + 1 = s.queue.internalQueue.length := by
  obtain ⟨p, base, hs, hbusy, hlength'⟩ := h.take hnow hlength
  refine ⟨p, base, ?_, hbusy, hlength'⟩
  rw [Recorded.dropStep, if_pos hdrop, hs]
  rfl

/-- **A call reads the clock once.** -/
theorem dequeueRecorded_clock (h : q.dequeueRecorded law = .ok (r, s)) :
    s.queue.clock = q.clock.tail ∧ q.internalQueue ≠ [] := by
  obtain ⟨⟨r₁, s₁⟩, hs₁, h⟩ := bind_eq_ok.1 h
  have hclock : s₁.queue.clock = q.clock.tail := (Recorded.dodequeue_counts hs₁).2.2
  have hne : q.internalQueue ≠ [] := by
    have hcons : q.internalQueue = _ := (dodequeue_eq_ok (Recorded.dodequeue_eq_ok hs₁).1).1
    rw [hcons]
    exact List.cons_ne_nil _ _
  refine ⟨?_, hne⟩
  dsimp only at h
  split_ifs at h
  · obtain ⟨s₂, hs₂, h⟩ := bind_eq_ok.1 h
    cases h
    refine Loop.run_post (L := Recorded.dropLoop law q.clock.head)
      (I := fun s => s.queue.clock = q.clock.tail) (Q := fun s => s.queue.clock = q.clock.tail)
      (fun s₃ s₄ hs₃ hnext => ?_) (fun s₃ s₄ hs₃ hleave => ?_) ?_ hs₂
    · obtain ⟨-, r₅, s₅, hs₅, rfl⟩ := Recorded.dropStep_next hnext
      have hclock₅ := (Recorded.dodequeue_counts hs₅).2.2.trans hs₃
      unfold Recorded.countDrop
      dsimp only
      split_ifs <;> exact hclock₅
    · rwa [(Recorded.dropStep_leave hleave).1]
    · split_ifs <;> exact hclock
  · obtain ⟨s₂, hs₂, h⟩ := bind_eq_ok.1 h
    cases h
    obtain ⟨⟨r₃, s₃⟩, hs₃, hs₂⟩ := bind_eq_ok.1 hs₂
    cases hs₂
    exact (Recorded.dodequeue_counts hs₃).2.2.trans hclock
  · cases h
    exact hclock

/-- An arrival takes no reading. -/
theorem clock_enqueue (h : q.enqueue p = .ok q') : q'.clock = q.clock := by
  obtain ⟨base, -, h⟩ := bind_eq_ok.1 h
  cases h
  rfl

/-- Nor does the constructor. -/
theorem clock_new {args : Bytes} {clock : Stream' ℕ} (h : new args clock = .ok q) :
    q.clock = clock := by
  obtain ⟨base, target, interval, -, rfl⟩ := new_eq_ok h
  rfl

/-- A call on a dropping queue whose first packet may be dropped. -/
theorem dequeueRecorded_of_dropping {s' : Recorded}
    (hfirst : Recorded.dodequeue { queue := { q with clock := q.clock.tail } } q.clock.head =
      .ok (r, s)) (hok : r.okToDrop = true) (hdropping : s.queue.dropping = true)
    (hrun : (Recorded.dropLoop law q.clock.head).run s = .ok s') :
    q.dequeueRecorded law = .ok (r, s') := by
  rw [CODELPacketQueue.dequeueRecorded]
  dsimp only
  rw [hfirst, ok_bind]
  dsimp only
  rw [if_pos hdropping, Recorded.dequeueDropping, if_pos hok, hrun]
  rfl

/-- `n` packets have been dropped, and the count is `n`: the queue is dropping, two packets
are left, and the clock reads `n + 2` next. -/
structure Stage (n : ℕ) (q : CODELPacketQueue) : Prop where
  busy : Busy (n + 2) q
  length : q.internalQueue.length = 2
  dropping : q.dropping = true
  dropNext : q.dropNext ≤ n + 2
  count : q.count = UInt32.ofNat n
  lastcount : q.lastcount = 1
  clock : q.clock = fun k => n + 2 + k

/-- A call has taken its first packet. -/
def begun (q : CODELPacketQueue) (base : DroppingPacketQueue) (p : QueuedPacket) : Recorded where
  queue := { q.withBase base with clock := q.clock.tail }
  taken := [{ number := 0, packet := p, okToDrop := true }]

/-- **A call takes its first packet and goes on to the loop.** -/
theorem Stage.begins (h : Stage n q) (hnow : n + 2 < 2 ^ 64) {base : DroppingPacketQueue}
    (hbusy : Busy (n + 2) (q.withBase base)) (hlength : 3 ≤ base.internalQueue.length) :
    ∃ p base', Busy (n + 2) (q.begun base' p).queue ∧
      base'.internalQueue.length + 1 = base.internalQueue.length ∧
      ∀ law s, (Recorded.dropLoop law (n + 2)).run (q.begun base' p) = .ok s →
        dequeueRecorded law (q.withBase base) =
          .ok ({ number := 0, packet := p, okToDrop := true }, s) := by
  have hhead : q.clock.head = n + 2 := by
    rw [h.clock]
    rfl
  let q₁ : CODELPacketQueue := { q.withBase base with clock := q.clock.tail }
  have hbusy₁ : Busy (n + 2) q₁ := ⟨hbusy.keeps, hbusy.packets, hbusy.target, hbusy.above⟩
  obtain ⟨p, base', hs, hbusy', hlength'⟩ := Busy.take (s := { queue := q₁ }) hbusy₁ hnow hlength
  refine ⟨p, base', hbusy', hlength', fun law s hrun => ?_⟩
  rw [← hhead] at hs hrun
  exact dequeueRecorded_of_dropping (s := q.begun base' p) hs rfl h.dropping hrun

/-- The next drop is due at the next reading of the clock. -/
def nextReading (q : CODELPacketQueue) (_ : ℕ) (_ : UInt32) : ℕ := q.clock.head

/-- **Two packets arrive, one is delivered, and one is dropped.** -/
theorem Stage.next (h : Stage n q) (hn : n < 2 ^ 32) :
    ∃ calls q', Run CountedStep (q, n) calls (q', n + 1) ∧ Stage (n + 1) q' := by
  have hnow : n + 2 < 2 ^ 64 := by omega
  have hlength := h.length
  have hnext : q.clock.tail.head = n + 3 := by
    rw [h.clock]
    exact Nat.add_right_comm n 2 1
  obtain ⟨base₁, hfill, hbusy₁, hlength₁⟩ := h.busy.fill (m := 2) (t := n + 1) (by omega) (by omega) n
  obtain ⟨p₁, base₂, hbusy₂, hlength₂, hcall⟩ := h.begins hnow hbusy₁ (by omega)
  obtain ⟨p₂, base₃, hs, hbusy₃, hlength₃⟩ := Busy.dropStep hbusy₂ hnow
    (by change 3 ≤ base₂.internalQueue.length; omega) ⟨h.dropNext, h.dropping⟩ nextReading
  change base₃.internalQueue.length + 1 = base₂.internalQueue.length at hlength₃
  set s := Recorded.countDrop nextReading _ _ with hsEq
  have hdropNext : s.queue.dropNext = n + 3 := hnext
  have hleave : Recorded.dropStep nextReading (n + 2) s = .ok (.inr s) := by
    rw [Recorded.dropStep, if_neg fun hdrop => by omega]
    rfl
  have hne : base₁.internalQueue ≠ [] := List.ne_nil_of_length_pos (by omega)
  have hdequeue := hcall nextReading s ((Loop.run_of_next hs).trans (Loop.run_of_leave hleave))
  refine ⟨_, s.queue, hfill.append (.cons (.dequeue hne hdequeue) (.nil _)),
    ⟨⟨hbusy₃.keeps, fun p hp => ?_, hbusy₃.target, ?_⟩, ?_, h.dropping, ?_, ?_, h.lastcount, ?_⟩⟩
  · obtain ⟨hp, harrival⟩ := hbusy₃.packets p hp
    exact ⟨hp, by omega⟩
  · obtain ⟨hpos, hle⟩ := hbusy₃.above
    exact ⟨hpos, by change q.firstAboveTime ≤ _; change q.firstAboveTime ≤ _ at hle; omega⟩
  · change base₃.internalQueue.length = 2
    omega
  · exact hdropNext.le
  · change q.count + 1 = _
    rw [h.count, UInt32.ofNat_add]
    rfl
  · change q.clock.tail = _
    rw [h.clock]
    funext k
    change n + 2 + (k + 1) = n + 1 + 2 + k
    omega

/-- **The first drop:** a run that ends with two packets and the count 1. -/
theorem stage_one : ∃ q₀ q calls,
    new (ascii "packets=10,target=1,interval=1") (fun k => k + 1) = .ok q₀ ∧
      Run CountedStep (q₀, 0) calls (q, 1) ∧ Stage 1 q := by
  have hrun : (do
      let q ← new (ascii "packets=10,target=1,interval=1") (fun k => k + 1)
      let q ← q.enqueue (packetAt 0)
      let q ← q.enqueue (packetAt 0)
      let q ← q.enqueue (packetAt 0)
      let q ← q.enqueue (packetAt 0)
      let called ← q.dequeueRecorded nextReading
      let q ← called.2.queue.enqueue (packetAt 1)
      let called' ← q.dequeueRecorded nextReading
      let q := called'.2.queue
      return decide (q.internalQueue = [packetAt 0, packetAt 1] ∧
        (q.packetLimit = 10 ∧ q.byteLimit = 0) ∧ (q.target = 1 ∧ q.firstAboveTime = 2 ∧
        q.dropNext = 3) ∧ (q.dropping = true ∧ q.count = 1 ∧ q.lastcount = 1) ∧
        called'.2.dropped (called.2.dropped 0) = 1) : Except Fault Bool) = .ok true := by
    decide +kernel
  obtain ⟨q₀, hnew, hrun⟩ := bind_eq_ok.1 hrun
  obtain ⟨q₁, hq₁, hrun⟩ := bind_eq_ok.1 hrun
  obtain ⟨q₂, hq₂, hrun⟩ := bind_eq_ok.1 hrun
  obtain ⟨q₃, hq₃, hrun⟩ := bind_eq_ok.1 hrun
  obtain ⟨q₄, hq₄, hrun⟩ := bind_eq_ok.1 hrun
  obtain ⟨⟨r₅, s₅⟩, hs₅, hrun⟩ := bind_eq_ok.1 hrun
  obtain ⟨q₆, hq₆, hrun⟩ := bind_eq_ok.1 hrun
  obtain ⟨⟨r₇, s₇⟩, hs₇, hrun⟩ := bind_eq_ok.1 hrun
  obtain ⟨hqueue, ⟨hpacketLimit, hbyteLimit⟩, ⟨htarget, habove, hnext⟩, ⟨hdropping, hcount, hlast⟩,
    hdropped⟩ := of_decide_eq_true (Except.ok.inj hrun)
  have hclock : s₇.queue.clock = fun k => 1 + 2 + k := by
    have hq₀ : q₀.clock = fun k => k + 1 := clock_new hnew
    rw [(dequeueRecorded_clock hs₇).1, clock_enqueue hq₆, (dequeueRecorded_clock hs₅).1,
      clock_enqueue hq₄, clock_enqueue hq₃, clock_enqueue hq₂, clock_enqueue hq₁, hq₀]
    funext k
    change k + 1 + 1 + 1 = 1 + 2 + k
    omega
  have hcalls : Run CountedStep (q₀, 0) _ (s₇.queue, s₇.dropped (s₅.dropped 0)) :=
    .cons (.enqueue (length_packetAt 0) hq₁) (.cons (.enqueue (length_packetAt 0) hq₂)
      (.cons (.enqueue (length_packetAt 0) hq₃) (.cons (.enqueue (length_packetAt 0) hq₄)
        (.cons (.dequeue (dequeueRecorded_clock hs₅).2 hs₅)
          (.cons (.enqueue (length_packetAt 1) hq₆)
            (.cons (.dequeue (dequeueRecorded_clock hs₇).2 hs₇) (.nil _)))))))
  rw [hdropped] at hcalls
  have hpackets : ∀ p ∈ s₇.queue.internalQueue, p.contents.length = 800 ∧ p.arrivalTime < 3 := by
    rw [hqueue]
    decide +kernel
  have hkeeps : Keeps tenPackets s₇.queue.toDroppingPacketQueue := by
    refine ⟨sound_run hnew (run_of_counted hcalls), hbyteLimit, hpacketLimit, fun p hp => ?_⟩
    have := (hpackets p hp).1
    omega
  refine ⟨q₀, s₇.queue, _, hnew, hcalls, ⟨hkeeps, hpackets, htarget, ?_⟩, ?_, hdropping, hnext.le,
    hcount, hlast, hclock⟩
  · rw [habove]
    decide
  · rw [hqueue]
    rfl

/-- **The count does not reach zero.**  In every run, whatever `control_law` returns: a call
of `dequeue` on a queue with a packet returns, so that no packet is taken from an empty
queue.  As long as fewer than `2 ^ 32` packets have been dropped, those of the call itself
included, `control_law` is called with a positive count, and `lastcount_` does not exceed
`count_`. -/
theorem count_positive {args : Bytes} {clock : Stream' ℕ} {calls : List DropHeadPacketQueue.Call}
    (hnew : new args clock = .ok q₀) (hrun : Run CountedStep (q₀, 0) calls (q, drops)) :
    (drops < 2 ^ 32 → q.lastcount ≤ q.count) ∧
    (q.internalQueue ≠ [] → ∀ law, ∃ r s, q.dequeueRecorded law = .ok (r, s) ∧
      (∀ c ∈ s.laws, drops + (c.1 - 1) < 2 ^ 32 → 1 ≤ c.2) ∧
      (s.dropped drops < 2 ^ 32 → s.queue.lastcount ≤ s.queue.count)) := by
  have hcounts := counts_run hnew hrun
  refine ⟨fun hlt => (hcounts hlt).1, fun hne law => ?_⟩
  obtain ⟨p, rest, hq⟩ := List.exists_cons_of_ne_nil hne
  obtain ⟨r, s, hs, -⟩ := dequeueRecorded_spec (sound_run hnew (run_of_counted hrun)) hq law
  have hcounting := hcounts.dequeueRecorded hs
  exact ⟨r, s, hs, hcounting.laws, fun hlt => (hcounting.counts hlt).1⟩

/-- The call after the first drop. -/
theorem count_positive_stageOne : ∃ q, Stage 1 q ∧ (1 < 2 ^ 32 → q.lastcount ≤ q.count) ∧
    (q.internalQueue ≠ [] → ∀ law, ∃ r s, q.dequeueRecorded law = .ok (r, s) ∧
      (∀ c ∈ s.laws, 1 + (c.1 - 1) < 2 ^ 32 → 1 ≤ c.2) ∧
      (s.dropped 1 < 2 ^ 32 → s.queue.lastcount ≤ s.queue.count)) := by
  obtain ⟨q₀, q, calls, hnew, hrun, hstage⟩ := stage_one
  exact ⟨q, hstage, count_positive hnew hrun⟩

/-- The queue after as many drops as the count can hold, less one. -/
theorem stage_run (n : ℕ) (hn : n < 2 ^ 32) : ∃ q₀ q calls,
    new (ascii "packets=10,target=1,interval=1") (fun k => k + 1) = .ok q₀ ∧
      Run CountedStep (q₀, 0) calls (q, n + 1) ∧ Stage (n + 1) q := by
  induction n with
  | zero => exact stage_one
  | succ n ih =>
      obtain ⟨q₀, q, calls, hnew, hrun, hstage⟩ := ih (by omega)
      obtain ⟨calls', q', hrun', hstage'⟩ := hstage.next hn
      exact ⟨q₀, q', _, hnew, hrun.append hrun', hstage'⟩

/-- The next drop is due at once, until the count is zero. -/
def untilZero (q : CODELPacketQueue) (t : ℕ) (count : UInt32) : ℕ :=
  if count = 0 then q.clock.head else t

/-- **A call that drops two packets wraps the count around.** -/
theorem Stage.wraps (h : Stage (2 ^ 32 - 2) q) :
    ∃ calls q', Run CountedStep (q, 2 ^ 32 - 2) calls (q', 2 ^ 32 - 2) ∧ q'.internalQueue ≠ [] ∧
      ∃ r s, q'.dequeueRecorded untilZero = .ok (r, s) ∧ (3, 0) ∈ s.laws ∧
        ¬ s.queue.lastcount ≤ s.queue.count := by
  have hlength := h.length
  have hnow : 2 ^ 32 - 2 + 2 < 2 ^ 64 := by decide
  have hnext : q.clock.tail.head = 2 ^ 32 - 2 + 2 + 1 := by
    rw [h.clock]
    rfl
  obtain ⟨base₁, hfill, hbusy₁, hlength₁⟩ :=
    h.busy.fill (m := 3) (t := 2 ^ 32 - 1) (by omega) (by decide) (2 ^ 32 - 2)
  obtain ⟨p₁, base₂, hbusy₂, hlength₂, hcall⟩ := h.begins hnow hbusy₁ (by omega)
  obtain ⟨p₂, base₃, hs₂, hbusy₃, hlength₃⟩ := Busy.dropStep hbusy₂ hnow
    (by change 3 ≤ base₂.internalQueue.length; omega) ⟨h.dropNext, h.dropping⟩ untilZero
  change base₃.internalQueue.length + 1 = base₂.internalQueue.length at hlength₃
  set s₂ := Recorded.countDrop untilZero _ _ with hs₂Eq
  have hcount₂ : s₂.queue.count = UInt32.ofNat (2 ^ 32 - 1) := by
    change q.count + 1 = _
    rw [h.count]
    decide
  have hdropNext₂ : s₂.queue.dropNext = q.dropNext := by
    change (if s₂.queue.count = 0 then _ else q.dropNext) = q.dropNext
    rw [hcount₂, if_neg (by decide)]
  obtain ⟨p₃, base₄, hs₃, -, -⟩ := Busy.dropStep (s := s₂)
    ⟨hbusy₃.keeps, hbusy₃.packets, hbusy₃.target, hbusy₃.above⟩ hnow
    (by change 3 ≤ base₃.internalQueue.length; omega) ⟨hdropNext₂.trans_le h.dropNext, h.dropping⟩
    untilZero
  set s₃ := Recorded.countDrop untilZero _ _ with hs₃Eq
  have hcount₃ : s₃.queue.count = 0 := by
    change s₂.queue.count + 1 = 0
    rw [hcount₂]
    decide
  have hdropNext₃ : s₃.queue.dropNext = 2 ^ 32 - 2 + 2 + 1 := by
    change (if s₃.queue.count = 0 then q.clock.tail.head else _) = _
    rw [hcount₃, if_pos rfl, hnext]
  have hleave : Recorded.dropStep untilZero (2 ^ 32 - 2 + 2) s₃ = .ok (.inr s₃) := by
    rw [Recorded.dropStep, if_neg fun hdrop => by omega]
    rfl
  have hdequeue := hcall untilZero s₃
    (((Loop.run_of_next hs₂).trans (Loop.run_of_next hs₃)).trans (Loop.run_of_leave hleave))
  have hlaws : s₃.laws = [(2, s₂.queue.count), (3, s₃.queue.count)] := rfl
  have hlast : s₃.queue.lastcount = 1 := h.lastcount
  refine ⟨_, q.withBase base₁, hfill, List.ne_nil_of_length_pos ?_, _, s₃, hdequeue, ?_, ?_⟩
  · change 0 < base₁.internalQueue.length
    omega
  · rw [hlaws, hcount₃]
    exact List.mem_cons_of_mem _ List.mem_cons_self
  · rw [hlast, hcount₃]
    decide

/-- **The count wraps around in a call.**  A run with fewer than `2 ^ 32 - 1` drops so far, and
a call that drops two packets: `control_law` is called with zero, and `lastcount_` exceeds
`count_`. -/
theorem count_wraps : ∃ q₀ q : CODELPacketQueue, ∃ calls, ∃ drops < 2 ^ 32 - 1,
    new (ascii "packets=10,target=1,interval=1") (fun k => k + 1) = .ok q₀ ∧
      Run CountedStep (q₀, 0) calls (q, drops) ∧ q.internalQueue ≠ [] ∧
      ∃ law r s, q.dequeueRecorded law = .ok (r, s) ∧ (∃ c ∈ s.laws, c.2 = 0) ∧
        ¬ s.queue.lastcount ≤ s.queue.count := by
  obtain ⟨q₀, q, calls, hnew, hrun, hstage⟩ := stage_run (2 ^ 32 - 3) (by decide)
  obtain ⟨calls', q', hrun', hne, r, s, hs, hlaws, hlast⟩ := Stage.wraps hstage
  exact ⟨q₀, q', _, 2 ^ 32 - 2, by decide, hnew, hrun.append hrun', hne, untilZero, r, s, hs,
    ⟨_, hlaws, rfl⟩, hlast⟩

end CODELPacketQueue

end V2Proxy
