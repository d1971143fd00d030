/-
# The limits of a packet queue

The counters of a `DroppingPacketQueue` are `int`s that are compared as `unsigned int`s.
Where the limits keep the queue below `2 ^ 31` bytes (`SmallLimits`) they count without
overflow, for packets of 1 to 1504 bytes: a byte limit bounds the packets too, because no
packet is empty, and a packet limit bounds the bytes.  `Keeps` is what every call keeps then.

Droptail and CoDel accept a packet exactly if it is within the limits; PIE may drop it as
well.  CoDel takes several packets off in one call, each by `DroppingPacketQueue::dequeue`
(`CODELPacketQueue.dequeue_invariant`).
-/

import V2Proxy.Foundations.Runs
import V2Proxy.Packet.AbstractPacketQueue
import V2Proxy.Packet.DropHeadLimits

namespace V2Proxy

open Foundations

namespace DroppingPacketQueue

/-- The limits keep a queue of packets of at most 1504 bytes below `2 ^ 31` bytes. -/
def SmallLimits (q : DroppingPacketQueue) : Prop :=
  (0 < q.byteLimit ∧ q.byteLimit < 2 ^ 31) ∨
    (0 < q.packetLimit ∧ q.packetLimit * 1504 < 2 ^ 31)

/-- What the calls keep of a queue with the limits of `base`. -/
structure Keeps (base q : DroppingPacketQueue) : Prop where
  sound : q.Sound
  byteLimit : q.byteLimit = base.byteLimit
  packetLimit : q.packetLimit = base.packetLimit
  packets : ∀ p ∈ q.internalQueue, 1 ≤ p.contents.length ∧ p.contents.length ≤ 1504

variable {base q q' : DroppingPacketQueue} {p : QueuedPacket} {packets : List QueuedPacket}

/-- The number of packets and their bytes bound each other. -/
theorem totalBytes_bounds
    (h : ∀ p ∈ packets, 1 ≤ p.contents.length ∧ p.contents.length ≤ 1504) :
    packets.length ≤ totalBytes packets ∧ totalBytes packets ≤ packets.length * 1504 := by
  induction packets with
  | nil => exact ⟨Nat.le_refl _, Nat.le_refl _⟩
  | cons p rest ih =>
      obtain ⟨hp, hrest⟩ := List.forall_mem_cons.1 h
      obtain ⟨hle, hge⟩ := ih hrest
      rw [totalBytes_cons, List.length_cons]
      omega

/-- **Packets within small limits do not overflow the counters.** -/
theorem SmallLimits.lt (h : base.SmallLimits) (hfits : base.Fits packets)
    (hpackets : ∀ p ∈ packets, 1 ≤ p.contents.length ∧ p.contents.length ≤ 1504) :
    totalBytes packets < 2 ^ 31 ∧ packets.length < 2 ^ 31 := by
  obtain ⟨hle, hge⟩ := totalBytes_bounds hpackets
  obtain ⟨hbytes, hlength⟩ := hfits
  rcases h with ⟨hpos, hsmall⟩ | ⟨hpos, hsmall⟩
  · have := hbytes.resolve_left (by omega)
    omega
  · have := hlength.resolve_left (by omega)
    have := Nat.mul_le_mul_right 1504 this
    omega

theorem Keeps.fits_iff (h : Keeps base q) : q.Fits packets ↔ base.Fits packets := by
  rw [Fits, Fits, h.byteLimit, h.packetLimit]

/-- **What `good_with` finds out about an arriving packet:** whether it is within the limits. -/
theorem Sound.goodWithPacket (h : q.Sound) (hp : p.contents.length ≤ 1504) :
    q.goodWithPacket p = .ok (decide (q.Fits (q.internalQueue ++ [p]))) := by
  have hbytes := h.bytes_lt
  have hpackets := h.packets_lt
  rw [DroppingPacketQueue.goodWithPacket, h.sizeBytes, ok_bind, h.sizePackets, ok_bind]
  change Except.ok (q.goodWith _ _) = _
  rw [goodWith, Nat.mod_eq_of_lt (by omega), Nat.mod_eq_of_lt (by omega)]
  congr 1
  rw [Bool.eq_iff_iff, decide_eq_true_iff, Fits, totalBytes_append_singleton, List.length_append,
    List.length_singleton]
  simp only [Bool.and_eq_true, Bool.or_eq_true, decide_eq_true_eq]

/-- A packet within the limits can be accepted. -/
theorem Keeps.accept (h : Keeps base q) (hsmall : base.SmallLimits)
    (hp : 1 ≤ p.contents.length ∧ p.contents.length ≤ 1504)
    (hfits : base.Fits (q.internalQueue ++ [p])) : Keeps base (q.accept p) := by
  have hpackets : ∀ p' ∈ q.internalQueue ++ [p],
      1 ≤ p'.contents.length ∧ p'.contents.length ≤ 1504 := by
    intro p' hp'
    rcases List.mem_append.1 hp' with hp' | hp'
    · exact h.packets p' hp'
    · rw [List.mem_singleton.1 hp']
      exact hp
  obtain ⟨hbytes, hlength⟩ := hsmall.lt hfits hpackets
  have hint : ∀ n : ℕ, n < 2 ^ 31 → toInt32 n = n := fun n hn =>
    Int.bmod_eq_of_le (by omega) (by omega)
  have hcounted := h.sound.accept (p := p) (by omega)
  refine ⟨⟨hcounted.bytes.trans (hint _ hbytes), hcounted.packets.trans (hint _ hlength), hbytes,
    hlength, ?_, ?_⟩, h.byteLimit, h.packetLimit, hpackets⟩
  · exact (h.fits_iff.2 hfits).1
  · exact (h.fits_iff.2 hfits).2

/-- **A packet that arrives is accepted exactly if it is within the limits.** -/
theorem Keeps.acceptWithin (h : Keeps base q) (hsmall : base.SmallLimits)
    (hp : 1 ≤ p.contents.length ∧ p.contents.length ≤ 1504) :
    ∃ q', q.acceptWithin p = .ok q' ∧ Keeps base q' ∧ q'.internalQueue =
      if base.Fits (q.internalQueue ++ [p]) then q.internalQueue ++ [p] else q.internalQueue := by
  rw [DroppingPacketQueue.acceptWithin, h.sound.goodWithPacket hp.2, ok_bind]
  by_cases hfits : base.Fits (q.internalQueue ++ [p])
  · have hq := h.accept hsmall hp hfits
    rw [decide_eq_true (h.fits_iff.2 hfits), if_pos hfits]
    dsimp only
    rw [if_pos rfl, hq.sound.assertGood]
    exact ⟨_, rfl, hq, rfl⟩
  · rw [decide_eq_false (h.fits_iff.not.2 hfits), if_neg hfits]
    dsimp only
    rw [if_neg (by decide), h.sound.assertGood]
    exact ⟨_, rfl, h, rfl⟩

theorem Keeps.dequeue (h : Keeps base q) (hq' : q.dequeue = .ok (p, q')) : Keeps base q' := by
  have hq := dequeue_eq_ok hq'
  obtain ⟨q₁, hq₁, hsound, -⟩ := h.sound.dequeue hq
  rw [hq'] at hq₁
  cases hq₁
  rw [dequeue_cons hq] at hq'
  obtain ⟨_, -, hq'⟩ := bind_eq_ok.1 hq'
  have hlimits : q'.byteLimit = q.byteLimit ∧ q'.packetLimit = q.packetLimit := by
    have hsame : q.dropFront p q'.internalQueue = q' := congrArg Prod.snd (Except.ok.inj hq')
    rw [← hsame]
    exact ⟨rfl, rfl⟩
  refine ⟨hsound, hlimits.1.trans h.byteLimit, hlimits.2.trans h.packetLimit, fun p' hp' => ?_⟩
  exact h.packets p' (hq ▸ List.mem_cons_of_mem p hp')

theorem keeps_new {args : Bytes} (h : new args = .ok base) : Keeps base base := by
  obtain ⟨hsound, hnil⟩ := sound_new h
  refine ⟨hsound, rfl, rfl, fun p hp => ?_⟩
  rw [hnil] at hp
  cases hp

end DroppingPacketQueue

namespace CODELPacketQueue

variable {q q' : CODELPacketQueue} {p : QueuedPacket} {now : ℕ}

theorem dodequeue_base {okToDrop : Bool} (h : q.dodequeue now = .ok (p, okToDrop, q')) :
    q.toDroppingPacketQueue.dequeue = .ok (p, q'.toDroppingPacketQueue) := by
  obtain ⟨⟨p', base⟩, hbase, h⟩ := bind_eq_ok.1 h
  dsimp only at h
  by_cases hempty : base.internalQueue = []
  · rw [if_pos hempty] at h
    cases h
    exact hbase
  · rw [if_neg hempty] at h
    obtain ⟨above, -, h⟩ := bind_eq_ok.1 h
    split_ifs at h <;> cases h <;> exact hbase

/-- **The invariant rule of `dequeue`:** it changes the queue by
`DroppingPacketQueue::dequeue` alone. -/
theorem dequeue_invariant {I : DroppingPacketQueue → Prop}
    (next : ∀ q p q', I q → q.dequeue = .ok (p, q') → I q')
    (hq : I q.toDroppingPacketQueue) (h : q.dequeue = .ok (p, q')) :
    I q'.toDroppingPacketQueue := by
  obtain ⟨⟨p₁, okToDrop, q₁⟩, hq₁, h⟩ := bind_eq_ok.1 h
  have hI₁ : I q₁.toDroppingPacketQueue :=
    next _ _ _ hq (dodequeue_base (q := { q with clock := q.clock.tail }) hq₁)
  dsimp only at h
  split_ifs at h
  · obtain ⟨q₂, hq₂, h⟩ := bind_eq_ok.1 h
    cases h
    refine Loop.run_post (L := dropLoop q.clock.head) (I := fun q => I q.toDroppingPacketQueue)
      (Q := fun q => I q.toDroppingPacketQueue) (fun q₃ q₄ hq₃ hnext => ?_)
      (fun q₃ q₄ hq₃ hleave => ?_) ?_ hq₂
    · change dropStep _ q₃ = _ at hnext
      rw [dropStep] at hnext
      split_ifs at hnext
      · obtain ⟨⟨p₅, ok₅, q₅⟩, hq₅, hnext⟩ := bind_eq_ok.1 hnext
        have hI₅ := next _ _ _ hq₃ (dodequeue_base hq₅)
        cases hnext
        cases ok₅ <;> exact hI₅
      · cases hnext
    · rwa [dropStep_leave hleave]
    · split_ifs <;> exact hI₁
  · obtain ⟨q₂, hq₂, h⟩ := bind_eq_ok.1 h
    cases h
    obtain ⟨⟨p₃, ok₃, q₃⟩, hq₃, hq₂⟩ := bind_eq_ok.1 hq₂
    cases hq₂
    have hI₃ : I q₃.toDroppingPacketQueue := next _ _ _ hI₁ (dodequeue_base hq₃)
    exact hI₃
  · cases h
    exact hI₁

end CODELPacketQueue

namespace PIEPacketQueue

open DroppingPacketQueue

variable {base : DroppingPacketQueue} {q q' : PIEPacketQueue} {p : QueuedPacket}

theorem dequeue_base (h : q.dequeue = .ok (p, q')) :
    q.toDroppingPacketQueue.dequeue = .ok (p, q'.toDroppingPacketQueue) := by
  obtain ⟨⟨ret, base⟩, hbase, h⟩ := bind_eq_ok.1 h
  obtain ⟨sizeInBytes, -, h⟩ := bind_eq_ok.1 h
  obtain ⟨q₁, hq₁, h⟩ := bind_eq_ok.1 h
  cases h
  rw [calculateDropProb_base hq₁, measureDequeue_base]
  exact hbase

/-- **A packet that arrives is dropped, or accepted within the limits.** -/
theorem enqueue_of_keeps (h : Keeps base q.toDroppingPacketQueue) (hsmall : base.SmallLimits)
    (hp : 1 ≤ p.contents.length ∧ p.contents.length ≤ 1504) :
    ∃ q', q.enqueue p = .ok q' ∧ Keeps base q'.toDroppingPacketQueue := by
  obtain ⟨q₁, hq₁, -⟩ := calculateDropProb_of_sound h.sound
  have h₁ := h
  rw [← calculateDropProb_base hq₁] at h₁
  rw [enqueue, hq₁, ok_bind, h₁.sound.goodWithPacket hp.2, ok_bind]
  by_cases hfits : base.Fits (q₁.internalQueue ++ [p])
  · have hearly : ∃ early q₂, q₁.dropEarly = .ok (early, q₂) := by
      rw [dropEarly, h₁.sound.sizeBytes, ok_bind]
      split_ifs <;> exact ⟨_, _, rfl⟩
    obtain ⟨early, q₂, hq₂⟩ := hearly
    have hbase := dropEarly_base hq₂
    have h₂ := h₁
    rw [← hbase] at h₂
    have haccept : Keeps base (q₂.accept p) := h₂.accept hsmall hp (by rwa [hbase])
    rw [decide_eq_true (h₁.fits_iff.2 hfits), if_neg (by decide), hq₂, ok_bind]
    cases early with
    | true =>
        refine ⟨{ q₂ with toDroppingPacketQueue := q₂.toDroppingPacketQueue }, ?_, h₂⟩
        dsimp only
        rw [if_pos rfl, h₂.sound.assertGood]
        rfl
    | false =>
        refine ⟨{ q₂ with toDroppingPacketQueue := q₂.accept p }, ?_, haccept⟩
        dsimp only
        rw [if_neg (by decide), haccept.sound.assertGood]
        rfl
  · rw [decide_eq_false (h₁.fits_iff.not.2 hfits), if_pos rfl]
    exact ⟨q₁, rfl, h₁⟩

end PIEPacketQueue

namespace AbstractPacketQueue

open DroppingPacketQueue
open DropHeadPacketQueue (packetOf eightBytes twoPackets)

/-- The queue with its counters, unless it is the infinite one. -/
def dropping : AbstractPacketQueue → Option DroppingPacketQueue
  | .infinite _ => none
  | .droptail q => some q
  | .drophead q => some q
  | .codel q => some q.toDroppingPacketQueue
  | .pie q => some q.toDroppingPacketQueue

/-- One call. -/
def call (q : AbstractPacketQueue) : DropHeadPacketQueue.Call → Except Fault AbstractPacketQueue
  | .enqueue p => q.enqueue p
  | .dequeue => q.dequeue.map Prod.snd

/-- A packet has 1 to 1504 bytes, and an empty queue is not dequeued. -/
def Admissible (q : AbstractPacketQueue) : DropHeadPacketQueue.Call → Prop
  | .enqueue p => 1 ≤ p.contents.length ∧ p.contents.length ≤ 1504
  | .dequeue => q.packets ≠ []

/-- An admissible call that returns. -/
def AdmissibleStep (q : AbstractPacketQueue) (c : DropHeadPacketQueue.Call)
    (q' : AbstractPacketQueue) : Prop :=
  q.Admissible c ∧ q.call c = .ok q'

/-- A queue of each of the three disciplines. -/
inductive Kept (base : DroppingPacketQueue) : Bytes → AbstractPacketQueue → Prop
  | droptail {q : DroppingPacketQueue} : Keeps base q → Kept base (ascii "droptail") (.droptail q)
  | codel {q : CODELPacketQueue} :
      Keeps base q.toDroppingPacketQueue → Kept base (ascii "codel") (.codel q)
  | pie {q : PIEPacketQueue} :
      Keeps base q.toDroppingPacketQueue → Kept base (ascii "pie") (.pie q)

variable {base : DroppingPacketQueue} {type : Bytes} {q q' : AbstractPacketQueue}

/-- **An admissible call returns, and keeps the queue within its limits.** -/
theorem Kept.call (h : Kept base type q) (hsmall : base.SmallLimits) {c : DropHeadPacketQueue.Call}
    (hc : q.Admissible c) : ∃ q', q.call c = .ok q' ∧ Kept base type q' ∧
      ∀ p, c = .enqueue p → type ≠ ascii "pie" → q'.packets =
        if base.Fits (q.packets ++ [p]) then q.packets ++ [p] else q.packets := by
  cases c with
  | enqueue p =>
      cases h with
      | droptail hq =>
          obtain ⟨q₁, hq₁, hkept, hpackets⟩ := hq.acceptWithin hsmall hc
          refine ⟨.droptail q₁, ?_, .droptail hkept, fun p' hp' _ => ?_⟩
          · exact map_eq_ok.2 ⟨q₁, hq₁, rfl⟩
          · cases hp'
            exact hpackets
      | @codel q hq =>
          obtain ⟨q₁, hq₁, hkept, hpackets⟩ := hq.acceptWithin hsmall hc
          have henqueue : q.enqueue p = .ok { q with toDroppingPacketQueue := q₁ } := by
            rw [CODELPacketQueue.enqueue, hq₁]
            rfl
          refine ⟨.codel { q with toDroppingPacketQueue := q₁ }, ?_, .codel hkept, fun p' hp' _ => ?_⟩
          · exact map_eq_ok.2 ⟨_, henqueue, rfl⟩
          · cases hp'
            exact hpackets
      | pie hq =>
          obtain ⟨q₁, hq₁, hkept⟩ := PIEPacketQueue.enqueue_of_keeps hq hsmall hc
          exact ⟨.pie q₁, map_eq_ok.2 ⟨q₁, hq₁, rfl⟩, .pie hkept, fun _ _ hne => absurd rfl hne⟩
  | dequeue =>
      cases h with
      | droptail hq =>
          obtain ⟨p, rest, hcons⟩ := List.exists_cons_of_ne_nil hc
          obtain ⟨q₁, hq₁, -⟩ := hq.sound.dequeue hcons
          refine ⟨.droptail q₁, ?_, .droptail (hq.dequeue hq₁), fun p' hp' => by cases hp'⟩
          exact map_eq_ok.2 ⟨_, map_eq_ok.2 ⟨_, hq₁, rfl⟩, rfl⟩
      | codel hq =>
          obtain ⟨p, q₁, hq₁, -⟩ := CODELPacketQueue.dequeue_of_sound hq.sound hc
          have hkept := CODELPacketQueue.dequeue_invariant (I := Keeps base)
            (fun _ _ _ hk hk' => hk.dequeue hk') hq hq₁
          refine ⟨.codel q₁, ?_, .codel hkept, fun p' hp' => by cases hp'⟩
          exact map_eq_ok.2 ⟨_, map_eq_ok.2 ⟨_, hq₁, rfl⟩, rfl⟩
      | pie hq =>
          obtain ⟨p, q₁, hq₁, -⟩ := PIEPacketQueue.dequeue_of_sound hq.sound hc
          have hkept := hq.dequeue (PIEPacketQueue.dequeue_base hq₁)
          refine ⟨.pie q₁, ?_, .pie hkept, fun p' hp' => by cases hp'⟩
          exact map_eq_ok.2 ⟨_, map_eq_ok.2 ⟨_, hq₁, rfl⟩, rfl⟩

/-- What a kept queue is: its counters are the counts, and it is within its limits. -/
theorem Kept.counters (h : Kept base type q) :
    ∃ counted, q.dropping = some counted ∧ counted.internalQueue = q.packets ∧
      counted.queueSizeInBytes = totalBytes q.packets ∧
      counted.queueSizeInPackets = q.packets.length ∧ base.Fits q.packets := by
  have hkeeps : ∀ {q : DroppingPacketQueue}, Keeps base q →
      q.queueSizeInBytes = totalBytes q.internalQueue ∧
        q.queueSizeInPackets = q.internalQueue.length ∧ base.Fits q.internalQueue := by
    intro q hq
    exact ⟨hq.sound.bytes, hq.sound.packets, hq.fits_iff.1 ⟨hq.sound.byteLimit, hq.sound.packetLimit⟩⟩
  cases h with
  | droptail hq => exact ⟨_, rfl, rfl, hkeeps hq⟩
  | codel hq => exact ⟨_, rfl, rfl, hkeeps hq⟩
  | pie hq => exact ⟨_, rfl, rfl, hkeeps hq⟩

/-- **A new queue is kept.** -/
theorem kept_new {args : Bytes} {clock : Stream' ℕ} {draws : Stream' Float}
    (hnew : getPacketQueue type args clock draws = .ok q)
    (hbase : DroppingPacketQueue.new args = .ok base)
    (htype : type = ascii "droptail" ∨ type = ascii "codel" ∨ type = ascii "pie") :
    Kept base type q := by
  have hkeeps := keeps_new hbase
  have hinfinite : type ≠ ascii "infinite" ∧ type ≠ ascii "drophead" := by
    rcases htype with rfl | rfl | rfl <;> decide
  rw [getPacketQueue, if_neg hinfinite.1] at hnew
  split_ifs at hnew with h₁ h₂ h₃ h₄
  · obtain ⟨q₁, hq₁, rfl⟩ := map_eq_ok.1 hnew
    rw [hbase] at hq₁
    cases hq₁
    exact h₁ ▸ .droptail hkeeps
  · exact absurd h₂ hinfinite.2
  · obtain ⟨q₁, hq₁, rfl⟩ := map_eq_ok.1 hnew
    obtain ⟨base', target, interval, hbase', rfl⟩ := CODELPacketQueue.new_eq_ok hq₁
    cases hbase.symm.trans hbase'
    exact h₃ ▸ .codel hkeeps
  · obtain ⟨q₁, hq₁, rfl⟩ := map_eq_ok.1 hnew
    obtain ⟨base', qdelayRef, maxBurst, hbase', rfl⟩ := PIEPacketQueue.new_eq_ok hq₁
    cases hbase.symm.trans hbase'
    exact h₄ ▸ .pie hkeeps

/-- **A queue stays within its limits.**  In every run of a droptail, CoDel or PIE queue with
small limits, whatever the clock and the random generator return: the counters are the counts
of the packets held, both limits hold, the next call returns too, so no assertion fails; and
droptail and CoDel refuse a packet exactly if it would exceed a limit. -/
theorem within_limits {args : Bytes} {clock : Stream' ℕ} {draws : Stream' Float}
    {q₀ : AbstractPacketQueue} {calls : List DropHeadPacketQueue.Call}
    (hnew : getPacketQueue type args clock draws = .ok q₀)
    (hbase : DroppingPacketQueue.new args = .ok base) (hsmall : base.SmallLimits)
    (htype : type = ascii "droptail" ∨ type = ascii "codel" ∨ type = ascii "pie")
    (hrun : Run AdmissibleStep q₀ calls q) :
    (∃ counted, q.dropping = some counted ∧ counted.internalQueue = q.packets ∧
      counted.queueSizeInBytes = totalBytes q.packets ∧
      counted.queueSizeInPackets = q.packets.length ∧ base.Fits q.packets) ∧
    (∀ c, q.Admissible c → ∃ q', q.call c = .ok q') ∧
    (type ≠ ascii "pie" → ∀ p q', q.Admissible (.enqueue p) → q.call (.enqueue p) = .ok q' →
      q'.packets = if base.Fits (q.packets ++ [p]) then q.packets ++ [p] else q.packets) := by
  have hkept : Kept base type q := by
    refine hrun.invariant (fun q c q' hq hstep => ?_) (kept_new hnew hbase htype)
    obtain ⟨q₁, hq₁, hkept, -⟩ := hq.call hsmall hstep.1
    rw [hstep.2] at hq₁
    cases hq₁
    exact hkept
  refine ⟨hkept.counters, fun c hc => ?_, fun hpie p q' hc hq' => ?_⟩
  · obtain ⟨q', hq', -⟩ := hkept.call hsmall hc
    exact ⟨q', hq'⟩
  · obtain ⟨q₁, hq₁, -, hpackets⟩ := hkept.call hsmall hc
    rw [hq'] at hq₁
    cases hq₁
    exact hpackets p rfl hpie

/-- A droptail queue of at most eight bytes, with two packets of four bytes. -/
theorem within_limits_eightBytes :
    (∃ counted, some twoPackets = some counted ∧ counted.internalQueue = twoPackets.internalQueue ∧
      counted.queueSizeInBytes = totalBytes twoPackets.internalQueue ∧
      counted.queueSizeInPackets = twoPackets.internalQueue.length ∧
      eightBytes.Fits twoPackets.internalQueue) ∧
    (∀ c, Admissible (.droptail twoPackets) c → ∃ q', call (.droptail twoPackets) c = .ok q') ∧
    (ascii "droptail" ≠ ascii "pie" → ∀ p q', Admissible (.droptail twoPackets) (.enqueue p) →
      call (.droptail twoPackets) (.enqueue p) = .ok q' → q'.packets =
        if eightBytes.Fits (twoPackets.internalQueue ++ [p]) then twoPackets.internalQueue ++ [p]
        else twoPackets.internalQueue) := by
  have hbase : DroppingPacketQueue.new (ascii "bytes=8") = .ok eightBytes := by decide +kernel
  have hnew : getPacketQueue (ascii "droptail") (ascii "bytes=8") (Stream'.const 0)
      (Stream'.const 0) = .ok (.droptail eightBytes) := by
    rw [getPacketQueue, if_neg (by decide), if_pos rfl, hbase]
    rfl
  have hfour : 1 ≤ (packetOf 4).contents.length ∧ (packetOf 4).contents.length ≤ 1504 := by decide
  have hrun : Run AdmissibleStep (.droptail eightBytes)
      [.enqueue (packetOf 4), .enqueue (packetOf 4)] (.droptail twoPackets) :=
    .cons ⟨hfour, rfl⟩ (.cons ⟨hfour, rfl⟩ (.nil _))
  exact within_limits hnew hbase (Or.inl (by decide)) (Or.inl rfl) hrun

end AbstractPacketQueue

end V2Proxy
