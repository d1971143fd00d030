/-
# How long `calculate_drop_prob` catches up

`calculate_drop_prob` repeats its update for every period that has been missed since
`last_update_`.  The loop compares the unsigned difference of a reading of the clock and
`last_update_` with the period, so a clock that has gone back looks like a gap of almost
`2 ^ 64` milliseconds, and the loop runs about `2 ^ 64 / 30` times, with `last_update_` ahead of
the clock (`catchesUp_iff`).

`calculate_drop_prob` is called first thing by `enqueue` and last by `dequeue`;
`atUpdate` is the queue where a call does it.
-/

import V2Proxy.Foundations.Runs
import V2Proxy.Packet.DropHeadLimits
import V2Proxy.Packet.PIEPacketQueue
import Mathlib.Logic.Relation

namespace V2Proxy

open Foundations

namespace PIEPacketQueue

variable {q q' : PIEPacketQueue} {now : ℕ}

/-- The periods that have been missed, the last one perhaps not in full: the time since
`last_update_`, if there is any, divided by the period and rounded up. -/
def missed (now lastUpdate : ℕ) : ℕ := (now - lastUpdate + (tUpdate - 1)) / tUpdate

/-- The next call of `calculate_drop_prob` makes an update for each missed period at most,
and moves `last_update_` nowhere past the clock. -/
structure CatchesUp (q : PIEPacketQueue) : Prop where
  bounded : (iterate (updateStep q.clock.head) (missed q.clock.head q.lastUpdate + 1)
    { q with clock := q.clock.tail }).isSome
  notPast : ∀ q', Relation.TransGen (fun q₁ q₂ => updateStep q.clock.head q₁ = .ok (.inl q₂))
    { q with clock := q.clock.tail } q' → q'.lastUpdate ≤ q.clock.head

/-- The clock is not behind `last_update_`, or so little ahead of its turn around that the
loop takes it for less than a period. -/
def InOrder (now lastUpdate : ℕ) : Prop := lastUpdate ≤ now ∨ now + 2 ^ 64 ≤ lastUpdate + tUpdate

instance (now lastUpdate : ℕ) : Decidable (InOrder now lastUpdate) :=
  inferInstanceAs (Decidable (_ ∨ _))

/-- **What a round of the loop does.** -/
theorem updateStep_of_sound (h : q.toDroppingPacketQueue.Sound) (now : ℕ) :
    updateStep now q = .ok (if tUpdate < sizeSub now q.lastUpdate
      then .inl (q.update (DroppingPacketQueue.totalBytes q.internalQueue)) else .inr q) := by
  rw [updateStep, h.sizeBytes]
  split_ifs <;> rfl

/-- An update follows the clock as long as the clock is ahead. -/
theorem lastUpdate_next (hle : q.lastUpdate ≤ now) (hnow : now < 2 ^ 64)
    (hnext : updateStep now q = .ok (.inl q')) :
    q'.toDroppingPacketQueue = q.toDroppingPacketQueue ∧
      q'.lastUpdate = q.lastUpdate + tUpdate ∧ q'.lastUpdate ≤ now := by
  rw [updateStep] at hnext
  split_ifs at hnext with hlate
  · obtain ⟨sizeInBytes, -, hnext⟩ := bind_eq_ok.1 hnext
    cases hnext
    obtain ⟨hbase, hlast⟩ := q.update_base sizeInBytes
    rw [sizeSub_of_le hle hnow] at hlate
    rw [hlast, Nat.mod_eq_of_lt (by omega)]
    exact ⟨hbase, rfl, by omega⟩
  · cases hnext

/-- With the clock ahead, the updates are as many as the periods that fit in between. -/
theorem isSome_iterate_updateStep (h : q.toDroppingPacketQueue.Sound) (hle : q.lastUpdate ≤ now)
    (hnow : now < 2 ^ 64) {n : ℕ} (hn : now ≤ q.lastUpdate + n * tUpdate) :
    (iterate (updateStep now) (n + 1) q).isSome := by
  induction n generalizing q with
  | zero =>
      have hlate : ¬ tUpdate < sizeSub now q.lastUpdate := by
        rw [sizeSub_of_le hle hnow]
        omega
      rw [iterate_succ, updateStep_of_sound h, if_neg hlate]
      rfl
  | succ n ih =>
      rw [iterate_succ]
      rcases hstep : updateStep now q with e | q₁ | q₁
      · rfl
      · obtain ⟨hbase, hlast, hle'⟩ := lastUpdate_next hle hnow hstep
        refine ih (hbase ▸ h) hle' ?_
        rw [hlast]
        rw [Nat.add_one_mul] at hn
        omega
      · rfl

/-- **A call catches up in time if and only if the clock has not gone back,** or looks as if it
had not. -/
theorem catchesUp_iff_inOrder (h : q.toDroppingPacketQueue.Sound) (hlast : q.lastUpdate < 2 ^ 64)
    (hclock : q.clock.head < 2 ^ 64) : q.CatchesUp ↔ InOrder q.clock.head q.lastUpdate := by
  set q₁ : PIEPacketQueue := { q with clock := q.clock.tail } with hq₁
  have hsound : q₁.toDroppingPacketQueue.Sound := h
  by_cases hle : q.lastUpdate ≤ q.clock.head
  · refine iff_of_true ⟨?_, fun q' hq' => ?_⟩ (Or.inl hle)
    · refine isSome_iterate_updateStep hsound hle hclock ?_
      change q.clock.head ≤ q.lastUpdate + missed q.clock.head q.lastUpdate * tUpdate
      unfold missed tUpdate
      omega
    · induction hq' with
      | single hnext => exact (lastUpdate_next (q := q₁) hle hclock hnext).2.2
      | tail _ hnext ih => exact (lastUpdate_next ih hclock hnext).2.2
  · have hgap : sizeSub q.clock.head q₁.lastUpdate = q.clock.head + 2 ^ 64 - q.lastUpdate :=
      Nat.mod_eq_of_lt (by change q.clock.head + 2 ^ 64 - q.lastUpdate < 2 ^ 64; omega)
    have hmissed : missed q.clock.head q.lastUpdate = 0 := by
      unfold missed tUpdate
      omega
    have hstep := updateStep_of_sound hsound q.clock.head
    constructor
    · intro hcatch
      by_contra hno
      have hlate : tUpdate < sizeSub q.clock.head q₁.lastUpdate := by
        unfold InOrder at hno
        omega
      have hbounded := hcatch.bounded
      rw [hmissed, iterate_succ, ← hq₁, hstep, if_pos hlate] at hbounded
      cases hbounded
    · intro horder
      have hlate : ¬ tUpdate < sizeSub q.clock.head q₁.lastUpdate := by
        unfold InOrder at horder
        omega
      rw [if_neg hlate] at hstep
      refine ⟨?_, fun q' hq' => ?_⟩
      · rw [hmissed, iterate_succ, ← hq₁, hstep]
        rfl
      · obtain ⟨q₂, hnext, -⟩ := Relation.TransGen.head'_iff.1 hq'
        rw [hstep] at hnext
        cases hnext

/-! ### Runs -/

/-- The queue as `calculate_drop_prob` finds it. -/
def atUpdate (q : PIEPacketQueue) : DropHeadPacketQueue.Call → Except Fault PIEPacketQueue
  | .enqueue _ => .ok q
  | .dequeue => do
      let (ret, base) ← q.toDroppingPacketQueue.dequeue
      let (now, q) := timestamp { q with toDroppingPacketQueue := base }
      let sizeInBytes ← q.sizeBytes
      return q.measureDequeue (UInt32.ofNat now) ret.contents.length sizeInBytes

/-- The reading of the clock in `calculate_drop_prob`: `dequeue` has read it before. -/
def updateReading (q : PIEPacketQueue) : DropHeadPacketQueue.Call → ℕ
  | .enqueue _ => q.clock.head
  | .dequeue => q.clock.tail.head

/-- `dequeue` ends with `calculate_drop_prob`. -/
theorem dequeue_eq_atUpdate (q : PIEPacketQueue) :
    q.dequeue.map Prod.snd = q.atUpdate .dequeue >>= calculateDropProb := by
  rw [dequeue, atUpdate]
  rcases q.toDroppingPacketQueue.dequeue with e | ⟨ret, base⟩
  · rfl
  set q₁ : PIEPacketQueue := { q with toDroppingPacketQueue := base, clock := q.clock.tail } with hq₁
  change (q₁.sizeBytes >>= fun sizeInBytes => (q₁.measureDequeue (UInt32.ofNat q.clock.head)
    ret.contents.length sizeInBytes).calculateDropProb >>= fun q => .ok (ret, q)).map Prod.snd =
      (q₁.sizeBytes >>= fun sizeInBytes => .ok (q₁.measureDequeue (UInt32.ofNat q.clock.head)
        ret.contents.length sizeInBytes)) >>= calculateDropProb
  rcases q₁.sizeBytes with e | sizeInBytes
  · rfl
  rw [ok_bind, ok_bind, ok_bind]
  generalize (q₁.measureDequeue (UInt32.ofNat q.clock.head) ret.contents.length
    sizeInBytes).calculateDropProb = updated
  rcases updated with e | q₂ <;> rfl

/-- A packet arrives, or is taken when there is one. -/
inductive CallStep : PIEPacketQueue → DropHeadPacketQueue.Call → PIEPacketQueue → Prop
  | enqueue {q q' : PIEPacketQueue} {p : QueuedPacket} :
      p.contents.length < 2 ^ 31 → q.enqueue p = .ok q' → CallStep q (.enqueue p) q'
  | dequeue {q q' : PIEPacketQueue} {p : QueuedPacket} :
      q.internalQueue ≠ [] → q.dequeue = .ok (p, q') → CallStep q .dequeue q'

/-- The queue is sound, and its times fit a `uint64_t`. -/
structure InRange (q : PIEPacketQueue) : Prop where
  sound : q.toDroppingPacketQueue.Sound
  lastUpdate : q.lastUpdate < 2 ^ 64
  clock : ∀ n, q.clock.get n < 2 ^ 64

theorem update_clock (q : PIEPacketQueue) (sizeInBytes : ℕ) :
    (q.update sizeInBytes).clock = q.clock := by
  unfold update
  dsimp only
  split_ifs <;> rfl

/-- The measurement of `dequeue` does not touch the times. -/
theorem measureDequeue_times (q : PIEPacketQueue) (now : UInt32) (size sizeInBytes : ℕ) :
    (q.measureDequeue now size sizeInBytes).lastUpdate = q.lastUpdate ∧
      (q.measureDequeue now size sizeInBytes).clock = q.clock := by
  obtain ⟨_, _, _, _, hmeasure⟩ := q.measureDequeue_eq now size sizeInBytes
  rw [hmeasure]
  exact ⟨rfl, rfl⟩

theorem InRange.calculateDropProb (h : q.InRange) (hq' : q.calculateDropProb = .ok q') :
    q'.InRange := by
  have htail : ∀ n, q.clock.tail.get n < 2 ^ 64 := fun n => h.clock (n + 1)
  refine Loop.run_post (L := updateLoop q.clock.head) (I := InRange) (Q := InRange)
    (fun q₁ q₂ hq₁ hnext => ?_) (fun q₁ q₂ hq₁ hleave => ?_)
    (s := { q with clock := q.clock.tail }) ⟨h.sound, h.lastUpdate, htail⟩ hq'
  · change updateStep _ q₁ = _ at hnext
    rw [updateStep_of_sound hq₁.sound] at hnext
    split_ifs at hnext
    · cases hnext
      obtain ⟨hbase, hlast⟩ := q₁.update_base (DroppingPacketQueue.totalBytes q₁.internalQueue)
      refine ⟨?_, ?_, ?_⟩
      · rw [hbase]
        exact hq₁.sound
      · rw [hlast]
        exact Nat.mod_lt _ (Nat.two_pow_pos 64)
      · rw [update_clock]
        exact hq₁.clock
    · cases hnext
  · rwa [updateStep_leave hleave]

/-- **Every call finds the queue in range.** -/
theorem InRange.atUpdate (h : q.InRange) {c : DropHeadPacketQueue.Call}
    (hq' : q.atUpdate c = .ok q') :
    q'.InRange ∧ q'.lastUpdate = q.lastUpdate ∧ q'.clock.head = q.updateReading c := by
  cases c with
  | enqueue p =>
      cases hq'
      exact ⟨h, rfl, rfl⟩
  | dequeue =>
      obtain ⟨⟨ret, base⟩, hbase, hq'⟩ := bind_eq_ok.1 hq'
      obtain ⟨sizeInBytes, -, hq'⟩ := bind_eq_ok.1 hq'
      cases hq'
      obtain ⟨hlast, hclock⟩ := measureDequeue_times
        { q with toDroppingPacketQueue := base, clock := q.clock.tail } (UInt32.ofNat q.clock.head)
        ret.contents.length sizeInBytes
      obtain ⟨base', hbase', hsound, -⟩ := h.sound.dequeue (DroppingPacketQueue.dequeue_eq_ok hbase)
      rw [hbase] at hbase'
      cases hbase'
      refine ⟨⟨?_, ?_, ?_⟩, hlast, ?_⟩
      · rw [measureDequeue_base]
        exact hsound
      · exact hlast.trans_lt h.lastUpdate
      · intro n
        exact (congrArg (fun s : Stream' ℕ => s.get n) hclock).trans_lt (h.clock (n + 1))
      · exact congrArg Stream'.head hclock

theorem InRange.step {c : DropHeadPacketQueue.Call} (h : q.InRange) (hstep : CallStep q c q') :
    q'.InRange := by
  cases hstep with
  | enqueue hp hq' =>
      have hsound := enqueue_of_sound h.sound hp hq'
      obtain ⟨q₁, hq₁, hq'⟩ := bind_eq_ok.1 hq'
      have h₁ := h.calculateDropProb hq₁
      obtain ⟨within, -, hq'⟩ := bind_eq_ok.1 hq'
      split_ifs at hq'
      · cases hq'
        exact h₁
      · obtain ⟨⟨early, q₂⟩, hq₂, hq'⟩ := bind_eq_ok.1 hq'
        obtain ⟨_, -, hq'⟩ := bind_eq_ok.1 hq'
        cases hq'
        have htimes : q₂.lastUpdate = q₁.lastUpdate ∧ q₂.clock = q₁.clock := by
          rw [dropEarly] at hq₂
          split_ifs at hq₂
          · cases hq₂
            exact ⟨rfl, rfl⟩
          · cases hq₂
            exact ⟨rfl, rfl⟩
          · obtain ⟨sizeInBytes, -, hq₂⟩ := bind_eq_ok.1 hq₂
            split_ifs at hq₂ <;> cases hq₂ <;> exact ⟨rfl, rfl⟩
        refine ⟨hsound, htimes.1.trans_lt h₁.lastUpdate, ?_⟩
        change ∀ n, q₂.clock.get n < 2 ^ 64
        rw [htimes.2]
        exact h₁.clock
  | dequeue hne hq' =>
      have hsnd : q.dequeue.map Prod.snd = .ok q' := by
        rw [hq']
        rfl
      rw [dequeue_eq_atUpdate] at hsnd
      obtain ⟨q₁, hq₁, hsnd⟩ := bind_eq_ok.1 hsnd
      exact (h.atUpdate hq₁).1.calculateDropProb hsnd

theorem inRange_new {args : Bytes} {clock : Stream' ℕ} {draws : Stream' Float}
    (hnew : new args clock draws = .ok q) (hclock : ∀ n, clock.get n < 2 ^ 64) :
    q.InRange ∧ q.lastUpdate = clock.head ∧ q.clock = clock.tail := by
  obtain ⟨base, qdelayRef, maxBurst, hbase, rfl⟩ := new_eq_ok hnew
  exact ⟨⟨(DroppingPacketQueue.sound_new hbase).1, hclock 0, fun n => hclock (n + 1)⟩, rfl, rfl⟩

/-- **Every call catches up in time if and only if the clock has not gone back** behind
`last_update_`.  In every run, for the call that comes next: `calculate_drop_prob` makes an
update for each missed period at most and moves `last_update_` nowhere past the clock, just if
its reading of the clock is in order. -/
theorem catchesUp_iff {args : Bytes} {clock : Stream' ℕ} {draws : Stream' Float}
    {q₀ : PIEPacketQueue} {calls : List DropHeadPacketQueue.Call} {c : DropHeadPacketQueue.Call}
    (hnew : new args clock draws = .ok q₀) (hclock : ∀ n, clock.get n < 2 ^ 64)
    (hrun : Run CallStep q₀ calls q) (hq' : q.atUpdate c = .ok q') :
    q'.CatchesUp ↔ InOrder (q.updateReading c) q.lastUpdate := by
  have hrange : q.InRange :=
    hrun.invariant (fun _ _ _ hq hstep => hq.step hstep) (inRange_new hnew hclock).1
  obtain ⟨hrange', hlast, hhead⟩ := hrange.atUpdate hq'
  rw [catchesUp_iff_inOrder hrange'.sound hrange'.lastUpdate (hrange'.clock 0), hlast, hhead]

/-- A queue of ten packets. -/
theorem exists_new (clock : Stream' ℕ) (draws : Stream' Float) :
    ∃ q, new (ascii "packets=10,qdelay_ref=1,max_burst=1") clock draws = .ok q := by
  have hbase : DroppingPacketQueue.new (ascii "packets=10,qdelay_ref=1,max_burst=1") =
      .ok { packetLimit := 10, byteLimit := 0 } := by decide +kernel
  have href : DroppingPacketQueue.getArg (ascii "packets=10,qdelay_ref=1,max_burst=1")
      (ascii "qdelay_ref") = .ok 1 := by decide +kernel
  have hburst : DroppingPacketQueue.getArg (ascii "packets=10,qdelay_ref=1,max_burst=1")
      (ascii "max_burst") = .ok 1 := by decide +kernel
  rw [new, hbase, ok_bind, href, ok_bind, hburst, ok_bind, if_neg (by decide)]
  exact ⟨_, rfl⟩

/-- A packet that arrives 100 ms after the start. -/
theorem catchesUp_iff_hundred : ∃ q,
    new (ascii "packets=10,qdelay_ref=1,max_burst=1") (Stream'.cons 0 (Stream'.const 100))
      (Stream'.const 0) = .ok q ∧ (q.CatchesUp ↔ InOrder (q.updateReading (.enqueue ⟨100, [7]⟩))
        q.lastUpdate) := by
  obtain ⟨q, hnew⟩ := exists_new (Stream'.cons 0 (Stream'.const 100)) (Stream'.const 0)
  have hclock : ∀ n, (Stream'.cons 0 (Stream'.const 100)).get n < 2 ^ 64 := by
    rintro (_ | n)
    · exact Nat.two_pow_pos 64
    · change 100 < 2 ^ 64
      decide
  exact ⟨q, hnew, catchesUp_iff hnew hclock (.nil q) rfl⟩

/-- **The clock reads 100, and then 50:** no period has been missed, but the loop goes on. -/
theorem clock_goes_back : ∃ q,
    new (ascii "packets=10,qdelay_ref=1,max_burst=1") (Stream'.cons 100 (Stream'.const 50))
      (Stream'.const 0) = .ok q ∧ q.atUpdate (.enqueue ⟨50, [7]⟩) = .ok q ∧
      missed q.clock.head q.lastUpdate = 0 ∧ ¬ q.CatchesUp := by
  obtain ⟨q, hnew⟩ := exists_new (Stream'.cons 100 (Stream'.const 50)) (Stream'.const 0)
  have hclock : ∀ n, (Stream'.cons 100 (Stream'.const 50)).get n < 2 ^ 64 := by
    rintro (_ | n)
    · change 100 < 2 ^ 64
      decide
    · change 50 < 2 ^ 64
      decide
  obtain ⟨hrange, hlast, htail⟩ := inRange_new hnew hclock
  have hhead : q.clock.head = 50 := by
    rw [htail]
    rfl
  have hlast' : q.lastUpdate = 100 := hlast
  refine ⟨q, hnew, rfl, by rw [hhead, hlast']; rfl, ?_⟩
  rw [catchesUp_iff_inOrder hrange.sound hrange.lastUpdate (hrange.clock 0), hhead, hlast']
  decide

end PIEPacketQueue

end V2Proxy
