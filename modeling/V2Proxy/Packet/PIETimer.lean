/-
# The controller of `PIEPacketQueue` and a timer

`calculate_drop_prob` makes the updates of its controller late, when a packet arrives or has
been taken, and its comment says that they are those of a timer, because the queue has not
changed since `last_update_`.  `timer` is that timer: an update is due every 30 ms, and one
that is due in the millisecond of a call comes after the call.  `timedCall` is a call of
`enqueue` or `dequeue` where the timer has made all the updates that were due.

For `enqueue` the comment is right.  `dequeue` makes the late updates when the packet is out
and the rate is measured, so they see a queue that is not that of their time
(`late_dequeue`).  Where no update is due when `dequeue` is called, the controller is that of
the timer at every arrival (`catchUp_eq_timer`), whatever the arithmetic is.
-/

import V2Proxy.Foundations.Runs
import V2Proxy.Foundations.Timers
import V2Proxy.Packet.PIEController
import Mathlib.Data.List.Pairwise

namespace V2Proxy

open Foundations

namespace PIEState

/-- A call and what it reads. -/
inductive Op (F : Type) where
  /-- `enqueue`, where the clock reads `now` and the random generator returns `draw`, if it is
  asked -/
  | enqueue (now : ℕ) (draw : F) (p : QueuedPacket)
  /-- `dequeue`, where the clock reads `now`, and `later` in `calculate_drop_prob` -/
  | dequeue (now later : ℕ)

/-- The readings of the clock in a call. -/
def Op.readings {F : Type} : Op F → List ℕ
  | .enqueue now _ _ => [now]
  | .dequeue now later => [now, later]

variable {F : Type}

/-- Starting a measurement is no update. -/
theorem startMeasurement_lastUpdate (q : PIEState F) (now : UInt32) (sizeInBytes : ℕ) :
    (q.startMeasurement now sizeInBytes).lastUpdate = q.lastUpdate := by
  unfold startMeasurement
  split_ifs <;> rfl

/-- The measurement of `dequeue` is not an update. -/
theorem measureDequeue_lastUpdate (q : PIEState F) (now : UInt32) (size sizeInBytes : ℕ) :
    (q.measureDequeue now size sizeInBytes).lastUpdate = q.lastUpdate := by
  have hrate : ∀ q : PIEState F, (q.measureRate now size sizeInBytes).lastUpdate = q.lastUpdate := by
    intro q
    unfold measureRate spendBurst endMeasurement sampleRate
    dsimp only
    split_ifs <;> rfl
  rw [measureDequeue]
  split_ifs
  · rw [hrate, startMeasurement_lastUpdate]
  · rw [startMeasurement_lastUpdate]

/-- Nor is taking a packet off. -/
theorem takeOff_lastUpdate {q q' : PIEState F} {now : ℕ} {ret : QueuedPacket}
    (h : q.takeOff now = .ok (ret, q')) : q'.lastUpdate = q.lastUpdate := by
  obtain ⟨⟨_, base⟩, -, h⟩ := bind_eq_ok.1 h
  obtain ⟨sizeInBytes, -, h⟩ := bind_eq_ok.1 h
  cases h
  exact measureDequeue_lastUpdate _ _ _ _

variable [Arithmetic F]

/-- Nor is an arrival. -/
theorem arrive_lastUpdate {q q' : PIEState F} {draw : F} {p : QueuedPacket}
    (h : q.arrive draw p = .ok q') : q'.lastUpdate = q.lastUpdate := by
  obtain ⟨within, -, h⟩ := bind_eq_ok.1 h
  split_ifs at h
  · cases h
    rfl
  · obtain ⟨early, -, h⟩ := bind_eq_ok.1 h
    obtain ⟨_, -, h⟩ := bind_eq_ok.1 h
    cases h
    rfl

/-- A call. -/
def call (q : PIEState F) : Op F → Except Fault (PIEState F)
  | .enqueue now draw p => q.enqueue now draw p
  | .dequeue now later => (q.dequeue now later).map Prod.snd

/-! ### The timer -/

/-- An update with the queue as it is. -/
def tick (q : PIEState F) : Except Fault (PIEState F) := do
  let sizeInBytes ← q.sizeBytes
  return q.update sizeInBytes

/-- **The timer** that makes an update every 30 ms. -/
def timer : Timer Fault (PIEState F) where
  tick := tick
  last := lastUpdate
  period := PIEPacketQueue.tUpdate
  bound := 2 ^ 64
  period_pos := by decide
  last_tick h hbound := by
    obtain ⟨sizeInBytes, -, h⟩ := bind_eq_ok.1 h
    cases h
    rw [(update_base _ sizeInBytes).2, Nat.mod_eq_of_lt hbound]

/-- A call where the timer has made the updates that were due before. -/
def timedCall (q : PIEState F) : Op F → Except Fault (PIEState F)
  | .enqueue now draw p => do
      let q ← timer.advance now q
      q.arrive draw p
  | .dequeue now _ => do
      let q ← timer.advance now q
      let (_, q) ← q.takeOff now
      return q

/-- The late updates of `calculate_drop_prob` are those of the timer, as long as the clock has
not gone back. -/
theorem catchUp_eq_advance {q : PIEState F} {now : ℕ} (hle : q.lastUpdate ≤ now)
    (hnow : now < 2 ^ 64) : q.catchUp now = timer.advance now q := by
  rw [Timer.advance]
  generalize hn : timer.due now q = n
  induction n generalizing q with
  | zero =>
      have hlate : ¬ PIEPacketQueue.tUpdate < sizeSub now q.lastUpdate := by
        rw [sizeSub_of_le hle hnow]
        have hdue : now ≤ q.lastUpdate + PIEPacketQueue.tUpdate := Timer.due_eq_zero_iff.1 hn
        omega
      refine Loop.run_of_leave ?_
      change updateStep now q = _
      rw [updateStep, if_neg hlate]
      rfl
  | succ n ih =>
      have hdue : (now - 1 - q.lastUpdate) / 30 = n + 1 := hn
      have hstep : updateStep now q = q.sizeBytes >>= fun n => .ok (.inl (q.update n)) := by
        rw [updateStep, sizeSub_of_le hle hnow, PIEPacketQueue.tUpdate, if_pos (by omega)]
        rfl
      rw [Timer.ticks]
      change _ = (q.sizeBytes >>= fun n => .ok (q.update n)) >>= _
      rcases hsize : q.sizeBytes with e | sizeInBytes
      · rw [hsize, error_bind] at hstep
        exact Loop.run_of_error hstep
      · rw [hsize, ok_bind] at hstep
        have hlast := (q.update_base sizeInBytes).2
        rw [PIEPacketQueue.tUpdate, Nat.mod_eq_of_lt (by omega)] at hlast
        refine (Loop.run_of_next hstep).trans (ih (by omega) ?_)
        change (now - 1 - (q.update sizeInBytes).lastUpdate) / 30 = n
        omega

/-! ### Runs -/

/-- No update is due when `dequeue` is called. -/
def OnTime (q : PIEState F) : Op F → Prop
  | .enqueue _ _ _ => True
  | .dequeue now _ => now ≤ q.lastUpdate + PIEPacketQueue.tUpdate

/-- A call where no update is late for `dequeue`. -/
def OnTimeCall (q : PIEState F) (op : Op F) (q' : PIEState F) : Prop :=
  q.OnTime op ∧ q.call op = .ok q'

/-- A call with the timer. -/
def TimedCall (r : PIEState F) (op : Op F) (r' : PIEState F) : Prop := r.timedCall op = .ok r'

/-- At the time `t` the controller `q` is where the timer is that was last used in the state
`r`. -/
structure Follows (t : ℕ) (q r : PIEState F) : Prop where
  lastUpdate : q.lastUpdate ≤ t
  advance : timer.advance t r = .ok q
  fits : t < 2 ^ 64

variable {q q' r : PIEState F} {t now : ℕ}

/-- A queue follows itself. -/
theorem Follows.refl (hlast : q.lastUpdate < 2 ^ 64) : Follows q.lastUpdate q q :=
  ⟨le_rfl, Timer.advance_of_le (Nat.le_add_right _ _), hlast⟩

/-- The updates of the controller take it to where the timer is. -/
theorem Follows.catchUp_eq (h : Follows t q r) (hle : t ≤ now) (hnow : now < 2 ^ 64) :
    q.catchUp now = timer.advance now r := by
  rw [catchUp_eq_advance (h.lastUpdate.trans hle) hnow]
  exact Timer.advance_advance h.advance h.fits.le hle

/-- After catching up, the queue is as a timer has it. -/
theorem follows_of_catchUp (hlast : q.lastUpdate ≤ now) (hnow : now < 2 ^ 64)
    (hq' : q.catchUp now = .ok q') : Follows now q' q := by
  rw [catchUp_eq_advance hlast hnow] at hq'
  exact ⟨(Timer.last_advance hq' hnow.le).2.2 hlast, hq', hnow⟩

/-- What is not an update leaves nothing to make up for. -/
theorem Follows.kept (h : Follows t q r) (hlast : q'.lastUpdate = q.lastUpdate) :
    Follows t q' q' := by
  have hnext : t ≤ q.lastUpdate + PIEPacketQueue.tUpdate :=
    (Timer.last_advance h.advance h.fits.le).2.1
  rw [← hlast] at hnext
  exact ⟨hlast.trans_le h.lastUpdate, Timer.advance_of_le hnext, h.fits⟩

/-- **An arrival** that catches up is a timely one. -/
theorem Follows.enqueue {draw : F} {p : QueuedPacket} (h : Follows t q r) (hle : t ≤ now)
    (hnow : now < 2 ^ 64) (hq' : q.enqueue now draw p = .ok q') :
    TimedCall r (.enqueue now draw p) q' ∧ Follows now q' q' := by
  obtain ⟨q₁, hq₁, harrive⟩ := bind_eq_ok.1 hq'
  have hfollows := follows_of_catchUp (h.lastUpdate.trans hle) hnow hq₁
  rw [h.catchUp_eq hle hnow] at hq₁
  refine ⟨?_, hfollows.kept (arrive_lastUpdate harrive)⟩
  rw [TimedCall, timedCall, hq₁]
  exact harrive

/-- **So is a departure,** unless an update is overdue. -/
theorem Follows.dequeue {later : ℕ} {ret : QueuedPacket} (h : Follows t q r) (hle : t ≤ now)
    (hlater : now ≤ later) (hfits : later < 2 ^ 64)
    (hontime : now ≤ q.lastUpdate + PIEPacketQueue.tUpdate)
    (hq' : q.dequeue now later = .ok (ret, q')) :
    ∃ r', TimedCall r (.dequeue now later) r' ∧ Follows later q' r' := by
  have hnow := hlater.trans_lt hfits
  have hlast := h.lastUpdate.trans hle
  obtain ⟨⟨ret', q₁⟩, hq₁, hq'⟩ := bind_eq_ok.1 hq'
  obtain ⟨q₂, hq₂, hq'⟩ := bind_eq_ok.1 hq'
  cases hq'
  -- the timer has nothing to do either, so the packet is taken off the same queue
  have hadvance : timer.advance now r = .ok q := by
    rw [← h.catchUp_eq hle hnow, catchUp_eq_advance hlast hnow]
    exact Timer.advance_of_le hontime
  refine ⟨q₁, ?_, follows_of_catchUp ?_ hfits hq₂⟩
  · rw [TimedCall, timedCall, hadvance, ok_bind, hq₁]
    rfl
  · rw [takeOff_lastUpdate hq₁]
    exact hlast.trans hlater

/-- **A run of calls takes the controller to where the same calls take the timer.** -/
theorem Follows.run {ops : List (Op F)} (h : Follows t q r) (hrun : Run OnTimeCall q ops q')
    (hsorted : (t :: ops.flatMap Op.readings).Pairwise (· ≤ ·))
    (hfits : ∀ x ∈ ops.flatMap Op.readings, x < 2 ^ 64) :
    ∃ r' t', Run TimedCall r ops r' ∧ Follows t' q' r' ∧
      (t' = t ∨ t' ∈ ops.flatMap Op.readings) := by
  induction hrun generalizing t r with
  | nil q => exact ⟨r, t, .nil r, h, Or.inl rfl⟩
  | @cons q q₁ q' op ops hcall _ ih =>
      obtain ⟨hontime, hcall⟩ := hcall
      cases op with
      | enqueue now draw p =>
          change (t :: now :: ops.flatMap Op.readings).Pairwise _ at hsorted
          change ∀ x ∈ now :: ops.flatMap Op.readings, x < 2 ^ 64 at hfits
          obtain ⟨ht, hsorted⟩ := List.pairwise_cons.1 hsorted
          obtain ⟨hnow, hfits⟩ := List.forall_mem_cons.1 hfits
          obtain ⟨htimed, hfollows⟩ := h.enqueue (ht now List.mem_cons_self) hnow hcall
          obtain ⟨r', t', hrun', hfollows', ht'⟩ := ih hfollows hsorted hfits
          exact ⟨r', t', .cons htimed hrun', hfollows', Or.inr (List.mem_cons.2 ht')⟩
      | dequeue now later =>
          change (t :: now :: later :: ops.flatMap Op.readings).Pairwise _ at hsorted
          change ∀ x ∈ now :: later :: ops.flatMap Op.readings, x < 2 ^ 64 at hfits
          obtain ⟨ht, hsorted⟩ := List.pairwise_cons.1 hsorted
          obtain ⟨hlater, hsorted⟩ := List.pairwise_cons.1 hsorted
          obtain ⟨-, hfits⟩ := List.forall_mem_cons.1 hfits
          obtain ⟨hlast, hfits⟩ := List.forall_mem_cons.1 hfits
          obtain ⟨⟨ret, q₁⟩, hq₁, rfl⟩ := map_eq_ok.1 hcall
          obtain ⟨r₁, htimed, hfollows⟩ := h.dequeue (ht now List.mem_cons_self)
            (hlater later List.mem_cons_self) hlast hontime hq₁
          obtain ⟨r', t', hrun', hfollows', ht'⟩ := ih hfollows hsorted hfits
          exact ⟨r', t', .cons htimed hrun', hfollows',
            Or.inr (List.mem_cons_of_mem _ (List.mem_cons.2 ht'))⟩

/-- **The controller that catches up is that of the timer** in every run, at every arrival, if
no update is late when a packet is taken. -/
theorem catchUp_eq_timer {ops : List (Op F)} (hrun : Run OnTimeCall q ops q')
    (hsorted : (q.lastUpdate :: ops.flatMap Op.readings).Pairwise (· ≤ ·))
    (hfits : ∀ x ∈ q.lastUpdate :: ops.flatMap Op.readings, x < 2 ^ 64) :
    ∃ r, Run TimedCall q ops r ∧ ∀ now < 2 ^ 64,
      (∀ x ∈ q.lastUpdate :: ops.flatMap Op.readings, x ≤ now) →
        q'.catchUp now = timer.advance now r := by
  obtain ⟨hlast, hfits⟩ := List.forall_mem_cons.1 hfits
  obtain ⟨r, t, hr, hfollows, ht⟩ := (Follows.refl hlast).run hrun hsorted hfits
  exact ⟨r, hr, fun now hnow hle => hfollows.catchUp_eq (hle t (List.mem_cons.2 ht)) hnow⟩

/-- A packet arrives, and it is taken before an update is due. -/
theorem catchUp_eq_timer_onePacket : ∃ q q' r : PIEState ℚ,
    new (ascii "packets=100,qdelay_ref=20,max_burst=150") 0 = .ok q ∧
      Run OnTimeCall q [.enqueue 5 0 ⟨5, [7]⟩, .dequeue 20 40] q' ∧
      Run TimedCall q [.enqueue 5 0 ⟨5, [7]⟩, .dequeue 20 40] r ∧
      q'.catchUp 100 = timer.advance 100 r := by
  have hrun : (do
      let q : PIEState ℚ ← new (ascii "packets=100,qdelay_ref=20,max_burst=150") 0
      let q₁ ← q.call (.enqueue 5 0 ⟨5, [7]⟩)
      let _ ← q₁.call (.dequeue 20 40)
      return decide (q.lastUpdate = 0) : Except Fault Bool) = .ok true := by
    decide +kernel
  obtain ⟨q, hnew, hrun⟩ := bind_eq_ok.1 hrun
  obtain ⟨q₁, hq₁, hrun⟩ := bind_eq_ok.1 hrun
  obtain ⟨q₂, hq₂, hrun⟩ := bind_eq_ok.1 hrun
  have hlast : q.lastUpdate = 0 := of_decide_eq_true (Except.ok.inj hrun)
  have hontime : q₁.OnTime (.dequeue 20 40) := by
    change 20 ≤ q₁.lastUpdate + 30
    omega
  have hcalls : Run OnTimeCall q [.enqueue 5 0 ⟨5, [7]⟩, .dequeue 20 40] q₂ :=
    .cons ⟨trivial, hq₁⟩ (.cons ⟨hontime, hq₂⟩ (.nil q₂))
  obtain ⟨r, hr, hcatch⟩ := catchUp_eq_timer hcalls (by rw [hlast]; decide) (by rw [hlast]; decide)
  exact ⟨q, q₂, r, hnew, hcalls, hr, hcatch 100 (by decide) (by rw [hlast]; decide)⟩

/-- Twenty-two packets arrive, ten are taken at once, and one 100 ms later. -/
def lateCalls : List (Op ℚ) :=
  List.replicate 22 (.enqueue 0 0 ⟨0, List.replicate 1504 7⟩) ++
    (List.replicate 10 (.dequeue 0 0) ++ [.dequeue 100 100])

/-- **A packet is taken late:** the updates that are due at 30, 60 and 90 see the rate that is
measured at 100, so the next packet is dropped for sure, which the timer would accept. -/
theorem late_dequeue : ∃ q q' r caught timed : PIEState ℚ,
    new (ascii "packets=100,qdelay_ref=20,max_burst=150") 0 = .ok q ∧
      Run (fun q op q' => q.call op = .ok q') q lateCalls q' ∧ Run TimedCall q lateCalls r ∧
      (q.lastUpdate :: lateCalls.flatMap Op.readings).Pairwise (· ≤ ·) ∧
      (∀ x ∈ q.lastUpdate :: lateCalls.flatMap Op.readings, x ≤ 100) ∧
      q'.catchUp 100 = .ok caught ∧ timer.advance 100 r = .ok timed ∧
      caught.dropProb = 1 ∧ timed.dropProb = 0 := by
  have hrun : (do
      let q : PIEState ℚ ← new (ascii "packets=100,qdelay_ref=20,max_burst=150") 0
      let q' ← lateCalls.foldlM call q
      let r ← lateCalls.foldlM timedCall q
      let caught ← q'.catchUp 100
      let timed ← timer.advance 100 r
      return decide (q.lastUpdate = 0 ∧ caught.dropProb = 1 ∧ timed.dropProb = 0) :
        Except Fault Bool) = .ok true := by
    decide +kernel
  obtain ⟨q, hnew, hrun⟩ := bind_eq_ok.1 hrun
  obtain ⟨q', hq', hrun⟩ := bind_eq_ok.1 hrun
  obtain ⟨r, hr, hrun⟩ := bind_eq_ok.1 hrun
  obtain ⟨caught, hcaught, hrun⟩ := bind_eq_ok.1 hrun
  obtain ⟨timed, htimed, hrun⟩ := bind_eq_ok.1 hrun
  obtain ⟨hlast, hprob⟩ := of_decide_eq_true (Except.ok.inj hrun)
  refine ⟨q, q', r, caught, timed, hnew, Run.of_foldlM hq', Run.of_foldlM hr, ?_, ?_, hcaught,
    htimed, hprob⟩
  · rw [hlast]
    decide +kernel
  · rw [hlast]
    decide +kernel

end PIEState

end V2Proxy
