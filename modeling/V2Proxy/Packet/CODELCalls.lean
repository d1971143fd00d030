/-
# A call of `CODELPacketQueue::dequeue`, step by step

`dequeueRecorded` is `dequeue` with a record of the packets that it takes and of the counts
that it calls `control_law` with; `law` stands for what `control_law` returns.  Without the
record, and with the `control_law` of the source, it is `dequeue` (`dequeue_eq_recorded`).

The packet that a call delivers is the first one that it takes, because the `r` of the
`while` loop, and that of the branch that starts dropping, hide the outer one.  So a call
delivers the last packet that it takes just if it takes only one
(`handsOverLast_iff`), and it discards packets that are not `ok_to_drop`.
-/

import V2Proxy.Foundations.Runs
import V2Proxy.Packet.CODELPacketQueue
import V2Proxy.Packet.DropHeadLimits

namespace V2Proxy

open Foundations

/-- A `dodequeue_result`, and the number of packets that the call took before. -/
structure Taken where
  number : ℕ
  packet : QueuedPacket
  okToDrop : Bool
deriving DecidableEq

/-- A queue in the middle of a call of `dequeue`. -/
structure Recorded where
  queue : CODELPacketQueue
  /-- the results of `dodequeue` -/
  taken : List Taken := []
  /-- the packets taken so far and the count, for each call of `control_law` -/
  laws : List (ℕ × UInt32) := []

namespace Recorded

variable (law : CODELPacketQueue → ℕ → UInt32 → ℕ)

/-- `CODELPacketQueue::dodequeue`. -/
def dodequeue (s : Recorded) (now : ℕ) : Except Fault (Taken × Recorded) := do
  let (p, okToDrop, q) ← s.queue.dodequeue now
  let r : Taken := { number := s.taken.length, packet := p, okToDrop := okToDrop }
  return (r, { s with queue := q, taken := s.taken ++ [r] })

/-- What follows `dodequeue` in the `while` loop. -/
def countDrop (s : Recorded) (r : Taken) : Recorded :=
  let q := { s.queue with count := s.queue.count + 1 }
  if r.okToDrop then
    { s with
      queue := { q with dropNext := law q q.dropNext q.count }
      laws := s.laws ++ [(s.taken.length, q.count)] }
  else { s with queue := { q with dropping := false } }

/-- A round of the `while` loop of `dequeue`. -/
def dropStep (now : ℕ) (s : Recorded) : Except Fault (Recorded ⊕ Recorded) :=
  if s.queue.dropNext ≤ now ∧ s.queue.dropping = true then do
    let (r, s) ← s.dodequeue now
    return .inl (s.countDrop law r)
  else return .inr s

/-- `CODELPacketQueue::dequeue` when it starts dropping. -/
def startDropping (s : Recorded) (now : ℕ) : Except Fault Recorded := do
  let (_, s) ← s.dodequeue now
  let q := s.queue
  let delta := q.count - q.lastcount
  let count := if 1 < delta ∧ sizeSub now q.dropNext < (16 * q.interval).toNat then delta else 1
  return { s with
    queue := { q with
      dropping := true
      count := count
      dropNext := law q now count
      lastcount := count }
    laws := s.laws ++ [(s.taken.length, count)] }

variable {law} {s s' : Recorded} {r : Taken} {now : ℕ}

/-- What a recorded `dodequeue` is. -/
theorem dodequeue_eq_ok (h : s.dodequeue now = .ok (r, s')) :
    s.queue.dodequeue now = .ok (r.packet, r.okToDrop, s'.queue) ∧ r.number = s.taken.length ∧
      s'.taken = s.taken ++ [r] ∧ s'.laws = s.laws := by
  obtain ⟨⟨p, okToDrop, q⟩, hq, h⟩ := bind_eq_ok.1 h
  cases h
  exact ⟨hq, rfl, rfl, rfl⟩

/-- **What a round of the loop does when it goes on.** -/
theorem dropStep_next (h : dropStep law now s = .ok (.inl s')) :
    (s.queue.dropNext ≤ now ∧ s.queue.dropping = true) ∧
      ∃ r s₁, s.dodequeue now = .ok (r, s₁) ∧ s' = s₁.countDrop law r := by
  rw [dropStep] at h
  split_ifs at h with hdrop
  · obtain ⟨⟨r, s₁⟩, hs₁, h⟩ := bind_eq_ok.1 h
    cases h
    exact ⟨hdrop, r, s₁, hs₁, rfl⟩
  · cases h

/-- The last round of the loop: no drop is due, or the queue has stopped dropping. -/
theorem dropStep_leave (h : dropStep law now s = .ok (.inr s')) :
    s' = s ∧ ¬ (s.queue.dropNext ≤ now ∧ s.queue.dropping = true) := by
  rw [dropStep] at h
  split_ifs at h with hdrop
  · obtain ⟨_, -, h⟩ := bind_eq_ok.1 h
    cases h
  · cases h
    exact ⟨rfl, hdrop⟩

/-- Counting a drop takes nothing off. -/
@[simp] theorem countDrop_taken (s : Recorded) (r : Taken) :
    (s.countDrop law r).taken = s.taken := by
  unfold countDrop
  dsimp only
  split_ifs <;> rfl

/-- Nor does it touch the packets. -/
@[simp] theorem countDrop_base (s : Recorded) (r : Taken) :
    (s.countDrop law r).queue.toDroppingPacketQueue = s.queue.toDroppingPacketQueue := by
  unfold countDrop
  dsimp only
  split_ifs <;> rfl

/-- Only a packet that may be dropped keeps the queue dropping. -/
theorem of_countDrop_dropping (h : (s.countDrop law r).queue.dropping = true) :
    r.okToDrop = true := by
  unfold countDrop at h
  dsimp only at h
  split_ifs at h with hok
  exact hok

/-- The `while` loop of `dequeue`. -/
def dropLoop (law : CODELPacketQueue → ℕ → UInt32 → ℕ) (now : ℕ) : Loop Fault Recorded Recorded where
  step := dropStep law now
  measure s := s.queue.internalQueue.length
  decreases h := by
    obtain ⟨-, r, s₁, hs₁, rfl⟩ := dropStep_next h
    obtain ⟨hq, -⟩ := dodequeue_eq_ok hs₁
    rw [(CODELPacketQueue.dodequeue_eq_ok hq).1, countDrop_base]
    exact Nat.lt_succ_self _

/-- `CODELPacketQueue::dequeue` while `dropping_`. -/
def dequeueDropping (law : CODELPacketQueue → ℕ → UInt32 → ℕ) (s : Recorded) (now : ℕ)
    (okToDrop : Bool) : Except Fault Recorded :=
  (dropLoop law now).run
    (if okToDrop then s else { s with queue := { s.queue with dropping := false } })

end Recorded

namespace CODELPacketQueue

variable {q : CODELPacketQueue}

/-- `CODELPacketQueue::dequeue`, with its record. -/
def dequeueRecorded (law : CODELPacketQueue → ℕ → UInt32 → ℕ) (q : CODELPacketQueue) :
    Except Fault (Taken × Recorded) := do
  let now := q.clock.head
  let (r, s) ← Recorded.dodequeue { queue := { q with clock := q.clock.tail } } now
  if s.queue.dropping = true then
    let s ← s.dequeueDropping law now r.okToDrop
    return (r, s)
  else if r.okToDrop = true then
    let s ← s.startDropping law now
    return (r, s)
  else return (r, s)

/-- The loop without the record. -/
theorem run_dropLoop_recorded (s : Recorded) (now : ℕ) :
    (dropLoop now).run s.queue =
      (Recorded.dropLoop controlLaw now).run s >>= fun s => .ok s.queue := by
  refine Loop.run_simulate (I := fun _ => True) (F := Recorded.queue)
    (fun s e _ he => ?_) (fun s s' _ hn => ⟨trivial, ?_⟩) (fun s x _ hx => ?_) trivial
  · change dropStep now s.queue = _
    change Recorded.dropStep controlLaw now s = _ at he
    rw [Recorded.dropStep] at he
    rw [dropStep]
    split_ifs at he ⊢
    · rw [Recorded.dodequeue] at he
      rcases hq : s.queue.dodequeue now with e' | ⟨p, okToDrop, q⟩
      · rw [hq] at he
        cases he
        rfl
      · rw [hq] at he
        cases he
    · cases he
  · change dropStep now s.queue = _
    obtain ⟨hdrop, r, s₁, hs₁, rfl⟩ := Recorded.dropStep_next hn
    rw [dropStep, if_pos hdrop, (Recorded.dodequeue_eq_ok hs₁).1, ok_bind]
    unfold Recorded.countDrop
    dsimp only
    split_ifs <;> rfl
  · obtain ⟨heq, hdrop⟩ := Recorded.dropStep_leave hx
    rw [heq]
    refine Loop.run_of_leave ?_
    change dropStep now s.queue = _
    rw [dropStep, if_neg hdrop]
    rfl

/-- Recording changes nothing while the queue drops. -/
theorem dequeueDropping_recorded (s : Recorded) (now : ℕ) (okToDrop : Bool) :
    s.queue.dequeueDropping now okToDrop =
      s.dequeueDropping controlLaw now okToDrop >>= fun s => .ok s.queue := by
  cases okToDrop with
  | true => exact run_dropLoop_recorded s now
  | false => exact run_dropLoop_recorded { s with queue := { s.queue with dropping := false } } now

/-- **`dequeue` is the recorded call without its record.** -/
theorem dequeue_eq_recorded (q : CODELPacketQueue) :
    q.dequeue = (q.dequeueRecorded controlLaw).map fun (r, s) => (r.packet, s.queue) := by
  rw [dequeue, dequeueRecorded, Recorded.dodequeue]
  dsimp only
  rcases dodequeue { q with clock := q.clock.tail } q.clock.head with e | ⟨p, okToDrop, q₁⟩
  · rfl
  simp only [ok_bind, pure_bind]
  by_cases hdropping : q₁.dropping = true
  · let s : Recorded :=
      { queue := q₁, taken := [{ number := 0, packet := p, okToDrop := okToDrop }] }
    have hloop : q₁.dequeueDropping q.clock.head okToDrop =
        s.dequeueDropping controlLaw q.clock.head okToDrop >>= fun s => .ok s.queue :=
      dequeueDropping_recorded s q.clock.head okToDrop
    rw [if_pos hdropping, if_pos hdropping, hloop]
    change _ = Except.map _ (s.dequeueDropping controlLaw q.clock.head okToDrop >>= _)
    rcases s.dequeueDropping controlLaw q.clock.head okToDrop with e | s₁ <;> rfl
  · rw [if_neg hdropping, if_neg hdropping]
    cases okToDrop with
    | true =>
        rw [if_pos rfl, if_pos rfl, startDropping, Recorded.startDropping, Recorded.dodequeue]
        dsimp only
        rcases q₁.dodequeue q.clock.head with e | ⟨p₂, okToDrop₂, q₂⟩ <;> rfl
    | false => rfl

open DroppingPacketQueue

variable {law : CODELPacketQueue → ℕ → UInt32 → ℕ} {p : QueuedPacket} {rest : List QueuedPacket}
  {now : ℕ}

/-- The packet in front may be dropped: it waited too long, more than 1504 bytes are left
behind it, and this has been so for an interval. -/
def MayDrop (q : CODELPacketQueue) (now : ℕ) (p : QueuedPacket) (rest : List QueuedPacket) : Prop :=
  q.target.toNat ≤ sizeSub now p.arrivalTime ∧ PACKET_SIZE < totalBytes rest ∧
    q.firstAboveTime ≠ 0 ∧ q.firstAboveTime ≤ now

instance (q : CODELPacketQueue) (now : ℕ) (p : QueuedPacket) (rest : List QueuedPacket) :
    Decidable (q.MayDrop now p rest) :=
  inferInstanceAs (Decidable (_ ∧ _))

/-- **What `dodequeue` does:** it takes the packet in front, and says whether it may be
dropped. -/
theorem dodequeue_eq (h : q.toDroppingPacketQueue.Sound) (hq : q.internalQueue = p :: rest)
    (now : ℕ) : ∃ base firstAboveTime,
      q.dodequeue now = .ok (p, decide (q.MayDrop now p rest),
        { q with toDroppingPacketQueue := base, firstAboveTime := firstAboveTime }) ∧
      base.Sound ∧ base.internalQueue = rest ∧
      (q.MayDrop now p rest → firstAboveTime = q.firstAboveTime) := by
  obtain ⟨base, hbase, hsound, hrest⟩ := h.dequeue hq
  have hnot : ∀ {firstAboveTime : ℕ}, ¬ q.MayDrop now p rest →
      Except.ok (ε := Fault) (p, false, { q with
        toDroppingPacketQueue := base, firstAboveTime := firstAboveTime }) =
      .ok (p, decide (q.MayDrop now p rest), { q with
        toDroppingPacketQueue := base, firstAboveTime := firstAboveTime }) := by
    intro firstAboveTime hno
    rw [decide_eq_false hno]
  rw [dodequeue, hbase, ok_bind]
  dsimp only
  by_cases hempty : base.internalQueue = []
  · have hno : ¬ q.MayDrop now p rest := fun hmay => by
      have hbytes := hmay.2.1
      rw [← hrest, hempty] at hbytes
      exact absurd hbytes (by decide)
    refine ⟨base, 0, ?_, hsound, hrest, fun hmay => absurd hmay hno⟩
    rw [if_pos hempty]
    exact hnot hno
  · have hsize : ({ q with toDroppingPacketQueue := base } : CODELPacketQueue).sizeBytes =
        .ok (totalBytes rest) := hrest ▸ hsound.sizeBytes
    rw [if_neg hempty, aboveTarget]
    by_cases hsojourn : sizeSub now p.arrivalTime < q.target.toNat
    · have hno : ¬ q.MayDrop now p rest := fun hmay => absurd hmay.1 (by omega)
      refine ⟨base, 0, ?_, hsound, hrest, fun hmay => absurd hmay hno⟩
      rw [if_pos hsojourn]
      exact hnot hno
    · rw [if_neg hsojourn, hsize, ok_bind]
      by_cases habove : PACKET_SIZE < totalBytes rest
      · by_cases hfirst : q.firstAboveTime = 0
        · have hno : ¬ q.MayDrop now p rest := fun hmay => hmay.2.2.1 hfirst
          refine ⟨base, (now + q.interval.toNat) % 2 ^ 64, ?_, hsound, hrest,
            fun hmay => absurd hmay hno⟩
          rw [pure_bind, decide_eq_true habove, if_neg (by decide), if_pos hfirst]
          exact hnot hno
        · refine ⟨base, q.firstAboveTime, ?_, hsound, hrest, fun _ => rfl⟩
          have hiff : q.MayDrop now p rest ↔ q.firstAboveTime ≤ now :=
            ⟨fun hmay => hmay.2.2.2, fun hle => ⟨by omega, habove, hfirst, hle⟩⟩
          rw [pure_bind, decide_eq_true habove, if_neg (by decide), if_neg hfirst,
            decide_eq_decide.2 hiff]
          rfl
      · have hno : ¬ q.MayDrop now p rest := fun hmay => habove hmay.2.1
        refine ⟨base, 0, ?_, hsound, hrest, fun hmay => absurd hmay hno⟩
        rw [pure_bind, decide_eq_false habove, if_pos rfl]
        exact hnot hno

end CODELPacketQueue

namespace Recorded

variable {law : CODELPacketQueue → ℕ → UInt32 → ℕ} {s s' : Recorded} {r r' : Taken} {now : ℕ}

/-- In the middle of a call whose first packet is `r`: it has not failed, and as long as it
is dropping a packet is left. -/
structure Going (r : Taken) (s : Recorded) : Prop where
  sound : s.queue.toDroppingPacketQueue.Sound
  taken : ∃ more, s.taken = r :: more ∧ ∀ r' ∈ more, r'.number ≠ 0
  nonempty : s.queue.dropping = true → s.queue.internalQueue ≠ []

/-- The next packet is taken. -/
theorem Going.dodequeue (h : Going r s) (hne : s.queue.internalQueue ≠ []) (now : ℕ) :
    ∃ r' s₁, s.dodequeue now = .ok (r', s₁) ∧ s₁.queue.toDroppingPacketQueue.Sound ∧
      (∃ more, s₁.taken = r :: more ∧ ∀ r' ∈ more, r'.number ≠ 0) ∧
      s₁.taken.length = s.taken.length + 1 ∧
      (r'.okToDrop = true → s₁.queue.internalQueue ≠ []) := by
  obtain ⟨p, rest, hq⟩ := List.exists_cons_of_ne_nil hne
  obtain ⟨base, firstAboveTime, hdodequeue, hsound, hrest, -⟩ :=
    CODELPacketQueue.dodequeue_eq h.sound hq now
  obtain ⟨more, htaken, hnumbers⟩ := h.taken
  have hpos : s.taken.length ≠ 0 := by
    rw [htaken]
    exact Nat.succ_ne_zero _
  let r' : Taken :=
    { number := s.taken.length, packet := p, okToDrop := decide (s.queue.MayDrop now p rest) }
  have htaken' : s.taken ++ [r'] = r :: (more ++ [r']) := by rw [htaken, List.cons_append]
  refine ⟨r', { s with
    queue := { s.queue with toDroppingPacketQueue := base, firstAboveTime := firstAboveTime }
    taken := s.taken ++ [r'] }, ?_, ?_, ⟨more ++ [r'], htaken', fun t ht => ?_⟩, List.length_append,
    fun hok => ?_⟩
  · rw [Recorded.dodequeue, hdodequeue]
    rfl
  · exact hsound
  · rcases List.mem_append.1 ht with ht | ht
    · exact hnumbers t ht
    · rw [List.mem_singleton.1 ht]
      exact hpos
  · exact (CODELPacketQueue.dodequeue_eq_ok hdodequeue).2 hok

/-- **A round of the loop does not fail.** -/
theorem Going.dropStep (law : CODELPacketQueue → ℕ → UInt32 → ℕ) (h : Going r s) (now : ℕ) :
    dropStep law now s = .ok (.inr s) ∨
      ∃ s', dropStep law now s = .ok (.inl s') ∧ Going r s' ∧
        s.taken.length < s'.taken.length := by
  rw [Recorded.dropStep]
  by_cases hdrop : s.queue.dropNext ≤ now ∧ s.queue.dropping = true
  · obtain ⟨r', s₁, hs₁, hsound, htaken, hlength, hleft⟩ := h.dodequeue (h.nonempty hdrop.2) now
    rw [if_pos hdrop, hs₁, ok_bind]
    refine Or.inr ⟨_, rfl, ⟨?_, ?_, fun hdropping => ?_⟩, ?_⟩
    · rw [countDrop_base]
      exact hsound
    · rw [countDrop_taken]
      exact htaken
    · rw [countDrop_base]
      exact hleft (of_countDrop_dropping hdropping)
    · rw [countDrop_taken, hlength]
      exact Nat.lt_succ_self _
  · rw [if_neg hdrop]
    exact Or.inl rfl

/-- The loop goes on as long as it has to, and returns. -/
theorem Going.run_dropLoop (law : CODELPacketQueue → ℕ → UInt32 → ℕ) (h : Going r s) (now : ℕ) :
    ∃ s', (dropLoop law now).run s = .ok s' ∧ Going r s' ∧ s.taken.length ≤ s'.taken.length := by
  refine Loop.run_total (I := fun s₁ => Going r s₁ ∧ s.taken.length ≤ s₁.taken.length)
    (fun s₁ hs₁ => ?_) ⟨h, Nat.le_refl _⟩
  rcases hs₁.1.dropStep law now with hstep | ⟨s₂, hstep, hs₂, hlt⟩
  · exact Or.inl ⟨s₁, hstep, hs₁⟩
  · exact Or.inr ⟨s₂, hstep, hs₂, hs₁.2.trans hlt.le⟩

/-- The loop takes a packet just if it is time to drop one. -/
theorem dequeueDropping_going (law : CODELPacketQueue → ℕ → UInt32 → ℕ)
    (hsound : s.queue.toDroppingPacketQueue.Sound)
    (htaken : ∃ more, s.taken = r :: more ∧ ∀ r' ∈ more, r'.number ≠ 0)
    (hdropping : s.queue.dropping = true) (now : ℕ) (okToDrop : Bool)
    (hleft : okToDrop = true → s.queue.internalQueue ≠ []) :
    ∃ s', s.dequeueDropping law now okToDrop = .ok s' ∧ Going r s' ∧
      (okToDrop = true ∧ s.queue.dropNext ≤ now → s.taken.length < s'.taken.length) ∧
      (¬ (okToDrop = true ∧ s.queue.dropNext ≤ now) → s'.taken = s.taken) := by
  have hleaves : ∀ {s : Recorded}, ¬ (s.queue.dropNext ≤ now ∧ s.queue.dropping = true) →
      (dropLoop law now).run s = .ok s := by
    intro s hdrop
    refine Loop.run_of_leave ?_
    change Recorded.dropStep law now s = _
    rw [Recorded.dropStep, if_neg hdrop]
    rfl
  rw [Recorded.dequeueDropping]
  cases okToDrop with
  | true =>
      have h : Going r s := ⟨hsound, htaken, fun _ => hleft rfl⟩
      rw [if_pos rfl]
      by_cases hnext : s.queue.dropNext ≤ now
      · rcases h.dropStep law now with hstep | ⟨s₁, hstep, hs₁, hlt⟩
        · exact absurd ⟨hnext, hdropping⟩ (dropStep_leave hstep).2
        · obtain ⟨s', hs', hgoing, hle⟩ := hs₁.run_dropLoop law now
          exact ⟨s', (Loop.run_of_next hstep).trans hs', hgoing, fun _ => by omega,
            fun hno => absurd ⟨rfl, hnext⟩ hno⟩
      · exact ⟨s, hleaves fun hboth => hnext hboth.1, h, fun hboth => absurd hboth.2 hnext,
          fun _ => rfl⟩
  | false =>
      rw [if_neg (by decide)]
      exact ⟨_, hleaves fun hboth => Bool.false_ne_true hboth.2,
        ⟨hsound, htaken, fun hd => absurd hd Bool.false_ne_true⟩,
        fun hboth => absurd hboth.1 Bool.false_ne_true, fun _ => rfl⟩

end Recorded

namespace CODELPacketQueue

variable {law : CODELPacketQueue → ℕ → UInt32 → ℕ} {q : CODELPacketQueue} {p : QueuedPacket}
  {rest : List QueuedPacket}

/-- **What a call of `dequeue` does to a sound queue with a packet:** it returns, delivers
the packet in front, and takes others just if it drops. -/
theorem dequeueRecorded_spec (h : q.toDroppingPacketQueue.Sound) (hq : q.internalQueue = p :: rest)
    (law : CODELPacketQueue → ℕ → UInt32 → ℕ) :
    ∃ r s, q.dequeueRecorded law = .ok (r, s) ∧ s.queue.toDroppingPacketQueue.Sound ∧
      r = { number := 0, packet := p, okToDrop := decide (q.MayDrop q.clock.head p rest) } ∧
      ∃ more, s.taken = r :: more ∧ (∀ r' ∈ more, r'.number ≠ 0) ∧
        (more = [] ↔ ¬ (q.MayDrop q.clock.head p rest ∧
          (q.dropping = true → q.dropNext ≤ q.clock.head))) := by
  obtain ⟨base, firstAboveTime, hdodequeue, hsound, hrest, -⟩ :=
    dodequeue_eq (q := { q with clock := q.clock.tail }) h hq q.clock.head
  have hleft := (dodequeue_eq_ok hdodequeue).2
  change _ = Except.ok (p, decide (q.MayDrop q.clock.head p rest), _) at hdodequeue
  set q₁ : CODELPacketQueue := { q with
    toDroppingPacketQueue := base, firstAboveTime := firstAboveTime, clock := q.clock.tail } with hq₁
  set r : Taken :=
    { number := 0, packet := p, okToDrop := decide (q.MayDrop q.clock.head p rest) } with hr
  let s : Recorded := { queue := q₁, taken := [r] }
  have hfirst : Recorded.dodequeue { queue := { q with clock := q.clock.tail } } q.clock.head =
      .ok (r, s) := by
    rw [Recorded.dodequeue, hdodequeue]
    rfl
  have htaken : ∃ more, s.taken = r :: more ∧ ∀ r' ∈ more, r'.number ≠ 0 :=
    ⟨[], rfl, fun _ ht => (List.not_mem_nil ht).elim⟩
  rw [dequeueRecorded]
  dsimp only
  rw [hfirst, ok_bind]
  dsimp only
  by_cases hdropping : q.dropping = true
  · obtain ⟨s', hs', hgoing, hmore, hsame⟩ := Recorded.dequeueDropping_going law (s := s) hsound
      htaken hdropping q.clock.head r.okToDrop hleft
    rw [if_pos (show s.queue.dropping = true from hdropping), hs', ok_bind]
    obtain ⟨more, hcons, hnumbers⟩ := hgoing.taken
    refine ⟨r, s', rfl, hgoing.sound, rfl, more, hcons, hnumbers, ?_⟩
    by_cases hdrop : q.MayDrop q.clock.head p rest ∧ q.dropNext ≤ q.clock.head
    · have hlt := hmore ⟨decide_eq_true hdrop.1, hdrop.2⟩
      rw [hcons] at hlt
      refine iff_of_false (fun hnil => ?_) fun hno => hno ⟨hdrop.1, fun _ => hdrop.2⟩
      rw [hnil] at hlt
      exact absurd hlt (Nat.lt_irrefl 1)
    · have htaken' := hsame fun hboth => hdrop ⟨of_decide_eq_true hboth.1, hboth.2⟩
      rw [hcons] at htaken'
      exact iff_of_true (List.cons.inj htaken').2 fun hboth => hdrop ⟨hboth.1, hboth.2 hdropping⟩
  · have hnotDropping : ¬ s.queue.dropping = true := hdropping
    rw [if_neg hnotDropping]
    by_cases hmay : q.MayDrop q.clock.head p rest
    · have hok : r.okToDrop = true := decide_eq_true hmay
      have hgoing : Recorded.Going r s := ⟨hsound, htaken, fun hd => absurd hd hdropping⟩
      obtain ⟨r', s₁, hs₁, hsound₁, ⟨more, hcons, hnumbers⟩, hlength, -⟩ :=
        hgoing.dodequeue (hleft hok) q.clock.head
      rw [if_pos hok, Recorded.startDropping, hs₁, ok_bind]
      refine ⟨r, _, rfl, hsound₁, rfl, more, hcons, hnumbers, iff_of_false (fun hnil => ?_)
        fun hno => hno ⟨hmay, fun hd => absurd hd hdropping⟩⟩
      rw [hcons, hnil] at hlength
      exact Nat.succ_ne_self 1 hlength.symm
    · have hok : ¬ r.okToDrop = true := fun hok => hmay (of_decide_eq_true hok)
      rw [if_neg hok]
      exact ⟨r, s, rfl, hsound, rfl, [], rfl, fun _ ht => (List.not_mem_nil ht).elim,
        iff_of_true rfl fun hboth => hmay hboth.1⟩

/-- **A sound queue with a packet can be dequeued.** -/
theorem dequeue_of_sound (h : q.toDroppingPacketQueue.Sound) (hne : q.internalQueue ≠ []) :
    ∃ p q', q.dequeue = .ok (p, q') ∧ q'.toDroppingPacketQueue.Sound := by
  obtain ⟨p, rest, hq⟩ := List.exists_cons_of_ne_nil hne
  obtain ⟨r, s, hs, hsound, -⟩ := dequeueRecorded_spec h hq controlLaw
  refine ⟨r.packet, s.queue, ?_, hsound⟩
  rw [dequeue_eq_recorded, hs]
  rfl

/-! ### Runs -/

/-- What is done to a queue: a packet arrives, or is taken when there is one.  `control_law`
may return anything. -/
inductive CallStep : CODELPacketQueue → DropHeadPacketQueue.Call → CODELPacketQueue → Prop
  | enqueue {q q' : CODELPacketQueue} {p : QueuedPacket} :
      p.contents.length < 2 ^ 31 → q.enqueue p = .ok q' → CallStep q (.enqueue p) q'
  | dequeue {q : CODELPacketQueue} {r : Taken} {s : Recorded}
      {law : CODELPacketQueue → ℕ → UInt32 → ℕ} :
      q.internalQueue ≠ [] → q.dequeueRecorded law = .ok (r, s) → CallStep q .dequeue s.queue

variable {q₀ : CODELPacketQueue} {calls : List DropHeadPacketQueue.Call}

/-- **The queue is sound in every run.** -/
theorem sound_run {args : Bytes} {clock : Stream' ℕ} (hnew : new args clock = .ok q₀)
    (hrun : Run CallStep q₀ calls q) : q.toDroppingPacketQueue.Sound := by
  refine hrun.invariant (I := fun q => q.toDroppingPacketQueue.Sound)
    (fun q c q' hq hstep => ?_) ?_
  · cases hstep with
    | enqueue hp hq' =>
        obtain ⟨base, hbase, hq'⟩ := bind_eq_ok.1 hq'
        cases hq'
        exact hq.acceptWithin hp hbase
    | @dequeue _ _ law hne hs =>
        obtain ⟨p, rest, hcons⟩ := List.exists_cons_of_ne_nil hne
        obtain ⟨r, s, hs', hsound, -⟩ := dequeueRecorded_spec hq hcons law
        rw [hs] at hs'
        cases hs'
        exact hsound
  · obtain ⟨base, target, interval, hbase, rfl⟩ := new_eq_ok hnew
    exact (DroppingPacketQueue.sound_new hbase).1

/-- The call discards only packets that may be dropped, and delivers the last packet that it
takes, so that it discards all those before it. -/
structure HandsOverLast (delivered : Taken) (taken : List Taken) : Prop where
  last : taken.getLast? = some delivered
  discarded : ∀ r ∈ taken, r ≠ delivered → r.okToDrop = true

/-- **A call delivers the last packet that it takes if and only if it does not drop:** the
packet in front may not be dropped, or the queue is dropping and the next drop is still to
come. -/
theorem handsOverLast_iff {args : Bytes} {clock : Stream' ℕ} (hnew : new args clock = .ok q₀)
    (hrun : Run CallStep q₀ calls q) (hq : q.internalQueue = p :: rest) :
    ∃ r s, q.dequeueRecorded controlLaw = .ok (r, s) ∧ q.dequeue = .ok (r.packet, s.queue) ∧
      (HandsOverLast r s.taken ↔ ¬ (q.MayDrop q.clock.head p rest ∧
        (q.dropping = true → q.dropNext ≤ q.clock.head))) := by
  obtain ⟨r, s, hs, -, rfl, more, htaken, hnumbers, hmore⟩ :=
    dequeueRecorded_spec (sound_run hnew hrun) hq controlLaw
  refine ⟨_, s, hs, ?_, ?_⟩
  · rw [dequeue_eq_recorded, hs]
    rfl
  · rw [htaken, ← hmore]
    constructor
    · rintro ⟨hlast, -⟩
      by_contra hne
      rw [List.getLast?_cons_of_ne_nil hne] at hlast
      exact hnumbers _ (List.mem_of_getLast? hlast) rfl
    · rintro rfl
      refine ⟨rfl, fun r' hr' hne => ?_⟩
      exact absurd (List.mem_singleton.1 hr') hne

open DropHeadPacketQueue (packetOf)

/-- Four packets of 800 bytes have arrived, and the clock is going to read 10 and 20. -/
theorem run_fourPackets :
    ∃ q₀ q : CODELPacketQueue,
      new (ascii "packets=10,target=1,interval=1") (fun n => 10 * (n + 1)) = .ok q₀ ∧
      Run CallStep q₀ (List.replicate 4 (.enqueue (packetOf 800))) q ∧
      q.internalQueue = List.replicate 4 (packetOf 800) ∧
      (do
        let (_, s) ← q.dequeueRecorded controlLaw
        let (r, s) ← s.queue.dequeueRecorded controlLaw
        return (r, s.taken) : Except Fault (Taken × List Taken)) =
          .ok ({ number := 0, packet := packetOf 800, okToDrop := true },
            [{ number := 0, packet := packetOf 800, okToDrop := true },
              { number := 1, packet := packetOf 800, okToDrop := false }]) := by
  have hrun : (do
      let q ← new (ascii "packets=10,target=1,interval=1") (fun n => 10 * (n + 1))
      let q ← q.enqueue (packetOf 800)
      let q ← q.enqueue (packetOf 800)
      let q ← q.enqueue (packetOf 800)
      let q ← q.enqueue (packetOf 800)
      return (q.internalQueue, do
        let (_, s) ← q.dequeueRecorded controlLaw
        let (r, s) ← s.queue.dequeueRecorded controlLaw
        return (r, s.taken)) : Except Fault (List QueuedPacket × Except Fault (Taken × List Taken))) =
      .ok (List.replicate 4 (packetOf 800),
        .ok ({ number := 0, packet := packetOf 800, okToDrop := true },
          [{ number := 0, packet := packetOf 800, okToDrop := true },
            { number := 1, packet := packetOf 800, okToDrop := false }])) := by
    decide +kernel
  obtain ⟨q₀, hnew, hrun⟩ := bind_eq_ok.1 hrun
  obtain ⟨q₁, hq₁, hrun⟩ := bind_eq_ok.1 hrun
  obtain ⟨q₂, hq₂, hrun⟩ := bind_eq_ok.1 hrun
  obtain ⟨q₃, hq₃, hrun⟩ := bind_eq_ok.1 hrun
  obtain ⟨q₄, hq₄, hrun⟩ := bind_eq_ok.1 hrun
  obtain ⟨hqueue, hcalls⟩ := Prod.mk.inj (Except.ok.inj hrun)
  have hlt : (packetOf 800).contents.length < 2 ^ 31 := by decide +kernel
  exact ⟨q₀, q₄, hnew, .cons (.enqueue hlt hq₁) (.cons (.enqueue hlt hq₂) (.cons (.enqueue hlt hq₃)
    (.cons (.enqueue hlt hq₄) (.nil _)))), hqueue, hcalls⟩

/-- The first of the four packets may not be dropped yet. -/
theorem handsOverLast_iff_fourPackets :
    ∃ q : CODELPacketQueue, ∃ r s, q.dequeueRecorded controlLaw = .ok (r, s) ∧
      q.dequeue = .ok (r.packet, s.queue) ∧
        (HandsOverLast r s.taken ↔
          ¬ (q.MayDrop q.clock.head (packetOf 800) (List.replicate 3 (packetOf 800)) ∧
            (q.dropping = true → q.dropNext ≤ q.clock.head))) := by
  obtain ⟨q₀, q, hnew, hrun, hqueue, -⟩ := run_fourPackets
  exact ⟨q, handsOverLast_iff hnew hrun hqueue⟩

/-- **A packet is discarded that may not be dropped,** and the one that may is delivered: the
second call takes two packets and delivers the first. -/
theorem first_packet_delivered :
    ∃ q₀ q : CODELPacketQueue, ∃ calls,
      new (ascii "packets=10,target=1,interval=1") (fun n => 10 * (n + 1)) = .ok q₀ ∧
      Run CallStep q₀ calls q ∧
      ∃ r s, q.dequeueRecorded controlLaw = .ok (r, s) ∧ q.dequeue = .ok (r.packet, s.queue) ∧
        s.taken = [r, { number := 1, packet := packetOf 800, okToDrop := false }] ∧
        ¬ HandsOverLast r s.taken := by
  obtain ⟨q₀, q, hnew, hrun, hqueue, hcalls⟩ := run_fourPackets
  obtain ⟨⟨r₁, s₁⟩, hs₁, hcalls⟩ := bind_eq_ok.1 hcalls
  obtain ⟨⟨r, s⟩, hs, hcalls⟩ := bind_eq_ok.1 hcalls
  obtain ⟨rfl, htaken⟩ := Prod.mk.inj (Except.ok.inj hcalls)
  have hne : q.internalQueue ≠ [] := by
    rw [hqueue]
    exact List.cons_ne_nil _ _
  refine ⟨q₀, s₁.queue, _, hnew, hrun.append (.cons (.dequeue hne hs₁) (.nil _)), _, s, hs, ?_,
    htaken, ?_⟩
  · rw [dequeue_eq_recorded, hs]
    rfl
  · rintro ⟨hlast, -⟩
    rw [htaken] at hlast
    exact absurd hlast (by decide)

end CODELPacketQueue

end V2Proxy
