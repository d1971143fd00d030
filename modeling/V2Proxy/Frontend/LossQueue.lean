/-
# `LossQueue`, `IIDLoss` and `SwitchingLink`

`src/frontend/loss_queue.cc`: a queue that drops some of the packets it is given and passes the
others on at once.  An `IIDLoss` drops each packet by a draw.  A `SwitchingLink` is on and off in
turn, for times that are drawn, and drops what arrives while it is off; it switches only when it
is asked how long to wait, as often as the clock says.

The times at which a link switches are the partial sums of the draws, `switchTime`, and whether
it is on at a time is a fact about these (`OnAt`).  However often the link is asked, after it was
asked it is on just if it is `OnAt` the latest reading of the clock (`Switched.linkIsOn_iff`), and
it stays so until the wait that it answered is over.

`uint64_t` is reduced where it may wrap.  A draw is a rational number, for each of the two
processes, since both draw from one generator; the readings of the clock are arguments.
-/

import V2Proxy.Packet.Ferry
import Mathlib.Data.Rat.Floor
import Mathlib.Data.Stream.Init

namespace V2Proxy

open Foundations Poller
open scoped List

/-- A `LossQueue`, with the members of the derived class. -/
structure LossQueue (S : Type) where
  packetQueue : List Bytes := []
  loss : S

namespace LossQueue

variable {S : Type}

/-- `LossQueue::read_packet`, with the `drop_packet` of the derived class. -/
def readPacket (dropPacket : Bytes → S → Bool × S) (contents : Bytes) (q : LossQueue S) :
    LossQueue S :=
  let (dropped, loss) := dropPacket contents q.loss
  { packetQueue := if dropped then q.packetQueue else q.packetQueue ++ [contents], loss := loss }

/-- `LossQueue::write_packets`. -/
def writePackets (q : LossQueue S) : List Bytes × LossQueue S :=
  (q.packetQueue, { q with packetQueue := [] })

/-- `LossQueue::wait_time`. -/
def waitTime (q : LossQueue S) : ℕ := if q.packetQueue = [] then 2 ^ 16 - 1 else 0

/-- `LossQueue::pending_output`. -/
def pendingOutput (q : LossQueue S) : Bool := q.packetQueue ≠ []

end LossQueue

/-- `IIDLoss::drop_packet`, with what the distribution draws. -/
def IIDLoss.dropPacket (_ : Bytes) (draws : Stream' Bool) : Bool × Stream' Bool :=
  (draws.head, draws.tail)

/-- The members of a `SwitchingLink`. -/
structure SwitchingLink where
  linkIsOn : Bool := false
  /-- a `uint64_t` -/
  nextSwitchTime : ℕ
  /-- what the off process (`true`) and the on process would draw, one draw after another -/
  draws : Stream' (Bool → ℚ)

namespace SwitchingLink

/-- `bound`. -/
def bound (x : ℚ) : ℕ := if 2 ^ 30 < x then 2 ^ 30 else ⌊x⌋₊

/-- A draw is bounded. -/
theorem bound_le (x : ℚ) : bound x ≤ 2 ^ 30 := by
  rw [bound]
  split_ifs with h
  · exact le_rfl
  · exact Nat.floor_le_of_le (by exact_mod_cast not_lt.1 h)

/-- `SwitchingLink::drop_packet`. -/
def dropPacket (_ : Bytes) (s : SwitchingLink) : Bool × SwitchingLink := (!s.linkIsOn, s)

/-- A round of the loop of `SwitchingLink::wait_time`. -/
def switchStep (now : ℕ) (s : SwitchingLink) : Except Fault (SwitchingLink ⊕ SwitchingLink) :=
  if s.nextSwitchTime ≤ now then
    .ok (.inl {
      linkIsOn := !s.linkIsOn
      nextSwitchTime := (s.nextSwitchTime + bound (s.draws.head (!s.linkIsOn))) % 2 ^ 64
      draws := s.draws.tail })
  else .ok (.inr s)

/-- What `SwitchingLink::wait_time` returns once the link has switched, an `unsigned int`. -/
def waitAfter (now : ℕ) (q : LossQueue SwitchingLink) : ℕ :=
  if q.waitTime = 0 then 0
  else if 2 ^ 16 - 1 < sizeSub q.loss.nextSwitchTime now then 2 ^ 16 - 1
  else sizeSub q.loss.nextSwitchTime now

/-! ### The times at which a link switches -/

section Schedule

variable (start : ℕ) (draws : Stream' (Bool → ℚ))

/-- The time of each switch: the first one turns the link on, the next one off, and so on. -/
def switchTime : ℕ → ℕ
  | 0 => start
  | k + 1 => switchTime k + bound (draws.get k (k % 2 = 0))

/-- The link is on: it has switched last at an even place. -/
def OnAt (t : ℕ) : Prop :=
  ∃ k, switchTime start draws k ≤ t ∧ t < switchTime start draws (k + 1) ∧ k % 2 = 0

/-- The link after `k` switches. -/
structure Switched (k : ℕ) (s : SwitchingLink) : Prop where
  linkIsOn : s.linkIsOn = decide (k % 2 = 1)
  nextSwitchTime : s.nextSwitchTime = switchTime start draws k
  draws : s.draws = draws.drop k

variable {start draws}

/-- The switches are in order. -/
theorem switchTime_mono : Monotone (switchTime start draws) :=
  monotone_nat_of_le_succ fun _ => Nat.le_add_right _ _

/-- The next one is not far. -/
theorem switchTime_succ_le (k : ℕ) :
    switchTime start draws (k + 1) ≤ switchTime start draws k + 2 ^ 30 :=
  Nat.add_le_add_left (bound_le _) _

/-- A time lies between two switches only. -/
theorem eq_of_between {t j k : ℕ} (hj : switchTime start draws j ≤ t)
    (hj' : t < switchTime start draws (j + 1)) (hk : switchTime start draws k ≤ t)
    (hk' : t < switchTime start draws (k + 1)) : j = k := by
  rcases lt_trichotomy j k with h | h | h
  · have hle : switchTime start draws (j + 1) ≤ switchTime start draws k := switchTime_mono h
    omega
  · exact h
  · have hle : switchTime start draws (k + 1) ≤ switchTime start draws j := switchTime_mono h
    omega

variable {k now : ℕ} {s s' : SwitchingLink}

/-- **One switch.** -/
theorem Switched.step (h : Switched start draws k s) (hnow : now < 2 ^ 63)
    (hstep : switchStep now s = .ok (.inl s')) :
    switchTime start draws k ≤ now ∧ Switched start draws (k + 1) s' := by
  rw [switchStep] at hstep
  split_ifs at hstep with hdue
  · cases hstep
    rw [h.nextSwitchTime] at hdue
    have hon : (!s.linkIsOn) = decide (k % 2 = 0) := by
      rw [h.linkIsOn, ← decide_not]
      exact decide_eq_decide.2 (by omega)
    have hdraw : s.draws.head = draws.get k := by
      rw [h.draws, Stream'.head_drop]
    refine ⟨hdue, ?_, ?_, ?_⟩
    · rw [hon]
      exact decide_eq_decide.2 (by omega)
    · have hle := bound_le (draws.get k (k % 2 = 0))
      change (s.nextSwitchTime + bound (s.draws.head (!s.linkIsOn))) % 2 ^ 64 = _
      rw [hdraw, hon, h.nextSwitchTime, Nat.mod_eq_of_lt (by omega)]
      rfl
    · change s.draws.tail = _
      rw [h.draws, Stream'.tail_drop']
  · cases hstep

/-- **The loop of `wait_time` makes the switches that are due.** -/
theorem Switched.returns (h : Switched start draws k s) (hnow : now < 2 ^ 63)
    (hreturns : Returns (switchStep now) s (.ok s')) :
    ∃ k', k ≤ k' ∧ Switched start draws k' s' ∧ now < switchTime start draws k' ∧
      (k' = k ∨ switchTime start draws (k' - 1) ≤ now) := by
  refine Returns.induction (f := switchStep now)
    (motive := fun s r => ∀ k, Switched start draws k s → ∀ s', r = .ok s' →
      ∃ k', k ≤ k' ∧ Switched start draws k' s' ∧ now < switchTime start draws k' ∧
        (k' = k ∨ switchTime start draws (k' - 1) ≤ now))
    (fun _ _ _ _ _ _ hr => by cases hr) (fun s x hx k hs s' hr => ?_)
    (fun s s₁ r hnext _ ih k hs s' hr => ?_) hreturns k h s' rfl
  · cases hr
    rw [switchStep] at hx
    split_ifs at hx with hdue
    · cases hx
    · cases hx
      rw [hs.nextSwitchTime] at hdue
      exact ⟨k, le_rfl, hs, by omega, Or.inl rfl⟩
  · obtain ⟨hdue, hs₁⟩ := hs.step hnow hnext
    obtain ⟨k', hk, hs', hlt, hlast⟩ := ih (k + 1) hs₁ s' hr
    refine ⟨k', by omega, hs', hlt, Or.inr ?_⟩
    rcases hlast with rfl | hlast
    · exact hdue
    · exact hlast

/-- **The link is on just if the schedule says so,** from its last switch to its next one. -/
theorem Switched.linkIsOn_iff (h : Switched start draws k s) (hk : 0 < k) {t : ℕ}
    (hlast : switchTime start draws (k - 1) ≤ t) (hnext : t < switchTime start draws k) :
    s.linkIsOn = true ↔ OnAt start draws t := by
  have hsucc : k - 1 + 1 = k := Nat.sub_add_cancel hk
  rw [h.linkIsOn, decide_eq_true_iff]
  constructor
  · exact fun hodd => ⟨k - 1, hlast, hsucc.symm ▸ hnext, by omega⟩
  · rintro ⟨j, hj, hj', heven⟩
    have heq : j = k - 1 := eq_of_between hj hj' hlast (hsucc.symm ▸ hnext)
    omega

end Schedule

/-- What a call reads of the clock, and in how many rounds the loop of `wait_time` has to
return. -/
structure Reading where
  now : ℕ
  rounds : ℕ
  now_lt : now < 2 ^ 63

end SwitchingLink

/-- A queue that loses packets, the latest reading that `wait_time` had, the packets that were
read, each with that reading, and the packets written. -/
structure LossLink (S : Type) where
  queue : LossQueue S
  latest : Option ℕ := none
  read : List (Option ℕ × Bytes) := []
  written : List Bytes := []

namespace SwitchingLink

/-- `SwitchingLink::wait_time`. -/
def waitTime (a : Reading) (k : LossLink SwitchingLink) :
    Except (Option Fault) (ℕ × LossLink SwitchingLink) :=
  match iterate (switchStep a.now) a.rounds k.queue.loss with
  | none => .error none
  | some (.error e) => .error (some e)
  | some (.ok loss) =>
      let queue := { k.queue with loss := loss }
      .ok (waitAfter a.now queue,
        { k with queue := queue, latest := some (max a.now (k.latest.getD 0)) })

/-- The queue of a ferry of `mm-onoff`. -/
def ferryQueue : FerryQueue (LossLink SwitchingLink) Reading where
  readPacket _ contents k := .ok { k with
    queue := k.queue.readPacket dropPacket contents
    read := k.read ++ [(k.latest, contents)] }
  writePackets k := (k.queue.writePackets.1, { k with
    queue := k.queue.writePackets.2
    written := k.written ++ k.queue.writePackets.1 })
  waitTime := waitTime
  pendingOutput k := (k.queue.pendingOutput, k)
  finished _ := false

variable (start : ℕ) (draws : Stream' (Bool → ℚ))

/-- The link was on when it was last asked, before this packet was read. -/
def Kept (r : Option ℕ × Bytes) : Prop := ∃ t, r.1 = some t ∧ OnAt start draws t

open Classical in
/-- The packets that were read while the link was on. -/
noncomputable def kept (read : List (Option ℕ × Bytes)) : List Bytes :=
  (read.filter fun r => Kept start draws r).map Prod.snd

/-- Where the link is in its schedule: at its start, or between the last switch and the next. -/
inductive InSchedule (k : LossLink SwitchingLink) : Prop
  | start : (∀ t, k.latest = some t → t < switchTime start draws 0) →
      Switched start draws 0 k.queue.loss → InSchedule k
  | between (t n : ℕ) : k.latest = some t → Switched start draws (n + 1) k.queue.loss →
      switchTime start draws n ≤ t → t < switchTime start draws (n + 1) → InSchedule k

/-- Before its first switch a link is off. -/
theorem not_onAt {start : ℕ} {draws : Stream' (Bool → ℚ)} {t : ℕ}
    (h : t < switchTime start draws 0) : ¬ OnAt start draws t := by
  rintro ⟨j, hj, -, -⟩
  have hmono : switchTime start draws 0 ≤ switchTime start draws j := switchTime_mono (Nat.zero_le j)
  omega

/-- The wait ends when the link switches, at the latest. -/
theorem waitAfter_le {now : ℕ} {q : LossQueue SwitchingLink} (h : now ≤ q.loss.nextSwitchTime)
    (hlt : q.loss.nextSwitchTime < 2 ^ 64) :
    now + waitAfter now q ≤ q.loss.nextSwitchTime ∧ waitAfter now q ≤ 2 ^ 16 - 1 := by
  rw [waitAfter, sizeSub_of_le h hlt]
  split_ifs <;> omega

/-- What every call maintains. -/
structure Keeps (k : LossLink SwitchingLink) : Prop where
  inSchedule : InSchedule start draws k
  latest : ∀ t, k.latest = some t → t < 2 ^ 63
  kept : k.written ++ k.queue.packetQueue = kept start draws k.read

variable {start draws} {k k' : LossLink SwitchingLink} {a : Reading} {n : ℕ}

/-- The link is on just if it was, by its schedule, when it was last asked. -/
theorem InSchedule.linkIsOn_iff (h : InSchedule start draws k) (contents : Bytes) :
    k.queue.loss.linkIsOn = true ↔ Kept start draws (k.latest, contents) := by
  cases h with
  | start hlatest hs =>
      rw [hs.linkIsOn]
      refine iff_of_false (by decide) ?_
      rintro ⟨t, ht, hon⟩
      exact not_onAt (hlatest t ht) hon
  | between t n hlatest hs hlast hnext =>
      rw [hs.linkIsOn_iff (Nat.succ_pos n) hlast hnext]
      constructor
      · exact fun hon => ⟨t, hlatest, hon⟩
      · rintro ⟨t', ht', hon⟩
        obtain rfl := Option.some.inj (hlatest.symm.trans ht')
        exact hon

/-- What computing a wait leaves. -/
theorem waitTime_eq_ok (h : waitTime a k = .ok (n, k')) :
    ∃ loss, Returns (switchStep a.now) k.queue.loss (.ok loss) ∧
      n = waitAfter a.now { k.queue with loss := loss } ∧ k' = { k with
        queue := { k.queue with loss := loss }
        latest := some (max a.now (k.latest.getD 0)) } := by
  rw [waitTime] at h
  split at h
  · cases h
  · cases h
  · rename_i loss hloss
    cases h
    exact ⟨loss, ⟨a.rounds, hloss⟩, rfl, rfl⟩

/-- **Asking moves the link on in its schedule.** -/
theorem InSchedule.of_waitTime (h : InSchedule start draws k) (hk : waitTime a k = .ok (n, k')) :
    InSchedule start draws k' := by
  obtain ⟨loss, hloss, -, rfl⟩ := waitTime_eq_ok hk
  cases h with
  | start hlatest hs =>
      obtain ⟨m, -, hm, hlt, hlast⟩ := hs.returns a.now_lt hloss
      have hprevious : k.latest.getD 0 < switchTime start draws 0 ∨ k.latest.getD 0 = 0 := by
        rcases hk : k.latest with _ | t
        · exact Or.inr rfl
        · exact Or.inl (hlatest t hk)
      rcases m with _ | m
      · refine .start (fun t ht => ?_) hm
        obtain rfl := Option.some.inj ht
        rcases hprevious with h | h <;> omega
      · have hlast : switchTime start draws m ≤ a.now := hlast.resolve_left (Nat.succ_ne_zero m)
        have hmono : switchTime start draws 0 ≤ switchTime start draws m :=
          switchTime_mono (Nat.zero_le m)
        refine .between (max a.now (k.latest.getD 0)) m rfl hm ?_ ?_
        · omega
        · rcases hprevious with h | h <;> omega
  | between t n hlatest hs hlast hnext =>
      obtain ⟨m, hle, hm, hlt, hm'⟩ := hs.returns a.now_lt hloss
      obtain ⟨j, rfl⟩ : ∃ j, m = j + 1 := ⟨m - 1, by omega⟩
      have hprevious : k.latest.getD 0 = t := by rw [hlatest, Option.getD_some]
      have hmono : switchTime start draws (n + 1) ≤ switchTime start draws (j + 1) :=
        switchTime_mono hle
      refine .between (max a.now (k.latest.getD 0)) j rfl hm ?_ ?_
      · rcases hm' with heq | hj
        · obtain rfl : j = n := by omega
          omega
        · exact hj.trans (le_max_left _ _)
      · omega

/-- **The link is as its schedule says, until the wait is over.** -/
theorem InSchedule.until (h : InSchedule start draws k) (hstart : start < 2 ^ 63)
    (hk : waitTime a k = .ok (n, k')) (hlatest : ∀ t, k.latest = some t → t ≤ a.now) :
    n ≤ 2 ^ 16 - 1 ∧ ∀ t, a.now ≤ t → t < a.now + n →
      (k'.queue.loss.linkIsOn = true ↔ OnAt start draws t) := by
  have hschedule := h.of_waitTime hk
  obtain ⟨loss, -, rfl, rfl⟩ := waitTime_eq_ok hk
  have hmax : max a.now (k.latest.getD 0) = a.now := by
    rcases hprevious : k.latest with _ | t
    · exact max_eq_left (Nat.zero_le _)
    · exact max_eq_left (hlatest t hprevious)
  have hnow := a.now_lt
  rw [hmax] at hschedule
  cases hschedule with
  | start hlatest' hs =>
      have hnext : loss.nextSwitchTime = switchTime start draws 0 := hs.nextSwitchTime
      have hlt : a.now < switchTime start draws 0 := hlatest' _ rfl
      obtain ⟨hwait, hmost⟩ := waitAfter_le (q := { k.queue with loss := loss }) (hnext ▸ hlt.le)
        (show loss.nextSwitchTime < _ by rw [hnext, switchTime]; omega)
      refine ⟨hmost, fun t _ ht => ?_⟩
      rw [hs.linkIsOn]
      refine iff_of_false (by decide) (not_onAt ?_)
      rw [← hnext]
      exact ht.trans_le hwait
  | between t' j heq hs hlast hlt =>
      obtain rfl := Option.some.inj heq
      have hnext : loss.nextSwitchTime = switchTime start draws (j + 1) := hs.nextSwitchTime
      have hsucc : switchTime start draws (j + 1) ≤ _ := switchTime_succ_le j
      obtain ⟨hwait, hmost⟩ := waitAfter_le (q := { k.queue with loss := loss }) (hnext ▸ hlt.le)
        (show loss.nextSwitchTime < _ by rw [hnext]; omega)
      refine ⟨hmost, fun t hle ht => hs.linkIsOn_iff (Nat.succ_pos j) (hlast.trans hle) ?_⟩
      rw [← hnext]
      exact ht.trans_le hwait

/-- Waiting keeps the schedule. -/
theorem Keeps.of_waitTime (h : Keeps start draws k) (hk : waitTime a k = .ok (n, k')) :
    Keeps start draws k' := by
  have hschedule := h.inSchedule.of_waitTime hk
  obtain ⟨loss, -, -, rfl⟩ := waitTime_eq_ok hk
  refine ⟨hschedule, fun t ht => ?_, h.kept⟩
  obtain rfl := Option.some.inj ht
  refine max_lt a.now_lt ?_
  rcases hlatest : k.latest with _ | t
  · decide
  · exact h.latest t hlatest

/-- So does a packet that is read. -/
theorem Keeps.of_readPacket (h : Keeps start draws k) (contents : Bytes) : Keeps start draws { k with
    queue := k.queue.readPacket dropPacket contents
    read := k.read ++ [(k.latest, contents)] } := by
  have hschedule : InSchedule start draws { k with
      queue := k.queue.readPacket dropPacket contents
      read := k.read ++ [(k.latest, contents)] } := by
    cases h.inSchedule with
    | start hlatest hs => exact .start hlatest hs
    | between t n hlatest hs hlast hnext => exact .between t n hlatest hs hlast hnext
  refine ⟨hschedule, h.latest, ?_⟩
  have hon := h.inSchedule.linkIsOn_iff contents
  change k.written ++ (if (!k.queue.loss.linkIsOn) = true then k.queue.packetQueue
    else k.queue.packetQueue ++ [contents]) = _
  rw [SwitchingLink.kept, List.filter_append, List.map_append]
  by_cases hkept : Kept start draws (k.latest, contents)
  · rw [hon.2 hkept, if_neg (by decide), ← List.append_assoc, h.kept, List.filter_cons_of_pos
      (by simpa using hkept)]
    rfl
  · rw [Bool.eq_false_iff.2 (mt hon.1 hkept), if_pos (by decide), h.kept, List.filter_cons_of_neg
      (by simpa using hkept)]
    exact (List.append_nil _).symm

/-- So do packets that are written. -/
theorem Keeps.of_writePackets (h : Keeps start draws k) : Keeps start draws { k with
    queue := k.queue.writePackets.2
    written := k.written ++ k.queue.writePackets.1 } := by
  have hschedule : InSchedule start draws { k with
      queue := k.queue.writePackets.2
      written := k.written ++ k.queue.writePackets.1 } := by
    cases h.inSchedule with
    | start hlatest hs => exact .start hlatest hs
    | between t n hlatest hs hlast hnext => exact .between t n hlatest hs hlast hnext
  refine ⟨hschedule, h.latest, ?_⟩
  change (k.written ++ k.queue.packetQueue) ++ [] = _
  rw [List.append_nil, h.kept]

/-- A ferry can rely on a link that switches. -/
noncomputable def laws (start : ℕ) (draws : Stream' (Bool → ℚ)) : ferryQueue.Laws where
  inv := Keeps start draws
  read k := k.read.map Prod.snd
  written := LossLink.written
  held k := k.queue.packetQueue
  pending k := k.queue.packetQueue ≠ []
  drained _ := True
  lossless := False
  order {k} hk := by
    refine ⟨?_, False.elim⟩
    rw [hk.kept]
    exact List.filter_sublist.map Prod.snd
  readPacket {a contents k k'} hk h := by
    cases h
    refine ⟨hk.of_readPacket contents, List.map_append, rfl, fun hne => ?_⟩
    change (if _ then k.queue.packetQueue else k.queue.packetQueue ++ [contents]) ≠ []
    split_ifs
    · exact hne
    · exact List.append_ne_nil_of_left_ne_nil hne _
  writePackets hk := ⟨hk.of_writePackets, rfl, rfl, List.Sublist.refl _, id⟩
  waitTime {a n k k'} hk h := by
    have hk' := hk.of_waitTime h
    obtain ⟨loss, -, -, rfl⟩ := waitTime_eq_ok h
    exact ⟨hk', rfl, rfl⟩
  pendingOutput hk := ⟨hk, rfl, rfl, of_decide_eq_true, id⟩
  drained_of_not_pending _ _ := trivial
  drained_writePackets _ _ := trivial
  drained_readPacket _ h _ := by cases h

/-- **The ferry of a link that switches.**  The packets that it has written and those in the queue
are the packets that were read while the link was on, in order: on by the schedule, which only the
draws determine, at the latest reading that the loop had taken before it polled.  The loop never
sleeps past a switch while the clock does not go back: until a wait is over, the link is as its
schedule says. -/
theorem switching_ferry {start : ℕ} {draws : Stream' (Bool → ℚ)} (hstart : start < 2 ^ 63)
    {events : List (Reading × Option (Ferry.Handler → Report (Ferry.Input Reading)))}
    {x : State Ferry.Handler (Ferry (LossLink SwitchingLink))}
    (hrun : Run (Ferry.Continues ferryQueue)
      (Poller.start { queue := { queue := { loss := { nextSwitchTime := start, draws := draws } } } })
      events x) :
    x.shared.read = x.shared.queue.read.map Prod.snd ∧
    x.shared.written ++ x.shared.queue.queue.packetQueue = kept start draws x.shared.queue.read ∧
    (∀ reading n k', waitTime reading x.shared.queue = .ok (n, k') →
      (∀ t, x.shared.queue.latest = some t → t ≤ reading.now) →
        n ≤ 2 ^ 16 - 1 ∧ ∀ t, reading.now ≤ t → t < reading.now + n →
          (k'.queue.loss.linkIsOn = true ↔ OnAt start draws t)) ∧
    ∀ reading report, (∃ e, Ferry.round ferryQueue reading report x = .error e ∧ Ferry.Throws e) ∨
      ∃ r x', Ferry.round ferryQueue reading report x = .ok (r, x') ∧
        ∀ exitStatus, r = .Exit exitStatus → exitStatus = 0 := by
  have hkeeps : Keeps start draws
      { queue := { loss := { nextSwitchTime := start, draws := draws } } } :=
    ⟨.start (fun _ h => (by cases h)) ⟨rfl, rfl, rfl⟩, fun _ h => (by cases h), rfl⟩
  have hx := Ferry.holds_of_run (L := laws start draws) hkeeps rfl rfl hrun
  refine ⟨hx.inv.read, ?_, fun reading n k' hk hlatest => ?_, fun reading report => ?_⟩
  · rw [hx.inv.written]
    exact hx.inv.inv.kept
  · exact hx.inv.inv.inSchedule.until hstart hk hlatest
  · rcases Ferry.round_spec hx reading report with h | ⟨r, x', hr, -, hexit⟩
    · exact Or.inl h
    refine Or.inr ⟨r, x', hr, fun exitStatus h => ?_⟩
    rcases hexit exitStatus h with hzero | ⟨-, n, queue, -, hfinished⟩
    · exact hzero
    · cases hfinished

/-- A reading with two rounds. -/
def Reading.at (now : ℕ) (h : now < 2 ^ 63) : Reading := { now := now, rounds := 2, now_lt := h }

/-- Packets arrive at 0 and at 6, and there is one write, at 6. -/
def twoPackets : List (Reading × Option (Ferry.Handler → Report (Ferry.Input Reading))) :=
  [(.at 0 (by decide), some fun
      | .readTun => {
          revents := { ready := true }
          input := { reading := .at 0 (by decide), packet := some [7] } }
      | _ => { revents := {}, input := { reading := .at 0 (by decide) } }),
    (.at 6 (by decide), some fun
      | .readTun => {
          revents := { ready := true }
          input := { reading := .at 6 (by decide), packet := some [8] } }
      | .writeSibling => { revents := { ready := true }, input := { reading := .at 6 (by decide) } }
      | _ => { revents := {}, input := { reading := .at 6 (by decide) } })]

/-- A link that is on for five milliseconds, and off for five. -/
def fives : LossLink SwitchingLink :=
  { queue := { loss := { nextSwitchTime := 0, draws := fun _ _ => 5 } } }

/-- The first one of two packets is kept. -/
theorem switching_ferry_fives :
    ∃ x, Run (Ferry.Continues ferryQueue) (Poller.start { queue := fives }) twoPackets x ∧
      x.shared.read = [[7], [8]] ∧ x.shared.written = [[7]] ∧
      x.shared.written ++ x.shared.queue.queue.packetQueue =
        kept 0 (fun _ _ => 5) x.shared.queue.read := by
  obtain ⟨x, hrun, hread, hwritten⟩ : ∃ x, Run (Ferry.Continues ferryQueue)
      (Poller.start { queue := fives }) twoPackets x ∧
        x.shared.read = [[7], [8]] ∧ x.shared.written = [[7]] :=
    ⟨_, .cons ⟨.Success, rfl, by rintro _ ⟨⟩⟩ (.cons ⟨.Success, rfl, by rintro _ ⟨⟩⟩ (.nil _)), rfl,
      rfl⟩
  exact ⟨x, hrun, hread, hwritten, (switching_ferry (by decide) hrun).2.1⟩

end SwitchingLink

end V2Proxy
