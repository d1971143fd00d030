/-
# Packets are on time

`rationalize` asserts of a packet in transit that it arrived before the delivery
opportunity that it uses.  What carries this is `Ready`: no packet in the link arrived after
the next delivery time, because a packet is accepted only when the link has been
rationalized up to its arrival, and the delivery times do not decrease as long as their sums
do not wrap (`Ready.round`).  The readings of the clock may be in any order.

No event of the log is later than the next delivery time either, so with a clock that does
not go back the log is in order of time (`on_time`).

Nothing is assumed about the length of the trace: the index into it is an `unsigned int`,
and a trace of more than `2 ^ 32` lines starts over before its end.
-/

import V2Proxy.Frontend.Capacity
import V2Proxy.Frontend.TraceRuns

namespace V2Proxy

open Foundations

/-- The time that a line of the log begins with. -/
def LogEvent.time : LogEvent → ℕ
  | .arrival time _ => time
  | .opportunity time _ => time
  | .departure time _ _ => time

namespace LinkQueue

/-- The sums of the base and the entries of the schedule are below `2 ^ 64 - 1`. -/
def SumsFit (l : LinkQueue) : Prop := ∀ ms ∈ l.schedule, ms + l.baseTimestamp < npos

/-- They are throughout a call of `rationalize`. -/
def SumsFitDuring (now : ℕ) (l : LinkQueue) : Prop := ∀ l', Rounds now l l' → l'.SumsFit

/-- The last opportunity. -/
theorem SumsFitDuring.of_leave {l : LinkQueue} {now : ℕ} (hfit : l.SumsFit)
    (hleave : rationalizeStep now l = .ok (.inr l)) : l.SumsFitDuring now := by
  intro l' hrounds
  rcases Relation.ReflTransGen.cases_head hrounds with rfl | ⟨l₁, hnext, -⟩
  · exact hfit
  · rw [hleave] at hnext
    cases hnext

/-- One more opportunity. -/
theorem SumsFitDuring.of_next {l l' : LinkQueue} {now : ℕ} (hfit : l.SumsFit)
    (hnext : rationalizeStep now l = .ok (.inl l')) (h : l'.SumsFitDuring now) :
    l.SumsFitDuring now := by
  intro l₁ hrounds
  rcases Relation.ReflTransGen.cases_head hrounds with rfl | ⟨l₂, hnext', hrounds⟩
  · exact hfit
  · rw [hnext] at hnext'
    cases hnext'
    exact h l₁ hrounds

/-- Rounds of the inner loop of `rationalize`. -/
def SendRounds (thisDeliveryTime : ℕ) : ℕ × LinkQueue → ℕ × LinkQueue → Prop :=
  Relation.ReflTransGen fun s s' => sendStep thisDeliveryTime s = .ok (.inl s')

/-- Between two rounds of `rationalize`: the packets in the link can be delivered at the next
delivery time `t`, and no event of the log is later. -/
structure Ready (l : LinkQueue) (t : ℕ) : Prop where
  schedule_ne : l.schedule ≠ []
  sorted : l.schedule.Pairwise (· ≤ ·)
  index_lt : l.nextDelivery < l.schedule.length
  index_lt_word : l.nextDelivery < 2 ^ 32
  time : l.nextDeliveryTime = .ok t
  deliverable : l.Deliverable t
  log_le : ∀ e ∈ l.log, e.time ≤ t

variable {l l' : LinkQueue} {t now : ℕ}

theorem SamePlace.sumsFit (h : SamePlace l l') (hl : l'.SumsFit) : l.SumsFit := by
  intro ms hms
  have hlt := hl ms (h.schedule ▸ hms)
  rwa [h.baseTimestamp] at hlt

/-- The next delivery time, when the sums do not wrap. -/
def nextTime (l : LinkQueue) : ℕ :=
  if l.finished then npos else l.schedule.getD l.nextDelivery 0 + l.baseTimestamp

theorem nextDeliveryTime_eq (hlt : l.nextDelivery < l.schedule.length) (hfit : l.SumsFit) :
    l.nextDeliveryTime = .ok l.nextTime ∧ l.nextTime ≤ npos := by
  have hsum := hfit _ (List.getElem_mem hlt)
  unfold npos at hsum
  unfold LinkQueue.nextDeliveryTime nextTime
  by_cases hfinished : l.finished = true
  · rw [if_pos hfinished, if_pos hfinished]
    exact ⟨rfl, Nat.le_refl npos⟩
  · rw [if_neg hfinished, if_neg hfinished, List.getElem?_eq_getElem hlt,
      List.getD_eq_getElem _ _ hlt]
    dsimp only
    rw [Nat.mod_eq_of_lt (by omega), npos]
    exact ⟨rfl, by omega⟩

/-- The index moves on by one, or starts over. -/
theorem nextDelivery_advance (hlt : l.nextDelivery < l.schedule.length)
    (hword : l.nextDelivery < 2 ^ 32) :
    l.advance.schedule = l.schedule ∧ l.advance.nextDelivery < l.schedule.length ∧
      l.advance.nextDelivery < 2 ^ 32 ∧
      (l.advance.nextDelivery = 0 ∨ l.advance.nextDelivery = l.nextDelivery + 1) := by
  have hindex : l.advance.nextDelivery = ((l.nextDelivery + 1) % 2 ^ 32) % l.schedule.length ∧
      l.advance.schedule = l.schedule := by
    unfold LinkQueue.advance
    dsimp only
    split_ifs <;> exact ⟨rfl, rfl⟩
  obtain ⟨hindex, hschedule⟩ := hindex
  rw [hindex]
  refine ⟨hschedule, Nat.mod_lt _ (by omega), (Nat.mod_le _ _).trans_lt (Nat.mod_lt _ (by decide)), ?_⟩
  rcases Nat.lt_or_eq_of_le (Nat.succ_le_of_lt hword) with hsmall | hend
  · rw [show (l.nextDelivery + 1) % 2 ^ 32 = l.nextDelivery + 1 from Nat.mod_eq_of_lt hsmall]
    rcases Nat.lt_or_eq_of_le (Nat.succ_le_of_lt hlt) with hinside | hlast
    · exact Or.inr (Nat.mod_eq_of_lt hinside)
    · rw [show l.nextDelivery + 1 = l.schedule.length from hlast, Nat.mod_self]
      exact Or.inl rfl
  · rw [show l.nextDelivery + 1 = 2 ^ 32 from hend, Nat.mod_self, Nat.zero_mod]
    exact Or.inl rfl

/-- **The next delivery time does not decrease** where an opportunity is used. -/
theorem nextTime_advance (hsorted : l.schedule.Pairwise (· ≤ ·))
    (hlt : l.nextDelivery < l.schedule.length) (hword : l.nextDelivery < 2 ^ 32)
    (hfit : l.SumsFit) : l.nextTime ≤ l.advance.nextTime := by
  obtain ⟨-, hlt', -, hnext⟩ := nextDelivery_advance hlt hword
  have hperiod := getD_le_period hsorted hlt
  have hbase : (l.baseTimestamp + period l.schedule) % 2 ^ 64 =
      l.baseTimestamp + period l.schedule := by
    have hne : l.schedule ≠ [] := List.ne_nil_of_length_pos (by omega)
    have hlast := hfit _ (List.getLast_mem hne)
    have hperiod : period l.schedule = l.schedule.getLast hne := by
      rw [period, List.getLast?_eq_some_getLast hne, Option.getD_some]
    unfold npos at hlast
    exact Nat.mod_eq_of_lt (by omega)
  have hle := (nextDeliveryTime_eq hlt hfit).2
  have hmono : l.advance.nextDelivery = l.nextDelivery + 1 →
      l.schedule.getD l.nextDelivery 0 ≤ l.schedule.getD l.advance.nextDelivery 0 :=
    fun heq => getD_mono hsorted (by omega) hlt'
  unfold LinkQueue.advance at hnext hmono ⊢
  dsimp only at hnext hmono ⊢
  split_ifs at hnext hmono ⊢ with hwrap hrepeat
  · -- the new base is the time of the last entry
    unfold nextTime
    dsimp only
    rw [← period, hbase]
    split_ifs
    · exact Nat.le_refl npos
    · omega
  · exact hle
  · have hle' := hmono (hnext.resolve_left hwrap)
    unfold nextTime
    dsimp only at hle' ⊢
    split_ifs
    · exact Nat.le_refl npos
    · omega

theorem Ready.time_eq (h : l.Ready t) (hfit : l.SumsFit) : t = l.nextTime ∧ t ≤ npos := by
  obtain ⟨htime, hle⟩ := nextDeliveryTime_eq h.index_lt hfit
  rw [h.time] at htime
  cases htime
  exact ⟨rfl, hle⟩

/-- The departures that the inner loop logs are at the time of the opportunity. -/
theorem sendLoop_log {s s' : ℕ × LinkQueue} (h : (sendLoop t).run s = .ok s') :
    ∃ departures, s'.2.log = s.2.log ++ departures ∧ ∀ e ∈ departures, e.time = t := by
  have htransmit : ∀ (n : ℕ) (l : LinkQueue), ∃ departures,
      (transmit t n l).2.log = l.log ++ departures ∧ ∀ e ∈ departures, e.time = t := by
    intro n l
    simp only [transmit]
    split_ifs
    · refine ⟨_, rfl, fun e he => ?_⟩
      rw [List.mem_singleton.1 he]
      rfl
    · exact ⟨[], (List.append_nil _).symm, fun e he => absurd he List.not_mem_nil⟩
  refine Loop.run_post (L := sendLoop t)
    (I := fun s₁ => ∃ departures, s₁.2.log = s.2.log ++ departures ∧ ∀ e ∈ departures, e.time = t)
    (Q := fun s₁ => ∃ departures, s₁.2.log = s.2.log ++ departures ∧ ∀ e ∈ departures, e.time = t)
    (fun s₁ s₂ hs₁ hnext => ?_) (fun s₁ s₂ hs₁ hleave => ?_)
    ⟨[], (List.append_nil _).symm, fun e he => absurd he List.not_mem_nil⟩ h
  · obtain ⟨before, hlog, hbefore⟩ := hs₁
    obtain ⟨-, l, hload, -, rfl⟩ := sendStep_next hnext
    obtain ⟨departures, hlog', htimes⟩ := htransmit s₁.1 l
    have hloaded : l.log = s₁.2.log := by cases hload <;> rfl
    refine ⟨before ++ departures, ?_, fun e he => ?_⟩
    · rw [hlog', hloaded, hlog, List.append_assoc]
    · exact (List.mem_append.1 he).elim (hbefore e) (htimes e)
  · rwa [(sendStep_leave hleave).1]

/-- **A round leaves the link ready for the next delivery time,** and logs the opportunity
and its departures. -/
theorem Ready.round (h : l.Ready t) (hfit : l.SumsFit) (hfit' : l'.SumsFit)
    (hnext : rationalizeStep now l = .ok (.inl l')) :
    t ≤ now ∧ (∃ t', l'.Ready t' ∧ t ≤ t') ∧
      ∃ events, l'.log = l.log ++ events ∧ ∀ e ∈ events, e.time = t := by
  obtain ⟨time, bytesLeft, htime, hnow, hrun⟩ := rationalizeStep_next hnext
  rw [h.time] at htime
  cases htime
  obtain ⟨ht, -⟩ := h.time_eq hfit
  set l₁ := l.recordOpportunity t with hl₁
  have hplace : SamePlace l₁.advance l' := sendLoop_samePlace hrun
  obtain ⟨r, hr, hdeliverable, -⟩ := sendLoop_ok (s := (PACKET_SIZE, l₁.advance))
    (h.deliverable.advance t)
  rw [hrun] at hr
  cases hr
  obtain ⟨departures, hlog, htimes⟩ := sendLoop_log hrun
  obtain ⟨hschedule, hlt, hword, -⟩ := nextDelivery_advance (l := l₁) h.index_lt h.index_lt_word
  have hmono : l₁.nextTime ≤ l₁.advance.nextTime :=
    nextTime_advance h.sorted h.index_lt h.index_lt_word hfit
  have htime' := (nextDeliveryTime_eq (hschedule.symm ▸ hlt) (hplace.sumsFit hfit')).1
  have hle : t ≤ l₁.advance.nextTime := ht.trans_le hmono
  have hevents : l'.log = l.log ++ (.opportunity t PACKET_SIZE :: departures) := by
    obtain ⟨_, _, _, hadvance⟩ := l₁.advance_eq
    rw [hlog, hadvance]
    exact List.append_assoc _ _ _
  have htimes' : ∀ e ∈ .opportunity t PACKET_SIZE :: departures, LogEvent.time e = t := by
    intro e he
    rcases List.mem_cons.1 he with rfl | he
    · rfl
    · exact htimes e he
  have hs : l'.schedule = l.schedule := hplace.schedule.trans hschedule
  refine ⟨hnow, ⟨l₁.advance.nextTime, ⟨hs ▸ h.schedule_ne, hs ▸ h.sorted, ?_, ?_, ?_,
    hdeliverable.mono hle, fun e he => ?_⟩, hle⟩, _, hevents, htimes'⟩
  · rw [hs, hplace.nextDelivery]
    exact hlt
  · rw [hplace.nextDelivery]
    exact hword
  · rw [hplace.nextDeliveryTime]
    exact htime'
  · rw [hevents] at he
    rcases List.mem_append.1 he with he | he
    · exact (h.log_le e he).trans hle
    · exact (htimes' e he).trans_le hle

/-- The log is in order of time, and no event is later than `now`. -/
structure Logged (l : LinkQueue) (now : ℕ) : Prop where
  sorted : l.log.Pairwise fun e e' => e.time ≤ e'.time
  log_le : ∀ e ∈ l.log, e.time ≤ now

/-- Events of one time, not before those of the log, are added in order. -/
theorem Logged.append {events : List LogEvent} (h : l.Logged t)
    (hlog : l'.log = l.log ++ events) (htimes : ∀ e ∈ events, e.time = t) : l'.Logged t := by
  refine ⟨?_, fun e he => ?_⟩
  · rw [hlog]
    refine List.pairwise_append.2 ⟨h.sorted, ?_, fun e he e' he' => ?_⟩
    · exact List.pairwise_of_forall_mem_list fun e he e' he' => by rw [htimes e he, htimes e' he']
    · exact (h.log_le e he).trans_eq (htimes e' he').symm
  · rw [hlog] at he
    exact (List.mem_append.1 he).elim (h.log_le e) fun he => (htimes e he).le

theorem Logged.mono {now' : ℕ} (h : l.Logged now) (hle : now ≤ now') : l.Logged now' :=
  ⟨h.sorted, fun e he => (h.log_le e he).trans hle⟩

/-- **At every point of a call the link is ready,** and its log stays in order. -/
theorem Ready.rounds (h : l.Ready t) (hfit : l.SumsFitDuring now) (hrounds : Rounds now l l') :
    (∃ t', l'.Ready t') ∧ (l.Logged now → l'.Logged now) := by
  induction hrounds with
  | refl => exact ⟨⟨t, h⟩, id⟩
  | tail hrounds hnext ih =>
      obtain ⟨⟨t₁, h₁⟩, hlogged⟩ := ih
      obtain ⟨hnow, ⟨t₂, h₂, -⟩, events, hlog, htimes⟩ :=
        h₁.round (hfit _ hrounds) (hfit _ (hrounds.tail hnext)) hnext
      refine ⟨⟨t₂, h₂⟩, fun hl => Logged.mono ?_ hnow⟩
      exact Logged.append ⟨(hlogged hl).sorted, h₁.log_le⟩ hlog htimes

/-- Where a call returns, its rounds have been made. -/
theorem Rationalizes.rounds (h : Rationalizes now l l') : Rounds now l l' := by
  refine Returns.induction (f := rationalizeStep now)
    (motive := fun l r => ∀ l', r = .ok l' → Rounds now l l') (fun _ _ _ _ hr => by cases hr)
    (fun l x hx l' hr => ?_) (fun l l₁ r hnext _ ih l' hr => ?_) h l' rfl
  · cases hr
    rw [(rationalizeStep_leave hx).1]
    exact .refl
  · exact .head hnext (ih l' hr)

/-- **A call leaves the link ready,** for a time that is still to come. -/
theorem Ready.rationalizes (h : l.Ready t) (hfit : l.SumsFitDuring now)
    (hrat : Rationalizes now l l') :
    (∃ t', l'.Ready t' ∧ now < t') ∧ (l.Logged now → l'.Logged now) := by
  obtain ⟨⟨t', h'⟩, hlogged⟩ := h.rounds hfit hrat.rounds
  obtain ⟨t₁, ht₁, hlt⟩ := hrat.nextDeliveryTime
  rw [h'.time] at ht₁
  cases ht₁
  exact ⟨⟨t', h', hlt⟩, hlogged⟩

/-- **A packet that arrives is in time for the next delivery.** -/
theorem Ready.accept {contents : Bytes} (h : l.Ready t) (hpos : contents ≠ [])
    (hsize : contents.length ≤ PACKET_SIZE) (hnow : now ≤ t)
    (haccept : l.acceptPacket contents now = .ok l') :
    l'.Ready t ∧ (l.Logged now → l'.Logged now) := by
  have hdeliverable := h.deliverable.accept hpos hsize hnow haccept
  obtain ⟨q, -, rfl⟩ := acceptPacket_eq_ok haccept
  refine ⟨⟨h.schedule_ne, h.sorted, h.index_lt, h.index_lt_word, h.time, hdeliverable,
    fun e he => ?_⟩, fun hl => hl.append rfl fun e he => ?_⟩
  · rcases List.mem_append.1 he with he | he
    · exact h.log_le e he
    · rw [List.mem_singleton.1 he]
      exact hnow
  · rw [List.mem_singleton.1 he]
    rfl

/-- Rounds of the inner loop keep the packets deliverable. -/
theorem SendRounds.deliverable {s s' : ℕ × LinkQueue} (h : SendRounds t s s')
    (hs : s.2.Deliverable t) : s'.2.Deliverable t := by
  induction h with
  | refl => exact hs
  | tail _ hnext ih =>
      rcases sendStep_ok ih with hleave | ⟨s₁, hnext', hs₁, -⟩
      · rw [hleave] at hnext
        cases hnext
      · rw [hnext'] at hnext
        cases hnext
        exact hs₁

end LinkQueue

namespace Link

open LinkQueue

/-- A call of the event loop whose sums fit, and that reads no empty packet. -/
def FittingStep (k : Link) (c : Call) (k' : Link) : Prop :=
  Step k c k' ∧ (∀ contents now, c = .readPacket contents now → contents ≠ []) ∧
    ∀ now, c.reading = some now → k.queue.SumsFitDuring now

variable {k k' : Link} {c : Call} {calls : List Call} {t now : ℕ}

/-- **Every call leaves the link ready,** and logs its events in order if the clock has not
gone back. -/
theorem ready_step (now : ℕ) (h : k.queue.Ready t) (hstep : FittingStep k c k') :
    (∃ t', k'.queue.Ready t') ∧
      (k.queue.Logged now → (∀ r, c.reading = some r → now ≤ r) →
        k'.queue.Logged (c.reading.getD now)) := by
  obtain ⟨hstep, hpos, hfit⟩ := hstep
  cases hstep with
  | @readPacket contents r l _ hsize hrat haccept =>
      obtain ⟨⟨t', h', hlt⟩, hlogged⟩ := h.rationalizes (hfit r rfl) hrat
      obtain ⟨h'', hlogged'⟩ := h'.accept (hpos contents r rfl) hsize hlt.le haccept
      exact ⟨⟨t', h''⟩, fun hl hle => hlogged' (hlogged (hl.mono (hle r rfl)))⟩
  | @waitTime r _ _ hrat _ =>
      obtain ⟨⟨t', h', -⟩, hlogged⟩ := h.rationalizes (hfit r rfl) hrat
      exact ⟨⟨t', h'⟩, fun hl hle => hlogged (hl.mono (hle r rfl))⟩
  | writePackets =>
      refine ⟨⟨t, h.schedule_ne, h.sorted, h.index_lt, h.index_lt_word, h.time,
        ⟨h.deliverable.sound, h.deliverable.packets, fun hleft => ?_⟩, h.log_le⟩,
        fun hl _ => ⟨hl.sorted, hl.log_le⟩⟩
      obtain ⟨h₁, h₂, h₃, h₄⟩ := h.deliverable.inTransit hleft
      exact ⟨h₁, h₂, h₃, h₄⟩

theorem ready_run (now : ℕ) (h : k.queue.Ready t) (hrun : Run FittingStep k calls k') :
    (∃ t', k'.queue.Ready t') ∧
      (k.queue.Logged now → (now :: calls.filterMap Call.reading).Pairwise (· ≤ ·) →
        ∃ last ∈ now :: calls.filterMap Call.reading, k'.queue.Logged last) := by
  induction hrun generalizing t now with
  | nil k => exact ⟨⟨t, h⟩, fun hl _ => ⟨now, List.mem_cons_self, hl⟩⟩
  | @cons k k₁ k' c calls hstep _ ih =>
      obtain ⟨⟨t₁, h₁⟩, hlogged⟩ := ready_step now h hstep
      refine ⟨(ih now h₁).1, fun hl hsorted => ?_⟩
      cases hc : c.reading with
      | none =>
          rw [List.filterMap_cons_none hc] at hsorted ⊢
          rw [hc] at hlogged
          exact (ih now h₁).2 (hlogged hl fun r hr => by cases hr) hsorted
      | some r =>
          rw [List.filterMap_cons_some hc] at hsorted ⊢
          rw [hc] at hlogged
          obtain ⟨hle, hsorted⟩ := List.pairwise_cons.1 hsorted
          obtain ⟨last, hmem, hlast⟩ := (ih r h₁).2 (hlogged hl fun r' hr => by
            cases hr
            exact hle r List.mem_cons_self) hsorted
          exact ⟨last, List.mem_cons_of_mem _ hmem, hlast⟩

/-- **A new link is ready.** -/
theorem ready_start {type args filename trace : Bytes} {repeats : Bool} {timestamp : ℕ}
    {clock : Stream' ℕ} {draws : Stream' Float}
    (h : Link.start type args filename trace repeats timestamp clock draws = .ok k) :
    (∃ t, k.queue.Ready t) ∧ k.queue.Logged 0 := by
  obtain ⟨s, q, hs, hpackets, hsound, -, rfl⟩ := start_eq_ok h
  obtain ⟨hsorted, hperiod⟩ := loadSchedule_spec hs
  have hne : s ≠ [] := by
    rintro rfl
    exact absurd hperiod (by decide)
  have hlt : 0 < s.length := List.length_pos_iff.2 hne
  refine ⟨⟨(s[0] + timestamp) % 2 ^ 64, ⟨hne, hsorted, hlt, Nat.two_pow_pos 32, ?_,
    ⟨hsound, fun p hp => ?_, fun hleft => absurd rfl hleft⟩, fun e he => by cases he⟩⟩,
    .nil, fun e he => by cases he⟩
  · unfold LinkQueue.nextDeliveryTime
    dsimp only
    rw [if_neg (by decide), List.getElem?_eq_getElem hlt]
  · change p ∈ q.packets at hp
    rw [hpackets] at hp
    cases hp

/-- **Packets are on time, and the log is in order.**  At every point of every call, for any
readings of the clock: the assertions of `rationalize` hold of the packet in transit, which
arrived before the opportunity that it uses, so that its delay does not wrap.  If the clock
does not go back, the events are logged in order of time, in the middle of a call too. -/
theorem on_time {type args filename trace : Bytes} {repeats : Bool} {timestamp : ℕ}
    {clock : Stream' ℕ} {draws : Stream' Float}
    (hstart : Link.start type args filename trace repeats timestamp clock draws = .ok k)
    (hrun : Run FittingStep k calls k') :
    (∀ now l t s, k'.queue.SumsFitDuring now → Rounds now k'.queue l →
      l.nextDeliveryTime = .ok t → SendRounds t (PACKET_SIZE, (l.recordOpportunity t).advance) s →
        (∃ r, sendStep t s = .ok r) ∧ ∀ l₁, Loaded s.2 l₁ → l₁.InTransit t ∧
          sizeSub t l₁.packetInTransit.arrivalTime + l₁.packetInTransit.arrivalTime = t) ∧
      ((calls.filterMap Call.reading).Pairwise (· ≤ ·) →
        k'.queue.log.Pairwise fun e e' => e.time ≤ e'.time) ∧
      ∀ now l, k'.queue.SumsFitDuring now → Rounds now k'.queue l →
        (calls.filterMap Call.reading ++ [now]).Pairwise (· ≤ ·) →
          l.log.Pairwise fun e e' => e.time ≤ e'.time := by
  obtain ⟨⟨t₀, hk⟩, hlogged⟩ := ready_start hstart
  obtain ⟨⟨t₁, hk'⟩, hlogged'⟩ := ready_run 0 hk hrun
  have hlast : (calls.filterMap Call.reading).Pairwise (· ≤ ·) →
      ∃ last ∈ 0 :: calls.filterMap Call.reading, k'.queue.Logged last := fun hsorted =>
    hlogged' hlogged (List.pairwise_cons.2 ⟨fun r _ => Nat.zero_le r, hsorted⟩)
  refine ⟨fun now l t s hfit hrounds htime hs => ?_, fun hsorted => ?_,
    fun now l hfit hrounds hsorted => ?_⟩
  · obtain ⟨t₂, hl⟩ := (hk'.rounds hfit hrounds).1
    rw [hl.time] at htime
    cases htime
    have hdeliverable : s.2.Deliverable t := hs.deliverable (hl.deliverable.advance t)
    refine ⟨?_, fun l₁ hload => ?_⟩
    · rcases sendStep_ok hdeliverable with hleave | ⟨s', hnext, -⟩
      · exact ⟨_, hleave⟩
      · exact ⟨_, hnext⟩
    · have hin := (hload.deliverable hdeliverable).2
      have hle := (hl.time_eq (hfit l hrounds)).2
      refine ⟨hin, ?_⟩
      rw [sizeSub_of_le hin.arrived (by unfold npos at hle; omega), Nat.sub_add_cancel hin.arrived]
  · obtain ⟨last, -, hl⟩ := hlast hsorted
    exact hl.sorted
  · obtain ⟨hreadings, -, hle⟩ := List.pairwise_append.1 hsorted
    obtain ⟨last, hmem, hl⟩ := hlast hreadings
    have hnow : last ≤ now := by
      rcases List.mem_cons.1 hmem with rfl | hmem
      · exact Nat.zero_le now
      · exact hle last hmem now (List.mem_singleton_self now)
    exact ((hk'.rounds hfit hrounds).2 (hl.mono hnow)).sorted

set_option maxRecDepth 8000 in
/-- The sums of the two opportunities fit, and no packet is empty. -/
theorem fittingRun_twoLines :
    Run FittingStep { queue := twoLines } twoPackets
      { queue := ended, read := [[7], fullPacket], written := [[7], fullPacket] } := by
  have hfit : ∀ {l : LinkQueue}, l.schedule = [1, 3] → l.baseTimestamp ≤ 3 → l.SumsFit := by
    intro l hschedule hbase ms hms
    rw [hschedule] at hms
    have hle : ms ≤ 3 := by
      simp only [List.mem_cons, List.not_mem_nil, or_false] at hms
      omega
    rw [npos]
    omega
  refine .cons ⟨.readPacket (by decide) ⟨1, rfl⟩ rfl, fun contents now hc => ?_, fun r hr => ?_⟩
    (.cons ⟨.readPacket length_fullPacket.le ⟨1, rfl⟩ rfl, fun contents now hc => ?_, fun r hr => ?_⟩
      (.cons ⟨.waitTime (n := 2) ⟨2, rfl⟩ rfl, fun _ _ hc => (by cases hc), fun r hr => ?_⟩
        (.cons ⟨.waitTime (n := 1) ⟨2, rfl⟩ rfl, fun _ _ hc => (by cases hc), fun r hr => ?_⟩
          (.cons ⟨.writePackets, fun _ _ hc => (by cases hc), fun _ hr => (by cases hr)⟩ (.nil _)))))
  · cases hc
    decide
  · cases hr
    exact .of_leave (hfit rfl (by decide)) rfl
  · cases hc
    exact fullPacket_ne_nil
  · cases hr
    exact .of_leave (hfit rfl (by decide)) rfl
  · cases hr
    exact .of_next (hfit rfl (by decide)) rfl (.of_leave (hfit rfl (by decide)) rfl)
  · cases hr
    exact .of_next (hfit rfl (by decide)) rfl (.of_leave (hfit rfl (by decide)) rfl)

/-- Two packets, one of which takes two opportunities. -/
theorem on_time_twoLines :
    ∃ k' : Link,
      Run FittingStep { queue := twoLines } twoPackets k' ∧
      (∀ now l t s, k'.queue.SumsFitDuring now → Rounds now k'.queue l →
        l.nextDeliveryTime = .ok t →
          SendRounds t (PACKET_SIZE, (l.recordOpportunity t).advance) s →
            (∃ r, sendStep t s = .ok r) ∧ ∀ l₁, Loaded s.2 l₁ → l₁.InTransit t ∧
              sizeSub t l₁.packetInTransit.arrivalTime + l₁.packetInTransit.arrivalTime = t) ∧
      ([0, 0, 1, 3].Pairwise (· ≤ ·) → k'.queue.log.Pairwise fun e e' => e.time ≤ e'.time) ∧
      ∀ now l, k'.queue.SumsFitDuring now → Rounds now k'.queue l →
        ([0, 0, 1, 3] ++ [now]).Pairwise (· ≤ ·) → l.log.Pairwise fun e e' => e.time ≤ e'.time :=
  ⟨_, fittingRun_twoLines, on_time (start_twoLines (Stream'.const 0) (Stream'.const 0))
    fittingRun_twoLines⟩

end Link

end V2Proxy
