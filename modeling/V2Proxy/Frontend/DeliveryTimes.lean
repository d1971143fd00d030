/-
# The delivery times of a link

The times that `rationalize` consumes are those of a schedule that repeats, or
that ends after its last entry.  The code keeps the index of the next entry and a
base that moves on at the end of a period; `Used` says what they are after `N`
opportunities, and `due` is the time of the next one.

`Delivering` is `Used`, with packets in the link that pass the assertions; with it
a call goes on exactly as long as `due` is not later than the clock.
-/

import V2Proxy.Frontend.Deliverable
import V2Proxy.Frontend.Link
import V2Proxy.Foundations.Periodic

namespace V2Proxy

open Foundations

namespace LinkQueue

variable {l l' : LinkQueue}

/-- The time of the opportunity that follows `N` others. -/
def due (s : List ℕ) (b : ℕ) (repeats : Bool) (N : ℕ) : ℕ :=
  if repeats = true ∨ N < s.length then periodic s b N else npos

/-- `N` opportunities of the schedule have been used. -/
structure Used (s : List ℕ) (b : ℕ) (repeats : Bool) (N : ℕ) (l : LinkQueue) : Prop where
  schedule : l.schedule = s
  repeats_eq : l.repeats = repeats
  consumed : l.consumed = (List.range N).map (periodic s b)
  running : repeats = true ∨ N < s.length → l.finished = false ∧
    l.nextDelivery = N % s.length ∧ l.baseTimestamp = b + N / s.length * period s
  ended : ¬(repeats = true ∨ N < s.length) → l.finished = true ∧ N = s.length

variable {s : List ℕ} {b : ℕ} {repeats : Bool} {N : ℕ}

theorem Used.samePlace (h : Used s b repeats N l) (hl : SamePlace l l') :
    Used s b repeats N l' := by
  refine ⟨hl.schedule.trans h.schedule, hl.repeats.trans h.repeats_eq,
    hl.consumed.trans h.consumed, fun hrun => ?_, fun hend => ?_⟩
  · rw [hl.finished, hl.nextDelivery, hl.baseTimestamp]
    exact h.running hrun
  · rw [hl.finished]
    exact h.ended hend

/-- **The next delivery is the one that is due.** -/
theorem Used.nextDeliveryTime (h : Used s b repeats N l) (hs : s ≠ [])
    (hrange : due s b repeats N ≤ npos) : l.nextDeliveryTime = .ok (due s b repeats N) := by
  rw [LinkQueue.nextDeliveryTime]
  by_cases hrun : repeats = true ∨ N < s.length
  · obtain ⟨hfinished, hnext, hbase⟩ := h.running hrun
    have hlt : N % s.length < s.length := Nat.mod_lt N (List.length_pos_iff.2 hs)
    have hdue : due s b repeats N = b + N / s.length * period s + s[N % s.length] := by
      rw [due, if_pos hrun, periodic, List.getD_eq_getElem _ _ hlt]
    have hsum : s[N % s.length] + (b + N / s.length * period s) < 2 ^ 64 := by
      rw [hdue, npos] at hrange
      omega
    rw [if_neg (by rw [hfinished]; decide), h.schedule, hnext, List.getElem?_eq_getElem hlt, hbase]
    dsimp only
    rw [Nat.mod_eq_of_lt hsum, hdue, Nat.add_comm]
  · rw [if_pos (h.ended hrun).1, due, if_neg hrun]

/-- **Using it leads to the next one.** -/
theorem Used.advance (h : Used s b repeats N l) (hs : s ≠ []) (hlength : s.length < 2 ^ 32)
    (hrun : repeats = true ∨ N < s.length) (hrange : periodic s b N < 2 ^ 64) :
    Used s b repeats (N + 1) (l.recordOpportunity (periodic s b N)).advance := by
  obtain ⟨hfinished, hnext, hbase⟩ := h.running hrun
  have hlt : N % s.length < s.length := Nat.mod_lt N (List.length_pos_iff.2 hs)
  have hsmall : N % s.length + 1 < 2 ^ 32 := by omega
  set l₁ := l.recordOpportunity (periodic s b N) with hl₁
  have hschedule : l₁.schedule = s := h.schedule
  have hrepeats : l₁.repeats = repeats := h.repeats_eq
  have hbase₁ : l₁.baseTimestamp = b + N / s.length * period s := hbase
  have hindex : ((l₁.nextDelivery + 1) % 2 ^ 32) % l₁.schedule.length = (N + 1) % s.length := by
    change ((l.nextDelivery + 1) % 2 ^ 32) % l.schedule.length = _
    rw [hnext, h.schedule, Nat.mod_eq_of_lt hsmall, Nat.mod_add_mod]
  have hconsumed : l₁.consumed = (List.range (N + 1)).map (periodic s b) := by
    rw [hl₁, LinkQueue.consumed, recordOpportunity, List.filterMap_append, List.range_succ,
      List.map_append, ← h.consumed]
    rfl
  rw [LinkQueue.advance, hindex]
  by_cases hwrap : (N + 1) % s.length = 0
  · obtain ⟨hdiv, htime⟩ := periodic_wrap (b := b) hs hwrap
    rw [if_pos hwrap]
    cases repeats with
    | true =>
        rw [if_pos hrepeats]
        refine ⟨hschedule, hrepeats, hconsumed, fun _ => ⟨hfinished, rfl, ?_⟩,
          fun hend => absurd (Or.inl rfl) hend⟩
        -- the base moves on to the time of the last entry
        change (l₁.baseTimestamp + l₁.schedule.getLast?.getD 0) % 2 ^ 64 = _
        rw [← htime, hbase₁, hschedule, Nat.add_assoc, ← period, ← Nat.add_one_mul, ← hdiv, ← htime,
          Nat.mod_eq_of_lt hrange]
    | false =>
        have hN : N < s.length := hrun.resolve_left (by decide)
        have hlast : N + 1 = s.length := by
          rcases Nat.lt_or_ge (N + 1) s.length with hlt' | hge
          · rw [Nat.mod_eq_of_lt hlt'] at hwrap
            omega
          · omega
        rw [if_neg (by rw [hrepeats]; decide)]
        refine ⟨hschedule, hrepeats, hconsumed, fun hrun' => ?_, fun _ => ⟨rfl, hlast⟩⟩
        have := hrun'.resolve_left (by decide)
        omega
  · obtain ⟨-, hdiv⟩ := periodic_succ hs hwrap
    rw [if_neg hwrap]
    refine ⟨hschedule, hrepeats, hconsumed, fun _ => ⟨hfinished, rfl, ?_⟩, fun hend => ?_⟩
    · rw [hdiv]
      exact hbase₁
    · have hN : N < s.length := hrun.resolve_left fun hr => hend (Or.inl hr)
      have hlast : N + 1 = s.length := by
        have := fun hlt' => hend (Or.inr hlt')
        omega
      rw [hlast, Nat.mod_self] at hwrap
      exact absurd rfl hwrap

/-- The opportunities are in order. -/
theorem due_mono (hsorted : s.Pairwise (· ≤ ·)) (hs : s ≠ []) (hb : b + period s < npos)
    (repeats : Bool) : Monotone (due s b repeats) := by
  intro i j hij
  by_cases hj : repeats = true ∨ j < s.length
  · have hi : repeats = true ∨ i < s.length := hj.imp_right fun h => hij.trans_lt h
    rw [due, due, if_pos hi, if_pos hj]
    exact periodic_mono hsorted hs b hij
  · rw [due, due, if_neg hj]
    by_cases hi : repeats = true ∨ i < s.length
    · have hlt : i < s.length := hi.resolve_left fun hr => hj (Or.inl hr)
      have hle := getD_le_period hsorted hlt
      rw [if_pos hi, periodic_of_lt hlt]
      omega
    · rw [if_neg hi]

/-- After any time there is an opportunity, or the end of the schedule. -/
theorem exists_lt_due (hs : s ≠ []) (hperiod : 0 < period s) (repeats : Bool) {now : ℕ}
    (hnow : now < npos) : ∃ j, now < due s b repeats j := by
  cases repeats with
  | true => exact ⟨_, by rw [due, if_pos (Or.inl rfl)]; exact lt_periodic hs hperiod now⟩
  | false => exact ⟨s.length, by rw [due, if_neg (by simp)]; exact hnow⟩

/-- A use of an opportunity does not touch the packets. -/
theorem Deliverable.advance {t : ℕ} (h : l.Deliverable t) (time : ℕ) :
    (l.recordOpportunity time).advance.Deliverable t := by
  obtain ⟨_, _, _, hadvance⟩ := (l.recordOpportunity time).advance_eq
  rw [hadvance]
  refine ⟨h.sound, h.packets, fun hleft => ?_⟩
  obtain ⟨h₁, h₂, h₃, h₄⟩ := h.inTransit hleft
  exact ⟨h₁, h₂, h₃, h₄⟩

/-- **A packet that arrives before the next opportunity can be delivered at it.** -/
theorem Deliverable.accept {t now : ℕ} {contents : Bytes} (h : l.Deliverable t)
    (hpos : contents ≠ []) (hsize : contents.length ≤ PACKET_SIZE) (hnow : now ≤ t)
    (haccept : l.acceptPacket contents now = .ok l') : l'.Deliverable t := by
  obtain ⟨q, hq, rfl⟩ := acceptPacket_eq_ok haccept
  have hlt : contents.length < 2 ^ 31 := by unfold PACKET_SIZE at hsize; omega
  refine ⟨h.sound.enqueue hlt hq, fun p hp => ?_, fun hleft => ?_⟩
  · rcases List.mem_append.1 ((AbstractPacketQueue.enqueue_sublist hq).subset hp) with hp | hp
    · exact h.packets p hp
    · rw [List.mem_singleton.1 hp]
      exact ⟨hnow, List.length_pos_iff.2 hpos, hsize⟩
  · obtain ⟨h₁, h₂, h₃, h₄⟩ := h.inTransit hleft
    exact ⟨h₁, h₂, h₃, h₄⟩

/-- `N` opportunities of the schedule have been used, and the packets in the link
can be delivered at the next one. -/
structure Delivering (s : List ℕ) (b : ℕ) (repeats : Bool) (N : ℕ) (l : LinkQueue) : Prop where
  used : Used s b repeats N l
  deliverable : l.Deliverable (due s b repeats N)
  inRange : due s b repeats N ≤ npos

end LinkQueue

/-- A trace as the link loads it, and clocks that do not overflow: `b` is the base
timestamp, and `t` bounds the readings of the clock. -/
structure Schedule (s : List ℕ) (b t : ℕ) : Prop where
  sorted : s.Pairwise (· ≤ ·)
  period_pos : 0 < period s
  length_lt : s.length < 2 ^ 32
  base_lt : b + period s < npos
  clock_lt : t + period s < npos

theorem Schedule.ne_nil {s : List ℕ} {b t : ℕ} (h : Schedule s b t) : s ≠ [] := by
  rintro rfl
  exact absurd h.period_pos (by decide)

namespace LinkQueue

variable {l : LinkQueue} {s : List ℕ} {b t now N : ℕ} {repeats : Bool}

/-- **A round uses one opportunity.** -/
theorem Delivering.round (h : Delivering s b repeats N l) (hs : Schedule s b t) (hnow : now ≤ t)
    (hle : due s b repeats N ≤ now) :
    ∃ l', rationalizeStep now l = .ok (.inl l') ∧ Delivering s b repeats (N + 1) l' := by
  have hclock := hs.clock_lt
  have hrun : repeats = true ∨ N < s.length := by
    by_contra hend
    rw [due, if_neg hend] at hle
    omega
  have hdue : due s b repeats N = periodic s b N := if_pos hrun
  have htime := h.used.nextDeliveryTime hs.ne_nil h.inRange
  have hused := h.used.advance hs.ne_nil hs.length_lt hrun (by rw [npos] at hclock; omega)
  obtain ⟨r, hr, hl', hplace⟩ := sendLoop_ok (s := (PACKET_SIZE, (l.recordOpportunity (periodic s b N)).advance))
    (h.deliverable.advance _)
  have hmono := due_mono hs.sorted hs.ne_nil hs.base_lt repeats (Nat.le_succ N)
  refine ⟨r.2, ?_, hused.samePlace hplace, hl'.mono hmono, ?_⟩
  · rw [← hdue] at hr
    exact rationalizeStep_of_le htime hle hr
  · by_cases hrun' : repeats = true ∨ N + 1 < s.length
    · have hstep := (periodic_step hs.sorted hs.ne_nil b N).2
      rw [due, if_pos hrun']
      omega
    · rw [due, if_neg hrun']

theorem Delivering.leaves (h : Delivering s b repeats N l) (hs : Schedule s b t)
    (hlt : now < due s b repeats N) : Rationalizes now l l :=
  .of_leave (rationalizeStep_of_lt (h.used.nextDeliveryTime hs.ne_nil h.inRange) hlt)

theorem not_due (hs : Schedule s b t) (hlt : now < due s b repeats N) (j : ℕ) (hNj : N ≤ j) :
    j < N ↔ due s b repeats j ≤ now := by
  have hle := due_mono hs.sorted hs.ne_nil hs.base_lt repeats hNj
  exact iff_of_false (by omega) (by omega)

/-- **A call returns, and has used the opportunities up to the clock.** -/
theorem Delivering.rationalizes (h : Delivering s b repeats N l) (hs : Schedule s b t)
    (hnow : now ≤ t) :
    ∃ l' M, Rationalizes now l l' ∧ Delivering s b repeats M l' ∧ N ≤ M ∧
      ∀ j, N ≤ j → (j < M ↔ due s b repeats j ≤ now) := by
  have hclock := hs.clock_lt
  have hmono := due_mono hs.sorted hs.ne_nil hs.base_lt repeats
  have hlt : now < npos := by omega
  obtain ⟨J, hJ⟩ := exists_lt_due (b := b) hs.ne_nil hs.period_pos repeats hlt
  -- `J` is an opportunity that is not reached; the induction is on the distance to it
  induction hd : J - N generalizing N l with
  | zero =>
      have hlt : now < due s b repeats N := hJ.trans_le (hmono (by omega))
      exact ⟨l, N, h.leaves hs hlt, h, Nat.le_refl N, not_due hs hlt⟩
  | succ d ih =>
      by_cases hle : due s b repeats N ≤ now
      · obtain ⟨l₁, hl₁, h₁⟩ := h.round hs hnow hle
        obtain ⟨l', M, hl', hM, hNM, hj⟩ := ih h₁ (by omega)
        refine ⟨l', M, (returns_iff_of_next hl₁).2 hl', hM, by omega, fun j hNj => ?_⟩
        rcases Nat.lt_or_eq_of_le hNj with hlt | rfl
        · exact hj j hlt
        · exact iff_of_true (by omega) hle
      · have hlt : now < due s b repeats N := by omega
        exact ⟨l, N, h.leaves hs hlt, h, Nat.le_refl N, not_due hs hlt⟩

/-- An accepted packet can be delivered at the next opportunity. -/
theorem Delivering.accept (h : Delivering s b repeats N l) {contents : Bytes} {l' : LinkQueue}
    (hpos : contents ≠ []) (hsize : contents.length ≤ PACKET_SIZE)
    (hnow : now ≤ due s b repeats N) (haccept : l.acceptPacket contents now = .ok l') :
    Delivering s b repeats N l' := by
  have hdeliverable := h.deliverable.accept hpos hsize hnow haccept
  obtain ⟨q, hq, rfl⟩ := acceptPacket_eq_ok haccept
  have hplace : SamePlace l { l.recordArrival now contents.length with packetQueue := q } := by
    refine ⟨rfl, rfl, rfl, rfl, rfl, ?_⟩
    simp [consumed, recordArrival, LogEvent.deliveryTime]
  exact ⟨h.used.samePlace hplace, hdeliverable, h.inRange⟩

end LinkQueue

/-- The call reads a packet that is not empty, and the clock at `t` at the latest. -/
def Call.Within (t : ℕ) : Call → Prop
  | .readPacket contents now => contents ≠ [] ∧ now ≤ t
  | .waitTime now => now ≤ t
  | .writePackets => True

namespace Link

open LinkQueue

variable {k k' : Link} {c : Call} {calls : List Call} {s : List ℕ} {b t N : ℕ} {repeats : Bool}

/-- **A call uses the opportunities up to its reading of the clock.** -/
theorem delivering_step (h : Delivering s b repeats N k.queue) (hs : Schedule s b t)
    (hc : c.Within t) (hstep : Step k c k') :
    ∃ M, Delivering s b repeats M k'.queue ∧ N ≤ M ∧
      ∀ j, N ≤ j → (j < M ↔ ∃ now, c.reading = some now ∧ due s b repeats j ≤ now) := by
  have hreading : ∀ now j, (∃ now', some now = some now' ∧ due s b repeats j ≤ now') ↔
      due s b repeats j ≤ now := by
    intro now j
    constructor
    · rintro ⟨now', hnow, hle⟩
      cases hnow
      exact hle
    · exact fun hle => ⟨now, rfl, hle⟩
  cases hstep with
  | @readPacket contents now _ _ hsize hrat haccept =>
      obtain ⟨l, M, hl, hM, hNM, hj⟩ := h.rationalizes hs hc.2
      cases hrat.unique hl
      have hnow : now ≤ due s b repeats M := by
        have := (hj M hNM).not.1 (by omega)
        omega
      refine ⟨M, hM.accept hc.1 hsize hnow haccept, hNM, fun j hNj => ?_⟩
      exact (hj j hNj).trans (hreading now j).symm
  | @waitTime now _ _ hrat _ =>
      obtain ⟨l, M, hl, hM, hNM, hj⟩ := h.rationalizes hs hc
      cases hrat.unique hl
      exact ⟨M, hM, hNM, fun j hNj => (hj j hNj).trans (hreading now j).symm⟩
  | writePackets =>
      refine ⟨N, ⟨h.used.samePlace ⟨rfl, rfl, rfl, rfl, rfl, rfl⟩, ?_, h.inRange⟩, Nat.le_refl N,
        fun j hNj => ?_⟩
      · obtain ⟨h₁, h₂, h₃⟩ := h.deliverable
        refine ⟨h₁, h₂, fun hleft => ?_⟩
        obtain ⟨h₄, h₅, h₆, h₇⟩ := h₃ hleft
        exact ⟨h₄, h₅, h₆, h₇⟩
      · refine iff_of_false (by omega) ?_
        rintro ⟨now, hnow, -⟩
        cases hnow

end Link

end V2Proxy
