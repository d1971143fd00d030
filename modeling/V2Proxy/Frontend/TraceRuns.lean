/-
# A link follows its trace

The trace is loaded into a nondecreasing schedule of positive period
(`loadSchedule_spec`), and a new link starts at its first entry
(`Delivering.start`).  From there every run of calls uses the delivery times of
the schedule up to the clock, whatever the calls are and however they are spread
in time.
-/

import V2Proxy.Frontend.DeliveryTimes

namespace V2Proxy

open Foundations

namespace LinkQueue

theorem addLine_eq_ok {filename line : Bytes} {schedule schedule' : List ℕ}
    (h : addLine filename schedule line = .ok schedule') :
    ∃ ms, schedule' = schedule ++ [ms] ∧ (schedule ≠ [] → period schedule ≤ ms) := by
  rw [addLine] at h
  split_ifs at h with hline
  · obtain ⟨value, -, h⟩ := bind_eq_ok.1 h
    dsimp only at h
    split_ifs at h with hms
    cases h
    refine ⟨_, rfl, fun hne => ?_⟩
    by_contra hlt
    exact hms ⟨hne, Nat.lt_of_not_le hlt⟩

/-- The lines keep the schedule nondecreasing. -/
theorem foldlM_addLine_sorted {filename : Bytes} {lines : List Bytes} {schedule s : List ℕ}
    (h : lines.foldlM (addLine filename) schedule = .ok s)
    (hsorted : schedule.Pairwise (· ≤ ·)) : s.Pairwise (· ≤ ·) := by
  refine foldlM_invariant (I := List.Pairwise (· ≤ ·)) (fun schedule line schedule' hs hline => ?_)
    hsorted h
  obtain ⟨ms, rfl, hms⟩ := addLine_eq_ok hline
  refine List.pairwise_append.2 ⟨hs, List.pairwise_singleton _ ms, ?_⟩
  intro x hx y hy
  rw [List.mem_singleton.1 hy]
  obtain ⟨i, hi, rfl⟩ := List.getElem_of_mem hx
  have hle := getD_le_period hs hi
  rw [List.getD_eq_getElem _ _ hi] at hle
  exact hle.trans (hms (List.ne_nil_of_mem hx))

/-- **An accepted trace is a nondecreasing schedule of positive period.** -/
theorem loadSchedule_spec {filename trace : Bytes} {s : List ℕ}
    (h : loadSchedule filename trace = .ok s) : s.Pairwise (· ≤ ·) ∧ 0 < period s := by
  obtain ⟨schedule, hlines, h⟩ := bind_eq_ok.1 h
  split_ifs at h with hnil hzero
  cases h
  exact ⟨foldlM_addLine_sorted hlines .nil, Nat.pos_of_ne_zero hzero⟩

/-- A link before its first call, with any packets in its queue that can be
delivered at the first opportunity. -/
structure Fresh (s : List ℕ) (b : ℕ) (repeats : Bool) (l : LinkQueue) : Prop where
  schedule : l.schedule = s
  baseTimestamp : l.baseTimestamp = b
  repeats_eq : l.repeats = repeats
  nextDelivery : l.nextDelivery = 0
  finished : l.finished = false
  consumed : l.consumed = []
  idle : l.packetInTransitBytesLeft = 0
  sound : l.packetQueue.Sound
  packets : ∀ p ∈ l.packetQueue.packets, p.arrivalTime ≤ b + s.getD 0 0 ∧
    0 < p.contents.length ∧ p.contents.length ≤ PACKET_SIZE

theorem Fresh.delivering {s : List ℕ} {b t : ℕ} {repeats : Bool} {l : LinkQueue}
    (h : Fresh s b repeats l) (hs : Schedule s b t) : Delivering s b repeats 0 l := by
  have hlength := List.length_pos_iff.2 hs.ne_nil
  have hdue : due s b repeats 0 = b + s.getD 0 0 := by
    rw [due, if_pos (Or.inr hlength), periodic_of_lt hlength]
  have hle := getD_le_period hs.sorted hlength
  have hbase_lt := hs.base_lt
  refine ⟨⟨h.schedule, h.repeats_eq, h.consumed, fun _ => ⟨h.finished, ?_, ?_⟩,
    fun hend => absurd (Or.inr hlength) hend⟩, ⟨h.sound, ?_, fun hleft => absurd h.idle hleft⟩,
    by omega⟩
  · rw [h.nextDelivery, Nat.zero_mod]
  · rw [h.baseTimestamp, Nat.zero_div, Nat.zero_mul, Nat.add_zero]
  · rw [hdue]
    exact h.packets

end LinkQueue

namespace Link

open LinkQueue

variable {k k' : Link} {calls : List Call} {s : List ℕ} {b t N : ℕ} {repeats : Bool}

/-- **A run uses the opportunities up to its latest reading of the clock.** -/
theorem delivering_run (h : Delivering s b repeats N k.queue) (hs : Schedule s b t)
    (hcalls : ∀ c ∈ calls, c.Within t) (hrun : Run Step k calls k') :
    ∃ M, Delivering s b repeats M k'.queue ∧ N ≤ M ∧
      ∀ j, N ≤ j → (j < M ↔ ∃ now ∈ calls.filterMap Call.reading, due s b repeats j ≤ now) := by
  induction hrun generalizing N with
  | nil k => exact ⟨N, h, Nat.le_refl N, fun j hj => iff_of_false (by omega) (by simp)⟩
  | @cons k k₁ k' c calls hstep _ ih =>
      obtain ⟨N₁, h₁, hN₁, hj₁⟩ := delivering_step h hs (hcalls c List.mem_cons_self) hstep
      obtain ⟨M, hM, hN₁M, hjM⟩ := ih h₁ fun c' hc' => hcalls c' (List.mem_cons_of_mem _ hc')
      refine ⟨M, hM, hN₁.trans hN₁M, fun j hj => ?_⟩
      have hfirst := hj₁ j hj
      have hsplit : (∃ now ∈ (c :: calls).filterMap Call.reading, due s b repeats j ≤ now) ↔
          (∃ now, c.reading = some now ∧ due s b repeats j ≤ now) ∨
            ∃ now ∈ calls.filterMap Call.reading, due s b repeats j ≤ now := by
        cases hc : c.reading <;> simp [hc]
      rw [hsplit, ← hfirst]
      rcases Nat.lt_or_ge j N₁ with hlt | hge
      · exact iff_of_true (by omega) (Or.inl hlt)
      · rw [hjM j hge]
        exact (or_iff_right (by omega)).symm

/-- **A new link is fresh,** and its schedule is the trace. -/
theorem fresh_start {type args filename trace : Bytes} {timestamp : ℕ} {clock : Stream' ℕ}
    {draws : Stream' Float}
    (h : Link.start type args filename trace repeats timestamp clock draws = .ok k) :
    ∃ s, loadSchedule filename trace = .ok s ∧ s.Pairwise (· ≤ ·) ∧ 0 < period s ∧
      Fresh s timestamp repeats k.queue := by
  obtain ⟨s, q, hs, hpackets, hsound, -, rfl⟩ := start_eq_ok h
  obtain ⟨hsorted, hperiod⟩ := loadSchedule_spec hs
  refine ⟨s, hs, hsorted, hperiod, rfl, rfl, rfl, rfl, rfl, rfl, rfl, hsound, fun p hp => ?_⟩
  change p ∈ q.packets at hp
  rw [hpackets] at hp
  cases hp

/-- Number `i` of period `n` is event `n * s.length + i`. -/
theorem due_period (hr : repeats = true) {n i : ℕ} (hi : i < s.length) :
    due s b repeats (n * s.length + i) = b + n * period s + s.getD i 0 := by
  have hpos : 0 < s.length := by omega
  rw [due, if_pos (Or.inl hr), periodic, Nat.mul_comm n, Nat.mul_add_div hpos,
    Nat.mul_add_mod, Nat.div_eq_of_lt hi, Nat.mod_eq_of_lt hi, Nat.add_zero]

/-- The first period, in one list. -/
theorem map_periodic_range (hN : N ≤ s.length) :
    (List.range N).map (periodic s b) = (s.take N).map (b + ·) := by
  refine List.ext_getElem (by simp [hN]) fun i hi _ => ?_
  have hi' : i < N := by simpa using hi
  rw [List.getElem_map, List.getElem_range, List.getElem_map, List.getElem_take,
    periodic_of_lt (by omega), List.getD_eq_getElem _ _ (by omega)]

/-- **A link follows its trace.**  Whatever calls have been made, the next one
returns.  With `repeat`, the delivery times consumed are all times
`b + n * T + s_i` up to the latest reading of the clock, each once and in order,
where `T` is the last time of the trace; without, they are all times `b + s_i` up
to then, and the link is finished when all have been consumed. -/
theorem follows_trace (hs : Schedule s b t) (hk : Fresh s b repeats k.queue)
    (hcalls : ∀ c ∈ calls, c.Within t) (hrun : Run Step k calls k') :
    (∀ now ≤ t, ∃ l, k'.queue.Rationalizes now l) ∧ k'.queue.consumed.Pairwise (· ≤ ·) ∧
      (repeats = true → ∃ N,
        k'.queue.consumed = (List.range N).map
          (fun j => b + j / s.length * period s + s.getD (j % s.length) 0) ∧
        ∀ n i, i < s.length → (n * s.length + i < N ↔
          ∃ now ∈ calls.filterMap Call.reading, b + n * period s + s.getD i 0 ≤ now)) ∧
      (repeats = false → ∃ N ≤ s.length,
        k'.queue.consumed = (s.take N).map (b + ·) ∧
        (∀ i < s.length, i < N ↔
          ∃ now ∈ calls.filterMap Call.reading, b + s.getD i 0 ≤ now) ∧
        (k'.queue.finished = true ↔ N = s.length)) := by
  obtain ⟨N, hN, -, hj⟩ := delivering_run (hk.delivering hs) hs hcalls hrun
  refine ⟨fun now hnow => ?_, ?_, fun hr => ?_, fun hr => ?_⟩
  · obtain ⟨l, -, hl, -⟩ := hN.rationalizes hs hnow
    exact ⟨l, hl⟩
  · rw [hN.used.consumed, List.pairwise_map]
    exact List.pairwise_lt_range.imp fun hlt => periodic_mono hs.sorted hs.ne_nil b hlt.le
  · refine ⟨N, hN.used.consumed, fun n i hi => ?_⟩
    rw [hj _ (Nat.zero_le _), due_period hr hi]
  · have hle : N ≤ s.length := by
      by_contra hlt
      have := (hN.used.ended (by rw [hr]; simp; omega)).2
      omega
    refine ⟨N, hle, ?_, fun i hi => ?_, ?_⟩
    · rw [hN.used.consumed, map_periodic_range hle]
    · rw [hj _ (Nat.zero_le _), due, if_pos (Or.inr hi), periodic_of_lt hi]
    · constructor
      · intro hfinished
        by_contra hne
        rw [(hN.used.running (Or.inr (by omega))).1] at hfinished
        cases hfinished
      · intro heq
        exact (hN.used.ended (by rw [hr]; simp; omega)).1

/-- Two packets, one of which takes both opportunities of the trace. -/
theorem follows_trace_twoLines :
    ∃ k' : Link,
      Run Step { queue := twoLines } twoPackets k' ∧
      k'.queue.consumed = [1, 3] ∧
      (∀ now ≤ 3, ∃ l, k'.queue.Rationalizes now l) ∧ k'.queue.consumed.Pairwise (· ≤ ·) ∧
      (true = true → ∃ N,
        k'.queue.consumed = (List.range N).map
          (fun j => 0 + j / [1, 3].length * period [1, 3] + [1, 3].getD (j % [1, 3].length) 0) ∧
        ∀ n i, i < [1, 3].length → (n * [1, 3].length + i < N ↔ ∃ now ∈ [0, 0, 1, 3],
          0 + n * period [1, 3] + [1, 3].getD i 0 ≤ now)) ∧
      (true = false → ∃ N ≤ [1, 3].length,
        k'.queue.consumed = ([1, 3].take N).map (0 + ·) ∧
        (∀ i < [1, 3].length, i < N ↔ ∃ now ∈ [0, 0, 1, 3], 0 + [1, 3].getD i 0 ≤ now) ∧
        (k'.queue.finished = true ↔ N = [1, 3].length)) := by
  have hschedule : Schedule [1, 3] 0 3 :=
    ⟨by decide, by decide, by decide, by decide, by decide⟩
  have hfresh : Fresh [1, 3] 0 true twoLines :=
    ⟨rfl, rfl, rfl, rfl, rfl, rfl, rfl, trivial, fun p hp => by cases hp⟩
  have hcalls : ∀ c ∈ twoPackets, c.Within 3 := by
    simp [twoPackets, Call.Within, fullPacket_ne_nil]
  exact ⟨_, run_twoLines, rfl, follows_trace hschedule hfresh hcalls run_twoLines⟩

end Link

end V2Proxy
