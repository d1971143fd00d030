/-
# `mm-rate-to-events`

`scripts/mm-rate-to-events`: turns a rate for each millisecond, in kilobits, into the
times at which a packet of 12000 bits can be delivered, the trace that `mm-link` reads.
The bits of a millisecond go into a reserve, which is paid out in packets.

The reserve and the packets are the bits of all the milliseconds so far
(`Metered.balance`), and the reserve is always less than a packet, so the number of
packets up to a time is the number of whole packets in the sum of the rates
(`rates_to_events`).  The times come in order, so what is printed is a trace that
`LinkQueue` loads (`loadSchedule_printed`).
-/

import V2Proxy.Frontend.LinkQueue
import V2Proxy.Scripts.Perl
import V2Proxy.Util.Numerals
import Mathlib.Algebra.BigOperators.Ring.List
import Mathlib.Data.Rat.Floor

namespace V2Proxy

open Foundations

/-- The variables of the script, and the times that it has printed. -/
structure RateToEvents where
  time : ℕ := 0
  reserveBits : ℚ := 0
  output : List ℕ := []

namespace RateToEvents

/-- `$PACKET_LENGTH`. -/
def PACKET_LENGTH : ℚ := 12000

/-- The inner loop: each packet in the reserve is delivered now. -/
def deliver : Loop Bytes RateToEvents RateToEvents where
  step s :=
    if PACKET_LENGTH ≤ s.reserveBits then
      .ok (.inl { s with
        reserveBits := s.reserveBits - PACKET_LENGTH
        output := s.output ++ [s.time] })
    else .ok (.inr s)
  measure s := ⌊s.reserveBits / PACKET_LENGTH⌋.toNat
  decreases {s s'} h := by
    split_ifs at h with hle
    on_goal 2 => cases h
    cases h
    have hone : 1 ≤ ⌊s.reserveBits / PACKET_LENGTH⌋ := by
      rw [Int.le_floor, PACKET_LENGTH, Int.cast_one, le_div_iff₀ (by norm_num), one_mul]
      exact hle
    have hsub : (s.reserveBits - PACKET_LENGTH) / PACKET_LENGTH =
        s.reserveBits / PACKET_LENGTH - 1 := by
      rw [sub_div, div_self (by norm_num [PACKET_LENGTH])]
    simp only [hsub, Int.floor_sub_one]
    omega

theorem deliver_step (s : RateToEvents) : deliver.step s =
    if PACKET_LENGTH ≤ s.reserveBits then
      .ok (.inl { s with
        reserveBits := s.reserveBits - PACKET_LENGTH
        output := s.output ++ [s.time] })
    else .ok (.inr s) := rfl

/-- What the outer loop does with the rate of a millisecond. -/
def millisecond (s : RateToEvents) (kilobits : ℚ) : Except Bytes RateToEvents := do
  let s ← deliver.run { s with reserveBits := s.reserveBits + 1000 * kilobits }
  return { s with time := s.time + 1 }

/-- A round of the outer loop, on a line without its line ending. -/
def readLine (s : RateToEvents) (line : Bytes) : Except Bytes RateToEvents :=
  if Perl.looksLikeNumber line then s.millisecond (Perl.numify line)
  else .error (ascii "Not a number: \"" ++ line ++ ascii "\"")

/-- `mm-rate-to-events`. -/
def script (lines : List Bytes) : Except Bytes RateToEvents := lines.foldlM readLine {}

/-- What the script does with numbers. -/
def events (rates : List ℚ) : Except Bytes RateToEvents := rates.foldlM millisecond {}

/-- What the script prints. -/
def printed (s : RateToEvents) : Bytes := s.output.flatMap fun time => decimal time ++ ascii "\n"

/-- **What holds in the inner loop:** `k` packets have been paid out of the reserve. -/
structure PaidOut (s s' : RateToEvents) (k : ℕ) : Prop where
  time : s'.time = s.time
  output : s'.output = s.output ++ List.replicate k s.time
  nonneg : 0 ≤ s'.reserveBits
  balance : s'.reserveBits + PACKET_LENGTH * k = s.reserveBits

/-- A round pays out one packet. -/
theorem PaidOut.round {s s' : RateToEvents} {k : ℕ} (h : s.PaidOut s' k)
    (hle : PACKET_LENGTH ≤ s'.reserveBits) :
    s.PaidOut { s' with
      reserveBits := s'.reserveBits - PACKET_LENGTH
      output := s'.output ++ [s'.time] } (k + 1) := by
  constructor
  · exact h.time
  · simp [h.output, h.time, List.replicate_succ']
  · exact sub_nonneg.2 hle
  · push_cast
    linarith [h.balance]

/-- **The inner loop pays out whole packets,** until less than one is left. -/
theorem run_deliver {s : RateToEvents} (hs : 0 ≤ s.reserveBits) :
    ∃ s', deliver.run s = .ok s' ∧ (∃ k, s.PaidOut s' k) ∧ s'.reserveBits < PACKET_LENGTH := by
  refine Loop.run_total (I := fun s' => ∃ k, s.PaidOut s' k) ?_ ⟨0, rfl, by simp, hs, by simp⟩
  rintro s' ⟨k, hpaid⟩
  rw [deliver_step]
  split_ifs with hle
  · exact Or.inr ⟨_, rfl, k + 1, hpaid.round hle⟩
  · exact Or.inl ⟨s', rfl, ⟨k, hpaid⟩, not_le.1 hle⟩

/-- **What holds after the milliseconds of `rates`:** the reserve is less than a packet,
and with the packets it is all the bits; the times are in order, and counted. -/
structure Metered (rates : List ℚ) (s : RateToEvents) : Prop where
  time : s.time = rates.length
  nonneg : 0 ≤ s.reserveBits
  lt : s.reserveBits < PACKET_LENGTH
  balance : s.reserveBits + PACKET_LENGTH * s.output.length = 1000 * rates.sum
  sorted : s.output.Pairwise (· ≤ ·)
  past : ∀ time ∈ s.output, time < rates.length
  count : ∀ t < rates.length, (s.output.filter (· ≤ t)).length =
    ⌊1000 * (rates.take (t + 1)).sum / PACKET_LENGTH⌋₊

theorem metered_start : Metered [] {} where
  time := rfl
  nonneg := le_rfl
  lt := by norm_num [PACKET_LENGTH]
  balance := by norm_num
  sorted := .nil
  past := by simp
  count := by simp

/-- What is in packets when less than a packet is left. -/
theorem eq_floor {n : ℕ} {reserve bits : ℚ} (hnonneg : 0 ≤ reserve) (hlt : reserve < PACKET_LENGTH)
    (hbalance : reserve + PACKET_LENGTH * n = bits) : n = ⌊bits / PACKET_LENGTH⌋₊ := by
  have hpos : (0 : ℚ) < PACKET_LENGTH := by norm_num [PACKET_LENGTH]
  have hbits : 0 ≤ bits := by
    rw [← hbalance]
    exact add_nonneg hnonneg (mul_nonneg hpos.le (Nat.cast_nonneg n))
  symm
  rw [Nat.floor_eq_iff (div_nonneg hbits hpos.le), le_div_iff₀ hpos, div_lt_iff₀ hpos]
  constructor
  · linarith
  · linarith

/-- **A millisecond keeps the books.** -/
theorem Metered.millisecond {rates : List ℚ} {s : RateToEvents} {r : ℚ} (h : Metered rates s)
    (hr : 0 ≤ r) : ∃ s', s.millisecond r = .ok s' ∧ Metered (rates ++ [r]) s' := by
  have hbits : 0 ≤ s.reserveBits + 1000 * r := add_nonneg h.nonneg (by positivity)
  obtain ⟨s', hrun, ⟨k, hpaid⟩, hlt⟩ :=
    run_deliver (s := { s with reserveBits := s.reserveBits + 1000 * r }) hbits
  have htime : s.time = rates.length := h.time
  have houtput : s'.output = s.output ++ List.replicate k s.time := hpaid.output
  have hbalance : s'.reserveBits + PACKET_LENGTH * s'.output.length = 1000 * (rates ++ [r]).sum := by
    have hreserve : s'.reserveBits + PACKET_LENGTH * k = s.reserveBits + 1000 * r := hpaid.balance
    rw [houtput, List.length_append, List.length_replicate, List.sum_append, List.sum_singleton]
    push_cast
    linarith [h.balance]
  have hpast : ∀ time ∈ s'.output, time < (rates ++ [r]).length := by
    intro time hmem
    rw [List.length_append, List.length_singleton]
    rw [houtput] at hmem
    rcases List.mem_append.1 hmem with hmem | hmem
    · have := h.past time hmem
      omega
    · rw [List.eq_of_mem_replicate hmem]
      omega
  refine ⟨{ s' with time := s'.time + 1 }, by rw [RateToEvents.millisecond, hrun, ok_bind]; rfl, ?_⟩
  constructor
  · rw [List.length_append, List.length_singleton, ← htime, ← hpaid.time]
  · exact hpaid.nonneg
  · exact hlt
  · exact hbalance
  · rw [houtput]
    refine List.pairwise_append.2 ⟨h.sorted, List.pairwise_replicate.2 (Or.inr le_rfl), fun x hx y hy => ?_⟩
    rw [List.eq_of_mem_replicate hy, htime]
    exact (h.past x hx).le
  · exact hpast
  · intro t ht
    show (s'.output.filter (· ≤ t)).length = _
    rw [List.length_append, List.length_singleton] at ht
    by_cases hlast : t < rates.length
    · -- what is delivered now is after `t`
      have hnone : (List.replicate k s.time).filter (fun time => decide (time ≤ t)) = [] := by
        rw [List.filter_eq_nil_iff]
        intro x hx
        rw [List.eq_of_mem_replicate hx, decide_eq_true_eq]
        omega
      rw [houtput, List.filter_append, hnone, List.append_nil, List.take_append_of_le_length (by omega)]
      exact h.count t hlast
    · have hall : s'.output.filter (fun time => decide (time ≤ t)) = s'.output := by
        rw [List.filter_eq_self]
        intro x hx
        have := hpast x hx
        rw [List.length_append, List.length_singleton] at this
        exact decide_eq_true (by omega)
      rw [hall, List.take_of_length_le (by rw [List.length_append, List.length_singleton]; omega)]
      exact eq_floor hpaid.nonneg hlt hbalance

/-- **Every run keeps the books.** -/
theorem metered_run {rates : List ℚ} (hrates : ∀ r ∈ rates, 0 ≤ r) :
    ∃ s, events rates = .ok s ∧ Metered rates s :=
  foldlM_reads (fun p _ r hp h => h.millisecond (hrates r (hp.subset (List.mem_append_right p
    List.mem_cons_self)))) metered_start

/-- Lines that look like numbers are read as these. -/
theorem script_eq {lines : List Bytes} (h : ∀ line ∈ lines, Perl.looksLikeNumber line = true) :
    script lines = events (lines.map Perl.numify) := by
  rw [script, events, List.foldlM_map]
  generalize ({} : RateToEvents) = s
  induction lines generalizing s with
  | nil => rfl
  | cons line lines ih =>
      rw [List.foldlM_cons, List.foldlM_cons, readLine, if_pos (h line List.mem_cons_self)]
      congr 1
      funext s'
      exact ih (fun l hl => h l (List.mem_cons_of_mem line hl)) s'

/-- **The times are those of the whole packets.**  For rates that are not negative, given
as numbers or as lines, the script ends; the packets up to a time are the whole packets in
the sum of the rates up to it, the times are in order, and after each millisecond the
reserve is not negative and less than a packet. -/
theorem rates_to_events {rates : List ℚ} (hrates : ∀ r ∈ rates, 0 ≤ r) :
    (∀ lines : List Bytes, (∀ line ∈ lines, Perl.looksLikeNumber line = true) →
      lines.map Perl.numify = rates → script lines = events rates) ∧
    ∃ s, events rates = .ok s ∧
      (∀ t < rates.length, (s.output.filter (· ≤ t)).length =
        ⌊((rates.take (t + 1)).map (1000 * ·)).sum / 12000⌋₊) ∧
      s.output.Pairwise (· ≤ ·) ∧
      ∀ n, ∃ s', events (rates.take n) = .ok s' ∧ 0 ≤ s'.reserveBits ∧ s'.reserveBits < 12000 := by
  obtain ⟨s, hs, hmetered⟩ := metered_run hrates
  refine ⟨fun lines hlines hread => by rw [script_eq hlines, hread], s, hs, fun t ht => ?_,
    hmetered.sorted, fun n => ?_⟩
  · rw [hmetered.count t ht, List.sum_map_mul_left, List.map_id']
    rfl
  · obtain ⟨s', hs', hmetered'⟩ := metered_run fun r hr => hrates r (List.mem_of_mem_take hr)
    exact ⟨s', hs', hmetered'.nonneg, hmetered'.lt⟩

/-- Rates of 13 and 30 kilobits, a packet in the first millisecond and two in the third. -/
theorem rates_to_events_threeRates : ∃ s, events [13, 0, 30] = .ok s ∧
    (s.output.filter (· ≤ 2)).length = ⌊(([13, 0, 30] : List ℚ).map (1000 * ·)).sum / 12000⌋₊ ∧
    script [ascii "13", ascii "0.0", ascii "3e1"] = .ok s := by
  have hrates : ∀ r ∈ ([13, 0, 30] : List ℚ), 0 ≤ r := by norm_num
  obtain ⟨hread, s, hs, hcount, -⟩ := rates_to_events hrates
  have htwo := hcount 2 (by decide)
  rw [List.take_of_length_le (by decide)] at htwo
  refine ⟨s, hs, htwo, ?_⟩
  rw [hread _ (by decide +kernel) (by decide +kernel), hs]

/-- The lines of what is printed are the times. -/
theorem getLines_printed (s : RateToEvents) : getLines s.printed = s.output.map decimal := by
  have hlines : ∀ times : List ℕ,
      (times.flatMap fun time => decimal time ++ ascii "\n").splitOn 10 =
        times.map decimal ++ [[]] := by
    intro times
    induction times with
    | nil => rfl
    | cons time times ih =>
        have hdigits : 10 ∉ decimal time := by
          intro hmem
          exact absurd (isSome_of_mem_decimal hmem) (by decide)
        rw [List.flatMap_cons, List.append_assoc,
          show ascii "\n" ++ (times.flatMap fun time => decimal time ++ ascii "\n") =
            10 :: (times.flatMap fun time => decimal time ++ ascii "\n") from rfl,
          List.splitOn_append_cons_self_of_not_mem hdigits, ih]
        rfl
  rw [getLines, printed, hlines]
  simp

/-- A time in order is taken into the schedule. -/
theorem addLine_decimal {filename : Bytes} {schedule : List ℕ} {time : ℕ} (htime : time < 2 ^ 63)
    (hsorted : (schedule ++ [time]).Pairwise (· ≤ ·)) :
    LinkQueue.addLine filename schedule (decimal time) = .ok (schedule ++ [time]) := by
  have hvalue : toUInt64 (digitsValue 10 (decimal time)) = time := by
    rw [digitsValue_decimal, toUInt64]
    omega
  have hlast : ¬ (schedule ≠ [] ∧ time < schedule.getLast?.getD 0) := by
    rintro ⟨hne, hlt⟩
    rw [List.getLast?_eq_some_getLast hne, Option.getD_some] at hlt
    have hle := (List.pairwise_append.1 hsorted).2.2 _ (List.getLast_mem hne) time (by simp)
    omega
  rw [LinkQueue.addLine, if_neg (decimal_ne_nil time), myatoi_digits (decimal_ne_nil time)
    fun c hc => isSome_of_mem_decimal hc, if_pos (by rwa [digitsValue_decimal]), ok_bind]
  simp only [hvalue, if_neg hlast]
  rfl

/-- **`LinkQueue` loads what the script prints,** if it prints a time that is not zero. -/
theorem loadSchedule_printed {rates : List ℚ} (hrates : ∀ r ∈ rates, 0 ≤ r)
    (hlength : rates.length ≤ 2 ^ 63) {s : RateToEvents} (h : events rates = .ok s)
    (hlast : 0 < s.output.getLast?.getD 0) (filename : Bytes) :
    LinkQueue.loadSchedule filename s.printed = .ok s.output := by
  obtain ⟨s', hs', hmetered⟩ := metered_run hrates
  obtain rfl := Except.ok.inj (hs'.symm.trans h)
  obtain ⟨schedule, hload, rfl⟩ := foldlM_reads (I := fun p schedule => schedule = p)
    (f := fun schedule time => LinkQueue.addLine filename schedule (decimal time)) (l := s'.output)
    (fun p schedule time hp hschedule => by
      subst hschedule
      have htime := hmetered.past time (hp.subset (List.mem_append_right _ List.mem_cons_self))
      exact ⟨_, addLine_decimal (by omega) (hmetered.sorted.sublist hp.sublist), rfl⟩) rfl
  have hne : s'.output ≠ [] := by
    intro hnil
    rw [hnil] at hlast
    exact absurd hlast (Nat.lt_irrefl 0)
  rw [LinkQueue.loadSchedule, getLines_printed, List.foldlM_map, hload, ok_bind, if_neg hne,
    if_neg (by omega)]
  rfl

end RateToEvents
end V2Proxy
