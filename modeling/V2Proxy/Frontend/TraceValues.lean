/-
# The delivery times of a trace

A line of a trace is read as a signed integer and stored as a `uint64_t` before the checks
of `LinkQueue::LinkQueue` look at it.  So the checks let a negative line pass if no line
follows that is not negative: it is larger than the others when it is stored, and its
delivery time is the base timestamp plus the line, reduced modulo `2 ^ 64`.

`NeverDecreases` says that the delivery times of the first cycle, and the one after the
wraparound, are in order and not before the base.  They are just if the sums of the stored
values are below `2 ^ 64` (`neverDecreases_iff_sum`), and with no negative line they are
(`neverDecreases_iff`).
-/

import V2Proxy.Frontend.TraceRuns
import V2Proxy.Util.Numerals

namespace V2Proxy

open Foundations

namespace LinkQueue

/-- The link after `k` uses of a delivery opportunity. -/
def uses (l : LinkQueue) : ℕ → Except Fault LinkQueue
  | 0 => .ok l
  | k + 1 => l.uses k >>= useADeliveryOpportunity

/-- The uses that lead from the first entry of the schedule to the wraparound: as many as
there are entries, but the index is an `unsigned int`. -/
def cycle (l : LinkQueue) : ℕ := min l.schedule.length (2 ^ 32)

/-- The delivery times of the first cycle, and the one after it, never decrease, and none is
before the base timestamp. -/
def NeverDecreases (l : LinkQueue) : Prop :=
  ∃ time : ℕ → ℕ,
    (∀ k ≤ l.cycle, ∃ l', l.uses k = .ok l' ∧ l'.nextDeliveryTime = .ok (time k)) ∧
      (∀ k < l.cycle, time k ≤ time (k + 1)) ∧ ∀ k ≤ l.cycle, l.baseTimestamp ≤ time k

/-- Entry `k` of the first cycle comes next. -/
structure AtEntry (s : List ℕ) (b : ℕ) (repeats : Bool) (k : ℕ) (l : LinkQueue) : Prop where
  schedule : l.schedule = s
  baseTimestamp : l.baseTimestamp = b
  repeats_eq : l.repeats = repeats
  finished : l.finished = false
  nextDelivery : l.nextDelivery = k

/-- The first delivery time after the wraparound. -/
def wrapTime (s : List ℕ) (b : ℕ) (repeats : Bool) : ℕ :=
  if repeats then (s.getD 0 0 + (b + period s) % 2 ^ 64) % 2 ^ 64 else npos

variable {l : LinkQueue} {s : List ℕ} {b k : ℕ} {repeats : Bool}

theorem AtEntry.nextDeliveryTime (h : AtEntry s b repeats k l) (hk : k < s.length) :
    l.nextDeliveryTime = .ok ((s.getD k 0 + b) % 2 ^ 64) := by
  rw [LinkQueue.nextDeliveryTime, if_neg (by rw [h.finished]; decide), h.schedule, h.nextDelivery,
    List.getElem?_eq_getElem hk, h.baseTimestamp, List.getD_eq_getElem _ _ hk]

theorem AtEntry.use (h : AtEntry s b repeats k l) (hk : k + 1 < min s.length (2 ^ 32)) :
    ∃ l', l.useADeliveryOpportunity = .ok l' ∧ AtEntry s b repeats (k + 1) l' := by
  have htime := h.nextDeliveryTime (by omega)
  refine ⟨_, useADeliveryOpportunity_eq htime, ?_⟩
  set l₁ := l.recordOpportunity ((s.getD k 0 + b) % 2 ^ 64) with hl₁
  have hindex : ((l₁.nextDelivery + 1) % 2 ^ 32) % l₁.schedule.length = k + 1 := by
    change ((l.nextDelivery + 1) % 2 ^ 32) % l.schedule.length = _
    rw [h.nextDelivery, h.schedule, Nat.mod_eq_of_lt (by omega), Nat.mod_eq_of_lt (by omega)]
  rw [LinkQueue.advance, hindex, if_neg (Nat.succ_ne_zero k)]
  exact ⟨h.schedule, h.baseTimestamp, h.repeats_eq, h.finished, rfl⟩

/-- **The last use of the cycle wraps around.** -/
theorem AtEntry.wrap (h : AtEntry s b repeats k l) (hk : k + 1 = min s.length (2 ^ 32)) :
    ∃ l', l.useADeliveryOpportunity = .ok l' ∧ l'.nextDelivery = 0 ∧
      l'.nextDeliveryTime = .ok (wrapTime s b repeats) := by
  have htime := h.nextDeliveryTime (by omega)
  set l₁ := l.recordOpportunity ((s.getD k 0 + b) % 2 ^ 64) with hl₁
  have hindex : ((l₁.nextDelivery + 1) % 2 ^ 32) % l₁.schedule.length = 0 := by
    change ((l.nextDelivery + 1) % 2 ^ 32) % l.schedule.length = 0
    rw [h.nextDelivery, h.schedule]
    rcases Nat.le_total s.length (2 ^ 32) with hle | hle
    · rw [Nat.min_eq_left hle] at hk
      rw [hk]
      rcases Nat.lt_or_eq_of_le hle with hlt | heq
      · rw [Nat.mod_eq_of_lt hlt, Nat.mod_self]
      · rw [heq, Nat.mod_self, Nat.zero_mod]
    · rw [Nat.min_eq_right hle] at hk
      rw [hk, Nat.mod_self, Nat.zero_mod]
  refine ⟨_, useADeliveryOpportunity_eq htime, ?_⟩
  rw [← hl₁, LinkQueue.advance, hindex, if_pos rfl]
  cases repeats with
  | true =>
      have hrepeats : l₁.repeats = true := h.repeats_eq
      rw [if_pos hrepeats]
      have hentry : AtEntry s ((b + period s) % 2 ^ 64) true 0 { l₁ with
          nextDelivery := 0
          baseTimestamp := (l₁.baseTimestamp + period l₁.schedule) % 2 ^ 64 } := by
        refine ⟨h.schedule, ?_, hrepeats, h.finished, rfl⟩
        change (l.baseTimestamp + period l.schedule) % 2 ^ 64 = _
        rw [h.baseTimestamp, h.schedule]
      rw [wrapTime, if_pos rfl]
      exact ⟨rfl, hentry.nextDeliveryTime (by omega)⟩
  | false =>
      have hrepeats : ¬ l₁.repeats = true := by
        rw [show l₁.repeats = _ from h.repeats_eq]
        decide
      rw [if_neg hrepeats]
      exact ⟨rfl, rfl⟩

/-- The delivery time after `k` uses. -/
def timeAfter (s : List ℕ) (b : ℕ) (repeats : Bool) (k : ℕ) : ℕ :=
  if k < min s.length (2 ^ 32) then (s.getD k 0 + b) % 2 ^ 64 else wrapTime s b repeats

/-- **The uses of the first cycle.** -/
theorem AtEntry.uses (h : AtEntry s b repeats 0 l) (hs : s ≠ []) :
    ∀ k ≤ min s.length (2 ^ 32), ∃ l', l.uses k = .ok l' ∧
      (k < min s.length (2 ^ 32) → AtEntry s b repeats k l') ∧
      l'.nextDeliveryTime = .ok (timeAfter s b repeats k) := by
  have hpos := List.length_pos_iff.2 hs
  intro k hk
  induction k with
  | zero =>
      refine ⟨l, rfl, fun _ => h, ?_⟩
      rw [h.nextDeliveryTime hpos, timeAfter, if_pos (by omega)]
  | succ k ih =>
      obtain ⟨l₁, hl₁, hentry, -⟩ := ih (by omega)
      rw [LinkQueue.uses, hl₁, ok_bind]
      rcases Nat.lt_or_eq_of_le hk with hlt | heq
      · obtain ⟨l', hl', hentry'⟩ := (hentry (by omega)).use hlt
        refine ⟨l', hl', fun _ => hentry', ?_⟩
        rw [hentry'.nextDeliveryTime (by omega), timeAfter, if_pos hlt]
      · obtain ⟨l', hl', -, htime⟩ := (hentry (by omega)).wrap heq
        refine ⟨l', hl', fun hlt => by omega, ?_⟩
        rw [htime, timeAfter, if_neg (by omega)]

/-- The delivery times of the cycle are those of its uses. -/
theorem AtEntry.neverDecreases_iff_times (h : AtEntry s b repeats 0 l) (hs : s ≠ []) :
    l.NeverDecreases ↔ (∀ k < min s.length (2 ^ 32),
      timeAfter s b repeats k ≤ timeAfter s b repeats (k + 1)) ∧
        ∀ k ≤ min s.length (2 ^ 32), b ≤ timeAfter s b repeats k := by
  have hcycle : l.cycle = min s.length (2 ^ 32) := by rw [cycle, h.schedule]
  rw [NeverDecreases, hcycle, h.baseTimestamp]
  constructor
  · rintro ⟨time, htime, hmono, hbase⟩
    have heq : ∀ k ≤ min s.length (2 ^ 32), time k = timeAfter s b repeats k := by
      intro k hk
      obtain ⟨l₁, hl₁, hk₁⟩ := htime k hk
      obtain ⟨l₂, hl₂, -, hk₂⟩ := h.uses hs k hk
      cases hl₁.symm.trans hl₂
      exact Except.ok.inj (hk₁.symm.trans hk₂)
    refine ⟨fun k hk => ?_, fun k hk => heq k hk ▸ hbase k hk⟩
    rw [← heq k hk.le, ← heq (k + 1) hk]
    exact hmono k hk
  · rintro ⟨hmono, hbase⟩
    refine ⟨timeAfter s b repeats, fun k hk => ?_, hmono, hbase⟩
    obtain ⟨l', hl', -, ht⟩ := h.uses hs k hk
    exact ⟨l', hl', ht⟩

/-- **When the delivery times of a cycle are in order:** the sums do not wrap. -/
theorem neverDecreases_iff_sum (h : AtEntry s b repeats 0 l) (hs : s ≠ [])
    (hsorted : s.Pairwise (· ≤ ·)) (hrange : period s < 2 ^ 64) (hb : b < 2 ^ 64) :
    l.NeverDecreases ↔ if repeats then s.getD 0 0 + b + period s < 2 ^ 64
      else s.getD (min s.length (2 ^ 32) - 1) 0 + b < 2 ^ 64 := by
  have hpos := List.length_pos_iff.2 hs
  obtain ⟨K, hK⟩ : ∃ K, min s.length (2 ^ 32) = K + 1 := ⟨min s.length (2 ^ 32) - 1, by omega⟩
  have hlast : timeAfter s b repeats K = (s.getD K 0 + b) % 2 ^ 64 := if_pos (by omega)
  have hwrap : timeAfter s b repeats (K + 1) = wrapTime s b repeats := if_neg (by omega)
  have hfirst_le : s.getD 0 0 ≤ s.getD K 0 := getD_mono hsorted (Nat.zero_le K) (by omega)
  have hlast_le : s.getD K 0 ≤ period s := getD_le_period hsorted (by omega)
  rw [h.neverDecreases_iff_times hs, hK, Nat.add_sub_cancel]
  constructor
  · rintro ⟨hmono, hbase⟩
    have hbaseK := hbase K (by omega)
    have hmonoK := hmono K (by omega)
    rw [hlast] at hbaseK
    rw [hlast, hwrap, wrapTime] at hmonoK
    cases repeats with
    | true =>
        rw [if_pos rfl] at hmonoK ⊢
        omega
    | false =>
        rw [if_neg (by decide)]
        omega
  · intro hsum
    have hsumK : s.getD K 0 + b < 2 ^ 64 := by
      cases repeats with
      | true =>
          rw [if_pos rfl] at hsum
          omega
      | false =>
          rw [if_neg (by decide)] at hsum
          exact hsum
    have htime : ∀ k ≤ K, timeAfter s b repeats k = s.getD k 0 + b := by
      intro k hk
      have hle := getD_mono hsorted hk (by omega)
      rw [timeAfter, if_pos (by omega), Nat.mod_eq_of_lt (by omega)]
    have hafter : s.getD K 0 + b ≤ wrapTime s b repeats := by
      cases repeats with
      | true =>
          rw [if_pos rfl] at hsum
          rw [wrapTime, if_pos rfl]
          omega
      | false =>
          rw [wrapTime, if_neg (by decide), npos]
          omega
    refine ⟨fun k hk => ?_, fun k hk => ?_⟩
    · rcases Nat.lt_or_eq_of_le (Nat.le_of_lt_succ hk) with hlt | rfl
      · have hle := getD_mono hsorted (Nat.le_add_right k 1) (show k + 1 < s.length by omega)
        rw [htime k (by omega), htime (k + 1) (by omega)]
        omega
      · rw [htime k (by omega), hwrap]
        exact hafter
    · rcases Nat.lt_or_eq_of_le hk with hlt | rfl
      · rw [htime k (by omega)]
        omega
      · rw [hwrap]
        omega

/-! ### What the lines of the trace stand for -/

/-- The integers on the lines of the trace. -/
def Reads (trace : Bytes) (zs : List ℤ) : Prop :=
  List.Forall₂ (fun line z => myatoi line 10 = .ok z) (getLines trace) zs

/-- The lines are stored as `uint64_t`s. -/
theorem foldlM_addLine_eq {filename : Bytes} {lines : List Bytes} {zs : List ℤ} {schedule : List ℕ}
    (hzs : List.Forall₂ (fun line z => myatoi line 10 = .ok z) lines zs)
    (h : lines.foldlM (addLine filename) schedule = .ok s) : s = schedule ++ zs.map toUInt64 := by
  induction hzs generalizing schedule with
  | nil =>
      rw [← Except.ok.inj h, List.map_nil, List.append_nil]
  | @cons line z lines zs hz _ ih =>
      rw [List.foldlM_cons] at h
      obtain ⟨schedule', hline, h⟩ := bind_eq_ok.1 h
      have hadd : schedule' = schedule ++ [toUInt64 z] := by
        rw [addLine, hz] at hline
        split_ifs at hline
        rw [ok_bind] at hline
        dsimp only at hline
        split_ifs at hline
        exact (Except.ok.inj hline).symm
      rw [ih h, hadd, List.append_assoc]
      rfl

theorem loadSchedule_eq {filename trace : Bytes} {zs : List ℤ} (hzs : Reads trace zs)
    (h : loadSchedule filename trace = .ok s) : s = zs.map toUInt64 := by
  obtain ⟨schedule, hlines, h⟩ := bind_eq_ok.1 h
  split_ifs at h
  cases h
  exact foldlM_addLine_eq hzs hlines

theorem getD_map_toUInt64 {zs : List ℤ} {i : ℕ} (hi : i < zs.length) :
    (zs.map toUInt64).getD i 0 = toUInt64 (zs.getD i 0) := by
  rw [List.getD_eq_getElem _ _ ((List.length_map toUInt64).symm ▸ hi), List.getElem_map,
    List.getD_eq_getElem _ _ hi]

theorem period_map_toUInt64 {zs : List ℤ} (hzs : zs ≠ []) :
    period (zs.map toUInt64) = toUInt64 (zs.getLast?.getD 0) := by
  have hpos := List.length_pos_iff.2 hzs
  rw [period_eq_getD, List.length_map, getD_map_toUInt64 (by omega), List.getLast?_eq_getElem?,
    List.getD_eq_getElem?_getD]

/-- What a line reads is a `long`. -/
theorem Reads.long {trace : Bytes} {zs : List ℤ} (hzs : Reads trace zs) {i : ℕ}
    (hi : i < zs.length) : -2 ^ 63 ≤ zs.getD i 0 ∧ zs.getD i 0 < 2 ^ 63 := by
  rw [List.getD_eq_getElem _ _ hi]
  exact (myatoi_eq_ok_iff.1 (hzs.get (hzs.length_eq ▸ hi) hi)).2

theorem Reads.last_long {trace : Bytes} {zs : List ℤ} (hzs : Reads trace zs) (hne : zs ≠ []) :
    -2 ^ 63 ≤ zs.getLast?.getD 0 ∧ zs.getLast?.getD 0 < 2 ^ 63 := by
  have hpos := List.length_pos_iff.2 hne
  rw [List.getLast?_eq_getElem?, ← List.getD_eq_getElem?_getD]
  exact hzs.long (by omega)

/-- **A negative line is followed by negative lines only,** as it is stored as a large one. -/
theorem Reads.nonneg_iff {trace : Bytes} {zs : List ℤ} (hzs : Reads trace zs) (hne : zs ≠ [])
    (hsorted : (zs.map toUInt64).Pairwise (· ≤ ·)) :
    (∀ z ∈ zs, 0 ≤ z) ↔ 0 ≤ zs.getLast?.getD 0 := by
  constructor
  · intro hall
    rw [List.getLast?_eq_some_getLast hne]
    exact hall _ (List.getLast_mem hne)
  · intro hlast z hz
    obtain ⟨i, hi, rfl⟩ := List.getElem_of_mem hz
    have hle := getD_le_period hsorted ((List.length_map toUInt64).symm ▸ hi)
    have hlong := hzs.long hi
    have hlast_long := hzs.last_long hne
    rw [getD_map_toUInt64 hi, period_map_toUInt64 hne] at hle
    rw [List.getD_eq_getElem _ _ hi] at hle hlong
    unfold toUInt64 at hle
    omega

/-- The delivery times stay in order although they wrap: the negative last line, taken as it
stands, ends before the base. -/
def WrapsInOrder (zs : List ℤ) (b : ℕ) (repeats : Bool) : Prop :=
  if repeats then 0 ≤ zs.getD 0 0 ∧ zs.getD 0 0 + b + zs.getLast?.getD 0 < 0
  else
    let z := zs.getD (min zs.length (2 ^ 32) - 1) 0
    (z < 0 → z + b < 0) ∧ z + b < 2 ^ 64

/-- **The delivery times of an accepted trace are in order,** and not before the base, if and
only if no line is negative, or the sums happen to wrap in order. -/
theorem neverDecreases_iff {filename trace : Bytes} {q : AbstractPacketQueue} {zs : List ℤ}
    (hnew : new filename trace repeats q b = .ok l) (hzs : Reads trace zs) (hb : b < 2 ^ 64)
    (hlast : (b : ℤ) + 2 * zs.getLast?.getD 0 < 2 ^ 63) :
    l.NeverDecreases ↔ (∀ z ∈ zs, 0 ≤ z) ∨ WrapsInOrder zs b repeats := by
  obtain ⟨s, hload, hnew⟩ := bind_eq_ok.1 hnew
  have hentry : AtEntry s b repeats 0 l := by
    cases hnew
    exact ⟨rfl, rfl, rfl, rfl, rfl⟩
  obtain ⟨hsorted, hperiod⟩ := loadSchedule_spec hload
  have hs : s ≠ [] := by
    rintro rfl
    exact absurd hperiod (by decide)
  obtain rfl := loadSchedule_eq hzs hload
  have hne : zs ≠ [] := fun h => hs (by rw [h, List.map_nil])
  have hpos := List.length_pos_iff.2 hne
  have hlength : (zs.map toUInt64).length = zs.length := List.length_map toUInt64
  have hcycle : min zs.length (2 ^ 32) - 1 < zs.length := by omega
  have hlast_long := hzs.last_long hne
  have hfirst_long := hzs.long hpos
  have hcycle_long := hzs.long hcycle
  have hrange : period (zs.map toUInt64) < 2 ^ 64 := by
    rw [period_map_toUInt64 hne, toUInt64]
    omega
  -- the first line is stored below the one that ends the cycle, and that below the last one
  have hfirst_le := getD_mono hsorted (Nat.zero_le (min zs.length (2 ^ 32) - 1)) (by omega)
  have hcycle_le := getD_le_period hsorted (hcycle.trans_eq hlength.symm)
  rw [getD_map_toUInt64 hpos, getD_map_toUInt64 hcycle] at hfirst_le
  rw [period_map_toUInt64 hne, getD_map_toUInt64 hcycle] at hcycle_le
  rw [neverDecreases_iff_sum hentry hs hsorted hrange hb, hzs.nonneg_iff hne hsorted, hlength,
    period_map_toUInt64 hne, getD_map_toUInt64 hpos, getD_map_toUInt64 hcycle, WrapsInOrder]
  unfold toUInt64 at hfirst_le hcycle_le ⊢
  cases repeats with
  | true =>
      rw [if_pos rfl, if_pos rfl]
      omega
  | false =>
      rw [if_neg (by decide), if_neg (by decide)]
      dsimp only
      omega

/-- An opportunity each millisecond. -/
theorem neverDecreases_iff_everyMillisecond :
    ∃ l : LinkQueue, new [] (ascii "1\n") true (.infinite {}) 0 = .ok l ∧
      Reads (ascii "1\n") [1] ∧
      (l.NeverDecreases ↔ (∀ z ∈ [(1 : ℤ)], 0 ≤ z) ∨ WrapsInOrder [1] 0 true) := by
  have hload : loadSchedule [] (ascii "1\n") = .ok [1] := by decide +kernel
  have hreads : Reads (ascii "1\n") [1] := by
    have hlines : getLines (ascii "1\n") = [ascii "1"] := by decide +kernel
    rw [Reads, hlines]
    exact .cons (by decide +kernel) .nil
  have hnew : new [] (ascii "1\n") true (.infinite {}) 0 =
      .ok { schedule := [1], baseTimestamp := 0, packetQueue := .infinite {}, repeats := true } := by
    rw [new, hload]
    rfl
  exact ⟨_, hnew, hreads, neverDecreases_iff hnew hreads (by decide) (by decide)⟩

/-- **The trace `1`, `-1` is accepted,** although it decreases: from the base 5 its delivery
times are 6 and 4. -/
theorem negative_line_decreases :
    ∃ l : LinkQueue, new [] (ascii "1\n-1\n") true (.infinite {}) 5 = .ok l ∧
      Reads (ascii "1\n-1\n") [1, -1] ∧ (5 : ℤ) + 2 * (-1) < 2 ^ 63 ∧ ¬ l.NeverDecreases := by
  have hload : loadSchedule [] (ascii "1\n-1\n") = .ok [1, 2 ^ 64 - 1] := by decide +kernel
  have hreads : Reads (ascii "1\n-1\n") [1, -1] := by
    have hlines : getLines (ascii "1\n-1\n") = [ascii "1", ascii "-1"] := by decide +kernel
    rw [Reads, hlines]
    exact .cons (by decide +kernel) (.cons (by decide +kernel) .nil)
  have hnew : new [] (ascii "1\n-1\n") true (.infinite {}) 5 = .ok
      { schedule := [1, 2 ^ 64 - 1], baseTimestamp := 5, packetQueue := .infinite {},
        repeats := true } := by
    rw [new, hload]
    rfl
  refine ⟨_, hnew, hreads, by decide, ?_⟩
  rintro ⟨time, htime, hmono, -⟩
  obtain ⟨l₀, hl₀, ht₀⟩ := htime 0 (by decide)
  obtain ⟨l₁, hl₁, ht₁⟩ := htime 1 (by decide)
  have h₀ : time 0 = 6 := by
    cases hl₀
    exact (Except.ok.inj ht₀).symm
  have h₁ : time 1 = 4 := by
    cases hl₁
    exact (Except.ok.inj ht₁).symm
  have hle := hmono 0 (by decide)
  rw [h₀, h₁] at hle
  exact absurd hle (by decide)

end LinkQueue

end V2Proxy
