/-
# The signal delay of the graphs

`scripts/mm-delay-graph` and `scripts/mm-throughput-graph` compute the signal delay for
every millisecond, the least time in which a message that is made then can get to the
receiver.  They take the least delay of the packets that arrive in a millisecond, and
then go back from the last one to the first: where no packet arrives, it takes one
millisecond more than in the next one (`fill`).

No entry is ever compared with the one behind it.  That is right for a link that keeps
the order: a packet that arrives later does not help (`Foundations.Fifo.isLeast_waits`).
So on the log of such a link both scripts compute the least time (`signal_delay`).

The statistics and the plots, which come from other variables, are left out.
-/

import V2Proxy.Foundations.Waiting
import V2Proxy.Scripts.GraphLog
import Mathlib.Data.List.Pairwise
import Mathlib.Data.List.Sort
import Mathlib.Data.Rat.Floor

namespace V2Proxy
namespace GraphLog

open Foundations

/-- `%signal_delay`: the keys and their values, the last one that was assigned in front. -/
abbrev Hash : Type := List (ℚ × ℚ)

/-- `$signal_delay{ $ts }`, if it is defined. -/
def Hash.value (h : Hash) (ts : ℚ) : Option ℚ := (h.find? (·.1 = ts)).map (·.2)

/-- `$signal_delay{ $ts } = $value`. -/
def Hash.assign (h : Hash) (ts value : ℚ) : Hash := (ts, value) :: h

/-- What was assigned is there. -/
@[simp] theorem Hash.value_assign_self (h : Hash) (ts value : ℚ) :
    (h.assign ts value).value ts = some value := by
  simp [Hash.value, Hash.assign]

/-- The other values are as they were. -/
theorem Hash.value_assign_of_ne (h : Hash) {ts t : ℚ} (hne : ts ≠ t) (value : ℚ) :
    (h.assign ts value).value t = h.value t := by
  simp [Hash.value, Hash.assign, hne]

/-- A time has a value if it is a key. -/
theorem Hash.isSome_value_iff {h : Hash} {t : ℚ} : (h.value t).isSome ↔ t ∈ h.map (·.1) := by
  simp [Hash.value]

/-- `sort { $a <=> $b } keys`. -/
def sortedKeys (h : Hash) : List ℚ := (h.map (·.1)).dedup.insertionSort (· ≤ ·)

/-- `min( $delay, $signal_delay{..} )`.  `min` begins with `DBL_MAX`, which no number
exceeds; an entry that is not defined is skipped, or is `DBL_MAX` again. -/
def minDelay (delay : ℚ) (entry : Option ℚ) : ℚ :=
  match entry with
  | none => delay
  | some entry => if entry < delay then entry else delay

/-- The variables that the departures go into. -/
structure Departures where
  delays : List ℚ := []
  signalDelay : Hash := []

/-- What both scripts do with a departure. -/
def Departures.record (s : Departures) (timestamp : ℤ) (delay : ℚ) : Departures where
  delays := s.delays ++ [delay]
  signalDelay := s.signalDelay.assign (timestamp - delay)
    (minDelay delay (s.signalDelay.value (timestamp - delay)))

/-- A round of the loop that completes `%signal_delay`. -/
def fillEntry (ts : ℚ) (h : Hash) : Hash :=
  if (h.value ts).isSome then h else h.assign ts ((h.value (ts + 1)).getD 0 + 1)

/-- The loop that completes `%signal_delay`, over `$ts`. -/
def fill (first : ℚ) : Loop Bytes (ℚ × Hash) Hash where
  step s := if first ≤ s.1 then .ok (.inl (s.1 - 1, fillEntry s.1 s.2)) else .ok (.inr s.2)
  measure s := (⌊s.1 - first⌋ + 1).toNat
  decreases {s s'} h := by
    split_ifs at h with hle
    · cases h
      have hnonneg : 0 ≤ ⌊s.1 - first⌋ := Int.floor_nonneg.2 (sub_nonneg.2 hle)
      simp only [show s.1 - 1 - first = s.1 - first - 1 by ring, Int.floor_sub_one]
      omega
    · cases h

/-- A round of the loop that fills the gaps, from the last time down. -/
theorem fill_step (first : ℚ) (s : ℚ × Hash) : (fill first).step s =
    if first ≤ s.1 then .ok (.inl (s.1 - 1, fillEntry s.1 s.2)) else .ok (.inr s.2) := rfl

/-- The lines that complete `%signal_delay`, the same in both scripts.  They have died
if there are no keys. -/
def complete (signalDelay : Hash) : Except Bytes Hash :=
  match (sortedKeys signalDelay).head?, (sortedKeys signalDelay).getLast? with
  | some first, some last => (fill first).run (last, signalDelay)
  | _, _ => .ok signalDelay

/-- What `mm-delay-graph` does with an event. -/
def delayGraphEvent (s : Departures) (e : Event) : Except Bytes Departures :=
  if e.eventType = ascii "-" then
    match e.delay with
    | none => .error (ascii "Departure format: timestamp - num_bytes delay")
    | some delay => .ok (s.record e.timestamp (Perl.numify delay))
  else .ok s

/-- `mm-delay-graph`, up to the signal delay. -/
def delayGraph (lines : List Bytes) : Except Bytes Hash := do
  let log ← readLog delayGraphEvent {} lines
  if log.graph.delays = [] then .error (ascii "Must have at least one departure event")
  else complete log.graph.signalDelay

/-- What `mm-throughput-graph` does with an event; the bin comes first. -/
def throughputGraphEvent (msPerBin : ℕ) (s : Departures) (e : Event) : Except Bytes Departures :=
  if msPerBin = 0 then .error (ascii "Illegal division by zero")
  else if e.eventType = ascii "+" ∨ e.eventType = ascii "#" then .ok s
  else if e.eventType = ascii "-" then
    match e.delay with
    | none => .error (ascii "Departure format: timestamp - num_bytes delay")
    | some delay =>
        if Perl.numify delay < 0 then .error (ascii "Invalid delay: " ++ delay)
        else if e.timestamp - Perl.numify delay < 0 then
          .error (ascii "Invalid timestamp and delay: ts=" ++ toDecimal e.timestamp ++
            ascii ", delay=" ++ delay)
        else .ok (s.record e.timestamp (Perl.numify delay))
  else .error (ascii "Unknown event type: " ++ e.eventType)

/-- `mm-throughput-graph`, up to the signal delay.  The averages are divided by the
duration. -/
def throughputGraph (msPerBin : ℕ) (lines : List Bytes) : Except Bytes Hash := do
  let log ← readLog (throughputGraphEvent msPerBin) {} lines
  match log.firstTimestamp, log.lastTimestamp with
  | some first, some last =>
      if last - first = 0 then .error (ascii "Illegal division by zero")
      else if log.graph.delays = [] then .error (ascii "Must have at least one departure event")
      else complete log.graph.signalDelay
  | _, _ => .error (ascii "Must have at least one event")

/-! ### The departures of a log -/

/-- The packet that departs, if one does. -/
def passage (e : Event) : Option (Passage ℚ) :=
  if e.eventType = ascii "-" then
    e.delay.map fun delay => {
      arrival := e.timestamp - Perl.numify delay
      departure := e.timestamp }
  else none

/-- The packets that depart. -/
def passages (es : List Event) : List (Passage ℚ) := es.filterMap passage

/-- **What is in `%signal_delay` before it is completed:** the least delay of the packets
that arrive in a millisecond, if any does. -/
structure Recorded (ps : List (Passage ℚ)) (s : Departures) : Prop where
  empty : s.delays = [] ↔ ps = []
  isSome : ∀ t, (s.signalDelay.value t).isSome ↔ ∃ p ∈ ps, p.arrival = t
  least : ∀ t d, s.signalDelay.value t = some d → IsLeast (delaysAt ps t) d

/-- The smaller one of a delay and an entry. -/
theorem minDelay_eq (delay entry : ℚ) : minDelay delay (some entry) = min delay entry := by
  rw [min_comm, minDelay, min_def_lt]

/-- Nothing has departed at the start. -/
theorem recorded_start : Recorded [] {} where
  empty := iff_of_true rfl rfl
  isSome t := by simp [Hash.value]
  least t d h := by cases h

/-- **A departure is recorded.** -/
theorem Recorded.record {ps : List (Passage ℚ)} {s : Departures} (h : Recorded ps s)
    (timestamp : ℤ) (delay : ℚ) :
    Recorded (ps ++ [⟨timestamp - delay, timestamp⟩]) (s.record timestamp delay) := by
  set p : Passage ℚ := ⟨timestamp - delay, timestamp⟩ with hp
  have hdelay : p.departure - p.arrival = delay := sub_sub_cancel _ _
  have hat : (s.record timestamp delay).signalDelay.value p.arrival =
      some (minDelay delay (s.signalDelay.value p.arrival)) := s.signalDelay.value_assign_self _ _
  have hne : ∀ t, p.arrival ≠ t →
      (s.record timestamp delay).signalDelay.value t = s.signalDelay.value t := by
    intro t ht
    exact s.signalDelay.value_assign_of_ne ht _
  constructor
  · simp [Departures.record]
  · intro t
    by_cases ht : p.arrival = t
    · subst ht
      rw [hat]
      simp
    · rw [hne t ht, h.isSome]
      simp [ht]
  · intro t d hd
    by_cases ht : p.arrival = t
    · subst ht
      rw [hat] at hd
      obtain rfl := Option.some.inj hd
      rw [delaysAt_concat_self, hdelay]
      rcases hvalue : s.signalDelay.value p.arrival with _ | entry
      · have hnone : delaysAt ps p.arrival = ∅ := by
          rw [Set.eq_empty_iff_forall_notMem]
          rintro x ⟨q, hq, hat', -⟩
          have hsome := (h.isSome p.arrival).2 ⟨q, hq, hat'⟩
          rw [hvalue] at hsome
          cases hsome
        rw [hnone]
        simp [minDelay]
      · rw [minDelay_eq]
        exact (h.least p.arrival entry hvalue).insert delay
    · rw [hne t ht] at hd
      rw [delaysAt_concat_of_ne ht]
      exact h.least t d hd

/-- What is left of an event that a script does not refuse. -/
def Departures.after (s : Departures) (e : Event) : Departures :=
  if e.eventType = ascii "-" then e.delay.elim s fun delay => s.record e.timestamp (Perl.numify delay)
  else s

/-- **One more event.** -/
theorem Recorded.after {ps : List (Passage ℚ)} {s : Departures} (h : Recorded ps s) (e : Event) :
    Recorded (ps ++ (passage e).toList) (s.after e) := by
  rw [Departures.after, passage]
  split_ifs
  · rcases e.delay with _ | delay
    · simpa using h
    · exact h.record e.timestamp (Perl.numify delay)
  · simpa using h

/-- **The departures of the events are recorded.** -/
theorem recorded_foldl (es : List Event) : Recorded (passages es) (es.foldl Departures.after {}) := by
  induction es using List.reverseRecOn with
  | nil => exact recorded_start
  | append_singleton es e ih =>
      have hpassages : passages (es ++ [e]) = passages es ++ (passage e).toList := by
        rw [passages, List.filterMap_append, passages]
        rcases h : passage e with _ | p
        · simp [h]
        · simp [h]
      rw [hpassages, List.foldl_append]
      exact ih.after e

/-! ### Completing the hash -/

/-- **The signal delay of a log:** at each millisecond between the first arrival and the
last one, the least time that a message made then may take. -/
def SignalDelay (ps : List (Passage ℚ)) (table : Hash) : Prop :=
  ∀ t : ℤ, (∃ p ∈ ps, p.arrival ≤ t) → (∃ p ∈ ps, t ≤ p.arrival) →
    ∃ d, table.value (t : ℚ) = some d ∧ IsLeast (waits ps (t : ℚ)) d

/-- **The departures of a link:** it keeps the order, and counts in milliseconds. -/
structure OfLink (ps : List (Passage ℚ)) : Prop where
  fifo : Fifo ps
  whole : ∀ p ∈ ps, ∃ n : ℤ, p.arrival = n

/-- The keys in order are the times that have a value. -/
theorem mem_sortedKeys {h : Hash} {t : ℚ} : t ∈ sortedKeys h ↔ (h.value t).isSome := by
  rw [sortedKeys, List.mem_insertionSort, List.mem_dedup, Hash.isSome_value_iff]

/-- The keys are sorted, so the first one is the least and the last one the greatest. -/
theorem sortedKeys_bounds {h : Hash} (hne : sortedKeys h ≠ []) :
    ∃ first last, (sortedKeys h).head? = some first ∧ (sortedKeys h).getLast? = some last ∧
      (h.value first).isSome ∧ (h.value last).isSome ∧
      ∀ t, (h.value t).isSome → first ≤ t ∧ t ≤ last := by
  have hsorted : (sortedKeys h).Pairwise (· ≤ ·) := List.pairwise_insertionSort _ _
  refine ⟨_, _, List.head?_eq_some_head hne, List.getLast?_eq_some_getLast hne,
    mem_sortedKeys.1 (List.head_mem hne), mem_sortedKeys.1 (List.getLast_mem hne), fun t ht => ?_⟩
  rw [← mem_sortedKeys] at ht
  exact ⟨hsorted.rel_head ht, hsorted.rel_getLast ht⟩

/-- What holds of the loop at `$ts`: the entries behind are complete, the others are as
they were. -/
structure Filled (ps : List (Passage ℚ)) (recorded : Hash) (last : ℤ) (s : ℚ × Hash) (n : ℤ) :
    Prop where
  at_ts : s.1 = n
  le_last : n ≤ last
  behind : ∀ m : ℤ, n < m → m ≤ last →
    ∃ d, s.2.value (m : ℚ) = some d ∧ IsLeast (waits ps (m : ℚ)) d
  ahead : ∀ t ≤ s.1, s.2.value t = recorded.value t

/-- A round fills one entry. -/
theorem value_fillEntry_of_ne (h : Hash) {ts t : ℚ} (hne : ts ≠ t) :
    (fillEntry ts h).value t = h.value t := by
  rw [fillEntry]
  split_ifs
  · rfl
  · exact h.value_assign_of_ne hne _

/-- **The entry that a round completes.**  Where packets arrive it has been recorded, and
where none does the next millisecond is behind. -/
theorem Filled.entry {ps : List (Passage ℚ)} {r : Departures} {last n : ℤ} {ts : ℚ} {table : Hash}
    (h : Filled ps r.signalDelay last (ts, table) n) (hr : Recorded ps r) (hlink : OfLink ps)
    (hlast : ∃ p ∈ ps, p.arrival = last) :
    ∃ d, (fillEntry n table).value n = some d ∧ IsLeast (waits ps (n : ℚ)) d := by
  have hat : table.value n = r.signalDelay.value n := h.ahead n h.at_ts.ge
  rcases hvalue : table.value n with _ | d
  · have hgap : ∀ p ∈ ps, p.arrival ≠ n := by
      intro p hp hn
      have hsome := (hr.isSome n).2 ⟨p, hp, hn⟩
      rw [← hat, hvalue] at hsome
      cases hsome
    have hlt : n < last := by
      refine h.le_last.lt_of_ne ?_
      rintro rfl
      obtain ⟨p, hp, hp_last⟩ := hlast
      exact hgap p hp hp_last
    obtain ⟨d, hd, hleast⟩ := h.behind (n + 1) (by omega) (by omega)
    have hnext : ∀ p ∈ ps, (n : ℚ) ≤ p.arrival → ((n + 1 : ℤ) : ℚ) ≤ p.arrival := by
      intro p hp hle
      obtain ⟨m, hm⟩ := hlink.whole p hp
      have hne := hgap p hp
      rw [hm] at hle hne ⊢
      norm_cast at hle hne ⊢
      omega
    have hstep := isLeast_waits_of_gap (by simp) hnext hleast
    rw [show ((n + 1 : ℤ) : ℚ) = n + 1 by simp] at hd hstep
    rw [add_sub_cancel_left] at hstep
    exact ⟨d + 1, by simp [fillEntry, hvalue, hd], hstep⟩
  · exact ⟨d, by simp [fillEntry, hvalue], hlink.fifo.isLeast_waits (hr.least n d (hat ▸ hvalue))⟩

/-- **A round completes one entry,** and leaves the others. -/
theorem Filled.round {ps : List (Passage ℚ)} {r : Departures} {last n : ℤ} {s : ℚ × Hash}
    (h : Filled ps r.signalDelay last s n) (hr : Recorded ps r) (hlink : OfLink ps)
    (hlast : ∃ p ∈ ps, p.arrival = last) :
    Filled ps r.signalDelay last (s.1 - 1, fillEntry s.1 s.2) (n - 1) := by
  obtain ⟨ts, table⟩ := s
  obtain rfl : ts = n := h.at_ts
  constructor
  · simp
  · have := h.le_last
    omega
  · intro m hm hm_last
    rcases eq_or_ne n m with rfl | hne
    · exact h.entry hr hlink hlast
    · have hne_cast : (n : ℚ) ≠ m := by exact_mod_cast hne
      rw [value_fillEntry_of_ne table hne_cast]
      exact h.behind m (by omega) hm_last
  · intro t ht
    have hlt : t < n := by
      have hle : t ≤ n - 1 := ht
      linarith
    rw [value_fillEntry_of_ne table hlt.ne']
    exact h.ahead t hlt.le

/-- **The loop completes the hash.** -/
theorem complete_recorded {ps : List (Passage ℚ)} {s : Departures} (hs : Recorded ps s)
    (hlink : OfLink ps) (hne : ps ≠ []) :
    ∃ table, complete s.signalDelay = .ok table ∧ SignalDelay ps table := by
  have hkeys : sortedKeys s.signalDelay ≠ [] := by
    obtain ⟨p, hp⟩ := List.exists_mem_of_ne_nil ps hne
    exact List.ne_nil_of_mem (mem_sortedKeys.2 ((hs.isSome p.arrival).2 ⟨p, hp, rfl⟩))
  obtain ⟨first, last, hfirst, hlast, -, hsome_last, hbounds⟩ := sortedKeys_bounds hkeys
  obtain ⟨p, hp, rfl⟩ := (hs.isSome last).1 hsome_last
  obtain ⟨last, hp_last⟩ := hlink.whole p hp
  rw [complete, hfirst, hlast, hp_last]
  refine Loop.run_total (I := fun r => ∃ n, Filled ps s.signalDelay last r n) ?_ ?_
  · rintro ⟨ts, table⟩ ⟨n, hn⟩
    rw [fill_step]
    split_ifs with hle
    · exact Or.inr ⟨_, rfl, n - 1, hn.round hs hlink ⟨p, hp, hp_last⟩⟩
    · refine Or.inl ⟨table, rfl, ?_⟩
      rintro t ⟨q, hq, hq_le⟩ ⟨q', hq', hle_q'⟩
      have hq_first := (hbounds q.arrival ((hs.isSome _).2 ⟨q, hq, rfl⟩)).1
      have hq_last := (hbounds q'.arrival ((hs.isSome _).2 ⟨q', hq', rfl⟩)).2
      refine hn.behind t ?_ ?_
      · have hlt : (n : ℚ) < t := by
          rw [← hn.at_ts]
          exact (not_le.1 hle).trans_le (hq_first.trans hq_le)
        exact_mod_cast hlt
      · rw [hp_last] at hq_last
        exact_mod_cast hle_q'.trans hq_last
  · refine ⟨last, rfl, le_rfl, ?_, fun t _ => rfl⟩
    intro m hm hm_last
    omega

/-! ### The two scripts -/

/-- What `mm-delay-graph` refuses: a departure without a delay. -/
def DelayGraphReads (e : Event) : Prop := e.eventType = ascii "-" → e.delay ≠ none

/-- What `mm-throughput-graph` refuses: an unknown event type, and a departure without a
delay, or before time zero, or that goes back in time. -/
def ThroughputGraphReads (msPerBin : ℕ) (e : Event) : Prop :=
  msPerBin ≠ 0 ∧ e.eventType ∈ [ascii "+", ascii "#", ascii "-"] ∧
    (e.eventType = ascii "-" →
      ∃ delay, e.delay = some delay ∧ 0 ≤ Perl.numify delay ∧ Perl.numify delay ≤ e.timestamp)

/-- `mm-delay-graph` reads an event unless it dies of it. -/
theorem delayGraphEvent_eq_ok_iff (s : Departures) (e : Event) (s' : Departures) :
    delayGraphEvent s e = .ok s' ↔ DelayGraphReads e ∧ s' = s.after e := by
  rw [delayGraphEvent, DelayGraphReads, Departures.after]
  split_ifs with hdeparture
  · rcases hdelay : e.delay with _ | delay
    · simp [hdeparture]
    · simp [eq_comm]
  · simp [hdeparture, eq_comm]

/-- So does `mm-throughput-graph`. -/
theorem throughputGraphEvent_eq_ok_iff (msPerBin : ℕ) (s : Departures) (e : Event)
    (s' : Departures) :
    throughputGraphEvent msPerBin s e = .ok s' ↔
      ThroughputGraphReads msPerBin e ∧ s' = s.after e := by
  have hplus : ascii "-" ≠ ascii "+" := by decide
  have hhash : ascii "-" ≠ ascii "#" := by decide
  rw [throughputGraphEvent, ThroughputGraphReads, Departures.after]
  by_cases hbin : msPerBin = 0
  · simp [hbin]
  by_cases hdeparture : e.eventType = ascii "-"
  · rcases hdelay : e.delay with _ | delay
    · simp [hdeparture, hplus, hhash, hbin]
    · rcases lt_or_ge (Perl.numify delay) 0 with hneg | hnonneg
      · simp [hdeparture, hplus, hhash, hbin, hneg, not_le.2 hneg]
      · rcases lt_or_ge (e.timestamp : ℚ) (Perl.numify delay) with hlt | hle
        · simp [hdeparture, hplus, hhash, hbin, not_lt.2 hnonneg, hlt, not_le.2 hlt]
        · simp [hdeparture, hplus, hhash, hbin, hnonneg, not_lt.2 hnonneg, hle, not_lt.2 hle,
            eq_comm]
  · by_cases harrival : e.eventType = ascii "+" ∨ e.eventType = ascii "#"
    · simp [hbin, hdeparture, harrival, eq_comm]
    · simp [hbin, hdeparture, harrival]

/-- What a script has read of a log. -/
theorem readLog_departures {process : Departures → Event → Except Bytes Departures} {P : Event → Prop}
    (hprocess : ∀ s e s', process s e = .ok s' ↔ P e ∧ s' = s.after e) {lines : List Bytes}
    {log : Variables (List Event)} (h : events lines = .ok log) {read : Variables Departures} :
    readLog process {} lines = .ok read ↔
      (∀ e ∈ log.graph, P e) ∧ read = { log with graph := log.graph.foldl Departures.after {} } := by
  rw [readLog_eq process {} h, map_eq_ok]
  constructor
  · rintro ⟨g, hg, rfl⟩
    obtain ⟨hreads, rfl⟩ := (foldlM_eq_ok_iff hprocess).1 hg
    exact ⟨hreads, rfl⟩
  · rintro ⟨hreads, rfl⟩
    exact ⟨_, (foldlM_eq_ok_iff hprocess).2 ⟨hreads, rfl⟩, rfl⟩

/-- **When `mm-delay-graph` completes a signal delay, and which.** -/
theorem delayGraph_eq_ok_iff {lines : List Bytes} {log : Variables (List Event)}
    (h : events lines = .ok log) {table : Hash} :
    delayGraph lines = .ok table ↔ ((∀ e ∈ log.graph, DelayGraphReads e) ∧ passages log.graph ≠ []) ∧
      complete (log.graph.foldl Departures.after {}).signalDelay = .ok table := by
  have hempty := (recorded_foldl log.graph).empty
  rw [delayGraph, bind_eq_ok]
  simp only [readLog_departures delayGraphEvent_eq_ok_iff h]
  constructor
  · rintro ⟨read, ⟨hreads, rfl⟩, hread⟩
    split_ifs at hread with hdelays
    exact ⟨⟨hreads, fun hps => hdelays (hempty.2 hps)⟩, hread⟩
  · rintro ⟨⟨hreads, hps⟩, htable⟩
    refine ⟨_, ⟨hreads, rfl⟩, ?_⟩
    rw [if_neg fun hdelays => hps (hempty.1 hdelays)]
    exact htable

/-- The duration that `mm-throughput-graph` divides by. -/
def LogLasts {γ : Type} (log : Variables γ) : Prop :=
  ∃ first last, log.firstTimestamp = some first ∧ log.lastTimestamp = some last ∧ last - first ≠ 0

/-- **When `mm-throughput-graph` completes a signal delay, and which.** -/
theorem throughputGraph_eq_ok_iff {msPerBin : ℕ} {lines : List Bytes} {log : Variables (List Event)}
    (h : events lines = .ok log) {table : Hash} :
    throughputGraph msPerBin lines = .ok table ↔
      ((∀ e ∈ log.graph, ThroughputGraphReads msPerBin e) ∧ LogLasts log ∧ passages log.graph ≠ []) ∧
        complete (log.graph.foldl Departures.after {}).signalDelay = .ok table := by
  have hempty := (recorded_foldl log.graph).empty
  rw [throughputGraph, bind_eq_ok]
  simp only [readLog_departures (throughputGraphEvent_eq_ok_iff msPerBin) h]
  constructor
  · rintro ⟨read, ⟨hreads, rfl⟩, hread⟩
    split at hread
    · rename_i first last hfirst hlast
      split_ifs at hread with hduration hdelays
      exact ⟨⟨hreads, ⟨first, last, hfirst, hlast, hduration⟩, fun hps => hdelays (hempty.2 hps)⟩,
        hread⟩
    · cases hread
  · rintro ⟨⟨hreads, ⟨first, last, hfirst, hlast, hduration⟩, hps⟩, htable⟩
    refine ⟨_, ⟨hreads, rfl⟩, ?_⟩
    simp only [hfirst, hlast]
    rw [if_neg hduration, if_neg fun hdelays => hps (hempty.1 hdelays)]
    exact htable

/-- **The signal delay is the least time in which a message gets through,** in both
scripts, for every millisecond between the first arrival and the last one.  The
conditions say for which logs they get there. -/
theorem signal_delay {lines : List Bytes} {log : Variables (List Event)}
    (h : events lines = .ok log) (hlink : OfLink (passages log.graph)) :
    (∀ table, delayGraph lines = .ok table → SignalDelay (passages log.graph) table) ∧
    (∀ msPerBin table, throughputGraph msPerBin lines = .ok table →
      SignalDelay (passages log.graph) table) ∧
    ((∃ table, delayGraph lines = .ok table) ↔
      (∀ e ∈ log.graph, DelayGraphReads e) ∧ passages log.graph ≠ []) ∧
    ∀ msPerBin, (∃ table, throughputGraph msPerBin lines = .ok table) ↔
      (∀ e ∈ log.graph, ThroughputGraphReads msPerBin e) ∧ LogLasts log ∧
        passages log.graph ≠ [] := by
  have hcomplete := complete_recorded (recorded_foldl log.graph) hlink
  have hsound : ∀ table, passages log.graph ≠ [] →
      complete (log.graph.foldl Departures.after {}).signalDelay = .ok table →
      SignalDelay (passages log.graph) table := by
    intro table hps htable
    obtain ⟨table', htable', hleast⟩ := hcomplete hps
    obtain rfl := Except.ok.inj (htable.symm.trans htable')
    exact hleast
  refine ⟨fun table htable => ?_, fun msPerBin table htable => ?_, ?_, fun msPerBin => ?_⟩
  · obtain ⟨⟨-, hps⟩, htable⟩ := (delayGraph_eq_ok_iff h).1 htable
    exact hsound table hps htable
  · obtain ⟨⟨-, -, hps⟩, htable⟩ := (throughputGraph_eq_ok_iff h).1 htable
    exact hsound table hps htable
  · simp only [delayGraph_eq_ok_iff h]
    constructor
    · rintro ⟨table, hreads, -⟩
      exact hreads
    · rintro ⟨hreads, hps⟩
      obtain ⟨table, htable, -⟩ := hcomplete hps
      exact ⟨table, ⟨hreads, hps⟩, htable⟩
  · simp only [throughputGraph_eq_ok_iff h]
    constructor
    · rintro ⟨table, hreads, -⟩
      exact hreads
    · rintro ⟨hreads, hlasts, hps⟩
      obtain ⟨table, htable, -⟩ := hcomplete hps
      exact ⟨table, ⟨hreads, hlasts, hps⟩, htable⟩

/-- Two packets arrive in a millisecond, and the next one eight milliseconds later. -/
def gapLog : List Bytes := [
  ascii "# base timestamp: 10", ascii "12 + 1504", ascii "12 + 100", ascii "15 - 1504 3",
  ascii "16 - 100 4", ascii "20 + 1504", ascii "25 - 1504 5"]

/-- Between two arrivals, the delay is that of the next one and the wait for it. -/
theorem signal_delay_gap : ∃ log table, events gapLog = .ok log ∧ delayGraph gapLog = .ok table ∧
    throughputGraph 500 gapLog = .ok table ∧ table.value 2 = some 3 ∧ table.value 3 = some 12 ∧
    SignalDelay (passages log.graph) table := by
  have hevents : events gapLog = .ok {
      baseTimestamp := some 10
      firstTimestamp := some 2
      lastTimestamp := some 15
      graph := [⟨2, ascii "+", 1504, none⟩, ⟨2, ascii "+", 100, none⟩,
        ⟨5, ascii "-", 1504, some (ascii "3")⟩, ⟨6, ascii "-", 100, some (ascii "4")⟩,
        ⟨10, ascii "+", 1504, none⟩, ⟨15, ascii "-", 1504, some (ascii "5")⟩] } := rfl
  have hdelay : delayGraph gapLog = .ok [(3, 12), (4, 11), (5, 10), (6, 9), (7, 8), (8, 7),
      (9, 6), (10, 5), (2, 3), (2, 3)] := by
    decide +kernel
  have hlink : OfLink [⟨2, 5⟩, ⟨2, 6⟩, ⟨10, 15⟩] := by
    constructor
    · norm_num [Fifo]
    · simp only [List.forall_mem_cons, List.not_mem_nil]
      exact ⟨⟨2, by simp⟩, ⟨2, by simp⟩, ⟨10, by simp⟩, by simp⟩
  obtain ⟨hsound, -⟩ := signal_delay hevents (by
    rw [show passages _ = [⟨2, 5⟩, ⟨2, 6⟩, ⟨10, 15⟩] by decide +kernel]
    exact hlink)
  exact ⟨_, _, hevents, hdelay, by decide +kernel, by decide +kernel, by decide +kernel,
    hsound _ hdelay⟩

end GraphLog
end V2Proxy
