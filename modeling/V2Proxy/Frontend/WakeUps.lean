/-
# When the event loop wakes up

`rationalize` emulates the link up to the reading of the clock, so a wake-up
between two arrivals only does earlier what the next call would do
(`Rationalizes.resume`).  A packet queue that does not look at the clock cannot
tell either, and so what a link does depends on the arrivals alone.

A CoDel or a PIE queue reads the clock when a packet is taken off it, and this is
the time of the wake-up.
-/

import V2Proxy.Frontend.Link

namespace V2Proxy

open Foundations

def Call.isArrival : Call → Bool
  | .readPacket _ _ => true
  | _ => false

/-- These disciplines do not look at the clock. -/
theorem getPacketQueue_clockless {type : Bytes}
    (htype : type = ascii "infinite" ∨ type = ascii "droptail" ∨ type = ascii "drophead")
    (args : Bytes) (clock clock' : Stream' ℕ) (draws draws' : Stream' Float) :
    getPacketQueue type args clock draws = getPacketQueue type args clock' draws' := by
  unfold getPacketQueue
  by_cases h₁ : type = ascii "infinite"
  · rw [if_pos h₁, if_pos h₁]
  · by_cases h₂ : type = ascii "droptail"
    · rw [if_neg h₁, if_pos h₂, if_neg h₁, if_pos h₂]
    · have h₃ : type = ascii "drophead" := (htype.resolve_left h₁).resolve_left h₂
      rw [if_neg h₁, if_neg h₂, if_pos h₃, if_neg h₁, if_neg h₂, if_pos h₃]

namespace Link

open LinkQueue

variable {k k' k'' : Link} {c : Call} {calls : List Call} {now t : ℕ} {l l' : LinkQueue}

/-- Readings of the clock that do not go back, and end at `t` at the latest. -/
def Ordered (calls : List Call) (t : ℕ) : Prop :=
  (calls.filterMap Call.reading ++ [t]).Pairwise (· ≤ ·)

/-- The calls lead to a link that is at `l` once it is rationalized at `t`. -/
def EndsAt (k : Link) (calls : List Call) (t : ℕ) (l : LinkQueue) : Prop :=
  ∃ k', Run Step k calls k' ∧ k'.queue.Rationalizes t l

/-- A call has one outcome. -/
theorem Step.unique (h : Step k c k') (h' : Step k c k'') : k' = k'' := by
  cases h with
  | readPacket _ hrat haccept =>
      cases h' with
      | readPacket _ hrat' haccept' =>
          cases hrat.unique hrat'
          rw [haccept] at haccept'
          cases haccept'
          rfl
  | waitTime hrat _ =>
      cases h' with
      | waitTime hrat' _ =>
          cases hrat.unique hrat'
          rfl
  | writePackets =>
      cases h'
      rfl

theorem EndsAt.unique (h : EndsAt k calls t l) (h' : EndsAt k calls t l') : l = l' := by
  obtain ⟨k₁, hrun, hrat⟩ := h
  obtain ⟨k₂, hrun', hrat'⟩ := h'
  have hunique : ∀ k c k' k'', Step k c k' → Step k c k'' → k' = k'' :=
    fun _ _ _ _ => Step.unique
  obtain rfl := hrun.unique hunique hrun'
  cases hrat.unique hrat'
  rfl

/-- **A call cannot tell that the link was woken up before.** -/
theorem Step.resume (hl : k.queue.Rationalizes now l) (hc : ∃ t, c.reading = some t ∧ now ≤ t) :
    Step { k with queue := l } c k' ↔ Step k c k' := by
  obtain ⟨t, ht, hle⟩ := hc
  have hresume := fun l' => (rationalizeStep_earlier hle).resume (r := .ok l') hl
  constructor
  · rintro (⟨hsize, hrat, haccept⟩ | ⟨hrat, hwait⟩ | _)
    · cases ht
      exact .readPacket hsize ((hresume _).1 hrat) haccept
    · cases ht
      exact .waitTime ((hresume _).1 hrat) hwait
    · cases ht
  · rintro (⟨hsize, hrat, haccept⟩ | ⟨hrat, hwait⟩ | _)
    · cases ht
      exact .readPacket (k := { k with queue := l }) hsize ((hresume _).2 hrat) haccept
    · cases ht
      exact .waitTime (k := { k with queue := l }) ((hresume _).2 hrat) hwait
    · cases ht

theorem EndsAt.cons_iff : EndsAt k (c :: calls) t l ↔ ∃ k', Step k c k' ∧ EndsAt k' calls t l := by
  constructor
  · rintro ⟨k'', hrun, hrat⟩
    obtain ⟨k', hstep, hrun⟩ := Run.cons_iff.1 hrun
    exact ⟨k', hstep, k'', hrun, hrat⟩
  · rintro ⟨k', hstep, k'', hrun, hrat⟩
    exact ⟨k'', .cons hstep hrun, hrat⟩

theorem Ordered.tail (h : Ordered (c :: calls) t) : Ordered calls t := by
  rw [Ordered, List.filterMap_cons] at h
  split at h
  · exact h
  · exact (List.pairwise_cons.1 h).2

/-- `now` is no later than the first reading of the calls, or than `t`. -/
def Before (now : ℕ) (calls : List Call) (t : ℕ) : Prop :=
  now ≤ t ∧ ∀ c, calls.head? = some c → ∃ t, c.reading = some t ∧ now ≤ t

theorem Ordered.before (h : Ordered (c :: calls) t) (hc : c.reading = some now)
    (hw : .writePackets ∉ calls) : Before now calls t := by
  rw [Ordered, List.filterMap_cons, hc] at h
  have hle := (List.pairwise_cons.1 h).1
  refine ⟨hle t (by simp), fun c' hc' => ?_⟩
  have hmem : c' ∈ calls := List.mem_of_mem_head? hc'
  cases hreading : c'.reading with
  | none =>
      cases c' <;> cases hreading
      exact absurd hmem hw
  | some t' => exact ⟨t', rfl, hle t' (List.mem_append_left _
      (List.mem_filterMap.2 ⟨c', hmem, hreading⟩))⟩

/-- **Nor can a sequence of calls.** -/
theorem EndsAt.resume (hl : k.queue.Rationalizes now l) (h : Before now calls t) :
    EndsAt { k with queue := l } calls t l' ↔ EndsAt k calls t l' := by
  cases calls with
  | nil =>
      constructor
      · rintro ⟨k', hrun, hrat⟩
        cases Run.nil_iff.1 hrun
        exact ⟨k, .nil k, ((rationalizeStep_earlier h.1).resume hl).1 hrat⟩
      · rintro ⟨k', hrun, hrat⟩
        cases Run.nil_iff.1 hrun
        exact ⟨_, .nil _, ((rationalizeStep_earlier h.1).resume hl).2 hrat⟩
  | cons c calls =>
      rw [EndsAt.cons_iff, EndsAt.cons_iff]
      exact exists_congr fun k' => and_congr_left fun _ => Step.resume hl (h.2 c rfl)

/-- Where a sequence of calls returns, an earlier wake-up does. -/
theorem EndsAt.wakeUp (h : EndsAt k calls t l') (hnow : Before now calls t) :
    ∃ l, k.queue.Rationalizes now l := by
  cases calls with
  | nil =>
      obtain ⟨k', hrun, hrat⟩ := h
      cases Run.nil_iff.1 hrun
      exact (rationalizeStep_earlier hnow.1).returns hrat
  | cons c calls =>
      obtain ⟨k', hstep, -⟩ := EndsAt.cons_iff.1 h
      obtain ⟨t', ht', hle⟩ := hnow.2 c rfl
      rcases hstep with ⟨-, hrat, -⟩ | ⟨hrat, -⟩ | _
      · cases ht'
        exact (rationalizeStep_earlier hle).returns hrat
      · cases ht'
        exact (rationalizeStep_earlier hle).returns hrat
      · cases ht'

/-- **A wake-up changes nothing.** -/
theorem EndsAt.waitTime_iff (hnow : Before now calls t) :
    EndsAt k (.waitTime now :: calls) t l' ↔ EndsAt k calls t l' := by
  rw [EndsAt.cons_iff]
  constructor
  · rintro ⟨k', hstep, hend⟩
    cases hstep with
    | waitTime hrat _ => exact (EndsAt.resume hrat hnow).1 hend
  · intro hend
    obtain ⟨l, hrat⟩ := hend.wakeUp hnow
    obtain ⟨next, hnext, -⟩ := hrat.nextDeliveryTime
    have hwait : ∃ n, l.waitAfter now = .ok n := ⟨_, by rw [waitAfter, hnext]; rfl⟩
    obtain ⟨n, hwait⟩ := hwait
    exact ⟨{ k with queue := l }, .waitTime hrat hwait, (EndsAt.resume hrat hnow).2 hend⟩

/-- The wake-ups can be left out, one after the other. -/
theorem EndsAt.arrivals_iff (hw : .writePackets ∉ calls) (h : Ordered calls t) :
    EndsAt k calls t l ↔ EndsAt k (calls.filter Call.isArrival) t l := by
  induction calls generalizing k with
  | nil => rfl
  | cons c calls ih =>
      have hw' : .writePackets ∉ calls := fun hmem => hw (List.mem_cons_of_mem _ hmem)
      have ih' := fun k => ih (k := k) hw' h.tail
      cases c with
      | readPacket contents now =>
          change _ ↔ EndsAt k (.readPacket contents now :: calls.filter Call.isArrival) t l
          rw [EndsAt.cons_iff, EndsAt.cons_iff]
          exact exists_congr fun k' => and_congr_right fun _ => ih' k'
      | waitTime now =>
          change _ ↔ EndsAt k (calls.filter Call.isArrival) t l
          rw [← ih' k]
          exact EndsAt.waitTime_iff (h.before rfl hw')
      | writePackets => exact absurd List.mem_cons_self hw

/-- **The link does not depend on when the event loop wakes up.**  For the
disciplines that do not look at the clock, two sequences of calls with the same
arrivals, whatever calls of `wait_time` are inserted between them, abort both or
lead to the same link once it is rationalized at the same time: the same packets
have left it, and the same times are recorded. -/
theorem independent_of_wakeUps {type args filename trace : Bytes} {repeats : Bool}
    {timestamp : ℕ} {clock₁ clock₂ : Stream' ℕ} {draws₁ draws₂ : Stream' Float} {k₁ k₂ : Link}
    {calls₁ calls₂ : List Call}
    (htype : type = ascii "infinite" ∨ type = ascii "droptail" ∨ type = ascii "drophead")
    (hstart₁ : Link.start type args filename trace repeats timestamp clock₁ draws₁ = .ok k₁)
    (hstart₂ : Link.start type args filename trace repeats timestamp clock₂ draws₂ = .ok k₂)
    (hw₁ : .writePackets ∉ calls₁) (hw₂ : .writePackets ∉ calls₂)
    (hordered₁ : Ordered calls₁ t) (hordered₂ : Ordered calls₂ t)
    (harrivals : calls₁.filter Call.isArrival = calls₂.filter Call.isArrival) :
    (∀ l, EndsAt k₁ calls₁ t l ↔ EndsAt k₂ calls₂ t l) ∧
      ∀ l₁ l₂, EndsAt k₁ calls₁ t l₁ → EndsAt k₂ calls₂ t l₂ → l₁ = l₂ := by
  have hk : k₁ = k₂ := by
    rw [start, getPacketQueue_clockless htype args clock₁ clock₂ draws₁ draws₂] at hstart₁
    rw [start] at hstart₂
    exact Except.ok.inj (hstart₁.symm.trans hstart₂)
  subst hk
  have hiff : ∀ l, EndsAt k₁ calls₁ t l ↔ EndsAt k₁ calls₂ t l := by
    intro l
    rw [EndsAt.arrivals_iff hw₁ hordered₁, EndsAt.arrivals_iff hw₂ hordered₂, harrivals]
  exact ⟨hiff, fun l₁ l₂ h₁ h₂ => ((hiff l₁).1 h₁).unique h₂⟩

/-- A packet that arrives at 0, without and with two wake-ups. -/
theorem independent_of_wakeUps_everyMillisecond :
    (∃ l, EndsAt { queue := everyMillisecond } [.readPacket [7] 0] 2 l) ∧
    (∀ l, EndsAt { queue := everyMillisecond } [.readPacket [7] 0] 2 l ↔
      EndsAt { queue := everyMillisecond } [.waitTime 0, .readPacket [7] 0, .waitTime 1] 2 l) ∧
      ∀ l₁ l₂, EndsAt { queue := everyMillisecond } [.readPacket [7] 0] 2 l₁ →
        EndsAt { queue := everyMillisecond } [.waitTime 0, .readPacket [7] 0, .waitTime 1] 2 l₂ →
          l₁ = l₂ := by
  constructor
  · exact ⟨_, _, .cons (.readPacket (by decide) ⟨1, rfl⟩ rfl) (.nil _), 3, rfl⟩
  · exact independent_of_wakeUps (Or.inl rfl)
      (start_everyMillisecond (Stream'.const 0) (Stream'.const 0))
      (start_everyMillisecond (Stream'.const 1) (Stream'.const 1)) (by simp) (by simp)
      (by simp [Ordered, Call.reading]) (by simp [Ordered, Call.reading]) rfl

end Link

end V2Proxy
