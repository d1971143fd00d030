/-
# How long the event loop waits

`wait_time` is an `unsigned int`: the 64-bit time to the next delivery, cut off to 32 bits.
`EventLoop::internal_loop` takes it from a `std::function<int( void )>`, so `poll` is given
the same 32 bits as an `int`, and a negative timeout waits forever (`pollTimeout`).

The loop wakes up in time (`WakesInTime`) just if those 32 bits are a positive `int`
(`wakesInTime_iff_gap`); this is so for a `LinkQueue` and for a `DelayQueue`
(`wakesInTime_iff`).
-/

import V2Proxy.Frontend.Deliverable
import V2Proxy.Frontend.DelayQueue
import V2Proxy.Frontend.Link

namespace V2Proxy

open Foundations

/-- The timeout of `poll`: what `wait_time` returns, converted to `int`. -/
def pollTimeout (waitTime : ℕ) : ℤ := toInt32 waitTime

/-- The timeout is not negative, not longer than what is left until `due`, and positive if
there is something left. -/
def WakesInTime (due now : ℕ) (timeout : ℤ) : Prop :=
  0 ≤ timeout ∧ timeout ≤ (due - now : ℕ) ∧ (now < due → 0 < timeout)

/-- The last 32 bits of the time that is left are those of a positive `int`. -/
def GapFits (due now : ℕ) : Prop := 0 < (due - now) % 2 ^ 32 ∧ (due - now) % 2 ^ 32 < 2 ^ 31

instance (due now : ℕ) : Decidable (GapFits due now) := inferInstanceAs (Decidable (_ ∧ _))

/-- What `wait_time` computes wakes the loop up in time, just if nothing is left or the time
left fits. -/
theorem wakesInTime_iff_gap (due now : ℕ) :
    WakesInTime due now (pollTimeout (if due ≤ now then 0 else (due - now) % 2 ^ 32)) ↔
      due ≤ now ∨ GapFits due now := by
  by_cases hdue : due ≤ now
  · rw [if_pos hdue]
    refine iff_of_true ⟨by decide, by positivity, fun hlt => absurd hdue (by omega)⟩ (Or.inl hdue)
  · have hlt : now < due := Nat.lt_of_not_le hdue
    rw [if_neg hdue, or_iff_right hdue, WakesInTime, GapFits, pollTimeout, toInt32, Int.bmod_def]
    constructor
    · rintro ⟨hnonneg, hle, hpos⟩
      have := hpos hlt
      split_ifs at this hnonneg <;> omega
    · rintro ⟨hpos, hsmall⟩
      split_ifs
      · exact ⟨by omega, by omega, fun _ => by omega⟩
      · omega

namespace LinkQueue

/-- A round of `rationalize` that uses the opportunity and sends nothing. -/
def skipStep (now : ℕ) (l : LinkQueue) : Except Fault (LinkQueue ⊕ LinkQueue) := do
  let time ← l.nextDeliveryTime
  if time ≤ now then
    let l ← l.useADeliveryOpportunity
    return .inl l
  else return .inr l

/-- From the place of the link on, `due` is the first time of the schedule after `now`. -/
def Upcoming (l : LinkQueue) (now due : ℕ) : Prop :=
  ∃ l', Returns (skipStep now) l (.ok l') ∧ l'.nextDeliveryTime = .ok due

variable {l l' : LinkQueue} {now due t : ℕ}

theorem SamePlace.recordOpportunity (h : SamePlace l l') (t : ℕ) :
    SamePlace (l.recordOpportunity t) (l'.recordOpportunity t) := by
  refine ⟨h.nextDelivery, h.schedule, h.baseTimestamp, h.repeats, h.finished, ?_⟩
  have hlog := h.consumed
  unfold LinkQueue.consumed at hlog ⊢
  rw [LinkQueue.recordOpportunity, LinkQueue.recordOpportunity, List.filterMap_append,
    List.filterMap_append, hlog]

/-- Where the link goes on depends on its place alone. -/
theorem SamePlace.advance (h : SamePlace l l') : SamePlace l.advance l'.advance := by
  have hconsumed := h.consumed
  unfold LinkQueue.consumed at hconsumed
  unfold LinkQueue.advance
  dsimp only
  rw [h.schedule, h.nextDelivery, h.baseTimestamp, h.repeats]
  split_ifs
  · exact ⟨rfl, rfl, rfl, rfl, h.finished, hconsumed⟩
  · exact ⟨rfl, rfl, rfl, rfl, rfl, hconsumed⟩
  · exact ⟨rfl, rfl, rfl, rfl, h.finished, hconsumed⟩

/-- **A call of `rationalize` leads to the upcoming delivery.** -/
theorem Rationalizes.upcoming (h : Rationalizes now l l') (hdue : l.Upcoming now due) :
    l'.nextDeliveryTime = .ok due ∧ now < due := by
  have hsame : ∃ m, Returns (skipStep now) l (.ok m) ∧ SamePlace m l' := by
    refine Returns.induction (f := rationalizeStep now) (motive := fun l r => ∀ l', r = .ok l' →
      ∀ m, SamePlace m l → ∃ m', Returns (skipStep now) m (.ok m') ∧ SamePlace m' l')
      (fun _ _ _ _ hr => by cases hr) (fun l x hx l' hr m hm => ?_)
      (fun l l₁ r hn _ ih l' hr m hm => ?_) h l' rfl l (.refl l)
    · cases hr
      obtain ⟨rfl, t, ht, hlt⟩ := rationalizeStep_leave hx
      refine ⟨m, .of_leave ?_, hm⟩
      rw [hm.nextDeliveryTime] at ht
      rw [skipStep, ht, ok_bind, if_neg (by omega)]
      rfl
    · obtain ⟨t, n, ht, hle, hrun⟩ := rationalizeStep_next hn
      rw [hm.nextDeliveryTime] at ht
      have hstep : skipStep now m = .ok (.inl (m.recordOpportunity t).advance) := by
        rw [skipStep, ht, ok_bind, if_pos hle, useADeliveryOpportunity_eq ht]
        rfl
      obtain ⟨m', hm', hplace⟩ := ih l' hr _ ((hm.recordOpportunity t).advance.trans (sendLoop_samePlace hrun))
      exact ⟨m', (returns_iff_of_next hstep).2 hm', hplace⟩
  obtain ⟨m, hm, hplace⟩ := hsame
  obtain ⟨m', hm', htime⟩ := hdue
  cases hm.unique hm'
  obtain ⟨t, ht, hlt⟩ := h.nextDeliveryTime
  rw [hplace.nextDeliveryTime] at ht ⊢
  rw [htime] at ht ⊢
  cases ht
  exact ⟨rfl, hlt⟩

end LinkQueue

/-- **The event loop wakes up in time,** if and only if the time that is left at `now` until
the next delivery fits.  For a link this is the first time of its schedule after the clock, and
`next_delivery_time()` is this time when `wait_time` returns; for a delay queue it is the
release of the packet in front. -/
theorem wakesInTime_iff (now : ℕ) :
    (∀ (l l' : LinkQueue) (due n : ℕ), l.Upcoming now due → l.Rationalizes now l' →
      l'.waitAfter now = .ok n → l'.nextDeliveryTime = .ok due ∧
        (WakesInTime due now (pollTimeout n) ↔ GapFits due now)) ∧
    ∀ (q : DelayQueue) (release : ℕ) (contents : Bytes) (rest : List (ℕ × Bytes)),
      q.packetQueue = (release, contents) :: rest → q.clock.head = now →
        (WakesInTime release now (pollTimeout q.waitTime.1) ↔
          release ≤ now ∨ GapFits release now) := by
  constructor
  · intro l l' due n hdue hrat hwait
    obtain ⟨htime, hlt⟩ := hrat.upcoming hdue
    rw [LinkQueue.waitAfter, htime, ok_bind] at hwait
    have hiff := wakesInTime_iff_gap due now
    rw [Except.ok.inj hwait, or_iff_right (by omega)] at hiff
    exact ⟨htime, hiff⟩
  · intro q release contents rest hq hnow
    have hwait : q.waitTime.1 = if release ≤ now then 0 else (release - now) % 2 ^ 32 := by
      rw [DelayQueue.waitTime, hq, hnow]
    rw [hwait]
    exact wakesInTime_iff_gap release now

/-- A link with an opportunity in a millisecond, and a packet that is released in one. -/
theorem wakesInTime_iff_millisecond :
    WakesInTime 1 0 (pollTimeout 1) ∧
      WakesInTime 1 0 (pollTimeout (DelayQueue.waitTime
        { delayMs := 1, packetQueue := [(1, [7])], clock := Stream'.const 0 }).1) := by
  have hup : Link.everyMillisecond.Upcoming 0 1 := ⟨_, ⟨1, rfl⟩, rfl⟩
  have hrat : Link.everyMillisecond.Rationalizes 0 Link.everyMillisecond := ⟨1, rfl⟩
  constructor
  · exact (((wakesInTime_iff 0).1 _ _ 1 1 hup hrat rfl).2).2 (by decide)
  · exact ((wakesInTime_iff 0).2 _ 1 [7] [] rfl rfl).2 (Or.inr (by decide))

/-- **A gap of `2 ^ 31` milliseconds:** the first call of `wait_time` makes `poll` wait
forever, for a trace as for a delay. -/
theorem long_gap_sleeps_forever :
    (∃ k k' : Link,
      Link.start (ascii "infinite") [] [] (ascii "2147483648\n") true 0 (Stream'.const 0)
        (Stream'.const 0) = .ok k ∧
      Run Link.Step k [.waitTime 0] k' ∧ k'.queue.nextDeliveryTime = .ok (2 ^ 31) ∧
      k'.queue.waitAfter 0 = .ok (2 ^ 31) ∧ pollTimeout (2 ^ 31) = -2 ^ 31 ∧
      ¬ WakesInTime (2 ^ 31) 0 (pollTimeout (2 ^ 31))) ∧
    ∃ k k' : DelayLink, k = { queue := { delayMs := 2 ^ 31, clock := Stream'.const 0 } } ∧
      Run (fun k c k' => k' = DelayLink.call k c) k [.readPacket [7]] k' ∧
      k'.queue.packetQueue = [(2 ^ 31, [7])] ∧ k'.queue.waitTime.1 = 2 ^ 31 ∧
      ¬ WakesInTime (2 ^ 31) k'.queue.clock.head (pollTimeout k'.queue.waitTime.1) := by
  have hsleeps : ¬ WakesInTime (2 ^ 31) 0 (pollTimeout (2 ^ 31)) := by
    intro h
    exact absurd h.1 (by decide)
  constructor
  · have hschedule : LinkQueue.loadSchedule [] (ascii "2147483648\n") = .ok [2 ^ 31] := by
      decide +kernel
    refine ⟨{ queue := { schedule := [2 ^ 31], baseTimestamp := 0, packetQueue := .infinite {},
                         repeats := true } }, _, ?_, .cons (.waitTime (n := 2 ^ 31) ⟨1, rfl⟩ rfl) (.nil _),
      rfl, rfl, by decide, hsleeps⟩
    unfold Link.start LinkQueue.new
    rw [getPacketQueue, if_pos rfl, hschedule]
    rfl
  · exact ⟨_, _, rfl, .cons rfl (.nil _), rfl, rfl, hsleeps⟩

end V2Proxy
