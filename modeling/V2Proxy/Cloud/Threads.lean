/-
# Connection threads on the shared resource list

Every connection has a thread of its own (`HTTPProxy::handle_tcp`), and
`cloud_resource_list_` is `static`, so all threads share one list.
`invoke_resource` holds `cloud_resource_list_mutex`: it is one atomic step.
`invoke_many_resources` holds nothing between its rounds, so other threads run
in between (`Step`).  A thread may call either function at any time, with any
arguments.

`created` and `returned` record what happened: the resources in the order of the
steps that constructed them, and the values the calls returned.  The invariant is
that the quota goes to the first resources created (`Inv`), whoever asked, so
the grants of all calls add up to the invoked list.
-/

import V2Proxy.Cloud.CloudResourceList
import V2Proxy.Foundations.Runs
import Mathlib.Algebra.BigOperators.Group.Finset.Piecewise
import Mathlib.Data.Fintype.Basic
import Mathlib.Tactic.Ring

namespace V2Proxy

open Foundations

/-- Where a thread is. -/
inductive Frame where
  | idle
  /-- `invoke_resource` is called and waits for the mutex -/
  | invokeResource (resourceType : Bytes)
  /-- `invoke_resource` has run and is about to return -/
  | invoked (result : Bool)
  /-- at the head of the loop of `invoke_many_resources` -/
  | invokeMany (resourceType : Bytes) (countRequested i invokeCount : ℤ)

/-- What a call returned. -/
inductive Returned where
  | ofInvokeResource (result : Bool)
  | ofInvokeMany (invokeCount : ℤ)

/-- The resources a call says it was granted. -/
def Returned.granted : Returned → ℤ
  | .ofInvokeResource result => if result then 1 else 0
  | .ofInvokeMany invokeCount => invokeCount

/-- The resources a call under way has been granted so far. -/
def Frame.granted : Frame → ℤ
  | .idle | .invokeResource _ => 0
  | .invoked result => if result then 1 else 0
  | .invokeMany _ _ _ invokeCount => invokeCount

/-- The threads `ι` and the list they share. -/
structure Threads (ι : Type) where
  list : CloudResourceList := {}
  frames : ι → Frame := fun _ => .idle
  created : List CloudResource := []
  returned : List Returned := []

namespace Threads

variable {ι : Type}

/-- The grants of all calls that have returned. -/
def granted (s : Threads ι) : ℤ := (s.returned.map Returned.granted).sum

/-- The grants of all calls under way. -/
def pending [Fintype ι] (s : Threads ι) : ℤ := ∑ i, (s.frames i).granted

/-- The invariant: the first resources created hold the quota, in order; the id
of a resource is the number of resources created before it; and all grants add
up to the invoked list. -/
structure Inv [Fintype ι] (s : Threads ι) : Prop where
  invoked : s.list.invoked = s.created.take INVOKE_LIMIT
  blocked : s.list.blocked = s.created.drop INVOKE_LIMIT
  ids : s.created.length < 2 ^ 31 →
    s.created.map CloudResource.idCounter = (List.range s.created.length).map Nat.cast
  grants : s.granted + s.pending = s.list.invoked.length

/-- Nothing has been created at the start. -/
theorem inv_start [Fintype ι] : ({} : Threads ι).Inv := by
  refine ⟨rfl, rfl, fun _ => rfl, ?_⟩
  simp [granted, pending, Frame.granted]

/-- The two lists together are the resources created. -/
theorem Inv.append [Fintype ι] {s : Threads ι} (h : s.Inv) :
    s.list.invoked ++ s.list.blocked = s.created := by
  rw [h.invoked, h.blocked, List.take_append_drop]

/-- The size of the list is their number. -/
theorem Inv.size [Fintype ι] {s : Threads ι} (h : s.Inv) : s.list.size = s.created.length := by
  rw [← h.append, List.length_append]
  rfl

variable [DecidableEq ι]

/-- Thread `i` is at `frame` now. -/
def goto (s : Threads ι) (i : ι) (frame : Frame) : Threads ι :=
  { s with frames := Function.update s.frames i frame }

/-- The thread that moves is where it went. -/
theorem goto_self (s : Threads ι) (i : ι) (frame : Frame) : (s.goto i frame).frames i = frame := by
  simp [goto]

/-- The others stay where they are. -/
theorem goto_of_ne (s : Threads ι) {i j : ι} (frame : Frame) (h : j ≠ i) :
    (s.goto i frame).frames j = s.frames j := by
  simp [goto, Function.update_of_ne h]

/-- Thread `i` runs `invoke_resource` and goes on at `next` of the result. -/
def invoke (s : Threads ι) (i : ι) (resourceType : Bytes) (next : Bool → Frame) : Threads ι :=
  let r := s.list.invokeResource resourceType
  { s.goto i (next r.1) with list := r.2, created := s.created ++ [s.list.curr resourceType] }

/-- The call of thread `i` returns. -/
def finish (s : Threads ι) (i : ι) (value : Returned) : Threads ι :=
  { s.goto i .idle with returned := s.returned ++ [value] }

/-- One step of the thread `i`. -/
inductive Step : Threads ι → ι → Threads ι → Prop
  | callInvokeResource {s : Threads ι} {i : ι} (resourceType : Bytes) :
      s.frames i = .idle → Step s i (s.goto i (.invokeResource resourceType))
  | callInvokeMany {s : Threads ι} {i : ι} (resourceType : Bytes) (countRequested : ℤ) :
      s.frames i = .idle → Step s i (s.goto i (.invokeMany resourceType countRequested 0 0))
  | invokeResource {s : Threads ι} {i : ι} {resourceType : Bytes} :
      s.frames i = .invokeResource resourceType → Step s i (s.invoke i resourceType .invoked)
  | returnInvoked {s : Threads ι} {i : ι} {result : Bool} :
      s.frames i = .invoked result → Step s i (s.finish i (.ofInvokeResource result))
  | round {s : Threads ι} {i : ι} {resourceType : Bytes} {countRequested k invokeCount : ℤ} :
      s.frames i = .invokeMany resourceType countRequested k invokeCount → k < countRequested →
      Step s i (s.invoke i resourceType fun invoked =>
        .invokeMany resourceType countRequested (k + 1)
          (if invoked then invokeCount + 1 else invokeCount))
  | returnMany {s : Threads ι} {i : ι} {resourceType : Bytes} {countRequested k invokeCount : ℤ} :
      s.frames i = .invokeMany resourceType countRequested k invokeCount → ¬ k < countRequested →
      Step s i (s.finish i (.ofInvokeMany invokeCount))

/-- **`invoke_many_resources` as a thread runs it alone:** from the head of its
loop, its rounds lead to the count and the list that the function returns. -/
theorem run_invokeLoop (s : Threads ι) (i : ι) (resourceType : Bytes) (n : ℕ)
    {countRequested k invokeCount : ℤ} (hn : countRequested - k = n)
    (hs : s.frames i = .invokeMany resourceType countRequested k invokeCount) :
    ∃ s', Run Step s (List.replicate n i) s' ∧
      s'.frames i = .invokeMany resourceType countRequested countRequested
        (CloudResourceList.invokeLoop resourceType n invokeCount s.list).1 ∧
      s'.list = (CloudResourceList.invokeLoop resourceType n invokeCount s.list).2 := by
  induction n generalizing s k invokeCount with
  | zero =>
      obtain rfl : k = countRequested := by omega
      exact ⟨s, .nil s, hs, rfl⟩
  | succ n ih =>
      have hstep := Step.round hs (show k < countRequested by omega)
      have hnext : countRequested - (k + 1) = n := by omega
      obtain ⟨s', hrun, hframe, hlist⟩ := ih (s.invoke i resourceType fun invoked =>
        .invokeMany resourceType countRequested (k + 1)
          (if invoked then invokeCount + 1 else invokeCount)) hnext (goto_self _ _ _)
      exact ⟨s', .cons hstep hrun, hframe, hlist⟩

variable [Fintype ι]

/-- When one thread moves, the pending grants change by its own. -/
theorem pending_goto (s : Threads ι) (i : ι) (frame : Frame) :
    (s.goto i frame).pending + (s.frames i).granted = s.pending + frame.granted := by
  have hrest : ∀ j ∈ Finset.univ.erase i,
      ((s.goto i frame).frames j).granted = (s.frames j).granted := by
    intro j hj
    rw [goto_of_ne s frame (Finset.ne_of_mem_erase hj)]
  unfold pending
  rw [← Finset.add_sum_erase _ _ (Finset.mem_univ i), ← Finset.add_sum_erase _ (fun j =>
    (s.frames j).granted) (Finset.mem_univ i), Finset.sum_congr rfl hrest, goto_self]
  ring

variable {s s' : Threads ι} {i : ι}

/-- A step of a thread that does not touch the list. -/
theorem Inv.move (h : s.Inv) {frame : Frame} (hg : frame.granted = (s.frames i).granted) :
    (s.goto i frame).Inv := by
  have hp := s.pending_goto i frame
  refine ⟨h.invoked, h.blocked, h.ids, ?_⟩
  have := h.grants
  change s.granted + (s.goto i frame).pending = s.list.invoked.length
  omega

/-- A call that returns takes its grants along. -/
theorem Inv.finish (h : s.Inv) {value : Returned} (hg : value.granted = (s.frames i).granted) :
    (s.finish i value).Inv := by
  have hp := s.pending_goto i .idle
  refine ⟨h.invoked, h.blocked, h.ids, ?_⟩
  have := h.grants
  have hreturned : (s.finish i value).granted = s.granted + value.granted := by
    simp [granted, Threads.finish, List.sum_append]
  have hidle : Frame.idle.granted = 0 := rfl
  change (s.finish i value).granted + (s.goto i .idle).pending = s.list.invoked.length
  omega

/-- **An `invoke_resource` of any thread keeps the invariant,** if the thread
counts what it was granted. -/
theorem Inv.invoke (h : s.Inv) {resourceType : Bytes} {next : Bool → Frame}
    (hg : ∀ b, (next b).granted = (s.frames i).granted + if b then 1 else 0) :
    (s.invoke i resourceType next).Inv := by
  have hlen := congrArg List.length h.invoked
  rw [List.length_take] at hlen
  have hids : (s.created ++ [s.list.curr resourceType]).length < 2 ^ 31 →
      (s.created ++ [s.list.curr resourceType]).map CloudResource.idCounter =
        (List.range (s.created ++ [s.list.curr resourceType]).length).map Nat.cast := by
    intro hlt
    rw [List.length_append, List.length_singleton] at hlt ⊢
    rw [List.map_append, h.ids (by omega), List.range_succ, List.map_append]
    have hid : (s.list.curr resourceType).idCounter = s.created.length := by
      rw [← h.size]
      exact CloudResourceList.curr_idCounter (by rw [h.size]; omega) resourceType
    simp [hid]
  have hgrants := h.grants
  rcases s.list.invokeResource_cases resourceType with ⟨hlt, hinv⟩ | ⟨hge, hinv⟩
  · have hp := s.pending_goto i (next true)
    rw [hg] at hp
    rw [Threads.invoke, hinv]
    refine ⟨?_, ?_, hids, ?_⟩
    · change s.list.invoked ++ [_] = _
      rw [h.invoked, List.take_of_length_le (by omega), List.take_of_length_le (by
        rw [List.length_append, List.length_singleton]; omega)]
    · change s.list.blocked = _
      rw [h.blocked, List.drop_eq_nil_of_le (by omega), List.drop_eq_nil_of_le (by
        rw [List.length_append, List.length_singleton]; omega)]
    · change s.granted + (s.goto i (next true)).pending = ((s.list.invoked ++ [_]).length : ℕ)
      rw [List.length_append, List.length_singleton]
      simp only [if_true] at hp
      omega
  · have hp := s.pending_goto i (next false)
    rw [hg] at hp
    rw [Threads.invoke, hinv]
    refine ⟨?_, ?_, hids, ?_⟩
    · change s.list.invoked = _
      rw [h.invoked, List.take_append_of_le_length (by omega)]
    · change s.list.blocked ++ [_] = _
      rw [h.blocked, List.drop_append_of_le_length (by omega)]
    · change s.granted + (s.goto i (next false)).pending = (s.list.invoked.length : ℕ)
      simp only [Bool.false_eq_true, if_false] at hp
      omega

/-- **Every step keeps the invariant.** -/
theorem Inv.step (h : s.Inv) (hs : Step s i s') : s'.Inv := by
  cases hs with
  | callInvokeResource _ hi => exact h.move (by rw [hi]; rfl)
  | callInvokeMany _ _ hi => exact h.move (by rw [hi]; rfl)
  | invokeResource hi => exact h.invoke fun b => by rw [hi]; cases b <;> rfl
  | returnInvoked hi => exact h.finish (by rw [hi]; rfl)
  | round hi _ => exact h.invoke fun b => by rw [hi]; cases b <;> simp [Frame.granted]
  | returnMany hi _ => exact h.finish (by rw [hi]; rfl)

/-- **The invariant holds in every run.** -/
theorem Inv.run {is : List ι} (h : Run Step ({} : Threads ι) is s) : s.Inv :=
  h.invariant (fun _ _ _ hs hstep => hs.step hstep) inv_start

/-- **The quota holds for any number of threads and any interleaving.**  The
invoked list never exceeds `INVOKE_LIMIT`; every step leaves one resource in one
of the two lists, which together are the resources created; the `m`-th resource
created has id `m`, so no two share one; and once every call has returned, the
grants add up to the invoked list, which has one entry per step up to the limit. -/
theorem quota {is : List ι} (hr : Run Step ({} : Threads ι) is s)
    (hsteps : s.created.length < 2 ^ 31) :
    s.list.invoked.length ≤ INVOKE_LIMIT ∧
    s.list.invoked.length + s.list.blocked.length = s.created.length ∧
    s.list.invoked ++ s.list.blocked = s.created ∧
    (∀ (m : ℕ) (resource : CloudResource),
      s.created[m]? = some resource → resource.idCounter = m) ∧
    ((s.list.invoked ++ s.list.blocked).map CloudResource.idCounter).Nodup ∧
    ((∀ i, s.frames i = .idle) →
      s.granted = s.list.invoked.length ∧
      s.list.invoked.length = min INVOKE_LIMIT s.created.length) := by
  have h := Inv.run hr
  have hlen : s.list.invoked.length = min INVOKE_LIMIT s.created.length := by
    rw [h.invoked, List.length_take]
  refine ⟨by omega, h.size, h.append, fun m resource hm => ?_, ?_, fun hidle => ⟨?_, hlen⟩⟩
  · have hid := congrArg (·[m]?) (h.ids hsteps)
    obtain ⟨hlt, -⟩ := List.getElem?_eq_some_iff.1 hm
    simp only [List.getElem?_map, hm, Option.map_some, List.getElem?_range hlt] at hid
    exact Option.some.inj hid
  · rw [h.append, h.ids hsteps]
    exact List.nodup_range.map Nat.cast_injective
  · have hp : s.pending = 0 := Finset.sum_eq_zero fun i _ => by rw [hidle]; rfl
    have := h.grants
    omega

/-- Two threads share the quota: one asks for two at once and the other for one
in between. -/
theorem quota_twoThreads :
    ∃ s : Threads (Fin 2), Run Step {} [0, 1, 0, 1, 0, 0, 1] s ∧ (∀ i, s.frames i = .idle) ∧
      s.granted = 2 ∧ s.list.blocked.length = 1 := by
  have hr : Run Step ({} : Threads (Fin 2)) [0, 1, 0, 1, 0, 0, 1] _ :=
    .cons (.callInvokeMany (ascii "ec2") 2 rfl) <|
    .cons (.callInvokeResource (ascii "lambda") rfl) <|
    .cons (.round rfl (by decide)) <| .cons (.invokeResource rfl) <|
    .cons (.round rfl (by decide)) <| .cons (.returnMany rfl (by decide)) <|
    .cons (.returnInvoked rfl) (.nil _)
  obtain ⟨-, -, -, -, -, hgrants⟩ := quota hr (show 3 < 2 ^ 31 by decide)
  refine ⟨_, hr, Fin.forall_fin_two.2 ⟨rfl, rfl⟩, (hgrants ?_).1, rfl⟩
  exact Fin.forall_fin_two.2 ⟨rfl, rfl⟩

end Threads

end V2Proxy
