/-
# What the list gains is what was granted

`limit_resource` asks the resource list in each of its rounds.  An exception comes
before anything was granted, so the list is then what it was
(`v2filterClientThrown_eq`).

The two rounds do not know of each other.  A message that both of them match may be
refused by one after the other has been granted something; the list keeps it, and the
message is not delivered (`OneRefuses`).  Everywhere else the invoked list gains what
was granted to the message that is delivered, and nothing for one that is not
(`accounted_iff`).
-/

import V2Proxy.Http.V2FilterClient

namespace V2Proxy

open Foundations

/-! ### The list at an exception -/

namespace Filtering

/-- `limitEc2`, with the list as an exception leaves it. -/
def limitEc2Thrown (f : Filtering) (resourceType : Bytes) : Except Thrown Filtering :=
  match find (ascii "MaxCount=") f.message, find (ascii "POST") f.message with
  | some first, some last => do
      let strLen := (ascii "MaxCount=").length
      let count ← throwing f.list
        (substr f.message (first + strLen) (sizeSub last (first + strLen)))
      let countRequested ← throwing f.list (stoi count)
      let (successfulInvokes, list) := f.list.invokeManyResources resourceType countRequested
      throwing list
        (rewrite { f with list := list } (first + strLen) countRequested successfulInvokes)
  | _, _ => throwing f.list (.error (.runtimeError
      (ascii "EC2 RunInstances request is " ++ ascii "abnormal. Please inspect")))

/-- `round`, with the list as an exception leaves it. -/
def roundThrown (f : Filtering) (resource : Bytes × List Bytes) : Except Thrown Filtering :=
  if resource.2.all (contains · f.message) then
    if resource.1 = ascii "ec2" then do
      let f ← f.limitEc2Thrown resource.1
      return f.deliver
    else return (f.limitOther resource.1).deliver
  else return f

end Filtering

/-- `v2filter_client`, with the list as an exception leaves it. -/
def v2filterClientThrown (buffer : Bytes) (cloudResourceList : CloudResourceList) :
    Except Thrown (Bytes × CloudResourceList) := do
  let f ← resourceKeywords.foldlM Filtering.roundThrown
    { message := buffer, clientMessage := buffer, list := cloudResourceList }
  return (f.clientMessage, f.list)

namespace Filtering

/-- **The `"ec2"` branch throws before it asks the list for anything.** -/
theorem limitEc2Thrown_eq (f : Filtering) (resourceType : Bytes) :
    f.limitEc2Thrown resourceType = throwing f.list (f.limitEc2 resourceType) := by
  rw [limitEc2Thrown, limitEc2]
  rcases hfirst : find (ascii "MaxCount=") f.message with _ | first
  · rfl
  rcases find (ascii "POST") f.message with _ | last
  · rfl
  dsimp only
  rcases substr f.message (first + (ascii "MaxCount=").length)
    (sizeSub last (first + (ascii "MaxCount=").length)) with e | digits
  · rfl
  rw [throwing_ok, ok_bind, ok_bind]
  rcases stoi digits with e | count
  · rfl
  rw [throwing_ok, ok_bind, ok_bind]
  have hrewrite := f.rewrite_grant resourceType count hfirst
  rw [CloudResourceList.invokeMany] at hrewrite
  rw [hrewrite]
  rfl

end Filtering

/-- **An exception of `v2filter_client` leaves the list as it was.** -/
theorem v2filterClientThrown_eq (buffer : Bytes) (list : CloudResourceList) :
    v2filterClientThrown buffer list = throwing list (v2filterClient buffer list) := by
  have hlambda : ∀ f : Filtering, f.roundThrown (ascii "lambda", [ascii "lambda"]) =
      throwing list (f.round (ascii "lambda", [ascii "lambda"])) := by
    intro f
    have hne : ascii "lambda" ≠ ascii "ec2" := by decide
    rw [Filtering.roundThrown, Filtering.round]
    simp only [if_neg hne]
    split_ifs <;> rfl
  have hec2 : ∀ f : Filtering, f.list = list →
      f.roundThrown (ascii "ec2", [ascii "ec2", ascii "RunInstances"]) =
        throwing list (f.round (ascii "ec2", [ascii "ec2", ascii "RunInstances"])) := by
    intro f hf
    subst hf
    rw [Filtering.roundThrown, Filtering.round]
    simp only [if_true, Filtering.limitEc2Thrown_eq]
    split_ifs
    · rcases f.limitEc2 (ascii "ec2") with e | f₁ <;> rfl
    · rfl
  simp only [v2filterClientThrown, v2filterClient, limitResource, resourceKeywords,
    List.foldlM_cons, List.foldlM_nil]
  rw [hec2 _ rfl]
  rcases Filtering.round _ (ascii "ec2", [ascii "ec2", ascii "RunInstances"]) with e | f
  · rfl
  rw [throwing_ok, ok_bind, ok_bind, hlambda]
  rcases f.round (ascii "lambda", [ascii "lambda"]) with e | f' <;> rfl

/-! ### The account -/

/-- **What `v2filter_client` owes the list:** a call that throws or refuses leaves the
invoked resources as they are; a call that passes the message on adds what was granted
to it, the count that was written into it and one for a lambda. -/
def Accounted (buffer : Bytes) (list : CloudResourceList) : Prop :=
  match v2filterClientThrown buffer list with
  | .error t => t.list.invoked = list.invoked ∧ list.Grows t.list
  | .ok (text, list') =>
      if text = BLOCKED then list'.invoked = list.invoked ∧ list.Grows list'
      else list.Grows list' ∧ ∃ count : ℕ,
        list'.invoked.length = list.invoked.length + count + (if isLambda text then 1 else 0) ∧
          if isEc2 buffer then text = writeCount buffer count else text = buffer ∧ count = 0

/-- Both rounds match the message, and one refuses what the other grants: the count
asks for nothing, and a lambda is left; or the instances take what is left, and
`lambda` stands in the message that is written for them. -/
def OneRefuses (buffer : Bytes) (list : CloudResourceList) : Prop :=
  isEc2 buffer = true ∧ ∃ count, countRequested buffer = .ok count ∧ 0 < list.room ∧
    (count ≤ 0 ∧ isLambda buffer = true ∨
      (list.room : ℤ) ≤ count ∧ isLambda (writeCount buffer list.room) = true)

/-- A message with a count is not the text of the verdict. -/
theorem writeCount_ne_BLOCKED {buffer : Bytes} {first count : ℕ}
    (hfirst : find (ascii "MaxCount=") buffer = some first) : writeCount buffer count ≠ BLOCKED := by
  intro h
  have hfit := add_length_le_of_find hfirst
  rw [length_maxCount] at hfit
  have h' := congrArg List.length h
  have hblocked : BLOCKED.length = 7 := by decide
  rw [writeCount, hfirst, hblocked, List.length_append, List.length_take] at h'
  omega

section

variable {buffer text : Bytes} {list list' : CloudResourceList} {count : ℤ}

theorem accounted_of_ok (h : v2filterClient buffer list = .ok (text, list')) :
    Accounted buffer list ↔
      if text = BLOCKED then list'.invoked = list.invoked ∧ list.Grows list'
      else list.Grows list' ∧ ∃ count : ℕ,
        list'.invoked.length = list.invoked.length + count + (if isLambda text then 1 else 0) ∧
          if isEc2 buffer then text = writeCount buffer count else text = buffer ∧ count = 0 := by
  rw [Accounted, v2filterClientThrown_eq, h]
  rfl

/-- A message without the keywords of an instance. -/
theorem accounted_of_not_ec2 (hec2 : isEc2 buffer = false) : Accounted buffer list := by
  have hclient := v2filterClient_rounds buffer list
  rw [if_neg (by rw [hec2]; decide), ok_bind, Filtering.lastRound] at hclient
  by_cases hlambda : isLambda buffer = true
  · have hne : buffer ≠ BLOCKED := by
      rintro rfl
      exact absurd hlambda (by decide)
    rw [if_pos hlambda] at hclient
    rw [accounted_of_ok hclient]
    obtain ⟨⟨-, htext, hlength⟩ | ⟨-, htext, hinvoked⟩, hgrows⟩ :=
      Filtering.limitOther_deliver { message := buffer, clientMessage := buffer, list := list } _
    · rw [htext, if_neg hne]
      exact ⟨hgrows, 0, by rw [hlength, if_pos hlambda, Nat.add_zero], by
        rw [hec2]
        exact ⟨rfl, rfl⟩⟩
    · rw [htext, if_pos rfl]
      exact ⟨hinvoked, hgrows⟩
  · rw [if_neg hlambda] at hclient
    dsimp only at hclient
    rw [accounted_of_ok hclient]
    by_cases hverdict : buffer = BLOCKED
    · rw [if_pos hverdict]
      exact ⟨rfl, .refl list⟩
    · rw [if_neg hverdict]
      exact ⟨.refl list, 0, by rw [if_neg hlambda, Nat.add_zero], by
        rw [hec2]
        exact ⟨rfl, rfl⟩⟩

/-- A message whose count cannot be read. -/
theorem accounted_of_error {fault : Fault} (hec2 : isEc2 buffer = true)
    (hcount : countRequested buffer = .error fault) : Accounted buffer list := by
  rw [Accounted, v2filterClientThrown_eq, v2filterClient_rounds, if_pos hec2, hcount]
  exact ⟨rfl, .refl list⟩

/-- A message that is granted no instance is not delivered, whatever the second round
says; the second round may still grant a lambda. -/
theorem accounted_of_refused (hec2 : isEc2 buffer = true)
    (hcount : countRequested buffer = .ok count) (hzero : list.grant count = 0) :
    Accounted buffer list ↔ ¬ (0 < list.room ∧ isLambda buffer = true) := by
  have hgrows := list.grows_invokeMany (ascii "ec2") count
  have hlength := list.length_invokeMany (ascii "ec2") count
  rw [hzero, Nat.add_zero] at hlength
  have hinvoked := hgrows.invoked.eq_of_length hlength.symm
  have hroom : (list.invokeMany (ascii "ec2") count).room = list.room := by
    rw [CloudResourceList.room, hlength, CloudResourceList.room]
  have hclient := v2filterClient_rounds buffer list
  rw [if_pos hec2, hcount, ok_bind, ok_bind, Filtering.deliver_refused hzero,
    Filtering.lastRound] at hclient
  by_cases hlambda : isLambda buffer = true
  · rw [if_pos hlambda] at hclient
    rw [accounted_of_ok hclient]
    obtain ⟨⟨hpos, htext, hlength'⟩ | ⟨hnone, htext, hinvoked'⟩, hgrows'⟩ :=
      Filtering.limitOther_deliver { message := buffer, clientMessage := BLOCKED, invoked := false,
                                     list := list.invokeMany (ascii "ec2") count } _
    · -- the lambda is granted to a message that the first round refused
      rw [htext, if_pos rfl]
      rw [hroom] at hpos
      refine iff_of_false (fun h => ?_) (fun h => h ⟨hpos, hlambda⟩)
      rw [h.1, hlength] at hlength'
      omega
    · rw [htext, if_pos rfl]
      rw [hroom] at hnone
      exact iff_of_true ⟨hinvoked'.trans hinvoked.symm, hgrows.trans hgrows'⟩
        (fun h => by omega)
  · rw [if_neg hlambda] at hclient
    rw [accounted_of_ok hclient, if_pos rfl]
    exact iff_of_true ⟨hinvoked.symm, hgrows⟩ (fun h => hlambda h.2)

/-- A message that is granted instances is delivered with their number, unless the
second round refuses it; the list keeps the instances. -/
theorem accounted_of_granted (hec2 : isEc2 buffer = true)
    (hcount : countRequested buffer = .ok count) (hgrant : list.grant count ≠ 0) :
    Accounted buffer list ↔ ¬ (list.grant count = list.room ∧
      isLambda (writeCount buffer (list.grant count)) = true) := by
  have hgrows := list.grows_invokeMany (ascii "ec2") count
  have hlength := list.length_invokeMany (ascii "ec2") count
  have hle : list.grant count ≤ list.room := min_le_right _ _
  have hroom : (list.invokeMany (ascii "ec2") count).room = list.room - list.grant count := by
    rw [CloudResourceList.room, hlength, CloudResourceList.room, Nat.sub_add_eq]
  obtain ⟨first, hfirst⟩ := exists_find_of_countRequested hcount
  have hne : writeCount buffer (list.grant count) ≠ BLOCKED := writeCount_ne_BLOCKED hfirst
  have hclient := v2filterClient_rounds buffer list
  rw [if_pos hec2, hcount, ok_bind, ok_bind, Filtering.deliver_granted hgrant,
    Filtering.lastRound] at hclient
  dsimp only at hclient
  by_cases hlambda : isLambda (writeCount buffer (list.grant count)) = true
  · rw [if_pos hlambda] at hclient
    rw [accounted_of_ok hclient]
    obtain ⟨⟨hpos, htext, hlength'⟩ | ⟨hnone, htext, hinvoked'⟩, hgrows'⟩ :=
      Filtering.limitOther_deliver { message := writeCount buffer (list.grant count)
                                     clientMessage := writeCount buffer (list.grant count)
                                     invoked := true
                                     list := list.invokeMany (ascii "ec2") count } _
    · rw [htext, if_neg hne]
      dsimp only at hlength' hpos
      rw [hroom] at hpos
      refine iff_of_true ⟨hgrows.trans hgrows', list.grant count, ?_, by rw [if_pos hec2]⟩
        (fun h => by omega)
      rw [hlength', hlength, if_pos hlambda]
    · -- the instances are granted to a message that the second round refuses
      rw [htext, if_pos rfl]
      dsimp only at hinvoked' hnone
      rw [hroom] at hnone
      refine iff_of_false (fun h => ?_) (fun h => h ⟨by omega, hlambda⟩)
      have hkept := congrArg List.length (hinvoked'.symm.trans h.1)
      rw [hlength] at hkept
      omega
  · rw [if_neg hlambda] at hclient
    rw [accounted_of_ok hclient, if_neg hne]
    refine iff_of_true ⟨hgrows, list.grant count, ?_, by rw [if_pos hec2]⟩ (fun h => hlambda h.2)
    rw [hlength, if_neg hlambda, Nat.add_zero]

end

/-- **The list is accounted for if and only if the two rounds agree:** it is not the
case that one refuses the message and the other grants it something. -/
theorem accounted_iff (buffer : Bytes) (list : CloudResourceList) :
    Accounted buffer list ↔ ¬ OneRefuses buffer list := by
  rcases hec2 : isEc2 buffer with _ | _
  · refine iff_of_true (accounted_of_not_ec2 hec2) ?_
    rintro ⟨h, -⟩
    rw [hec2] at h
    cases h
  rcases hcount : countRequested buffer with fault | count
  · refine iff_of_true (accounted_of_error hec2 hcount) ?_
    rintro ⟨-, count, h, -⟩
    rw [hcount] at h
    cases h
  have hone : OneRefuses buffer list ↔ 0 < list.room ∧ (count ≤ 0 ∧ isLambda buffer = true ∨
      (list.room : ℤ) ≤ count ∧ isLambda (writeCount buffer list.room) = true) := by
    constructor
    · rintro ⟨-, count', h, hone⟩
      rw [hcount] at h
      cases h
      exact hone
    · exact fun h => ⟨hec2, count, hcount, h⟩
  rw [hone]
  by_cases hzero : list.grant count = 0
  · rw [accounted_of_refused hec2 hcount hzero, CloudResourceList.grant] at *
    refine not_congr ⟨fun h => ⟨h.1, Or.inl ⟨by omega, h.2⟩⟩, fun h => ⟨h.1, ?_⟩⟩
    rcases h.2 with h | h
    · exact h.2
    · omega
  · rw [accounted_of_granted hec2 hcount hzero]
    rw [CloudResourceList.grant] at hzero ⊢
    refine not_congr ⟨fun h => ⟨by omega, Or.inr ⟨by omega, ?_⟩⟩, fun h => ?_⟩
    · rw [← h.1]
      exact h.2
    · rcases h.2 with h | h
      · omega
      · have hmin : min count.toNat list.room = list.room := by omega
        rw [hmin]
        exact ⟨rfl, h.2⟩

/-- A request for two instances that has the keyword of a lambda in it. -/
def twoInstances : Bytes :=
  ascii "POST /lambda HTTP/1.1\r\nHost: ec2\r\n" ++ ascii "Content-Length: 30\r\n\r\n" ++
    ascii "Action=RunInstances&MaxCount=2"

/-- **Instances are granted to a message that is refused:** there is no room for the
lambda after them. -/
theorem refused_keeps_instances :
    (v2filterClientThrown twoInstances {}).toOption.map
        (fun r => (r.1, r.2.invoked.length, r.2.blocked.length)) = some (BLOCKED, 2, 1) ∧
      ¬ Accounted twoInstances {} := by
  have houtcome : (v2filterClientThrown twoInstances {}).toOption.map
      (fun r => (r.1, r.2.invoked.length, r.2.blocked.length)) = some (BLOCKED, 2, 1) := by
    decide +kernel
  refine ⟨houtcome, fun h => ?_⟩
  rw [Accounted] at h
  rcases hclient : v2filterClientThrown twoInstances {} with t | ⟨text, list⟩
  · rw [hclient] at houtcome
    cases houtcome
  · rw [hclient] at houtcome h
    have hresult : (text, list.invoked.length, list.blocked.length) = (BLOCKED, 2, 1) :=
      Option.some.inj houtcome
    have htext : text = BLOCKED := congrArg Prod.fst hresult
    have hlength : list.invoked.length = 2 := congrArg (fun r => r.2.1) hresult
    dsimp only at h
    rw [if_pos htext] at h
    rw [h.1] at hlength
    cases hlength

end V2Proxy
