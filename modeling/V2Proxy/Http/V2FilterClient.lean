/-
# `v2filter_client`

`src/http/v2filter_client.hh`: what the proxy does with a buffer read from a
client before it parses it.  `limit_resource` looks for keywords anywhere in the
text, asks the resource list for what the text seems to invoke, and returns the
text to parse: unchanged, with the count of instances rewritten, or `"BLOCKED"`.

`resource_keywords` is a `std::map`, so the loop visits `"ec2"` before
`"lambda"`.  The loop rewrites `message` itself, and the lambda that looks for
keywords captures `message` as it is in that round, so the round of `"lambda"`
sees the rewritten text (`Filtering.message`).

The `"ec2"` branch is a function of the count it reads (`countRequested`) and of the
room that the list has left: it writes what was granted into the message, or refuses
(`limitEc2_eq`).  So the whole filter is these two rounds (`v2filterClient_rounds`).
-/

import V2Proxy.Cloud.CloudResourceList
import V2Proxy.Util.Ezio

namespace V2Proxy

open Foundations

/-- `client_message = "BLOCKED"`. -/
def BLOCKED : Bytes := ascii "BLOCKED"

/-- `sizeof( std::to_string( count_requested ) )`: the size of a `std::string`
object, 32 bytes on the 64-bit platforms the proxy runs on. -/
def sizeofString : ℕ := 32

/-- `s.replace( pos, n, str )`, which throws when `pos` is past the end. -/
def replace (s : Bytes) (pos n : ℕ) (str : Bytes) : Except Fault Bytes :=
  if pos ≤ s.length then .ok (s.take pos ++ (str ++ s.drop (pos + n)))
  else .error (.outOfRange (ascii "basic_string::replace"))

/-- The variables of `limit_resource`, and the list it is given. -/
structure Filtering where
  message : Bytes
  clientMessage : Bytes
  invoked : Bool := false
  list : CloudResourceList

namespace Filtering

/-- The rewriting of the request once `successful_invokes` are approved. -/
def rewrite (f : Filtering) (first : ℕ) (countRequested successfulInvokes : ℤ) :
    Except Fault Filtering :=
  if successfulInvokes = 0 then .ok { f with invoked := false }
  else if successfulInvokes ≤ countRequested then do
    let newRequest ← replace f.message first sizeofString (toDecimal successfulInvokes)
    return { f with message := newRequest, clientMessage := newRequest, invoked := true }
  else .ok f

/-- The branch `resource_type == "ec2"`. -/
def limitEc2 (f : Filtering) (resourceType : Bytes) : Except Fault Filtering :=
  match find (ascii "MaxCount=") f.message, find (ascii "POST") f.message with
  | some first, some last => do
      let strLen := (ascii "MaxCount=").length
      let count ← substr f.message (first + strLen) (sizeSub last (first + strLen))
      let countRequested ← stoi count
      let (successfulInvokes, list) := f.list.invokeManyResources resourceType countRequested
      rewrite { f with list := list } (first + strLen) countRequested successfulInvokes
  | _, _ => .error (.runtimeError
      (ascii "EC2 RunInstances request is " ++ ascii "abnormal. Please inspect"))

/-- Every other resource: one invocation. -/
def limitOther (f : Filtering) (resourceType : Bytes) : Filtering :=
  let (invoked, list) := f.list.invokeResource resourceType
  { f with invoked := invoked, list := list }

/-- The end of a round that found its keywords: what was not invoked is never
delivered. -/
def deliver (f : Filtering) : Filtering :=
  if f.invoked then f else { f with clientMessage := BLOCKED }

/-- One round of the loop over `resource_keywords`. -/
def round (f : Filtering) (resource : Bytes × List Bytes) : Except Fault Filtering :=
  if resource.2.all (contains · f.message) then
    if resource.1 = ascii "ec2" then do
      let f ← f.limitEc2 resource.1
      return f.deliver
    else return (f.limitOther resource.1).deliver
  else return f

end Filtering

/-- `limit_resource`: the text to parse and the list. -/
def limitResource (message : Bytes) (cloudResourceList : CloudResourceList)
    (resourceKeywords : List (Bytes × List Bytes)) : Except Fault (Bytes × CloudResourceList) := do
  let f ← resourceKeywords.foldlM Filtering.round
    { message := message, clientMessage := message, list := cloudResourceList }
  return (f.clientMessage, f.list)

/-- `resource_keywords`, in the order of its keys. -/
def resourceKeywords : List (Bytes × List Bytes) :=
  [(ascii "ec2", [ascii "ec2", ascii "RunInstances"]), (ascii "lambda", [ascii "lambda"])]

/-- `v2filter_client`.  A call that throws leaves the list as it was. -/
def v2filterClient (buffer : Bytes) (cloudResourceList : CloudResourceList) :
    Except Fault (Bytes × CloudResourceList) :=
  limitResource buffer cloudResourceList resourceKeywords

/-- The keywords of an EC2 invocation are in the text. -/
def isEc2 (message : Bytes) : Bool :=
  contains (ascii "ec2") message && contains (ascii "RunInstances") message

/-- The keyword of a lambda invocation is in the text. -/
def isLambda (message : Bytes) : Bool := contains (ascii "lambda") message

/-- The count that the `"ec2"` branch reads. -/
def countRequested (message : Bytes) : Except Fault ℤ :=
  match find (ascii "MaxCount=") message, find (ascii "POST") message with
  | some first, some last => do
      let strLen := (ascii "MaxCount=").length
      let count ← substr message (first + strLen) (sizeSub last (first + strLen))
      stoi count
  | _, _ => .error (.runtimeError
      (ascii "EC2 RunInstances request is " ++ ascii "abnormal. Please inspect"))

/-- The message with `count` written over what follows the first `MaxCount=`. -/
def writeCount (message : Bytes) (count : ℕ) : Bytes :=
  match find (ascii "MaxCount=") message with
  | some first => message.take (first + 9) ++ (decimal count ++ message.drop (first + 9 + sizeofString))
  | none => message

theorem length_maxCount : (ascii "MaxCount=").length = 9 := by decide

/-- The text in front of the count stays, with the count's name. -/
theorem writeCount_of_find {message : Bytes} {first : ℕ}
    (hfirst : find (ascii "MaxCount=") message = some first) (count : ℕ) :
    writeCount message count = message.take first ++
      (ascii "MaxCount=" ++ (decimal count ++ message.drop (first + 9 + sizeofString))) := by
  have htake := take_add_length_of_find hfirst
  rw [length_maxCount] at htake
  rw [writeCount, hfirst]
  dsimp only
  rw [htake, List.append_assoc]

theorem exists_find_of_countRequested {buffer : Bytes} {count : ℤ}
    (h : countRequested buffer = .ok count) :
    ∃ first, find (ascii "MaxCount=") buffer = some first := by
  rw [countRequested] at h
  split at h
  · rename_i first last hfirst hlast
    exact ⟨first, hfirst⟩
  · cases h

/-- There is text behind a `MaxCount=` whose count can be read. -/
theorem lt_length_of_countRequested {buffer : Bytes} {count : ℤ} {first : ℕ}
    (hfirst : find (ascii "MaxCount=") buffer = some first)
    (h : countRequested buffer = .ok count) : first + 9 < buffer.length := by
  rw [countRequested, hfirst, length_maxCount] at h
  split at h
  · rename_i first' last hfirst' hlast
    obtain rfl := Option.some.inj hfirst'
    obtain ⟨digits, hdigits, h⟩ := bind_eq_ok.1 h
    have hstoi : stoi [] = .error (.invalidArgument (ascii "stoi")) := rfl
    have hne : digits ≠ [] := by
      rintro rfl
      rw [hstoi] at h
      cases h
    rw [substr] at hdigits
    split_ifs at hdigits
    obtain rfl := Except.ok.inj hdigits
    by_contra hle
    rw [List.drop_eq_nil_of_le (Nat.le_of_not_lt hle), List.take_nil] at hne
    exact hne rfl
  · cases h

namespace Filtering

/-- The `"ec2"` branch once it has read the count. -/
def grantEc2 (f : Filtering) (resourceType : Bytes) (count : ℤ) : Filtering :=
  if f.list.grant count = 0 then
    { f with invoked := false, list := f.list.invokeMany resourceType count }
  else
    { message := writeCount f.message (f.list.grant count)
      clientMessage := writeCount f.message (f.list.grant count)
      invoked := true
      list := f.list.invokeMany resourceType count }

/-- The rewriting never throws where the branch calls it. -/
theorem rewrite_grant (f : Filtering) (resourceType : Bytes) (count : ℤ) {first : ℕ}
    (hfirst : find (ascii "MaxCount=") f.message = some first) :
    rewrite { f with list := f.list.invokeMany resourceType count }
        (first + (ascii "MaxCount=").length) count
        (f.list.invokeManyResources resourceType count).1 =
      .ok (f.grantEc2 resourceType count) := by
  have hfit := add_length_le_of_find hfirst
  rw [length_maxCount] at hfit ⊢
  rw [CloudResourceList.invokeManyResources_fst, rewrite, grantEc2]
  by_cases hzero : f.list.grant count = 0
  · have hzero' : (f.list.grant count : ℤ) = 0 := by omega
    rw [if_pos hzero', if_pos hzero]
  · have hzero' : ¬ (f.list.grant count : ℤ) = 0 := by omega
    have hle : (f.list.grant count : ℤ) ≤ count := by
      rw [CloudResourceList.grant] at hzero ⊢
      omega
    rw [if_neg hzero', if_neg hzero, if_pos hle, replace, if_pos hfit, ok_bind, writeCount, hfirst,
      toDecimal_of_nonneg (by omega), Int.natAbs_natCast]
    rfl

/-- **The `"ec2"` branch grants what there is room for and writes it into the
message.** -/
theorem limitEc2_eq (f : Filtering) (resourceType : Bytes) :
    f.limitEc2 resourceType = countRequested f.message >>= fun count =>
      .ok (f.grantEc2 resourceType count) := by
  rw [limitEc2, countRequested]
  rcases hfirst : find (ascii "MaxCount=") f.message with _ | first
  · rfl
  rcases find (ascii "POST") f.message with _ | last
  · rfl
  dsimp only
  rcases substr f.message (first + (ascii "MaxCount=").length)
    (sizeSub last (first + (ascii "MaxCount=").length)) with e | digits
  · rfl
  rw [ok_bind, ok_bind]
  rcases stoi digits with e | count
  · rfl
  rw [ok_bind, ok_bind, ← f.rewrite_grant resourceType count hfirst]
  rfl

theorem deliver_refused {f : Filtering} {resourceType : Bytes} {count : ℤ}
    (h : f.list.grant count = 0) :
    (f.grantEc2 resourceType count).deliver =
      { f with
        clientMessage := BLOCKED
        invoked := false
        list := f.list.invokeMany resourceType count } := by
  rw [grantEc2, if_pos h]
  rfl

theorem deliver_granted {f : Filtering} {resourceType : Bytes} {count : ℤ}
    (h : f.list.grant count ≠ 0) :
    (f.grantEc2 resourceType count).deliver =
      { message := writeCount f.message (f.list.grant count)
        clientMessage := writeCount f.message (f.list.grant count)
        invoked := true
        list := f.list.invokeMany resourceType count } := by
  rw [grantEc2, if_neg h]
  rfl

/-- The round of `"ec2"`. -/
theorem round_ec2 (f : Filtering) :
    f.round (ascii "ec2", [ascii "ec2", ascii "RunInstances"]) =
      if isEc2 f.message then f.limitEc2 (ascii "ec2") >>= fun f => .ok f.deliver
      else .ok f := by
  simp only [round, isEc2, List.all_cons, List.all_nil, Bool.and_true, if_true]
  rfl

/-- The round of `"lambda"`. -/
theorem round_lambda (f : Filtering) :
    f.round (ascii "lambda", [ascii "lambda"]) =
      .ok (if isLambda f.message then (f.limitOther (ascii "lambda")).deliver else f) := by
  have hne : ascii "lambda" ≠ ascii "ec2" := by decide
  have hall : [ascii "lambda"].all (contains · f.message) = isLambda f.message := by
    simp [isLambda]
  simp only [round, hall, if_neg hne]
  by_cases h : isLambda f.message = true
  · rw [if_pos h, if_pos h]
    rfl
  · rw [if_neg h, if_neg h]
    rfl

/-- **The verdict on one invocation:** granted and passed on, or refused. -/
theorem limitOther_deliver (f : Filtering) (resourceType : Bytes) :
    (0 < f.list.room ∧ (f.limitOther resourceType).deliver.clientMessage = f.clientMessage ∧
      (f.limitOther resourceType).deliver.list.invoked.length = f.list.invoked.length + 1 ∨
    f.list.room = 0 ∧ (f.limitOther resourceType).deliver.clientMessage = BLOCKED ∧
      (f.limitOther resourceType).deliver.list.invoked = f.list.invoked) ∧
    f.list.Grows (f.limitOther resourceType).deliver.list := by
  have hgrows := f.list.grows_invokeResource resourceType
  rw [CloudResourceList.room]
  rcases f.list.invokeResource_cases resourceType with ⟨hlt, h⟩ | ⟨hle, h⟩
  · rw [h] at hgrows
    refine ⟨Or.inl ⟨by omega, ?_⟩, ?_⟩
    · simp [limitOther, h, deliver]
    · simpa [limitOther, h, deliver] using hgrows
  · rw [h] at hgrows
    refine ⟨Or.inr ⟨by omega, ?_⟩, ?_⟩
    · simp [limitOther, h, deliver]
    · simpa [limitOther, h, deliver] using hgrows

/-- The round of `"lambda"`, and what `v2filter_client` returns then. -/
def lastRound (f : Filtering) : Bytes × CloudResourceList :=
  if isLambda f.message then
    ((f.limitOther (ascii "lambda")).deliver.clientMessage,
      (f.limitOther (ascii "lambda")).deliver.list)
  else (f.clientMessage, f.list)

end Filtering

/-- **`v2filter_client` by its two rounds.** -/
theorem v2filterClient_rounds (buffer : Bytes) (list : CloudResourceList) :
    v2filterClient buffer list =
      (if isEc2 buffer then countRequested buffer >>= fun count => .ok (Filtering.grantEc2
        { message := buffer, clientMessage := buffer, list := list } (ascii "ec2") count).deliver
      else .ok { message := buffer, clientMessage := buffer, list := list }) >>= fun f =>
      .ok f.lastRound := by
  have hlast : ∀ f : Filtering,
      (.ok (if isLambda f.message then (f.limitOther (ascii "lambda")).deliver else f) >>=
        fun f => .ok (f.clientMessage, f.list) : Except Fault (Bytes × CloudResourceList)) =
          .ok f.lastRound := by
    intro f
    rw [Filtering.lastRound]
    split_ifs <;> rfl
  simp only [v2filterClient, limitResource, resourceKeywords, List.foldlM_cons, List.foldlM_nil,
    Filtering.round_ec2, Filtering.round_lambda, Filtering.limitEc2_eq]
  split_ifs
  · rcases countRequested buffer with e | count
    · rfl
    · exact hlast _
  · exact hlast _

/-- **A buffer without keywords passes unchanged** and asks for nothing. -/
theorem v2filterClient_of_quiet {buffer : Bytes} (hec2 : isEc2 buffer = false)
    (hlambda : isLambda buffer = false) (list : CloudResourceList) :
    v2filterClient buffer list = .ok (buffer, list) := by
  rw [v2filterClient_rounds, if_neg (by rw [hec2]; decide), ok_bind, Filtering.lastRound,
    if_neg (by rw [hlambda]; decide)]

end V2Proxy
