/-
# `front` and `pop` of the two queues

`std::queue` gives no error when `front` or `pop` is called on an empty queue, so a
wrong guard goes unnoticed; here such a call ends the thread by undefined behaviour
(`HTTPProxy.QueuesGuarded` says that it has not).

The guard of the last action always holds when its callback runs, since nothing else
takes responses off their queue.  For the requests it does not: a blocked read takes
one off, be it the blocked one or not, and it may be the one that `server.write` was
promised at the start of the round.  `Stocked` says that with a blocked buffer the
client has sent more complete requests than have been taken off the queue: one, and
another one when the server can be written to in the same round.  Then no call finds
an empty queue (`guarded_of_stocked`).  A blocked buffer that holds a part of a
request finds none (`front_of_empty`).
-/

import V2Proxy.Http.ParserFaults
import V2Proxy.HttpServer.BlockedRequests
import V2Proxy.HttpServer.HandedText

namespace V2Proxy

open Foundations HTTPMessageSequence

/-- `replace` throws behind the end of the string. -/
theorem defined_replace (s : Bytes) (pos n : ℕ) (str : Bytes) : Defined (replace s pos n str) := by
  rw [replace]
  exact throws_ite (fun _ => throws_ok _) fun _ => throws_error.2 trivial

/-- A resource of the filter: the count is read and written where it was found. -/
theorem Filtering.defined_round (f : Filtering) (resource : Bytes × List Bytes) :
    Defined (f.round resource) := by
  rw [round]
  refine throws_ite (fun _ => throws_ite (fun _ => ?_) fun _ => throws_pure _) fun _ => throws_pure _
  refine Throws.bind ?_ fun _ _ => throws_pure _
  rw [limitEc2]
  split
  · refine (defined_substr _ _ _).bind fun _ _ => (defined_stoi _).bind fun _ _ => ?_
    dsimp only [rewrite]
    refine throws_ite (fun _ => throws_ok _) fun _ => throws_ite (fun _ => ?_) fun _ => throws_ok _
    exact (defined_replace _ _ _ _).bind fun _ _ => throws_pure _
  · exact throws_error.2 trivial

/-- `v2filter_client` has no undefined behaviour. -/
theorem defined_v2filterClient (buffer : Bytes) (list : CloudResourceList) :
    Defined (v2filterClient buffer list) :=
  (throws_foldlM Filtering.defined_round resourceKeywords _).bind fun _ _ => throws_pure _

/-- `get_canned_response` throws for a status that it does not know. -/
theorem defined_getCannedResponse (status : ℕ) (request : HTTPRequest) :
    Defined (getCannedResponse status request) := by
  refine (HTTPResponse.defined_setRequest _ request).bind fun _ _ => Throws.bind ?_ fun _ _ => ?_
  · rw [statusMessageAt]
    split
    · exact throws_ok _
    · exact throws_error.2 trivial
  · refine (HTTPMessage.defined_setFirstLine _ _).bind fun _ _ => ?_
    refine (HTTPMessage.defined_addHeader _ _).bind fun _ _ => ?_
    refine (HTTPMessage.defined_addHeader _ _).bind fun _ _ => ?_
    refine (HTTPMessage.defined_doneWithHeaders _).bind fun _ _ => ?_
    refine (HTTPMessage.defined_readInBody _ []).bind fun _ _ => ?_
    exact (defined_assert _).bind fun _ _ => HTTPMessage.defined_str _

/-- `front` is defined on a queue that is not empty. -/
theorem defined_front {X Q : Type} {s : HTTPMessageSequence X Q} (h : s.completeMessages ≠ []) :
    Defined s.front := by
  rw [front]
  split
  · exact throws_ok _
  · rename_i hnil
    exact absurd hnil h

/-- `pop` is defined on a queue that is not empty. -/
theorem defined_pop {X Q : Type} {s : HTTPMessageSequence X Q} (h : s.completeMessages ≠ []) :
    Defined s.pop := by
  rw [pop]
  split
  · exact throws_ok _
  · rename_i hnil
    exact absurd hnil h

/-- An exception that has a meaning, whatever the list is. -/
abbrev ThrowsDefined {α : Type} (x : Except Thrown α) : Prop :=
  Throws (fun t : Thrown => t.fault.Defined) x

/-- A step that fails with the list in hand fails as the step alone does. -/
theorem Throws.throwing {α : Type} {x : Except Fault α} (h : Defined x) (list : CloudResourceList) :
    ThrowsDefined (throwing list x) :=
  h.mapError fun _ he => he

/-- `v2filter_server` throws where no resource waits for the identifier. -/
theorem defined_v2filterServer (buffer : Bytes) (list : CloudResourceList) :
    ThrowsDefined (v2filterServer buffer list) := by
  refine Loop.run_throws (L := collectLoop buffer) (fun s => ?_) _
  change ThrowsDefined (collectStep buffer s)
  rw [collectStep]
  split
  · refine (Throws.throwing (defined_substr _ _ _) _).bind fun _ _ => ?_
    refine Throws.bind (Throws.throwing ?_ _) fun _ _ => throws_pure _
    rw [CloudResourceList.assignResourceId]
    split
    · exact throws_ok _
    · exact throws_error.2 trivial
  · exact throws_pure _

namespace HTTPProxy

/-- The thread has not called `front` or `pop` on an empty queue. -/
def QueuesGuarded (s : HTTPProxy) : Prop := ∀ what, s.status ≠ .died (.undefinedBehaviour what)

/-- The server can be written to in this round, and a request was queued when it
began. -/
def serverOutDue (s : HTTPProxy) (p : Polled) : Bool :=
  s.interest.serverOut && p.serverOut.ready && !p.serverOut.hangUp

/-- Where a buffer is blocked, the text given to the request parser and the buffer
begin with more complete requests than have been taken off the queue: one more, and
a second one if the server is to be written to in the same round. -/
def Stocked (s : HTTPProxy) (p : Polled) : Prop :=
  s.readsClient p → ∀ list,
    v2filterClient p.clientBuffer (s.afterServerIn p).list = .ok (BLOCKED, list) →
      BeginsWithRequests (s.handed ++ p.clientBuffer)
        (s.announced.length + if s.serverOutDue p then 2 else 1)

/-- A round, with a buffer that `read` can return. -/
def Round (s : HTTPProxy) (p : Polled) (s' : HTTPProxy) : Prop :=
  p.clientBuffer.length ≤ bufferSize ∧ s' = s.poll p

variable {s s' : HTTPProxy} {p : Polled} {buffer : Bytes}

/-- The server's input calls neither `front` nor `pop`. -/
theorem defined_serverIn (buffer : Bytes) (s : HTTPProxy) : ThrowsDefined (serverIn buffer s) :=
  (defined_v2filterServer buffer s.list).bind fun _ _ =>
    (Throws.throwing (defined_parse _ buffer) _).bind fun _ _ => throws_pure _

/-- A text that is passed on is only parsed. -/
theorem defined_pass (buffer text : Bytes) (list : CloudResourceList) (s : HTTPProxy) :
    Defined (s.pass buffer text list) :=
  (defined_parse s.requestParser text).bind fun _ _ => throws_pure _

/-- A canned response takes a request off the queue, so there has to be one once the
buffer is parsed. -/
theorem defined_spoof {text : Bytes} {list : CloudResourceList}
    (h : ∀ requestParser, s.requestParser.parse buffer = .ok requestParser →
      requestParser.completeMessages ≠ []) : Defined (s.spoof buffer text list) := by
  refine (defined_parse s.requestParser buffer).bind fun requestParser hparse => ?_
  have hne := h requestParser hparse
  refine (defined_front hne).bind fun request _ => (defined_pop hne).bind fun _ _ => ?_
  refine (defined_getCannedResponse 405 request).bind fun canned _ => ?_
  exact (defined_parse _ canned).bind fun _ _ => throws_pure _

/-- The client's input takes one off only where the buffer is blocked. -/
theorem defined_clientIn
    (h : ∀ list requestParser, v2filterClient buffer s.list = .ok (BLOCKED, list) →
      s.requestParser.parse buffer = .ok requestParser → requestParser.completeMessages ≠ []) :
    ThrowsDefined (clientIn buffer s) := by
  refine (Throws.throwing (defined_v2filterClient buffer s.list) _).bind fun r hr => ?_
  obtain ⟨text, list⟩ := r
  have hfilter := throwing_eq_ok.1 hr
  refine throws_ite (fun _ => Throws.throwing (s.defined_pass buffer text list) _) fun htext => ?_
  obtain rfl := not_not.1 htext
  exact Throws.throwing (defined_spoof fun requestParser => h list requestParser hfilter) _

/-- The server's output takes the request in front. -/
theorem defined_serverOut (h : s.requestParser.completeMessages ≠ []) : Defined s.serverOut :=
  (defined_front h).bind fun request _ => request.defined_str.bind fun _ _ =>
    (defined_pop h).bind fun _ _ => throws_pure _

/-- The client's output takes the response in front. -/
theorem defined_clientOut (h : s.responseParser.completeMessages ≠ []) : Defined s.clientOut :=
  (defined_front h).bind fun response _ => response.defined_str.bind fun _ _ =>
    (defined_pop h).bind fun _ _ => throws_pure _

/-- No call has been made at the start. -/
theorem queuesGuarded_start (list : CloudResourceList) : (start list).QueuesGuarded := by
  intro what hdied
  cases hdied

/-- An entry whose callback has no undefined behaviour keeps the queues guarded. -/
theorem act_guarded {r : Revents} {i : Bool} {callback : HTTPProxy → Except Thrown HTTPProxy}
    (h : s.QueuesGuarded) (hthrows : s.calls r i = true → ThrowsDefined (callback s))
    (hstatus : ∀ s', callback s = .ok s' → s'.status = s.status) :
    (s.act r i callback).QueuesGuarded := by
  unfold act
  by_cases hcalls : s.calls r i = true
  · rw [if_pos hcalls]
    rcases hcb : callback s with t | s'
    · intro what hdied
      have hdefined : t.fault.Defined := hthrows hcalls t hcb
      rw [ThreadStatus.died.inj hdied] at hdefined
      exact hdefined
    · intro what hdied
      exact h what ((hstatus s' hcb).symm.trans hdied)
  · rw [if_neg hcalls]
    split_ifs
    · intro what hdied
      cases hdied
    · exact h

/-- The server's input does not touch the requests. -/
theorem requestParser_afterServerIn (s : HTTPProxy) (p : Polled) :
    (s.afterServerIn p).requestParser = s.requestParser := by
  refine act_invariant (I := fun s₁ => s₁.requestParser = s.requestParser) (fun _ _ _ h => h)
    (fun s' _ hs' => ?_) rfl
  obtain ⟨list, responseParser, -, -, rfl⟩ := serverIn_eq_ok hs'
  rfl

/-- **A blocked buffer finds the queue stocked:** parsing it leaves as many requests
as the round takes off. -/
theorem Stocked.le_length (hstock : s.Stocked p) (h : s.Handed)
    (hlen : p.clientBuffer.length ≤ bufferSize) (hcalls : s.readsClient p)
    {list : CloudResourceList} {requestParser : HTTPRequestParser}
    (hfilter : v2filterClient p.clientBuffer (s.afterServerIn p).list = .ok (BLOCKED, list))
    (hparse : (s.afterServerIn p).requestParser.parse p.clientBuffer = .ok requestParser) :
    (if s.serverOutDue p then 2 else 1) ≤ requestParser.completeMessages.length := by
  rw [requestParser_afterServerIn] at hparse
  exact h.le_length_of_begins hlen (hstock hcalls list hfilter) hparse

/-- **A request promised to the server is still there after the client's input,**
unless the thread has ended. -/
theorem requestParser_afterClientIn (hstock : s.Stocked p) (h : s.Handed)
    (hlen : p.clientBuffer.length ≤ bufferSize) (hdue : s.serverOutDue p = true)
    (hrunning : (s.afterClientIn p).status = .running) :
    (s.afterClientIn p).requestParser.completeMessages ≠ [] := by
  have hqueued : (s.afterServerIn p).requestParser.completeMessages ≠ [] := by
    rw [requestParser_afterServerIn]
    simp only [serverOutDue, interest, empty, Bool.and_eq_true, Bool.not_eq_true',
      decide_eq_false_iff_not] at hdue
    exact hdue.1.1
  refine act_running (I := fun s => s.requestParser.completeMessages ≠ []) hrunning
    (fun s' hcalls hs' => ?_) hqueued
  obtain ⟨text, list, hfilter, ⟨-, hpass⟩ | ⟨rfl, hspoof⟩⟩ := clientIn_eq_ok hs'
  · obtain ⟨requestParser, hparse, rfl⟩ := pass_eq_ok hpass
    intro hnil
    exact hqueued (List.prefix_nil.1 (hnil ▸ completeMessages_prefix hparse))
  · obtain ⟨request, requestParser, canned, responseParser, hparse, -, -, rfl⟩ :=
      spoof_eq_ok hspoof
    have hlength := hstock.le_length h hlen hcalls hfilter hparse
    rw [if_pos hdue, completeMessages_carry, List.singleton_append, List.length_cons] at hlength
    exact List.length_pos_iff.1 (Nat.le_of_succ_le_succ hlength)

/-- **A response promised to the client is still there after the other actions.** -/
theorem responseParser_afterServerOut (h : s.responseParser.completeMessages ≠ []) (p : Polled) :
    (s.afterServerOut p).responseParser.completeMessages ≠ [] := by
  have hgrows : ∀ {parser parser' : HTTPResponseParser} {b : Bytes},
      parser.completeMessages ≠ [] → parser.parse b = .ok parser' →
        parser'.completeMessages ≠ [] := by
    intro parser parser' b hne hparse hnil
    exact hne (List.prefix_nil.1 (hnil ▸ completeMessages_prefix hparse))
  have h₁ : (s.afterServerIn p).responseParser.completeMessages ≠ [] := by
    refine act_invariant (I := fun s => s.responseParser.completeMessages ≠ []) (fun _ _ _ h => h)
      (fun s' _ hs' => ?_) h
    obtain ⟨list, responseParser, -, hparse, rfl⟩ := serverIn_eq_ok hs'
    exact hgrows h hparse
  have h₂ : (s.afterClientIn p).responseParser.completeMessages ≠ [] := by
    refine act_invariant (I := fun s => s.responseParser.completeMessages ≠ []) (fun _ _ _ h => h)
      (fun s' _ hs' => ?_) h₁
    obtain ⟨text, list, -, ⟨-, h⟩ | ⟨-, h⟩⟩ := clientIn_eq_ok hs'
    · obtain ⟨requestParser, -, rfl⟩ := pass_eq_ok h
      exact h₁
    · obtain ⟨request, requestParser, canned, responseParser, -, -, hparse, rfl⟩ := spoof_eq_ok h
      have hnew : ((s.afterServerIn p).responseParser.newRequestArrived request).completeMessages ≠
          [] := h₁
      exact hgrows hnew hparse
  refine act_invariant (I := fun s => s.responseParser.completeMessages ≠ []) (fun _ _ _ h => h)
    (fun s' _ hs' => ?_) h₂
  obtain ⟨request, requestParser, -, rfl⟩ := serverOut_eq_ok (throwing_eq_ok.1 hs')
  exact h₂

/-- **A round keeps the queues guarded,** if a blocked buffer finds them stocked. -/
theorem QueuesGuarded.poll (h : s.QueuesGuarded) (hhanded : s.Handed)
    (hlen : p.clientBuffer.length ≤ bufferSize) (hstock : s.Stocked p) :
    (s.poll p).QueuesGuarded := by
  unfold HTTPProxy.poll
  split_ifs
  · exact h
  · intro what hdied
    cases hdied
  · have h₁ : (s.afterServerIn p).QueuesGuarded :=
      act_guarded h (fun _ => defined_serverIn _ s) fun _ => status_serverIn
    have h₂ : (s.afterClientIn p).QueuesGuarded := by
      refine act_guarded h₁ (fun hcalls => defined_clientIn fun list requestParser hf hparse => ?_)
        fun _ => status_clientIn
      have hlength := hstock.le_length hhanded hlen hcalls hf hparse
      refine List.length_pos_iff.1 (lt_of_lt_of_le ?_ hlength)
      split_ifs <;> decide
    have h₃ : (s.afterServerOut p).QueuesGuarded := by
      refine act_guarded h₂ (fun hcalls => Throws.throwing (defined_serverOut ?_) _)
        fun _ hs' => status_serverOut (throwing_eq_ok.1 hs')
      simp only [calls, Bool.and_eq_true, Bool.not_eq_true', decide_eq_true_eq] at hcalls
      refine requestParser_afterClientIn hstock hhanded hlen ?_ hcalls.1.1
      rw [serverOutDue, hcalls.2.1, hcalls.2.2, hcalls.1.2]
      rfl
    refine act_guarded h₃ (fun hcalls => Throws.throwing (defined_clientOut ?_) _)
      fun _ hs' => status_clientOut (throwing_eq_ok.1 hs')
    simp only [calls, interest, empty, Bool.and_eq_true, Bool.not_eq_true',
      decide_eq_false_iff_not] at hcalls
    exact responseParser_afterServerOut hcalls.2.2 p

end HTTPProxy

/-- **`front` and `pop` are called on queues that are not empty,** in every run in
which each blocked buffer finds the request queue stocked. -/
theorem guarded_of_stocked {list : CloudResourceList} {ps : List Polled} {s : HTTPProxy}
    (h : Run (fun s p s' => HTTPProxy.Round s p s' ∧ s.Stocked p) (.start list) ps s) :
    s.QueuesGuarded := by
  refine (h.invariant (I := fun s => s.QueuesGuarded ∧ s.Handed) (fun s p s' hs hstep => ?_)
    ⟨HTTPProxy.queuesGuarded_start list, HTTPProxy.handed_start list⟩).1
  obtain ⟨⟨hlen, rfl⟩, hstock⟩ := hstep
  exact ⟨hs.1.poll hs.2 hlen hstock, hs.2.poll hlen⟩

/-- A request that is refused while another one waits for the server, which can be
written to in the same round. -/
theorem guarded_of_stocked_full :
    ∃ ps s, Run (fun s p s' => HTTPProxy.Round s p s' ∧ s.Stocked p) (.start atLimit) ps s ∧
      s.QueuesGuarded ∧ s.blocked = [ascii "GET /lambda HTTP/1.1\r\n\r\n"] ∧
      s.toServer.length = 1 := by
  obtain ⟨m₁, hm₁⟩ := exists_completeRequest (w := ascii "GET / HTTP/1.1\r\n\r\n")
    (by decide +kernel) isCompleteRequest_root
  obtain ⟨m₂, hm₂⟩ := exists_completeRequest (w := ascii "GET /lambda HTTP/1.1\r\n\r\n")
    (by decide +kernel) isCompleteRequest_lambda
  have hrun : Run (fun s p s' => HTTPProxy.Round s p s' ∧ s.Stocked p) (.start atLimit)
      [readClient (ascii "GET / HTTP/1.1\r\n\r\n"),
        { clientIn := { ready := true }, serverOut := { ready := true },
          clientBuffer := ascii "GET /lambda HTTP/1.1\r\n\r\n" }] _ :=
    .cons ⟨⟨by decide +kernel, rfl⟩, fun _ _ _ =>
      ⟨_, _, .cons hm₁ .nil, by decide +kernel, by decide +kernel⟩⟩
      (.cons ⟨⟨by decide +kernel, rfl⟩, fun _ _ _ =>
        ⟨_, _, .cons hm₁ (.cons hm₂ .nil), by decide +kernel, by decide +kernel⟩⟩ (.nil _))
  exact ⟨_, _, hrun, guarded_of_stocked hrun, by decide +kernel, by decide +kernel⟩

/-- **`front` on an empty queue:** the first part of a request is refused. -/
theorem front_of_empty :
    ∃ ps s, Run HTTPProxy.Round (.start atLimit) ps s ∧
      s.status = .died (.undefinedBehaviour (ascii "std::queue::front")) ∧ ¬ s.QueuesGuarded := by
  have hdied : (HTTPProxy.poll (.start atLimit) (readClient (ascii "GET /lambda"))).status =
      .died (.undefinedBehaviour (ascii "std::queue::front")) := by decide +kernel
  exact ⟨_, _, .cons ⟨by decide +kernel, rfl⟩ (.nil _), hdied, fun h => h _ hdied⟩

end V2Proxy
