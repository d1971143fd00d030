/-
# The proxy is transparent to what its filter does not match

A client buffer without the keywords passes the filter unchanged, and then goes to
the request parser, unless it is the seven bytes `BLOCKED`: the verdict travels in
the same string as the message.  In a run whose client buffers are neither, what is
written to the server is what the request parser makes of the client's bytes, and
the response parser gets the server's bytes and nothing else
(`transparent_of_quiet`).  A request whose last buffer is `BLOCKED` is answered by
the proxy (`blocked_text_is_spoofed`).
-/

import V2Proxy.HttpServer.BlockedRequests

namespace V2Proxy

open Foundations HTTPMessageSequence

namespace HTTPProxy

/-- The client buffer that is read has none of the keywords. -/
def ReadsQuiet (s : HTTPProxy) (p : Polled) : Prop :=
  s.readsClient p → isEc2 p.clientBuffer = false ∧ isLambda p.clientBuffer = false

/-- The client buffer that is read is not the text of the verdict. -/
def ReadsMessage (s : HTTPProxy) (p : Polled) : Prop := s.readsClient p → p.clientBuffer ≠ BLOCKED

/-- A round whose client buffer has none of the keywords. -/
def QuietStep (s : HTTPProxy) (p : Polled) (s' : HTTPProxy) : Prop := s.ReadsQuiet p ∧ s' = s.poll p

/-- The filter and the relaying do nothing to the traffic: buffers pass unchanged,
what is written and what waits to be written is what the parser makes of them, each
request is announced once, and the response parser gets the server's bytes. -/
structure Transparent (s : HTTPProxy) : Prop where
  unchanged : ∀ v ∈ s.verdicts, v.2 = v.1
  requests : (s.verdicts.map Prod.fst).foldlM parse HTTPRequestParser.new =
    .ok (s.requestParser.carry s.written)
  written : s.toServer = s.written.map HTTPMessage.serialize
  announced : s.announced = s.written.map fun request => (request, false)
  parsed : s.parsed.flatten = s.received

variable {s s' : HTTPProxy} {p : Polled} {buffer : Bytes}

theorem transparent_start (list : CloudResourceList) : (start list).Transparent :=
  ⟨fun _ hv => absurd hv List.not_mem_nil, rfl, rfl, rfl, rfl⟩

theorem Transparent.serverIn (h : s.Transparent) (hs : serverIn buffer s = .ok s') :
    s'.Transparent := by
  obtain ⟨list, responseParser, -, -, rfl⟩ := serverIn_eq_ok hs
  refine ⟨h.unchanged, h.requests, h.written, h.announced, ?_⟩
  change (s.parsed ++ [buffer]).flatten = s.received ++ buffer
  rw [List.flatten_append, h.parsed, List.flatten_singleton]

theorem Transparent.clientOut (h : s.Transparent) (hs : clientOut s = .ok s') : s'.Transparent := by
  obtain ⟨response, responseParser, -, rfl⟩ := clientOut_eq_ok hs
  exact ⟨h.unchanged, h.requests, h.written, h.announced, h.parsed⟩

theorem Transparent.serverOut (h : s.Transparent) (hs : serverOut s = .ok s') : s'.Transparent := by
  obtain ⟨request, requestParser, hfront, rfl⟩ := serverOut_eq_ok hs
  refine ⟨h.unchanged, ?_, ?_, ?_, h.parsed⟩
  · change (s.verdicts.map Prod.fst).foldlM parse HTTPRequestParser.new =
      .ok (requestParser.carry (s.written ++ [request]))
    rw [h.requests, hfront, carry_carry]
  · change s.toServer ++ [request.serialize] = _
    rw [h.written, List.map_append]
    rfl
  · change s.announced ++ [(request, false)] = _
    rw [h.announced, List.map_append]
    rfl

/-- **A buffer without keywords goes to the request parser as it is,** and the list
stays, if it is not the text of the verdict. -/
theorem clientIn_of_quiet (hec2 : isEc2 buffer = false) (hlambda : isLambda buffer = false)
    (hmessage : buffer ≠ BLOCKED) :
    clientIn buffer s = throwing s.list (s.pass buffer buffer s.list) := by
  rw [clientIn, v2filterClient_of_quiet hec2 hlambda, throwing_ok, ok_bind]
  exact if_pos hmessage

theorem Transparent.clientIn (h : s.Transparent) (hec2 : isEc2 buffer = false)
    (hlambda : isLambda buffer = false) (hmessage : buffer ≠ BLOCKED)
    (hs : clientIn buffer s = .ok s') : s'.Transparent := by
  rw [clientIn_of_quiet hec2 hlambda hmessage] at hs
  obtain ⟨requestParser, hparse, rfl⟩ := pass_eq_ok (throwing_eq_ok.1 hs)
  refine ⟨fun v hv => ?_, ?_, h.written, h.announced, h.parsed⟩
  · rcases List.mem_append.1 hv with hv | hv
    · exact h.unchanged v hv
    · rw [List.mem_singleton.1 hv]
  · change ((s.verdicts ++ [(buffer, buffer)]).map Prod.fst).foldlM parse HTTPRequestParser.new = _
    rw [List.map_append, List.foldlM_append, h.requests, ok_bind, List.map_singleton,
      List.foldlM_cons, parse_carry, hparse]
    rfl

/-- **A round stays transparent.** -/
theorem Transparent.poll (h : s.Transparent) (hquiet : s.ReadsQuiet p)
    (hmessage : s.ReadsMessage p) : (s.poll p).Transparent := by
  refine poll_invariant
    (fun s list status h => ⟨h.unchanged, h.requests, h.written, h.announced, h.parsed⟩)
    (fun s' _ hs h => h.serverIn hs) (fun s' hreads hs h => ?_)
    (fun s s' hs h => h.serverOut hs) (fun s s' hs h => h.clientOut hs) h
  obtain ⟨hec2, hlambda⟩ := hquiet hreads
  exact h.clientIn hec2 hlambda (hmessage hreads) hs

/-- An entry whose callback leaves the list as it is, also when it throws. -/
theorem act_list {r : Revents} {i : Bool} {callback : HTTPProxy → Except Thrown HTTPProxy}
    (herror : ∀ t, s.calls r i = true → callback s = .error t → t.list = s.list)
    (hok : ∀ s', s.calls r i = true → callback s = .ok s' → s'.list = s.list) :
    (s.act r i callback).list = s.list := by
  unfold act
  by_cases hcalls : s.calls r i = true
  · rw [if_pos hcalls]
    rcases hcb : callback s with t | s'
    · exact herror t hcalls hcb
    · exact hok s' hcalls hcb
  · rw [if_neg hcalls]
    split_ifs <;> rfl

/-- **Past the server's input, a round leaves the resource list as it is.** -/
theorem list_poll (hquiet : s.ReadsQuiet p) (hmessage : s.ReadsMessage p) :
    (s.poll p).list = (s.afterServerIn p).list := by
  have hclientIn : (s.afterClientIn p).list = (s.afterServerIn p).list := by
    refine act_list (fun t hreads ht => ?_) (fun s' hreads hs' => ?_)
    · obtain ⟨hec2, hlambda⟩ := hquiet hreads
      rw [clientIn_of_quiet hec2 hlambda (hmessage hreads)] at ht
      exact (throwing_eq_error.1 ht).2
    · obtain ⟨hec2, hlambda⟩ := hquiet hreads
      rw [clientIn_of_quiet hec2 hlambda (hmessage hreads)] at hs'
      obtain ⟨requestParser, -, rfl⟩ := pass_eq_ok (throwing_eq_ok.1 hs')
      rfl
  have hserverOut : (s.afterServerOut p).list = (s.afterClientIn p).list := by
    refine act_list (fun t _ ht => (throwing_eq_error.1 ht).2) (fun s' _ hs' => ?_)
    obtain ⟨request, requestParser, -, rfl⟩ := serverOut_eq_ok (throwing_eq_ok.1 hs')
    rfl
  unfold poll
  split_ifs with hrunning hnone
  · have hcalls : s.calls p.serverIn s.interest.serverIn = false := by
      rw [calls, decide_eq_false hrunning]
      rfl
    rw [afterServerIn, act, if_neg (by rw [hcalls]; decide), if_neg fun h => hrunning h.1]
  · have hinterest : s.interest.serverIn = false := by
      simp only [Interest.none, Bool.not_eq_true', Bool.or_eq_false_iff] at hnone
      exact hnone.1.1.1
    have hcalls : s.calls p.serverIn s.interest.serverIn = false := by
      rw [hinterest, calls, Bool.and_false, Bool.and_false]
    rw [afterServerIn, act, if_neg (by rw [hcalls]; decide)]
    split_ifs <;> rfl
  · have hclientOut : ((s.afterServerOut p).act p.clientOut s.interest.clientOut
        fun s => throwing s.list s.clientOut).list = (s.afterServerOut p).list := by
      refine act_list (fun t _ ht => (throwing_eq_error.1 ht).2) (fun s' _ hs' => ?_)
      obtain ⟨response, responseParser, -, rfl⟩ := clientOut_eq_ok (throwing_eq_ok.1 hs')
      rfl
    rw [hclientOut, hserverOut, hclientIn]

end HTTPProxy

/-- **The proxy is transparent to traffic without keywords,** in every run in which
no client buffer is the text `BLOCKED`; and a further such round changes the resource
list by the server's input only. -/
theorem transparent_of_quiet {list : CloudResourceList} {ps : List Polled} {s : HTTPProxy}
    (h : Run (fun s p s' => HTTPProxy.QuietStep s p s' ∧ s.ReadsMessage p) (.start list) ps s) :
    s.Transparent ∧ ∀ p, s.ReadsQuiet p → s.ReadsMessage p →
      (s.poll p).list = (s.afterServerIn p).list := by
  refine ⟨h.invariant (I := HTTPProxy.Transparent) (fun s p s' hs hstep => ?_)
    (HTTPProxy.transparent_start list), fun p => HTTPProxy.list_poll⟩
  obtain ⟨⟨hquiet, rfl⟩, hmessage⟩ := hstep
  exact hs.poll hquiet hmessage

/-- A request read in two buffers, written to the server, and one buffer more. -/
theorem transparent_of_quiet_twoBuffers :
    ∃ ps s, Run (fun s p s' => HTTPProxy.QuietStep s p s' ∧ s.ReadsMessage p) (.start {}) ps s ∧
      s.Transparent ∧ s.toServer = [ascii "GET / HTTP/1.1\r\n\r\n"] ∧
      (s.poll (readClient (ascii "GET"))).list = (s.afterServerIn (readClient (ascii "GET"))).list := by
  have hrun : Run (fun s p s' => HTTPProxy.QuietStep s p s' ∧ s.ReadsMessage p) (.start {})
      [readClient (ascii "GET / HT"), readClient (ascii "TP/1.1\r\n\r\n"), writeServer] _ :=
    .cons ⟨⟨fun _ => by decide +kernel, rfl⟩, fun _ => by decide +kernel⟩
      (.cons ⟨⟨fun _ => by decide +kernel, rfl⟩, fun _ => by decide +kernel⟩
        (.cons ⟨⟨fun _ => by decide +kernel, rfl⟩, fun _ => by decide +kernel⟩ (.nil _)))
  exact ⟨_, _, hrun, (transparent_of_quiet hrun).1, by decide +kernel,
    (transparent_of_quiet hrun).2 _ (fun _ => by decide +kernel) (fun _ => by decide +kernel)⟩

/-- **The text of the verdict is a possible buffer:** here it is the body of a
request, read on its own.  The proxy answers the request itself, and the server never
gets it. -/
theorem blocked_text_is_spoofed :
    ∃ ps s, Run HTTPProxy.QuietStep (.start {}) ps s ∧
      s.verdicts.map Prod.fst =
        [ascii "POST / HTTP/1.1\r\nContent-Length: 7\r\n\r\n", ascii "BLOCKED"] ∧
      s.requestParser.completeMessages = [] ∧ s.toServer = [] ∧ ¬ s.Transparent := by
  have hrun : Run HTTPProxy.QuietStep (.start {})
      [readClient (ascii "POST / HTTP/1.1\r\nContent-Length: 7\r\n\r\n"),
        readClient (ascii "BLOCKED")] _ :=
    .cons ⟨fun _ => by decide +kernel, rfl⟩ (.cons ⟨fun _ => by decide +kernel, rfl⟩ (.nil _))
  exact ⟨_, _, hrun, by decide +kernel, by decide +kernel, by decide +kernel,
    fun h => absurd h.parsed (by decide +kernel)⟩

end V2Proxy
