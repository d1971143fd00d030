/-
# What is read at both ends of the proxy

The proxy parses what it is sent and writes `str` of it.  So does the next proxy, and what
that reads are the requests that this one has written, and the responses that it has saved,
with a space more in the headers that are empty (`both_ends_read`).  This holds of every run,
whatever the filter does, as long as no response but the last one was ended by the connection:
a client cannot see where such a response ends, and a canned response may follow it.
-/

import V2Proxy.Http.ForwardedResponses
import V2Proxy.HttpServer.Recorder
import V2Proxy.HttpServer.ResponsesInTurn

namespace V2Proxy

open Foundations HTTPMessageSequence HTTPResponseParser

namespace HTTPProxy

/-- **What can be forwarded.** -/
structure Forwards (s : HTTPProxy) : Prop where
  savable : s.Savable
  waiting : s.responseParser.Waiting
  forwarding : s.responseParser.Forwarding
  saved : ∀ m ∈ s.saved, Forwardable m
  producing : s.requestParser.Producing
  written : ∀ m ∈ s.written, HTTPRequest.Framed m ∧ m.state = .complete
  toServer : s.toServer = s.written.map HTTPMessage.serialize
  toClient : s.toClient = s.saved.map HTTPMessage.serialize

variable {s s' : HTTPProxy}

theorem forwards_start (list : CloudResourceList) : (start list).Forwards :=
  ⟨savable_start list, waiting_new, forwarding_new, fun _ h => absurd h List.not_mem_nil,
    HTTPRequestParser.producing_new, fun _ h => absurd h List.not_mem_nil, rfl, rfl⟩

theorem Forwards.serverIn {buffer : Bytes} (h : s.Forwards) (hlen : buffer.length ≤ bufferSize)
    (hs : serverIn buffer s = .ok s') : s'.Forwards := by
  have hsavable := h.savable.acts (.serverIn s.list s'.list hs)
  obtain ⟨list, responseParser, -, hparse, rfl⟩ := serverIn_eq_ok hs
  exact ⟨hsavable, h.waiting.parse hparse, h.forwarding.parse h.waiting.settled hlen hparse, h.saved,
    h.producing, h.written, h.toServer, h.toClient⟩

/-- A client message goes on, or is answered with the canned response. -/
theorem Forwards.clientIn {buffer : Bytes} (h : s.Forwards) (hs : clientIn buffer s = .ok s') :
    s'.Forwards := by
  obtain ⟨text, list, -, ⟨-, hs⟩ | ⟨-, hs⟩⟩ := clientIn_eq_ok hs
  · have hsavable := h.savable.acts (.pass hs)
    obtain ⟨requestParser, hparse, rfl⟩ := pass_eq_ok hs
    exact ⟨hsavable, h.waiting, h.forwarding, h.saved, h.producing.parse hparse, h.written, h.toServer,
      h.toClient⟩
  · have hsavable := h.savable.acts (.spoof hs)
    obtain ⟨request, requestParser, canned, responseParser, hparse, hcanned, hresponse, rfl⟩ :=
      spoof_eq_ok hs
    have hrequest := (completed_carry.1 (h.savable.requests.parse hparse)).1 request List.mem_cons_self
    rw [getCannedResponse_405 hrequest] at hcanned
    obtain rfl := Except.ok.inj hcanned
    have hshort : cannedText.length ≤ bufferSize := by decide +kernel
    have hwaiting := h.waiting.newRequestArrived request
    have hproducing := h.producing.parse hparse
    exact ⟨hsavable, hwaiting.parse hresponse,
      (h.forwarding.newRequestArrived request).parse hwaiting.settled hshort hresponse, h.saved,
      ⟨fun m hm => hproducing.queue m (List.mem_cons_of_mem _ hm), hproducing.inProgress⟩, h.written,
      h.toServer, h.toClient⟩

/-- A request goes to the server, and is announced. -/
theorem Forwards.serverOut (h : s.Forwards) (hs : serverOut s = .ok s') : s'.Forwards := by
  have hsavable := h.savable.acts (.serverOut hs)
  obtain ⟨request, requestParser, hfront, rfl⟩ := serverOut_eq_ok hs
  have hproducing := h.producing
  rw [hfront] at hproducing
  refine ⟨hsavable, h.waiting.newRequestArrived request, h.forwarding.newRequestArrived request,
    h.saved, ⟨fun m hm => hproducing.queue m (List.mem_cons_of_mem _ hm), hproducing.inProgress⟩, ?_, ?_,
    h.toClient⟩
  · refine List.forall_mem_append.2 ⟨h.written, fun m hm => ?_⟩
    rw [List.mem_singleton.1 hm]
    exact hproducing.queue request List.mem_cons_self
  · change s.toServer ++ [request.serialize] = _
    rw [h.toServer, List.map_append]
    rfl

/-- A response goes to the client. -/
theorem Forwards.clientOut (h : s.Forwards) (hs : clientOut s = .ok s') : s'.Forwards := by
  have hsavable := h.savable.clientOut hs
  obtain ⟨response, responseParser, hfront, rfl⟩ := clientOut_eq_ok hs
  have hwaiting := h.waiting
  have hforwarding := h.forwarding
  rw [hfront] at hwaiting hforwarding
  refine ⟨hsavable, waiting_carry.1 hwaiting,
    ⟨fun m hm => hforwarding.queue m (List.mem_cons_of_mem _ hm), hforwarding.inProgress⟩, ?_,
    h.producing, h.written, h.toServer, ?_⟩
  · refine List.forall_mem_append.2 ⟨h.saved, fun m hm => ?_⟩
    rw [List.mem_singleton.1 hm]
    exact hforwarding.queue response List.mem_cons_self
  · change s.toClient ++ [response.serialize] = _
    rw [h.toClient, List.map_append]
    rfl

/-- **So does a round.** -/
theorem Forwards.poll (h : s.Forwards) {p : Polled} (hlen : p.serverBuffer.length ≤ bufferSize) :
    (s.poll p).Forwards := by
  refine poll_invariant (fun s list status h => ?_) (fun s' _ hs h => h.serverIn hlen hs)
    (fun s' _ hs h => h.clientIn hs) (fun s s' hs h => h.serverOut hs)
    (fun s s' hs h => h.clientOut hs) h
  exact ⟨h.savable.acts (.ends list status), h.waiting, h.forwarding, h.saved, h.producing, h.written,
    h.toServer, h.toClient⟩

end HTTPProxy

/-- **What is read at both ends.**  After any run of the proxy, a request parser makes of what was
written to the server the requests that were written, respaced.  And a response parser that knows the
announced requests makes of what was written to the client the responses that were saved, respaced,
however the bytes are cut and once the connection is closed, if no response but the last one was ended
by the connection. -/
theorem both_ends_read {list : CloudResourceList} {ps : List Polled} {s : HTTPProxy}
    (hrun : Run (fun s p s' => p.serverBuffer.length ≤ bufferSize ∧ s' = s.poll p) (.start list) ps s) :
    HTTPRequestParser.new.parse s.toServer.flatten =
      .ok (HTTPRequestParser.queued (s.written.map HTTPRequest.respace)) ∧
    ((∀ m ∈ s.saved.dropLast, m.Delimited) → ∀ pieces : List Bytes,
      (∀ p ∈ pieces, p ≠ [] ∧ p.length ≤ bufferSize) → pieces.flatten = s.toClient.flatten →
        ∃ client closed, pieces.foldlM parse (pending (s.announced.map Prod.fst)) = .ok client ∧
          client.parse [] = .ok closed ∧
          closed.completeMessages = s.saved.map HTTPResponse.respace) := by
  have hs : s.Forwards := by
    refine hrun.invariant (I := HTTPProxy.Forwards) (fun s p s' hs hstep => ?_)
      (HTTPProxy.forwards_start list)
    obtain ⟨hlen, rfl⟩ := hstep
    exact hs.poll hlen
  refine ⟨?_, fun hdelimited pieces hp hcut => ?_⟩
  · rw [hs.toServer]
    exact parse_serialize hs.written
  · rw [hs.toClient] at hcut
    obtain ⟨client, closed, hclient, hclosed, hmessages⟩ :=
      reads_serialize hs.saved hdelimited hp hcut s.responseParser.requests
    have hannounced : s.saved.map HTTPResponse.request ++ s.responseParser.requests =
        s.announced.map Prod.fst := hs.savable.announced
    rw [hannounced] at hclient
    exact ⟨client, closed, hclient, hclosed, hmessages⟩

/-- A request and its reply, which the client reads byte by byte. -/
theorem both_ends_read_root : ∃ (s : HTTPProxy) (client closed : HTTPResponseParser),
    s.toServer = [ascii "GET / HTTP/1.1\r\n\r\n"] ∧ s.toClient = [rootReply.1] ∧
    HTTPRequestParser.new.parse s.toServer.flatten =
      .ok (HTTPRequestParser.queued (s.written.map HTTPRequest.respace)) ∧
    (rootReply.1.map fun c => [c]).foldlM parse (pending (s.announced.map Prod.fst)) = .ok client ∧
    client.parse [] = .ok closed ∧ closed.completeMessages = s.saved.map HTTPResponse.respace := by
  have hrun : Run (fun (s : HTTPProxy) p s' => p.serverBuffer.length ≤ bufferSize ∧ s' = s.poll p)
      (.start {})
      [readClient (ascii "GET / HTTP/1.1\r\n\r\n"), writeServer, readServer, writeClient] _ :=
    .cons ⟨Nat.zero_le _, rfl⟩ (.cons ⟨Nat.zero_le _, rfl⟩ (.cons ⟨by decide +kernel, rfl⟩
      (.cons ⟨Nat.zero_le _, rfl⟩ (.nil _))))
  have hpieces : ∀ p ∈ rootReply.1.map fun c => [c], p ≠ [] ∧ p.length ≤ bufferSize := by
    intro p hp
    obtain ⟨c, -, rfl⟩ := List.mem_map.1 hp
    exact ⟨List.cons_ne_nil c [], show 1 ≤ bufferSize by decide⟩
  have honly : ∀ {ms : List HTTPResponse} {m : HTTPResponse}, ms.length = 1 → m ∉ ms.dropLast := by
    intro ms m hlength hm
    rw [List.eq_nil_of_length_eq_zero (l := ms.dropLast) (by rw [List.length_dropLast, hlength])] at hm
    cases hm
  obtain ⟨hserver, hclient⟩ := both_ends_read hrun
  obtain ⟨client, closed, hreads, hclosed, hmessages⟩ :=
    hclient (fun m hm => absurd hm (honly (by decide +kernel))) _ hpieces (by decide +kernel)
  exact ⟨_, client, closed, by decide +kernel, by decide +kernel, hserver, hreads, hclosed, hmessages⟩

end V2Proxy
