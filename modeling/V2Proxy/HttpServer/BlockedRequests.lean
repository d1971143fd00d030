/-
# What is blocked is not written

A blocked request and the requests on their way to the server share one queue:
the buffer is parsed into it, and the request in front of the queue is taken off
for the canned response.  That is the blocked request only if the queue was empty
and no request was half parsed.  The canned response is parsed behind whatever
the response parser is waiting for, so it answers the blocked request only if
nothing is in flight.

`Clear` says that both are so where a request is blocked.  In a run in which they
are, only requests of texts that were passed on are written, and only requests
that were blocked get a canned response (`separated_of_clear`).  Otherwise the
blocked request may be written, and another one refused in its place
(`blocked_is_written`).
-/

import V2Proxy.HttpServer.HTTPProxy
import Mathlib.Data.List.Forall2

namespace V2Proxy

open Foundations HTTPMessageSequence

/-- The client's buffer is one complete request, or EOF. -/
def Polled.ClientSends (p : Polled) : Prop :=
  p.clientBuffer = [] ∨ ∃ request, IsRequest p.clientBuffer request

namespace HTTPProxy

/-- A round in which the client sends one request per buffer. -/
def Step (s : HTTPProxy) (p : Polled) (s' : HTTPProxy) : Prop :=
  p.ClientSends ∧ s' = s.poll p

/-- Any rounds in which the client sends one request per buffer make a run. -/
theorem run_foldl {ps : List Polled} (h : ∀ p ∈ ps, p.ClientSends) (s : HTTPProxy) :
    Run Step s ps (ps.foldl poll s) := by
  induction ps generalizing s with
  | nil => exact .nil s
  | cons p ps ih =>
      exact .cons ⟨h p (by simp), rfl⟩ (ih (fun q hq => h q (by simp [hq])) (s.poll p))

/-- The texts that the filter passed on. -/
def forwarded (s : HTTPProxy) : List Bytes :=
  (s.verdicts.filter fun v => v.2 ≠ BLOCKED).map Prod.snd

/-- The buffers that the filter blocked. -/
def blocked (s : HTTPProxy) : List Bytes :=
  (s.verdicts.filter fun v => v.2 = BLOCKED).map Prod.fst

/-- Blocked requests are not written, and no others get a canned response:
everything written, and everything waiting to be written, is what a parser makes
of the texts that were passed on; each canned text completed one response, to the
request that was blocked. -/
structure Separated (s : HTTPProxy) : Prop where
  written : s.toServer = s.written.map HTTPMessage.serialize
  requests : s.forwarded.foldlM parse HTTPRequestParser.new = .ok (s.requestParser.carry s.written)
  spoofed : List.Forall₂ IsRequest s.blocked s.spoofed

/-- Where a request is blocked, no other one is queued or half parsed, and no
response is in flight. -/
def Clear (s : HTTPProxy) (p : Polled) : Prop :=
  s.readsClient p → ∀ list,
    v2filterClient p.clientBuffer (s.afterServerIn p).list = .ok (BLOCKED, list) →
      (s.afterServerIn p).requestParser = .queued [] ∧
        (s.afterServerIn p).responseParser.inFlight = []

variable {s s' : HTTPProxy} {p : Polled}

/-- One more buffer is forwarded, or not. -/
theorem forwarded_append (s : HTTPProxy) (buffer text : Bytes) :
    ((s.verdicts ++ [(buffer, text)]).filter fun v => v.2 ≠ BLOCKED).map Prod.snd =
      s.forwarded ++ if text ≠ BLOCKED then [text] else [] := by
  rw [List.filter_append, List.map_append, forwarded]
  by_cases h : text = BLOCKED
  · simp [h]
  · simp [h]

/-- One more buffer is blocked, or not. -/
theorem blocked_append (s : HTTPProxy) (buffer text : Bytes) :
    ((s.verdicts ++ [(buffer, text)]).filter fun v => v.2 = BLOCKED).map Prod.fst =
      s.blocked ++ if text = BLOCKED then [buffer] else [] := by
  rw [List.filter_append, List.map_append, blocked]
  by_cases h : text = BLOCKED
  · simp [h]
  · simp [h]

/-- EOF is not blocked. -/
theorem v2filterClient_nil (list : CloudResourceList) : v2filterClient [] list = .ok ([], list) :=
  v2filterClient_of_quiet (by decide) (by decide) list

/-- **What `spoof` does when nothing is queued:** the blocked request is taken off
again, and the canned response is parsed behind its announcement. -/
theorem spoof_of_queued {buffer text : Bytes} {list : CloudResourceList} {request : HTTPRequest}
    (hqueue : s.requestParser = .queued []) (hbuffer : IsRequest buffer request)
    (h : s.spoof buffer text list = .ok s') :
    ∃ responseParser, (s.responseParser.newRequestArrived request).parse cannedText =
        .ok responseParser ∧
      s' = { s with
        list := list
        responseParser := responseParser
        clientEof := s.clientEof || buffer = []
        verdicts := s.verdicts ++ [(buffer, text)]
        announced := s.announced ++ [(request, true)]
        parsed := s.parsed ++ [cannedText]
        spoofed := s.spoofed ++ (responseParser.completeMessages.drop
          s.responseParser.completeMessages.length).map HTTPResponse.request } := by
  obtain ⟨front, rest, canned, responseParser, hparse, hcanned, hresponse, rfl⟩ := spoof_eq_ok h
  rw [hqueue, hbuffer.parse] at hparse
  have hcarry := Except.ok.inj hparse
  obtain ⟨buffer', messages, message, members⟩ := rest
  cases hcarry
  rw [getCannedResponse_405 hbuffer.complete] at hcanned
  cases hcanned
  exact ⟨responseParser, hresponse, by rw [hqueue]; rfl⟩

/-- The invariant of the runs in which blocked requests find the parsers clear. -/
def Apart (s : HTTPProxy) : Prop := s.Separated ∧ s.responseParser.Waiting

/-- Nothing has been read at the start. -/
theorem apart_start (list : CloudResourceList) : (start list).Apart :=
  ⟨⟨rfl, rfl, .nil⟩, HTTPResponseParser.waiting_new⟩

/-- The server's input keeps the requests apart. -/
theorem Apart.serverIn {buffer : Bytes} (h : s.Apart) (hs : serverIn buffer s = .ok s') :
    s'.Apart := by
  obtain ⟨list, responseParser, -, hparse, rfl⟩ := serverIn_eq_ok hs
  exact ⟨⟨h.1.written, h.1.requests, h.1.spoofed⟩, h.2.parse hparse⟩

/-- So does a response. -/
theorem Apart.clientOut (h : s.Apart) (hs : clientOut s = .ok s') : s'.Apart := by
  obtain ⟨response, responseParser, hfront, rfl⟩ := clientOut_eq_ok hs
  refine ⟨⟨h.1.written, h.1.requests, h.1.spoofed⟩, ?_⟩
  have hwaiting := h.2
  rw [hfront] at hwaiting
  exact HTTPResponseParser.waiting_carry.1 hwaiting

/-- The request in front of the queue is the next one of the texts passed on. -/
theorem Apart.serverOut (h : s.Apart) (hs : serverOut s = .ok s') : s'.Apart := by
  obtain ⟨request, requestParser, hfront, rfl⟩ := serverOut_eq_ok hs
  refine ⟨⟨?_, ?_, h.1.spoofed⟩, h.2.newRequestArrived request⟩
  · change s.toServer ++ [request.serialize] = _
    rw [h.1.written, List.map_append]
    rfl
  · change s.forwarded.foldlM parse HTTPRequestParser.new =
      .ok (requestParser.carry (s.written ++ [request]))
    rw [h.1.requests, hfront, carry_carry]

/-- A text that is passed on goes to the end of the queue. -/
theorem Apart.pass {buffer text : Bytes} {list : CloudResourceList} (h : s.Apart)
    (htext : text ≠ BLOCKED) (hs : s.pass buffer text list = .ok s') : s'.Apart := by
  obtain ⟨requestParser, hparse, rfl⟩ := pass_eq_ok hs
  refine ⟨⟨h.1.written, ?_, ?_⟩, h.2⟩
  · have hforwarded := forwarded_append s buffer text
    rw [if_pos htext] at hforwarded
    rw [forwarded]
    dsimp only
    rw [hforwarded, List.foldlM_append, h.1.requests, ok_bind, List.foldlM_cons, parse_carry, hparse]
    rfl
  · have hblocked := blocked_append s buffer text
    rw [if_neg htext, List.append_nil] at hblocked
    rw [blocked]
    dsimp only
    rw [hblocked]
    exact h.1.spoofed

/-- **A blocked request that finds the parsers clear** leaves the queue as it was,
and gets the canned response. -/
theorem Apart.spoof {buffer : Bytes} {list : CloudResourceList} {request : HTTPRequest}
    (h : s.Apart) (hqueue : s.requestParser = .queued []) (hin : s.responseParser.inFlight = [])
    (hbuffer : IsRequest buffer request) (hs : s.spoof buffer BLOCKED list = .ok s') :
    s'.Apart := by
  obtain ⟨responseParser, hparse, rfl⟩ := spoof_of_queued hqueue hbuffer hs
  have hcanned := newRequestArrived_parse_canned h.2 hin hparse
  refine ⟨⟨h.1.written, ?_, ?_⟩, (h.2.newRequestArrived request).parse hparse⟩
  · have hforwarded := forwarded_append s buffer BLOCKED
    rw [if_neg (fun hne => hne rfl), List.append_nil] at hforwarded
    rw [forwarded]
    dsimp only
    rw [hforwarded]
    exact h.1.requests
  · have hblocked := blocked_append s buffer BLOCKED
    rw [if_pos rfl] at hblocked
    rw [blocked]
    dsimp only
    rw [hblocked, hcanned, completeMessages_carry, List.append_assoc, List.drop_left]
    exact List.rel_append h.1.spoofed (.cons hbuffer .nil)

/-- **A round keeps blocked requests apart,** if they find the parsers clear. -/
theorem Apart.poll (h : s.Apart) (hp : p.ClientSends) (hclear : s.Clear p) : (s.poll p).Apart := by
  refine poll_invariant (fun s list status h => ⟨⟨h.1.written, h.1.requests, h.1.spoofed⟩, h.2⟩)
    (fun s' _ hs h => h.serverIn hs) (fun s' hreads hs h => ?_)
    (fun s s' hs h => h.serverOut hs) (fun s s' hs h => h.clientOut hs) h
  obtain ⟨text, list, hfilter, ⟨htext, hs⟩ | ⟨rfl, hs⟩⟩ := clientIn_eq_ok hs
  · exact h.pass htext hs
  · obtain ⟨hqueue, hin⟩ := hclear hreads list hfilter
    rcases hp with hnil | ⟨request, hrequest⟩
    · rw [hnil, v2filterClient_nil] at hfilter
      cases hfilter
    · exact h.spoof hqueue hin hrequest hs

end HTTPProxy

/-- **Blocked requests are not written, and no others get a canned response,** in
every run in which each blocked request finds the request queue empty and nothing
in flight. -/
theorem separated_of_clear {list : CloudResourceList} {ps : List Polled} {s : HTTPProxy}
    (h : Run (fun s p s' => HTTPProxy.Step s p s' ∧ s.Clear p) (.start list) ps s) :
    s.Separated := by
  refine (h.invariant (I := HTTPProxy.Apart) (fun s p s' hs hstep => ?_)
    (HTTPProxy.apart_start list)).1
  obtain ⟨⟨hp, rfl⟩, hclear⟩ := hstep
  exact hs.poll hp hclear

/-- A list in which the limit is reached. -/
def atLimit : CloudResourceList :=
  { invoked := List.replicate INVOKE_LIMIT (CloudResourceList.curr {} (ascii "lambda")) }

/-- A round in which only the client has something to read. -/
def readClient (buffer : Bytes) : Polled := { clientIn := { ready := true }, clientBuffer := buffer }

/-- A round in which only the server can be written to. -/
def writeServer : Polled := { serverOut := { ready := true } }

/-- A round in which only the server can be written to. -/
theorem clientSends_writeServer : writeServer.ClientSends := Or.inl rfl

/-- A round in which only the client has something to read. -/
theorem clientSends_readClient {buffer : Bytes} (h : isCompleteRequest buffer = true) :
    (readClient buffer).ClientSends := Or.inr (exists_isRequest h)

/-- A request that is not counted. -/
theorem isCompleteRequest_root : isCompleteRequest (ascii "GET / HTTP/1.1\r\n\r\n") = true := by
  decide +kernel

/-- A request that is. -/
theorem isCompleteRequest_lambda :
    isCompleteRequest (ascii "GET /lambda HTTP/1.1\r\n\r\n") = true := by
  decide +kernel

/-- A lambda request that is refused as the limit is reached, and then a request
that is passed on and written. -/
theorem separated_of_clear_full :
    ∃ ps s, Run (fun s p s' => HTTPProxy.Step s p s' ∧ s.Clear p)
        (.start atLimit) ps s ∧
      s.Separated ∧ s.blocked = [ascii "GET /lambda HTTP/1.1\r\n\r\n"] ∧
      s.toServer = [ascii "GET / HTTP/1.1\r\n\r\n"] := by
  have hrun : Run (fun s p s' => HTTPProxy.Step s p s' ∧ s.Clear p)
      (.start atLimit)
      [readClient (ascii "GET /lambda HTTP/1.1\r\n\r\n"), readClient (ascii "GET / HTTP/1.1\r\n\r\n"),
        writeServer] _ :=
    .cons ⟨⟨clientSends_readClient isCompleteRequest_lambda, rfl⟩, fun _ _ _ => by decide +kernel⟩
      (.cons ⟨⟨clientSends_readClient isCompleteRequest_root, rfl⟩, fun _ _ _ => by decide +kernel⟩
        (.cons ⟨⟨clientSends_writeServer, rfl⟩, fun hreads => by
          exact absurd hreads (by unfold HTTPProxy.readsClient; decide +kernel)⟩ (.nil _)))
  exact ⟨_, _, hrun, separated_of_clear hrun, by decide +kernel, by decide +kernel⟩

/-- **A blocked request that is written:** three lambda requests are read before the
server can be written to.  The third is refused, and the first gets its canned
response; the third stays in the queue. -/
theorem blocked_is_written :
    ∃ ps s, Run HTTPProxy.Step (.start {}) ps s ∧
      (ascii "GET /lambda/3 HTTP/1.1\r\n\r\n", BLOCKED) ∈ s.verdicts ∧
      ascii "GET /lambda/3 HTTP/1.1\r\n\r\n" ∈ s.toServer ∧ ¬ s.Separated := by
  have hsends : ∀ p ∈ [readClient (ascii "GET /lambda/1 HTTP/1.1\r\n\r\n"),
      readClient (ascii "GET /lambda/2 HTTP/1.1\r\n\r\n"),
      readClient (ascii "GET /lambda/3 HTTP/1.1\r\n\r\n"), writeServer, writeServer],
      p.ClientSends := by
    simp only [List.forall_mem_cons, List.not_mem_nil, IsEmpty.forall_iff, implies_true, and_true]
    exact ⟨clientSends_readClient (by decide +kernel), clientSends_readClient (by decide +kernel),
      clientSends_readClient (by decide +kernel), clientSends_writeServer, clientSends_writeServer⟩
  refine ⟨_, _, HTTPProxy.run_foldl hsends _, by decide +kernel, by decide +kernel,
    fun h => ?_⟩
  exact absurd h.requests (by decide +kernel)

end V2Proxy
