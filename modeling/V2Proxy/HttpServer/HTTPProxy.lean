/-
# `HTTPProxy::loop`

`src/httpserver/http_proxy.cc` and `src/util/poller.cc`: the thread of one
connection.  Four actions share a request parser and a response parser; in each
round of `Poller::poll` the interest in all of them is evaluated first, and then
the callbacks of those that are ready run in the order in which the actions were
added.

`Polled` is what the operating system does in a round: what `poll` reports, and
what `read` returns where it is called.  A callback that throws ends the thread; the
resource list keeps what was done to it before.  Opening the connection and TLS
are left out, and a write is taken to write everything, to a socket or a file.

The fields from `verdicts` on record what happened.
-/

import V2Proxy.Http.ResponsePairing
import V2Proxy.Http.V2FilterClient
import V2Proxy.Http.V2FilterServer
import V2Proxy.HttpServer.CannedResponse
import V2Proxy.Util.Poller

namespace V2Proxy

open Foundations HTTPMessageSequence

/-- What has become of the thread of a connection. -/
inductive ThreadStatus where
  | running
  | exited
  | died (fault : Fault)
deriving DecidableEq

/-- The thread of a connection: its two parsers, the list, and a record of what it has
read and written. -/
structure HTTPProxy where
  requestParser : HTTPRequestParser := .new
  responseParser : HTTPResponseParser := .new
  list : CloudResourceList := {}
  serverEof : Bool := false
  clientEof : Bool := false
  /-- what each `server.write` wrote -/
  toServer : List Bytes := []
  /-- what each `client.write` wrote -/
  toClient : List Bytes := []
  /-- the responses, with their requests, that `backing_store.save` has saved -/
  saved : List HTTPResponse := []
  status : ThreadStatus := .running
  /-- each buffer read from the client, and what `v2filter_client` made of it -/
  verdicts : List (Bytes × Bytes) := []
  /-- the requests that `server.write` wrote -/
  written : List HTTPRequest := []
  /-- the bytes read from the server -/
  received : Bytes := []
  /-- what each `response_parser.parse` was given -/
  parsed : List Bytes := []
  /-- the requests given to `new_request_arrived`, and whether a canned response
  followed -/
  announced : List (HTTPRequest × Bool) := []
  /-- the requests whose responses were completed when a canned response was
  parsed -/
  spoofed : List HTTPRequest := []
deriving DecidableEq

/-- What the operating system does in a round.  An empty buffer is EOF. -/
structure Polled where
  serverIn : Revents := {}
  clientIn : Revents := {}
  serverOut : Revents := {}
  clientOut : Revents := {}
  serverBuffer : Bytes := []
  clientBuffer : Bytes := []

namespace HTTPProxy

/-- Responses from the server go to the response parser. -/
def serverIn (buffer : Bytes) (s : HTTPProxy) : Except Thrown HTTPProxy := do
  let list ← v2filterServer buffer s.list
  let responseParser ← throwing list (s.responseParser.parse buffer)
  return { s with
    list := list
    responseParser := responseParser
    serverEof := s.serverEof || buffer = []
    received := s.received ++ buffer
    parsed := s.parsed ++ [buffer] }

/-- The client's message is delivered: to the request parser. -/
def pass (buffer clientMessage : Bytes) (list : CloudResourceList) (s : HTTPProxy) :
    Except Fault HTTPProxy := do
  let requestParser ← s.requestParser.parse clientMessage
  return { s with
    list := list
    requestParser := requestParser
    clientEof := s.clientEof || buffer = []
    verdicts := s.verdicts ++ [(buffer, clientMessage)] }

/-- A server response is spoofed. -/
def spoof (buffer clientMessage : Bytes) (list : CloudResourceList) (s : HTTPProxy) :
    Except Fault HTTPProxy := do
  let requestParser ← s.requestParser.parse buffer
  let request ← requestParser.front
  let requestParser ← requestParser.pop
  let canned ← getCannedResponse 405 request
  let responseParser ← (s.responseParser.newRequestArrived request).parse canned
  return { s with
    list := list
    requestParser := requestParser
    responseParser := responseParser
    clientEof := s.clientEof || buffer = []
    verdicts := s.verdicts ++ [(buffer, clientMessage)]
    announced := s.announced ++ [(request, true)]
    parsed := s.parsed ++ [canned]
    spoofed := s.spoofed ++ (responseParser.completeMessages.drop
      s.responseParser.completeMessages.length).map HTTPResponse.request }

/-- Requests from the client go to the request parser, unless the filter blocks
them. -/
def clientIn (buffer : Bytes) (s : HTTPProxy) : Except Thrown HTTPProxy := do
  let (clientMessage, list) ← throwing s.list (v2filterClient buffer s.list)
  if clientMessage ≠ BLOCKED then throwing list (s.pass buffer clientMessage list)
  else throwing list (s.spoof buffer clientMessage list)

/-- Completed requests from the client are serialized and sent to the server. -/
def serverOut (s : HTTPProxy) : Except Fault HTTPProxy := do
  let request ← s.requestParser.front
  let bytes ← request.str
  let requestParser ← s.requestParser.pop
  return { s with
    requestParser := requestParser
    responseParser := s.responseParser.newRequestArrived request
    toServer := s.toServer ++ [bytes]
    written := s.written ++ [request]
    announced := s.announced ++ [(request, false)] }

/-- Completed responses from the server are serialized and sent to the client. -/
def clientOut (s : HTTPProxy) : Except Fault HTTPProxy := do
  let response ← s.responseParser.front
  let bytes ← response.str
  let responseParser ← s.responseParser.pop
  return { s with
    responseParser := responseParser
    toClient := s.toClient ++ [bytes]
    saved := s.saved ++ [response] }

/-- What the thread polls for. -/
structure Interest where
  serverIn : Bool
  clientIn : Bool
  serverOut : Bool
  clientOut : Bool

/-- `when_interested` of the four actions; there is no polling in on descriptors
that have had EOF. -/
def interest (s : HTTPProxy) : Interest where
  serverIn := !s.clientEof && !s.serverEof
  clientIn := !s.serverEof && !s.clientEof
  serverOut := !s.requestParser.empty
  clientOut := !s.responseParser.empty

/-- No member of `pollfds_` has a direction. -/
def Interest.none (i : Interest) : Bool := !(i.serverIn || i.clientIn || i.serverOut || i.clientOut)

/-- Is the callback of this entry called? -/
def calls (s : HTTPProxy) (r : Revents) (interested : Bool) : Bool :=
  s.status = .running && !r.hangUp && (r.ready && interested)

/-- The loop body of `Poller::poll` for one entry. -/
def act (s : HTTPProxy) (r : Revents) (interested : Bool)
    (callback : HTTPProxy → Except Thrown HTTPProxy) : HTTPProxy :=
  if s.calls r interested then
    match callback s with
    | .ok s' => s'
    | .error t => { s with list := t.list, status := .died t.fault }
  else if s.status = .running ∧ r.hangUp = true then { s with status := .exited }
  else s

/-- A round after its first entry. -/
def afterServerIn (s : HTTPProxy) (p : Polled) : HTTPProxy :=
  s.act p.serverIn s.interest.serverIn (serverIn p.serverBuffer)

/-- A round after its first two entries. -/
def afterClientIn (s : HTTPProxy) (p : Polled) : HTTPProxy :=
  (s.afterServerIn p).act p.clientIn s.interest.clientIn (clientIn p.clientBuffer)

/-- A round after its first three entries. -/
def afterServerOut (s : HTTPProxy) (p : Polled) : HTTPProxy :=
  (s.afterClientIn p).act p.serverOut s.interest.serverOut fun s => throwing s.list s.serverOut

/-- `Poller::poll`, for a thread that is still running. -/
def poll (s : HTTPProxy) (p : Polled) : HTTPProxy :=
  if s.status ≠ .running then s
  else if s.interest.none then { s with status := .exited }
  else (s.afterServerOut p).act p.clientOut s.interest.clientOut fun s => throwing s.list s.clientOut

/-- The thread of a connection whose resource list is `list` when it starts. -/
def start (list : CloudResourceList) : HTTPProxy := { list := list }

/-- The callback of the client's input is called. -/
def readsClient (s : HTTPProxy) (p : Polled) : Prop :=
  (s.afterServerIn p).calls p.clientIn s.interest.clientIn = true

variable {I : HTTPProxy → Prop} {s s' : HTTPProxy} {p : Polled}

/-- What the server's input leaves. -/
theorem serverIn_eq_ok {buffer : Bytes} (h : serverIn buffer s = .ok s') :
    ∃ list responseParser, v2filterServer buffer s.list = .ok list ∧
      s.responseParser.parse buffer = .ok responseParser ∧ s' = { s with
        list := list
        responseParser := responseParser
        serverEof := s.serverEof || buffer = []
        received := s.received ++ buffer
        parsed := s.parsed ++ [buffer] } := by
  obtain ⟨list, hlist, h⟩ := bind_eq_ok.1 h
  obtain ⟨responseParser, hparse, h⟩ := bind_eq_ok.1 h
  cases h
  exact ⟨list, responseParser, hlist, throwing_eq_ok.1 hparse, rfl⟩

/-- What a text leaves that is passed on. -/
theorem pass_eq_ok {buffer text : Bytes} {list : CloudResourceList}
    (h : s.pass buffer text list = .ok s') :
    ∃ requestParser, s.requestParser.parse text = .ok requestParser ∧
      s' = { s with
        list := list
        requestParser := requestParser
        clientEof := s.clientEof || buffer = []
        verdicts := s.verdicts ++ [(buffer, text)] } := by
  obtain ⟨requestParser, hparse, h⟩ := bind_eq_ok.1 h
  cases h
  exact ⟨requestParser, hparse, rfl⟩

/-- What a blocked buffer leaves. -/
theorem spoof_eq_ok {buffer text : Bytes} {list : CloudResourceList}
    (h : s.spoof buffer text list = .ok s') :
    ∃ request requestParser canned responseParser,
      s.requestParser.parse buffer = .ok (requestParser.carry [request]) ∧
      getCannedResponse 405 request = .ok canned ∧
      (s.responseParser.newRequestArrived request).parse canned = .ok responseParser ∧ s' = { s with
        list := list
        requestParser := requestParser
        responseParser := responseParser
        clientEof := s.clientEof || buffer = []
        verdicts := s.verdicts ++ [(buffer, text)]
        announced := s.announced ++ [(request, true)]
        parsed := s.parsed ++ [canned]
        spoofed := s.spoofed ++ (responseParser.completeMessages.drop
          s.responseParser.completeMessages.length).map HTTPResponse.request } := by
  obtain ⟨parsed, hparse, h⟩ := bind_eq_ok.1 h
  obtain ⟨request, hfront, h⟩ := bind_eq_ok.1 h
  obtain ⟨requestParser, hpop, h⟩ := bind_eq_ok.1 h
  obtain ⟨canned, hcanned, h⟩ := bind_eq_ok.1 h
  obtain ⟨responseParser, hresponse, h⟩ := bind_eq_ok.1 h
  cases h
  rw [front_pop_eq_ok hfront hpop] at hparse
  exact ⟨request, requestParser, canned, responseParser, hparse, hcanned, hresponse, rfl⟩

/-- A buffer from the client is passed on or blocked. -/
theorem clientIn_eq_ok {buffer : Bytes} (h : clientIn buffer s = .ok s') :
    ∃ text list, v2filterClient buffer s.list = .ok (text, list) ∧
      (text ≠ BLOCKED ∧ s.pass buffer text list = .ok s' ∨
        text = BLOCKED ∧ s.spoof buffer text list = .ok s') := by
  obtain ⟨⟨text, list⟩, hfilter, h⟩ := bind_eq_ok.1 h
  refine ⟨text, list, throwing_eq_ok.1 hfilter, ?_⟩
  by_cases htext : text = BLOCKED
  · exact Or.inr ⟨htext, throwing_eq_ok.1 ((if_neg (fun hne => hne htext)).symm.trans h)⟩
  · exact Or.inl ⟨htext, throwing_eq_ok.1 ((if_pos htext).symm.trans h)⟩

/-- What writing a request leaves. -/
theorem serverOut_eq_ok (h : serverOut s = .ok s') :
    ∃ request requestParser, s.requestParser = requestParser.carry [request] ∧
      s' = { s with
        requestParser := requestParser
        responseParser := s.responseParser.newRequestArrived request
        toServer := s.toServer ++ [request.serialize]
        written := s.written ++ [request]
        announced := s.announced ++ [(request, false)] } := by
  obtain ⟨request, hfront, h⟩ := bind_eq_ok.1 h
  obtain ⟨bytes, hbytes, h⟩ := bind_eq_ok.1 h
  obtain ⟨requestParser, hpop, h⟩ := bind_eq_ok.1 h
  obtain rfl := HTTPMessage.str_eq_ok hbytes
  cases h
  exact ⟨request, requestParser, front_pop_eq_ok hfront hpop, rfl⟩

/-- What writing a response leaves. -/
theorem clientOut_eq_ok (h : clientOut s = .ok s') :
    ∃ response responseParser, s.responseParser = responseParser.carry [response] ∧
      s' = { s with
        responseParser := responseParser
        toClient := s.toClient ++ [response.serialize]
        saved := s.saved ++ [response] } := by
  obtain ⟨response, hfront, h⟩ := bind_eq_ok.1 h
  obtain ⟨bytes, hbytes, h⟩ := bind_eq_ok.1 h
  obtain ⟨responseParser, hpop, h⟩ := bind_eq_ok.1 h
  obtain rfl := HTTPMessage.str_eq_ok hbytes
  cases h
  exact ⟨response, responseParser, front_pop_eq_ok hfront hpop, rfl⟩

/-- A callback that returns leaves the thread running: the server's input. -/
theorem status_serverIn {buffer : Bytes} (h : serverIn buffer s = .ok s') : s'.status = s.status := by
  obtain ⟨list, responseParser, -, -, rfl⟩ := serverIn_eq_ok h
  rfl

/-- A client message that goes on. -/
theorem status_pass {buffer text : Bytes} {list : CloudResourceList}
    (h : s.pass buffer text list = .ok s') : s'.status = s.status := by
  obtain ⟨requestParser, -, rfl⟩ := pass_eq_ok h
  rfl

/-- The client's input. -/
theorem status_clientIn {buffer : Bytes} (h : clientIn buffer s = .ok s') : s'.status = s.status := by
  obtain ⟨text, list, -, ⟨-, h⟩ | ⟨-, h⟩⟩ := clientIn_eq_ok h
  · exact status_pass h
  · obtain ⟨request, requestParser, canned, responseParser, -, -, -, rfl⟩ := spoof_eq_ok h
    rfl

/-- The server's output. -/
theorem status_serverOut (h : serverOut s = .ok s') : s'.status = s.status := by
  obtain ⟨request, requestParser, -, rfl⟩ := serverOut_eq_ok h
  rfl

/-- The client's output. -/
theorem status_clientOut (h : clientOut s = .ok s') : s'.status = s.status := by
  obtain ⟨response, responseParser, -, rfl⟩ := clientOut_eq_ok h
  rfl

/-- What a callback keeps, its entry keeps. -/
theorem act_invariant {r : Revents} {i : Bool}
    {callback : HTTPProxy → Except Thrown HTTPProxy}
    (hstatus : ∀ (s : HTTPProxy) (list : CloudResourceList) (status : ThreadStatus),
      I s → I { s with list := list, status := status })
    (hcallback : ∀ s', s.calls r i = true → callback s = .ok s' → I s') (h : I s) :
    I (s.act r i callback) := by
  unfold act
  by_cases hcalls : s.calls r i = true
  · rw [if_pos hcalls]
    rcases hcb : callback s with t | s'
    · exact hstatus s _ _ h
    · exact hcallback s' hcalls hcb
  · rw [if_neg hcalls]
    split_ifs
    · exact hstatus s s.list _ h
    · exact h

/-- An entry after which the thread still runs has called its callback, or done
nothing. -/
theorem act_running {r : Revents} {i : Bool} {callback : HTTPProxy → Except Thrown HTTPProxy}
    (hrunning : (s.act r i callback).status = .running)
    (hcallback : ∀ s', s.calls r i = true → callback s = .ok s' → I s') (h : I s) :
    I (s.act r i callback) := by
  unfold act at hrunning ⊢
  by_cases hcalls : s.calls r i = true
  · rw [if_pos hcalls] at hrunning ⊢
    rcases hcb : callback s with t | s'
    · rw [hcb] at hrunning
      cases hrunning
    · exact hcallback s' hcalls hcb
  · rw [if_neg hcalls] at hrunning ⊢
    split_ifs at hrunning ⊢
    exact h

/-- **The invariant rule of a round,** with one premise for each callback. -/
theorem poll_invariant
    (hstatus : ∀ (s : HTTPProxy) (list : CloudResourceList) (status : ThreadStatus),
      I s → I { s with list := list, status := status })
    (hserverIn : ∀ s', s.calls p.serverIn s.interest.serverIn = true →
      serverIn p.serverBuffer s = .ok s' → I s → I s')
    (hclientIn : ∀ s', s.readsClient p → clientIn p.clientBuffer (s.afterServerIn p) = .ok s' →
      I (s.afterServerIn p) → I s')
    (hserverOut : ∀ s s', serverOut s = .ok s' → I s → I s')
    (hclientOut : ∀ s s', clientOut s = .ok s' → I s → I s') (h : I s) : I (s.poll p) := by
  unfold poll
  split_ifs
  · exact h
  · exact hstatus s s.list _ h
  · have h₁ : I (s.afterServerIn p) :=
      act_invariant hstatus (fun s' hcalls hs' => hserverIn s' hcalls hs' h) h
    have h₂ : I (s.afterClientIn p) :=
      act_invariant hstatus (fun s' hcalls hs' => hclientIn s' hcalls hs' h₁) h₁
    have h₃ : I (s.afterServerOut p) :=
      act_invariant hstatus (fun s' _ hs' => hserverOut _ s' (throwing_eq_ok.1 hs') h₂) h₂
    exact act_invariant hstatus (fun s' _ hs' => hclientOut _ s' (throwing_eq_ok.1 hs') h₃) h₃

end HTTPProxy

end V2Proxy
