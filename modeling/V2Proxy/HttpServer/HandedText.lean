/-
# The text that the request parser was given

`request_parser` is given the texts that the filter passed on and, whole, the
buffers that were blocked; all of them together are `handed`.  Requests leave its
queue at two places, to be written to the server or for a canned response, and at
both they are announced to the response parser.  So in every run the requests
announced and those still in the queue are the requests of the text handed, in
order (`HTTPProxy.Handed`).  A text that begins with more complete requests than
have been announced leaves requests in the queue
(`HTTPProxy.Handed.le_length_of_begins`).
-/

import V2Proxy.Http.RewrittenFraming
import V2Proxy.HttpServer.HTTPProxy

namespace V2Proxy

open Foundations HTTPMessageSequence

/-- EOF leaves a settled request parser as it is, where it is no error. -/
theorem HTTPRequestParser.parse_eof {s s' : HTTPRequestParser} (h : s.Settled)
    (hs : s.parse [] = .ok s') : s' = s := by
  obtain ⟨m, hm, hs⟩ := bind_eq_ok.1 hs
  rw [HTTPMessage.eof] at hm
  cases hst : s.messageInProgress.state with
  | firstLinePending =>
      rw [hst] at hm
      cases hm
      have hrank : s.messageInProgress.state.rank ≤ 1 := by
        rw [hst]
        decide
      have hround : s.parseRound = .ok (.inr s) := by
        rw [parseRound, parsingStep_noLine hrank (h.line hrank)]
        rfl
      have hfeed : s.feed [] = .ok s := by
        rw [feed, List.append_nil]
        exact Loop.run_of_leave hround
      rw [hfeed] at hs
      exact (Except.ok.inj hs).symm
  | headersPending =>
      rw [hst] at hm
      cases hm
  | bodyPending =>
      rw [hst] at hm
      cases hm
  | complete => exact absurd hst h.not_complete

/-- The text begins with at least `n` complete requests. -/
def BeginsWithRequests (w : Bytes) (n : ℕ) : Prop :=
  ∃ ws ms, List.Forall₂ CompleteRequest ws ms ∧ ws.flatten <+: w ∧ n ≤ ws.length

/-- A parser that has read such a text has completed as many requests. -/
theorem BeginsWithRequests.le_length {w : Bytes} {n : ℕ} {p : HTTPRequestParser}
    (h : BeginsWithRequests w n) (hp : HTTPRequestParser.new.feedBytes w = .ok p) :
    n ≤ p.completeMessages.length := by
  obtain ⟨ws, ms, hw, ⟨rest, rfl⟩, hn⟩ := h
  have hstream : HTTPRequestParser.new.feedBytes ws.flatten = .ok (HTTPRequestParser.queued ms) :=
    feedBytes_stream hw []
  rw [feedBytes_append, hstream, ok_bind, HTTPRequestParser.queued, feedBytes_carry] at hp
  obtain ⟨q, -, hcarry⟩ := bind_eq_ok.1 hp
  obtain rfl := Except.ok.inj hcarry
  rw [completeMessages_carry, List.length_append, ← hw.length_eq]
  omega

namespace HTTPProxy

/-- The text given to `request_parser`: what was passed on, and the buffers that
were blocked. -/
def handed (s : HTTPProxy) : Bytes :=
  s.verdicts.flatMap fun v => if v.2 = BLOCKED then v.1 else v.2

/-- The requests announced and those in the queue are the requests of the text
handed to the parser. -/
structure Handed (s : HTTPProxy) : Prop where
  settled : s.requestParser.Settled
  stream : HTTPRequestParser.new.feedBytes s.handed =
    .ok (s.requestParser.carry (s.announced.map Prod.fst))

variable {s s' : HTTPProxy} {p : Polled} {buffer text : Bytes}

/-- One more text is handed to the parser. -/
theorem handed_append (s : HTTPProxy) (buffer text : Bytes) :
    (s.verdicts ++ [(buffer, text)]).flatMap (fun v => if v.2 = BLOCKED then v.1 else v.2) =
      s.handed ++ if text = BLOCKED then buffer else text := by
  rw [List.flatMap_append, List.flatMap_singleton]
  rfl

/-- Nothing has been handed to the parser at the start. -/
theorem handed_start (list : CloudResourceList) : (start list).Handed :=
  ⟨HTTPRequestParser.settled_new, rfl⟩

/-- **What the parser makes of the next text:** the requests of the longer text. -/
theorem Handed.parse (h : s.Handed) {piece : Bytes} (hlen : piece.length ≤ bufferSize)
    {q : HTTPRequestParser} (hq : s.requestParser.parse piece = .ok q) :
    q.Settled ∧ HTTPRequestParser.new.feedBytes (s.handed ++ piece) =
      .ok (q.carry (s.announced.map Prod.fst)) := by
  by_cases hnil : piece = []
  · subst hnil
    rw [HTTPRequestParser.parse_eof h.settled hq, List.append_nil]
    exact ⟨h.settled, h.stream⟩
  · rw [parse_of_ne_nil _ hnil] at hq
    refine ⟨h.settled.feed_settled hq, ?_⟩
    rw [h.settled.feed_eq_feedBytes hnil hlen] at hq
    rw [feedBytes_append, h.stream, ok_bind, feedBytes_carry, hq]
    rfl

/-- **A text that begins with more complete requests than were announced** leaves
the others in the queue. -/
theorem Handed.le_length_of_begins (h : s.Handed) (hlen : buffer.length ≤ bufferSize) {n : ℕ}
    (hbegins : BeginsWithRequests (s.handed ++ buffer) (s.announced.length + n))
    {q : HTTPRequestParser} (hq : s.requestParser.parse buffer = .ok q) :
    n ≤ q.completeMessages.length := by
  have hle := hbegins.le_length (h.parse hlen hq).2
  rw [completeMessages_carry, List.length_append, List.length_map] at hle
  omega

/-- The server's input does not touch the requests. -/
theorem Handed.serverIn (h : s.Handed) (hs : serverIn buffer s = .ok s') : s'.Handed := by
  obtain ⟨list, responseParser, -, -, rfl⟩ := serverIn_eq_ok hs
  exact ⟨h.settled, h.stream⟩

/-- The client's output does not touch the requests. -/
theorem Handed.clientOut (h : s.Handed) (hs : clientOut s = .ok s') : s'.Handed := by
  obtain ⟨response, responseParser, -, rfl⟩ := clientOut_eq_ok hs
  exact ⟨h.settled, h.stream⟩

/-- The request written is announced. -/
theorem Handed.serverOut (h : s.Handed) (hs : serverOut s = .ok s') : s'.Handed := by
  obtain ⟨request, requestParser, hfront, rfl⟩ := serverOut_eq_ok hs
  obtain ⟨hsettled, hstream⟩ := h
  rw [hfront] at hsettled hstream
  refine ⟨⟨hsettled.derived, hsettled.not_complete, hsettled.line, hsettled.body⟩, ?_⟩
  change HTTPRequestParser.new.feedBytes s.handed = _
  rw [hstream, carry_carry, List.map_append]
  rfl

/-- A text that is passed on is handed to the parser. -/
theorem Handed.pass {list : CloudResourceList} (h : s.Handed) (htext : text ≠ BLOCKED)
    (hlen : text.length ≤ bufferSize) (hs : s.pass buffer text list = .ok s') : s'.Handed := by
  obtain ⟨requestParser, hparse, rfl⟩ := pass_eq_ok hs
  obtain ⟨hsettled, hstream⟩ := h.parse hlen hparse
  refine ⟨hsettled, ?_⟩
  rw [handed]
  dsimp only
  rw [handed_append, if_neg htext]
  exact hstream

/-- A buffer that is blocked is handed to the parser, and the request taken off for
it is announced. -/
theorem Handed.spoof {list : CloudResourceList} (h : s.Handed) (hlen : buffer.length ≤ bufferSize)
    (hs : s.spoof buffer BLOCKED list = .ok s') : s'.Handed := by
  obtain ⟨request, requestParser, canned, responseParser, hparse, -, -, rfl⟩ := spoof_eq_ok hs
  obtain ⟨hsettled, hstream⟩ := h.parse hlen hparse
  refine ⟨⟨hsettled.derived, hsettled.not_complete, hsettled.line, hsettled.body⟩, ?_⟩
  rw [handed]
  dsimp only
  rw [handed_append, if_pos rfl, hstream, carry_carry, List.map_append]
  rfl

/-- What the client-in action hands to the parser is no longer than the buffer. -/
theorem Handed.clientIn (h : s.Handed) (hlen : buffer.length ≤ bufferSize)
    (hs : clientIn buffer s = .ok s') : s'.Handed := by
  obtain ⟨text, list, hfilter, ⟨htext, hs⟩ | ⟨rfl, hs⟩⟩ := clientIn_eq_ok hs
  · exact h.pass htext ((delivered_length hfilter htext).trans hlen) hs
  · exact h.spoof hlen hs

/-- **A round keeps the account of the requests.** -/
theorem Handed.poll (h : s.Handed) (hlen : p.clientBuffer.length ≤ bufferSize) :
    (s.poll p).Handed :=
  poll_invariant (fun _ _ _ h => ⟨h.settled, h.stream⟩) (fun _ _ hs h => h.serverIn hs)
    (fun _ _ hs h => h.clientIn hlen hs) (fun _ _ hs h => h.serverOut hs)
    (fun _ _ hs h => h.clientOut hs) h

end HTTPProxy

end V2Proxy
