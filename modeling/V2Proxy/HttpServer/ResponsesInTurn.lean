/-
# Responses come back in turn

The canned response to a blocked request goes through the response parser to which the
server's responses go, and through the same queue of requests.  If every request that is
blocked finds nothing queued and nothing in flight (`Clear`), and what is passed on is
one request per buffer (`PassesRequests`), then the responses are written to the client in
the order of its requests, and each is saved with its request (`inTurn_of_clear`).
Otherwise the canned response overtakes, and is saved with a request that was not blocked
(`canned_overtakes`).

The server answers the requests it gets in turn (`Serves`): its replies are cut into
buffers in any way, none is read before its request is written, and the last may end with
the connection.  It need not answer all requests.
-/

import V2Proxy.Http.ResponseStream
import V2Proxy.HttpServer.BlockedRequests

namespace V2Proxy

open Foundations HTTPMessageSequence HTTPResponseParser

/-- The bytes of a reply, and the message they are. -/
abbrev Reply := Bytes × HTTPResponse

/-- A request, and whether it was blocked. -/
abbrev Asked := HTTPRequest × Bool

/-- The responses to the requests: the canned one to a blocked request, and the server's
replies to the others, as far as it replies. -/
def answersTo : List Asked → List Reply → List HTTPResponse
  | [], _ => []
  | (request, true) :: asked, replies => cannedMessage request :: answersTo asked replies
  | (_, false) :: asked, reply :: replies => reply.2 :: answersTo asked replies
  | (_, false) :: _, [] => []

/-- The requests that were not blocked. -/
def passedOn (asked : List Asked) : List HTTPRequest :=
  (asked.filter fun request => !request.2).map Prod.fst

theorem passedOn_append (asked asked' : List Asked) :
    passedOn (asked ++ asked') = passedOn asked ++ passedOn asked' := by
  rw [passedOn, List.filter_append, List.map_append]
  rfl

/-- More requests get more responses. -/
theorem answersTo_append {asked : List Asked} {replies : List Reply}
    (h : (passedOn asked).length ≤ replies.length) (asked' : List Asked) :
    answersTo (asked ++ asked') replies =
      answersTo asked replies ++ answersTo asked' (replies.drop (passedOn asked).length) := by
  induction asked generalizing replies with
  | nil => rfl
  | cons request asked ih =>
      obtain ⟨request, blocked⟩ := request
      cases blocked with
      | true =>
          rw [List.cons_append, answersTo, ih h]
          rfl
      | false =>
          cases replies with
          | nil => exact absurd h (Nat.not_succ_le_zero _)
          | cons reply replies =>
              rw [List.cons_append, answersTo, ih (Nat.le_of_succ_le_succ h)]
              rfl

/-- A request too many gets none. -/
theorem answersTo_exhausted {asked : List Asked} {replies : List Reply}
    (h : replies.length ≤ (passedOn asked).length) (request : HTTPRequest) :
    answersTo (asked ++ [(request, false)]) replies = answersTo asked replies := by
  induction asked generalizing replies with
  | nil =>
      obtain rfl := List.eq_nil_of_length_eq_zero (Nat.le_zero.1 h)
      rfl
  | cons request asked ih =>
      obtain ⟨request, blocked⟩ := request
      cases blocked with
      | true => rw [List.cons_append, answersTo, ih h, answersTo]
      | false =>
          cases replies with
          | nil => rfl
          | cons reply replies =>
              rw [List.cons_append, answersTo, ih (Nat.le_of_succ_le_succ h), answersTo]

theorem answersTo_isPrefix (asked asked' : List Asked) (replies : List Reply) :
    answersTo asked replies <+: answersTo (asked ++ asked') replies := by
  induction asked generalizing replies with
  | nil => exact List.nil_prefix
  | cons request asked ih =>
      obtain ⟨request, blocked⟩ := request
      cases blocked with
      | true => exact List.cons_prefix_cons.2 ⟨rfl, ih replies⟩
      | false =>
          cases replies with
          | nil => exact List.nil_prefix
          | cons reply replies => exact List.cons_prefix_cons.2 ⟨rfl, ih replies⟩

/-- If every request is answered, there is a reply to each that was passed on. -/
theorem length_passedOn_le {asked : List Asked} {replies : List Reply}
    (h : (answersTo asked replies).length = asked.length) :
    (passedOn asked).length ≤ replies.length := by
  induction asked generalizing replies with
  | nil => exact Nat.zero_le _
  | cons request asked ih =>
      obtain ⟨request, blocked⟩ := request
      cases blocked with
      | true => exact ih (Nat.succ_injective h)
      | false =>
          cases replies with
          | nil => cases h
          | cons reply replies => exact Nat.succ_le_succ (ih (Nat.succ_injective h))

/-- The replies answer the requests, and all but the last are closed. -/
def Promised (replies : List Reply) (requests : List HTTPRequest) : Prop :=
  ∀ i request reply, requests[i]? = some request → replies[i]? = some reply →
    AnswersAtEof request reply.1 reply.2 ∧
      (i + 1 < replies.length → Answers request reply.1 reply.2)

/-- The bytes of the first replies. -/
def repliesTo (requests : List HTTPRequest) (replies : List Reply) : Bytes :=
  (replies.take requests.length).flatMap Prod.fst

namespace HTTPProxy

/-- The buffer is the next part of the replies to what was written, or EOF after all
replies. -/
def ReadsReplies (replies : List Reply) (s : HTTPProxy) (buffer : Bytes) : Prop :=
  if buffer = [] then
    s.received = repliesTo s.written replies ∧ replies.length ≤ s.written.length
  else buffer.length ≤ bufferSize ∧ s.received ++ buffer <+: repliesTo s.written replies

/-- The server answers in turn what is written to it in this round and before. -/
structure Serves (replies : List Reply) (s : HTTPProxy) (p : Polled) (s' : HTTPProxy) : Prop where
  promised : Promised replies s'.written
  reads : s.calls p.serverIn s.interest.serverIn = true → s.ReadsReplies replies p.serverBuffer

/-- What is passed on of a request is a request. -/
def PassesRequests (s : HTTPProxy) (p : Polled) : Prop :=
  s.readsClient p → p.clientBuffer ≠ [] → ∀ text list,
    v2filterClient p.clientBuffer (s.afterServerIn p).list = .ok (text, list) →
      text ≠ BLOCKED → ∃ request, IsRequest text request

/-- What was read from the client, EOF apart, and what was made of it. -/
def reads (s : HTTPProxy) : List (Bytes × Bytes) := s.verdicts.filter fun v => v.1 ≠ []

/-- The text that was read, as the filter passed it on, is the request. -/
def ReadAs (v : Bytes × Bytes) (asked : Asked) : Prop :=
  if v.2 = BLOCKED then IsRequest v.1 asked.1 ∧ asked.2 = true
  else IsRequest v.2 asked.1 ∧ asked.2 = false

/-- Whole responses are written to the client, the `j`-th one to the `j`-th request that
was read from it, and they are saved with their requests. -/
def InTurn (replies : List Reply) (s : HTTPProxy) : Prop :=
  s.toClient = s.saved.map HTTPMessage.serialize ∧
    ∃ asked, List.Forall₂ ReadAs s.reads asked ∧ s.saved <+: answersTo asked replies ∧
      s.saved.map HTTPResponse.request <+: asked.map Prod.fst

/-- The response parser as if nothing had been popped. -/
def unpopped (s : HTTPProxy) : HTTPResponseParser := s.responseParser.carry s.saved

/-- What is still to come from the server completes the responses to all announced
requests; if a request stays without, or the last response ends with the connection, there
are no more replies. -/
def Expects (replies : List Reply) (s : HTTPProxy) : Prop :=
  ∃ owed, s.received ++ owed = repliesTo s.written replies ∧
    (Owes s.unpopped owed (answersTo s.announced replies) ∨
      replies.length ≤ s.written.length ∧ Closes s.unpopped owed (answersTo s.announced replies))

/-- The invariant of the runs in which blocked requests find the parsers clear. -/
structure Ordered (replies : List Reply) (s : HTTPProxy) : Prop where
  toClient : s.toClient = s.saved.map HTTPMessage.serialize
  requests : ∃ queue, s.requestParser = .queued queue ∧
    List.Forall₂ ReadAs s.reads (s.announced ++ queue.map fun request => (request, false))
  written : s.written = passedOn s.announced
  arrived : HTTPResponseParser.requests s.unpopped = s.announced.map Prod.fst
  waiting : s.responseParser.Waiting
  expects : s.Expects replies

variable {replies : List Reply} {s s' : HTTPProxy} {p : Polled} {buffer : Bytes}

/-- Both ways of waiting for the server are. -/
theorem Expects.closes (h : s.Expects replies) :
    ∃ owed, s.received ++ owed = repliesTo s.written replies ∧
      Closes s.unpopped owed (answersTo s.announced replies) := by
  obtain ⟨owed, howed, h | ⟨-, h⟩⟩ := h
  · exact ⟨owed, howed, h.closes⟩
  · exact ⟨owed, howed, h⟩

/-- **The invariant gives the order.** -/
theorem Ordered.inTurn (h : s.Ordered replies) : s.InTurn replies := by
  obtain ⟨queue, -, hreads⟩ := h.requests
  obtain ⟨owed, -, hcloses⟩ := h.expects.closes
  refine ⟨h.toClient, _, hreads, ?_, ?_⟩
  · have hcomplete := hcloses.completeMessages
    exact (List.prefix_append _ _).trans (hcomplete.trans (answersTo_isPrefix _ _ _))
  · have harrived := h.arrived
    rw [HTTPResponseParser.requests, unpopped, completeMessages_carry, List.map_append,
      List.append_assoc] at harrived
    rw [List.map_append, ← harrived, List.append_assoc]
    exact List.prefix_append _ _

/-- If the first request is passed on, the first response is the server's. -/
theorem InTurn.first {reply : Reply} {v : Bytes × Bytes} {m : HTTPResponse}
    (h : s.InTurn (reply :: replies)) (hread : s.reads.head? = some v) (hv : v.2 ≠ BLOCKED)
    (hsaved : s.saved.head? = some m) : m = reply.2 := by
  obtain ⟨-, asked, hreads, hprefix, -⟩ := h
  obtain ⟨vs, hvs⟩ := List.head?_eq_some_iff.1 hread
  obtain ⟨ms, hms⟩ := List.head?_eq_some_iff.1 hsaved
  rw [hvs] at hreads
  cases hreads with
  | @cons _ request _ asked hrequest _ =>
      obtain ⟨request, blocked⟩ := request
      rw [ReadAs, if_neg hv] at hrequest
      obtain ⟨-, rfl⟩ := hrequest
      rw [hms, answersTo] at hprefix
      exact (List.cons_prefix_cons.1 hprefix).1

theorem ordered_start (list : CloudResourceList) : (start list).Ordered replies where
  toClient := rfl
  requests := ⟨[], rfl, .nil⟩
  written := rfl
  arrived := rfl
  waiting := waiting_new
  expects := ⟨[], rfl, Or.inl owes_new⟩

/-- A parse of the response parser, seen with what was popped. -/
theorem parse_unpopped {responseParser : HTTPResponseParser}
    (h : s.responseParser.parse buffer = .ok responseParser) :
    s.unpopped.parse buffer = .ok (responseParser.carry s.saved) := by
  rw [unpopped, parse_carry, h]
  rfl

/-- **The server's input is what was expected.** -/
theorem Ordered.serverIn (h : s.Ordered replies) (hreads : s.ReadsReplies replies buffer)
    (hs : serverIn buffer s = .ok s') : s'.Ordered replies := by
  obtain ⟨list, responseParser, -, hparse, rfl⟩ := serverIn_eq_ok hs
  have hunpopped := parse_unpopped hparse
  refine ⟨h.toClient, h.requests, h.written, ?_, h.waiting.parse hparse, ?_⟩
  · exact (parse_requests hunpopped).trans h.arrived
  obtain ⟨owed, howed, hexpects⟩ := h.expects
  unfold ReadsReplies at hreads
  split_ifs at hreads with hnil
  · -- EOF: nothing is owed
    subst hnil
    rw [hreads.1] at howed
    obtain rfl := List.append_right_eq_self.1 howed
    refine ⟨[], by simpa using hreads.1, ?_⟩
    rcases hexpects with howes | ⟨hle, hcloses⟩
    · have hdone := howes.done
      rw [hdone, carry_eof] at hunpopped
      refine Or.inl ?_
      change Owes (responseParser.carry s.saved) [] _
      rw [← Except.ok.inj hunpopped]
      exact owes_carry _
    · obtain ⟨requests, heof⟩ := hcloses.eof
      refine Or.inr ⟨hle, ?_⟩
      change Closes (responseParser.carry s.saved) [] _
      rw [Except.ok.inj (hunpopped.symm.trans heof)]
      exact closes_pending requests _
  · obtain ⟨hlen, rest, hrest⟩ := hreads
    obtain rfl : owed = buffer ++ rest := by
      rw [← howed, List.append_assoc] at hrest
      exact (List.append_cancel_left hrest).symm
    refine ⟨rest, hrest, ?_⟩
    rcases hexpects with howes | ⟨hle, hcloses⟩
    · obtain ⟨s₁, hs₁, howes⟩ := howes.read hnil hlen
      rw [hunpopped] at hs₁
      obtain rfl := Except.ok.inj hs₁
      exact Or.inl howes
    · obtain ⟨s₁, hs₁, hcloses⟩ := hcloses.read hnil hlen
      rw [hunpopped] at hs₁
      obtain rfl := Except.ok.inj hs₁
      exact Or.inr ⟨hle, hcloses⟩

/-- The response in front goes to the client, which changes nothing but where it is. -/
theorem Ordered.clientOut (h : s.Ordered replies) (hs : clientOut s = .ok s') :
    s'.Ordered replies := by
  obtain ⟨response, responseParser, hfront, rfl⟩ := clientOut_eq_ok hs
  have hunpopped : responseParser.carry (s.saved ++ [response]) = s.unpopped := by
    rw [unpopped, hfront, carry_carry]
  have hwaiting := h.waiting
  rw [hfront] at hwaiting
  refine ⟨?_, h.requests, h.written, ?_, waiting_carry.1 hwaiting, ?_⟩
  · change s.toClient ++ [response.serialize] = _
    rw [h.toClient, List.map_append]
    rfl
  · change HTTPResponseParser.requests (responseParser.carry (s.saved ++ [response])) = _
    rw [hunpopped, h.arrived]
  · change ∃ owed, _ ∧ (Owes (responseParser.carry (s.saved ++ [response])) owed _ ∨
      _ ∧ Closes (responseParser.carry (s.saved ++ [response])) owed _)
    rw [hunpopped]
    exact h.expects

/-- The reply to the next request is the next one. -/
theorem repliesTo_append (requests : List HTTPRequest) (request : HTTPRequest) {reply : Reply}
    (h : replies[requests.length]? = some reply) :
    repliesTo (requests ++ [request]) replies = repliesTo requests replies ++ reply.1 := by
  rw [repliesTo, List.length_append, List.length_singleton, List.take_add_one, h,
    List.flatMap_append, Option.toList_some, List.flatMap_singleton, repliesTo]

/-- A request behind the last reply: nobody will answer it. -/
theorem Expects.unanswered (h : s.Expects replies) (hwritten : s.written = passedOn s.announced)
    (request : HTTPRequest) (hle : replies.length ≤ s.written.length) :
    ∃ owed, s.received ++ owed = repliesTo (s.written ++ [request]) replies ∧
      Closes (s.unpopped.newRequestArrived request) owed
        (answersTo (s.announced ++ [(request, false)]) replies) := by
  obtain ⟨owed, howed, hcloses⟩ := h.closes
  have htake : repliesTo (s.written ++ [request]) replies = repliesTo s.written replies := by
    rw [repliesTo, repliesTo, List.take_of_length_le hle, List.take_of_length_le]
    rw [List.length_append]
    omega
  refine ⟨owed, howed.trans htake.symm, ?_⟩
  rw [answersTo_exhausted (hwritten ▸ hle) request]
  exact hcloses.newRequestArrived request

/-- A request to which there is a reply: this is the next one to come. -/
theorem Expects.answered (h : s.Expects replies) (hwritten : s.written = passedOn s.announced)
    {request : HTTPRequest} {reply : Reply} (hreply : replies[s.written.length]? = some reply)
    (hpromised : Promised replies (s.written ++ [request])) :
    ∃ owed, s.received ++ owed = repliesTo (s.written ++ [request]) replies ∧
      (Owes (s.unpopped.newRequestArrived request) owed
          (answersTo (s.announced ++ [(request, false)]) replies) ∨
        replies.length ≤ s.written.length + 1 ∧ Closes (s.unpopped.newRequestArrived request) owed
          (answersTo (s.announced ++ [(request, false)]) replies)) := by
  obtain ⟨owed, howed, hexpects⟩ := h
  obtain ⟨hlt, hget⟩ := List.getElem?_eq_some_iff.1 hreply
  have howes : Owes s.unpopped owed (answersTo s.announced replies) := by
    rcases hexpects with howes | ⟨hle, -⟩
    · exact howes
    · omega
  obtain ⟨hlast, hclosed⟩ := hpromised _ request reply List.getElem?_concat_length hreply
  have hanswers : answersTo (s.announced ++ [(request, false)]) replies =
      answersTo s.announced replies ++ [reply.2] := by
    rw [answersTo_append (by rw [← hwritten]; omega), ← hwritten, List.drop_eq_getElem_cons hlt,
      hget]
    rfl
  refine ⟨owed ++ reply.1, ?_, ?_⟩
  · rw [repliesTo_append s.written request hreply, ← howed, List.append_assoc]
  · rw [hanswers]
    by_cases hmore : s.written.length + 1 < replies.length
    · exact Or.inl (howes.announce (hclosed hmore))
    · exact Or.inr ⟨Nat.not_lt.1 hmore, howes.announceLast hlast⟩

/-- **A request that is written** is the next one that was read, and its reply is the next
one to come, if there is one. -/
theorem Ordered.serverOut (h : s.Ordered replies) (hpromised : Promised replies s'.written)
    (hs : serverOut s = .ok s') : s'.Ordered replies := by
  obtain ⟨request, requestParser, hfront, rfl⟩ := serverOut_eq_ok hs
  obtain ⟨queue, hqueue, hreads⟩ := h.requests
  have hannounced : passedOn (s.announced ++ [(request, false)]) = s.written ++ [request] := by
    rw [passedOn_append, h.written]
    rfl
  have hlength : (s.written ++ [request]).length = s.written.length + 1 := List.length_append
  refine ⟨h.toClient, ?_, hannounced.symm, ?_, h.waiting.newRequestArrived request, ?_⟩
  · -- the request in front of the queue
    rw [hqueue] at hfront
    have hmessages := congrArg HTTPMessageSequence.completeMessages hfront
    cases queue with
    | nil => cases hmessages
    | cons first queue =>
        obtain ⟨rfl, -⟩ := List.cons.inj hmessages
        refine ⟨queue, ?_, ?_⟩
        · obtain ⟨buffer, messages, message, members⟩ := requestParser
          cases hfront
          rfl
        · rw [List.map_cons, ← List.singleton_append, ← List.append_assoc] at hreads
          exact hreads
  · have harrived := newRequestArrived_requests s.unpopped request
    rw [h.arrived] at harrived
    rw [List.map_append]
    exact harrived
  · rcases hreply : replies[s.written.length]? with _ | reply
    · have hle := List.getElem?_eq_none_iff.1 hreply
      obtain ⟨owed, howed, hcloses⟩ := h.expects.unanswered h.written request hle
      exact ⟨owed, howed, Or.inr ⟨by rw [hlength]; omega, hcloses⟩⟩
    · obtain ⟨owed, howed, howes | ⟨hle, hcloses⟩⟩ :=
        h.expects.answered h.written hreply hpromised
      · exact ⟨owed, howed, Or.inl howes⟩
      · exact ⟨owed, howed, Or.inr ⟨hlength ▸ hle, hcloses⟩⟩

theorem reads_append (s : HTTPProxy) (buffer text : Bytes) :
    (s.verdicts ++ [(buffer, text)]).filter (fun v => v.1 ≠ []) =
      s.reads ++ if buffer = [] then [] else [(buffer, text)] := by
  rw [List.filter_append, reads]
  by_cases h : buffer = []
  · simp [h]
  · simp [h]

/-- EOF from the client asks for nothing. -/
theorem Ordered.pass_eof {list : CloudResourceList} (h : s.Ordered replies)
    (hs : s.pass [] [] list = .ok s') : s'.Ordered replies := by
  obtain ⟨requestParser, hparse, rfl⟩ := pass_eq_ok hs
  obtain ⟨queue, hqueue, hreads⟩ := h.requests
  refine ⟨h.toClient, ⟨queue, ?_, ?_⟩, h.written, h.arrived, h.waiting, h.expects⟩
  · rw [hqueue, HTTPRequestParser.queued_eof] at hparse
    exact (Except.ok.inj hparse).symm
  · have hreads' := reads_append s [] []
    rw [if_pos rfl, List.append_nil] at hreads'
    rw [reads]
    dsimp only
    rw [hreads']
    exact hreads

/-- A request that is passed on is asked for last. -/
theorem Ordered.pass {text : Bytes} {list : CloudResourceList} {request : HTTPRequest}
    (h : s.Ordered replies) (hne : buffer ≠ []) (htext : text ≠ BLOCKED)
    (hrequest : IsRequest text request) (hs : s.pass buffer text list = .ok s') :
    s'.Ordered replies := by
  obtain ⟨requestParser, hparse, rfl⟩ := pass_eq_ok hs
  obtain ⟨queue, hqueue, hreads⟩ := h.requests
  refine ⟨h.toClient, ⟨queue ++ [request], ?_, ?_⟩, h.written, h.arrived, h.waiting, h.expects⟩
  · rw [hqueue, hrequest.parse] at hparse
    exact (Except.ok.inj hparse).symm
  · have hreads' := reads_append s buffer text
    have hread : ReadAs (buffer, text) (request, false) := by
      rw [ReadAs, if_neg htext]
      exact ⟨hrequest, rfl⟩
    rw [if_neg hne] at hreads'
    rw [reads, List.map_append, ← List.append_assoc]
    dsimp only
    rw [hreads']
    exact List.rel_append hreads (.cons hread .nil)

/-- **Where nothing is in flight, all requests have been answered:** nothing is owed, and
the next response is the one behind all others. -/
theorem Ordered.idle (h : s.Ordered replies) (hin : s.responseParser.inFlight = []) :
    s.received = repliesTo s.written replies ∧
      s.unpopped = HTTPResponseParser.new.carry (answersTo s.announced replies) ∧
      ∀ asked, answersTo (s.announced ++ asked) replies = answersTo s.announced replies ++
        answersTo asked (replies.drop (passedOn s.announced).length) := by
  obtain ⟨owed, howed, hcloses⟩ := h.expects.closes
  obtain ⟨rfl, hidle⟩ := hcloses.idle (waiting_carry.2 h.waiting) hin
  refine ⟨by rw [← howed, List.append_nil], hidle, answersTo_append (length_passedOn_le ?_)⟩
  have harrived := congrArg List.length h.arrived
  rw [hidle, requests_carry, List.length_map, List.length_map] at harrived
  exact harrived

/-- The canned response is behind the responses to all earlier requests. -/
theorem Ordered.unpopped_canned {request : HTTPRequest} {responseParser : HTTPResponseParser}
    (h : s.Ordered replies) (hin : s.responseParser.inFlight = [])
    (hparse : (s.responseParser.newRequestArrived request).parse cannedText = .ok responseParser) :
    responseParser.carry s.saved = HTTPResponseParser.new.carry
      (answersTo (s.announced ++ [(request, true)]) replies) := by
  obtain ⟨-, hidle, hanswers⟩ := h.idle hin
  have hcomplete : s.saved ++ s.responseParser.completeMessages =
      answersTo s.announced replies := by
    have hmessages := congrArg HTTPMessageSequence.completeMessages hidle
    rw [unpopped, completeMessages_carry, completeMessages_carry] at hmessages
    exact hmessages.trans (List.append_nil _)
  have hempty : s.responseParser.buffer = [] := congrArg HTTPMessageSequence.buffer hidle
  have hcanned := newRequestArrived_parse_canned h.waiting hin hparse
  rw [hempty, List.nil_append] at hcanned
  rw [hcanned, carry_carry, ← List.append_assoc, hcomplete, hanswers]
  rfl

/-- **A blocked request that finds the parsers clear** is answered by the canned response,
behind the responses to all earlier requests. -/
theorem Ordered.spoof {list : CloudResourceList} {request : HTTPRequest} (h : s.Ordered replies)
    (hqueue : s.requestParser = .queued []) (hin : s.responseParser.inFlight = [])
    (hbuffer : IsRequest buffer request) (hs : s.spoof buffer BLOCKED list = .ok s') :
    s'.Ordered replies := by
  obtain ⟨responseParser, hparse, rfl⟩ := spoof_of_queued hqueue hbuffer hs
  obtain ⟨hreceived, hidle, hanswers⟩ := h.idle hin
  have hunpopped := h.unpopped_canned hin hparse
  refine ⟨h.toClient, ⟨[], hqueue, ?_⟩, ?_, ?_,
    (h.waiting.newRequestArrived request).parse hparse, ?_⟩
  · obtain ⟨queue, hqueue', hreads⟩ := h.requests
    have hmessages := congrArg HTTPMessageSequence.completeMessages (hqueue'.symm.trans hqueue)
    rw [HTTPRequestParser.completeMessages_queued, HTTPRequestParser.completeMessages_queued]
      at hmessages
    subst hmessages
    have hreads' := reads_append s buffer BLOCKED
    have hread : ReadAs (buffer, BLOCKED) (request, true) := by
      rw [ReadAs, if_pos rfl]
      exact ⟨hbuffer, rfl⟩
    rw [if_neg hbuffer.ne_nil] at hreads'
    rw [List.map_nil, List.append_nil] at hreads ⊢
    rw [reads]
    dsimp only
    rw [hreads']
    exact List.rel_append hreads (.cons hread .nil)
  · change s.written = passedOn (s.announced ++ [(request, true)])
    rw [passedOn_append, h.written]
    exact (List.append_nil _).symm
  · change HTTPResponseParser.requests (responseParser.carry s.saved) =
      (s.announced ++ [(request, true)]).map Prod.fst
    have harrived := h.arrived
    rw [hidle, requests_carry] at harrived
    rw [hunpopped, requests_carry, hanswers, List.map_append, List.map_append, harrived]
    rfl
  · refine ⟨[], (List.append_nil _).trans hreceived, Or.inl ?_⟩
    change Owes (responseParser.carry s.saved) [] _
    rw [hunpopped]
    exact owes_carry _

/-- **A round keeps the order,** if the server answers in turn. -/
theorem Ordered.poll (h : s.Ordered replies) (hp : p.ClientSends) (hclear : s.Clear p)
    (hpasses : s.PassesRequests p) (hserves : s.Serves replies p (s.poll p)) :
    (s.poll p).Ordered replies := by
  -- the promise is about all that has been written so far
  have hround : Promised replies (s.poll p).written → (s.poll p).Ordered replies := by
    refine poll_invariant (I := fun s => Promised replies s.written → s.Ordered replies)
      (fun s list status h hpromised => ?_) (fun s' hcalls hs h hpromised => ?_)
      (fun s' hreads hs h hpromised => ?_) (fun s s' hs h hpromised => ?_)
      (fun s s' hs h hpromised => ?_) fun _ => h
    · have h := h hpromised
      exact ⟨h.toClient, h.requests, h.written, h.arrived, h.waiting, h.expects⟩
    · obtain ⟨list, responseParser, -, -, rfl⟩ := serverIn_eq_ok hs
      exact (h hpromised).serverIn (hserves.reads hcalls) hs
    · obtain ⟨text, list, hfilter, ⟨htext, hs⟩ | ⟨rfl, hs⟩⟩ := clientIn_eq_ok hs
      · obtain ⟨requestParser, -, rfl⟩ := pass_eq_ok hs
        have h := h hpromised
        by_cases hnil : p.clientBuffer = []
        · rw [hnil, v2filterClient_nil] at hfilter
          obtain ⟨rfl, rfl⟩ := Prod.mk.inj (Except.ok.inj hfilter)
          rw [hnil] at hs ⊢
          exact h.pass_eof hs
        · obtain ⟨request, hrequest⟩ := hpasses hreads hnil text list hfilter htext
          exact h.pass hnil htext hrequest hs
      · obtain ⟨hqueue, hin⟩ := hclear hreads list hfilter
        rcases hp with hnil | ⟨request, hrequest⟩
        · rw [hnil, v2filterClient_nil] at hfilter
          cases hfilter
        · obtain ⟨responseParser, -, hs'⟩ := spoof_of_queued hqueue hrequest hs
          refine (h ?_).spoof hqueue hin hrequest hs
          rw [hs'] at hpromised
          exact hpromised
    · refine (h ?_).serverOut hpromised hs
      obtain ⟨request, requestParser, -, rfl⟩ := serverOut_eq_ok hs
      intro i request' reply hrequest hreply
      refine hpromised i request' reply ?_ hreply
      change (s.written ++ [request])[i]? = _
      rw [List.getElem?_append_left (List.getElem?_eq_some_iff.1 hrequest).1, hrequest]
    · obtain ⟨response, responseParser, -, rfl⟩ := clientOut_eq_ok hs
      exact (h hpromised).clientOut hs
  exact hround hserves.promised

end HTTPProxy

/-- **Responses come back in turn,** in every run in which each blocked request finds the
request queue empty and nothing in flight, and what is passed on of each request is a
request. -/
theorem inTurn_of_clear {list : CloudResourceList} {replies : List Reply} {ps : List Polled}
    {s : HTTPProxy}
    (h : Run (fun s p s' => HTTPProxy.Step s p s' ∧ s.Serves replies p s' ∧ s.Clear p ∧
      s.PassesRequests p) (.start list) ps s) : s.InTurn replies := by
  have hordered : s.Ordered replies := by
    refine h.invariant (I := HTTPProxy.Ordered replies) (fun s p s' hs hstep => ?_)
      (HTTPProxy.ordered_start list)
    obtain ⟨⟨hp, rfl⟩, hserves, hclear, hpasses⟩ := hstep
    exact hs.poll hp hclear hpasses hserves
  exact hordered.inTurn

/-- The request for the root, as the parser has it. -/
def rootRequest : HTTPRequest where
  expectedBodySize := (true, 0)
  firstLine := ascii "GET / HTTP/1.1"
  state := .complete
  derived := {}

/-- The server's reply to it. -/
def rootReply : Reply :=
  (ascii "HTTP/1.1 200 OK\r\nContent-Length: 2\r\n\r\nab", {
    expectedBodySize := (true, 2)
    firstLine := ascii "HTTP/1.1 200 OK"
    headers := [{ key := ascii "Content-Length", value := ascii "2" }]
    body := ascii "ab"
    state := .complete
    derived := { request := rootRequest } })

theorem promised_rootReply {requests : List HTTPRequest}
    (h : requests = [] ∨ requests = [rootRequest]) : Promised [rootReply] requests := by
  have hreply : Answers rootRequest rootReply.1 rootReply.2 := by
    unfold Answers
    decide +kernel
  rintro i request reply hrequest hreply'
  obtain ⟨hi, rfl⟩ := List.getElem?_eq_some_iff.1 hreply'
  obtain rfl : i = 0 := Nat.lt_one_iff.1 hi
  rcases h with rfl | rfl
  · cases hrequest
  · obtain rfl := Option.some.inj hrequest
    exact ⟨hreply.atEof, fun _ => hreply⟩

/-- A round in which nothing is read from the server, and what has been written is the
request for the root at most. -/
theorem serves_rootReply {s : HTTPProxy} {p : Polled} (hready : p.serverIn.ready = false)
    (hwritten : (s.poll p).written = [] ∨ (s.poll p).written = [rootRequest]) :
    s.Serves [rootReply] p (s.poll p) := by
  refine ⟨promised_rootReply hwritten, fun hcalls => ?_⟩
  rw [HTTPProxy.calls, hready, Bool.false_and, Bool.and_false] at hcalls
  cases hcalls

/-- A round in which the client can be written to. -/
def writeClient : Polled := { clientOut := { ready := true } }

/-- A round in which the server's reply is read. -/
def readServer : Polled := { serverIn := { ready := true }, serverBuffer := rootReply.1 }

/-- A round in which the client can be written to and has something to read. -/
def turnClient (buffer : Bytes) : Polled := { readClient buffer with clientOut := { ready := true } }

/-- The reply to a request, and the canned response to the next. -/
theorem inTurn_of_clear_root :
    ∃ ps s, Run (fun s p s' => HTTPProxy.Step s p s' ∧ s.Serves [rootReply] p s' ∧ s.Clear p ∧
        s.PassesRequests p) (.start atLimit) ps s ∧
      s.InTurn [rootReply] ∧ s.toClient = [rootReply.1, cannedText] := by
  have hroot : IsRequest (ascii "GET / HTTP/1.1\r\n\r\n") rootRequest := by
    unfold IsRequest
    decide +kernel
  have hquiet : ∀ {s : HTTPProxy} {p : Polled}, p.clientIn.ready = false → ¬ s.readsClient p := by
    intro s p hready hreads
    rw [HTTPProxy.readsClient, HTTPProxy.calls, hready, Bool.false_and, Bool.and_false] at hreads
    cases hreads
  have htext : ∀ {buffer text verdict : Bytes} {list list' : CloudResourceList},
      v2filterClient buffer list = .ok (text, list') →
        (v2filterClient buffer list).map Prod.fst = .ok verdict → text = verdict := by
    intro buffer text verdict list list' hfilter hverdict
    rw [hfilter] at hverdict
    exact Except.ok.inj hverdict
  have hrun : Run (fun s p s' => HTTPProxy.Step s p s' ∧ s.Serves [rootReply] p s' ∧ s.Clear p ∧
        s.PassesRequests p) (.start atLimit)
      [readClient (ascii "GET / HTTP/1.1\r\n\r\n"), writeServer, readServer,
        turnClient (ascii "GET /lambda HTTP/1.1\r\n\r\n"), writeClient] _ :=
    .cons ⟨⟨Or.inr ⟨_, hroot⟩, rfl⟩, serves_rootReply rfl (Or.inl (by decide +kernel)),
        fun _ _ _ => by decide +kernel, fun _ _ text list hfilter _ => by
          have hpassed : text = ascii "GET / HTTP/1.1\r\n\r\n" := htext hfilter (by decide +kernel)
          rw [hpassed]
          exact ⟨_, hroot⟩⟩
      (.cons ⟨⟨Or.inl rfl, rfl⟩, serves_rootReply rfl (Or.inr (by decide +kernel)),
          fun h => absurd h (hquiet rfl), fun h => absurd h (hquiet rfl)⟩
        (.cons ⟨⟨Or.inl rfl, rfl⟩, ⟨promised_rootReply (Or.inr (by decide +kernel)), fun _ => by
              unfold HTTPProxy.ReadsReplies
              decide +kernel⟩,
            fun h => absurd h (hquiet rfl), fun h => absurd h (hquiet rfl)⟩
          (.cons ⟨⟨Or.inr (exists_isRequest isCompleteRequest_lambda), rfl⟩,
              serves_rootReply rfl (Or.inr (by decide +kernel)), fun _ _ _ => by decide +kernel,
              fun _ _ text list hfilter hne => absurd (htext hfilter (by decide +kernel)) hne⟩
            (.cons ⟨⟨Or.inl rfl, rfl⟩, serves_rootReply rfl (Or.inr (by decide +kernel)),
              fun h => absurd h (hquiet rfl), fun h => absurd h (hquiet rfl)⟩ (.nil _)))))
  exact ⟨_, _, hrun, inTurn_of_clear hrun, by decide +kernel⟩

/-- **A canned response overtakes:** a lambda request is refused while the response to an
earlier request has not come.  The earlier request gets the canned response. -/
theorem canned_overtakes :
    ∃ ps s, Run (fun s p s' => HTTPProxy.Step s p s' ∧ s.Serves [rootReply] p s')
        (.start atLimit) ps s ∧
      s.toClient = [cannedText] ∧ s.saved = [cannedMessage rootRequest] ∧
      ¬ s.InTurn [rootReply] := by
  have hrun : Run (fun s p s' => HTTPProxy.Step s p s' ∧ s.Serves [rootReply] p s') (.start atLimit)
      [readClient (ascii "GET / HTTP/1.1\r\n\r\n"), writeServer,
        readClient (ascii "GET /lambda HTTP/1.1\r\n\r\n"), writeClient] _ :=
    .cons ⟨⟨clientSends_readClient isCompleteRequest_root, rfl⟩,
        serves_rootReply rfl (Or.inl (by decide +kernel))⟩
      (.cons ⟨⟨clientSends_writeServer, rfl⟩, serves_rootReply rfl (Or.inr (by decide +kernel))⟩
        (.cons ⟨⟨clientSends_readClient isCompleteRequest_lambda, rfl⟩,
            serves_rootReply rfl (Or.inr (by decide +kernel))⟩
          (.cons ⟨⟨Or.inl rfl, rfl⟩, serves_rootReply rfl (Or.inr (by decide +kernel))⟩ (.nil _))))
  refine ⟨_, _, hrun, by decide +kernel, by decide +kernel, fun h => ?_⟩
  have hfirst : cannedMessage rootRequest = rootReply.2 :=
    h.first (v := (ascii "GET / HTTP/1.1\r\n\r\n", ascii "GET / HTTP/1.1\r\n\r\n"))
      (by decide +kernel) (by decide) (by decide +kernel)
  exact absurd hfirst (by decide +kernel)

end V2Proxy
