/-
# Streams of responses

A byte string answers a request if a new `HTTPResponseParser` that waits for the
response to it turns the string into one message and is new again afterwards
(`Answers`).  A request that arrives later changes nothing but the end of the queue
(`feed_newRequestArrived`).  So a parser that has been told of some requests and still
has `owed` bytes of their responses to come (`Owes`) goes on to the messages that answer
them, whenever the requests arrive and however the bytes are cut.
-/

import V2Proxy.Http.ResponsePairing

namespace V2Proxy

open Foundations HTTPMessageSequence

namespace HTTPResponseParser

variable {s s' : HTTPResponseParser} {ms : List HTTPResponse} {b w : Bytes}

/-! ### A request arrives -/

/-- A message that is started takes the request in front. -/
theorem initializeResponse_append {m m' : HTTPResponse} {q q' : ResponseParserMembers}
    (h : initializeResponse m q = .ok (m', q')) (request : HTTPRequest) :
    initializeResponse m { requests := q.requests ++ [request] } =
      .ok (m', { requests := q'.requests ++ [request] }) := by
  rw [initializeResponse] at h ⊢
  cases hrequests : q.requests with
  | nil =>
      rw [hrequests] at h
      cases h
  | cons first rest =>
      rw [hrequests] at h
      obtain ⟨m₁, hm₁, h⟩ := bind_eq_ok.1 h
      cases h
      dsimp only [List.cons_append]
      rw [hm₁, ok_bind]
      rfl

/-- A round that does not throw does not see that a request has arrived. -/
theorem parsingStep_newRequestArrived {go : Bool} (h : s.parsingStep = .ok (go, s'))
    (request : HTTPRequest) :
    (s.newRequestArrived request).parsingStep = .ok (go, s'.newRequestArrived request) := by
  cases hst : s.messageInProgress.state with
  | firstLinePending =>
      rcases hi : find CRLF s.buffer with _ | i
      · rw [parsingStep_noLine (by rw [hst]; decide) hi] at h
        cases h
        exact parsingStep_noLine (s := s.newRequestArrived request)
          (by rw [newRequestArrived, hst]; decide) hi
      · rw [parsingStep_firstLine hst hi] at h
        obtain ⟨⟨m, q⟩, hm, h⟩ := bind_eq_ok.1 h
        obtain ⟨m', hm', h⟩ := bind_eq_ok.1 h
        cases h
        rw [parsingStep_firstLine (s := s.newRequestArrived request) hst hi]
        change (initializeResponse s.messageInProgress
          { requests := s.derived.requests ++ [request] } >>= _) = _
        rw [initializeResponse_append hm request, ok_bind]
        change (m.setFirstLine (s.buffer.take i) >>= _) = _
        rw [hm', ok_bind]
        rfl
  | headersPending =>
      rcases hi : find CRLF s.buffer with _ | i
      · rw [parsingStep_noLine (by rw [hst]; decide) hi] at h
        cases h
        exact parsingStep_noLine (s := s.newRequestArrived request)
          (by rw [newRequestArrived, hst]; decide) hi
      · rw [parsingStep_header hst hi] at h
        obtain ⟨m, hm, h⟩ := bind_eq_ok.1 h
        cases h
        rw [parsingStep_header (s := s.newRequestArrived request) hst hi]
        change (s.messageInProgress.headerLine (s.buffer.take i) >>= _) = _
        rw [hm, ok_bind]
        rfl
  | bodyPending =>
      rw [parsingStep_afterBody hst] at h
      obtain ⟨⟨n, m⟩, hm, h⟩ := bind_eq_ok.1 h
      obtain ⟨⟨go', rest⟩, hrest, h⟩ := bind_eq_ok.1 h
      cases h
      rw [parsingStep_afterBody (s := s.newRequestArrived request) hst]
      change (s.messageInProgress.readInBody s.buffer >>= _) = _
      rw [hm, ok_bind]
      change (afterBody s.buffer n m >>= _) = _
      rw [hrest, ok_bind]
      rfl
  | complete =>
      rw [parsingStep_complete hst] at h
      cases h
      rw [parsingStep_complete (s := s.newRequestArrived request) hst]
      rfl

/-- **A call that does not throw does not see that a request has arrived.** -/
theorem feed_newRequestArrived (h : s.feed b = .ok s') (request : HTTPRequest) :
    (s.newRequestArrived request).feed b = .ok (s'.newRequestArrived request) := by
  have hround : ∀ {s : HTTPResponseParser} {r}, s.parseRound = .ok r →
      (s.newRequestArrived request).parseRound = .ok (r.map
        (newRequestArrived · request) (newRequestArrived · request)) := by
    intro s r h
    obtain ⟨⟨go, s'⟩, hs, h⟩ := bind_eq_ok.1 h
    rw [parseRound, parsingStep_newRequestArrived hs request, ok_bind]
    cases go <;> cases h <;> rfl
  refine Loop.run_induction (L := parseLoop)
    (motive := fun s r => ∀ s', r = .ok s' →
      parseLoop.run (newRequestArrived s request) = .ok (newRequestArrived s' request))
    (fun s e _ s' he => by cases he) (fun s x hx s' hs' => ?_) (fun s s₁ hs ih s' hs' => ?_)
    { s with buffer := s.buffer ++ b } s' h
  · cases hs'
    exact Loop.run_of_leave (hround hx)
  · have hnext : parseLoop.step (newRequestArrived s request) =
        .ok (.inl (newRequestArrived s₁ request)) := hround hs
    rw [Loop.run_of_next hnext]
    exact ih s' hs'

/-- A request that is announced does not disturb what is read. -/
theorem feedBytes_newRequestArrived (h : s.feedBytes w = .ok s') (request : HTTPRequest) :
    (s.newRequestArrived request).feedBytes w = .ok (s'.newRequestArrived request) := by
  induction w generalizing s with
  | nil =>
      cases h
      rfl
  | cons c w ih =>
      rw [feedBytes, List.foldlM_cons] at h ⊢
      obtain ⟨s₁, hs₁, h⟩ := bind_eq_ok.1 h
      rw [feed_newRequestArrived hs₁ request, ok_bind]
      exact ih h

/-- Reading keeps the requests, whether they have been answered or not. -/
theorem feedBytes_requests (h : s.feedBytes w = .ok s') : s'.requests = s.requests :=
  foldlM_invariant (I := fun t => requests t = requests s)
    (fun _ _ _ hs hs' => (feed_requests hs').trans hs) rfl h

/-! ### The response to a request -/

/-- The bytes `w` are exactly the response `m` to the request. -/
def Answers (request : HTTPRequest) (w : Bytes) (m : HTTPResponse) : Prop :=
  (HTTPResponseParser.new.newRequestArrived request).feedBytes w =
    .ok (HTTPResponseParser.new.carry [m])

/-- The bytes `w` are the response `m` to the request once the connection is closed. -/
def AnswersAtEof (request : HTTPRequest) (w : Bytes) (m : HTTPResponse) : Prop :=
  ∃ s, (HTTPResponseParser.new.newRequestArrived request).feedBytes w = .ok s ∧
    s.parse [] = .ok (HTTPResponseParser.new.carry [m])

/-- The requests are those of the responses in the queue. -/
theorem requests_carry (ms : List HTTPResponse) :
    requests (HTTPResponseParser.new.carry ms) = ms.map HTTPResponse.request := by
  rw [requests, completeMessages_carry, inFlight]
  change (ms ++ []).map HTTPResponse.request ++ [] = _
  rw [List.append_nil, List.append_nil]

/-- A response answers the request it was paired with. -/
theorem AnswersAtEof.request {request : HTTPRequest} {m : HTTPResponse}
    (h : AnswersAtEof request w m) : m.request = request := by
  obtain ⟨s, hs, heof⟩ := h
  have hrequests := parse_requests heof
  rw [requests_carry, feedBytes_requests hs, newRequestArrived_requests] at hrequests
  exact (List.cons.inj hrequests).1

/-- EOF between two responses changes nothing. -/
theorem carry_eof (ms : List HTTPResponse) :
    (HTTPResponseParser.new.carry ms).parse [] = .ok (HTTPResponseParser.new.carry ms) := by
  have hnew : HTTPResponseParser.new.parse [] = .ok HTTPResponseParser.new := by decide +kernel
  rw [parse_carry, hnew, ok_bind]

/-- An answer that ends by itself also ends with the connection. -/
theorem Answers.atEof {request : HTTPRequest} {m : HTTPResponse} (h : Answers request w m) :
    AnswersAtEof request w m :=
  ⟨_, h, carry_eof [m]⟩

/-! ### What is still to come -/

/-- Once the bytes `owed` have come, the parser has completed the messages `ms` and waits
for nothing. -/
structure Owes (s : HTTPResponseParser) (owed : Bytes) (ms : List HTTPResponse) : Prop where
  settled : s.Settled
  leads : s.feedBytes owed = .ok (HTTPResponseParser.new.carry ms)

/-- A new parser owes nothing. -/
theorem owes_new : Owes .new [] [] := ⟨settled_pending [], rfl⟩

/-- **A request arrives:** its response is owed as well. -/
theorem Owes.announce {owed : Bytes} (h : s.Owes owed ms) {request : HTTPRequest} {m : HTTPResponse}
    (hw : Answers request w m) :
    Owes (s.newRequestArrived request) (owed ++ w) (ms ++ [m]) := by
  refine ⟨settled_newRequestArrived h.settled request, ?_⟩
  rw [feedBytes_append, feedBytes_newRequestArrived h.leads request, ok_bind]
  change ((HTTPResponseParser.new.newRequestArrived request).carry ms).feedBytes w = _
  rw [feedBytes_carry, show HTTPMessageSequence.feedBytes _ w = _ from hw, ok_bind, carry_carry]

/-- **A buffer is read:** the rest is owed. -/
theorem Owes.read {owed : Bytes} (h : s.Owes (b ++ owed) ms) (hne : b ≠ [])
    (hlen : b.length ≤ bufferSize) : ∃ s', s.parse b = .ok s' ∧ Owes s' owed ms := by
  have hleads := h.leads
  rw [feedBytes_append] at hleads
  obtain ⟨s', hs', hleads⟩ := bind_eq_ok.1 hleads
  have hfeed : s.feed b = .ok s' := by rw [h.settled.feed_eq_feedBytes hne hlen, hs']
  exact ⟨s', by rw [parse_of_ne_nil _ hne, hfeed], h.settled.feed_settled hfeed, hleads⟩

/-- Nothing is owed. -/
theorem Owes.done (h : s.Owes [] ms) : s = HTTPResponseParser.new.carry ms :=
  Except.ok.inj h.leads

/-- The responses in the queue are owed no text. -/
theorem owes_carry (ms : List HTTPResponse) : Owes (HTTPResponseParser.new.carry ms) [] ms :=
  ⟨(waiting_carry.2 waiting_new).settled, rfl⟩

/-! ### The end of the connection -/

/-- A parser in which no message has begun reads a line that is not complete into its
buffer. -/
theorem feed_firstLinePending (hst : s.messageInProgress.state = .firstLinePending)
    (hline : find CRLF (s.buffer ++ b) = none) :
    s.feed b = .ok { s with buffer := s.buffer ++ b } := by
  have hrank : s.messageInProgress.state.rank ≤ 1 := by rw [hst]; decide
  exact run_of_stop (parsingStep_noLine (s := { s with buffer := s.buffer ++ b }) hrank hline)

/-- EOF between two responses changes nothing. -/
theorem parse_eof_firstLinePending (hst : s.messageInProgress.state = .firstLinePending)
    (hline : find CRLF s.buffer = none) : s.parse [] = .ok s := by
  have hfeed := feed_firstLinePending (b := []) hst (by rwa [List.append_nil])
  rw [List.append_nil] at hfeed
  rw [HTTPMessageSequence.parse, if_pos rfl, HTTPMessage.eof, hst]
  exact hfeed

/-- EOF does not see that a request has arrived. -/
theorem parse_eof_newRequestArrived (h : s.parse [] = .ok s') (request : HTTPRequest) :
    (s.newRequestArrived request).parse [] = .ok (s'.newRequestArrived request) := by
  rw [HTTPMessageSequence.parse, if_pos rfl] at h ⊢
  obtain ⟨m, hm, h⟩ := bind_eq_ok.1 h
  change (s.messageInProgress.eof >>= _) = _
  rw [hm, ok_bind]
  exact feed_newRequestArrived h request

/-- A parser that waits for no response reads no complete line. -/
theorem feedBytes_idle (hst : s.messageInProgress.state = .firstLinePending)
    (hrequests : s.derived.requests = []) (hline : find CRLF s.buffer = none)
    (h : s.feedBytes w = .ok s') :
    s' = { s with buffer := s.buffer ++ w } ∧ find CRLF s'.buffer = none := by
  induction w generalizing s with
  | nil =>
      obtain rfl := Except.ok.inj h
      exact ⟨by rw [List.append_nil], hline⟩
  | cons c w ih =>
      rw [feedBytes, List.foldlM_cons] at h
      obtain ⟨s₁, hs₁, h⟩ := bind_eq_ok.1 h
      rcases hc : find CRLF (s.buffer ++ [c]) with _ | i
      · rw [feed_firstLinePending hst hc] at hs₁
        obtain rfl := Except.ok.inj hs₁
        obtain ⟨heq, hline'⟩ := ih (s := { s with buffer := s.buffer ++ [c] }) hst hrequests hc h
        refine ⟨?_, hline'⟩
        rw [heq, List.append_assoc, List.singleton_append]
      · -- a status line finds no request
        have hraised : parsingStep { s with buffer := s.buffer ++ [c] } =
            .error (.runtimeError (ascii "HTTPResponseParser: response without matching request")) := by
          rw [parsingStep_firstLine (s := { s with buffer := s.buffer ++ [c] }) hst hc]
          change (initializeResponse s.messageInProgress s.derived >>= _) = _
          rw [initializeResponse, hrequests]
          rfl
        rw [feed, run_of_fault hraised] at hs₁
        cases hs₁

/-- Once the bytes `owed` and then EOF have come, the parser has completed the messages
`ms`, and no message has begun. -/
structure Closes (s : HTTPResponseParser) (owed : Bytes) (ms : List HTTPResponse) : Prop where
  settled : s.Settled
  leads : ∃ s' requests, s.feedBytes owed = .ok s' ∧ s'.parse [] = .ok ((pending requests).carry ms)

/-- What is owed can be closed. -/
theorem Owes.closes {owed : Bytes} (h : s.Owes owed ms) : s.Closes owed ms :=
  ⟨h.settled, _, [], h.leads, carry_eof ms⟩

/-- A request arrives that nobody will answer. -/
theorem Closes.newRequestArrived {owed : Bytes} (h : s.Closes owed ms) (request : HTTPRequest) :
    (s.newRequestArrived request).Closes owed ms := by
  obtain ⟨s', requests, hs', heof⟩ := h.leads
  refine ⟨settled_newRequestArrived h.settled request,
    HTTPResponseParser.newRequestArrived s' request, requests ++ [request],
    feedBytes_newRequestArrived hs' request, ?_⟩
  exact parse_eof_newRequestArrived heof request

/-- A request arrives whose response ends with the connection. -/
theorem Owes.announceLast {owed : Bytes} (h : s.Owes owed ms) {request : HTTPRequest}
    {m : HTTPResponse} (hw : AnswersAtEof request w m) :
    Closes (s.newRequestArrived request) (owed ++ w) (ms ++ [m]) := by
  obtain ⟨s₁, hs₁, heof⟩ := hw
  refine ⟨settled_newRequestArrived h.settled request,
    s₁.carry ms, [], ?_, ?_⟩
  · rw [feedBytes_append, feedBytes_newRequestArrived h.leads request, ok_bind]
    change ((HTTPResponseParser.new.newRequestArrived request).carry ms).feedBytes w = _
    rw [feedBytes_carry, hs₁, ok_bind]
  · rw [parse_carry, heof, ok_bind, carry_carry]
    rfl

/-- A buffer is read: the rest is owed. -/
theorem Closes.read {owed : Bytes} (h : s.Closes (b ++ owed) ms) (hne : b ≠ [])
    (hlen : b.length ≤ bufferSize) : ∃ s', s.parse b = .ok s' ∧ Closes s' owed ms := by
  obtain ⟨s₂, requests, hs₂, heof⟩ := h.leads
  rw [feedBytes_append] at hs₂
  obtain ⟨s₁, hs₁, hs₂⟩ := bind_eq_ok.1 hs₂
  have hfeed : s.feed b = .ok s₁ := by rw [h.settled.feed_eq_feedBytes hne hlen, hs₁]
  refine ⟨s₁, by rw [parse_of_ne_nil _ hne, hfeed], h.settled.feed_settled hfeed, ?_⟩
  exact ⟨s₂, requests, hs₂, heof⟩

/-- Some buffers are read: the rest is owed. -/
theorem Closes.readAll {pieces : List Bytes} {owed : Bytes}
    (h : s.Closes (pieces.flatten ++ owed) ms) (hp : ∀ p ∈ pieces, p ≠ [] ∧ p.length ≤ bufferSize) :
    ∃ s', pieces.foldlM parse s = .ok s' ∧ Closes s' owed ms := by
  induction pieces generalizing s with
  | nil => exact ⟨s, rfl, h⟩
  | cons p pieces ih =>
      obtain ⟨⟨hne, hlen⟩, hp⟩ := List.forall_mem_cons.1 hp
      rw [List.flatten_cons, List.append_assoc] at h
      obtain ⟨s₁, hs₁, h⟩ := h.read hne hlen
      obtain ⟨s', hs', h⟩ := ih h hp
      exact ⟨s', by rw [List.foldlM_cons, hs₁, ok_bind, hs'], h⟩

/-- **The connection ends** when all bytes have come. -/
theorem Closes.eof (h : s.Closes [] ms) :
    ∃ requests, s.parse [] = .ok ((pending requests).carry ms) := by
  obtain ⟨s', requests, hs', heof⟩ := h.leads
  obtain rfl := Except.ok.inj hs'
  exact ⟨requests, heof⟩

/-- A parser that waits for responses can be closed. -/
theorem closes_pending (requests : List HTTPRequest) (ms : List HTTPResponse) :
    Closes ((pending requests).carry ms) [] ms :=
  ⟨settled_carry.2 (settled_pending requests), _, requests, rfl,
    parse_eof_firstLinePending rfl find_CRLF_nil⟩

/-- Reading appends to the queue. -/
theorem completeMessages_feedBytes (h : s.feedBytes w = .ok s') :
    s.completeMessages <+: s'.completeMessages := by
  refine foldlM_invariant (I := fun t => s.completeMessages <+: t.completeMessages)
    (fun s₁ c s₂ hs₁ hs₂ => ?_) (List.prefix_refl _) h
  rw [← parse_of_ne_nil s₁ (List.cons_ne_nil c [])] at hs₂
  exact hs₁.trans <| completeMessages_prefix hs₂

/-- What is complete is the first of the messages. -/
theorem Closes.completeMessages {owed : Bytes} (h : s.Closes owed ms) :
    s.completeMessages <+: ms := by
  obtain ⟨s', requests, hs', heof⟩ := h.leads
  have hfed := completeMessages_feedBytes hs'
  have hparsed := completeMessages_prefix heof
  rw [completeMessages_carry] at hparsed
  exact hfed.trans (hparsed.trans (by rw [show (pending requests).completeMessages = [] from rfl,
    List.append_nil]))

/-- **A parser that waits for no response is owed nothing.** -/
theorem Closes.idle {owed : Bytes} (h : s.Closes owed ms) (hs : s.Waiting) (hin : s.inFlight = []) :
    owed = [] ∧ s = HTTPResponseParser.new.carry ms := by
  rw [inFlight] at hin
  split_ifs at hin with hst
  obtain ⟨s', requests, hs', heof⟩ := h.leads
  have hrank : s.messageInProgress.state.rank ≤ 1 := by rw [hst]; decide
  obtain ⟨rfl, hline⟩ := feedBytes_idle hst hin (hs.settled.line hrank) hs'
  rw [parse_eof_firstLinePending (s := { s with buffer := s.buffer ++ owed }) hst hline] at heof
  have hend := Except.ok.inj heof
  have hbuffer : s.buffer ++ owed = [] := congrArg HTTPMessageSequence.buffer hend
  have hcomplete : s.completeMessages = ms :=
    (congrArg HTTPMessageSequence.completeMessages hend).trans (List.append_nil ms)
  obtain ⟨hnil, howed⟩ := List.append_eq_nil_iff.1 hbuffer
  have hfresh := hs.fresh hst
  obtain ⟨buffer, messages, message, ⟨pendingRequests⟩⟩ := s
  dsimp only at hnil hcomplete hfresh hin
  rw [hnil, hcomplete, hfresh, hin]
  refine ⟨howed, ?_⟩
  rw [carry, show HTTPResponseParser.new.completeMessages = [] from rfl, List.append_nil]
  rfl

end HTTPResponseParser

end V2Proxy
