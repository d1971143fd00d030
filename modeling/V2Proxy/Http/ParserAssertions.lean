/-
# The assertions of the parsers hold

The classes of a message assert in which state their functions are called, and that a body
is not longer than expected; `parse` asserts that it uses up its buffer.  What they rely on
is an invariant of the parser (`Ready`): no body before the headers, a body that is not too
long or a body parser after them, and requests whose first line is known.  A round of
`parse` keeps it, and from it fails by an exception or by one of the assertions about the
framing of a chunk (`Ready.framing_parsingStep`), so every run of calls does
(`parse_safe`).
-/

import V2Proxy.Foundations.Runs
import V2Proxy.Http.ChunkedReads
import V2Proxy.Http.ProducedRequests

namespace V2Proxy

open Foundations

/-- An assertion that holds does not fail. -/
theorem framing_assert_of {p : Prop} [Decidable p] (h : p) (text : String) :
    Framing (assert p text) := by
  rw [assert_of h]
  exact throws_ok ()

/-- What the assertions of a message type need.  `started` holds of the members of a message
with a first line, `reading` while a body of unknown length is read. -/
class ReadyBody (X : Type) [MessageType X] [LawfulBody X] where
  started : X → Prop
  reading : X → Prop
  framing_calculate : ∀ {m : HTTPMessage X}, m.state = .bodyPending → started m.derived →
    Framing (MessageType.calculateExpectedBodySize m)
  calculate_ready : ∀ {m m' : HTTPMessage X}, m.state = .bodyPending →
    MessageType.calculateExpectedBodySize m = .ok m' →
    m'.state = .bodyPending ∧ m'.body = m.body ∧ (m'.expectedBodySize.1 = false → reading m'.derived)
  framing_read : ∀ {m : HTTPMessage X} {a : Bytes}, m.state = .bodyPending →
    LawfulBody.settled m.derived → reading m.derived → Framing (MessageType.readInComplexBody m a)
  read_ready : ∀ {m m' : HTTPMessage X} {a : Bytes} {n : ℕ}, reading m.derived →
    MessageType.readInComplexBody m a = .ok (n, m') → m'.state = .bodyPending → reading m'.derived
  framing_eof : ∀ m : HTTPMessage X, Framing (MessageType.eofInBody m)

/-- What the assertions of a parser need.  `waiting` holds of the members of the parser. -/
class ReadyParser (X : Type) (Q : outParam Type) [ParserType X Q] [LawfulParser X Q] extends
    ReadyBody X where
  waiting : Q → Prop
  framing_initialize : ∀ {m : HTTPMessage X} {q : Q}, m.state = .firstLinePending →
    Framing (ParserType.initializeNewMessage m q)
  initialize_ready : ∀ {m m' : HTTPMessage X} {q q' : Q}, waiting q →
    ParserType.initializeNewMessage m q = .ok (m', q') →
    m'.state = m.state ∧ m'.body = m.body ∧ started m'.derived ∧ waiting q'

namespace HTTPMessage

variable {X : Type} [MessageType X] [LawfulBody X] [ReadyBody X] {m m' : HTTPMessage X}
  {a line : Bytes} {n : ℕ}

/-- The message in progress: no body before the headers are there, and after them a body
that is not longer than expected, or one that can be read. -/
structure Ready (m : HTTPMessage X) : Prop where
  no_body : m.state.rank ≤ 1 → m.body = []
  started : m.state = .headersPending → ReadyBody.started m.derived
  known : m.state = .bodyPending → m.expectedBodySize.1 = true → m.body.length ≤ m.expectedBodySize.2
  unknown : m.state = .bodyPending → m.expectedBodySize.1 = false → ReadyBody.reading m.derived

/-- A new message is ready. -/
theorem ready_fresh : (fresh : HTTPMessage X).Ready := by
  refine ⟨fun _ => rfl, fun h => ?_, fun h => ?_, fun h => ?_⟩ <;> cases h

/-- A complete message needs nothing. -/
theorem ready_of_complete (h : m.state = .complete) : m.Ready := by
  refine ⟨fun hrank => ?_, fun hst => ?_, fun hst => ?_, fun hst => ?_⟩
  · rw [h] at hrank
    exact absurd hrank (by decide)
  · rw [h] at hst
    cases hst
  · rw [h] at hst
    cases hst
  · rw [h] at hst
    cases hst

/-- A message that waits for headers. -/
theorem ready_of_headers (h : m.state = .headersPending) (hbody : m.body = [])
    (hstarted : ReadyBody.started m.derived) : m.Ready := by
  refine ⟨fun _ => hbody, fun _ => hstarted, fun hst => ?_, fun hst => ?_⟩
  · rw [h] at hst
    cases hst
  · rw [h] at hst
    cases hst

/-- A message that reads its body. -/
theorem ready_of_body (h : m.state = .bodyPending)
    (known : m.expectedBodySize.1 = true → m.body.length ≤ m.expectedBodySize.2)
    (unknown : m.expectedBodySize.1 = false → ReadyBody.reading m.derived) : m.Ready := by
  refine ⟨fun hrank => ?_, fun hst => ?_, fun _ => known, fun _ => unknown⟩
  · rw [h] at hrank
    exact absurd hrank (by decide)
  · rw [h] at hst
    cases hst

/-- **A header line** of a message that waits for one. -/
theorem Ready.framing_headerLine (h : m.Ready) (hst : m.state = .headersPending) (line : Bytes) :
    Framing (m.headerLine line) := by
  rw [headerLine]
  refine throws_ite (fun _ => ?_) fun _ => ?_
  · exact (framing_assert_of hst _).bind fun _ _ =>
      ReadyBody.framing_calculate (m := { m with state := .bodyPending }) rfl (h.started hst)
  · exact (framing_assert_of hst _).bind fun _ _ =>
      (raises_headerParse line).framing.bind fun _ _ => throws_pure _

/-- A header line keeps the message ready. -/
theorem Ready.headerLine (h : m.Ready) (hm : m.headerLine line = .ok m') : m'.Ready := by
  rw [HTTPMessage.headerLine] at hm
  split_ifs at hm
  · obtain ⟨_, hst, hm⟩ := bind_eq_ok.1 hm
    have hbody := h.no_body (by rw [assert_eq_ok.1 hst]; decide)
    obtain ⟨hst', hbody', hreading⟩ :=
      ReadyBody.calculate_ready (m := { m with state := .bodyPending }) rfl hm
    have hnil : m'.body = [] := hbody'.trans hbody
    exact ready_of_body hst' (fun _ => by simp [hnil]) hreading
  · obtain ⟨_, hst, hm⟩ := bind_eq_ok.1 hm
    obtain ⟨_, -, hm⟩ := bind_eq_ok.1 hm
    cases hm
    have hst := assert_eq_ok.1 hst
    exact ready_of_headers hst (h.no_body (by rw [hst]; decide)) (h.started hst)

/-- **The body** of a message that waits for it. -/
theorem Ready.framing_readInBody (h : m.Ready) (hst : m.state = .bodyPending)
    (hs : LawfulBody.settled m.derived) (a : Bytes) : Framing (m.readInBody a) := by
  rcases hsize : m.expectedBodySize with ⟨known, size⟩
  cases known with
  | true =>
      have hle : m.body.length ≤ size := by
        have := h.known hst (by rw [hsize])
        rwa [hsize] at this
      rw [readInBody_known hst hsize]
      exact (framing_assert_of hle _).bind fun _ _ => throws_pure _
  | false =>
      rw [readInBody_unknown hst (by rw [hsize])]
      exact ReadyBody.framing_read hst hs (h.unknown hst (by rw [hsize]))

/-- So does a part of the body. -/
theorem Ready.readInBody (h : m.Ready) (hst : m.state = .bodyPending)
    (hs : LawfulBody.settled m.derived) (hm : m.readInBody a = .ok (n, m')) : m'.Ready := by
  rcases hsize : m.expectedBodySize with ⟨known, size⟩
  cases known with
  | true =>
      rw [readInBody_known hst hsize] at hm
      obtain ⟨_, hle, hm⟩ := bind_eq_ok.1 hm
      have hle := assert_eq_ok.1 hle
      by_cases hall : (m.body ++ a.take (min (size - m.body.length) a.length)).length = size
      · cases hm
        exact ready_of_complete (if_pos hall)
      · cases hm
        refine ready_of_body ((if_neg hall).trans hst) (fun _ => ?_) fun hunknown => ?_
        · simp only [List.length_append, List.length_take, hsize]
          omega
        · rw [hsize] at hunknown
          cases hunknown
  | false =>
      rw [readInBody_unknown hst (by rw [hsize])] at hm
      obtain ⟨-, ⟨hc, -⟩ | ⟨hb, -, hsize'⟩⟩ := LawfulBody.read_outcome hs hst hm
      · exact ready_of_complete hc
      · refine ready_of_body hb (fun hknown => ?_) fun _ => ?_
        · rw [hsize', hsize] at hknown
          cases hknown
        · exact ReadyBody.read_ready (h.unknown hst (by rw [hsize])) hm hb

end HTTPMessage

namespace HTTPMessageSequence

variable {X Q : Type} [ParserType X Q] [LawfulParser X Q] [ReadyParser X Q]
  {s s' : HTTPMessageSequence X Q} {a : Bytes}

/-- The parser whose assertions hold: its message in progress is ready, and its members. -/
structure Ready (s : HTTPMessageSequence X Q) : Prop where
  message : s.messageInProgress.Ready
  settled : LawfulBody.settled s.messageInProgress.derived
  waiting : ReadyParser.waiting X s.derived

/-- **A step of a ready parser** fails by an exception or by an assertion about a chunk. -/
theorem Ready.framing_parsingStep (h : s.Ready) : Framing s.parsingStep := by
  have hline : ∀ {i : ℕ}, find CRLF s.buffer = some i → Framing (getAndPopLine s.buffer) := by
    intro i hi
    rw [getAndPopLine_of_find hi]
    exact throws_ok _
  cases hst : s.messageInProgress.state with
  | firstLinePending =>
      rcases hi : find CRLF s.buffer with _ | i
      · rw [parsingStep_noLine (by rw [hst]; decide) hi]
        exact throws_ok _
      · rw [parsingStep_firstLine hst hi]
        refine (ReadyParser.framing_initialize hst).bind fun ⟨m, q⟩ hm => ?_
        obtain ⟨hst', -⟩ := ReadyParser.initialize_ready h.waiting hm
        exact Throws.bind ((framing_assert_of (hst'.trans hst) _).bind fun _ _ => throws_pure _)
          fun _ _ => throws_pure _
  | headersPending =>
      rcases hi : find CRLF s.buffer with _ | i
      · rw [parsingStep_noLine (by rw [hst]; decide) hi]
        exact throws_ok _
      · rw [parsingStep_header hst hi]
        exact (h.message.framing_headerLine hst _).bind fun _ _ => throws_pure _
  | bodyPending =>
      rw [parsingStep_body hst]
      refine (h.message.framing_readInBody hst h.settled _).bind fun ⟨n, m⟩ hm => ?_
      -- the body ends within the buffer, or takes all of it
      have hcases : (n = s.buffer.length ∨ m.state = .complete) ∧ n ≤ s.buffer.length := by
        obtain ⟨-, ⟨hc, hn⟩ | ⟨-, hn⟩⟩ := HTTPMessage.readInBody_outcome h.settled hst hm
        · exact ⟨Or.inr hc, hn⟩
        · exact ⟨Or.inl hn, hn.le⟩
      refine (framing_assert_of hcases.1 _).bind fun _ _ => ?_
      exact Throws.bind ((framing_assert_of hcases.2 _).bind fun _ _ => throws_pure _)
        fun _ _ => throws_pure _
  | complete =>
      rw [parsingStep_complete hst]
      exact throws_ok _

/-- **A round that goes on keeps the parser ready.** -/
theorem Ready.next (h : s.Ready) (hr : Round s s') : s'.Ready := by
  cases hr with
  | firstLine hst hi hm hm' =>
      obtain ⟨hst', hbody, hstarted, hwaiting⟩ := ReadyParser.initialize_ready h.waiting hm
      have hsettled := LawfulParser.initialize_settled h.settled hm
      have hnil := hbody.trans (h.message.no_body (by rw [hst]; decide))
      obtain ⟨_, -, hm'⟩ := bind_eq_ok.1 hm'
      cases hm'
      exact ⟨HTTPMessage.ready_of_headers rfl hnil hstarted, hsettled, hwaiting⟩
  | header hst hi hm =>
      exact ⟨h.message.headerLine hm, headerLine_settled h.settled hm, h.waiting⟩
  | body hst hm hn hc =>
      exact ⟨h.message.readInBody hst h.settled hm,
        (HTTPMessage.readInBody_outcome h.settled hst hm).1, h.waiting⟩
  | complete hst => exact ⟨HTTPMessage.ready_fresh, LawfulBody.settled_fresh, h.waiting⟩

/-- And so does one that stops. -/
theorem Ready.pause (h : s.Ready) (hp : Pause s s') : s'.Ready := by
  cases hp with
  | line => exact h
  | body hst hm hne =>
      exact ⟨h.message.readInBody hst h.settled hm,
        (HTTPMessage.readInBody_outcome h.settled hst hm).1, h.waiting⟩

/-- More bytes in the buffer do not matter. -/
theorem Ready.withBuffer (h : s.Ready) (b : Bytes) : Ready { s with buffer := b } :=
  ⟨h.message, h.settled, h.waiting⟩

/-- Feeding a parser that is ready fails no assertion. -/
theorem Ready.framing_feed (h : s.Ready) (a : Bytes) : Framing (s.feed a) :=
  Loop.run_throws_of (L := parseLoop) (I := Ready)
    (fun _ _ hs hnext => hs.next (parseRound_next hnext))
    (fun _ hs => hs.framing_parsingStep.bind fun _ _ => throws_pure _) (h.withBuffer _)

/-- A parser that is ready stays ready. -/
theorem Ready.feed (h : s.Ready) (hf : s.feed a = .ok s') : s'.Ready :=
  Loop.run_post (L := parseLoop) (I := Ready) (Q := Ready)
    (fun _ _ hs hnext => hs.next (parseRound_next hnext))
    (fun _ _ hs hleave => hs.pause (parseRound_leave hleave)) (h.withBuffer _) hf

omit [LawfulParser X Q] [ReadyParser X Q] in
/-- What `eof` does to the message: nothing, or it completes it. -/
theorem eof_cases {m : HTTPMessage X} (hm : s.messageInProgress.eof = .ok m) :
    m = s.messageInProgress ∨ s.messageInProgress.state = .bodyPending ∧
      m = { s.messageInProgress with state := .complete } := by
  rw [HTTPMessage.eof] at hm
  split at hm
  · exact Or.inl (Except.ok.inj hm).symm
  · cases hm
  · rename_i hst
    obtain ⟨ends, -, hm⟩ := bind_eq_ok.1 hm
    cases ends with
    | true => exact Or.inr ⟨hst, (Except.ok.inj hm).symm⟩
    | false => exact Or.inl (Except.ok.inj hm).symm
  · cases hm

/-- EOF between two calls of `parse` fails no assertion. -/
theorem Settled.framing_eof (h : s.Settled) : Framing s.messageInProgress.eof := by
  rw [HTTPMessage.eof]
  split
  · exact throws_ok _
  · exact throws_error.2 (Or.inl trivial)
  · refine (ReadyBody.framing_eof _).bind fun ends _ => ?_
    exact throws_ite (fun _ => throws_pure _) fun _ => throws_pure _
  · rename_i hst
    exact absurd hst h.not_complete

/-- Between two calls: ready and settled. -/
structure Sound (s : HTTPMessageSequence X Q) : Prop where
  ready : s.Ready
  settled : s.Settled

/-- After an EOF the parser is ready, and reads no bytes that it has seen before. -/
theorem Sound.eof {m : HTTPMessage X} (h : s.Sound) (hm : s.messageInProgress.eof = .ok m) :
    Ready { s with messageInProgress := m } ∧ ∃ room, Reading room { s with messageInProgress := m } := by
  rcases eof_cases hm with rfl | ⟨hst, rfl⟩
  · have hreading := h.settled.reading []
    rw [extend, List.append_nil] at hreading
    exact ⟨h.ready, 0, hreading⟩
  · exact ⟨⟨HTTPMessage.ready_of_complete rfl, h.ready.settled, h.ready.waiting⟩, s.buffer.length,
      .of_length h.ready.settled le_rfl⟩

/-- **A call of `parse` of a sound parser** fails by an exception or by an assertion about a
chunk. -/
theorem Sound.framing_parse (h : s.Sound) (a : Bytes) : Framing (s.parse a) := by
  rw [parse]
  refine throws_ite (fun _ => ?_) fun _ => h.ready.framing_feed a
  exact h.settled.framing_eof.bind fun m hm => (h.eof hm).1.framing_feed a

/-- **A call of `parse` leaves a sound parser.** -/
theorem Sound.parse (h : s.Sound) (hp : s.parse a = .ok s') : s'.Sound := by
  rw [HTTPMessageSequence.parse] at hp
  split_ifs at hp with hnil
  · obtain ⟨m, hm, hp⟩ := bind_eq_ok.1 hp
    obtain ⟨hready, room, hreading⟩ := h.eof hm
    have hbuffer : ({ s with messageInProgress := m, buffer := s.buffer ++ a } :
        HTTPMessageSequence X Q) = { s with messageInProgress := m } := by
      rw [hnil, List.append_nil]
    refine ⟨hready.feed hp, ?_⟩
    rw [HTTPMessageSequence.feed] at hp
    dsimp only at hp
    rw [hbuffer] at hp
    exact Loop.run_post (L := parseLoop) (I := Reading room) (Q := Settled)
      (fun _ _ hs hnext => hs.next (parseRound_next hnext))
      (fun _ _ hs hleave => hs.pause (parseRound_leave hleave)) hreading hp
  · exact ⟨h.ready.feed hp, h.settled.feed_settled hp⟩

/-- A call of `pop` changes neither the buffer nor the message in progress. -/
theorem Sound.pop (h : s.Sound) (hp : s.pop = .ok s') : s'.Sound := by
  rw [HTTPMessageSequence.pop] at hp
  split at hp
  · cases hp
    exact ⟨⟨h.ready.message, h.ready.settled, h.ready.waiting⟩, h.settled.derived,
      h.settled.not_complete, h.settled.line, h.settled.body⟩
  · cases hp

end HTTPMessageSequence

/-- The length is set in the state that is asserted. -/
theorem HTTPMessage.framing_setExpectedBodySize {X : Type} {m : HTTPMessage X}
    (hst : m.state = .bodyPending) (isKnown : Bool) (value : ℕ) :
    Framing (m.setExpectedBodySize isKnown value) :=
  (framing_assert_of hst _).bind fun _ _ => throws_pure _

namespace HTTPRequest

variable {m m' : HTTPRequest}

/-- The length of a request is calculated in the state that is asserted. -/
theorem framing_calculate (hst : m.state = .bodyPending) :
    Framing (calculateExpectedBodySize m) := by
  refine (framing_assert_of hst _).bind fun _ _ => ?_
  refine throws_ite (fun _ => HTTPMessage.framing_setExpectedBodySize hst true 0) fun _ => ?_
  refine throws_ite (fun _ => ?_) fun _ => throws_error.2 (Or.inl trivial)
  refine throws_ite (fun _ => throws_error.2 (Or.inl trivial)) fun _ => ?_
  exact (m.raises_getHeaderValue _).framing.bind fun _ _ => (raises_myatoi _ 10).framing.bind
    fun _ _ => HTTPMessage.framing_setExpectedBodySize hst true _

end HTTPRequest

/-- The virtual functions of requests. -/
instance : ReadyBody RequestMembers where
  started _ := True
  reading _ := False
  framing_calculate hst _ := HTTPRequest.framing_calculate hst
  calculate_ready hst h := by
    obtain ⟨size, rfl, -⟩ := HTTPRequest.calculate_eq_ok h
    exact ⟨hst, rfl, fun hunknown => by cases hunknown⟩
  framing_read _ _ h := h.elim
  read_ready h := h.elim
  framing_eof _ := throws_error.2 (Or.inl trivial)

/-- A request parser has no state of its own. -/
instance : ReadyParser RequestMembers RequestParserMembers where
  waiting _ := True
  framing_initialize _ := throws_ok _
  initialize_ready _ h := by
    cases h
    exact ⟨rfl, rfl, trivial, trivial⟩

namespace HTTPResponse

variable {m m' : HTTPResponse} {a : Bytes} {n : ℕ}

/-- `status_code` is asked for once there is a first line. -/
theorem framing_statusCode (hst : m.state = .bodyPending) : Framing m.statusCode := by
  have hrank : HTTPMessageState.firstLinePending.rank < m.state.rank := by
    rw [hst]
    decide
  refine (framing_assert_of hrank _).bind fun _ _ => (raises_split _ _).framing.bind fun _ _ => ?_
  split
  · exact throws_pure _
  · exact throws_error.2 (Or.inl trivial)

/-- Rule 1 asks the request, whose first line is known. -/
theorem framing_hasNoBody (hst : m.state = .bodyPending)
    (hstarted : HTTPMessageState.firstLinePending.rank < m.derived.request.state.rank) :
    Framing m.hasNoBody := by
  refine (framing_statusCode hst).bind fun code _ => ?_
  split
  · exact throws_error.2 (Or.inl trivial)
  · refine throws_ite (fun _ => throws_pure _) fun _ => ?_
    exact (framing_assert_of hstarted _).bind fun _ _ => throws_pure _

/-- `is_chunked` fails no assertion. -/
theorem raises_isChunked (m : HTTPResponse) : Raises m.isChunked := by
  refine throws_ite (fun _ => ?_) fun _ => throws_pure _
  exact (m.raises_getHeaderValue _).bind fun _ _ => (raises_split _ _).bind fun _ _ => throws_pure _

/-- Nor does the question whether the content is in byte ranges. -/
theorem raises_isByteRanges (m : HTTPResponse) : Raises m.isByteRanges := by
  refine throws_ite (fun _ => ?_) fun _ => throws_pure _
  exact (m.raises_getHeaderValue _).bind fun _ _ => (raises_mimeType _).bind fun _ _ => throws_pure _

/-- The length of a response, whose request has its first line. -/
theorem framing_calculate (hst : m.state = .bodyPending)
    (hstarted : HTTPMessageState.firstLinePending.rank < m.derived.request.state.rank) :
    Framing (calculateExpectedBodySize m) := by
  refine (framing_assert_of hst _).bind fun _ _ => (framing_hasNoBody hst hstarted).bind fun _ _ => ?_
  refine throws_ite (fun _ => HTTPMessage.framing_setExpectedBodySize hst true 0) fun _ => ?_
  refine (raises_isChunked m).framing.bind fun _ _ => ?_
  refine throws_ite (fun _ => ?_) fun _ => throws_ite (fun _ => ?_) fun _ => ?_
  · exact (HTTPMessage.framing_setExpectedBodySize hst false npos).bind fun _ _ => throws_pure _
  · exact (m.raises_getHeaderValue _).framing.bind fun _ _ => (raises_myatoi _ 10).framing.bind
      fun _ _ => HTTPMessage.framing_setExpectedBodySize hst true _
  · refine (raises_isByteRanges m).framing.bind fun _ _ => ?_
    refine throws_ite (fun _ => throws_error.2 (Or.inl trivial)) fun _ => ?_
    exact (HTTPMessage.framing_setExpectedBodySize hst false npos).bind fun _ _ => throws_pure _

/-- A body of unknown length is read by the parser that was chosen for it. -/
theorem framing_readInComplexBody (hst : m.state = .bodyPending) (hs : m.derived.Settled)
    (hp : m.derived.bodyParser.isSome = true) : Framing (readInComplexBody m a) := by
  obtain ⟨_ | p, hp⟩ := Option.isSome_iff_exists.1 hp
  · rw [readInComplexBody_rule5 hst hp]
    exact throws_ok _
  · rw [readInComplexBody_chunked hst hp]
    refine ((hs p hp).framing_read a).bind fun r _ => ?_
    cases r <;> exact throws_ok _

/-- The body parser stays as long as the body is not complete. -/
theorem readInComplexBody_keeps (h : readInComplexBody m a = .ok (n, m'))
    (hst' : m'.state = .bodyPending) : m'.derived.bodyParser.isSome = true := by
  obtain ⟨_, -, h⟩ := bind_eq_ok.1 h
  split at h
  · cases h
  · obtain ⟨p | k, -, h⟩ := bind_eq_ok.1 h
    · cases h
      rfl
    · cases h
      cases hst'

end HTTPResponse

/-- The virtual functions of responses. -/
instance : ReadyBody ResponseMembers where
  started x := HTTPMessageState.firstLinePending.rank < x.request.state.rank
  reading x := x.bodyParser.isSome = true
  framing_calculate := HTTPResponse.framing_calculate
  calculate_ready hst h := by
    rcases HTTPResponse.calculate_eq h with ⟨size, rfl⟩ | ⟨parser, rfl, -⟩
    · exact ⟨hst, rfl, fun hunknown => by cases hunknown⟩
    · exact ⟨hst, rfl, fun _ => rfl⟩
  framing_read hst hs hp := HTTPResponse.framing_readInComplexBody hst hs hp
  read_ready _ h hst' := HTTPResponse.readInComplexBody_keeps h hst'
  framing_eof m := by
    change Framing (HTTPResponse.eofInBody m)
    rw [HTTPResponse.eofInBody]
    split
    · exact throws_ok _
    · exact throws_error.2 (Or.inl trivial)

/-- A response parser takes its requests in order, each one complete. -/
instance : ReadyParser ResponseMembers ResponseParserMembers where
  waiting q := ∀ r ∈ q.requests, HTTPMessageState.firstLinePending.rank < r.state.rank
  framing_initialize {m q} hst := by
    change Framing (initializeResponse m q)
    rw [initializeResponse]
    split
    · exact throws_error.2 (Or.inl trivial)
    · exact Throws.bind ((framing_assert_of hst _).bind fun _ _ => throws_pure _) fun _ _ =>
        throws_pure _
  initialize_ready {m m' q q'} hwaiting h := by
    change initializeResponse m q = _ at h
    rw [initializeResponse] at h
    split at h
    · cases h
    · rename_i request requests hrequests
      obtain ⟨m₁, hm₁, h⟩ := bind_eq_ok.1 h
      obtain ⟨_, -, hm₁⟩ := bind_eq_ok.1 hm₁
      cases h
      cases hm₁
      rw [hrequests] at hwaiting
      exact ⟨rfl, rfl, hwaiting request (by simp), fun r hr =>
        hwaiting r (List.mem_cons_of_mem request hr)⟩

open HTTPMessageSequence

/-- The calls on a parser, in the order in which they come. -/
inductive ParserCall where
  | parse (buf : Bytes)
  | newRequestArrived (request : HTTPRequest)
  | pop

/-- A call on a request parser that returns. -/
def HTTPRequestParser.Returned (s : HTTPRequestParser) (call : ParserCall) (s' : HTTPRequestParser) : Prop :=
  match call with
  | .parse buf => s.parse buf = .ok s'
  | .newRequestArrived _ => False
  | .pop => s.pop = .ok s'

/-- A call on a response parser that returns; the requests that arrive are complete. -/
def HTTPResponseParser.Returned (s : HTTPResponseParser) (call : ParserCall) (s' : HTTPResponseParser) :
    Prop :=
  match call with
  | .parse buf => s.parse buf = .ok s'
  | .newRequestArrived request => request.state = .complete ∧
      s' = HTTPResponseParser.newRequestArrived s request
  | .pop => s.pop = .ok s'

/-- What holds of a parser between two calls: the next `parse` ends, and fails no assertion
but one about the framing of a chunk; and the bytes that are left are an unfinished line. -/
structure SafeAt {X Q : Type} [ParserType X Q] (s : HTTPMessageSequence X Q) : Prop where
  ends : ∀ s₀ : HTTPMessageSequence X Q, ∃ r, Returns parseRound s₀ r
  asserts : ∀ buf, Framing (s.parse buf)
  not_complete : s.messageInProgress.state ≠ .complete
  line : s.messageInProgress.state.rank ≤ 1 → find CRLF s.buffer = none
  body : s.messageInProgress.state = .bodyPending → s.buffer = []

/-- A sound parser is safe at the next call, whatever it is. -/
theorem HTTPMessageSequence.Sound.safeAt {X Q : Type} [ParserType X Q] [LawfulParser X Q]
    [ReadyParser X Q] {s : HTTPMessageSequence X Q} (h : s.Sound) : SafeAt s where
  ends s₀ := ⟨_, parseLoop.returns_run s₀⟩
  asserts := h.framing_parse
  not_complete := h.settled.not_complete
  line := h.settled.line
  body := h.settled.body

/-- New parsers are ready. -/
theorem HTTPRequestParser.sound_new : HTTPRequestParser.new.Sound :=
  ⟨⟨HTTPMessage.ready_fresh, trivial, trivial⟩, HTTPRequestParser.settled_new⟩

/-- A new response parser is sound. -/
theorem HTTPResponseParser.sound_new : HTTPResponseParser.new.Sound :=
  ⟨⟨HTTPMessage.ready_fresh, LawfulBody.settled_fresh, fun r hr => by cases hr⟩,
    HTTPResponseParser.settled_pending []⟩

/-- **A call on a request parser** leaves a sound parser. -/
theorem HTTPRequestParser.sound_next {s s' : HTTPRequestParser} {call : ParserCall} (h : s.Sound)
    (hcall : HTTPRequestParser.Returned s call s') : s'.Sound := by
  cases call with
  | parse buf => exact h.parse hcall
  | newRequestArrived request => exact hcall.elim
  | pop => exact h.pop hcall

/-- **A call on a response parser** leaves a sound parser: a request that arrives is
complete, so its first line is known. -/
theorem HTTPResponseParser.sound_next {s s' : HTTPResponseParser} {call : ParserCall} (h : s.Sound)
    (hcall : HTTPResponseParser.Returned s call s') : s'.Sound := by
  cases call with
  | parse buf => exact h.parse hcall
  | newRequestArrived request =>
      obtain ⟨hcomplete, rfl⟩ := hcall
      refine ⟨⟨h.ready.message, h.ready.settled, fun r hr => ?_⟩, h.settled.derived,
        h.settled.not_complete, h.settled.line, h.settled.body⟩
      rcases List.mem_append.1 hr with hr | hr
      · exact h.ready.waiting r hr
      · rw [List.mem_singleton.1 hr, hcomplete]
        decide
  | pop => exact h.pop hcall

/-- **Both parsers are safe after every run of calls:** whatever bytes they are given, and
with an EOF anywhere, `parse` ends and fails no assertion of a message, a response, a request
or a sequence of them. -/
theorem parse_safe (calls : List ParserCall) :
    (∀ s, Run HTTPRequestParser.Returned HTTPRequestParser.new calls s → SafeAt s) ∧
    (∀ s, Run HTTPResponseParser.Returned HTTPResponseParser.new calls s → SafeAt s) ∧
    (∀ inputLength p, ∃ r, Returns (ChunkedBodyParser.readStep inputLength) p r) ∧
    ∀ str separator s, ∃ r, Returns (splitLoop str separator).step s r :=
  ⟨fun _ hrun => (hrun.invariant (fun _ _ _ hs hcall => HTTPRequestParser.sound_next hs hcall)
      HTTPRequestParser.sound_new).safeAt,
    fun _ hrun => (hrun.invariant (fun _ _ _ hs hcall => HTTPResponseParser.sound_next hs hcall)
      HTTPResponseParser.sound_new).safeAt,
    fun inputLength p => ⟨_, (ChunkedBodyParser.readLoop inputLength).returns_run p⟩,
    fun str separator s => ⟨_, (splitLoop str separator).returns_run s⟩⟩

/-- A response whose body is ended by EOF. -/
theorem parse_safe_eof :
    ∃ s : HTTPResponseParser, s.completeMessages.length = 1 ∧
      ∀ buf, Framing (s.parse buf) := by
  let request : HTTPRequest :=
    { firstLine := ascii "GET / HTTP/1.1", state := .complete, derived := {} }
  let response : HTTPResponse :=
    { expectedBodySize := (false, npos), firstLine := ascii "HTTP/1.1 200 OK", body := ascii "ab",
      state := .bodyPending, derived := { request := request, bodyParser := some .rule5 } }
  have hparse : HTTPMessageSequence.parse
      (HTTPResponseParser.newRequestArrived HTTPResponseParser.new request)
      (ascii "HTTP/1.1 200 OK\r\n\r\nab") = .ok { messageInProgress := response, derived := {} } := by
    decide +kernel
  have heof : HTTPMessageSequence.parse
      ({ messageInProgress := response, derived := {} } : HTTPResponseParser) [] = .ok
        { completeMessages := [{ response with state := .complete }], messageInProgress := .fresh,
          derived := {} } := by
    decide +kernel
  have hrun : Run HTTPResponseParser.Returned HTTPResponseParser.new
      [.newRequestArrived request, .parse (ascii "HTTP/1.1 200 OK\r\n\r\nab"), .parse []] _ :=
    .cons ⟨rfl, rfl⟩ (.cons hparse (.cons heof (.nil _)))
  exact ⟨_, rfl, ((parse_safe _).2.1 _ hrun).asserts⟩

end V2Proxy
