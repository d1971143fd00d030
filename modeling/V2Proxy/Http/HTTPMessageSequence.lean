/-
# `HTTPMessageSequence` and the two parsers

`src/http/http_message_sequence.hh`, `src/http/http_request_parser.hh` and
`src/http/http_response_parser.cc`.  `parse` appends a buffer to the bytes not
parsed yet and runs `parsing_step` until it says stop; an empty buffer is EOF.

The loop always ends: a line takes at least its two bytes of CRLF off the
buffer, and a message that is in its body or complete moves on (`measure`).
-/

import V2Proxy.Http.HTTPResponse

namespace V2Proxy

open Foundations

/-- The virtual function of `HTTPMessageSequence`, over the members `Q` of the
derived parser. -/
class ParserType (X : Type) (Q : outParam Type) extends MessageType X where
  initializeNewMessage : HTTPMessage X → Q → Except Fault (HTTPMessage X × Q)

/-- `HTTPRequestParser` adds no members to `HTTPMessageSequence`. -/
structure RequestParserMembers where
deriving DecidableEq

/-- `HTTPRequestParser::initialize_new_message` does nothing. -/
instance : ParserType RequestMembers RequestParserMembers where
  initializeNewMessage m q := .ok (m, q)

/-- `HTTPResponseParser` keeps the requests it has no response for yet. -/
structure ResponseParserMembers where
  requests : List HTTPRequest := []
deriving DecidableEq

/-- `HTTPResponseParser::initialize_new_message`. -/
def initializeResponse (m : HTTPResponse) (q : ResponseParserMembers) :
    Except Fault (HTTPResponse × ResponseParserMembers) := do
  match q.requests with
  | [] => .error (.runtimeError (ascii "HTTPResponseParser: response without matching request"))
  | request :: requests =>
      let m ← HTTPResponse.setRequest m request
      return (m, { requests := requests })

/-- `HTTPResponseParser` gives every new response its request. -/
instance : ParserType ResponseMembers ResponseParserMembers where
  initializeNewMessage := initializeResponse

/-- `HTTPMessageSequence`. -/
structure HTTPMessageSequence (X Q : Type) where
  buffer : Bytes := []
  completeMessages : List (HTTPMessage X) := []
  messageInProgress : HTTPMessage X
  /-- the members of the derived parser -/
  derived : Q
deriving DecidableEq

/-- `HTTPRequestParser`. -/
abbrev HTTPRequestParser := HTTPMessageSequence RequestMembers RequestParserMembers

/-- `HTTPResponseParser`. -/
abbrev HTTPResponseParser := HTTPMessageSequence ResponseMembers ResponseParserMembers

namespace HTTPMessageSequence

/-- `InternalBuffer::have_complete_line`. -/
def haveCompleteLine (buffer : Bytes) : Bool := (find CRLF buffer).isSome

/-- `InternalBuffer::pop_bytes`. -/
def popBytes (buffer : Bytes) (num : ℕ) : Except Fault Bytes := do
  assert (num ≤ buffer.length) "buffer_.size() >= num"
  return buffer.drop num

/-- `InternalBuffer::get_and_pop_line`: the line and the buffer after it. -/
def getAndPopLine (buffer : Bytes) : Except Fault (Bytes × Bytes) :=
  match find CRLF buffer with
  | none => .error (.assertion (ascii "first_line_ending != std::string::npos"))
  | some firstLineEnding => do
      let rest ← popBytes buffer (firstLineEnding + CRLF.length)
      return (buffer.take firstLineEnding, rest)

/-- The line that is taken ends at the first CRLF. -/
theorem getAndPopLine_of_find {buffer : Bytes} {i : ℕ} (h : find CRLF buffer = some i) :
    getAndPopLine buffer = .ok (buffer.take i, buffer.drop (i + 2)) := by
  have hle := add_length_le_of_find h
  simp only [getAndPopLine, h, popBytes, assert_of hle, ok_bind]
  rfl

/-- The line in front of the buffer. -/
theorem take_line (line rest : Bytes) : (line ++ (CRLF ++ rest)).take line.length = line :=
  List.take_left

/-- What is behind the line. -/
theorem drop_line (line rest : Bytes) :
    (line ++ (CRLF ++ rest)).drop (line.length + 2) = rest := by
  rw [← List.append_assoc, ← length_CRLF, ← List.length_append, List.drop_left]

variable {X Q : Type} [ParserType X Q]

/-- `HTTPMessageSequence::parsing_step`: whether to continue, and the parser. -/
def parsingStep (s : HTTPMessageSequence X Q) : Except Fault (Bool × HTTPMessageSequence X Q) :=
  match s.messageInProgress.state with
  | .firstLinePending => do
      if haveCompleteLine s.buffer = false then return (false, s)
      else
        let (m, q) ← ParserType.initializeNewMessage s.messageInProgress s.derived
        let (line, rest) ← getAndPopLine s.buffer
        let m ← m.setFirstLine line
        return (true, { s with buffer := rest, messageInProgress := m, derived := q })
  | .headersPending => do
      if haveCompleteLine s.buffer = false then return (false, s)
      else
        let (line, rest) ← getAndPopLine s.buffer
        let m ← s.messageInProgress.headerLine line
        return (true, { s with buffer := rest, messageInProgress := m })
  | .bodyPending => do
      let (bytesRead, m) ← s.messageInProgress.readInBody s.buffer
      assert (bytesRead = s.buffer.length ∨ m.state = .complete)
        "bytes_read == buffer_.str().size() or message_in_progress_.state() == COMPLETE"
      let rest ← popBytes s.buffer bytesRead
      return (m.state = .complete, { s with buffer := rest, messageInProgress := m })
  | .complete =>
      return (true, { s with
        completeMessages := s.completeMessages ++ [s.messageInProgress]
        messageInProgress := .fresh })

/-- The loop body of `HTTPMessageSequence::parse`. -/
def parseRound (s : HTTPMessageSequence X Q) :
    Except Fault (HTTPMessageSequence X Q ⊕ HTTPMessageSequence X Q) := do
  let (continues, s') ← s.parsingStep
  return if continues then .inl s' else .inr s'

/-- A line costs two bytes, a body and a completed message one rank each. -/
def measure (s : HTTPMessageSequence X Q) : ℕ :=
  3 * s.buffer.length +
    match s.messageInProgress.state with
    | .firstLinePending | .headersPending => 0
    | .bodyPending => 2
    | .complete => 1

/-- `pop_bytes` drops bytes that are there. -/
theorem popBytes_eq_ok {buffer rest : Bytes} {num : ℕ} :
    popBytes buffer num = .ok rest ↔ num ≤ buffer.length ∧ rest = buffer.drop num := by
  constructor
  · intro h
    obtain ⟨u, hu, h⟩ := bind_eq_ok.1 h
    exact ⟨assert_eq_ok.1 hu, (Except.ok.inj h).symm⟩
  · rintro ⟨h, rfl⟩
    rw [popBytes, assert_of h]
    rfl

variable {s s' : HTTPMessageSequence X Q}

/-- Without a complete line there is nothing to do. -/
theorem parsingStep_noLine (hst : s.messageInProgress.state.rank ≤ 1)
    (h : find CRLF s.buffer = none) : s.parsingStep = .ok (false, s) := by
  cases hs : s.messageInProgress.state <;> rw [hs] at hst
  case bodyPending | complete => simp [HTTPMessageState.rank] at hst
  all_goals
    simp only [parsingStep, hs, haveCompleteLine, h, Option.isSome_none, if_true]
    rfl

/-- The first line of a message. -/
theorem parsingStep_firstLine {i : ℕ} (hst : s.messageInProgress.state = .firstLinePending)
    (h : find CRLF s.buffer = some i) :
    s.parsingStep = (do
      let (m, q) ← ParserType.initializeNewMessage s.messageInProgress s.derived
      let m ← m.setFirstLine (s.buffer.take i)
      return (true, { s with buffer := s.buffer.drop (i + 2), messageInProgress := m, derived := q })) := by
  simp only [parsingStep, hst, haveCompleteLine, h, Option.isSome_some, reduceCtorEq, if_false,
    getAndPopLine_of_find h, ok_bind]

/-- A header line, or the empty line behind the headers. -/
theorem parsingStep_header {i : ℕ} (hst : s.messageInProgress.state = .headersPending)
    (h : find CRLF s.buffer = some i) :
    s.parsingStep = (do
      let m ← s.messageInProgress.headerLine (s.buffer.take i)
      return (true, { s with buffer := s.buffer.drop (i + 2), messageInProgress := m })) := by
  simp only [parsingStep, hst, haveCompleteLine, h, Option.isSome_some, reduceCtorEq, if_false,
    getAndPopLine_of_find h, ok_bind]

/-- A part of the body. -/
theorem parsingStep_body (hst : s.messageInProgress.state = .bodyPending) :
    s.parsingStep = (do
      let (bytesRead, m) ← s.messageInProgress.readInBody s.buffer
      assert (bytesRead = s.buffer.length ∨ m.state = .complete)
        "bytes_read == buffer_.str().size() or message_in_progress_.state() == COMPLETE"
      let rest ← popBytes s.buffer bytesRead
      return (m.state = .complete, { s with buffer := rest, messageInProgress := m })) := by
  simp only [parsingStep, hst]

/-- What the body step makes of `read_in_body`: whether to go on, and the bytes
that are left. -/
def afterBody (buffer : Bytes) (bytesRead : ℕ) (m : HTTPMessage X) : Except Fault (Bool × Bytes) := do
  assert (bytesRead = buffer.length ∨ m.state = .complete)
    "bytes_read == buffer_.str().size() or message_in_progress_.state() == COMPLETE"
  let rest ← popBytes buffer bytesRead
  return (m.state = .complete, rest)

/-- The body step in two parts. -/
theorem parsingStep_afterBody (hst : s.messageInProgress.state = .bodyPending) :
    s.parsingStep = s.messageInProgress.readInBody s.buffer >>= fun (bytesRead, m) =>
      afterBody s.buffer bytesRead m >>= fun (continues, rest) =>
        .ok (continues, { s with buffer := rest, messageInProgress := m }) := by
  rw [parsingStep_body hst]
  rcases s.messageInProgress.readInBody s.buffer with e | ⟨n, m⟩
  · rfl
  · simp only [ok_bind, afterBody]
    rcases assert _ _ with e | u
    · rfl
    · rcases popBytes s.buffer n with e | rest <;> rfl

/-- A body that cannot be read. -/
theorem parsingStep_bodyError {e : Fault} (hst : s.messageInProgress.state = .bodyPending)
    (hm : s.messageInProgress.readInBody s.buffer = .error e) : s.parsingStep = .error e := by
  rw [parsingStep_body hst, hm]
  rfl

/-- A body that is complete after `n` bytes of the buffer. -/
theorem parsingStep_bodyEnd {n : ℕ} {m : HTTPMessage X}
    (hst : s.messageInProgress.state = .bodyPending)
    (hm : s.messageInProgress.readInBody s.buffer = .ok (n, m)) (hn : n ≤ s.buffer.length)
    (hc : m.state = .complete) :
    s.parsingStep =
      .ok (true, { s with buffer := s.buffer.drop n, messageInProgress := m }) := by
  rw [parsingStep_body hst, hm]
  simp only [ok_bind, assert_of (Or.inr hc), popBytes, assert_of hn, decide_eq_true hc]
  rfl

/-- A body that takes the whole buffer and is not complete. -/
theorem parsingStep_bodyPause {m : HTTPMessage X}
    (hst : s.messageInProgress.state = .bodyPending)
    (hm : s.messageInProgress.readInBody s.buffer = .ok (s.buffer.length, m))
    (hne : m.state ≠ .complete) :
    s.parsingStep = .ok (false, { s with buffer := [], messageInProgress := m }) := by
  have hall : s.buffer.length = s.buffer.length ∨ m.state = .complete := Or.inl rfl
  have hpop : popBytes s.buffer s.buffer.length = .ok [] :=
    popBytes_eq_ok.2 ⟨le_rfl, List.drop_length.symm⟩
  rw [parsingStep_body hst, hm, ok_bind]
  dsimp only
  rw [assert_of hall, ok_bind, hpop, ok_bind, decide_eq_false hne]
  rfl

/-- A complete message goes to the queue. -/
theorem parsingStep_complete (hst : s.messageInProgress.state = .complete) :
    s.parsingStep = .ok (true, { s with
      completeMessages := s.completeMessages ++ [s.messageInProgress]
      messageInProgress := .fresh }) := by
  simp only [parsingStep, hst]
  rfl

/-- A round of `parse` that goes on, by the state of the message in progress. -/
inductive Round : HTTPMessageSequence X Q → HTTPMessageSequence X Q → Prop
  | firstLine {s : HTTPMessageSequence X Q} {i : ℕ} {m m' : HTTPMessage X} {q : Q} :
      s.messageInProgress.state = .firstLinePending → find CRLF s.buffer = some i →
      ParserType.initializeNewMessage s.messageInProgress s.derived = .ok (m, q) →
      m.setFirstLine (s.buffer.take i) = .ok m' →
      Round s { s with buffer := s.buffer.drop (i + 2), messageInProgress := m', derived := q }
  | header {s : HTTPMessageSequence X Q} {i : ℕ} {m : HTTPMessage X} :
      s.messageInProgress.state = .headersPending → find CRLF s.buffer = some i →
      s.messageInProgress.headerLine (s.buffer.take i) = .ok m →
      Round s { s with buffer := s.buffer.drop (i + 2), messageInProgress := m }
  | body {s : HTTPMessageSequence X Q} {n : ℕ} {m : HTTPMessage X} :
      s.messageInProgress.state = .bodyPending →
      s.messageInProgress.readInBody s.buffer = .ok (n, m) → n ≤ s.buffer.length →
      m.state = .complete →
      Round s { s with buffer := s.buffer.drop n, messageInProgress := m }
  | complete {s : HTTPMessageSequence X Q} :
      s.messageInProgress.state = .complete →
      Round s { s with
        completeMessages := s.completeMessages ++ [s.messageInProgress]
        messageInProgress := .fresh }

/-- A round that stops: no complete line, or a body that takes all bytes and is
not complete. -/
inductive Pause : HTTPMessageSequence X Q → HTTPMessageSequence X Q → Prop
  | line {s : HTTPMessageSequence X Q} :
      s.messageInProgress.state.rank ≤ 1 → find CRLF s.buffer = none → Pause s s
  | body {s : HTTPMessageSequence X Q} {m : HTTPMessage X} :
      s.messageInProgress.state = .bodyPending →
      s.messageInProgress.readInBody s.buffer = .ok (s.buffer.length, m) →
      m.state ≠ .complete →
      Pause s { s with buffer := [], messageInProgress := m }

/-- **What `parsing_step` can do**, whichever way it answers. -/
theorem parsingStep_cases {go : Bool} (h : s.parsingStep = .ok (go, s')) :
    go = true ∧ Round s s' ∨ go = false ∧ Pause s s' := by
  cases hst : s.messageInProgress.state with
  | firstLinePending =>
      rcases hi : find CRLF s.buffer with _ | i
      · rw [parsingStep_noLine (by rw [hst]; decide) hi] at h
        cases h
        exact Or.inr ⟨rfl, .line (by rw [hst]; decide) hi⟩
      · rw [parsingStep_firstLine hst hi] at h
        obtain ⟨⟨m, q⟩, hm, h⟩ := bind_eq_ok.1 h
        obtain ⟨m', hm', h⟩ := bind_eq_ok.1 h
        cases h
        exact Or.inl ⟨rfl, .firstLine hst hi hm hm'⟩
  | headersPending =>
      rcases hi : find CRLF s.buffer with _ | i
      · rw [parsingStep_noLine (by rw [hst]; decide) hi] at h
        cases h
        exact Or.inr ⟨rfl, .line (by rw [hst]; decide) hi⟩
      · rw [parsingStep_header hst hi] at h
        obtain ⟨m, hm, h⟩ := bind_eq_ok.1 h
        cases h
        exact Or.inl ⟨rfl, .header hst hi hm⟩
  | bodyPending =>
      rw [parsingStep_body hst] at h
      obtain ⟨⟨n, m⟩, hm, h⟩ := bind_eq_ok.1 h
      obtain ⟨u, hall, h⟩ := bind_eq_ok.1 h
      obtain ⟨rest, hrest, h⟩ := bind_eq_ok.1 h
      obtain ⟨hn, rfl⟩ := popBytes_eq_ok.1 hrest
      cases h
      by_cases hc : m.state = .complete
      · exact Or.inl ⟨decide_eq_true hc, .body hst hm hn hc⟩
      · refine Or.inr ⟨decide_eq_false hc, ?_⟩
        obtain rfl := (assert_eq_ok.1 hall).resolve_right hc
        simpa using Pause.body hst hm hc
  | complete =>
      rw [parsingStep_complete hst] at h
      cases h
      exact Or.inl ⟨rfl, .complete hst⟩

/-- The rounds that go on. -/
theorem parseRound_next (h : s.parseRound = .ok (.inl s')) : Round s s' := by
  obtain ⟨⟨go, s₁⟩, hs, h⟩ := bind_eq_ok.1 h
  rcases parsingStep_cases hs with ⟨rfl, hr⟩ | ⟨rfl, -⟩ <;> cases h
  exact hr

/-- The rounds that stop. -/
theorem parseRound_leave (h : s.parseRound = .ok (.inr s')) : Pause s s' := by
  obtain ⟨⟨go, s₁⟩, hs, h⟩ := bind_eq_ok.1 h
  rcases parsingStep_cases hs with ⟨rfl, -⟩ | ⟨rfl, hp⟩ <;> cases h
  exact hp

/-- Every round of `parse` that goes on brings the end nearer. -/
theorem Round.measure_lt (h : Round s s') : s'.measure < s.measure := by
  have hrank : ∀ st : HTTPMessageState, (match st with
      | .firstLinePending | .headersPending => 0
      | .bodyPending => 2
      | .complete => 1 : ℕ) ≤ 2 := by
    intro st
    cases st <;> decide
  cases h with
  | firstLine hst hi _ _ =>
      rename_i i m m' q _ _
      have hle := add_length_le_of_find hi
      have := hrank m'.state
      simp only [measure, List.length_drop, length_CRLF] at hle ⊢
      omega
  | header hst hi _ =>
      rename_i i m _
      have hle := add_length_le_of_find hi
      have := hrank m.state
      simp only [measure, List.length_drop, length_CRLF] at hle ⊢
      omega
  | body hst _ hn hc =>
      simp only [measure, List.length_drop, hst, hc]
      omega
  | complete hst =>
      simp only [measure, hst, HTTPMessage.fresh]
      omega

/-- The loop of `HTTPMessageSequence::parse`. -/
def parseLoop : Loop Fault (HTTPMessageSequence X Q) (HTTPMessageSequence X Q) where
  step := parseRound
  measure := measure
  decreases h := (parseRound_next h).measure_lt

/-- A round that goes on leaves the outcome of the loop as it is. -/
theorem run_of_step (h : s.parsingStep = .ok (true, s')) : parseLoop.run s = parseLoop.run s' := by
  refine Loop.run_of_next ?_
  change (s.parsingStep >>= _) = _
  rw [h]
  rfl

/-- A round that stops ends the loop. -/
theorem run_of_stop (h : s.parsingStep = .ok (false, s')) : parseLoop.run s = .ok s' := by
  refine Loop.run_of_leave ?_
  change (s.parsingStep >>= _) = _
  rw [h]
  rfl

/-- So does a round that fails. -/
theorem run_of_fault {e : Fault} (h : s.parsingStep = .error e) : parseLoop.run s = .error e := by
  refine Loop.run_of_error ?_
  change (s.parsingStep >>= _) = _
  rw [h]
  rfl

/-- Append bytes to the internal buffer and parse as much as possible. -/
def feed (s : HTTPMessageSequence X Q) (buf : Bytes) : Except Fault (HTTPMessageSequence X Q) :=
  parseLoop.run { s with buffer := s.buffer ++ buf }

/-- `HTTPMessageSequence::parse`. -/
def parse (s : HTTPMessageSequence X Q) (buf : Bytes) : Except Fault (HTTPMessageSequence X Q) :=
  if buf = [] then do
    let m ← s.messageInProgress.eof
    feed { s with messageInProgress := m } buf
  else feed s buf

/-- `HTTPMessageSequence::empty`. -/
def empty (s : HTTPMessageSequence X Q) : Bool := s.completeMessages = []

/-- `HTTPMessageSequence::front`.  `std::queue` gives no meaning to it when the
queue is empty. -/
def front (s : HTTPMessageSequence X Q) : Except Fault (HTTPMessage X) :=
  match s.completeMessages with
  | m :: _ => .ok m
  | [] => .error (.undefinedBehaviour (ascii "std::queue::front"))

/-- `HTTPMessageSequence::pop`. -/
def pop (s : HTTPMessageSequence X Q) : Except Fault (HTTPMessageSequence X Q) :=
  match s.completeMessages with
  | _ :: rest => .ok { s with completeMessages := rest }
  | [] => .error (.undefinedBehaviour (ascii "std::queue::pop"))

end HTTPMessageSequence

/-- `HTTPRequestParser()`. -/
def HTTPRequestParser.new : HTTPRequestParser := { messageInProgress := .fresh, derived := {} }

/-- `HTTPResponseParser()`. -/
def HTTPResponseParser.new : HTTPResponseParser := { messageInProgress := .fresh, derived := {} }

/-- `HTTPResponseParser::new_request_arrived`. -/
def HTTPResponseParser.newRequestArrived (s : HTTPResponseParser) (request : HTTPRequest) :
    HTTPResponseParser :=
  { s with derived := { requests := s.derived.requests ++ [request] } }

end V2Proxy
