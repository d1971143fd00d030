/-
# The request parser and the response parser do not see cuts

A request has no body of unknown length, so it owes nothing.  A response with
the body parser of rule 5 takes whatever comes; with a `ChunkedBodyParser` it is
as seamless as that parser (`ChunkedBodyParser.Settled.read_append`), whose
buffer and counters run next to the buffer of the sequence.  So both parsers
read a stream the same however it is cut (`parse_cut_invariant`).
-/

import V2Proxy.Http.ParserSegmentation

namespace V2Proxy

open Foundations

/-- A request has no body of unknown length. -/
instance : LawfulBody RequestMembers where
  settled _ := True
  settled_fresh := trivial
  calculate_settled _ _ := trivial
  read_outcome _ _ h := by cases h
  read_append _ _ _ := rfl

/-- A request parser does nothing with a new message. -/
instance : LawfulParser RequestMembers RequestParserMembers where
  initialize_settled _ _ := trivial

/-- The members of a response between two pieces: a chunk parser is settled. -/
def ResponseMembers.Settled (x : ResponseMembers) : Prop :=
  ∀ p, x.bodyParser = some (.chunked p) → p.Settled

/-- Setting the length changes nothing else. -/
theorem HTTPMessage.setExpectedBodySize_eq {X : Type} {m m' : HTTPMessage X} {isKnown : Bool}
    {value : ℕ} (h : m.setExpectedBodySize isKnown value = .ok m') :
    m' = { m with expectedBodySize := (isKnown, value) } := by
  obtain ⟨_, -, h⟩ := bind_eq_ok.1 h
  exact (Except.ok.inj h).symm

namespace HTTPResponse

variable {m m' : HTTPResponse} {a b : Bytes} {n : ℕ}

/-- **The length of a response** is known, or there is a new parser for its body. -/
theorem calculate_eq (h : calculateExpectedBodySize m = .ok m') :
    (∃ size, m' = { m with expectedBodySize := (true, size) }) ∨
    ∃ parser, m' = setBodyParser { m with expectedBodySize := (false, npos) } parser ∧
      (parser = .rule5 ∨ ∃ trailersEnabled, parser = .chunked { trailersEnabled }) := by
  obtain ⟨_, -, h⟩ := bind_eq_ok.1 h
  obtain ⟨noBody, -, h⟩ := bind_eq_ok.1 h
  cases noBody with
  | true => exact Or.inl ⟨0, HTTPMessage.setExpectedBodySize_eq h⟩
  | false =>
      obtain ⟨chunked, -, h⟩ := bind_eq_ok.1 h
      cases chunked with
      | true =>
          obtain ⟨m₁, hm₁, h⟩ := bind_eq_ok.1 h
          obtain rfl := HTTPMessage.setExpectedBodySize_eq hm₁
          exact Or.inr ⟨_, (Except.ok.inj h).symm, Or.inr ⟨_, rfl⟩⟩
      | false =>
          simp only [Bool.false_eq_true, if_false] at h
          split_ifs at h with hlength
          · obtain ⟨value, -, h⟩ := bind_eq_ok.1 h
            obtain ⟨size, -, h⟩ := bind_eq_ok.1 h
            exact Or.inl ⟨toUInt64 size, HTTPMessage.setExpectedBodySize_eq h⟩
          · obtain ⟨byteRanges, -, h⟩ := bind_eq_ok.1 h
            cases byteRanges with
            | true => cases h
            | false =>
                obtain ⟨m₁, hm₁, h⟩ := bind_eq_ok.1 h
                obtain rfl := HTTPMessage.setExpectedBodySize_eq hm₁
                exact Or.inr ⟨_, (Except.ok.inj h).symm, Or.inl rfl⟩

/-- The body parser that `calculate_expected_body_size` installs is settled. -/
theorem calculate_settled (hs : m.derived.Settled) (h : calculateExpectedBodySize m = .ok m') :
    m'.derived.Settled := by
  rcases calculate_eq h with ⟨size, rfl⟩ | ⟨parser, rfl, rfl | ⟨trailersEnabled, rfl⟩⟩
  · exact hs
  · intro p hp
    cases hp
  · intro p hp
    cases hp
    exact ChunkedBodyParser.settled_new trailersEnabled

/-- A body up to the end of the connection takes everything. -/
theorem readInComplexBody_rule5 (hst : m.state = .bodyPending)
    (hp : m.derived.bodyParser = some .rule5) :
    readInComplexBody m a =
      .ok (a.length, { m.setBodyParser .rule5 with body := m.body ++ a }) := by
  simp only [readInComplexBody, assert_of hst, ok_bind, hp, BodyParser.read]
  rfl

/-- A chunked body takes what its parser acknowledges. -/
theorem readInComplexBody_chunked {p : ChunkedBodyParser} (hst : m.state = .bodyPending)
    (hp : m.derived.bodyParser = some (.chunked p)) :
    readInComplexBody m a = p.read a >>= fun
      | .npos p => .ok (a.length, { m.setBodyParser (.chunked p) with body := m.body ++ a })
      | .ends n => .ok (n, { m with
          body := m.body ++ a.take n
          state := .complete
          derived := { m.derived with bodyParser := none } }) := by
  simp only [readInComplexBody, assert_of hst, ok_bind, hp, BodyParser.read]
  rcases p.read a with e | p' | n <;> rfl

/-- Without a parser there is no body of unknown length. -/
theorem readInComplexBody_none (hst : m.state = .bodyPending) (hp : m.derived.bodyParser = none) :
    readInComplexBody m a = .error (.assertion (ascii "body_parser_")) := by
  simp only [readInComplexBody, assert_of hst, ok_bind, hp]

/-- A body of unknown length ends within the piece, or takes all of it. -/
theorem readInComplexBody_outcome (hs : m.derived.Settled) (hst : m.state = .bodyPending)
    (h : readInComplexBody m a = .ok (n, m')) :
    m'.derived.Settled ∧ (m'.state = .complete ∧ n ≤ a.length ∨
      m'.state = .bodyPending ∧ n = a.length ∧ m'.expectedBodySize = m.expectedBodySize) := by
  rcases hp : m.derived.bodyParser with _ | _ | p
  · rw [readInComplexBody_none hst hp] at h
    cases h
  · rw [readInComplexBody_rule5 hst hp] at h
    cases h
    refine ⟨fun p hp' => ?_, Or.inr ⟨hst, rfl, rfl⟩⟩
    cases hp'
  · rw [readInComplexBody_chunked hst hp] at h
    obtain ⟨p' | k, hr, h⟩ := bind_eq_ok.1 h
    · cases h
      refine ⟨fun p₁ hp₁ => ?_, Or.inr ⟨hst, rfl, rfl⟩⟩
      cases hp₁
      exact ((hs p hp).read_npos hr).1
    · cases h
      refine ⟨fun p₁ hp₁ => ?_, Or.inl ⟨rfl, ((hs p hp).read_ends hr).2⟩⟩
      cases hp₁

/-- **A body of unknown length is read the same however its bytes are cut.** -/
theorem readInComplexBody_append (hs : m.derived.Settled) (hst : m.state = .bodyPending)
    (hlen : (a ++ b).length ≤ bufferSize) :
    readInComplexBody m (a ++ b) = readInComplexBody m a >>= fun (n, m') =>
      if m'.state = .complete then .ok (n, m')
      else readInComplexBody m' b >>= fun (k, m'') => .ok (a.length + k, m'') := by
  rcases hp : m.derived.bodyParser with _ | _ | p
  · rw [readInComplexBody_none hst hp, readInComplexBody_none hst hp]
    rfl
  · set m₁ : HTTPResponse := { m.setBodyParser .rule5 with body := m.body ++ a } with hm₁
    have hst₁ : m₁.state = .bodyPending := hst
    have hne₁ : m₁.state ≠ .complete := by rw [hst₁]; decide
    rw [readInComplexBody_rule5 hst hp, readInComplexBody_rule5 hst hp, ok_bind]
    change _ = if m₁.state = .complete then .ok (a.length, m₁)
      else readInComplexBody m₁ b >>= fun r => .ok (a.length + r.1, r.2)
    rw [if_neg hne₁, readInComplexBody_rule5 hst₁ rfl, List.length_append]
    simp [hm₁, setBodyParser]
  · rw [readInComplexBody_chunked hst hp, readInComplexBody_chunked hst hp,
      (hs p hp).read_append hlen]
    rcases hr : p.read a with e | p' | n
    · rfl
    · set m₁ : HTTPResponse := { m.setBodyParser (.chunked p') with body := m.body ++ a } with hm₁
      have hst₁ : m₁.state = .bodyPending := hst
      have hne₁ : m₁.state ≠ .complete := by rw [hst₁]; decide
      simp only [ok_bind]
      change _ = if m₁.state = .complete then .ok (a.length, m₁)
        else readInComplexBody m₁ b >>= fun r => .ok (a.length + r.1, r.2)
      rw [if_neg hne₁, readInComplexBody_chunked hst₁ rfl]
      rcases hr' : p'.read b with e | p'' | k
      · rfl
      · simp [ChunkedBodyParser.shift, hm₁, setBodyParser]
      · have htake : (a ++ b).take (a.length + k) = a ++ b.take k := by
          rw [List.take_append, List.take_of_length_le (by omega), Nat.add_sub_cancel_left]
        simp [ChunkedBodyParser.shift, hm₁, setBodyParser, htake]
    · have hle := ((hs p hp).read_ends hr).2
      simp [List.take_append_of_le_length hle]

end HTTPResponse

/-- A response reads its body as its body parser does. -/
instance : LawfulBody ResponseMembers where
  settled := ResponseMembers.Settled
  settled_fresh p hp := by cases hp
  calculate_settled := HTTPResponse.calculate_settled
  read_outcome := HTTPResponse.readInComplexBody_outcome
  read_append := HTTPResponse.readInComplexBody_append

/-- A new message takes over a pending request and keeps its body parser. -/
theorem initializeResponse_settled {m m' : HTTPResponse} {q q' : ResponseParserMembers}
    (hs : m.derived.Settled) (h : initializeResponse m q = .ok (m', q')) :
    m'.derived.Settled := by
  rw [initializeResponse] at h
  split at h
  · cases h
  · obtain ⟨m₁, hm₁, h⟩ := bind_eq_ok.1 h
    obtain ⟨_, -, hm₁⟩ := bind_eq_ok.1 hm₁
    cases h
    cases hm₁
    exact hs

/-- A response parser only gives a new message its request. -/
instance : LawfulParser ResponseMembers ResponseParserMembers where
  initialize_settled := initializeResponse_settled

/-- A new request parser is settled. -/
theorem HTTPRequestParser.settled_new : HTTPRequestParser.new.Settled :=
  ⟨trivial, by decide, fun _ => by decide, fun h => by cases h⟩

/-- `HTTPResponseParser()` after `new_request_arrived` for each of the requests. -/
def HTTPResponseParser.pending (requests : List HTTPRequest) : HTTPResponseParser :=
  { HTTPResponseParser.new with derived := { requests := requests } }

/-- A new response parser is settled, whatever requests wait for a response. -/
theorem HTTPResponseParser.settled_pending (requests : List HTTPRequest) :
    (HTTPResponseParser.pending requests).Settled := by
  refine ⟨fun p hp => ?_, fun h => ?_, fun _ => HTTPMessageSequence.find_CRLF_nil, fun h => ?_⟩
  · cases hp
  · cases h
  · cases h

open HTTPMessageSequence

/-- **Segmentation does not matter to either parser.**  Two ways of cutting one
byte string into buffers that `read` can return give the same complete messages,
the same unparsed bytes and the same message in progress with its chunk parser,
or the same failure. -/
theorem parse_cut_invariant {pieces pieces' : List Bytes}
    (hp : ∀ p ∈ pieces, p ≠ [] ∧ p.length ≤ bufferSize)
    (hp' : ∀ p ∈ pieces', p ≠ [] ∧ p.length ≤ bufferSize)
    (heq : pieces.flatten = pieces'.flatten) :
    pieces.foldlM parse HTTPRequestParser.new = pieces'.foldlM parse HTTPRequestParser.new ∧
    ∀ requests, pieces.foldlM parse (HTTPResponseParser.pending requests) =
      pieces'.foldlM parse (HTTPResponseParser.pending requests) :=
  ⟨HTTPRequestParser.settled_new.foldlM_parse_congr hp hp' heq, fun requests =>
    (HTTPResponseParser.settled_pending requests).foldlM_parse_congr hp hp' heq⟩

/-- A chunk header cut in the middle of a response to a GET request, and the same
bytes in one buffer. -/
theorem parse_cut_invariant_chunkHdr :
    ∃ request : HTTPRequest, HTTPRequestParser.new.parse (ascii "GET / HTTP/1.1\r\n\r\n") =
        .ok { HTTPRequestParser.new with completeMessages := [request] } ∧
      [ascii "HTTP/1.1 200 OK\r\nTransfer-Encoding: chunked\r\n\r\n1", ascii "0\r",
          ascii "\n"].foldlM parse (HTTPResponseParser.pending [request]) =
        [ascii "HTTP/1.1 200 OK\r\nTransfer-Encoding: chunked\r\n\r\n10\r\n"].foldlM parse
          (HTTPResponseParser.pending [request]) ∧
      ([ascii "HTTP/1.1 200 OK\r\nTransfer-Encoding: chunked\r\n\r\n10\r\n"].foldlM parse
          (HTTPResponseParser.pending [request])).toOption.isSome = true :=
  ⟨{ (.fresh : HTTPRequest) with
      firstLine := ascii "GET / HTTP/1.1"
      expectedBodySize := (true, 0)
      state := .complete }, by decide +kernel,
    (parse_cut_invariant (by decide +kernel) (by decide +kernel) (by decide +kernel)).2 _,
    by decide +kernel⟩

end V2Proxy
