/-
# Forwarding responses

A proxy writes `str` of a response to its client.  If the client has the same parser and has
been told of the same requests, it reads the same responses, except for a space more in the
headers that are empty (`forwarded_responses`), whichever framing they have: no body, a known
length, chunks, or a body that ends with the connection, which only the last one may have.

The bytes that the first parser was given are not those that are written: the heads may differ.
Byte by byte (`Forwarding.feed`), once a head has been read, the bytes of `str` so far lead the
second parser to the same state.
-/

import V2Proxy.Http.InformationalResponses
import V2Proxy.Http.RespacedResponses

namespace V2Proxy

open Foundations HTTPMessageSequence

namespace HTTPResponseParser

open HTTPResponse

variable {request : HTTPRequest} {s s' : HTTPResponseParser} {m m' : HTTPResponse}
  {firstLine line b : Bytes} {headers : List HTTPHeader}

/-! ### Reading the body -/

/-- The parser once the bytes in its buffer were read to the body: the response is complete, or
still in progress. -/
def past (s : HTTPResponseParser) (m : HTTPResponse) : HTTPResponseParser :=
  if m.state = .complete then
    { s with buffer := [], completeMessages := s.completeMessages ++ [m], messageInProgress := .fresh }
  else { s with buffer := [], messageInProgress := m }

/-- The body takes all of the bytes, if it can be read. -/
def TakesAll (m : HTTPResponse) (b : Bytes) : Prop := ∀ n m', m.readInBody b = .ok (n, m') → n = b.length

/-- **Bytes of a body,** and what the parser makes of them. -/
theorem run_bodyPending (hst : s.messageInProgress.state = .bodyPending)
    (hall : TakesAll s.messageInProgress s.buffer) :
    parseLoop.run s = s.messageInProgress.readInBody s.buffer >>= fun (_, m) => .ok (s.past m) := by
  rcases hread : s.messageInProgress.readInBody s.buffer with e | ⟨n, m⟩
  · exact run_of_fault (parsingStep_bodyError hst hread)
  change _ = Except.ok (s.past m)
  obtain rfl := hall n m hread
  by_cases hc : m.state = .complete
  · rw [run_of_step (parsingStep_bodyEnd hst hread (Nat.le_refl _) hc),
      run_of_step (parsingStep_complete hc), past, if_pos hc]
    simp only [List.drop_length]
    exact run_noLine (Nat.zero_le 1) find_CRLF_nil
  · rw [run_of_stop (parsingStep_bodyPause hst hread hc), past, if_neg hc]

/-- A body of known length still needs a byte. -/
def Needs (m : HTTPResponse) : Prop := m.expectedBodySize.1 = true → m.body.length < m.expectedBodySize.2

/-- **A body in progress takes a byte.** -/
theorem takesAll_byte (hst : m.state = .bodyPending) (hs : m.derived.Settled) (hneeds : Needs m)
    (c : UInt8) : TakesAll m [c] := by
  intro n m' h
  rcases hsize : m.expectedBodySize with ⟨known, size⟩
  cases known with
  | true =>
      have hlt := hneeds (by rw [hsize])
      rw [hsize] at hlt
      rw [HTTPMessage.readInBody_known hst hsize, assert_of hlt.le, ok_bind] at h
      cases h
      rw [List.length_singleton]
      exact min_eq_right (by dsimp only at hlt; omega)
  | false =>
      rw [HTTPMessage.readInBody_unknown hst (by rw [hsize])] at h
      change readInComplexBody m [c] = _ at h
      rcases hp : m.derived.bodyParser with _ | _ | p
      · rw [readInComplexBody_none hst hp] at h
        cases h
      · rw [readInComplexBody_rule5 hst hp] at h
        cases h
        rfl
      · rw [readInComplexBody_chunked hst hp] at h
        obtain ⟨p' | k, hr, h⟩ := bind_eq_ok.1 h
        · cases h
          rfl
        · cases h
          have hends := (hs p hp).read_ends hr
          rw [List.length_singleton] at hends ⊢
          omega

/-- What is in progress after a read still needs a byte. -/
theorem needs_readInBody {a : Bytes} {n : ℕ} (hst : m.state = .bodyPending)
    (hs : m.derived.Settled) (h : m.readInBody a = .ok (n, m')) (hne : m'.state ≠ .complete) :
    Needs m' := by
  rcases hsize : m.expectedBodySize with ⟨known, size⟩
  cases known with
  | true =>
      rw [HTTPMessage.readInBody_known hst hsize] at h
      obtain ⟨_, hle, h⟩ := bind_eq_ok.1 h
      have hle := assert_eq_ok.1 hle
      cases h
      intro _
      dsimp only at hne ⊢
      rw [hsize]
      split_ifs at hne with hfull
      · exact absurd rfl hne
      · rw [List.length_append, List.length_take] at hfull ⊢
        dsimp only
        omega
  | false =>
      rw [HTTPMessage.readInBody_unknown hst (by rw [hsize])] at h
      obtain ⟨-, ⟨hc, -⟩ | ⟨-, -, hsame⟩⟩ := readInComplexBody_outcome hs hst h
      · exact absurd hc hne
      · intro hknown
        rw [hsame, hsize] at hknown
        cases hknown

/-! ### What is written leads to the same response -/

/-- What is written of a response reads as the respaced response once the connection ends, or
before that if the response was not ended so. -/
structure Forwardable (m : HTTPResponse) : Prop where
  atEof : AnswersAtEof m.request m.serialize (HTTPResponse.respace m)
  answers : m.Delimited → Answers m.request m.serialize (HTTPResponse.respace m)

/-- The bytes of `str` so far lead another parser to the respaced response, in progress. -/
def Copies (m : HTTPResponse) : Prop :=
  (HTTPResponseParser.new.newRequestArrived m.request).feedBytes m.serialize =
    .ok (HTTPResponseParser.at [] (HTTPResponse.respace m))

/-- **The message in progress,** and the buffer behind it.  Once its head is read, another parser
can be brought to the same state by the bytes of `str`. -/
inductive Begun : Bytes → HTTPResponse → Prop
  | line {buffer : Bytes} : find CRLF buffer = none → Begun buffer .fresh
  | headers {buffer firstLine : Bytes} {headers : List HTTPHeader} (request : HTTPRequest) :
      find CRLF buffer = none → find CRLF firstLine = none →
      (∀ header ∈ headers, HTTPHeader.FromLine header) →
      Begun buffer (ofHead request firstLine headers)
  | body {m : HTTPResponse} : m.state = .bodyPending → m.derived.Settled → Needs m → Copies m →
      Begun [] m

/-- **What a parser has in its queue can be forwarded,** and so can what is in progress. -/
structure Forwarding (s : HTTPResponseParser) : Prop where
  queue : ∀ m ∈ s.completeMessages, Forwardable m
  inProgress : Begun s.buffer s.messageInProgress

/-- A new parser has nothing to forward. -/
theorem forwarding_new : HTTPResponseParser.new.Forwarding :=
  ⟨fun _ h => absurd h List.not_mem_nil, .line find_CRLF_nil⟩

/-- A request that is announced changes no response. -/
theorem Forwarding.newRequestArrived (h : s.Forwarding) (request : HTTPRequest) :
    (s.newRequestArrived request).Forwarding := ⟨h.queue, h.inProgress⟩

/-- **The body, or its beginning.** -/
theorem Forwarding.past {m' : HTTPResponse} {n : ℕ} (hqueue : ∀ m ∈ s.completeMessages, Forwardable m)
    (hst : m.state = .bodyPending) (hs : m.derived.Settled) (hall : TakesAll m b)
    (hcopy : (HTTPResponseParser.new.newRequestArrived m.request).feedBytes (m.serialize ++ b) =
      parseLoop.run (HTTPResponseParser.at b (HTTPResponse.respace m)))
    (hread : m.readInBody b = .ok (n, m')) : (s.past m').Forwarding := by
  have hst' : (HTTPResponse.respace m).state = .bodyPending := hst
  have hall' : TakesAll (HTTPResponse.respace m) b := by
    intro k m₁ h
    rw [readInBody_respace hst, hread, ok_bind] at h
    cases h
    exact hall n m' hread
  have hcopied : (HTTPResponseParser.new.newRequestArrived m'.request).feedBytes m'.serialize =
      .ok ((HTTPResponseParser.at b (HTTPResponse.respace m)).past (HTTPResponse.respace m')) := by
    rw [run_bodyPending (s := HTTPResponseParser.at b (HTTPResponse.respace m)) hst' hall'] at hcopy
    change _ = (HTTPResponse.respace m).readInBody b >>= _ at hcopy
    rw [readInBody_respace hst, hread] at hcopy
    rw [serialize_readInBody hst hread, hall n m' hread, List.take_length,
      (readInBody_frame hst hread).1, hcopy]
    rfl
  rw [HTTPResponseParser.past] at hcopied ⊢
  obtain ⟨hs₁, ⟨hc, -⟩ | ⟨hb, -⟩⟩ := HTTPMessage.readInBody_outcome hs hst hread
  · rw [state_respace, if_pos hc] at hcopied
    rw [if_pos hc]
    refine ⟨fun m₁ hm₁ => ?_, .line find_CRLF_nil⟩
    rcases List.mem_append.1 hm₁ with hm₁ | hm₁
    · exact hqueue m₁ hm₁
    · rw [List.mem_singleton.1 hm₁]
      exact ⟨Answers.atEof hcopied, fun _ => hcopied⟩
  · have hne : m'.state ≠ .complete := by
      rw [hb]
      decide
    rw [state_respace, if_neg hne] at hcopied
    rw [if_neg hne]
    exact ⟨hqueue, .body hb hs₁ (needs_readInBody hst hs hread hne) hcopied⟩

/-- A byte behind a line that is not complete completes it, or not. -/
theorem cut_concat {buffer : Bytes} {c : UInt8} (h : find CRLF buffer = none) :
    find CRLF (buffer ++ [c]) = none ∨
      ∃ line, find CRLF line = none ∧ buffer ++ [c] = line ++ CRLF := by
  rcases hi : find CRLF (buffer ++ [c]) with _ | i
  · exact Or.inl rfl
  · have hlt := length_lt_of_find_append h hi
    have hcut := eq_append_of_find hi
    have hend : (buffer ++ [c]).drop (i + CRLF.length) = [] := by
      refine List.drop_eq_nil_of_le ?_
      rw [List.length_append, List.length_singleton]
      omega
    rw [hend, List.append_nil] at hcut
    exact Or.inr ⟨(buffer ++ [c]).take i, find_take_of_find (by decide) hi, hcut⟩

/-- The line ends where it ends. -/
theorem find_line_CRLF (h : find CRLF line = none) : find CRLF (line ++ CRLF) = some line.length := by
  have hline := find_CRLF_line h []
  rwa [List.append_nil] at hline

/-- **The end of the head.** -/
theorem Forwarding.head (hqueue : ∀ m ∈ s.completeMessages, Forwardable m) (hbuffer : s.buffer = [])
    (hfirst : find CRLF firstLine = none) (hheaders : ∀ header ∈ headers, HTTPHeader.FromLine header)
    (hm : (ofHead request firstLine headers).doneWithHeaders = .ok s.messageInProgress)
    (h : parseLoop.run s = .ok s') : s'.Forwarding := by
  obtain ⟨_, -, hcalc⟩ := bind_eq_ok.1 hm
  change calculateExpectedBodySize { ofHead request firstLine headers with state := .bodyPending } = _
    at hcalc
  have hsettled : s.messageInProgress.derived.Settled :=
    calculate_settled (fun p hp => by cases hp) hcalc
  have hrespaced : (ofHead request firstLine (headers.map HTTPHeader.respace)).doneWithHeaders =
      .ok (HTTPResponse.respace s.messageInProgress) := calculate_respace hcalc
  have hframe : s.messageInProgress.state = .bodyPending ∧
      HTTPResponse.request s.messageInProgress = request ∧
      s.messageInProgress.serialize =
        firstLine ++ CRLF ++ headers.flatMap (fun header => header.str ++ CRLF) ++ CRLF := by
    rcases calculate_eq hcalc with ⟨size, heq⟩ | ⟨parser, heq, -⟩
    · rw [heq]
      exact ⟨rfl, rfl, List.append_nil _⟩
    · rw [heq]
      exact ⟨rfl, rfl, List.append_nil _⟩
  obtain ⟨hst, hrequest, hserialize⟩ := hframe
  have hall : TakesAll s.messageInProgress [] := by
    intro n m' hread
    obtain ⟨-, ⟨-, hn⟩ | ⟨-, rfl⟩⟩ := HTTPMessage.readInBody_outcome hsettled hst hread
    · exact Nat.le_zero.1 hn
    · rfl
  rw [run_bodyPending hst (hbuffer.symm ▸ hall), hbuffer] at h
  obtain ⟨⟨n, m'⟩, hread, h⟩ := bind_eq_ok.1 h
  obtain rfl := Except.ok.inj h
  refine Forwarding.past hqueue hst hsettled hall ?_ hread
  rw [List.append_nil, hserialize, hrequest, feedBytes_head hfirst hheaders, hrespaced]
  rfl

/-- A first line is complete: the parser takes up the next request. -/
theorem Forwarding.of_firstLine {messages : List HTTPResponse} {q : ResponseParserMembers}
    (hqueue : ∀ m ∈ messages, Forwardable m) (hline : find CRLF line = none)
    (hs : parseLoop.run ⟨line ++ CRLF, messages, .fresh, q⟩ = .ok s') : s'.Forwarding := by
  have hstep := parsingStep_firstLine (s := ⟨line ++ CRLF, messages, .fresh, q⟩) rfl
    (find_line_CRLF hline)
  dsimp only at hstep
  rw [List.take_left, List.drop_eq_nil_of_le (by rw [List.length_append, length_CRLF])] at hstep
  change _ = initializeResponse .fresh q >>= _ at hstep
  obtain ⟨_ | ⟨request, requests⟩⟩ := q
  · rw [run_of_fault hstep] at hs
    cases hs
  · rw [run_of_step hstep] at hs
    have hstop := run_noLine (s := ⟨[], messages, ofHead request line [], { requests := requests }⟩)
      (Nat.le_refl 1) find_CRLF_nil
    obtain rfl := Except.ok.inj (hstop.symm.trans hs)
    exact ⟨hqueue, .headers request find_CRLF_nil hline fun _ hmem => absurd hmem List.not_mem_nil⟩

/-- A line while headers are pending is a header more, or the head is done. -/
theorem Forwarding.of_headerLine {messages : List HTTPResponse} {q : ResponseParserMembers}
    (hqueue : ∀ m ∈ messages, Forwardable m) (hfirst : find CRLF firstLine = none)
    (hheaders : ∀ header ∈ headers, HTTPHeader.FromLine header) (hline : find CRLF line = none)
    (hs : parseLoop.run ⟨line ++ CRLF, messages, ofHead request firstLine headers, q⟩ = .ok s') :
    s'.Forwarding := by
  have hstep := parsingStep_header
    (s := ⟨line ++ CRLF, messages, ofHead request firstLine headers, q⟩) rfl (find_line_CRLF hline)
  dsimp only at hstep
  rw [List.take_left, List.drop_eq_nil_of_le (by rw [List.length_append, length_CRLF])] at hstep
  rcases hm : (ofHead request firstLine headers).headerLine line with e | m
  · rw [hm] at hstep
    rw [run_of_fault hstep] at hs
    cases hs
  rw [hm, ok_bind] at hstep
  rw [run_of_step hstep] at hs
  rw [HTTPMessage.headerLine] at hm
  split_ifs at hm
  · exact Forwarding.head hqueue rfl hfirst hheaders hm hs
  · obtain ⟨_, -, hm⟩ := bind_eq_ok.1 hm
    obtain ⟨header, hheader, hm⟩ := bind_eq_ok.1 hm
    obtain rfl := Except.ok.inj hm
    have hstop := run_noLine
      (s := ⟨[], messages, ofHead request firstLine (headers ++ [header]), q⟩) (Nat.le_refl 1)
      find_CRLF_nil
    obtain rfl := Except.ok.inj (hstop.symm.trans hs)
    refine ⟨hqueue, .headers request find_CRLF_nil hfirst fun header' hmem => ?_⟩
    rcases List.mem_append.1 hmem with hmem | hmem
    · exact hheaders header' hmem
    · rw [List.mem_singleton.1 hmem]
      exact ⟨line, hline, hheader⟩

/-- **Every byte keeps what can be forwarded.** -/
theorem Forwarding.feed {c : UInt8} (h : s.Forwarding) (hs : s.feed [c] = .ok s') : s'.Forwarding := by
  obtain ⟨buffer, messages, m, q⟩ := s
  obtain ⟨hqueue, hbegun⟩ := h
  dsimp only at hqueue hbegun
  change parseLoop.run ⟨buffer ++ [c], messages, m, q⟩ = _ at hs
  cases hbegun with
  | line hbuffer =>
      rcases cut_concat (c := c) hbuffer with hnone | ⟨line, hline, heq⟩
      · have hstop := run_noLine (s := ⟨buffer ++ [c], messages, .fresh, q⟩) (Nat.zero_le 1) hnone
        obtain rfl := Except.ok.inj (hstop.symm.trans hs)
        exact ⟨hqueue, .line hnone⟩
      · rw [heq] at hs
        exact Forwarding.of_firstLine hqueue hline hs
  | @headers _ firstLine headers request hbuffer hfirst hheaders =>
      rcases cut_concat (c := c) hbuffer with hnone | ⟨line, hline, heq⟩
      · have hstop := run_noLine (s := ⟨buffer ++ [c], messages, ofHead request firstLine headers, q⟩)
          (Nat.le_refl 1) hnone
        obtain rfl := Except.ok.inj (hstop.symm.trans hs)
        exact ⟨hqueue, .headers request hnone hfirst hheaders⟩
      · rw [heq] at hs
        exact Forwarding.of_headerLine hqueue hfirst hheaders hline hs
  | body hst hsettled hneeds hcopies =>
      have hall := takesAll_byte hst hsettled hneeds c
      rw [run_bodyPending hst hall] at hs
      obtain ⟨⟨n, m'⟩, hread, hs⟩ := bind_eq_ok.1 hs
      obtain rfl := Except.ok.inj hs
      refine Forwarding.past hqueue hst hsettled hall ?_ hread
      rw [feedBytes_append, hcopies, ok_bind]
      change List.foldlM _ _ [c] = _
      rw [List.foldlM_cons]
      exact bind_pure _

/-- So does reading byte by byte. -/
theorem Forwarding.feedBytes {w : Bytes} (h : s.Forwarding) (hs : s.feedBytes w = .ok s') :
    s'.Forwarding :=
  foldlM_invariant (fun _ _ _ hs hs' => Forwarding.feed hs hs') h hs

/-- The end of the connection ends a body. -/
theorem parse_eof_body {parser : BodyParser} (hst : s.messageInProgress.state = .bodyPending)
    (hbuffer : s.buffer = []) (hp : s.messageInProgress.derived.bodyParser = some parser) :
    s.parse [] = .ok { s with
      completeMessages := s.completeMessages ++ [{ s.messageInProgress with state := .complete }]
      messageInProgress := .fresh } := by
  have heof : s.messageInProgress.eof = .ok { s.messageInProgress with state := .complete } := by
    rw [HTTPMessage.eof, hst]
    change (eofInBody s.messageInProgress >>= _) = _
    rw [eofInBody, hp, ok_bind]
    cases parser with
    | rule5 => rfl
    | chunked p => rfl
  have hnone : find CRLF s.buffer = none := by
    rw [hbuffer]
    exact find_CRLF_nil
  rw [HTTPMessageSequence.parse, if_pos rfl, heof, ok_bind, HTTPMessageSequence.feed,
    run_of_step (parsingStep_complete rfl)]
  dsimp only
  rw [List.append_nil]
  exact run_noLine (s := ⟨s.buffer, _, .fresh, s.derived⟩) (Nat.zero_le 1) hnone

/-- **So does the end of the connection.** -/
theorem Forwarding.eof (h : s.Forwarding) (hs : s.parse [] = .ok s') : s'.Forwarding := by
  obtain ⟨buffer, messages, m, q⟩ := s
  obtain ⟨hqueue, hbegun⟩ := h
  dsimp only at hqueue hbegun
  cases hbegun with
  | line hbuffer =>
      rw [parse_eof_firstLinePending rfl hbuffer] at hs
      obtain rfl := Except.ok.inj hs
      exact ⟨hqueue, .line hbuffer⟩
  | headers request hbuffer hfirst hheaders => cases hs
  | body hst hsettled hneeds hcopies =>
      rcases hp : m.derived.bodyParser with _ | parser
      · rw [HTTPMessageSequence.parse, if_pos rfl, HTTPMessage.eof] at hs
        dsimp only at hs
        rw [hst] at hs
        change ((eofInBody m >>= _) >>= _) = _ at hs
        rw [eofInBody, hp] at hs
        cases hs
      · rw [parse_eof_body hst rfl hp] at hs
        obtain rfl := Except.ok.inj hs
        refine ⟨fun m₁ hm₁ => ?_, .line find_CRLF_nil⟩
        rcases List.mem_append.1 hm₁ with hm₁ | hm₁
        · exact hqueue m₁ hm₁
        · rw [List.mem_singleton.1 hm₁]
          refine ⟨⟨_, hcopies, ?_⟩, fun hdelimited => ?_⟩
          · exact parse_eof_body (s := HTTPResponseParser.at [] (HTTPResponse.respace m)) hst rfl hp
          · exact absurd hdelimited (by simp [HTTPResponse.Delimited, hp])

/-- **So does a call of `parse`.** -/
theorem Forwarding.parse (h : s.Forwarding) (hsettled : s.Settled) (hlen : b.length ≤ bufferSize)
    (hs : s.parse b = .ok s') : s'.Forwarding := by
  by_cases hnil : b = []
  · subst hnil
    exact h.eof hs
  · rw [parse_of_ne_nil s hnil, hsettled.feed_eq_feedBytes hnil hlen] at hs
    exact h.feedBytes hs

/-! ### Streams of responses -/

/-- Responses that are not ended by the connection are read one after the other. -/
theorem owes_serialize {ms : List HTTPResponse} (h : ∀ m ∈ ms, Forwardable m ∧ m.Delimited) :
    Owes (pending (ms.map HTTPResponse.request)) (ms.map HTTPMessage.serialize).flatten
      (ms.map HTTPResponse.respace) := by
  induction ms using List.reverseRecOn with
  | nil => exact owes_new
  | append_singleton ms m ih =>
      obtain ⟨hms, hm⟩ := List.forall_mem_append.1 h
      obtain ⟨hm, hdelimited⟩ := hm m (List.mem_singleton_self m)
      rw [List.map_append, List.map_append, List.map_append, List.flatten_append, List.map_singleton,
        List.map_singleton, List.map_singleton, List.flatten_singleton]
      exact (ih hms).announce (hm.answers hdelimited)

/-- **So are all of them,** if the connection ends behind the last one. -/
theorem closes_serialize {ms : List HTTPResponse} (h : ∀ m ∈ ms, Forwardable m)
    (hdelimited : ∀ m ∈ ms.dropLast, m.Delimited) (requests : List HTTPRequest) :
    Closes (pending (ms.map HTTPResponse.request ++ requests)) (ms.map HTTPMessage.serialize).flatten
      (ms.map HTTPResponse.respace) := by
  induction requests using List.reverseRecOn with
  | nil =>
      rw [List.append_nil]
      rcases List.eq_nil_or_concat ms with rfl | ⟨ms, m, rfl⟩
      · exact owes_new.closes
      · rw [List.concat_eq_append] at h hdelimited ⊢
        rw [List.dropLast_concat] at hdelimited
        obtain ⟨hms, hm⟩ := List.forall_mem_append.1 h
        have howes := owes_serialize fun m' hm' => ⟨hms m' hm', hdelimited m' hm'⟩
        rw [List.map_append, List.map_append, List.map_append, List.flatten_append,
          List.map_singleton, List.map_singleton, List.map_singleton, List.flatten_singleton]
        exact howes.announceLast (hm m (List.mem_singleton_self m)).atEof
  | append_singleton requests request ih =>
      rw [← List.append_assoc]
      exact ih.newRequestArrived request

/-- **What the client reads,** however the bytes are cut, once the connection is closed. -/
theorem reads_serialize {ms : List HTTPResponse} (h : ∀ m ∈ ms, Forwardable m)
    (hdelimited : ∀ m ∈ ms.dropLast, m.Delimited) {pieces : List Bytes}
    (hp : ∀ p ∈ pieces, p ≠ [] ∧ p.length ≤ bufferSize)
    (hcut : pieces.flatten = (ms.map HTTPMessage.serialize).flatten) (requests : List HTTPRequest) :
    ∃ s s', pieces.foldlM HTTPMessageSequence.parse (pending (ms.map HTTPResponse.request ++ requests)) =
      .ok s ∧ s.parse [] = .ok s' ∧ s'.completeMessages = ms.map HTTPResponse.respace := by
  have hcloses := closes_serialize h hdelimited requests
  rw [← hcut, ← List.append_nil pieces.flatten] at hcloses
  obtain ⟨s, hs, hcloses⟩ := hcloses.readAll hp
  obtain ⟨rest, heof⟩ := hcloses.eof
  exact ⟨s, _, hs, heof, List.append_nil _⟩

end HTTPResponseParser

/-- The response came out of a parser, whatever requests and buffers that was given. -/
def HTTPResponse.Produced (m : HTTPResponse) : Prop :=
  ∃ (events : List ParserEvent) (s : HTTPResponseParser),
    (∀ buffer, .read buffer ∈ events → buffer.length ≤ bufferSize) ∧
    events.foldlM ParserEvent.handle HTTPResponseParser.new = .ok s ∧ m ∈ s.completeMessages

open HTTPResponseParser

/-- **What a parser produces can be forwarded.** -/
theorem HTTPResponse.Produced.forwardable {m : HTTPResponse} (h : m.Produced) : Forwardable m := by
  obtain ⟨events, s, hlen, hs, hm⟩ := h
  have hforwarding : s.Waiting ∧ s.Forwarding := by
    clear hm
    induction events using List.reverseRecOn generalizing s with
    | nil =>
        obtain rfl := Except.ok.inj hs
        exact ⟨waiting_new, forwarding_new⟩
    | append_singleton events event ih =>
        rw [List.foldlM_append] at hs
        obtain ⟨s₁, hs₁, hs⟩ := bind_eq_ok.1 hs
        obtain ⟨hwaiting, hforwarding⟩ :=
          ih s₁ (fun buffer hmem => hlen buffer (List.mem_append_left _ hmem)) hs₁
        rw [List.foldlM_cons] at hs
        obtain ⟨s₂, hs₂, hs⟩ := bind_eq_ok.1 hs
        obtain rfl := Except.ok.inj hs
        cases event with
        | announce request =>
            obtain rfl := Except.ok.inj hs₂
            exact ⟨hwaiting.newRequestArrived request, hforwarding.newRequestArrived request⟩
        | read buffer =>
            have hshort := hlen buffer (List.mem_append_right _ (List.mem_singleton_self _))
            exact ⟨hwaiting.parse hs₂, hforwarding.parse hwaiting.settled hshort hs₂⟩
  exact hforwarding.2.queue m hm

/-- A response is unchanged just if none of its headers is empty. -/
theorem HTTPResponse.respace_eq_iff {m : HTTPResponse} :
    m.respace = m ↔ ∀ header ∈ m.headers, ∃ c ∈ header.value, c ≠ 32 := by
  have hheaders : m.respace = m ↔ m.headers.map HTTPHeader.respace = m.headers := by
    constructor
    · exact fun heq => congrArg HTTPMessage.headers heq
    · intro heq
      rw [HTTPResponse.respace, heq]
  rw [hheaders, map_eq_self_iff]
  simp only [HTTPHeader.respace_eq_iff]

/-- **Forwarding responses yields the same responses just if none of their headers is empty.**  The
responses came out of any parsers, and what is written of them is read by a parser that knows their
requests, cut into any buffers; only the last one may have been ended by the connection. -/
theorem forwarded_responses {ms : List HTTPResponse} (h : ∀ m ∈ ms, m.Produced)
    (hdelimited : ∀ m ∈ ms.dropLast, m.Delimited) {pieces : List Bytes}
    (hp : ∀ p ∈ pieces, p ≠ [] ∧ p.length ≤ bufferSize)
    (hcut : pieces.flatten = (ms.map HTTPMessage.serialize).flatten) (requests : List HTTPRequest) :
    ∃ s s', pieces.foldlM parse (pending (ms.map HTTPResponse.request ++ requests)) = .ok s ∧
      s.parse [] = .ok s' ∧ s'.completeMessages = ms.map HTTPResponse.respace ∧
      (s'.completeMessages = ms ↔
        ∀ m ∈ ms, ∀ header ∈ m.headers, ∃ c ∈ header.value, c ≠ 32) := by
  obtain ⟨s, s', hs, heof, hmessages⟩ :=
    reads_serialize (fun m hm => (h m hm).forwardable) hdelimited hp hcut requests
  refine ⟨s, s', hs, heof, hmessages, ?_⟩
  rw [hmessages, map_eq_self_iff]
  simp only [HTTPResponse.respace_eq_iff]

/-- A request for the root. -/
def getRoot : HTTPRequest where
  expectedBodySize := (true, 0)
  firstLine := ascii "GET / HTTP/1.1"
  state := .complete
  derived := {}

/-- A length, chunks, and a body that ends with the connection. -/
def framings : List ParserEvent := [
  .announce getRoot, .announce getRoot, .announce getRoot,
  .read (ascii "HTTP/1.1 200 OK\r\nContent-Length: 2\r\nVia:\r\n\r\nokHTTP/1.1 200 OK\r\nTransfer-"),
  .read (ascii "Encoding: chunked\r\n\r\n2\r\nok\r\n0\r\n\r\nHTTP/1.1 200 OK\r\n\r\nok"), .read []]

/-- The buffers are short. -/
theorem framings_short {buffer : Bytes} (h : .read buffer ∈ framings) : buffer.length ≤ bufferSize := by
  have hall : ∀ event ∈ framings, ∀ buffer, event = .read buffer → buffer.length ≤ bufferSize := by
    intro event hevent
    simp only [framings, List.mem_cons, List.not_mem_nil, or_false] at hevent
    rcases hevent with rfl | rfl | rfl | rfl | rfl | rfl <;> intro buffer heq <;> cases heq <;>
      decide +kernel
  exact hall _ h buffer rfl

/-- Three responses with different framings, forwarded byte by byte. -/
theorem forwarded_responses_framings : ∃ ms s s',
    ((framings.foldlM ParserEvent.handle HTTPResponseParser.new).map
      HTTPMessageSequence.completeMessages) = .ok ms ∧ ms.length = 3 ∧
    ((ms.map HTTPMessage.serialize).flatten.map fun c => [c]).foldlM parse
      (pending (ms.map HTTPResponse.request ++ [])) = .ok s ∧
    s.parse [] = .ok s' ∧ s'.completeMessages = ms.map HTTPResponse.respace := by
  have hsome : ((framings.foldlM ParserEvent.handle HTTPResponseParser.new).toOption.map fun s =>
      s.completeMessages.map fun m => m.derived.bodyParser.isSome) = some [false, false, true] := by
    decide +kernel
  rcases hrun : framings.foldlM ParserEvent.handle HTTPResponseParser.new with e | s₀
  · rw [hrun] at hsome
    cases hsome
  rw [hrun] at hsome
  have hframed : (s₀.completeMessages.map fun m => m.derived.bodyParser.isSome) = [false, false, true] :=
    Option.some.inj hsome
  have hproduced : ∀ m ∈ s₀.completeMessages, HTTPResponse.Produced m := fun m hm =>
    ⟨framings, s₀, fun _ => framings_short, hrun, hm⟩
  have hdelimited : ∀ m ∈ s₀.completeMessages.dropLast, HTTPResponse.Delimited m := by
    intro m hm
    have hmem := List.mem_map_of_mem (f := fun m : HTTPResponse => m.derived.bodyParser.isSome) hm
    rw [List.map_dropLast, hframed] at hmem
    have hfalse : m.derived.bodyParser.isSome = false := by simpa using hmem
    exact Option.not_isSome_iff_eq_none.1 (by simp [hfalse])
  have hpieces : ∀ p ∈ (s₀.completeMessages.map HTTPMessage.serialize).flatten.map fun c => [c],
      p ≠ [] ∧ p.length ≤ bufferSize := by
    intro p hp
    obtain ⟨c, -, rfl⟩ := List.mem_map.1 hp
    exact ⟨List.cons_ne_nil c [], show 1 ≤ bufferSize by decide⟩
  obtain ⟨s, s', hs, heof, hmessages, -⟩ := forwarded_responses hproduced hdelimited hpieces
    (List.flatMap_singleton' _) []
  have hlength := congrArg List.length hframed
  rw [List.length_map] at hlength
  exact ⟨_, s, s', rfl, hlength, hs, heof, hmessages⟩

end V2Proxy
