/-
# The head of a response, read again

`str` puts a space behind the colon of each header, so an empty header grows by one when a
response is read again (`HTTPResponse.respace`), as it does in a request.  The framing stays
what it is: by the same rule of RFC 2616 the body has the same length, or the same parser
(`calculate_respace`); and the bytes of a body are read the same (`readInBody_respace`).

A parser that waits for the response to a request reads the head of `str` as the respaced head,
line by line and however long it is (`feedBytes_head`).
-/

import V2Proxy.Http.Forwarding
import V2Proxy.Http.ResponseStream
import V2Proxy.Http.Tokens

namespace V2Proxy

open Foundations HTTPMessageSequence

/-- A string without the separator is one token. -/
theorem split_of_not_mem {str : Bytes} {c : UInt8} (h : c ∉ str) : split str [c] = .ok [str] := by
  have hfind : find [c] str = none := by
    refine find_eq_none_iff.2 fun hinfix => h ?_
    exact hinfix.subset (List.mem_singleton_self c)
  have hrun : (splitLoop str [c]).run (0, []) = .ok [] := by
    refine Loop.run_of_leave ?_
    simp only [splitLoop, findFrom, Nat.zero_le, if_true, List.drop_zero, hfind, Option.map_none]
  rw [split, hrun, ok_bind]
  rfl

namespace HTTPHeader

/-- An empty header grows by a space, before and after. -/
theorem value_respace (header : HTTPHeader) :
    header.respace.value = header.value ∨
      stripSpaces header.value = [] ∧ header.respace.value = 32 :: header.value := by
  rw [respace]
  split_ifs with h
  · exact Or.inr ⟨h, rfl⟩
  · exact Or.inl rfl

end HTTPHeader

namespace HTTPResponse

/-- What the next parser makes of the response. -/
def respace (m : HTTPResponse) : HTTPResponse := { m with headers := m.headers.map HTTPHeader.respace }

/-- The response was not ended by the connection: its body parser, if it had one, has done. -/
def Delimited (m : HTTPResponse) : Prop := m.derived.bodyParser = none

/-- A space more does not change the state. -/
@[simp] theorem state_respace (m : HTTPResponse) : m.respace.state = m.state := rfl

variable {m m' : HTTPResponse} {name value : Bytes}

/-! ### The headers fix the same body -/

/-- Nor which headers there are. -/
theorem hasHeader_respace (m : HTTPResponse) (name : Bytes) :
    m.respace.hasHeader name = m.hasHeader name := by
  simp [HTTPMessage.hasHeader, respace, List.any_map, Function.comp_def]

/-- The value of a header is the same, or it is nothing but spaces. -/
theorem getHeaderValue_respace (h : m.getHeaderValue name = .ok value) :
    m.respace.getHeaderValue name = .ok value ∨
      stripSpaces value = [] ∧ m.respace.getHeaderValue name = .ok (32 :: value) := by
  rw [HTTPMessage.getHeaderValue] at h
  split at h
  · rename_i header hfind
    obtain rfl := Except.ok.inj h
    have hfind' : m.respace.headers.find? (fun header => equivalentStrings header.key name) =
        some header.respace := by
      rw [respace, List.find?_map]
      simp only [Function.comp_def, HTTPHeader.key_respace]
      rw [hfind]
      rfl
    rw [HTTPMessage.getHeaderValue, hfind']
    dsimp only
    rcases header.value_respace with heq | ⟨hnil, heq⟩
    · exact Or.inl (by rw [heq])
    · exact Or.inr ⟨hnil, by rw [heq]⟩
  · cases h

/-- Nothing but spaces is equivalent to nothing else. -/
theorem equivalentStrings_spaces (h : stripSpaces value = []) (hname : stripSpaces name ≠ []) :
    equivalentStrings value name = false := by
  rw [equivalentStrings, h, List.map_nil, decide_eq_false_iff_not]
  exact fun heq => hname (List.map_eq_nil_iff.1 heq.symm)

/-- In a value of spaces, there is nothing else. -/
theorem not_mem_of_stripSpaces {c : UInt8} (h : stripSpaces value = []) (hc : c ≠ 32) : c ∉ value :=
  fun hmem => hc (stripSpaces_eq_nil.1 h c hmem)

/-- Nor whether the body is chunked. -/
theorem isChunked_respace {b : Bool} (h : m.isChunked = .ok b) : m.respace.isChunked = .ok b := by
  rw [isChunked] at h ⊢
  rw [hasHeader_respace]
  split_ifs at h ⊢ with hhas
  · obtain ⟨value, hvalue, h⟩ := bind_eq_ok.1 h
    rcases getHeaderValue_respace hvalue with hvalue' | ⟨hnil, hvalue'⟩
    · rw [hvalue', ok_bind]
      exact h
    · have hnil' : stripSpaces (32 :: value) = [] := hnil
      have hchunked : stripSpaces (ascii "chunked") ≠ [] := by decide
      rw [ascii_comma, split_of_not_mem (not_mem_of_stripSpaces hnil (by decide)), ok_bind] at h
      rw [hvalue', ok_bind, ascii_comma,
        split_of_not_mem (not_mem_of_stripSpaces hnil' (by decide)), ok_bind]
      rw [← h]
      change Except.ok (equivalentStrings (32 :: value) _) = Except.ok (equivalentStrings value _)
      rw [equivalentStrings_spaces hnil hchunked, equivalentStrings_spaces hnil' hchunked]
  · exact h

/-- Nor whether it is of byte ranges. -/
theorem isByteRanges_respace {b : Bool} (h : m.isByteRanges = .ok b) :
    m.respace.isByteRanges = .ok b := by
  rw [isByteRanges] at h ⊢
  rw [hasHeader_respace]
  split_ifs at h ⊢ with hhas
  · obtain ⟨value, hvalue, h⟩ := bind_eq_ok.1 h
    rcases getHeaderValue_respace hvalue with hvalue' | ⟨hnil, hvalue'⟩
    · rw [hvalue', ok_bind]
      exact h
    · have hnil' : stripSpaces (32 :: value) = [] := hnil
      have hranges : stripSpaces (ascii "multipart/byteranges") ≠ [] := by decide
      obtain ⟨type, htype, h⟩ := bind_eq_ok.1 h
      rw [mimeType, ascii_semicolon, split_of_not_mem (not_mem_of_stripSpaces hnil (by decide)),
        ok_bind] at htype
      rw [hvalue', ok_bind, mimeType, ascii_semicolon,
        split_of_not_mem (not_mem_of_stripSpaces hnil' (by decide)), ok_bind, ← h]
      rcases value with _ | ⟨c, value⟩
      · cases htype
      · obtain rfl := Except.ok.inj htype
        change Except.ok (equivalentStrings (32 :: c :: value) _) =
          Except.ok (equivalentStrings (c :: value) _)
        rw [equivalentStrings_spaces hnil hranges, equivalentStrings_spaces hnil' hranges]
  · exact h

/-- Nor the size of the body. -/
theorem setExpectedBodySize_respace {isKnown : Bool} {size : ℕ}
    (h : m.setExpectedBodySize isKnown size = .ok m') :
    m.respace.setExpectedBodySize isKnown size = .ok m'.respace := by
  obtain ⟨_, hst, h⟩ := bind_eq_ok.1 h
  have hst : m.respace.state = .bodyPending := assert_eq_ok.1 hst
  obtain rfl := Except.ok.inj h
  rw [HTTPMessage.setExpectedBodySize, assert_of hst, ok_bind]
  rfl

/-- **Respacing keeps the framing:** by the same rule, the same length or the same parser. -/
theorem calculate_respace (h : calculateExpectedBodySize m = .ok m') :
    calculateExpectedBodySize m.respace = .ok m'.respace := by
  obtain ⟨_, hst, h⟩ := bind_eq_ok.1 h
  have hst : m.respace.state = .bodyPending := assert_eq_ok.1 hst
  obtain ⟨noBody, hnoBody, h⟩ := bind_eq_ok.1 h
  have hnoBody : m.respace.hasNoBody = .ok noBody := hnoBody
  rw [calculateExpectedBodySize, assert_of hst, ok_bind, hnoBody, ok_bind]
  cases noBody with
  | true => exact setExpectedBodySize_respace h
  | false =>
      obtain ⟨chunked, hchunked, h⟩ := bind_eq_ok.1 h
      simp only [Bool.false_eq_true, if_false, isChunked_respace hchunked, ok_bind]
      cases chunked with
      | true =>
          obtain ⟨m₁, hm₁, h⟩ := bind_eq_ok.1 h
          obtain rfl := Except.ok.inj h
          simp only [if_true, setExpectedBodySize_respace hm₁, ok_bind, hasHeader_respace]
          rfl
      | false =>
          simp only [Bool.false_eq_true, if_false, hasHeader_respace] at h ⊢
          split_ifs at h ⊢ with hlength
          · obtain ⟨value, hvalue, h⟩ := bind_eq_ok.1 h
            obtain ⟨size, hsize, h⟩ := bind_eq_ok.1 h
            rcases getHeaderValue_respace hvalue with hvalue' | ⟨hnil, -⟩
            · rw [hvalue', ok_bind, hsize, ok_bind]
              exact setExpectedBodySize_respace h
            · exact absurd hsize (myatoi_spaces hnil 10)
          · obtain ⟨byteRanges, hranges, h⟩ := bind_eq_ok.1 h
            rw [isByteRanges_respace hranges, ok_bind]
            cases byteRanges with
            | true => cases h
            | false =>
                obtain ⟨m₁, hm₁, h⟩ := bind_eq_ok.1 h
                obtain rfl := Except.ok.inj h
                simp only [Bool.false_eq_true, if_false, setExpectedBodySize_respace hm₁, ok_bind]
                rfl

/-- **The bytes of a body are read the same.** -/
theorem readInBody_respace (hst : m.state = .bodyPending) (a : Bytes) :
    m.respace.readInBody a = m.readInBody a >>= fun (n, m') => .ok (n, respace m') := by
  have hst' : m.respace.state = .bodyPending := hst
  rcases hsize : m.expectedBodySize with ⟨known, size⟩
  have hsize' : m.respace.expectedBodySize = (known, size) := hsize
  cases known with
  | true =>
      rw [HTTPMessage.readInBody_known hst hsize, HTTPMessage.readInBody_known hst' hsize']
      by_cases hfits : m.body.length ≤ size
      · have hfits' : m.respace.body.length ≤ size := hfits
        rw [assert_of hfits, assert_of hfits']
        rfl
      · have hfits' : ¬ m.respace.body.length ≤ size := hfits
        rw [assert_of_not hfits, assert_of_not hfits']
        rfl
  | false =>
      rw [HTTPMessage.readInBody_unknown hst (by rw [hsize]),
        HTTPMessage.readInBody_unknown hst' (by rw [hsize'])]
      change readInComplexBody m.respace a = readInComplexBody m a >>= _
      rcases hp : m.derived.bodyParser with _ | _ | p
      · have hp' : m.respace.derived.bodyParser = none := hp
        rw [readInComplexBody_none hst hp, readInComplexBody_none hst' hp']
        rfl
      · have hp' : m.respace.derived.bodyParser = some .rule5 := hp
        rw [readInComplexBody_rule5 hst hp, readInComplexBody_rule5 hst' hp']
        rfl
      · have hp' : m.respace.derived.bodyParser = some (.chunked p) := hp
        rw [readInComplexBody_chunked hst hp, readInComplexBody_chunked hst' hp']
        rcases p.read a with e | p' | n
        · rfl
        · rfl
        · rfl

/-- What is read goes to the end of the body. -/
theorem serialize_readInBody {a : Bytes} {n : ℕ} (hst : m.state = .bodyPending)
    (h : m.readInBody a = .ok (n, m')) : m'.serialize = m.serialize ++ a.take n := by
  have hframe : m'.firstLine = m.firstLine ∧ m'.headers = m.headers ∧ m'.body = m.body ++ a.take n := by
    rcases hsize : m.expectedBodySize with ⟨known, size⟩
    cases known with
    | true =>
        rw [HTTPMessage.readInBody_known hst hsize] at h
        obtain ⟨_, -, h⟩ := bind_eq_ok.1 h
        cases h
        exact ⟨rfl, rfl, rfl⟩
    | false =>
        rw [HTTPMessage.readInBody_unknown hst (by rw [hsize])] at h
        change readInComplexBody m a = _ at h
        rcases hp : m.derived.bodyParser with _ | _ | p
        · rw [readInComplexBody_none hst hp] at h
          cases h
        · rw [readInComplexBody_rule5 hst hp] at h
          cases h
          exact ⟨rfl, rfl, by rw [List.take_length]⟩
        · rw [readInComplexBody_chunked hst hp] at h
          obtain ⟨p' | k, -, h⟩ := bind_eq_ok.1 h
          · cases h
            exact ⟨rfl, rfl, by rw [List.take_length]⟩
          · cases h
            exact ⟨rfl, rfl, rfl⟩
  obtain ⟨hfirst, hheaders, hbody⟩ := hframe
  simp only [HTTPMessage.serialize, hfirst, hheaders, hbody, List.append_assoc]

end HTTPResponse

/-! ### Reading the head -/

namespace HTTPMessageSequence

variable {X Q : Type} [ParserType X Q] {s s' : HTTPMessageSequence X Q} {line w : Bytes}

/-- There is nothing to read but a line that is not complete. -/
theorem run_noLine (hst : s.messageInProgress.state.rank ≤ 1) (h : find CRLF s.buffer = none) :
    parseLoop.run s = .ok s := run_of_stop (parsingStep_noLine hst h)

/-- A line that is not complete goes to the buffer. -/
theorem feed_noLine (hst : s.messageInProgress.state.rank ≤ 1) (h : find CRLF (s.buffer ++ w) = none) :
    s.feed w = .ok { s with buffer := s.buffer ++ w } :=
  run_noLine (s := { s with buffer := s.buffer ++ w }) hst h

/-- Text without a line ending stays in the buffer. -/
theorem feedBytes_noLine (hst : s.messageInProgress.state.rank ≤ 1)
    (h : find CRLF (s.buffer ++ w) = none) :
    s.feedBytes w = .ok { s with buffer := s.buffer ++ w } := by
  induction w generalizing s with
  | nil => rw [List.append_nil]; rfl
  | cons c w ih =>
      have hc : find CRLF (s.buffer ++ [c]) = none := by
        refine find_eq_none_of_infix h (List.IsPrefix.isInfix ?_)
        rw [List.append_cons s.buffer c w]
        exact List.prefix_append _ w
      rw [feedBytes, List.foldlM_cons, feed_noLine hst hc, ok_bind]
      refine (ih (s := { s with buffer := s.buffer ++ [c] }) hst ?_).trans ?_
      · rwa [List.append_assoc, List.singleton_append]
      · rw [List.append_assoc, List.singleton_append]

/-- No line ends in the first byte of a CRLF. -/
theorem find_CRLF_cr (h : find CRLF line = none) : find CRLF (line ++ [13]) = none := by
  rw [find_eq_none_iff] at h ⊢
  intro hinfix
  obtain ⟨before, after, heq⟩ := hinfix
  rcases List.eq_nil_or_concat after with rfl | ⟨after, c, rfl⟩
  · have hlast := congrArg List.getLast? heq
    rw [List.append_nil, List.getLast?_append, List.getLast?_append] at hlast
    cases hlast
  · rw [List.concat_eq_append, ← List.append_assoc] at heq
    obtain ⟨heq, -⟩ := List.append_inj' heq rfl
    exact h ⟨before, after, heq⟩

/-- **A line is read at its end.** -/
theorem feedBytes_line (hst : s.messageInProgress.state.rank ≤ 1) (hbuffer : s.buffer = [])
    (h : find CRLF line = none) :
    s.feedBytes (line ++ CRLF) = parseLoop.run { s with buffer := line ++ CRLF } := by
  have hcut : line ++ CRLF = (line ++ [13]) ++ [10] := by
    rw [List.append_assoc]
    rfl
  have hcr : find CRLF (s.buffer ++ (line ++ [13])) = none := by
    rw [hbuffer]
    exact find_CRLF_cr h
  rw [hcut, feedBytes_append, feedBytes_noLine hst hcr, ok_bind, hbuffer, List.nil_append]
  change List.foldlM _ _ [10] = _
  rw [List.foldlM_cons]
  exact bind_pure _

end HTTPMessageSequence

/-- A response parser that has read up to `buffer`. -/
def HTTPResponseParser.at (buffer : Bytes) (m : HTTPResponse) : HTTPResponseParser where
  buffer := buffer
  messageInProgress := m
  derived := {}

namespace HTTPResponseParser

open HTTPResponse

variable {request : HTTPRequest} {s s' : HTTPResponseParser} {m m' : HTTPResponse}
  {firstLine line b : Bytes} {headers : List HTTPHeader}

/-- Between two lines there is nothing to read. -/
theorem run_at_nil (hst : m.state.rank ≤ 1) :
    parseLoop.run (HTTPResponseParser.at [] m) = .ok (HTTPResponseParser.at [] m) :=
  run_noLine (s := HTTPResponseParser.at [] m) hst find_CRLF_nil

/-- A first line takes the request. -/
theorem feedBytes_firstLine (h : find CRLF firstLine = none) (request : HTTPRequest) :
    (HTTPResponseParser.new.newRequestArrived request).feedBytes (firstLine ++ CRLF) =
      .ok (HTTPResponseParser.at [] (ofHead request firstLine [])) := by
  rw [feedBytes_line (s := HTTPResponseParser.new.newRequestArrived request) (Nat.zero_le 1) rfl h]
  have hfind : find CRLF (firstLine ++ CRLF) = some firstLine.length := by
    have hline := find_CRLF_line h []
    rwa [List.append_nil] at hline
  have hstep : HTTPMessageSequence.parsingStep
      { HTTPResponseParser.new.newRequestArrived request with buffer := firstLine ++ CRLF } =
        .ok (true, HTTPResponseParser.at [] (ofHead request firstLine [])) := by
    rw [parsingStep_firstLine (i := firstLine.length) rfl hfind]
    dsimp only
    rw [List.take_left, List.drop_eq_nil_of_le (by rw [List.length_append, length_CRLF])]
    rfl
  rw [run_of_step hstep]
  exact run_at_nil (Nat.le_refl 1)

/-- A line while headers are pending. -/
theorem feedBytes_headerLine (h : find CRLF line = none) (request : HTTPRequest) (firstLine : Bytes)
    (headers : List HTTPHeader) :
    (HTTPResponseParser.at [] (ofHead request firstLine headers)).feedBytes (line ++ CRLF) =
      (ofHead request firstLine headers).headerLine line >>= fun m =>
        parseLoop.run (HTTPResponseParser.at [] m) := by
  have hrank : (ofHead request firstLine headers).state.rank ≤ 1 := Nat.le_refl 1
  rw [feedBytes_line (s := HTTPResponseParser.at [] (ofHead request firstLine headers)) hrank rfl h]
  have hfind : find CRLF (line ++ CRLF) = some line.length := by
    have hline := find_CRLF_line h []
    rwa [List.append_nil] at hline
  have hstep := parsingStep_header (i := line.length)
    (s := HTTPResponseParser.at (line ++ CRLF) (ofHead request firstLine headers)) rfl hfind
  change _ = ((ofHead request firstLine headers).headerLine ((line ++ CRLF).take line.length) >>= _)
    at hstep
  rw [List.take_left] at hstep
  change parseLoop.run (HTTPResponseParser.at (line ++ CRLF) (ofHead request firstLine headers)) = _
  rcases hm : (ofHead request firstLine headers).headerLine line with e | m
  · rw [hm] at hstep
    exact run_of_fault hstep
  · rw [hm, ok_bind] at hstep
    rw [run_of_step hstep, ok_bind]
    change parseLoop.run (HTTPResponseParser.at ((line ++ CRLF).drop (line.length + 2)) m) = _
    rw [List.drop_eq_nil_of_le (by rw [List.length_append, length_CRLF])]

/-- **Header lines are read** as headers that are respaced. -/
theorem feedBytes_headers (h : ∀ header ∈ headers, HTTPHeader.FromLine header)
    (request : HTTPRequest) (firstLine : Bytes) (before : List HTTPHeader) :
    (HTTPResponseParser.at [] (ofHead request firstLine before)).feedBytes
        (headers.flatMap fun header => header.str ++ CRLF) =
      .ok (HTTPResponseParser.at []
        (ofHead request firstLine (before ++ headers.map HTTPHeader.respace))) := by
  induction headers generalizing before with
  | nil =>
      rw [List.map_nil, List.append_nil]
      rfl
  | cons header headers ih =>
      obtain ⟨hheader, hheaders⟩ := List.forall_mem_cons.1 h
      have hne : header.str ≠ [] := by
        intro hnil
        have hlength := congrArg List.length hnil
        rw [HTTPHeader.str, List.length_append, List.length_append] at hlength
        simp [ascii] at hlength
      have hline : (ofHead request firstLine before).headerLine header.str =
          .ok (ofHead request firstLine (before ++ [header.respace])) := by
        rw [HTTPMessage.headerLine, if_neg hne, HTTPMessage.addHeaderLine,
          assert_of (show (ofHead request firstLine before).state = .headersPending from rfl), ok_bind,
          hheader.parse_str, ok_bind]
        rfl
      rw [List.flatMap_cons, feedBytes_append, feedBytes_headerLine hheader.find_CRLF_str, hline,
        ok_bind, run_at_nil (m := ofHead request firstLine (before ++ [header.respace]))
          (Nat.le_refl 1), ok_bind, ih hheaders, List.append_assoc, List.map_cons]
      rfl

/-- **A head is read:** the headers are done. -/
theorem feedBytes_head (hfirst : find CRLF firstLine = none)
    (h : ∀ header ∈ headers, HTTPHeader.FromLine header) (request : HTTPRequest) :
    (HTTPResponseParser.new.newRequestArrived request).feedBytes
        (firstLine ++ CRLF ++ headers.flatMap (fun header => header.str ++ CRLF) ++ CRLF) =
      (ofHead request firstLine (headers.map HTTPHeader.respace)).doneWithHeaders >>= fun m =>
        parseLoop.run (HTTPResponseParser.at [] m) := by
  rw [feedBytes_append, feedBytes_append, feedBytes_firstLine hfirst, ok_bind,
    feedBytes_headers h, ok_bind, List.nil_append]
  have hblank := feedBytes_headerLine find_CRLF_nil request firstLine (headers.map HTTPHeader.respace)
  rw [HTTPMessage.headerLine, if_pos rfl] at hblank
  exact hblank

end HTTPResponseParser

end V2Proxy
