/-
# `HTTPProxy::get_canned_response`

`src/httpserver/http_proxy.cc`: the response that the proxy writes itself.  Its
text does not depend on the request (`getCannedResponse_405`), and a response
parser that waits for the response to a single request turns the text into one
message, the response to that request (`parse_canned`).  What the parser holds of
an unfinished line comes in front of the status line.
-/

import V2Proxy.Http.ResponsePairing

namespace V2Proxy

open Foundations HTTPMessageSequence

/-- `status_messages`. -/
def statusMessages : List (ℕ × Bytes) :=
  [(400, ascii "Bad Request"), (404, ascii "Not Found"), (405, ascii "Method Not Allowed"),
    (429, ascii "%")]

/-- `status_messages.at( status )`. -/
def statusMessageAt (status : ℕ) : Except Fault Bytes :=
  match statusMessages.lookup status with
  | some message => .ok message
  | none => .error (.outOfRange (ascii "map::at"))

/-- `HTTPProxy::get_canned_response`. -/
def getCannedResponse (status : ℕ) (request : HTTPRequest) : Except Fault Bytes := do
  let response ← HTTPResponse.setRequest .fresh request
  let message ← statusMessageAt status
  let response ← response.setFirstLine
    (ascii "HTTP/1.1 " ++ toDecimal status ++ ascii " " ++ message)
  let response ← response.addHeader { key := ascii "Content-Length", value := ascii "0" }
  let response ← response.addHeader { key := ascii "Content-Type", value := ascii "text/plain" }
  let response ← response.doneWithHeaders
  let (_, response) ← response.readInBody []
  assert (response.state = .complete) "response.state() == COMPLETE"
  response.str

/-- The status line of the canned 405. -/
def cannedLine : Bytes := ascii "HTTP/1.1 405 " ++ ascii "Method Not Allowed"

/-- Its headers. -/
def cannedLength : HTTPHeader := { key := ascii "Content-Length", value := ascii "0" }

def cannedType : HTTPHeader := { key := ascii "Content-Type", value := ascii "text/plain" }

/-- The canned 405 as the response to `request`. -/
def cannedMessage (request : HTTPRequest) : HTTPResponse where
  expectedBodySize := (true, 0)
  firstLine := cannedLine
  headers := [cannedLength, cannedType]
  state := .complete
  derived := { request := request }

/-- The text of the canned 405. -/
def cannedText : Bytes :=
  ascii "HTTP/1.1 405 " ++ ascii "Method Not Allowed\r\n" ++ ascii "Content-Length: 0\r\n" ++
    ascii "Content-Type: text/plain\r\n" ++ ascii "\r\n"

theorem serialize_cannedMessage (request : HTTPRequest) :
    (cannedMessage request).serialize = cannedText := by
  have htext : cannedLine ++ CRLF ++ [cannedLength, cannedType].flatMap
      (fun header => header.str ++ CRLF) ++ CRLF ++ [] = cannedText := by decide +kernel
  exact htext

variable {request : HTTPRequest}

/-- **A response with these headers has no body,** whatever its status and its
request. -/
theorem calculate_canned {m : HTTPResponse} {noBody : Bool} (hst : m.state = .bodyPending)
    (hheaders : m.headers = [cannedLength, cannedType]) (hnoBody : m.hasNoBody = .ok noBody) :
    HTTPResponse.calculateExpectedBodySize m = .ok { m with expectedBodySize := (true, 0) } := by
  have hsize : m.setExpectedBodySize true 0 = .ok { m with expectedBodySize := (true, 0) } := by
    rw [HTTPMessage.setExpectedBodySize, assert_of hst, ok_bind]
    rfl
  rw [HTTPResponse.calculateExpectedBodySize, assert_of hst, ok_bind, hnoBody, ok_bind]
  cases noBody with
  | true => rw [if_pos rfl, hsize]
  | false =>
      have hchunked : m.hasHeader (ascii "Transfer-Encoding") = false := by
        rw [HTTPMessage.hasHeader, hheaders]
        decide +kernel
      have hlength : m.hasHeader (ascii "Content-Length") = true := by
        rw [HTTPMessage.hasHeader, hheaders]
        decide +kernel
      have hvalue : m.getHeaderValue (ascii "Content-Length") = .ok (ascii "0") := by
        rw [HTTPMessage.getHeaderValue, hheaders]
        decide +kernel
      have hatoi : myatoi (ascii "0") 10 = .ok 0 := by decide +kernel
      have hnot : m.isChunked = .ok false := by
        rw [HTTPResponse.isChunked, hchunked]
        rfl
      rw [if_neg (by decide), hnot, ok_bind, if_neg (by decide), if_pos ⟨hchunked, hlength⟩,
        hvalue, ok_bind, hatoi, ok_bind]
      exact hsize

/-- The status line is 405, so only the request decides rule 1. -/
theorem hasNoBody_canned {m : HTTPResponse} (hst : m.state = .bodyPending)
    (hline : m.firstLine = cannedLine) (hrequest : m.request.state = .complete) :
    m.hasNoBody = .ok (decide (m.request.firstLine.take 5 = ascii "HEAD ")) := by
  have hrank : HTTPMessageState.firstLinePending.rank < m.state.rank := by rw [hst]; decide
  have hrank' : HTTPMessageState.firstLinePending.rank < m.request.state.rank := by
    rw [hrequest]; decide
  have hsplit : split cannedLine (ascii " ") =
      .ok [ascii "HTTP/1.1", ascii "405", ascii "Method", ascii "Not", ascii "Allowed"] := by
    decide +kernel
  have hcode : m.statusCode = .ok (ascii "405") := by
    rw [HTTPResponse.statusCode, assert_of hrank, ok_bind, hline, hsplit]
    rfl
  have hascii : ascii "405" = [52, 48, 53] := by decide
  rw [HTTPResponse.hasNoBody, hcode, ok_bind, hascii]
  dsimp only
  rw [if_neg (by decide), HTTPRequest.isHead, assert_of hrank', ok_bind]
  rfl

/-- The canned 405 with its headers done, before its body is read. -/
def cannedBegun (line : Bytes) (request : HTTPRequest) : HTTPResponse where
  expectedBodySize := (true, 0)
  firstLine := line
  headers := [cannedLength, cannedType]
  state := .bodyPending
  derived := { request := request }

/-- The canned 405 with the headers read so far. -/
def cannedPart (line : Bytes) (request : HTTPRequest) (headers : List HTTPHeader) :
    HTTPResponse where
  firstLine := line
  headers := headers
  state := .headersPending
  derived := { request := request }

theorem doneWithHeaders_canned (h : request.state = .complete) :
    (cannedPart cannedLine request [cannedLength, cannedType]).doneWithHeaders =
      .ok (cannedBegun cannedLine request) :=
  calculate_canned (m := { (cannedBegun cannedLine request) with expectedBodySize := (false, npos) })
    rfl rfl (hasNoBody_canned rfl rfl h)

/-- With another status line it may fail, but there is no other outcome. -/
theorem doneWithHeaders_eq_ok {line : Bytes} {m : HTTPResponse}
    (h : (cannedPart line request [cannedLength, cannedType]).doneWithHeaders = .ok m) :
    m = cannedBegun line request := by
  change HTTPResponse.calculateExpectedBodySize
    { (cannedBegun line request) with expectedBodySize := (false, npos) } = .ok m at h
  obtain ⟨u, -, hrest⟩ := bind_eq_ok.1 h
  obtain ⟨noBody, hnoBody, -⟩ := bind_eq_ok.1 hrest
  rw [calculate_canned rfl rfl hnoBody] at h
  exact (Except.ok.inj h).symm

theorem readInBody_canned (line : Bytes) (request : HTTPRequest) :
    (cannedBegun line request).readInBody [] =
      .ok (0, { (cannedMessage request) with firstLine := line }) :=
  HTTPMessage.readInBody_enough rfl rfl (Nat.le_refl 0) (Nat.le_refl 0)

/-- **The text of the canned 405.** -/
theorem getCannedResponse_405 (h : request.state = .complete) :
    getCannedResponse 405 request = .ok cannedText := by
  have hset : HTTPResponse.setRequest .fresh request = .ok { derived := { request := request } } :=
    rfl
  have hmessage : statusMessageAt 405 = .ok (ascii "Method Not Allowed") := by decide +kernel
  have hline : ascii "HTTP/1.1 " ++ toDecimal ((405 : ℕ) : ℤ) ++ ascii " " ++
      ascii "Method Not Allowed" = cannedLine := by decide +kernel
  have hfirst : HTTPMessage.setFirstLine
      ({ derived := { request := request } } : HTTPResponse) cannedLine =
      .ok { firstLine := cannedLine, state := .headersPending, derived := { request := request } } :=
    rfl
  unfold getCannedResponse
  rw [hset, ok_bind, hmessage, ok_bind, hline, hfirst, ok_bind]
  change ((cannedPart cannedLine request [cannedLength, cannedType]).doneWithHeaders >>= _) = _
  rw [doneWithHeaders_canned h, ok_bind, readInBody_canned, ok_bind]
  change (cannedMessage request).str = _
  have hst : (cannedMessage request).state = .complete := rfl
  rw [HTTPMessage.str, assert_of hst, ok_bind, serialize_cannedMessage]
  rfl

/-- A response parser that has read up to `buffer`. -/
def reading (buffer : Bytes) (m : HTTPResponse) (requests : List HTTPRequest) :
    HTTPResponseParser where
  buffer := buffer
  messageInProgress := m
  derived := { requests := requests }

/-- The parser takes over the request and reads the status line. -/
theorem canned_firstLine (request : HTTPRequest) (rest : Bytes) {buffer line : Bytes}
    (hfind : find CRLF buffer = some line.length) (hline : buffer.take line.length = line)
    (hrest : buffer.drop (line.length + 2) = rest) :
    (reading buffer .fresh [request]).parsingStep =
      .ok (true, reading rest (cannedPart line request []) []) := by
  rw [parsingStep_firstLine rfl hfind]
  change Except.ok (true, reading (buffer.drop (line.length + 2))
    { (cannedPart line request []) with firstLine := buffer.take line.length } []) = _
  rw [hline, hrest]
  rfl

theorem canned_header (first : Bytes) (request : HTTPRequest) (headers : List HTTPHeader)
    (header : HTTPHeader) (buffer line rest : Bytes) (hfind : find CRLF buffer = some line.length)
    (hline : buffer.take line.length = line) (hne : line ≠ [])
    (hheader : HTTPHeader.parse line = .ok header)
    (hrest : buffer.drop (line.length + 2) = rest) :
    (reading buffer (cannedPart first request headers) []).parsingStep =
      .ok (true, reading rest (cannedPart first request (headers ++ [header])) []) := by
  have hstep : (cannedPart first request headers).headerLine line =
      .ok (cannedPart first request (headers ++ [header])) := by
    have hst : (cannedPart first request headers).state = .headersPending := rfl
    rw [HTTPMessage.headerLine, if_neg hne, HTTPMessage.addHeaderLine, assert_of hst, ok_bind,
      hheader]
    rfl
  rw [parsingStep_header rfl hfind]
  change ((cannedPart first request headers).headerLine (buffer.take line.length) >>= _) = _
  rw [hline, hstep, ok_bind]
  change Except.ok (true, reading (buffer.drop (line.length + 2)) _ _) = _
  rw [hrest]

/-- The end of the headers, the empty body and the complete message. -/
theorem canned_blank (line : Bytes) {s : HTTPResponseParser}
    (h : parseLoop.run (reading CRLF (cannedPart line request [cannedLength, cannedType]) []) =
      .ok s) :
    s = HTTPResponseParser.new.carry [{ (cannedMessage request) with firstLine := line }] := by
  have hfind : find CRLF CRLF = some 0 := by decide
  have hstep : (reading CRLF (cannedPart line request [cannedLength, cannedType]) []).parsingStep =
      (cannedPart line request [cannedLength, cannedType]).doneWithHeaders >>= fun m =>
        .ok (true, reading [] m []) := by
    rw [parsingStep_header rfl hfind]
    rfl
  rcases hdone : (cannedPart line request [cannedLength, cannedType]).doneWithHeaders with e | m
  · have herror : parseLoop.run
        (reading CRLF (cannedPart line request [cannedLength, cannedType]) []) = .error e := by
      refine run_of_fault ?_
      rw [hstep, hdone]
      rfl
    rw [herror] at h
    cases h
  · obtain rfl := doneWithHeaders_eq_ok hdone
    rw [hdone, ok_bind] at hstep
    have hbody : (reading [] (cannedBegun line request) []).parsingStep =
        .ok (true, reading [] { (cannedMessage request) with firstLine := line } []) :=
      parsingStep_bodyEnd (s := reading [] (cannedBegun line request) []) (n := 0)
        (m := { (cannedMessage request) with firstLine := line }) rfl
        (readInBody_canned line request) (Nat.le_refl 0) rfl
    have hleave : parsingStep
        (HTTPResponseParser.new.carry [{ (cannedMessage request) with firstLine := line }]) =
        .ok (false, HTTPResponseParser.new.carry
          [{ (cannedMessage request) with firstLine := line }]) := by
      have hrank : HTTPMessageState.firstLinePending.rank ≤ 1 := by decide
      exact parsingStep_noLine hrank find_CRLF_nil
    rw [run_of_step hstep, run_of_step hbody, run_of_step (parsingStep_complete rfl)] at h
    exact (Except.ok.inj (h.symm.trans (run_of_stop hleave)))

/-- **A parser that waits for one response reads the canned 405 as the response.** -/
theorem parse_canned {old : Bytes} {s : HTTPResponseParser} (hold : find CRLF old = none)
    (h : (reading old .fresh [request]).parse cannedText = .ok s) :
    s = HTTPResponseParser.new.carry
      [{ (cannedMessage request) with firstLine := old ++ cannedLine }] := by
  have hne : cannedText ≠ [] := by decide +kernel
  rw [parse_of_ne_nil _ hne] at h
  change parseLoop.run (reading (old ++ cannedText) .fresh [request]) = _ at h
  have hhead : cannedText = 72 :: cannedText.tail := by decide +kernel
  have hfind : find CRLF (old ++ cannedText) = some (old ++ cannedLine).length := by
    rw [hhead, find_CRLF_append hold (by decide) (i := cannedLine.length) (by decide +kernel),
      List.length_append]
  have hcut : cannedText = cannedLine ++ cannedText.drop cannedLine.length := by decide +kernel
  have hline := canned_firstLine request
    (ascii "Content-Length: 0\r\n" ++ (ascii "Content-Type: text/plain\r\n" ++ CRLF)) hfind
    (by rw [hcut, ← List.append_assoc, List.take_left])
    (by
      rw [List.length_append, Nat.add_assoc, List.drop_append, List.drop_eq_nil_of_le (by omega),
        Nat.add_sub_cancel_left]
      decide +kernel)
  have hlength := canned_header (old ++ cannedLine) request [] cannedLength
    (ascii "Content-Length: 0\r\n" ++ (ascii "Content-Type: text/plain\r\n" ++ CRLF))
    (ascii "Content-Length: 0") (ascii "Content-Type: text/plain\r\n" ++ CRLF)
    (by decide +kernel) (by decide +kernel) (by decide) (by decide +kernel) (by decide +kernel)
  have htype := canned_header (old ++ cannedLine) request [cannedLength] cannedType
    (ascii "Content-Type: text/plain\r\n" ++ CRLF) (ascii "Content-Type: text/plain") CRLF
    (by decide +kernel) (by decide +kernel) (by decide) (by decide +kernel) (by decide +kernel)
  rw [run_of_step hline, run_of_step hlength, List.nil_append, run_of_step htype,
    List.singleton_append] at h
  exact canned_blank _ h

/-- **With nothing in flight, the canned 405 answers the request just announced:**
the parser completes one response, to that request, and holds nothing more. -/
theorem newRequestArrived_parse_canned {s s' : HTTPResponseParser} (hs : s.Waiting)
    (hin : s.inFlight = []) (h : (s.newRequestArrived request).parse cannedText = .ok s') :
    s' = HTTPResponseParser.new.carry (s.completeMessages ++
      [{ (cannedMessage request) with firstLine := s.buffer ++ cannedLine }]) := by
  rw [HTTPResponseParser.inFlight] at hin
  split_ifs at hin with hst
  · have hrank : s.messageInProgress.state.rank ≤ 1 := by rw [hst]; decide
    have hshape : s.newRequestArrived request =
        (reading s.buffer .fresh [request]).carry s.completeMessages := by
      rw [HTTPResponseParser.newRequestArrived, hin, hs.fresh hst, carry, reading, List.append_nil]
      rfl
    rw [hshape, parse_carry] at h
    obtain ⟨s₁, hs₁, h⟩ := bind_eq_ok.1 h
    cases h
    rw [parse_canned (hs.settled.line hrank) hs₁, carry_carry]

end V2Proxy
