/-
# `HTTPRequest` and `HTTPResponse`

`src/http/http_request.cc`, `src/http/http_response.cc` and
`src/http/body_parser.hh`: the rules that fix the length of a body, and the
bodies whose length is not known in advance.
-/

import V2Proxy.Http.ChunkedReading
import V2Proxy.Http.HTTPMessage
import V2Proxy.Http.Tokenize

namespace V2Proxy

open Foundations

/-- `HTTPRequest` adds no members to `HTTPMessage`. -/
structure RequestMembers where
deriving DecidableEq

abbrev HTTPRequest := HTTPMessage RequestMembers

namespace HTTPRequest

/-- `HTTPRequest::calculate_expected_body_size`. -/
def calculateExpectedBodySize (m : HTTPRequest) : Except Fault HTTPRequest := do
  assert (m.state = .bodyPending) "state_ == BODY_PENDING"
  if m.firstLine.take 4 = ascii "GET " ∨ m.firstLine.take 5 = ascii "HEAD " then
    m.setExpectedBodySize true 0
  else if m.firstLine.take 5 = ascii "POST " then
    if m.hasHeader (ascii "Content-Length") = false then
      .error (.runtimeError (ascii "HTTPRequest: does not support chunked requests"))
    else do
      let value ← m.getHeaderValue (ascii "Content-Length")
      let size ← myatoi value 10
      m.setExpectedBodySize true (toUInt64 size)
  else
    .error (.runtimeError (ascii "Cannot handle HTTP method: " ++ m.firstLine))

instance : MessageType RequestMembers where
  fresh := {}
  calculateExpectedBodySize := calculateExpectedBodySize
  readInComplexBody _ _ :=
    .error (.runtimeError (ascii "HTTPRequest: does not support chunked requests"))
  eofInBody _ := .error (.runtimeError (ascii "HTTPRequest: got EOF in middle of body"))

/-- `HTTPRequest::is_head`. -/
def isHead (m : HTTPRequest) : Except Fault Bool := do
  assert (HTTPMessageState.firstLinePending.rank < m.state.rank) "state_ > FIRST_LINE_PENDING"
  return m.firstLine.take 5 = ascii "HEAD "

end HTTPRequest

/-- The two classes derived from `BodyParser`. -/
inductive BodyParser where
  | rule5
  | chunked (parser : ChunkedBodyParser)
deriving DecidableEq

namespace BodyParser

/-- `BodyParser::read`. -/
def read (p : BodyParser) (str : Bytes) : Except Fault (ReadOutcome BodyParser) :=
  match p with
  | .rule5 => .ok (.npos .rule5)
  | .chunked parser => do
      match ← parser.read str with
      | .npos parser => return .npos (.chunked parser)
      | .ends amount => return .ends amount

/-- `BodyParser::eof`: does the message become complete upon EOF in the body? -/
def eof : BodyParser → Bool
  | .rule5 => true
  | .chunked _ => true

end BodyParser

/-- The members `HTTPResponse` adds to `HTTPMessage`. -/
structure ResponseMembers where
  request : HTTPRequest := .fresh
  bodyParser : Option BodyParser := none
deriving DecidableEq

abbrev HTTPResponse := HTTPMessage ResponseMembers

namespace HTTPResponse

/-- `HTTPResponse::request`. -/
def request (m : HTTPResponse) : HTTPRequest := m.derived.request

/-- `HTTPResponse::status_code`. -/
def statusCode (m : HTTPResponse) : Except Fault Bytes := do
  assert (HTTPMessageState.firstLinePending.rank < m.state.rank) "state_ > FIRST_LINE_PENDING"
  let tokens ← split m.firstLine (ascii " ")
  match tokens with
  | _ :: code :: _ :: _ => return code
  | _ => .error (.runtimeError (ascii "HTTPResponse: Invalid status line: " ++ m.firstLine))

/-- `body_parser_ = unique_ptr< BodyParser >( parser )`. -/
def setBodyParser (m : HTTPResponse) (parser : BodyParser) : HTTPResponse :=
  { m with derived := { m.derived with bodyParser := some parser } }

/-- The condition of rule 1: a status 1xx, 204 or 304, or a `HEAD` request.  The
operands of `or` are evaluated from the left. -/
def hasNoBody (m : HTTPResponse) : Except Fault Bool := do
  let code ← m.statusCode
  match code with
  | [] => .error (.outOfRange (ascii "basic_string::at"))
  | first :: _ =>
      if first = 49 ∨ code = ascii "204" ∨ code = ascii "304" then return true
      else m.request.isHead

/-- `has_header( name ) and equivalent_strings( split( value, "," ).back(), "chunked" )`. -/
def isChunked (m : HTTPResponse) : Except Fault Bool := do
  if m.hasHeader (ascii "Transfer-Encoding") then
    let value ← m.getHeaderValue (ascii "Transfer-Encoding")
    let codings ← split value (ascii ",")
    return equivalentStrings (codings.getLast?.getD []) (ascii "chunked")
  else return false

/-- The condition of rule 4. -/
def isByteRanges (m : HTTPResponse) : Except Fault Bool := do
  if m.hasHeader (ascii "Content-Type") then
    let value ← m.getHeaderValue (ascii "Content-Type")
    let type ← mimeType value
    return equivalentStrings type (ascii "multipart/byteranges")
  else return false

/-- `HTTPResponse::calculate_expected_body_size`, the rules of RFC 2616
section 4.4. -/
def calculateExpectedBodySize (m : HTTPResponse) : Except Fault HTTPResponse := do
  assert (m.state = .bodyPending) "state_ == BODY_PENDING"
  if ← m.hasNoBody then
    m.setExpectedBodySize true 0
  else if ← m.isChunked then
    let m : HTTPResponse ← m.setExpectedBodySize false npos
    return setBodyParser m (.chunked { trailersEnabled := m.hasHeader (ascii "Trailer") })
  else if m.hasHeader (ascii "Transfer-Encoding") = false ∧
      m.hasHeader (ascii "Content-Length") = true then
    let value ← m.getHeaderValue (ascii "Content-Length")
    let size ← myatoi value 10
    m.setExpectedBodySize true (toUInt64 size)
  else if ← m.isByteRanges then
    .error (.runtimeError
      (ascii "HTTPResponse: unsupported multipart/byteranges without Content-Length"))
  else
    let m : HTTPResponse ← m.setExpectedBodySize false npos
    return setBodyParser m .rule5

/-- `HTTPResponse::read_in_complex_body`.  The body parser of a message that is
`COMPLETE` is never used again; it is dropped here. -/
def readInComplexBody (m : HTTPResponse) (str : Bytes) : Except Fault (ℕ × HTTPResponse) := do
  assert (m.state = .bodyPending) "state_ == BODY_PENDING"
  match m.derived.bodyParser with
  | none => .error (.assertion (ascii "body_parser_"))
  | some parser =>
      match ← parser.read str with
      | .npos parser => return (str.length, { m.setBodyParser parser with body := m.body ++ str })
      | .ends amount =>
          return (amount, { m with
            body := m.body ++ str.take amount
            state := .complete
            derived := { m.derived with bodyParser := none } })

/-- `HTTPResponse::eof_in_body`. -/
def eofInBody (m : HTTPResponse) : Except Fault Bool :=
  match m.derived.bodyParser with
  | some parser => .ok parser.eof
  | none => .error (.runtimeError (ascii "HTTPResponse: got EOF in middle of body"))

instance : MessageType ResponseMembers where
  fresh := {}
  calculateExpectedBodySize := calculateExpectedBodySize
  readInComplexBody := readInComplexBody
  eofInBody := eofInBody

/-- `HTTPResponse::set_request`. -/
def setRequest (m : HTTPResponse) (request : HTTPRequest) : Except Fault HTTPResponse := do
  assert (m.state = .firstLinePending) "state_ == FIRST_LINE_PENDING"
  return { m with derived := { m.derived with request := request } }

end HTTPResponse

end V2Proxy
