/-
# `HTTPHeader` and `HTTPMessage`

`src/http/http_header.cc`, `src/http/http_message.hh` and
`src/http/http_message.cc`.  `HTTPMessage` is an abstract class: what a request
and a response add to it is the type parameter `X` (the members of the derived
class) and the class `MessageType X` (its virtual functions).
-/

import V2Proxy.Util.Bytes

namespace V2Proxy

open Foundations

structure HTTPHeader where
  key : Bytes
  value : Bytes
deriving DecidableEq

/-- `str.find_first_not_of( " " )`, as the string that starts there. -/
def stripSpaces (str : Bytes) : Bytes := str.dropWhile (· = 32)

/-- `HTTPHeader::HTTPHeader( buf )`: the key ends at the first colon; leading
spaces of the value are stripped unless it is nothing but spaces. -/
def HTTPHeader.parse (buf : Bytes) : Except Fault HTTPHeader :=
  match find (ascii ":") buf with
  | none => .error (.runtimeError (ascii "HTTPHeader: buffer does not contain colon"))
  | some colonLocation =>
      let valueTemp := buf.drop (colonLocation + 1)
      .ok {
        key := buf.take colonLocation
        value := if stripSpaces valueTemp = [] then valueTemp else stripSpaces valueTemp }

/-- `HTTPHeader::str`. -/
def HTTPHeader.str (h : HTTPHeader) : Bytes := h.key ++ ascii ": " ++ h.value

/-- `enum HTTPMessageState`. -/
inductive HTTPMessageState where
  | firstLinePending
  | headersPending
  | bodyPending
  | complete
deriving DecidableEq

/-- The order in which the `enum` lists its members. -/
def HTTPMessageState.rank : HTTPMessageState → ℕ
  | .firstLinePending => 0
  | .headersPending => 1
  | .bodyPending => 2
  | .complete => 3

structure HTTPMessage (X : Type) where
  expectedBodySize : Bool × ℕ := (false, npos)
  firstLine : Bytes := []
  headers : List HTTPHeader := []
  body : Bytes := []
  state : HTTPMessageState := .firstLinePending
  /-- the members of the derived class -/
  derived : X
deriving DecidableEq

/-- The virtual functions of `HTTPMessage`, and a derived class's members as its
default constructor leaves them. -/
class MessageType (X : Type) where
  fresh : X
  calculateExpectedBodySize : HTTPMessage X → Except Fault (HTTPMessage X)
  readInComplexBody : HTTPMessage X → Bytes → Except Fault (ℕ × HTTPMessage X)
  eofInBody : HTTPMessage X → Except Fault Bool

/-- `http_to_lower`. -/
def httpToLower (c : UInt8) : UInt8 := if 65 ≤ c && c ≤ 90 then c + 32 else c

/-- `HTTPMessage::equivalent_strings`: equality up to ASCII case and leading
spaces. -/
def equivalentStrings (a b : Bytes) : Bool :=
  (stripSpaces a).map httpToLower = (stripSpaces b).map httpToLower

namespace HTTPMessage

variable {X : Type}

/-- `MessageType()`. -/
def fresh [MessageType X] : HTTPMessage X := { derived := MessageType.fresh }

/-- `HTTPMessage::set_first_line`. -/
def setFirstLine (m : HTTPMessage X) (str : Bytes) : Except Fault (HTTPMessage X) := do
  assert (m.state = .firstLinePending) "state_ == FIRST_LINE_PENDING"
  return { m with firstLine := str, state := .headersPending }

/-- `HTTPMessage::add_header( const HTTPHeader & )`. -/
def addHeader (m : HTTPMessage X) (header : HTTPHeader) : Except Fault (HTTPMessage X) := do
  assert (m.state = .headersPending) "state_ == HEADERS_PENDING"
  return { m with headers := m.headers ++ [header] }

/-- `HTTPMessage::add_header( const std::string & )`. -/
def addHeaderLine (m : HTTPMessage X) (str : Bytes) : Except Fault (HTTPMessage X) := do
  assert (m.state = .headersPending) "state_ == HEADERS_PENDING"
  let header ← HTTPHeader.parse str
  return { m with headers := m.headers ++ [header] }

/-- `HTTPMessage::done_with_headers`. -/
def doneWithHeaders [MessageType X] (m : HTTPMessage X) : Except Fault (HTTPMessage X) := do
  assert (m.state = .headersPending) "state_ == HEADERS_PENDING"
  MessageType.calculateExpectedBodySize { m with state := .bodyPending }

/-- What the parser does with a line while headers are pending: a blank line
ends them. -/
def headerLine [MessageType X] (m : HTTPMessage X) (line : Bytes) :
    Except Fault (HTTPMessage X) :=
  if line = [] then m.doneWithHeaders else m.addHeaderLine line

/-- `HTTPMessage::set_expected_body_size`. -/
def setExpectedBodySize (m : HTTPMessage X) (isKnown : Bool) (value : ℕ) :
    Except Fault (HTTPMessage X) := do
  assert (m.state = .bodyPending) "state_ == BODY_PENDING"
  return { m with expectedBodySize := (isKnown, value) }

/-- `HTTPMessage::body_size_is_known`. -/
def bodySizeIsKnown (m : HTTPMessage X) : Except Fault Bool := do
  assert (HTTPMessageState.headersPending.rank < m.state.rank) "state_ > HEADERS_PENDING"
  return m.expectedBodySize.1

/-- `HTTPMessage::expected_body_size`. -/
def expectedBodySizeValue (m : HTTPMessage X) : Except Fault ℕ := do
  assert ((← m.bodySizeIsKnown) = true) "body_size_is_known()"
  return m.expectedBodySize.2

/-- `HTTPMessage::read_in_body`: how many bytes were used, and the message. -/
def readInBody [MessageType X] (m : HTTPMessage X) (str : Bytes) :
    Except Fault (ℕ × HTTPMessage X) := do
  assert (m.state = .bodyPending) "state_ == BODY_PENDING"
  if ← m.bodySizeIsKnown then
    let size ← m.expectedBodySizeValue
    assert (m.body.length ≤ size) "body_.size() <= expected_body_size()"
    let amountToAppend := min (size - m.body.length) str.length
    let body := m.body ++ str.take amountToAppend
    return (amountToAppend,
      { m with body := body, state := if body.length = size then .complete else m.state })
  else
    MessageType.readInComplexBody m str

/-- `HTTPMessage::eof`. -/
def eof [MessageType X] (m : HTTPMessage X) : Except Fault (HTTPMessage X) :=
  match m.state with
  | .firstLinePending => .ok m
  | .headersPending =>
      .error (.runtimeError (ascii "HTTPMessage: EOF received in middle of headers"))
  | .bodyPending => do
      if ← MessageType.eofInBody m then return { m with state := .complete } else return m
  | .complete => .error (.assertion (ascii "false"))

/-- `HTTPMessage::has_header`. -/
def hasHeader (m : HTTPMessage X) (headerName : Bytes) : Bool :=
  m.headers.any fun header => equivalentStrings header.key headerName

/-- `HTTPMessage::get_header_value`. -/
def getHeaderValue (m : HTTPMessage X) (headerName : Bytes) : Except Fault Bytes :=
  match m.headers.find? fun header => equivalentStrings header.key headerName with
  | some header => .ok header.value
  | none => .error (.runtimeError (ascii "HTTPMessage header not found: " ++ headerName))

/-- A header that has a value is there. -/
theorem hasHeader_of_value {m : HTTPMessage X} {name value : Bytes}
    (h : m.getHeaderValue name = .ok value) : m.hasHeader name = true := by
  rw [getHeaderValue] at h
  split at h
  · rename_i header hfind
    have hequal := List.find?_some hfind
    exact List.any_eq_true.2 ⟨header, List.mem_of_find?_eq_some hfind, hequal⟩
  · cases h

/-- What `HTTPMessage::str` serializes: the first line, one line per header, an
empty line and the body. -/
def serialize (m : HTTPMessage X) : Bytes :=
  m.firstLine ++ CRLF ++ m.headers.flatMap (fun header => header.str ++ CRLF) ++ CRLF ++ m.body

/-- `HTTPMessage::str`. -/
def str (m : HTTPMessage X) : Except Fault Bytes := do
  assert (m.state = .complete) "state_ == COMPLETE"
  return m.serialize

theorem str_eq_ok {m : HTTPMessage X} {bytes : Bytes} (h : m.str = .ok bytes) :
    bytes = m.serialize := by
  obtain ⟨_, -, h⟩ := bind_eq_ok.1 h
  exact (Except.ok.inj h).symm

end HTTPMessage

end V2Proxy
