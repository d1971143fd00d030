/-
# The parsers have no undefined behaviour

Everything that the parsers call throws, or fails an `assert`, when it does not
return (`Fault.Defined`); only `front` and `pop` are undefined, on an empty queue.
So a thread that ends by undefined behaviour has called one of the two on an
empty queue.
-/

import V2Proxy.Foundations.Throws
import V2Proxy.Http.HTTPMessageSequence
import V2Proxy.Util.Numerals

namespace V2Proxy

open Foundations

/-- The library gives a meaning to the call that failed. -/
def Fault.Defined : Fault → Prop
  | .undefinedBehaviour _ => False
  | _ => True

/-- `x` returns, or fails in a way that has a meaning. -/
abbrev Defined {α : Type} (x : Except Fault α) : Prop := Throws Fault.Defined x

/-- `x` returns, or throws an exception. -/
abbrev Raises {α : Type} (x : Except Fault α) : Prop := Throws Fault.Raised x

/-- An exception has a meaning. -/
theorem Raises.defined {α : Type} {x : Except Fault α} (h : Raises x) : Defined x := by
  refine h.mono fun e he => ?_
  cases e <;> trivial

/-- A failing `assert` aborts, which is defined. -/
@[simp] theorem defined_assert {p : Prop} [Decidable p] (text : String) :
    Defined (assert p text) := by
  rw [assert]
  exact throws_ite (fun _ => throws_ok ()) fun _ => throws_error.2 trivial

/-- `substr` throws behind the end of the string. -/
theorem raises_substr (s : Bytes) (pos n : ℕ) : Raises (substr s pos n) := by
  rw [substr]
  exact throws_ite (fun _ => throws_ok _) fun _ => throws_error.2 trivial

/-- `substr` has no undefined behaviour. -/
@[simp] theorem defined_substr (s : Bytes) (pos n : ℕ) : Defined (substr s pos n) :=
  (raises_substr s pos n).defined

/-- `myatoi` throws where the text is no number. -/
theorem raises_myatoi (str : Bytes) (base : ℕ) : Raises (myatoi str base) :=
  fun _ => raised_of_myatoi

/-- `myatoi` has no undefined behaviour. -/
@[simp] theorem defined_myatoi (str : Bytes) (base : ℕ) : Defined (myatoi str base) :=
  (raises_myatoi str base).defined

/-- `stoi` throws where there are no digits, or too many. -/
@[simp] theorem defined_stoi (str : Bytes) : Defined (stoi str) := by
  rw [stoi]
  refine throws_ite (fun _ => throws_error.2 trivial) fun _ => ?_
  exact throws_ite (fun _ => throws_error.2 trivial) fun _ => throws_ok _

/-- `split` fails no assertion. -/
theorem raises_split (str separator : Bytes) : Raises (split str separator) := by
  refine Throws.bind (Loop.run_throws (L := splitLoop str separator) (fun s => ?_) (0, []))
    fun indices _ => ?_
  · dsimp only [splitLoop]
    split <;> exact throws_ok _
  · split <;> exact throws_pure _

/-- `split` has no undefined behaviour. -/
theorem defined_split (str separator : Bytes) : Defined (split str separator) :=
  (raises_split str separator).defined

/-- `MIMEType` throws where it finds no slash. -/
theorem raises_mimeType (contentType : Bytes) : Raises (mimeType contentType) := by
  refine (raises_split contentType (ascii ";")).bind fun types _ => ?_
  split
  · exact throws_error.2 trivial
  · exact throws_error.2 trivial
  · exact throws_pure _

/-- `MIMEType` has no undefined behaviour. -/
theorem defined_mimeType (contentType : Bytes) : Defined (mimeType contentType) :=
  (raises_mimeType contentType).defined

/-- `HTTPHeader` throws where the line has no colon. -/
theorem raises_headerParse (buf : Bytes) : Raises (HTTPHeader.parse buf) := by
  rw [HTTPHeader.parse]
  split
  · exact throws_error.2 trivial
  · exact throws_ok _

/-- `HTTPHeader` has no undefined behaviour. -/
theorem defined_headerParse (buf : Bytes) : Defined (HTTPHeader.parse buf) :=
  (raises_headerParse buf).defined

/-- `get_chunk_size` throws or fails its assertion. -/
theorem defined_getChunkSize (chunkHdr : Bytes) : Defined (getChunkSize chunkHdr) := by
  refine (defined_substr chunkHdr _ 2).bind fun tail _ => (defined_assert _).bind fun _ _ => ?_
  dsimp only
  split
  · exact throws_error.2 trivial
  · exact (defined_myatoi _ 16).bind fun _ _ => throws_pure _

namespace ChunkedBodyParser

/-- `compute_ack_size` only fails its assertion. -/
theorem defined_computeAckSize (p : ChunkedBodyParser) (needle : Bytes) (inputSize : ℕ) :
    Defined (p.computeAckSize needle inputSize) := by
  rw [computeAckSize]
  split
  · exact (defined_assert _).bind fun _ _ => throws_pure _
  · exact throws_pure _

/-- The loop body of `ChunkedBodyParser::read`, one case for each state. -/
theorem defined_readStep (inputLength : ℕ) (p : ChunkedBodyParser) :
    Defined (p.readStep inputLength) := by
  rw [readStep]
  refine throws_ite (fun _ => throws_pure _) fun _ => ?_
  split
  · split
    · refine Throws.bind ((defined_getChunkSize _).bind fun _ _ => throws_pure _) fun _ _ => ?_
      exact throws_pure _
    · exact throws_pure _
  · refine throws_ite (fun _ => ?_) fun _ => throws_pure _
    exact Throws.bind ((defined_substr _ _ 2).bind fun _ _ =>
      (defined_assert _).bind fun _ _ => throws_pure _) fun _ _ => throws_pure _
  · exact (defined_computeAckSize p _ inputLength).bind fun _ _ => throws_pure _

end ChunkedBodyParser

/-- `ChunkedBodyParser::read` has no undefined behaviour. -/
theorem ChunkedBodyParser.defined_read (p : ChunkedBodyParser) (input : Bytes) :
    Defined (p.read input) :=
  Loop.run_throws (L := readLoop input.length) (defined_readStep input.length) _

/-- Neither body parser has. -/
theorem defined_parserRead (p : BodyParser) (str : Bytes) : Defined (p.read str) := by
  cases p with
  | rule5 => exact throws_ok _
  | chunked parser =>
      refine (parser.defined_read str).bind fun outcome _ => ?_
      cases outcome <;> exact throws_pure _

namespace HTTPMessage

variable {X : Type}

/-- `get_header_value` throws where there is no such header. -/
theorem raises_getHeaderValue (m : HTTPMessage X) (headerName : Bytes) :
    Raises (m.getHeaderValue headerName) := by
  rw [getHeaderValue]
  split
  · exact throws_ok _
  · exact throws_error.2 trivial

/-- `get_header_value` has no undefined behaviour. -/
theorem defined_getHeaderValue (m : HTTPMessage X) (headerName : Bytes) :
    Defined (m.getHeaderValue headerName) :=
  (m.raises_getHeaderValue headerName).defined

/-- `str` only asserts that the message is complete. -/
theorem defined_str (m : HTTPMessage X) : Defined m.str :=
  (defined_assert _).bind fun _ _ => throws_pure _

/-- `set_first_line` only asserts its state. -/
theorem defined_setFirstLine (m : HTTPMessage X) (str : Bytes) : Defined (m.setFirstLine str) :=
  (defined_assert _).bind fun _ _ => throws_pure _

/-- `add_header` only asserts its state. -/
theorem defined_addHeader (m : HTTPMessage X) (header : HTTPHeader) :
    Defined (m.addHeader header) :=
  (defined_assert _).bind fun _ _ => throws_pure _

/-- `set_expected_body_size` only asserts its state. -/
theorem defined_setExpectedBodySize (m : HTTPMessage X) (isKnown : Bool) (value : ℕ) :
    Defined (m.setExpectedBodySize isKnown value) :=
  (defined_assert _).bind fun _ _ => throws_pure _

/-- `body_size_is_known` only asserts its state. -/
theorem defined_bodySizeIsKnown (m : HTTPMessage X) : Defined m.bodySizeIsKnown :=
  (defined_assert _).bind fun _ _ => throws_pure _

end HTTPMessage

/-- A message type whose virtual functions have no undefined behaviour. -/
class DefinedMessage (X : Type) [MessageType X] : Prop where
  calculate : ∀ m : HTTPMessage X, Defined (MessageType.calculateExpectedBodySize m)
  readInComplexBody : ∀ (m : HTTPMessage X) (str : Bytes),
    Defined (MessageType.readInComplexBody m str)
  eofInBody : ∀ m : HTTPMessage X, Defined (MessageType.eofInBody m)

/-- The same of a parser. -/
class DefinedParser (X : Type) (Q : outParam Type) [ParserType X Q] : Prop
    extends DefinedMessage X where
  initializeNewMessage : ∀ (m : HTTPMessage X) (q : Q), Defined (ParserType.initializeNewMessage m q)

namespace HTTPMessage

variable {X : Type} [MessageType X] [DefinedMessage X]

/-- `done_with_headers` is as defined as the length that the derived class calculates.
-/
theorem defined_doneWithHeaders (m : HTTPMessage X) : Defined m.doneWithHeaders :=
  (defined_assert _).bind fun _ _ => DefinedMessage.calculate _

/-- A header line is parsed, or ends the headers. -/
theorem defined_headerLine (m : HTTPMessage X) (line : Bytes) : Defined (m.headerLine line) := by
  rw [headerLine]
  refine throws_ite (fun _ => m.defined_doneWithHeaders) fun _ => ?_
  exact (defined_assert _).bind fun _ _ => (defined_headerParse line).bind fun _ _ => throws_pure _

/-- `read_in_body`, whether the length is known or not. -/
theorem defined_readInBody (m : HTTPMessage X) (str : Bytes) : Defined (m.readInBody str) := by
  refine (defined_assert _).bind fun _ _ => m.defined_bodySizeIsKnown.bind fun known _ => ?_
  refine throws_ite (fun _ => ?_) fun _ => DefinedMessage.readInComplexBody m str
  refine Throws.bind (m.defined_bodySizeIsKnown.bind fun _ _ =>
    (defined_assert _).bind fun _ _ => throws_pure _) fun size _ => ?_
  exact (defined_assert _).bind fun _ _ => throws_pure _

/-- `eof` throws in the headers, and asks the derived class in the body. -/
theorem defined_eof (m : HTTPMessage X) : Defined m.eof := by
  rw [eof]
  split
  · exact throws_ok _
  · exact throws_error.2 trivial
  · refine (DefinedMessage.eofInBody m).bind fun ends _ => ?_
    exact throws_ite (fun _ => throws_pure _) fun _ => throws_pure _
  · exact throws_error.2 trivial

end HTTPMessage

namespace HTTPMessageSequence

variable {X Q : Type} [ParserType X Q] [DefinedParser X Q]

omit [ParserType X Q] [DefinedParser X Q] in
/-- `pop_bytes` only asserts that there are enough bytes. -/
theorem defined_popBytes (buffer : Bytes) (num : ℕ) : Defined (popBytes buffer num) :=
  (defined_assert _).bind fun _ _ => throws_pure _

omit [ParserType X Q] [DefinedParser X Q] in
/-- `get_and_pop_line` only asserts that there is a line. -/
theorem defined_getAndPopLine (buffer : Bytes) : Defined (getAndPopLine buffer) := by
  rw [getAndPopLine]
  split
  · exact throws_error.2 trivial
  · exact (defined_popBytes _ _).bind fun _ _ => throws_pure _

/-- `parsing_step`, one case for each state of the message. -/
theorem defined_parsingStep (s : HTTPMessageSequence X Q) : Defined s.parsingStep := by
  rw [parsingStep]
  split
  · refine throws_ite (fun _ => throws_pure _) fun _ => ?_
    refine (DefinedParser.initializeNewMessage _ _).bind fun _ _ => ?_
    refine (defined_getAndPopLine _).bind fun _ _ => ?_
    exact (HTTPMessage.defined_setFirstLine _ _).bind fun _ _ => throws_pure _
  · refine throws_ite (fun _ => throws_pure _) fun _ => (defined_getAndPopLine _).bind fun _ _ => ?_
    exact (HTTPMessage.defined_headerLine _ _).bind fun _ _ => throws_pure _
  · refine (HTTPMessage.defined_readInBody _ _).bind fun _ _ => (defined_assert _).bind fun _ _ => ?_
    exact (defined_popBytes _ _).bind fun _ _ => throws_pure _
  · exact throws_pure _

/-- The loop of `parse` has no undefined behaviour. -/
theorem defined_feed (s : HTTPMessageSequence X Q) (buf : Bytes) : Defined (s.feed buf) :=
  Loop.run_throws (L := parseLoop) (fun s =>
    s.defined_parsingStep.bind fun _ _ => throws_pure _) _

/-- **`parse` has no undefined behaviour.** -/
theorem defined_parse (s : HTTPMessageSequence X Q) (buf : Bytes) : Defined (s.parse buf) := by
  rw [parse]
  refine throws_ite (fun _ => ?_) fun _ => s.defined_feed buf
  exact s.messageInProgress.defined_eof.bind fun _ _ => defined_feed _ buf

end HTTPMessageSequence

/-- The virtual functions of requests: a length that is missing or no number throws. -/
instance : DefinedParser RequestMembers RequestParserMembers where
  calculate m := by
    refine (defined_assert _).bind fun _ _ => ?_
    refine throws_ite (fun _ => m.defined_setExpectedBodySize true 0) fun _ => ?_
    refine throws_ite (fun _ => ?_) fun _ => throws_error.2 trivial
    refine throws_ite (fun _ => throws_error.2 trivial) fun _ => ?_
    exact (m.defined_getHeaderValue _).bind fun _ _ => (defined_myatoi _ 10).bind fun _ _ =>
      m.defined_setExpectedBodySize true _
  readInComplexBody _ _ := throws_error.2 trivial
  eofInBody _ := throws_error.2 trivial
  initializeNewMessage _ _ := throws_ok _

namespace HTTPResponse

/-- `status_code` throws where the first line has too few tokens. -/
theorem defined_statusCode (m : HTTPResponse) : Defined m.statusCode := by
  refine (defined_assert _).bind fun _ _ => (defined_split _ _).bind fun tokens _ => ?_
  split
  · exact throws_pure _
  · exact throws_error.2 trivial

/-- The digit of the status code that is looked at is checked to be there. -/
theorem defined_hasNoBody (m : HTTPResponse) : Defined m.hasNoBody := by
  refine m.defined_statusCode.bind fun code _ => ?_
  split
  · exact throws_error.2 trivial
  · refine throws_ite (fun _ => throws_pure _) fun _ => ?_
    exact (defined_assert _).bind fun _ _ => throws_pure _

/-- `split` gives at least one token, so `back` is defined. -/
theorem defined_isChunked (m : HTTPResponse) : Defined m.isChunked := by
  refine throws_ite (fun _ => ?_) fun _ => throws_pure _
  exact (m.defined_getHeaderValue _).bind fun _ _ => (defined_split _ _).bind fun _ _ => throws_pure _

/-- The type of the content is parsed only where there is one. -/
theorem defined_isByteRanges (m : HTTPResponse) : Defined m.isByteRanges := by
  refine throws_ite (fun _ => ?_) fun _ => throws_pure _
  exact (m.defined_getHeaderValue _).bind fun _ _ => (defined_mimeType _).bind fun _ _ => throws_pure _

/-- `calculate_expected_body_size` of a response, branch by branch. -/
theorem defined_calculate (m : HTTPResponse) : Defined (calculateExpectedBodySize m) := by
  refine (defined_assert _).bind fun _ _ => m.defined_hasNoBody.bind fun _ _ => ?_
  refine throws_ite (fun _ => m.defined_setExpectedBodySize true 0) fun _ => ?_
  refine m.defined_isChunked.bind fun _ _ => ?_
  refine throws_ite (fun _ => ?_) fun _ => throws_ite (fun _ => ?_) fun _ => ?_
  · exact (m.defined_setExpectedBodySize false npos).bind fun _ _ => throws_pure _
  · exact (m.defined_getHeaderValue _).bind fun _ _ => (defined_myatoi _ 10).bind fun _ _ =>
      m.defined_setExpectedBodySize true _
  · refine m.defined_isByteRanges.bind fun _ _ => ?_
    refine throws_ite (fun _ => throws_error.2 trivial) fun _ => ?_
    exact (m.defined_setExpectedBodySize false npos).bind fun _ _ => throws_pure _

/-- `set_request` only asserts its state. -/
theorem defined_setRequest (m : HTTPResponse) (request : HTTPRequest) :
    Defined (m.setRequest request) :=
  (defined_assert _).bind fun _ _ => throws_pure _

end HTTPResponse

/-- The virtual functions of responses: one without a matching request throws. -/
instance : DefinedParser ResponseMembers ResponseParserMembers where
  calculate := HTTPResponse.defined_calculate
  readInComplexBody m str := by
    refine (defined_assert _).bind fun _ _ => ?_
    split
    · exact throws_error.2 trivial
    · refine (defined_parserRead _ str).bind fun outcome _ => ?_
      cases outcome <;> exact throws_pure _
  eofInBody m := by
    change Defined (HTTPResponse.eofInBody m)
    rw [HTTPResponse.eofInBody]
    split
    · exact throws_ok _
    · exact throws_error.2 trivial
  initializeNewMessage m q := by
    change Defined (initializeResponse m q)
    rw [initializeResponse]
    split
    · exact throws_error.2 trivial
    · exact (HTTPResponse.defined_setRequest m _).bind fun _ _ => throws_pure _

end V2Proxy
