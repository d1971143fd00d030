/-
# Forwarding a request twice

A proxy parses a request and writes `str` of it to the next one.  What the next one parses
is the same request, except for its empty headers: `str` puts a space behind the colon,
and the constructor of `HTTPHeader` strips leading spaces unless there is nothing else.
So a value of spaces only grows by one with every proxy (`parse_serialize`), and a
request passes unchanged just if no header is empty (`forwarded_iff`).
-/

import V2Proxy.Http.RequestGrammar
import Mathlib.Data.List.DropRight
import Mathlib.Data.List.TakeWhile

namespace V2Proxy

open Foundations HTTPMessageSequence

/-! ### A header line -/

theorem stripSpaces_eq_nil {v : Bytes} : stripSpaces v = [] ↔ ∀ c ∈ v, c = 32 := by
  rw [stripSpaces, List.dropWhile_eq_nil_iff]
  simp

namespace HTTPHeader

/-- What the next parser makes of the header. -/
def respace (header : HTTPHeader) : HTTPHeader :=
  if stripSpaces header.value = [] then { header with value := 32 :: header.value } else header

@[simp] theorem key_respace (header : HTTPHeader) : header.respace.key = header.key := by
  unfold respace
  split_ifs <;> rfl

/-- A header is unchanged just if it is not empty. -/
theorem respace_eq_iff {header : HTTPHeader} :
    header.respace = header ↔ ∃ c ∈ header.value, c ≠ 32 := by
  have hnil : stripSpaces header.value ≠ [] ↔ ∃ c ∈ header.value, c ≠ 32 := by
    rw [Ne, stripSpaces_eq_nil]
    push Not
    rfl
  rw [← hnil, respace]
  split_ifs with h
  · refine ⟨fun heq => ?_, fun hne => absurd h hne⟩
    have hlength := congrArg (fun header => header.value.length) heq
    simp at hlength
  · exact ⟨fun _ => h, fun _ => rfl⟩

/-- A header that was read from a line has no colon in its key and no space in front of its
value, and no line ends in it. -/
theorem FromLine.shape {header : HTTPHeader} (h : header.FromLine) :
    find (ascii ":") header.key = none ∧
      (stripSpaces header.value = [] ∨ stripSpaces header.value = header.value) ∧
      find CRLF header.key = none ∧ find CRLF header.value = none := by
  obtain ⟨line, hline, hparse⟩ := h
  rw [HTTPHeader.parse] at hparse
  split at hparse
  · cases hparse
  rename_i i hi
  cases hparse
  have hstrip : ∀ v : Bytes, stripSpaces v <:+ v := fun v => List.dropWhile_suffix _
  refine ⟨find_take_of_find (by decide) hi, ?_, ?_, ?_⟩
  · dsimp only
    split_ifs with hnil
    · exact Or.inl hnil
    · refine Or.inr ?_
      exact List.dropWhile_idempotent _ _
  · exact find_eq_none_of_infix hline (List.take_prefix i line).isInfix
  · refine find_eq_none_of_infix hline ?_
    dsimp only
    split_ifs
    · exact (List.drop_suffix _ _).isInfix
    · exact ((hstrip _).trans (List.drop_suffix _ _)).isInfix

/-- The line of a header is one line. -/
theorem FromLine.find_CRLF_str {header : HTTPHeader} (h : header.FromLine) :
    find CRLF header.str = none := by
  obtain ⟨-, -, hkey, hvalue⟩ := h.shape
  refine find_eq_none_iff.2 fun hfound => ?_
  rw [str, List.append_assoc] at hfound
  rcases infix_append_cases (by decide) (by decide +kernel) hfound with hfound | hfound
  · exact find_eq_none_iff.1 hkey hfound
  · exact find_eq_none_iff.1 hvalue hfound

/-- **What the line of a header is parsed to.** -/
theorem FromLine.parse_str {header : HTTPHeader} (h : header.FromLine) :
    HTTPHeader.parse header.str = .ok header.respace := by
  obtain ⟨hcolon, hvalue, -, -⟩ := h.shape
  have hascii : ascii ":" = [58] := by decide
  have hstr : header.str = header.key ++ (ascii ":" ++ 32 :: header.value) := by
    rw [str, List.append_assoc]
    rfl
  have hfind : find (ascii ":") header.str = some header.key.length := by
    rw [hstr]
    refine find_append_self _ fun j hj hpre => ?_
    rw [List.drop_eq_getElem_cons hj, hascii, List.cons_append, List.cons_prefix_cons] at hpre
    have hmem : (58 : UInt8) ∈ header.key := hpre.1 ▸ List.getElem_mem hj
    obtain ⟨before, after, hsplit⟩ := List.append_of_mem hmem
    refine find_eq_none_iff.1 hcolon ⟨before, after, ?_⟩
    rw [hascii, hsplit, List.append_assoc]
    rfl
  have hdrop : header.str.drop (header.key.length + 1) = 32 :: header.value := by
    rw [hstr, hascii, ← List.append_assoc]
    exact List.drop_left' (by rw [List.length_append, List.length_singleton])
  have hspace : stripSpaces (32 :: header.value) = stripSpaces header.value := rfl
  rw [HTTPHeader.parse, hfind]
  dsimp only
  rw [hdrop, hspace, respace]
  have htake : header.str.take header.key.length = header.key := by
    rw [hstr, List.take_left]
  rw [htake]
  split_ifs with hnil
  · rfl
  · rw [hvalue.resolve_left hnil]

end HTTPHeader

/-! ### The headers fix the same length -/

/-- Nothing but spaces is no number. -/
theorem myatoi_spaces {v : Bytes} (h : stripSpaces v = []) (base : ℕ) {n : ℤ} :
    myatoi v base ≠ .ok n := by
  intro hok
  rw [myatoi] at hok
  split_ifs at hok with hnil
  have hspaces : v.takeWhile isSpace = v := by
    refine List.takeWhile_eq_self_iff.2 fun c hc => ?_
    rw [stripSpaces_eq_nil.1 h c hc]
    rfl
  have hnone : (strtol v base).consumed = 0 := by
    simp only [strtol, hspaces, List.drop_length, List.drop_nil, List.takeWhile_nil]
    rfl
  dsimp only at hok
  rw [hnone] at hok
  have hlength : 0 ≠ v.length := fun hzero => hnil (List.length_eq_zero_iff.1 hzero.symm)
  rw [if_pos hlength] at hok
  split_ifs at hok

namespace HTTPRequest

/-- What the next parser makes of the request. -/
def respace (m : HTTPRequest) : HTTPRequest := { m with headers := m.headers.map HTTPHeader.respace }

variable {m m' : HTTPRequest}

/-- Respacing keeps the number that a header gives. -/
theorem myatoi_respace {header : HTTPHeader} {base : ℕ} {n : ℤ}
    (h : myatoi header.value base = .ok n) : header.respace = header := by
  unfold HTTPHeader.respace
  split_ifs with hnil
  · exact absurd h (myatoi_spaces hnil base)
  · rfl

theorem hasHeader_respace (m : HTTPRequest) (name : Bytes) :
    m.respace.hasHeader name = m.hasHeader name := by
  simp [HTTPMessage.hasHeader, respace, List.any_map, Function.comp_def]

/-- **Respacing keeps the length of the body.** -/
theorem calculate_respace (h : calculateExpectedBodySize m = .ok m') :
    calculateExpectedBodySize m.respace = .ok m'.respace := by
  have hset : ∀ {size}, m.setExpectedBodySize true size = .ok m' →
      m.respace.setExpectedBodySize true size = .ok m'.respace := by
    intro size h
    obtain ⟨_, hst, h⟩ := bind_eq_ok.1 h
    cases h
    have hst : m.respace.state = .bodyPending := assert_eq_ok.1 hst
    rw [HTTPMessage.setExpectedBodySize, assert_of hst, ok_bind]
    rfl
  obtain ⟨_, hst, h⟩ := bind_eq_ok.1 h
  have hst : m.respace.state = .bodyPending := assert_eq_ok.1 hst
  have hline : m.respace.firstLine = m.firstLine := rfl
  rw [calculateExpectedBodySize, assert_of hst, ok_bind, hasHeader_respace, hline]
  by_cases hget : m.firstLine.take 4 = ascii "GET " ∨ m.firstLine.take 5 = ascii "HEAD "
  · rw [if_pos hget] at h ⊢
    exact hset h
  rw [if_neg hget] at h ⊢
  by_cases hpost : m.firstLine.take 5 = ascii "POST "
  · rw [if_pos hpost] at h ⊢
    split_ifs at h with hhas
    rw [if_neg hhas]
    obtain ⟨value, hvalue, h⟩ := bind_eq_ok.1 h
    obtain ⟨size, hsize, h⟩ := bind_eq_ok.1 h
    have hvalue' : m.respace.getHeaderValue (ascii "Content-Length") = .ok value := by
      rw [HTTPMessage.getHeaderValue] at hvalue ⊢
      split at hvalue
      · rename_i header hfind
        cases hvalue
        have hfind' : m.respace.headers.find?
            (fun header => equivalentStrings header.key (ascii "Content-Length")) = some header := by
          rw [respace, List.find?_map]
          simp only [Function.comp_def, HTTPHeader.key_respace]
          rw [hfind, Option.map_some, myatoi_respace hsize]
        rw [hfind']
      · cases hvalue
    rw [hvalue', ok_bind, hsize, ok_bind]
    exact hset h
  · rw [if_neg hpost] at h
    cases h

/-- So do all the headers. -/
theorem Framed.done_respace (h : m.Framed) : m.respace.head.doneWithHeaders = .ok m.respace.begun := by
  have hst : m.head.state = .headersPending := rfl
  have hst' : m.respace.head.state = .headersPending := rfl
  have hdone := h.done
  rw [HTTPMessage.doneWithHeaders, assert_of hst, ok_bind] at hdone
  rw [HTTPMessage.doneWithHeaders, assert_of hst', ok_bind]
  exact calculate_respace hdone

end HTTPRequest

/-! ### Parsing what was serialized -/

/-- The headers of a message, as `str` writes them, are read with a space more in those
that are empty. -/
theorem headerLines_str {headers : List HTTPHeader} (h : ∀ header ∈ headers, header.FromLine)
    (tail : Bytes) :
    HeaderLines (headers.flatMap (fun header => header.str ++ CRLF) ++ tail)
      (headers.map HTTPHeader.respace) tail := by
  induction headers with
  | nil => exact .done tail
  | cons header headers ih =>
      obtain ⟨hheader, hrest⟩ := List.forall_mem_cons.1 h
      rw [List.flatMap_cons, List.append_assoc, List.append_assoc, List.map_cons]
      exact .line ⟨hheader.find_CRLF_str, hheader.parse_str⟩ (ih hrest)

/-- **What a serialized request is parsed to,** whatever follows it. -/
theorem run_serialize {m : HTTPRequest} (h : m.Framed) (hst : m.state = .complete) (rest : Bytes) :
    parseLoop.run (HTTPRequestParser.at (m.serialize ++ rest) .fresh) =
      parseLoop.run (carry [m.respace] (HTTPRequestParser.at rest .fresh)) := by
  have hbuffer : m.serialize ++ rest = m.firstLine ++ (CRLF ++
      (m.headers.flatMap (fun header => header.str ++ CRLF) ++ (CRLF ++ (m.body ++ rest)))) := by
    simp only [HTTPMessage.serialize, List.append_assoc]
  have hsize : m.expectedBodySize = (true, m.body.length) :=
    Prod.ext h.known (h.full hst).symm
  have hsized : HTTPRequest.SizedBy m.firstLine (m.headers.map HTTPHeader.respace) m.body.length := by
    have hdone := h.done_respace
    rw [show m.respace.begun = { HTTPRequest.ofHead m.firstLine (m.headers.map HTTPHeader.respace) with
      expectedBodySize := m.expectedBodySize, state := .bodyPending } from rfl, hsize] at hdone
    exact hdone
  have hwhole : HTTPRequest.whole m.firstLine (m.headers.map HTTPHeader.respace) m.body = m.respace := by
    rw [HTTPRequest.whole, ← hsize, ← hst]
    rfl
  rw [hbuffer, run_request h.lines.firstLine (headerLines_str h.lines.headers _) hsized, hwhole]

theorem serialize_ne_nil {X : Type} (m : HTTPMessage X) : m.serialize ≠ [] := by
  intro hnil
  have hlength := congrArg List.length hnil
  simp only [HTTPMessage.serialize, List.length_append, length_CRLF, List.length_nil] at hlength
  omega

/-- **What a stream of serialized requests is parsed to:** the same requests, with a space
more in the headers that are empty. -/
theorem parse_serialize {ms : List HTTPRequest}
    (h : ∀ m ∈ ms, HTTPRequest.Framed m ∧ m.state = .complete) :
    HTTPRequestParser.new.parse (ms.map HTTPMessage.serialize).flatten =
      .ok (HTTPRequestParser.queued (ms.map HTTPRequest.respace)) := by
  have hfeed : HTTPRequestParser.new.feed (ms.map HTTPMessage.serialize).flatten =
      .ok (HTTPRequestParser.queued (ms.map HTTPRequest.respace)) := by
    induction ms with
    | nil => decide +kernel
    | cons m ms ih =>
        obtain ⟨⟨hframed, hst⟩, hms⟩ := List.forall_mem_cons.1 h
        rw [List.map_cons, List.map_cons, List.flatten_cons]
        change parseLoop.run (HTTPRequestParser.at
          (m.serialize ++ (ms.map HTTPMessage.serialize).flatten) .fresh) = _
        rw [run_serialize hframed hst]
        change (HTTPRequestParser.new.carry [m.respace]).feed (ms.map HTTPMessage.serialize).flatten = _
        rw [feed_carry, ih hms, ok_bind, HTTPRequestParser.queued, carry_carry]
        rfl
  cases ms with
  | nil => exact HTTPRequestParser.queued_eof []
  | cons m ms =>
      rw [parse_of_ne_nil _ ?_, hfeed]
      rw [List.map_cons, List.flatten_cons]
      exact List.append_ne_nil_of_left_ne_nil (serialize_ne_nil m) _

/-- Complete messages are serialized one by one. -/
theorem mapM_str {ms : List HTTPRequest} (h : ∀ m ∈ ms, m.state = .complete) :
    ms.mapM HTTPMessage.str = .ok (ms.map HTTPMessage.serialize) := by
  induction ms with
  | nil => rfl
  | cons m ms ih =>
      obtain ⟨hst, hms⟩ := List.forall_mem_cons.1 h
      rw [List.mapM_cons, HTTPMessage.str, assert_of hst, ok_bind, ih hms]
      rfl

theorem map_eq_self_iff {α : Type} {f : α → α} {l : List α} : l.map f = l ↔ ∀ a ∈ l, f a = a := by
  induction l with
  | nil => simp
  | cons a l ih => simp [ih]

/-- **Forwarding a list of requests yields the same list just if none of their headers is
empty.** -/
theorem forwarded_iff {ms : List HTTPRequest} (h : ∀ m ∈ ms, Produced m) :
    (ms.mapM HTTPMessage.str >>= fun texts => HTTPRequestParser.new.parse texts.flatten) =
        .ok (HTTPRequestParser.queued ms) ↔
      ∀ m ∈ ms, ∀ header ∈ m.headers, ∃ c ∈ header.value, c ≠ 32 := by
  have hframed : ∀ m ∈ ms, HTTPRequest.Framed m ∧ m.state = .complete := fun m hm => (h m hm).framed
  rw [mapM_str fun m hm => (hframed m hm).2, ok_bind, parse_serialize hframed]
  have hqueued : (Except.ok (HTTPRequestParser.queued (ms.map HTTPRequest.respace)) :
      Except Fault HTTPRequestParser) = .ok (HTTPRequestParser.queued ms) ↔
        ms.map HTTPRequest.respace = ms := by
    constructor
    · intro heq
      have hmessages := congrArg HTTPMessageSequence.completeMessages (Except.ok.inj heq)
      rwa [HTTPRequestParser.completeMessages_queued, HTTPRequestParser.completeMessages_queued]
        at hmessages
    · intro heq
      rw [heq]
  have hmessage : ∀ m : HTTPRequest, m.respace = m ↔
      ∀ header ∈ m.headers, ∃ c ∈ header.value, c ≠ 32 := by
    intro m
    have hheaders : m.respace = m ↔ m.headers.map HTTPHeader.respace = m.headers := by
      constructor
      · exact fun heq => congrArg HTTPMessage.headers heq
      · intro heq
        rw [HTTPRequest.respace, heq]
    rw [hheaders, map_eq_self_iff]
    simp only [HTTPHeader.respace_eq_iff]
  rw [hqueued, map_eq_self_iff]
  simp only [hmessage]

/-- The request of a text that is a single request. -/
theorem IsRequest.produced {w : Bytes} {m : HTTPRequest} (h : IsRequest w m) : Produced m := by
  refine ⟨[w], HTTPRequestParser.queued [m], ?_, by simp⟩
  rw [List.foldlM_cons, show HTTPRequestParser.new.parse w = _ from h]
  rfl

/-- A request with a header of given value. -/
def oneHeader (value : Bytes) : HTTPRequest where
  expectedBodySize := (true, 0)
  firstLine := ascii "GET / HTTP/1.1"
  headers := [{ key := ascii "Host", value := value }]
  state := .complete
  derived := {}

/-- A request that passes unchanged. -/
theorem forwarded_iff_host :
    Produced (oneHeader (ascii "a")) ∧
      ([oneHeader (ascii "a")].mapM HTTPMessage.str >>= fun texts =>
        HTTPRequestParser.new.parse texts.flatten) =
        .ok (HTTPRequestParser.queued [oneHeader (ascii "a")]) := by
  have hrequest : IsRequest (ascii "GET / HTTP/1.1\r\nHost:  a\r\n\r\n") (oneHeader (ascii "a")) := by
    unfold IsRequest
    decide +kernel
  have hproduced : ∀ m ∈ [oneHeader (ascii "a")], Produced m := by
    intro m hm
    rw [List.mem_singleton.1 hm]
    exact hrequest.produced
  exact ⟨hrequest.produced, (forwarded_iff hproduced).2 (by decide)⟩

/-- **A header without a value is changed:** the value becomes a space. -/
theorem empty_header_grows :
    Produced (oneHeader []) ∧
      ([oneHeader []].mapM HTTPMessage.str >>= fun texts =>
        HTTPRequestParser.new.parse texts.flatten) =
        .ok (HTTPRequestParser.queued [oneHeader (ascii " ")]) ∧
      HTTPRequestParser.queued [oneHeader (ascii " ")] ≠ HTTPRequestParser.queued [oneHeader []] := by
  have hrequest : IsRequest (ascii "GET / HTTP/1.1\r\nHost:\r\n\r\n") (oneHeader []) := by
    unfold IsRequest
    decide +kernel
  exact ⟨hrequest.produced, by decide +kernel, by decide +kernel⟩

end V2Proxy
