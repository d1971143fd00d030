/-
# What a request is

A request is a first line, header lines, an empty line, and a body of the length that these
give.  `HeaderLines` says that a text begins with lines that are read as headers, and
`SizedBy` what length they give.  A request parser goes through the lines
(`HeaderLines.run`) and takes the body (`run_body`), so it accepts what has this form
(`run_request`).  It accepts nothing else: what it is given ends with the first message
only if nothing is behind the body, since a line that was begun is a message in progress
(`run_head_iff`, `isRequest_iff`).
-/

import V2Proxy.Http.ContentLength
import V2Proxy.Http.ProducedRequests

namespace V2Proxy

open Foundations HTTPMessageSequence

/-- A request parser that has read up to `buffer`. -/
def HTTPRequestParser.at (buffer : Bytes) (m : HTTPRequest) : HTTPRequestParser where
  buffer := buffer
  messageInProgress := m
  derived := {}

/-- The line is read as this header. -/
def HTTPHeader.ReadFrom (line : Bytes) (header : HTTPHeader) : Prop :=
  find CRLF line = none ∧ HTTPHeader.parse line = .ok header

/-- The text is header lines, read as these headers, and then `tail`. -/
inductive HeaderLines : Bytes → List HTTPHeader → Bytes → Prop
  | done (tail : Bytes) : HeaderLines tail [] tail
  | line {line text tail : Bytes} {header : HTTPHeader} {headers : List HTTPHeader} :
      header.ReadFrom line → HeaderLines text headers tail →
      HeaderLines (line ++ (CRLF ++ text)) (header :: headers) tail

namespace HTTPRequest

/-- The first line and the headers give a body of `n` bytes. -/
def SizedBy (firstLine : Bytes) (headers : List HTTPHeader) (n : ℕ) : Prop :=
  (ofHead firstLine headers).doneWithHeaders =
    .ok { ofHead firstLine headers with expectedBodySize := (true, n), state := .bodyPending }

/-- A request that is complete. -/
def whole (firstLine : Bytes) (headers : List HTTPHeader) (body : Bytes) : HTTPRequest where
  expectedBodySize := (true, body.length)
  firstLine := firstLine
  headers := headers
  body := body
  state := .complete
  derived := {}

/-- There is one length. -/
theorem SizedBy.unique {firstLine : Bytes} {headers : List HTTPHeader} {n n' : ℕ}
    (h : SizedBy firstLine headers n) (h' : SizedBy firstLine headers n') : n = n' := by
  have hsame := Except.ok.inj (h.symm.trans h')
  exact congrArg (fun m : HTTPRequest => m.expectedBodySize.2) hsame

/-- The end of the headers fails, or gives a length. -/
theorem exists_sizedBy {firstLine : Bytes} {headers : List HTTPHeader} {m : HTTPRequest}
    (h : (ofHead firstLine headers).doneWithHeaders = .ok m) :
    ∃ n, SizedBy firstLine headers n ∧
      m = { ofHead firstLine headers with expectedBodySize := (true, n), state := .bodyPending } := by
  have hdone := h
  obtain ⟨_, -, h⟩ := bind_eq_ok.1 h
  obtain ⟨n, rfl, -⟩ := calculate_eq_ok h
  exact ⟨n, hdone, rfl⟩

end HTTPRequest

open HTTPRequest

/-! ### Header lines -/

/-- A line without a colon, an empty one for example, is no header. -/
theorem HTTPHeader.ReadFrom.ne_nil {line : Bytes} {header : HTTPHeader} (h : header.ReadFrom line) :
    line ≠ [] := by
  rintro rfl
  obtain ⟨-, hparse⟩ := h
  rw [HTTPHeader.parse, show find (ascii ":") [] = none by decide] at hparse
  cases hparse

namespace HeaderLines

variable {w tail : Bytes} {headers : List HTTPHeader}

/-- The lines stand in front of what follows them, whatever that is. -/
theorem exists_text (h : HeaderLines w headers tail) :
    ∃ text, w = text ++ tail ∧ ∀ t, HeaderLines (text ++ t) headers t := by
  induction h with
  | done => exact ⟨[], rfl, fun t => .done t⟩
  | line hline _ ih =>
      rename_i line w tail header headers _
      obtain ⟨text, rfl, hany⟩ := ih
      refine ⟨line ++ (CRLF ++ text), ?_, fun t => ?_⟩
      · simp only [List.append_assoc]
      · simp only [List.append_assoc]
        exact .line hline (hany t)

theorem append (h : HeaderLines w headers tail) (t : Bytes) :
    HeaderLines (w ++ t) headers (tail ++ t) := by
  obtain ⟨text, rfl, hany⟩ := h.exists_text
  rw [List.append_assoc]
  exact hany (tail ++ t)

/-- **A header line in front of the buffer** becomes a header. -/
theorem run_line {line : Bytes} {header : HTTPHeader} (h : header.ReadFrom line)
    (firstLine : Bytes) (headers : List HTTPHeader) (rest : Bytes) :
    parseLoop.run (HTTPRequestParser.at (line ++ (CRLF ++ rest)) (ofHead firstLine headers)) =
      parseLoop.run (HTTPRequestParser.at rest (ofHead firstLine (headers ++ [header]))) := by
  have hst : (ofHead firstLine headers).state = .headersPending := rfl
  have hline : (ofHead firstLine headers).headerLine line =
      .ok (ofHead firstLine (headers ++ [header])) := by
    rw [HTTPMessage.headerLine, if_neg h.ne_nil, HTTPMessage.addHeaderLine, assert_of hst, ok_bind,
      h.2, ok_bind]
    rfl
  refine run_of_step ?_
  rw [parsingStep_header (i := line.length) hst (find_CRLF_line h.1 _)]
  change ((ofHead firstLine headers).headerLine ((line ++ (CRLF ++ rest)).take line.length) >>= _) = _
  rw [take_line, hline, ok_bind]
  change Except.ok (true, HTTPRequestParser.at ((line ++ (CRLF ++ rest)).drop (line.length + 2)) _) = _
  rw [drop_line]

/-- **The parser goes through the lines.** -/
theorem run (h : HeaderLines w headers tail) (firstLine : Bytes) (before : List HTTPHeader) :
    parseLoop.run (HTTPRequestParser.at w (ofHead firstLine before)) =
      parseLoop.run (HTTPRequestParser.at tail (ofHead firstLine (before ++ headers))) := by
  induction h generalizing before with
  | done => rw [List.append_nil]
  | line hline _ ih => rw [run_line hline, ih, List.append_assoc, List.singleton_append]

end HeaderLines

/-! ### What is accepted -/

variable {firstLine body : Bytes} {headers : List HTTPHeader}

/-- **An empty line and a body of the right length** complete the request, whatever
follows. -/
theorem run_body (hsize : SizedBy firstLine headers body.length) (rest : Bytes) :
    parseLoop.run (HTTPRequestParser.at (CRLF ++ (body ++ rest)) (ofHead firstLine headers)) =
      parseLoop.run (carry [whole firstLine headers body] (HTTPRequestParser.at rest .fresh)) := by
  set begun : HTTPRequest := { ofHead firstLine headers with
    expectedBodySize := (true, body.length), state := .bodyPending } with hbegun
  have hnil : find CRLF ([] : Bytes) = none := by decide
  have hblank : (HTTPRequestParser.at (CRLF ++ (body ++ rest))
      (ofHead firstLine headers)).parsingStep =
        .ok (true, HTTPRequestParser.at (body ++ rest) begun) := by
    rw [parsingStep_header (i := 0) rfl (find_CRLF_line hnil _)]
    change ((ofHead firstLine headers).headerLine [] >>= _) = _
    rw [HTTPMessage.headerLine, if_pos rfl, hsize, ok_bind]
    rfl
  have hfits : body.length ≤ (body ++ rest).length := by
    rw [List.length_append]
    omega
  have hread : begun.readInBody (body ++ rest) = .ok (body.length, whole firstLine headers body) := by
    rw [HTTPMessage.readInBody_enough (m := begun) rfl rfl (Nat.zero_le _)
      (hfits.trans (Nat.le_add_left _ _))]
    change Except.ok (body.length, { whole firstLine headers [] with
      expectedBodySize := (true, body.length), body := [] ++ (body ++ rest).take body.length }) = _
    rw [List.take_left]
    rfl
  have hbody : (HTTPRequestParser.at (body ++ rest) begun).parsingStep =
      .ok (true, HTTPRequestParser.at rest (whole firstLine headers body)) := by
    rw [parsingStep_bodyEnd (s := HTTPRequestParser.at (body ++ rest) begun) rfl hread hfits rfl]
    change Except.ok (true, HTTPRequestParser.at ((body ++ rest).drop body.length) _) = _
    rw [List.drop_left]
  rw [run_of_step hblank, run_of_step hbody, run_of_step (parsingStep_complete rfl)]
  rfl

/-- A first line in front of the buffer. -/
theorem run_firstLine (hline : find CRLF firstLine = none) (rest : Bytes) :
    parseLoop.run (HTTPRequestParser.at (firstLine ++ (CRLF ++ rest)) .fresh) =
      parseLoop.run (HTTPRequestParser.at rest (ofHead firstLine [])) := by
  refine run_of_step ?_
  rw [parsingStep_firstLine (i := firstLine.length) rfl (find_CRLF_line hline _)]
  change Except.ok (true, HTTPRequestParser.at
    ((firstLine ++ (CRLF ++ rest)).drop (firstLine.length + 2))
    (ofHead ((firstLine ++ (CRLF ++ rest)).take firstLine.length) [])) = _
  rw [take_line, drop_line]

/-- **A text of this form is a request,** whatever follows it. -/
theorem run_request {w : Bytes} {rest : Bytes} (hline : find CRLF firstLine = none)
    (hlines : HeaderLines w headers (CRLF ++ (body ++ rest)))
    (hsize : SizedBy firstLine headers body.length) :
    parseLoop.run (HTTPRequestParser.at (firstLine ++ (CRLF ++ w)) .fresh) =
      parseLoop.run (carry [whole firstLine headers body] (HTTPRequestParser.at rest .fresh)) := by
  rw [run_firstLine hline, hlines.run, List.nil_append, run_body hsize]

/-! ### What is not -/

/-- Something was read: a message is complete, or in progress. -/
def HTTPRequestParser.Begun (s : HTTPRequestParser) : Prop :=
  s.completeMessages ≠ [] ∨ s.messageInProgress.state ≠ .firstLinePending

/-- The end of the headers does not go back to a first line. -/
theorem HTTPRequest.headerLine_begun {m m' : HTTPRequest} {line : Bytes}
    (hst : m.state = .headersPending) (h : m.headerLine line = .ok m') :
    m'.state ≠ .firstLinePending := by
  rw [HTTPMessage.headerLine] at h
  split_ifs at h
  · obtain ⟨_, -, h⟩ := bind_eq_ok.1 h
    obtain ⟨size, rfl, -⟩ := calculate_eq_ok h
    simp
  · obtain ⟨_, -, h⟩ := bind_eq_ok.1 h
    obtain ⟨header, -, h⟩ := bind_eq_ok.1 h
    cases h
    simp [hst]

namespace HTTPRequestParser

variable {s s' : HTTPRequestParser}

/-- **A round begins a message,** or goes on with one. -/
theorem begun_next (hr : Round s s') : s'.Begun := by
  cases hr with
  | firstLine hst hi hm hm' =>
      obtain ⟨_, -, hm'⟩ := bind_eq_ok.1 hm'
      cases hm'
      exact Or.inr (by simp)
  | header hst hi hm => exact Or.inr (HTTPRequest.headerLine_begun hst hm)
  | body hst hm hn hc => exact Or.inr (by simp [hc])
  | complete hst => exact Or.inl (by simp)

end HTTPRequestParser

/-- A line is not complete: the parser waits. -/
theorem run_unfinished {w : Bytes} (hline : find CRLF w = none) {m : HTTPRequest}
    (hst : m.state.rank ≤ 1) :
    parseLoop.run (HTTPRequestParser.at w m) = .ok (HTTPRequestParser.at w m) :=
  run_of_stop (parsingStep_noLine (s := HTTPRequestParser.at w m) hst hline)

/-- **What leaves nothing behind is nothing:** not even the start of a line. -/
theorem eq_nil_of_run {w : Bytes}
    (h : parseLoop.run (HTTPRequestParser.at w .fresh) = .ok HTTPRequestParser.new) : w = [] := by
  rcases hi : find CRLF w with _ | i
  · rw [run_unfinished hi (m := .fresh) (Nat.zero_le 1)] at h
    exact congrArg HTTPMessageSequence.buffer (Except.ok.inj h)
  · have hline : find CRLF (w.take i) = none := find_take_of_find (by decide) hi
    rw [eq_append_of_find hi, run_firstLine hline] at h
    have hbegun : HTTPRequestParser.Begun HTTPRequestParser.new := by
      refine Loop.run_post (L := parseLoop) (I := HTTPRequestParser.Begun)
        (Q := HTTPRequestParser.Begun)
        (fun _ _ _ hn => HTTPRequestParser.begun_next (parseRound_next hn))
        (fun s x hs hl => ?_) (Or.inr ?_) h
      · cases parseRound_leave hl with
        | line => exact hs
        | body hst hm hne =>
            obtain ⟨-, hdone | ⟨hpending, -⟩⟩ := HTTPMessage.readInBody_outcome trivial hst hm
            · exact absurd hdone.1 hne
            · exact Or.inr (by simp [hpending])
      · intro hst
        cases hst
    rcases hbegun with hmessages | hstate
    · exact absurd rfl hmessages
    · exact absurd rfl hstate

/-- A request that is the last of its text has nothing behind it. -/
theorem eq_nil_of_run_carry {m m' : HTTPRequest} {rest : Bytes}
    (h : parseLoop.run (carry [m'] (HTTPRequestParser.at rest .fresh)) =
      .ok (HTTPRequestParser.queued [m])) : rest = [] ∧ m = m' := by
  have hfeed : parseLoop.run (carry [m'] (HTTPRequestParser.at rest .fresh)) =
      parseLoop.run (HTTPRequestParser.at rest .fresh) >>= fun s => .ok (s.carry [m']) :=
    feed_carry [m'] HTTPRequestParser.new rest
  rw [hfeed] at h
  obtain ⟨⟨buffer, ms, m₁, q⟩, hrun, hs⟩ := bind_eq_ok.1 h
  have hs := Except.ok.inj hs
  rw [carry, HTTPRequestParser.queued, carry, HTTPMessageSequence.mk.injEq] at hs
  obtain ⟨rfl, hqueue, rfl, -⟩ := hs
  obtain ⟨rfl, rfl⟩ := List.cons_eq_cons.1 hqueue
  exact ⟨eq_nil_of_run hrun, rfl⟩

/-- **What an empty line makes of the rest:** the body, and nothing else. -/
theorem sizedBy_of_run {m : HTTPRequest} {rest : Bytes}
    (h : parseLoop.run (HTTPRequestParser.at (CRLF ++ rest) (ofHead firstLine headers)) =
      .ok (HTTPRequestParser.queued [m])) :
    SizedBy firstLine headers rest.length ∧ m = whole firstLine headers rest := by
  have hnil : find CRLF ([] : Bytes) = none := by decide
  have hstep := parsingStep_header (i := 0)
    (s := HTTPRequestParser.at (CRLF ++ rest) (ofHead firstLine headers)) rfl
    (find_CRLF_line hnil rest)
  change _ = ((ofHead firstLine headers).doneWithHeaders >>= _) at hstep
  rcases hdone : (ofHead firstLine headers).doneWithHeaders with e | m₁
  · rw [hdone] at hstep
    rw [run_of_fault hstep] at h
    cases h
  obtain ⟨size, hsize, rfl⟩ := exists_sizedBy hdone
  rcases Nat.lt_or_ge rest.length size with hlt | hge
  · -- the body never comes to its end
    set begun : HTTPRequest := { ofHead firstLine headers with
      expectedBodySize := (true, size), state := .bodyPending } with hbegun
    have hshort : begun.body.length + rest.length < size := by
      change 0 + rest.length < size
      omega
    have hread : begun.readInBody rest = .ok (rest.length, { begun with body := [] ++ rest }) :=
      HTTPMessage.readInBody_short rfl rfl hshort
    have hpause := parsingStep_bodyPause (s := HTTPRequestParser.at rest begun) rfl hread
      (by simp [begun])
    rw [hdone] at hstep
    rw [run_of_step hstep] at h
    change parseLoop.run (HTTPRequestParser.at rest begun) = _ at h
    rw [run_of_stop hpause] at h
    cases h
  · have hbody : (rest.take size).length = size := List.length_take_of_le hge
    rw [← hbody] at hsize
    rw [← List.take_append_drop size rest, run_body hsize] at h
    obtain ⟨hend, rfl⟩ := eq_nil_of_run_carry h
    have hall : rest.take size = rest := by
      rw [← List.append_nil (rest.take size), ← hend, List.take_append_drop]
    rw [hall] at hsize ⊢
    exact ⟨hsize, rfl⟩

/-- **What a line that is not empty is:** a header. -/
theorem exists_header_of_run {s : HTTPRequestParser} {line rest : Bytes} (hne : line ≠ [])
    (hline : find CRLF line = none)
    (h : parseLoop.run (HTTPRequestParser.at (line ++ (CRLF ++ rest)) (ofHead firstLine headers)) =
      .ok s) :
    ∃ header, HTTPHeader.ReadFrom line header ∧
      parseLoop.run (HTTPRequestParser.at rest (ofHead firstLine (headers ++ [header]))) = .ok s := by
  rcases hheader : HTTPHeader.parse line with e | header
  · have hst : (ofHead firstLine headers).state = .headersPending := rfl
    have hstep := parsingStep_header
      (s := HTTPRequestParser.at (line ++ (CRLF ++ rest)) (ofHead firstLine headers)) hst
      (find_CRLF_line hline rest)
    change _ = ((ofHead firstLine headers).headerLine
      ((line ++ (CRLF ++ rest)).take line.length) >>= _) at hstep
    rw [take_line, HTTPMessage.headerLine, if_neg hne, HTTPMessage.addHeaderLine, assert_of hst,
      ok_bind, hheader] at hstep
    rw [run_of_fault hstep] at h
    cases h
  · have hread : header.ReadFrom line := ⟨hline, hheader⟩
    rw [HeaderLines.run_line hread] at h
    exact ⟨header, hread, h⟩

/-- **Which texts complete a request whose first lines were read:** header lines, an empty
line, and a body of the length that all of the headers give. -/
theorem run_head_iff {w : Bytes} {m : HTTPRequest} {before : List HTTPHeader} :
    parseLoop.run (HTTPRequestParser.at w (ofHead firstLine before)) =
        .ok (HTTPRequestParser.queued [m]) ↔
      ∃ headers body, HeaderLines w headers (CRLF ++ body) ∧
        SizedBy firstLine (before ++ headers) body.length ∧
        m = whole firstLine (before ++ headers) body := by
  constructor
  · -- by induction on the length of what is still to be read
    induction hn : w.length using Nat.strong_induction_on generalizing w before with
    | _ n ih =>
    intro h
    rcases hi : find CRLF w with _ | i
    · rw [run_unfinished hi (m := ofHead firstLine before) le_rfl] at h
      cases h
    have hline : find CRLF (w.take i) = none := find_take_of_find (by decide) hi
    have hcut : w = w.take i ++ (CRLF ++ w.drop (i + 2)) := eq_append_of_find hi
    by_cases hnil : w.take i = []
    · rw [hnil, List.nil_append] at hcut
      rw [hcut] at h ⊢
      obtain ⟨hsize, hm⟩ := sizedBy_of_run h
      rw [← List.append_nil before] at hsize hm
      exact ⟨[], _, .done _, hsize, hm⟩
    · rw [hcut] at h ⊢
      obtain ⟨header, hread, hrun⟩ := exists_header_of_run hnil hline h
      have hle := add_length_le_of_find hi
      rw [length_CRLF] at hle
      have hlt : (w.drop (i + 2)).length < n := by
        rw [List.length_drop]
        omega
      obtain ⟨headers, body, hlines, hsize, hm⟩ := ih _ hlt rfl hrun
      rw [List.append_assoc, List.singleton_append] at hsize hm
      exact ⟨header :: headers, body, .line hread hlines, hsize, hm⟩
  · rintro ⟨headers, body, hlines, hsize, rfl⟩
    have hrun := run_body hsize []
    rw [List.append_nil] at hrun
    rw [hlines.run, hrun]
    exact run_of_stop rfl

theorem isRequest_iff_run {w : Bytes} {m : HTTPRequest} :
    IsRequest w m ↔
      parseLoop.run (HTTPRequestParser.at w .fresh) = .ok (HTTPRequestParser.queued [m]) := by
  by_cases hnil : w = []
  · subst hnil
    refine iff_of_false (fun h => h.ne_nil rfl) fun h => ?_
    rw [run_unfinished find_CRLF_nil (m := .fresh) (Nat.zero_le 1)] at h
    cases h
  · rw [IsRequest, parse_of_ne_nil HTTPRequestParser.new hnil]
    rfl

/-- **Which texts are one request,** after some of its lines. -/
theorem HeaderLines.isRequest_iff {w tail : Bytes} {m : HTTPRequest} {before : List HTTPHeader}
    (hline : find CRLF firstLine = none) (h : HeaderLines w before tail) :
    IsRequest (firstLine ++ (CRLF ++ w)) m ↔
      ∃ headers body, HeaderLines tail headers (CRLF ++ body) ∧
        SizedBy firstLine (before ++ headers) body.length ∧
        m = whole firstLine (before ++ headers) body := by
  rw [isRequest_iff_run, run_firstLine hline, h.run, List.nil_append, run_head_iff]

/-- A head is that of one request just if the body has the length that it gives. -/
theorem HeaderLines.exists_isRequest_iff {w : Bytes} (hline : find CRLF firstLine = none)
    (h : HeaderLines w headers (CRLF ++ body)) :
    (∃ m, IsRequest (firstLine ++ (CRLF ++ w)) m) ↔ SizedBy firstLine headers body.length := by
  constructor
  · rintro ⟨m, hm⟩
    rw [isRequest_iff_run, run_firstLine hline, h.run] at hm
    exact (sizedBy_of_run hm).1
  · intro hsize
    rw [← List.append_nil headers] at hsize
    exact ⟨_, (h.isRequest_iff hline).2 ⟨[], body, .done _, hsize, rfl⟩⟩

/-- **What is exactly one request:** a first line, header lines, an empty line and a body of
the length that they give. -/
theorem isRequest_iff {w : Bytes} {m : HTTPRequest} :
    IsRequest w m ↔ ∃ head, w = m.firstLine ++ (CRLF ++ head) ∧ find CRLF m.firstLine = none ∧
      HeaderLines head m.headers (CRLF ++ m.body) ∧
      SizedBy m.firstLine m.headers m.body.length ∧ m = whole m.firstLine m.headers m.body := by
  constructor
  · intro h
    rcases hi : find CRLF w with _ | i
    · rw [isRequest_iff_run, run_unfinished hi (m := .fresh) (Nat.zero_le 1)] at h
      cases h
    have hline : find CRLF (w.take i) = none := find_take_of_find (by decide) hi
    have hcut : w = w.take i ++ (CRLF ++ w.drop (i + 2)) := eq_append_of_find hi
    rw [hcut, (HeaderLines.done _).isRequest_iff hline] at h
    obtain ⟨headers, body, hlines, hsize, rfl⟩ := h
    exact ⟨w.drop (i + 2), hcut, hline, hlines, hsize, rfl⟩
  · rintro ⟨head, rfl, hline, hlines, hsize, hm⟩
    exact ((HeaderLines.done head).isRequest_iff hline).2 ⟨m.headers, m.body, hlines, hsize, hm⟩

end V2Proxy
