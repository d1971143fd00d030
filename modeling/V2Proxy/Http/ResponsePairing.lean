/-
# Which request a response answers

An `HTTPResponseParser` takes over the request in front of its queue when it
starts a message.  `requests` lists the requests of its complete messages, of the
message in progress and of those still pending: parsing only moves requests along
this list (`parse_requests`), `new_request_arrived` appends to it and `pop` takes
off its front.  So the responses answer the requests in the order in which these
arrived, whatever the bytes are.

Between two calls of `parse` the parser is `Waiting`: settled, and with a new
message when none has begun.
-/

import V2Proxy.Http.RequestStream

namespace V2Proxy

open Foundations

/-- A message that waits for its body has its first line. -/
theorem bodyPending_ne : HTTPMessageState.bodyPending ≠ .firstLinePending := by decide

namespace HTTPResponse

variable {m m' : HTTPResponse} {n : ℕ} {b line : Bytes}

/-- Setting the length keeps the request and the state. -/
theorem setExpectedBodySize_frame {isKnown : Bool} {value : ℕ}
    (h : m.setExpectedBodySize isKnown value = .ok m') :
    m'.request = m.request ∧ m'.state = m.state := by
  obtain ⟨_, -, h⟩ := bind_eq_ok.1 h
  cases h
  exact ⟨rfl, rfl⟩

/-- Calculating the length keeps them. -/
theorem calculate_frame (h : calculateExpectedBodySize m = .ok m') :
    m'.request = m.request ∧ m'.state = m.state := by
  obtain ⟨_, -, h⟩ := bind_eq_ok.1 h
  obtain ⟨noBody, -, h⟩ := bind_eq_ok.1 h
  cases noBody with
  | true => exact setExpectedBodySize_frame h
  | false =>
      obtain ⟨chunked, -, h⟩ := bind_eq_ok.1 h
      cases chunked with
      | true =>
          obtain ⟨m₁, hm₁, h⟩ := bind_eq_ok.1 h
          cases h
          obtain ⟨hreq, hst⟩ := setExpectedBodySize_frame hm₁
          exact ⟨hreq, hst⟩
      | false =>
          simp only [Bool.false_eq_true, if_false] at h
          split_ifs at h with hlength
          · obtain ⟨value, -, h⟩ := bind_eq_ok.1 h
            obtain ⟨size, -, h⟩ := bind_eq_ok.1 h
            exact setExpectedBodySize_frame h
          · obtain ⟨byteRanges, -, h⟩ := bind_eq_ok.1 h
            cases byteRanges with
            | true => cases h
            | false =>
                obtain ⟨m₁, hm₁, h⟩ := bind_eq_ok.1 h
                cases h
                obtain ⟨hreq, hst⟩ := setExpectedBodySize_frame hm₁
                exact ⟨hreq, hst⟩

/-- A header line keeps the request, and the message has begun. -/
theorem headerLine_frame (h : m.headerLine line = .ok m') :
    m'.request = m.request ∧ m'.state ≠ .firstLinePending := by
  rw [HTTPMessage.headerLine] at h
  split_ifs at h
  · obtain ⟨_, -, h⟩ := bind_eq_ok.1 h
    obtain ⟨hreq, hst⟩ := calculate_frame h
    exact ⟨hreq, hst ▸ bodyPending_ne⟩
  · obtain ⟨_, hst, h⟩ := bind_eq_ok.1 h
    obtain ⟨_, -, h⟩ := bind_eq_ok.1 h
    cases h
    refine ⟨rfl, ?_⟩
    change m.state ≠ _
    rw [assert_eq_ok.1 hst]
    decide

/-- A body of unknown length keeps the request. -/
theorem readInComplexBody_frame (hst : m.state = .bodyPending)
    (h : readInComplexBody m b = .ok (n, m')) :
    m'.request = m.request ∧ m'.state ≠ .firstLinePending := by
  obtain ⟨_, -, h⟩ := bind_eq_ok.1 h
  split at h
  · cases h
  · obtain ⟨outcome, -, h⟩ := bind_eq_ok.1 h
    cases outcome with
    | npos parser =>
        cases h
        refine ⟨rfl, ?_⟩
        change m.state ≠ _
        rw [hst]
        exact bodyPending_ne
    | ends amount =>
        cases h
        refine ⟨rfl, ?_⟩
        change HTTPMessageState.complete ≠ _
        decide

/-- So does any part of a body. -/
theorem readInBody_frame (hst : m.state = .bodyPending) (h : m.readInBody b = .ok (n, m')) :
    m'.request = m.request ∧ m'.state ≠ .firstLinePending := by
  obtain ⟨_, -, h⟩ := bind_eq_ok.1 h
  obtain ⟨known, -, h⟩ := bind_eq_ok.1 h
  cases known with
  | true =>
      obtain ⟨size, -, h⟩ := bind_eq_ok.1 h
      obtain ⟨_, -, h⟩ := bind_eq_ok.1 h
      cases h
      refine ⟨rfl, ?_⟩
      dsimp only
      split_ifs
      · decide
      · rw [hst]
        decide
  | false => exact readInComplexBody_frame hst h

end HTTPResponse

namespace HTTPResponseParser

open HTTPMessageSequence

variable {s s' : HTTPResponseParser} {b : Bytes}

/-- The requests whose responses are still to come, the one in progress first. -/
def inFlight (s : HTTPResponseParser) : List HTTPRequest :=
  if s.messageInProgress.state = .firstLinePending then s.derived.requests
  else s.messageInProgress.derived.request :: s.derived.requests

/-- The requests that have arrived and whose responses have not been popped. -/
def requests (s : HTTPResponseParser) : List HTTPRequest :=
  s.completeMessages.map HTTPResponse.request ++ s.inFlight

/-- A response that has begun is in flight. -/
theorem inFlight_begun (h : s.messageInProgress.state ≠ .firstLinePending) :
    s.inFlight = s.messageInProgress.derived.request :: s.derived.requests := if_neg h

/-- **A round moves requests along.** -/
theorem round_requests (h : Round s s') : s'.requests = s.requests := by
  cases h with
  | firstLine hst hi hm hm' =>
      rename_i i m m' q
      obtain ⟨_, -, hm'⟩ := bind_eq_ok.1 hm'
      cases hm'
      change initializeResponse s.messageInProgress s.derived = _ at hm
      rw [initializeResponse] at hm
      split at hm
      · cases hm
      · rename_i request rest hrequests
        obtain ⟨m₁, hm₁, hm⟩ := bind_eq_ok.1 hm
        obtain ⟨_, -, hm₁⟩ := bind_eq_ok.1 hm₁
        cases hm₁
        cases hm
        change s.completeMessages.map HTTPResponse.request ++ request :: rest = s.requests
        rw [requests, inFlight, if_pos hst, hrequests]
  | header hst hi hm =>
      obtain ⟨hreq, hne⟩ := HTTPResponse.headerLine_frame hm
      rw [requests, requests, inFlight_begun hne, inFlight_begun (by rw [hst]; decide)]
      exact congrArg (fun r => _ ++ r :: _) hreq
  | body hst hm hn hc =>
      obtain ⟨hreq, hne⟩ := HTTPResponse.readInBody_frame hst hm
      rw [requests, requests, inFlight_begun hne, inFlight_begun (by rw [hst]; decide)]
      exact congrArg (fun r => _ ++ r :: _) hreq
  | complete hst =>
      change (s.completeMessages ++ [s.messageInProgress]).map HTTPResponse.request ++
        s.derived.requests = s.requests
      rw [requests, inFlight_begun (by rw [hst]; decide), List.map_append, List.append_assoc]
      rfl

/-- So does the round that stops. -/
theorem pause_requests (h : Pause s s') : s'.requests = s.requests := by
  cases h with
  | line => rfl
  | body hst hm hne =>
      obtain ⟨hreq, hbegun⟩ := HTTPResponse.readInBody_frame hst hm
      rw [requests, requests, inFlight_begun hbegun, inFlight_begun (by rw [hst]; decide)]
      exact congrArg (fun r => _ ++ r :: _) hreq

/-- Parsing keeps the requests, answered or not. -/
theorem feed_requests (h : s.feed b = .ok s') : s'.requests = s.requests := by
  refine Loop.run_post (L := parseLoop) (I := fun s₁ => requests s₁ = s.requests)
    (Q := fun s₁ => requests s₁ = s.requests) (fun s₁ s₂ hs₁ hn => ?_) (fun s₁ s₂ hs₁ hl => ?_)
    (s := { s with buffer := s.buffer ++ b }) rfl h
  · rw [round_requests (parseRound_next hn), hs₁]
  · rw [pause_requests (parseRound_leave hl), hs₁]

/-- EOF completes the message in progress, or leaves it as it is. -/
theorem eof_frame {m m' : HTTPResponse} (h : m.eof = .ok m') :
    m' = m ∨ m.state = .bodyPending ∧ m' = { m with state := .complete } := by
  rw [HTTPMessage.eof] at h
  split at h
  · cases h
    exact Or.inl rfl
  · cases h
  · rename_i hst
    obtain ⟨ends, -, h⟩ := bind_eq_ok.1 h
    cases ends with
    | true =>
        cases h
        exact Or.inr ⟨hst, rfl⟩
    | false =>
        cases h
        exact Or.inl rfl
  · cases h

/-- **Parsing moves requests along,** EOF included. -/
theorem parse_requests (h : s.parse b = .ok s') : s'.requests = s.requests := by
  rw [HTTPMessageSequence.parse] at h
  split_ifs at h
  · obtain ⟨m, hm, h⟩ := bind_eq_ok.1 h
    rw [feed_requests h]
    rcases eof_frame hm with rfl | ⟨hst, rfl⟩
    · rfl
    · change s.completeMessages.map HTTPResponse.request ++
        s.messageInProgress.derived.request :: s.derived.requests = s.requests
      rw [requests, inFlight_begun (by rw [hst]; decide)]
  · exact feed_requests h

/-- A new request is the last one. -/
theorem newRequestArrived_requests (s : HTTPResponseParser) (request : HTTPRequest) :
    (s.newRequestArrived request).requests = s.requests ++ [request] := by
  have hin : (s.newRequestArrived request).inFlight = s.inFlight ++ [request] := by
    by_cases hst : s.messageInProgress.state = .firstLinePending
    · have hst' : (s.newRequestArrived request).messageInProgress.state = .firstLinePending := hst
      rw [inFlight, inFlight, if_pos hst, if_pos hst']
      rfl
    · have hst' : (s.newRequestArrived request).messageInProgress.state ≠ .firstLinePending := hst
      rw [inFlight_begun hst, inFlight_begun hst']
      rfl
  rw [requests, requests, hin, List.append_assoc]
  rfl

/-- What holds of a response parser between two calls of `parse`. -/
structure Waiting (s : HTTPResponseParser) : Prop where
  settled : s.Settled
  fresh : s.messageInProgress.state = .firstLinePending → s.messageInProgress = .fresh

/-- A new parser waits for nothing. -/
theorem waiting_new : HTTPResponseParser.new.Waiting := ⟨settled_pending [], fun _ => rfl⟩

/-- A round leaves no message behind that has not begun. -/
theorem round_fresh (h : Round s s') :
    s'.messageInProgress.state = .firstLinePending → s'.messageInProgress = .fresh := by
  cases h with
  | firstLine hst hi hm hm' =>
      obtain ⟨_, -, hm'⟩ := bind_eq_ok.1 hm'
      cases hm'
      intro hpending
      cases hpending
  | header hst hi hm => exact fun hpending => absurd hpending (HTTPResponse.headerLine_frame hm).2
  | body hst hm hn hc =>
      exact fun hpending => absurd hpending (HTTPResponse.readInBody_frame hst hm).2
  | complete hst => exact fun _ => rfl

/-- A message without a first line is as the constructor leaves it, also where `parse`
stops. -/
theorem pause_fresh (h : Pause s s')
    (hs : s.messageInProgress.state = .firstLinePending → s.messageInProgress = .fresh) :
    s'.messageInProgress.state = .firstLinePending → s'.messageInProgress = .fresh := by
  cases h with
  | line => exact hs
  | body hst hm hne =>
      exact fun hpending => absurd hpending (HTTPResponse.readInBody_frame hst hm).2

/-- Where `parse` stops, the parser is waiting. -/
theorem run_waiting {room : ℕ} (hs : s.Reading room)
    (hfresh : s.messageInProgress.state = .firstLinePending → s.messageInProgress = .fresh)
    (h : parseLoop.run s = .ok s') : s'.Waiting := by
  refine Loop.run_post (L := parseLoop)
    (I := fun s => s.Reading room ∧
      (s.messageInProgress.state = .firstLinePending → s.messageInProgress = .fresh))
    (Q := Waiting) (fun s₁ s₂ hs₁ hn => ?_) (fun s₁ s₂ hs₁ hl => ?_) ⟨hs, hfresh⟩ h
  · exact ⟨hs₁.1.next (parseRound_next hn), round_fresh (parseRound_next hn)⟩
  · exact ⟨hs₁.1.pause (parseRound_leave hl), pause_fresh (parseRound_leave hl) hs₁.2⟩

/-- **A call of `parse` leaves a waiting parser,** also at EOF. -/
theorem Waiting.parse (hs : s.Waiting) (h : s.parse b = .ok s') : s'.Waiting := by
  rw [HTTPMessageSequence.parse] at h
  split_ifs at h with hb
  · subst hb
    obtain ⟨m, hm, h⟩ := bind_eq_ok.1 h
    rcases eof_frame hm with rfl | ⟨hst, rfl⟩
    · exact run_waiting (hs.settled.reading []) hs.fresh h
    · have hreading : Reading 0 (extend { s with
          messageInProgress := { s.messageInProgress with state := .complete } } []) :=
        .of_length hs.settled.derived (by
          change (s.buffer ++ []).length ≤ 0
          rw [hs.settled.body hst, List.append_nil, List.length_nil])
      exact run_waiting hreading (fun hpending => by cases hpending) h
  · exact run_waiting (hs.settled.reading b) hs.fresh h

/-- Neither what is in the queue matters, nor which requests have arrived. -/
theorem settled_carry {ms : List HTTPResponse} : Settled (s.carry ms) ↔ s.Settled := by
  constructor
  · rintro ⟨hderived, hstate, hline, hbody⟩
    exact ⟨hderived, hstate, hline, hbody⟩
  · rintro ⟨hderived, hstate, hline, hbody⟩
    exact ⟨hderived, hstate, hline, hbody⟩

/-- The settled states do not depend on the requests. -/
theorem settled_newRequestArrived (hs : s.Settled) (request : HTTPRequest) :
    Settled (s.newRequestArrived request) :=
  ⟨hs.derived, hs.not_complete, hs.line, hs.body⟩

/-- Nor do the waiting ones on the queue. -/
theorem waiting_carry {ms : List HTTPResponse} : Waiting (s.carry ms) ↔ s.Waiting := by
  constructor
  · rintro ⟨hs, hfresh⟩
    exact ⟨settled_carry.1 hs, hfresh⟩
  · rintro ⟨hs, hfresh⟩
    exact ⟨settled_carry.2 hs, hfresh⟩

/-- A new request keeps the parser waiting. -/
theorem Waiting.newRequestArrived (hs : s.Waiting) (request : HTTPRequest) :
    (s.newRequestArrived request).Waiting :=
  ⟨settled_newRequestArrived hs.settled request, hs.fresh⟩

end HTTPResponseParser

end V2Proxy
