/-
# The requests that an `HTTPRequestParser` produces

Not every `HTTPRequest` comes out of a parser.  One that does has a first line and
header lines without a CRLF, headers that are what the constructor makes of a line, and
a body of the length that its headers give (`Produced.framed`).  It is an invariant of the
parser: of the message in progress, by its state, and of the messages in the queue
(`Producing`).
-/

import V2Proxy.Http.RequestStream

namespace V2Proxy

open Foundations HTTPMessageSequence

/-- The header was read from a line. -/
def HTTPHeader.FromLine (header : HTTPHeader) : Prop :=
  ∃ line, find CRLF line = none ∧ HTTPHeader.parse line = .ok header

namespace HTTPRequest

/-- The lines of the message were read from a stream. -/
structure FromLines (m : HTTPRequest) : Prop where
  firstLine : find CRLF m.firstLine = none
  headers : ∀ header ∈ m.headers, HTTPHeader.FromLine header

/-- The message with its headers read, and nothing more. -/
def head (m : HTTPRequest) : HTTPRequest :=
  { m with expectedBodySize := (false, npos), body := [], state := .headersPending }

/-- The message with its headers done, and nothing more. -/
def begun (m : HTTPRequest) : HTTPRequest := { m with body := [], state := .bodyPending }

/-- The headers fix the length of the body. -/
structure Framed (m : HTTPRequest) : Prop where
  lines : m.FromLines
  done : m.head.doneWithHeaders = .ok m.begun
  known : m.expectedBodySize.1 = true
  fits : m.body.length ≤ m.expectedBodySize.2
  full : m.state = .complete → m.body.length = m.expectedBodySize.2

/-- What holds of the message in progress. -/
def InProgress (m : HTTPRequest) : Prop :=
  match m.state with
  | .firstLinePending => m = .fresh
  | .headersPending => m.FromLines ∧ m = m.head
  | .bodyPending => m.Framed
  | .complete => m.Framed

variable {m m' : HTTPRequest}

theorem inProgress_fresh : InProgress .fresh := by
  unfold InProgress
  rfl

/-- **What `calculate_expected_body_size` does to a request:** it fixes the length of the
body. -/
theorem calculate_eq_ok (h : calculateExpectedBodySize m = .ok m') :
    ∃ size, m' = { m with expectedBodySize := (true, size) } ∧ m.state = .bodyPending := by
  have hset : ∀ {size}, m.setExpectedBodySize true size = .ok m' →
      ∃ size, m' = { m with expectedBodySize := (true, size) } ∧ m.state = .bodyPending := by
    intro size h
    obtain ⟨_, hst, h⟩ := bind_eq_ok.1 h
    cases h
    exact ⟨size, rfl, assert_eq_ok.1 hst⟩
  obtain ⟨_, -, h⟩ := bind_eq_ok.1 h
  split_ifs at h
  · exact hset h
  · obtain ⟨_, -, h⟩ := bind_eq_ok.1 h
    obtain ⟨_, -, h⟩ := bind_eq_ok.1 h
    exact hset h

/-- The end of the headers. -/
theorem InProgress.doneWithHeaders (hm : m.InProgress) (hst : m.state = .headersPending)
    (h : m.doneWithHeaders = .ok m') : m'.InProgress := by
  unfold InProgress at hm
  rw [hst] at hm
  obtain ⟨hlines, hhead⟩ := hm
  have hdone := h
  obtain ⟨_, -, h⟩ := bind_eq_ok.1 h
  obtain ⟨size, heq, -⟩ := calculate_eq_ok h
  have hbody : m.body = [] := by rw [hhead]; rfl
  have hhead' : m'.head = m := by
    rw [heq, hhead]
    rfl
  have hbegun : m'.begun = m' := by
    rw [heq, begun, hbody]
  have hframed : m'.Framed := by
    refine ⟨?_, ?_, ?_, ?_, ?_⟩
    · rw [heq]
      exact ⟨hlines.firstLine, hlines.headers⟩
    · rw [hhead', hbegun, hdone]
    · rw [heq]
    · rw [heq, hbody]
      exact Nat.zero_le _
    · rw [heq]
      intro hcomplete
      cases hcomplete
  unfold InProgress
  rw [heq] at hframed ⊢
  exact hframed

/-- A line while headers are pending. -/
theorem InProgress.headerLine (hm : m.InProgress) (hst : m.state = .headersPending) {line : Bytes}
    (hline : find CRLF line = none) (h : m.headerLine line = .ok m') : m'.InProgress := by
  rw [HTTPMessage.headerLine] at h
  split_ifs at h
  · exact hm.doneWithHeaders hst h
  · obtain ⟨_, -, h⟩ := bind_eq_ok.1 h
    obtain ⟨header, hheader, h⟩ := bind_eq_ok.1 h
    cases h
    unfold InProgress at hm ⊢
    rw [hst] at hm
    obtain ⟨hlines, hhead⟩ := hm
    dsimp only
    rw [hst]
    refine ⟨⟨hlines.firstLine, fun header' hmem => ?_⟩, ?_⟩
    · rcases List.mem_append.1 hmem with hmem | hmem
      · exact hlines.headers header' hmem
      · rw [List.mem_singleton.1 hmem]
        exact ⟨line, hline, hheader⟩
    · rw [hhead]
      rfl

/-- Bytes of the body. -/
theorem InProgress.readInBody (hm : m.InProgress) (hst : m.state = .bodyPending) {a : Bytes} {n : ℕ}
    (h : m.readInBody a = .ok (n, m')) : m'.InProgress := by
  unfold InProgress at hm
  rw [hst] at hm
  have hframed : m.Framed := hm
  have hsize : m.expectedBodySize = (true, m.expectedBodySize.2) :=
    Prod.ext hframed.known rfl
  rw [HTTPMessage.readInBody_known hst hsize, assert_of hframed.fits, ok_bind] at h
  cases h
  have hfits := hframed.fits
  have hdone := hframed.done
  have hnext : ∀ state : HTTPMessageState, (state = .complete →
      (m.body ++ a.take (min (m.expectedBodySize.2 - m.body.length) a.length)).length =
        m.expectedBodySize.2) →
      Framed { m with
        body := m.body ++ a.take (min (m.expectedBodySize.2 - m.body.length) a.length)
        state := state } := by
    intro state hfull
    refine ⟨⟨hframed.lines.firstLine, hframed.lines.headers⟩, hdone, hframed.known, ?_, hfull⟩
    dsimp only
    rw [List.length_append, List.length_take]
    omega
  unfold InProgress
  by_cases hc : (m.body ++ a.take (min (m.expectedBodySize.2 - m.body.length) a.length)).length =
      m.expectedBodySize.2
  · simp only [if_pos hc]
    exact hnext .complete fun _ => hc
  · simp only [if_neg hc, hst]
    exact hnext .bodyPending fun h => by cases h

end HTTPRequest

namespace HTTPRequestParser

variable {s s' : HTTPRequestParser}

/-- What holds of a request parser. -/
structure Producing (s : HTTPRequestParser) : Prop where
  queue : ∀ m ∈ s.completeMessages, HTTPRequest.Framed m ∧ m.state = .complete
  inProgress : HTTPRequest.InProgress s.messageInProgress

theorem producing_new : Producing .new := ⟨fun _ h => absurd h List.not_mem_nil,
  HTTPRequest.inProgress_fresh⟩

/-- **A round keeps what holds.** -/
theorem Producing.next (h : s.Producing) (hr : Round s s') : s'.Producing := by
  cases hr with
  | firstLine hst hi hm hm' =>
      rename_i i m m' q
      cases hm
      have hfresh := h.inProgress
      unfold HTTPRequest.InProgress at hfresh
      rw [hst] at hfresh
      have hfresh : s.messageInProgress = .fresh := hfresh
      obtain ⟨_, -, hm'⟩ := bind_eq_ok.1 hm'
      cases hm'
      refine ⟨h.queue, ?_⟩
      unfold HTTPRequest.InProgress
      refine ⟨⟨find_take_of_find (by decide) hi, fun header hmem => ?_⟩, ?_⟩
      · have hheaders : s.messageInProgress.headers = [] := by rw [hfresh]; rfl
        change header ∈ s.messageInProgress.headers at hmem
        rw [hheaders] at hmem
        exact absurd hmem List.not_mem_nil
      · rw [hfresh]
        rfl
  | header hst hi hm =>
      exact ⟨h.queue, h.inProgress.headerLine hst
        (find_take_of_find (by decide) hi) hm⟩
  | body hst hm hn hc => exact ⟨h.queue, h.inProgress.readInBody hst hm⟩
  | complete hst =>
      refine ⟨fun m hm => ?_, HTTPRequest.inProgress_fresh⟩
      rcases List.mem_append.1 hm with hm | hm
      · exact h.queue m hm
      · rw [List.mem_singleton.1 hm]
        have hframed := h.inProgress
        unfold HTTPRequest.InProgress at hframed
        rw [hst] at hframed
        exact ⟨hframed, hst⟩

theorem Producing.pause (h : s.Producing) (hp : Pause s s') : s'.Producing := by
  cases hp with
  | line => exact h
  | body hst hm hne => exact ⟨h.queue, h.inProgress.readInBody hst hm⟩

/-- **So does a call of `parse`,** also at EOF. -/
theorem Producing.parse (h : s.Producing) {b : Bytes} (hparse : s.parse b = .ok s') :
    s'.Producing := by
  have hfeed : ∀ s : HTTPRequestParser, s.Producing → s.feed b = .ok s' → s'.Producing := by
    intro s hs hfeed
    exact Loop.run_post (L := parseLoop) (I := Producing) (Q := Producing)
      (fun _ _ hs hn => hs.next (parseRound_next hn))
      (fun _ _ hs hl => hs.pause (parseRound_leave hl)) (s := { s with buffer := s.buffer ++ b })
      ⟨hs.queue, hs.inProgress⟩ hfeed
  rw [HTTPMessageSequence.parse] at hparse
  split_ifs at hparse
  · obtain ⟨m, hm, hparse⟩ := bind_eq_ok.1 hparse
    have hsame : m = s.messageInProgress := by
      rw [HTTPMessage.eof] at hm
      split at hm
      · cases hm
        rfl
      · cases hm
      · obtain ⟨_, hend, -⟩ := bind_eq_ok.1 hm
        cases hend
      · cases hm
    rw [hsame] at hparse
    exact hfeed _ h hparse
  · exact hfeed _ h hparse

end HTTPRequestParser

/-- The request came out of a parser, whatever that was given. -/
def Produced (m : HTTPRequest) : Prop :=
  ∃ (buffers : List Bytes) (s : HTTPRequestParser),
    buffers.foldlM parse HTTPRequestParser.new = .ok s ∧ m ∈ s.completeMessages

/-- **A request that came out of a parser is complete, and its headers fix the length of
its body.** -/
theorem Produced.framed {m : HTTPRequest} (h : Produced m) :
    m.Framed ∧ m.state = .complete := by
  obtain ⟨buffers, s, hs, hm⟩ := h
  have hproducing : s.Producing :=
    foldlM_invariant (I := HTTPRequestParser.Producing) (fun s b s' hs hs' => hs.parse hs')
      HTTPRequestParser.producing_new hs
  exact hproducing.queue m hm

end V2Proxy
