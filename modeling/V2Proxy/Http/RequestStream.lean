/-
# Streams of complete requests

A byte string is a complete request if a new `HTTPRequestParser` turns it into
one message and is new again afterwards (`CompleteRequest`).  It is given the
bytes one by one; how they are cut does not matter (`CompleteRequest.parse`).
What a parser has completed before does not matter either (`feed_carry`), so a
concatenation of complete requests is parsed to their messages (`feedBytes_stream`).
-/

import V2Proxy.Http.LawfulParsers

namespace V2Proxy

open Foundations

namespace HTTPMessageSequence

variable {X Q : Type} [ParserType X Q] {s s' : HTTPMessageSequence X Q} {ms ms' : List (HTTPMessage X)}

/-- The same parser with `ms` completed before. -/
def carry (ms : List (HTTPMessage X)) (s : HTTPMessageSequence X Q) : HTTPMessageSequence X Q :=
  { s with completeMessages := ms ++ s.completeMessages }

omit [ParserType X Q] in
/-- No messages in front change nothing. -/
@[simp] theorem carry_nil (s : HTTPMessageSequence X Q) : s.carry [] = s := rfl

omit [ParserType X Q] in
/-- Messages in front of messages. -/
@[simp] theorem carry_carry (s : HTTPMessageSequence X Q) (ms ms' : List (HTTPMessage X)) :
    (s.carry ms').carry ms = s.carry (ms ++ ms') := by
  simp [carry]

omit [ParserType X Q] in
/-- The queue with the messages in front. -/
@[simp] theorem completeMessages_carry (s : HTTPMessageSequence X Q) (ms : List (HTTPMessage X)) :
    (s.carry ms).completeMessages = ms ++ s.completeMessages := rfl

/-- A round does not look at the complete messages. -/
theorem parsingStep_carry (ms : List (HTTPMessage X)) (s : HTTPMessageSequence X Q) :
    (s.carry ms).parsingStep = s.parsingStep >>= fun (go, s') => .ok (go, s'.carry ms) := by
  cases hst : s.messageInProgress.state with
  | firstLinePending =>
      rcases hi : find CRLF s.buffer with _ | i
      · rw [parsingStep_noLine (s := s.carry ms) (by rw [carry, hst]; decide) hi,
          parsingStep_noLine (by rw [hst]; decide) hi]
        rfl
      · rw [parsingStep_firstLine hst hi, parsingStep_firstLine (s := s.carry ms) hst hi]
        rcases hm : ParserType.initializeNewMessage s.messageInProgress s.derived with e | ⟨m, q⟩
        · simp only [carry, hm]
          rfl
        · simp only [carry, hm, ok_bind]
          rcases m.setFirstLine (s.buffer.take i) with e | m' <;> rfl
  | headersPending =>
      rcases hi : find CRLF s.buffer with _ | i
      · rw [parsingStep_noLine (s := s.carry ms) (by rw [carry, hst]; decide) hi,
          parsingStep_noLine (by rw [hst]; decide) hi]
        rfl
      · rw [parsingStep_header hst hi, parsingStep_header (s := s.carry ms) hst hi]
        simp only [carry]
        rcases s.messageInProgress.headerLine (s.buffer.take i) with e | m <;> rfl
  | bodyPending =>
      rw [parsingStep_afterBody hst, parsingStep_afterBody (s := s.carry ms) hst]
      simp only [carry]
      rcases s.messageInProgress.readInBody s.buffer with e | ⟨n, m⟩
      · rfl
      · simp only [ok_bind]
        rcases afterBody s.buffer n m with e | ⟨go, rest⟩ <;> rfl
  | complete =>
      rw [parsingStep_complete hst, parsingStep_complete (s := s.carry ms) hst]
      simp only [carry, ok_bind, List.append_assoc]

/-- A round does not look at the queue. -/
theorem parseRound_carry (ms : List (HTTPMessage X)) (s : HTTPMessageSequence X Q) :
    (s.carry ms).parseRound = s.parseRound >>= fun
      | .inl s' => .ok (.inl (s'.carry ms))
      | .inr s' => .ok (.inr (s'.carry ms)) := by
  rw [parseRound, parseRound, parsingStep_carry]
  rcases s.parsingStep with e | ⟨go, s'⟩
  · rfl
  · cases go <;> rfl

/-- **What was completed before stays in front.** -/
theorem feed_carry (ms : List (HTTPMessage X)) (s : HTTPMessageSequence X Q) (b : Bytes) :
    (s.carry ms).feed b = s.feed b >>= fun s' => .ok (s'.carry ms) := by
  have hround := parseRound_carry (X := X) (Q := Q) ms
  change parseLoop.run (carry ms { s with buffer := s.buffer ++ b }) = _
  refine Loop.run_simulate (L := parseLoop) (M := parseLoop) (I := fun _ => True)
    (F := carry ms) (fun s e _ he => ?_) (fun s s' _ hs => ⟨trivial, ?_⟩)
    (fun s s' _ hs => Loop.run_of_leave ?_) trivial
  · exact (hround s).trans (by rw [show s.parseRound = _ from he]; rfl)
  · exact (hround s).trans (by rw [show s.parseRound = _ from hs]; rfl)
  · exact (hround s).trans (by rw [show s.parseRound = _ from hs]; rfl)

/-- The same of a call of `parse`, EOF included. -/
theorem parse_carry (ms : List (HTTPMessage X)) (s : HTTPMessageSequence X Q) (b : Bytes) :
    (s.carry ms).parse b = s.parse b >>= fun s' => .ok (s'.carry ms) := by
  by_cases h : b = []
  · subst h
    change (s.messageInProgress.eof >>= fun m => feed (carry ms { s with messageInProgress := m }) [])
      = (s.messageInProgress.eof >>= fun m => feed { s with messageInProgress := m } []) >>= _
    rcases s.messageInProgress.eof with e | m
    · rfl
    · rw [ok_bind, ok_bind, feed_carry]
  · have hcarry : (s.carry ms).parse b = (s.carry ms).feed b := if_neg h
    have hparse : s.parse b = s.feed b := if_neg h
    rw [hcarry, hparse, feed_carry]

/-- Parsing takes nothing off the queue. -/
theorem completeMessages_prefix {b : Bytes} (h : s.parse b = .ok s') :
    s.completeMessages <+: s'.completeMessages := by
  have hcarry : s = carry s.completeMessages { s with completeMessages := [] } := by
    rw [carry, List.append_nil]
  rw [hcarry, parse_carry] at h
  obtain ⟨s₁, -, h⟩ := bind_eq_ok.1 h
  cases h
  exact List.prefix_append _ _

omit [ParserType X Q] in
/-- What `front` gives and `pop` takes off. -/
theorem front_pop_eq_ok {m : HTTPMessage X} (hfront : s.front = .ok m) (hpop : s.pop = .ok s') :
    s = s'.carry [m] := by
  obtain ⟨buffer, messages, messageInProgress, derived⟩ := s
  rw [front] at hfront
  rw [pop] at hpop
  cases messages with
  | nil => cases hfront
  | cons m₁ rest =>
      cases hfront
      cases hpop
      rfl

/-- What is in the queue is complete. -/
theorem feed_complete {b : Bytes} (hs : ∀ m ∈ s.completeMessages, m.state = .complete)
    (h : s.feed b = .ok s') : ∀ m ∈ s'.completeMessages, m.state = .complete := by
  refine Loop.run_post (L := parseLoop)
    (I := fun s => ∀ m ∈ s.completeMessages, m.state = .complete)
    (Q := fun s => ∀ m ∈ s.completeMessages, m.state = .complete)
    (fun s₁ s₂ hs₁ hn => ?_) (fun s₁ s₂ hs₁ hl => ?_) (s := { s with buffer := s.buffer ++ b }) hs h
  · cases parseRound_next hn with
    | complete hst =>
        intro m hm
        rcases List.mem_append.1 hm with hm | hm
        · exact hs₁ m hm
        · rw [List.mem_singleton.1 hm]
          exact hst
    | _ => exact hs₁
  · cases parseRound_leave hl with
    | _ => exact hs₁

/-- Feeding bytes one by one. -/
def feedBytes (s : HTTPMessageSequence X Q) (w : Bytes) : Except Fault (HTTPMessageSequence X Q) :=
  w.foldlM (fun s c => s.feed [c]) s

/-- One text after the other. -/
theorem feedBytes_append (s : HTTPMessageSequence X Q) (a b : Bytes) :
    s.feedBytes (a ++ b) = s.feedBytes a >>= fun s' => s'.feedBytes b :=
  List.foldlM_append

/-- Bytes do not look at the queue either. -/
theorem feedBytes_carry (ms : List (HTTPMessage X)) (s : HTTPMessageSequence X Q) (w : Bytes) :
    (s.carry ms).feedBytes w = s.feedBytes w >>= fun s' => .ok (s'.carry ms) := by
  induction w generalizing s with
  | nil => rfl
  | cons c w ih =>
      rw [feedBytes, feedBytes, List.foldlM_cons, List.foldlM_cons, feed_carry]
      rcases s.feed [c] with e | s'
      · rfl
      · exact ih s'

/-- A buffer that `read` can return is its bytes one by one. -/
theorem Settled.feed_eq_feedBytes [LawfulParser X Q] (h : s.Settled) {b : Bytes} (hne : b ≠ [])
    (hlen : b.length ≤ bufferSize) : s.feed b = s.feedBytes b :=
  feed_seamless.feed_eq_foldlM h hne hlen

/-- A settled parser stays settled, byte by byte. -/
theorem Settled.feedBytes [LawfulParser X Q] (h : s.Settled) {w : Bytes}
    (hf : s.feedBytes w = .ok s') : s'.Settled := by
  induction w generalizing s with
  | nil =>
      cases hf
      exact h
  | cons c w ih =>
      rw [HTTPMessageSequence.feedBytes, List.foldlM_cons] at hf
      obtain ⟨s₁, hs₁, hf⟩ := bind_eq_ok.1 hf
      have hlen : [c].length ≤ bufferSize := by
        rw [List.length_singleton]
        decide
      exact ih (feed_seamless.keep h hlen hs₁) hf

/-- Buffers that `read` can return are their bytes one by one. -/
theorem Settled.foldlM_parse_eq_feedBytes [LawfulParser X Q] (h : s.Settled) {pieces : List Bytes}
    (hp : ∀ p ∈ pieces, p ≠ [] ∧ p.length ≤ bufferSize) :
    pieces.foldlM parse s = s.feedBytes pieces.flatten := by
  rw [h.foldlM_parse hp, feed_seamless.foldlM_eq h hp]
  rfl

end HTTPMessageSequence

/-- A request parser that waits for a request, with the requests `ms` in its
queue. -/
def HTTPRequestParser.queued (ms : List HTTPRequest) : HTTPRequestParser :=
  HTTPRequestParser.new.carry ms

/-- The queue has the messages that were put there. -/
@[simp] theorem HTTPRequestParser.completeMessages_queued (ms : List HTTPRequest) :
    (HTTPRequestParser.queued ms).completeMessages = ms := List.append_nil ms

/-- A parser between two requests is settled. -/
theorem HTTPRequestParser.settled_queued (ms : List HTTPRequest) :
    (HTTPRequestParser.queued ms).Settled := by
  refine ⟨trivial, fun h => ?_, fun _ => HTTPMessageSequence.find_CRLF_nil, fun h => ?_⟩
  · cases h
  · cases h

/-- EOF between two requests changes nothing. -/
theorem HTTPRequestParser.queued_eof (ms : List HTTPRequest) :
    (HTTPRequestParser.queued ms).parse [] = .ok (HTTPRequestParser.queued ms) := by
  have hnew : HTTPRequestParser.new.parse [] = .ok HTTPRequestParser.new := by decide +kernel
  rw [queued, HTTPMessageSequence.parse_carry, hnew, ok_bind]

/-- A new parser turns the text `w` into the request `m` and is new again. -/
def IsRequest (w : Bytes) (m : HTTPRequest) : Prop :=
  HTTPRequestParser.new.parse w = .ok (HTTPRequestParser.queued [m])

/-- **A text that is a request is appended to the queue.** -/
theorem IsRequest.parse {w : Bytes} {m : HTTPRequest} (h : IsRequest w m) (ms : List HTTPRequest) :
    (HTTPRequestParser.queued ms).parse w = .ok (HTTPRequestParser.queued (ms ++ [m])) := by
  rw [HTTPRequestParser.queued, HTTPMessageSequence.parse_carry,
    show HTTPRequestParser.new.parse w = _ from h, ok_bind, HTTPRequestParser.queued,
    HTTPMessageSequence.carry_carry]
  rfl

/-- No request is empty. -/
theorem IsRequest.ne_nil {w : Bytes} {m : HTTPRequest} (h : IsRequest w m) : w ≠ [] := by
  rintro rfl
  have hnew := HTTPRequestParser.queued_eof []
  rw [IsRequest, show HTTPRequestParser.new.parse [] = _ from hnew] at h
  cases h

/-- A request that is parsed is complete. -/
theorem IsRequest.complete {w : Bytes} {m : HTTPRequest} (h : IsRequest w m) :
    m.state = .complete := by
  have hfeed : HTTPRequestParser.new.feed w = .ok (HTTPRequestParser.queued [m]) :=
    (HTTPMessageSequence.parse_of_ne_nil _ h.ne_nil).symm.trans h
  exact HTTPMessageSequence.feed_complete (fun _ hm => by cases hm) hfeed m (by simp)

/-- The bytes `w` are exactly the request `m`. -/
def CompleteRequest (w : Bytes) (m : HTTPRequest) : Prop :=
  HTTPRequestParser.new.feedBytes w = .ok (HTTPRequestParser.queued [m])

/-- No complete request is empty. -/
theorem CompleteRequest.ne_nil {w : Bytes} {m : HTTPRequest} (h : CompleteRequest w m) : w ≠ [] := by
  rintro rfl
  cases h

/-- A buffer is a complete request if parsing it says so. -/
theorem CompleteRequest.of_parse {w : Bytes} {m : HTTPRequest} (hlen : w.length ≤ bufferSize)
    (h : IsRequest w m) : CompleteRequest w m := by
  have hne := h.ne_nil
  rw [IsRequest, HTTPMessageSequence.parse_of_ne_nil _ hne,
    HTTPRequestParser.settled_new.feed_eq_feedBytes hne hlen] at h
  exact h

/-- Is the buffer exactly one request? -/
def isCompleteRequest (w : Bytes) : Bool :=
  match HTTPRequestParser.new.parse w with
  | .ok s => s.completeMessages.length = 1 && s = HTTPRequestParser.queued s.completeMessages
  | .error _ => false

/-- What the test accepts is a request. -/
theorem exists_isRequest {w : Bytes} (h : isCompleteRequest w = true) : ∃ m, IsRequest w m := by
  rw [isCompleteRequest] at h
  split at h
  · rename_i s hs
    simp only [Bool.and_eq_true, decide_eq_true_eq] at h
    obtain ⟨m, hm⟩ := List.length_eq_one_iff.1 h.1
    exact ⟨m, hs.trans (by rw [h.2, hm])⟩
  · cases h

/-- The same for its bytes. -/
theorem exists_completeRequest {w : Bytes} (hlen : w.length ≤ bufferSize)
    (h : isCompleteRequest w = true) : ∃ m, CompleteRequest w m := by
  obtain ⟨m, hm⟩ := exists_isRequest h
  exact ⟨m, .of_parse hlen hm⟩

/-- **A complete request is appended to the queue.** -/
theorem CompleteRequest.feedBytes {w : Bytes} {m : HTTPRequest} (h : CompleteRequest w m)
    (ms : List HTTPRequest) :
    (HTTPRequestParser.queued ms).feedBytes w = .ok (HTTPRequestParser.queued (ms ++ [m])) := by
  rw [HTTPRequestParser.queued, HTTPMessageSequence.feedBytes_carry,
    show HTTPRequestParser.new.feedBytes w = _ from h, ok_bind, HTTPRequestParser.queued,
    HTTPMessageSequence.carry_carry]
  rfl

/-- The same in one call of `parse`. -/
theorem CompleteRequest.parse {w : Bytes} {m : HTTPRequest} (h : CompleteRequest w m)
    (hlen : w.length ≤ bufferSize) (ms : List HTTPRequest) :
    (HTTPRequestParser.queued ms).parse w = .ok (HTTPRequestParser.queued (ms ++ [m])) := by
  rw [HTTPMessageSequence.parse_of_ne_nil _ h.ne_nil,
    (HTTPRequestParser.settled_queued ms).feed_eq_feedBytes h.ne_nil hlen, h.feedBytes]

/-- **A concatenation of complete requests is parsed to their messages.** -/
theorem feedBytes_stream {ws : List Bytes} {ms : List HTTPRequest}
    (h : List.Forall₂ CompleteRequest ws ms) (before : List HTTPRequest) :
    (HTTPRequestParser.queued before).feedBytes ws.flatten =
      .ok (HTTPRequestParser.queued (before ++ ms)) := by
  induction h generalizing before with
  | nil => rw [List.append_nil]; rfl
  | cons hw _ ih =>
      rw [List.flatten_cons, HTTPMessageSequence.feedBytes_append, hw.feedBytes, ok_bind, ih,
        List.append_assoc, List.singleton_append]

end V2Proxy
