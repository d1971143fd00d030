/-
# A parser does not see where its input was cut

`HTTPMessageSequence::parse` keeps what it cannot use yet: in its buffer while a
line is incomplete, in the message while a body is.  Between two calls it is
`Settled`: it waits for a line and holds none, or it is in a body and holds
nothing.  What a derived class owes to that is `LawfulBody`: a body whose length
is not known in advance is read the same however its bytes are cut.  Then `feed`
is `Seamless` (`feed_seamless`), and so any two cuts of a byte string lead to the
same messages and the same state, or to the same failure
(`Settled.foldlM_parse_congr`).
-/

import V2Proxy.Http.HTTPMessageSequence
import V2Proxy.Foundations.Cuts

namespace V2Proxy

open Foundations

/-- What a message type owes to a parser that gets its input in pieces.
`settled` holds of the members of the derived class between two pieces. -/
class LawfulBody (X : Type) [MessageType X] where
  settled : X → Prop
  settled_fresh : settled (MessageType.fresh : X)
  calculate_settled : ∀ {m m' : HTTPMessage X}, settled m.derived →
    MessageType.calculateExpectedBodySize m = .ok m' → settled m'.derived
  read_outcome : ∀ {m m' : HTTPMessage X} {a : Bytes} {n : ℕ}, settled m.derived →
    m.state = .bodyPending → MessageType.readInComplexBody m a = .ok (n, m') →
    settled m'.derived ∧ (m'.state = .complete ∧ n ≤ a.length ∨
      m'.state = .bodyPending ∧ n = a.length ∧ m'.expectedBodySize = m.expectedBodySize)
  read_append : ∀ {m : HTTPMessage X} {a b : Bytes}, settled m.derived →
    m.state = .bodyPending → (a ++ b).length ≤ bufferSize →
    MessageType.readInComplexBody m (a ++ b) =
      MessageType.readInComplexBody m a >>= fun (n, m') =>
        if m'.state = .complete then .ok (n, m')
        else MessageType.readInComplexBody m' b >>= fun (k, m'') => .ok (a.length + k, m'')

/-- What a parser type adds: starting a message keeps its members settled. -/
class LawfulParser (X : Type) (Q : outParam Type) [ParserType X Q] extends LawfulBody X where
  initialize_settled : ∀ {m m' : HTTPMessage X} {q q' : Q}, settled m.derived →
    ParserType.initializeNewMessage m q = .ok (m', q') → settled m'.derived

namespace HTTPMessage

variable {X : Type} [MessageType X] {m m' : HTTPMessage X} {a b : Bytes} {n : ℕ}

/-- A body whose size is known. -/
theorem readInBody_known {size : ℕ} (hst : m.state = .bodyPending)
    (hsize : m.expectedBodySize = (true, size)) (a : Bytes) :
    m.readInBody a = (do
      assert (m.body.length ≤ size) "body_.size() <= expected_body_size()"
      let body := m.body ++ a.take (min (size - m.body.length) a.length)
      return (min (size - m.body.length) a.length,
        { m with body := body, state := if body.length = size then .complete else m.state })) := by
  have hrank : HTTPMessageState.headersPending.rank < m.state.rank := by rw [hst]; decide
  simp only [readInBody, expectedBodySizeValue, bodySizeIsKnown, assert_of hst, assert_of hrank,
    hsize, ok_bind]
  rfl

/-- Too few bytes for a body of known size: all are taken. -/
theorem readInBody_short {size : ℕ} (hst : m.state = .bodyPending)
    (hsize : m.expectedBodySize = (true, size)) (hlt : m.body.length + a.length < size) :
    m.readInBody a = .ok (a.length, { m with body := m.body ++ a }) := by
  rw [readInBody_known hst hsize, assert_of (by omega), min_eq_right (by omega), List.take_length]
  have hne : (m.body ++ a).length ≠ size := by rw [List.length_append]; omega
  simp only [ok_bind, if_neg hne]
  rfl

/-- Enough bytes for a body of known size: it is complete. -/
theorem readInBody_enough {size : ℕ} (hst : m.state = .bodyPending)
    (hsize : m.expectedBodySize = (true, size)) (hle : m.body.length ≤ size)
    (hge : size ≤ m.body.length + a.length) :
    m.readInBody a = .ok (size - m.body.length,
      { m with body := m.body ++ a.take (size - m.body.length), state := .complete }) := by
  rw [readInBody_known hst hsize, assert_of hle, min_eq_left (by omega)]
  have heq : (m.body ++ a.take (size - m.body.length)).length = size := by
    rw [List.length_append, List.length_take]
    omega
  simp only [ok_bind, if_pos heq]
  rfl

/-- A body whose size is not known. -/
theorem readInBody_unknown (hst : m.state = .bodyPending) (hsize : m.expectedBodySize.1 = false)
    (a : Bytes) : m.readInBody a = MessageType.readInComplexBody m a := by
  have hrank : HTTPMessageState.headersPending.rank < m.state.rank := by rw [hst]; decide
  simp only [readInBody, bodySizeIsKnown, assert_of hst, assert_of hrank, hsize, ok_bind]
  rfl

variable [LawfulBody X]

/-- **What `read_in_body` can do:** complete the message within its input, or
take all of it and stay in the body. -/
theorem readInBody_outcome (hs : LawfulBody.settled m.derived) (hst : m.state = .bodyPending)
    (h : m.readInBody a = .ok (n, m')) :
    LawfulBody.settled m'.derived ∧
      (m'.state = .complete ∧ n ≤ a.length ∨ m'.state = .bodyPending ∧ n = a.length) := by
  rcases hsize : m.expectedBodySize with ⟨known, size⟩
  cases known with
  | false =>
      rw [readInBody_unknown hst (by rw [hsize])] at h
      obtain ⟨hs', hc | ⟨hb, hn, -⟩⟩ := LawfulBody.read_outcome hs hst h
      · exact ⟨hs', Or.inl hc⟩
      · exact ⟨hs', Or.inr ⟨hb, hn⟩⟩
  | true =>
      rw [readInBody_known hst hsize] at h
      obtain ⟨u, hle, h⟩ := bind_eq_ok.1 h
      have hle := assert_eq_ok.1 hle
      cases h
      by_cases hc : (m.body ++ a.take (min (size - m.body.length) a.length)).length = size
      · exact ⟨hs, Or.inl ⟨if_pos hc, min_le_right _ _⟩⟩
      · refine ⟨hs, Or.inr ⟨(if_neg hc).trans hst, ?_⟩⟩
        rw [List.length_append, List.length_take] at hc
        omega

/-- **`read_in_body` reads `a ++ b` as it reads `a` and then `b`.** -/
theorem readInBody_append (hs : LawfulBody.settled m.derived) (hst : m.state = .bodyPending)
    (hlen : (a ++ b).length ≤ bufferSize) :
    m.readInBody (a ++ b) = m.readInBody a >>= fun (n, m') =>
      if m'.state = .complete then .ok (n, m')
      else m'.readInBody b >>= fun (k, m'') => .ok (a.length + k, m'') := by
  rcases hsize : m.expectedBodySize with ⟨known, size⟩
  cases known with
  | false =>
      rw [readInBody_unknown hst (by rw [hsize]), readInBody_unknown hst (by rw [hsize]),
        LawfulBody.read_append hs hst hlen]
      rcases hr : MessageType.readInComplexBody m a with e | ⟨n, m'⟩
      · rfl
      · obtain ⟨-, ⟨hc, -⟩ | ⟨hb, -, hsize'⟩⟩ := LawfulBody.read_outcome hs hst hr
        · simp only [ok_bind, hc, if_true]
        · simp only [ok_bind, hb, reduceCtorEq, if_false]
          rw [readInBody_unknown hb (by rw [hsize', hsize])]
  | true =>
      rcases Nat.lt_or_ge size m.body.length with hover | hle
      · have hno : ¬ m.body.length ≤ size := by omega
        rw [readInBody_known hst hsize, readInBody_known hst hsize, assert_of_not hno]
        rfl
      rcases Nat.lt_or_ge (m.body.length + a.length) size with hlt | hge
      · -- `a` is too short, so the rest of the message is read from `b`
        set m₁ : HTTPMessage X := { m with body := m.body ++ a } with hm₁
        have hst₁ : m₁.state = .bodyPending := hst
        have hlen₁ : m₁.body.length = m.body.length + a.length := List.length_append
        have hne₁ : m₁.state ≠ .complete := by rw [hst₁]; decide
        rw [readInBody_short hst hsize hlt]
        change _ = if m₁.state = .complete then .ok (a.length, m₁)
          else m₁.readInBody b >>= fun r => .ok (a.length + r.1, r.2)
        rw [if_neg hne₁]
        rcases Nat.lt_or_ge (m.body.length + (a ++ b).length) size with hlt' | hge'
        · rw [readInBody_short hst hsize hlt', readInBody_short hst₁ hsize (by
            rw [List.length_append] at hlt'; omega)]
          simp [hm₁]
        · rw [readInBody_enough hst hsize hle hge', readInBody_enough hst₁ hsize (by omega) (by
            rw [List.length_append] at hge'; omega)]
          have htake : (a ++ b).take (size - m.body.length) =
              a ++ b.take (size - m₁.body.length) := by
            rw [List.take_append, List.take_of_length_le (by omega),
              show size - m.body.length - a.length = size - m₁.body.length by omega]
          have hsum : size - m.body.length = a.length + (size - m₁.body.length) := by omega
          simp only [ok_bind]
          rw [htake, ← hsum, ← List.append_assoc]
      · rw [readInBody_enough hst hsize hle hge, readInBody_enough hst hsize hle (by
          rw [List.length_append]; omega), List.take_append_of_le_length (by omega)]
        simp only [ok_bind, if_true]

end HTTPMessage

namespace HTTPMessageSequence

variable {X Q : Type} {s s' : HTTPMessageSequence X Q} {a b : Bytes}

/-- The same parser with `b` appended to its buffer. -/
def extend (s : HTTPMessageSequence X Q) (b : Bytes) : HTTPMessageSequence X Q :=
  { s with buffer := s.buffer ++ b }

/-- Text is appended in pieces. -/
@[simp] theorem extend_extend (s : HTTPMessageSequence X Q) (a b : Bytes) :
    (s.extend a).extend b = s.extend (a ++ b) := by
  simp [extend]

variable [ParserType X Q] [LawfulParser X Q]

/-- What holds of a parser between two calls of `parse`. -/
structure Settled (s : HTTPMessageSequence X Q) : Prop where
  derived : LawfulBody.settled s.messageInProgress.derived
  not_complete : s.messageInProgress.state ≠ .complete
  line : s.messageInProgress.state.rank ≤ 1 → find CRLF s.buffer = none
  body : s.messageInProgress.state = .bodyPending → s.buffer = []

/-- In the loop of `parse`: the buffer is bytes without a complete line (none,
past the headers), followed by at most `room` new ones. -/
structure Reading (room : ℕ) (s : HTTPMessageSequence X Q) : Prop where
  derived : LawfulBody.settled s.messageInProgress.derived
  buffer : ∃ old new, s.buffer = old ++ new ∧ new.length ≤ room ∧ find CRLF old = none ∧
    (1 < s.messageInProgress.state.rank → old = [])

/-- No line ends in nothing. -/
theorem find_CRLF_nil : find CRLF ([] : Bytes) = none := by decide

/-- A piece is appended to a settled buffer: the room is its length. -/
theorem Settled.reading (h : s.Settled) (a : Bytes) : (s.extend a).Reading a.length := by
  refine ⟨h.derived, s.buffer, a, rfl, le_rfl, ?_, fun hrank => ?_⟩
  · cases hst : s.messageInProgress.state with
    | bodyPending => rw [h.body hst]; exact find_CRLF_nil
    | complete => exact absurd hst h.not_complete
    | firstLinePending | headersPending => exact h.line (by rw [hst]; decide)
  · cases hst : s.messageInProgress.state with
    | bodyPending => exact h.body hst
    | complete => exact absurd hst h.not_complete
    | firstLinePending | headersPending =>
        simp only [extend, hst] at hrank
        exact absurd hrank (by decide)

/-- New bytes only, and no more than `room` of them. -/
theorem Reading.of_length {room : ℕ} (hs : LawfulBody.settled s.messageInProgress.derived)
    (h : s.buffer.length ≤ room) : s.Reading room :=
  ⟨hs, [], s.buffer, rfl, h, find_CRLF_nil, fun _ => rfl⟩

/-- Behind a line there is no more than the room. -/
theorem Reading.length_drop {room i : ℕ} (h : s.Reading room) (hi : find CRLF s.buffer = some i) :
    (s.buffer.drop (i + 2)).length ≤ room := by
  obtain ⟨old, new, hbuf, hroom, hold, -⟩ := h.buffer
  rw [hbuf] at hi ⊢
  have := length_lt_of_find_append hold hi
  rw [List.length_drop, List.length_append]
  rw [length_CRLF] at this
  omega

/-- A body has no more than the room. -/
theorem Reading.body_length {room : ℕ} (h : s.Reading room)
    (hst : 1 < s.messageInProgress.state.rank) : s.buffer.length ≤ room := by
  obtain ⟨old, new, hbuf, hroom, -, hold⟩ := h.buffer
  rw [hbuf, hold hst]
  exact hroom

/-- The first line does not touch the rest of the message. -/
theorem setFirstLine_derived {m m' : HTTPMessage X} {line : Bytes}
    (h : m.setFirstLine line = .ok m') : m'.derived = m.derived := by
  obtain ⟨_, -, h⟩ := bind_eq_ok.1 h
  cases h
  rfl

/-- A header line leaves the body settled. -/
theorem headerLine_settled {m m' : HTTPMessage X} {line : Bytes}
    (hs : LawfulBody.settled m.derived) (h : m.headerLine line = .ok m') :
    LawfulBody.settled m'.derived := by
  rw [HTTPMessage.headerLine] at h
  split_ifs at h
  · obtain ⟨_, -, h⟩ := bind_eq_ok.1 h
    exact LawfulBody.calculate_settled (m := { m with state := .bodyPending }) hs h
  · obtain ⟨_, -, h⟩ := bind_eq_ok.1 h
    obtain ⟨_, -, h⟩ := bind_eq_ok.1 h
    cases h
    exact hs

/-- A round that goes on leaves new bytes only. -/
theorem Reading.next {room : ℕ} (h : s.Reading room) (hr : Round s s') : s'.Reading room := by
  cases hr with
  | firstLine hst hi hm hm' =>
      refine .of_length ?_ (h.length_drop hi)
      rw [setFirstLine_derived hm']
      exact LawfulParser.initialize_settled h.derived hm
  | header hst hi hm => exact .of_length (headerLine_settled h.derived hm) (h.length_drop hi)
  | body hst hm hn hc =>
      have hlen := h.body_length (by rw [hst]; decide)
      refine .of_length (HTTPMessage.readInBody_outcome h.derived hst hm).1 ?_
      rw [List.length_drop]
      omega
  | complete hst =>
      exact .of_length LawfulBody.settled_fresh (h.body_length (by rw [hst]; decide))

/-- Where `parse` stops, the parser is settled. -/
theorem Reading.pause {room : ℕ} (h : s.Reading room) (hp : Pause s s') : s'.Settled := by
  cases hp with
  | line hrank hnone =>
      refine ⟨h.derived, fun hc => ?_, fun _ => hnone, fun hb => ?_⟩
      · rw [hc] at hrank
        exact absurd hrank (by decide)
      · rw [hb] at hrank
        exact absurd hrank (by decide)
  | body hst hm hne =>
      obtain ⟨hs, ⟨hc, -⟩ | ⟨hb, -⟩⟩ := HTTPMessage.readInBody_outcome h.derived hst hm
      · exact absurd hc hne
      · refine ⟨hs, hne, fun hrank => ?_, fun _ => rfl⟩
        simp only [hb] at hrank
        exact absurd hrank (by decide)

/-- **A round that fails or goes on does the same with more bytes behind.** -/
theorem parsingStep_extend {room : ℕ} (h : s.Reading room)
    (hroom : room + b.length ≤ bufferSize) (hgo : ∀ s', s.parsingStep ≠ .ok (false, s')) :
    (s.extend b).parsingStep =
      s.parsingStep >>= fun (go, s') => .ok (go, s'.extend b) := by
  cases hst : s.messageInProgress.state with
  | firstLinePending =>
      rcases hi : find CRLF s.buffer with _ | i
      · exact absurd (parsingStep_noLine (by rw [hst]; decide) hi) (hgo s)
      · have hle := add_length_le_of_find hi
        rw [length_CRLF] at hle
        rw [parsingStep_firstLine hst hi, parsingStep_firstLine (s := s.extend b) hst
          (find_append_of_some hi b)]
        simp only [extend, List.take_append_of_le_length (show i ≤ s.buffer.length by omega),
          List.drop_append_of_le_length hle]
        rcases ParserType.initializeNewMessage s.messageInProgress s.derived with e | ⟨m, q⟩
        · rfl
        · simp only [ok_bind]
          rcases m.setFirstLine (s.buffer.take i) with e | m' <;> rfl
  | headersPending =>
      rcases hi : find CRLF s.buffer with _ | i
      · exact absurd (parsingStep_noLine (by rw [hst]; decide) hi) (hgo s)
      · have hle := add_length_le_of_find hi
        rw [length_CRLF] at hle
        rw [parsingStep_header hst hi, parsingStep_header (s := s.extend b) hst
          (find_append_of_some hi b)]
        simp only [extend, List.take_append_of_le_length (show i ≤ s.buffer.length by omega),
          List.drop_append_of_le_length hle]
        rcases s.messageInProgress.headerLine (s.buffer.take i) with e | m <;> rfl
  | bodyPending =>
      have hlen := h.body_length (by rw [hst]; decide)
      have happ := HTTPMessage.readInBody_append h.derived hst (a := s.buffer) (b := b)
        (by rw [List.length_append]; omega)
      rcases hm : s.messageInProgress.readInBody s.buffer with e | ⟨n, m⟩
      · rw [hm] at happ
        rw [parsingStep_bodyError hst hm, parsingStep_bodyError (s := s.extend b) hst happ]
        rfl
      · obtain ⟨-, ⟨hc, hn⟩ | ⟨hb, rfl⟩⟩ := HTTPMessage.readInBody_outcome h.derived hst hm
        · simp only [hm, ok_bind, hc, if_true] at happ
          rw [parsingStep_bodyEnd hst hm hn hc, parsingStep_bodyEnd (s := s.extend b) hst happ
            (by simp only [extend, List.length_append]; omega) hc]
          simp only [extend, ok_bind, List.drop_append_of_le_length hn]
        · exact absurd (parsingStep_bodyPause hst hm (by rw [hb]; decide)) (hgo _)
  | complete =>
      rw [parsingStep_complete hst, parsingStep_complete (s := s.extend b) hst]
      rfl

/-- **Where `parse` stops, more bytes go on from there.** -/
theorem run_extend_pause {room : ℕ} (h : s.Reading room) (hroom : room + b.length ≤ bufferSize)
    (hp : Pause s s') : parseLoop.run (s.extend b) = parseLoop.run (s'.extend b) := by
  cases hp with
  | line => rfl
  | body hst hm hne =>
      rename_i m
      have hlen := h.body_length (by rw [hst]; decide)
      have happ := HTTPMessage.readInBody_append h.derived hst (a := s.buffer) (b := b)
        (by rw [List.length_append]; omega)
      obtain ⟨hd, hb⟩ := HTTPMessage.readInBody_outcome h.derived hst hm
      have hb := (hb.resolve_left fun hc => hne hc.1).1
      set s₁ : HTTPMessageSequence X Q := { s with buffer := [], messageInProgress := m } with hs₁
      have hb₁ : (s₁.extend b).messageInProgress.state = .bodyPending := hb
      simp only [hm, ok_bind, if_neg hne] at happ
      refine Loop.run_congr (congrArg (· >>= _) ?_)
      rcases hr : m.readInBody b with e | ⟨k, m'⟩
      · rw [hr] at happ
        rw [parsingStep_bodyError (s := s.extend b) hst happ, parsingStep_bodyError hb₁ hr]
      · simp only [hr, ok_bind] at happ
        have hdrop : (s.buffer ++ b).drop (s.buffer.length + k) = b.drop k := by
          rw [← List.drop_drop, List.drop_left]
        obtain ⟨-, ⟨hc, hk⟩ | ⟨hb', rfl⟩⟩ := HTTPMessage.readInBody_outcome hd hb hr
        · rw [parsingStep_bodyEnd (s := s.extend b) hst happ
            (by simp only [extend, List.length_append]; omega) hc, parsingStep_bodyEnd hb₁ hr hk hc]
          simp only [extend, hdrop, hs₁, List.nil_append]
        · have hne' : m'.state ≠ .complete := by rw [hb']; decide
          rw [← List.length_append] at happ
          rw [parsingStep_bodyPause (s := s.extend b) hst happ hne', parsingStep_bodyPause hb₁ hr hne']
          rfl

omit [LawfulParser X Q] in
/-- A round throws what its step throws. -/
theorem parseRound_of_error {e : Fault} (h : s.parseRound = .error e) :
    s.parsingStep = .error e := by
  rcases hs : s.parsingStep with e' | r <;> rw [parseRound, hs] at h <;> cases h
  rfl

/-- **Parsing `a ++ b` is parsing `a` and then `b`.** -/
theorem Settled.feed_append (h : s.Settled) (hlen : (a ++ b).length ≤ bufferSize) :
    s.feed (a ++ b) = s.feed a >>= fun s' => s'.feed b := by
  rw [List.length_append] at hlen
  change parseLoop.run (s.extend (a ++ b)) = _
  rw [← extend_extend]
  refine Loop.run_simulate (L := parseLoop) (M := parseLoop) (I := Reading a.length)
    (F := fun s => s.extend b) (fun s e hs he => ?_) (fun s s' hs hnext => ⟨?_, ?_⟩)
    (fun s s' hs hleave => ?_) (h.reading a)
  · have hstep := parseRound_of_error he
    have hext := parsingStep_extend hs hlen (b := b) fun s' hs' => by
      rw [hstep] at hs'
      cases hs'
    rw [hstep] at hext
    exact congrArg (· >>= _) hext
  · exact hs.next (parseRound_next hnext)
  · obtain ⟨⟨go, s₁⟩, hstep, hr⟩ := bind_eq_ok.1 hnext
    cases go <;> cases hr
    have hext := parsingStep_extend hs hlen (b := b) fun s'' hs'' => by
      rw [hstep] at hs''
      cases hs''
    rw [hstep] at hext
    exact congrArg (· >>= _) hext
  · exact run_extend_pause hs hlen (parseRound_leave hleave)

/-- A call of `parse` leaves a settled parser. -/
theorem Settled.feed_settled (h : s.Settled) (hf : s.feed a = .ok s') : s'.Settled :=
  Loop.run_post (L := parseLoop) (I := Reading a.length) (Q := Settled)
    (fun _ _ hs hnext => hs.next (parseRound_next hnext))
    (fun _ _ hs hleave => hs.pause (parseRound_leave hleave)) (h.reading a) hf

/-- **A parser does not see where its input was cut.** -/
theorem feed_seamless :
    Seamless (feed (X := X) (Q := Q)) Settled bufferSize where
  keep h _ hf := h.feed_settled hf
  append h hlen := h.feed_append hlen

omit [LawfulParser X Q] in
/-- A buffer that is not EOF is fed. -/
theorem parse_of_ne_nil (s : HTTPMessageSequence X Q) (h : a ≠ []) : s.parse a = s.feed a :=
  if_neg h

/-- `read` returns no empty buffer but at EOF, so `parse` does not see one. -/
theorem Settled.foldlM_parse (h : s.Settled) {pieces : List Bytes}
    (hp : ∀ p ∈ pieces, p ≠ [] ∧ p.length ≤ bufferSize) :
    pieces.foldlM parse s = pieces.foldlM feed s := by
  induction pieces generalizing s with
  | nil => rfl
  | cons p ps ih =>
      rw [List.foldlM_cons, List.foldlM_cons, parse_of_ne_nil s (hp p (by simp)).1]
      rcases hs : s.feed p with e | s'
      · rfl
      · exact ih (h.feed_settled hs) fun q hq => hp q (by simp [hq])

/-- **Two cuts of one byte string are parsed to the same outcome.** -/
theorem Settled.foldlM_parse_congr (h : s.Settled) {pieces pieces' : List Bytes}
    (hp : ∀ p ∈ pieces, p ≠ [] ∧ p.length ≤ bufferSize)
    (hp' : ∀ p ∈ pieces', p ≠ [] ∧ p.length ≤ bufferSize)
    (heq : pieces.flatten = pieces'.flatten) : pieces.foldlM parse s = pieces'.foldlM parse s := by
  rw [h.foldlM_parse hp, h.foldlM_parse hp', feed_seamless.foldlM_congr h hp hp' heq]

end HTTPMessageSequence

end V2Proxy
