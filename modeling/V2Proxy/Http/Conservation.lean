/-
# The request parser conserves the text

Of the bytes it is given, `HTTPRequestParser` drops line endings, the colon and
the spaces behind it, and no others: for every other byte, as many as were fed
are in its buffer, in the message in progress and in the complete messages
together (`Holds.feedBytes`).  So a text that reaches the parser in part only
cannot come out of it as a whole.
-/

import V2Proxy.Http.RequestStream
import Mathlib.Data.List.TakeWhile

namespace V2Proxy

open Foundations

/-- The bytes that the parser may drop: CR, LF, the colon and the space. -/
def dropped : Bytes := [13, 10, 58, 32]

/-- How often the byte occurs in the header. -/
def HTTPHeader.weight (c : UInt8) (h : HTTPHeader) : ℕ := h.key.count c + h.value.count c

/-- How often the byte occurs in the message. -/
def HTTPMessage.weight {X : Type} (c : UInt8) (m : HTTPMessage X) : ℕ :=
  m.firstLine.count c + (m.headers.map (HTTPHeader.weight c)).sum + m.body.count c

/-- How often the byte occurs in what the parser holds. -/
def HTTPMessageSequence.weight {X Q : Type} (c : UInt8) (s : HTTPMessageSequence X Q) : ℕ :=
  s.buffer.count c + s.messageInProgress.weight c +
    (s.completeMessages.map (HTTPMessage.weight c)).sum

section

variable {c : UInt8}

/-- A line ending has only bytes that may be dropped. -/
theorem count_CRLF (hc : c ∉ dropped) : CRLF.count c = 0 := by
  have hsub : CRLF ⊆ dropped := by decide
  exact List.count_eq_zero.2 fun h => hc (hsub h)

/-- So have the spaces that are stripped. -/
theorem count_stripSpaces (hc : c ∉ dropped) (s : Bytes) : (stripSpaces s).count c = s.count c := by
  have hsplit := congrArg (List.count c) (List.takeWhile_append_dropWhile (p := (· = 32)) (l := s))
  have hspaces : (s.takeWhile (· = 32)).count c = 0 := by
    rw [List.count_eq_zero]
    intro h
    have h32 := List.mem_takeWhile_imp h
    refine hc ?_
    rw [of_decide_eq_true h32]
    decide
  rw [List.count_append, hspaces, Nat.zero_add] at hsplit
  exact hsplit

/-- A line gives its text to the buffer behind it. -/
theorem count_take_drop_line (hc : c ∉ dropped) {buffer : Bytes} {i : ℕ}
    (h : find CRLF buffer = some i) :
    (buffer.take i).count c + (buffer.drop (i + 2)).count c = buffer.count c := by
  conv_rhs => rw [eq_append_of_find h]
  rw [List.count_append, List.count_append, count_CRLF hc, Nat.zero_add]
  rfl

/-- A header line gives its bytes to the key and the value. -/
theorem HTTPHeader.parse_weight (hc : c ∉ dropped) {line : Bytes} {header : HTTPHeader}
    (h : HTTPHeader.parse line = .ok header) : header.weight c = line.count c := by
  rw [HTTPHeader.parse] at h
  split at h
  · cases h
  · rename_i i hi
    cases h
    have hcolon : (ascii ":").count c = 0 := by
      rw [List.count_eq_zero]
      intro h
      refine hc ?_
      rw [List.mem_singleton.1 (show c ∈ [58] from h)]
      decide
    have hvalue : (if stripSpaces (line.drop (i + 1)) = [] then line.drop (i + 1)
        else stripSpaces (line.drop (i + 1))).count c = (line.drop (i + 1)).count c := by
      split_ifs
      · rfl
      · exact count_stripSpaces hc _
    have hline := congrArg (List.count c) (eq_append_of_find hi)
    rw [List.count_append, List.count_append, hcolon, Nat.zero_add] at hline
    rw [HTTPHeader.weight, hvalue, hline]
    rfl

/-- Fixing the length of the body does not touch the text. -/
theorem HTTPRequest.calculate_weight {m m' : HTTPRequest}
    (h : HTTPRequest.calculateExpectedBodySize m = .ok m') :
    m'.weight c = m.weight c ∧ m'.state = .bodyPending := by
  have hset : ∀ {isKnown value}, m.setExpectedBodySize isKnown value = .ok m' →
      m'.weight c = m.weight c ∧ m'.state = .bodyPending := by
    intro isKnown value h
    obtain ⟨_, hst, h⟩ := bind_eq_ok.1 h
    cases h
    exact ⟨rfl, assert_eq_ok.1 hst⟩
  obtain ⟨_, -, h⟩ := bind_eq_ok.1 h
  split_ifs at h
  · exact hset h
  · obtain ⟨_, -, h⟩ := bind_eq_ok.1 h
    obtain ⟨_, -, h⟩ := bind_eq_ok.1 h
    exact hset h

/-- A header line gives its bytes to the message. -/
theorem HTTPRequest.headerLine_weight (hc : c ∉ dropped) {m m' : HTTPRequest} {line : Bytes}
    (h : m.headerLine line = .ok m') :
    m'.weight c = m.weight c + line.count c ∧ m'.state ≠ .firstLinePending := by
  rw [HTTPMessage.headerLine] at h
  split_ifs at h with hline
  · obtain ⟨_, -, h⟩ := bind_eq_ok.1 h
    obtain ⟨hw, hst⟩ := HTTPRequest.calculate_weight (c := c) h
    refine ⟨by rw [hw, hline, List.count_nil]; rfl, by rw [hst]; decide⟩
  · obtain ⟨_, hst, h⟩ := bind_eq_ok.1 h
    obtain ⟨header, hheader, h⟩ := bind_eq_ok.1 h
    cases h
    refine ⟨?_, ?_⟩
    · simp only [HTTPMessage.weight, List.map_append, List.sum_append, List.map_singleton,
        List.sum_singleton, HTTPHeader.parse_weight hc hheader]
      omega
    · dsimp only
      rw [assert_eq_ok.1 hst]
      decide

/-- A body takes its bytes from the buffer. -/
theorem HTTPRequest.readInBody_weight {m m' : HTTPRequest} {a : Bytes} {n : ℕ}
    (hst : m.state = .bodyPending) (h : m.readInBody a = .ok (n, m')) :
    m'.weight c + (a.drop n).count c = m.weight c + a.count c ∧ m'.state ≠ .firstLinePending := by
  rcases hsize : m.expectedBodySize with ⟨known, size⟩
  cases known with
  | false =>
      rw [HTTPMessage.readInBody_unknown hst (by rw [hsize])] at h
      cases h
  | true =>
      rw [HTTPMessage.readInBody_known hst hsize] at h
      obtain ⟨_, -, h⟩ := bind_eq_ok.1 h
      cases h
      set n := min (size - m.body.length) a.length with hn
      have htake : a.take n ++ a.drop n = a := List.take_append_drop n a
      have hcount := congrArg (List.count c) htake
      rw [List.count_append] at hcount
      refine ⟨?_, ?_⟩
      · simp only [HTTPMessage.weight, List.count_append]
        omega
      · dsimp only
        split_ifs
        · decide
        · rw [hst]
          decide

end

namespace HTTPMessageSequence

variable {c : UInt8} {s s' : HTTPRequestParser}

/-- The parser holds `n` of the byte, and a message without a first line is
new. -/
structure Holds (c : UInt8) (n : ℕ) (s : HTTPRequestParser) : Prop where
  weight : s.weight c = n
  fresh : s.messageInProgress.state = .firstLinePending → s.messageInProgress = .fresh

/-- A new message weighs nothing. -/
theorem weight_fresh : (HTTPMessage.fresh : HTTPRequest).weight c = 0 := rfl

/-- **A round of `parse` moves text, and drops nothing but delimiters.** -/
theorem Holds.next {n : ℕ} (hc : c ∉ dropped) (h : s.Holds c n) (hr : Round s s') :
    s'.Holds c n := by
  have hweight := h.weight
  unfold HTTPMessageSequence.weight at hweight
  cases hr with
  | firstLine hst hi hm hm' =>
      have hline := count_take_drop_line hc hi
      cases hm
      obtain ⟨_, -, hm'⟩ := bind_eq_ok.1 hm'
      cases hm'
      have hfresh := h.fresh hst
      refine ⟨?_, fun hst' => by cases hst'⟩
      rw [hfresh, weight_fresh] at hweight
      simp only [HTTPMessageSequence.weight, HTTPMessage.weight, hfresh, HTTPMessage.fresh,
        List.map_nil, List.sum_nil, List.count_nil]
      omega
  | header hst hi hm =>
      have hline := count_take_drop_line hc hi
      obtain ⟨hw, hne⟩ := HTTPRequest.headerLine_weight hc hm
      refine ⟨?_, fun hst' => absurd hst' hne⟩
      simp only [HTTPMessageSequence.weight]
      omega
  | body hst hm hn hcomplete =>
      obtain ⟨hw, hne⟩ := HTTPRequest.readInBody_weight (c := c) hst hm
      refine ⟨?_, fun hst' => absurd hst' hne⟩
      simp only [HTTPMessageSequence.weight]
      omega
  | complete hst =>
      refine ⟨?_, fun _ => rfl⟩
      simp only [HTTPMessageSequence.weight, weight_fresh, List.map_append, List.sum_append,
        List.map_singleton, List.sum_singleton]
      omega

/-- Where `parse` stops, the body has taken the rest of the buffer. -/
theorem Holds.pause {n : ℕ} (h : s.Holds c n) (hp : Pause s s') : s'.Holds c n := by
  have hweight := h.weight
  unfold HTTPMessageSequence.weight at hweight
  cases hp with
  | line => exact h
  | body hst hm hne =>
      obtain ⟨hw, hne⟩ := HTTPRequest.readInBody_weight (c := c) hst hm
      rw [List.drop_length, List.count_nil] at hw
      refine ⟨?_, fun hst' => absurd hst' hne⟩
      simp only [HTTPMessageSequence.weight, List.count_nil]
      omega

/-- **Feeding a buffer adds its bytes,** except for delimiters. -/
theorem Holds.feed {n : ℕ} (hc : c ∉ dropped) (h : s.Holds c n) {b : Bytes}
    (hf : s.feed b = .ok s') : s'.Holds c (n + b.count c) := by
  have hweight := h.weight
  unfold HTTPMessageSequence.weight at hweight
  refine Loop.run_post (L := parseLoop) (I := Holds c (n + b.count c))
    (Q := Holds c (n + b.count c)) (s := { s with buffer := s.buffer ++ b })
    (fun _ _ hs hn => hs.next hc (parseRound_next hn))
    (fun _ _ hs hl => hs.pause (parseRound_leave hl)) ⟨?_, h.fresh⟩ hf
  simp only [HTTPMessageSequence.weight, List.count_append]
  omega

/-- **Feeding bytes conserves them.** -/
theorem Holds.feedBytes {n : ℕ} (hc : c ∉ dropped) (h : s.Holds c n) {w : Bytes}
    (hf : s.feedBytes w = .ok s') : s'.Holds c (n + w.count c) := by
  induction w generalizing s n with
  | nil =>
      cases hf
      exact h
  | cons x w ih =>
      rw [HTTPMessageSequence.feedBytes, List.foldlM_cons] at hf
      obtain ⟨s₁, hs₁, hf⟩ := bind_eq_ok.1 hf
      have := ih (h.feed hc hs₁) hf
      rwa [Nat.add_assoc, ← List.count_append, List.singleton_append] at this

/-- A new parser holds nothing. -/
theorem holds_new (c : UInt8) : HTTPRequestParser.new.Holds c 0 := ⟨rfl, fun _ => rfl⟩

/-- The complete messages hold no more than the parser. -/
theorem Holds.completeMessages_le {n : ℕ} (h : s.Holds c n) :
    (s.completeMessages.map (HTTPMessage.weight c)).sum ≤ n := by
  rw [← h.weight]
  exact Nat.le_add_left _ _

end HTTPMessageSequence

end V2Proxy
