/-
# Bodies whose length is in `Content-Length`

The requests and the responses whose length is taken from `Content-Length` take it the same
way: `myatoi` of the header's value, a signed `long`, becomes a `size_t`.  So the message is
complete after as many bytes as the header says, unless it says a negative number
(`rightLength_iff`): that is a size of nearly `2 ^ 64`, which no body reaches.
-/

import V2Proxy.Http.ParserSegmentation
import V2Proxy.Util.Numerals

namespace V2Proxy

open Foundations

namespace HTTPMessage

variable {X : Type} [MessageType X]

/-- `read_in_body` of one buffer after the other until the message is complete: how many
bytes it has taken, and the message. -/
def readBody (m : HTTPMessage X) : List Bytes → Except Fault (ℕ × HTTPMessage X)
  | [] => .ok (0, m)
  | a :: pieces => do
      let (n, m) ← m.readInBody a
      if m.state = .complete then return (n, m)
      else
        let (k, m) ← readBody m pieces
        return (n + k, m)

/-- The message is complete after `n` bytes, however they are cut, and not before. -/
def TakesBody (m : HTTPMessage X) (n : ℕ) : Prop :=
  ∀ pieces : List Bytes, m.readBody pieces =
    if pieces ≠ [] ∧ n ≤ pieces.flatten.length then
      .ok (n, { m with body := pieces.flatten.take n, state := .complete })
    else .ok (pieces.flatten.length, { m with body := pieces.flatten })

variable {m : HTTPMessage X} {n : ℕ}

/-- **A body of known size is read up to that size.** -/
theorem readBody_known (hst : m.state = .bodyPending) (hsize : m.expectedBodySize = (true, n))
    (hle : m.body.length ≤ n) (pieces : List Bytes) :
    m.readBody pieces =
      if pieces ≠ [] ∧ n ≤ m.body.length + pieces.flatten.length then
        .ok (n - m.body.length, { m with
          body := m.body ++ pieces.flatten.take (n - m.body.length), state := .complete })
      else .ok (pieces.flatten.length, { m with body := m.body ++ pieces.flatten }) := by
  induction pieces generalizing m with
  | nil => simp [readBody]
  | cons a pieces ih =>
      have hlength : (a :: pieces).flatten.length = a.length + pieces.flatten.length := by
        rw [List.flatten_cons, List.length_append]
      rcases Nat.lt_or_ge (m.body.length + a.length) n with hlt | hge
      · have hlen : ({ m with body := m.body ++ a } : HTTPMessage X).body.length =
            m.body.length + a.length := List.length_append
        have hne : ¬ ({ m with body := m.body ++ a } : HTTPMessage X).state = .complete := by
          rw [show _ = HTTPMessageState.bodyPending from hst]
          decide
        rw [readBody, readInBody_short hst hsize hlt, ok_bind]
        dsimp only
        rw [if_neg hne, ih (m := { m with body := m.body ++ a }) hst hsize (by omega), hlen, hlength]
        by_cases hend : n ≤ m.body.length + (a.length + pieces.flatten.length)
        · have hpieces : pieces ≠ [] := by
            rintro rfl
            rw [List.flatten_nil, List.length_nil] at hend
            omega
          have htake : (a :: pieces).flatten.take (n - m.body.length) =
              a ++ pieces.flatten.take (n - (m.body.length + a.length)) := by
            rw [List.flatten_cons, List.take_append, List.take_of_length_le (by omega),
              Nat.sub_sub]
          rw [if_pos ⟨hpieces, by omega⟩, if_pos ⟨List.cons_ne_nil _ _, hend⟩, htake, ok_bind]
          have hsum : a.length + (n - (m.body.length + a.length)) = n - m.body.length := by omega
          simp only [hsum, List.append_assoc]
          rfl
        · rw [if_neg fun h => hend (by omega), if_neg fun h => hend h.2, ok_bind, List.flatten_cons]
          simp only [List.append_assoc]
          rfl
      · rw [readBody, readInBody_enough hst hsize hle hge, ok_bind,
          if_pos ⟨List.cons_ne_nil _ _, by omega⟩, List.flatten_cons,
          List.take_append_of_le_length (by omega)]
        rfl

/-- The end of the headers raises, or the message is complete after as many bytes as the
header's value denotes. -/
def RightLength (m : HTTPMessage X) (value : Bytes) : Prop :=
  (∃ e, m.doneWithHeaders = .error e ∧ e.Raised) ∨
    ∃ (m' : HTTPMessage X) (n : ℕ), m.doneWithHeaders = .ok m' ∧ Denotes 10 value n ∧
      m'.state = .bodyPending ∧ m'.expectedBodySize = (true, n) ∧ m'.TakesBody n

/-- **The length is right if it is not negative,** whatever the message is. -/
theorem rightLength_iff_of_done {value : Bytes} (hbody : m.body = [])
    (hdone : m.doneWithHeaders = myatoi value 10 >>= fun z =>
      .ok { m with state := .bodyPending, expectedBodySize := (true, toUInt64 z) }) :
    m.RightLength value ↔ ∀ z, Denotes 10 value z → -2 ^ 63 ≤ z → 0 ≤ z := by
  constructor
  · intro h z hz hlow
    by_cases hhigh : z < 2 ^ 63
    swap
    · omega
    rw [myatoi_eq_ok_iff.2 ⟨hz, hlow, hhigh⟩, ok_bind] at hdone
    rcases h with ⟨e, he, -⟩ | ⟨m', n, hm', hn, -, -, -⟩
    · rw [hdone] at he
      cases he
    · rw [hz.unique hn hlow hhigh]
      omega
  · intro h
    rcases hm : myatoi value 10 with e | z
    · rw [hm] at hdone
      exact Or.inl ⟨e, hdone, raised_of_myatoi hm⟩
    · obtain ⟨hz, hlow, hhigh⟩ := myatoi_eq_ok_iff.1 hm
      obtain ⟨n, rfl⟩ : ∃ n : ℕ, z = n := ⟨z.toNat, by have := h z hz hlow; omega⟩
      have hsize : toUInt64 n = n := by
        unfold toUInt64
        omega
      rw [hm, ok_bind, hsize] at hdone
      refine Or.inr ⟨_, n, hdone, hz, rfl, rfl, fun pieces => ?_⟩
      rw [readBody_known (n := n) rfl rfl (by rw [hbody]; exact Nat.zero_le n), hbody]
      simp only [List.length_nil, Nat.zero_add, Nat.sub_zero, List.nil_append]

end HTTPMessage

/-- A request whose headers have been read. -/
def HTTPRequest.ofHead (firstLine : Bytes) (headers : List HTTPHeader) : HTTPRequest where
  firstLine := firstLine
  headers := headers
  state := .headersPending
  derived := {}

/-- A response whose headers have been read. -/
def HTTPResponse.ofHead (request : HTTPRequest) (firstLine : Bytes) (headers : List HTTPHeader) :
    HTTPResponse where
  firstLine := firstLine
  headers := headers
  state := .headersPending
  derived := { request := request }

/-- The length of the body is taken from `Content-Length`, which has this value. -/
structure HTTPRequest.ByContentLength (m : HTTPRequest) (value : Bytes) : Prop where
  post : m.firstLine.take 5 = ascii "POST "
  value : m.getHeaderValue (ascii "Content-Length") = .ok value

/-- The same of a response: rule 3. -/
structure HTTPResponse.ByContentLength (m : HTTPResponse) (value : Bytes) : Prop where
  hasBody : m.hasNoBody = .ok false
  identity : m.hasHeader (ascii "Transfer-Encoding") = false
  value : m.getHeaderValue (ascii "Content-Length") = .ok value

/-- The end of the headers of a POST request. -/
theorem HTTPRequest.doneWithHeaders_post {firstLine : Bytes} (headers : List HTTPHeader)
    (hpost : firstLine.take 5 = ascii "POST ") :
    (ofHead firstLine headers).doneWithHeaders =
      if (ofHead firstLine headers).hasHeader (ascii "Content-Length") = false then
        .error (.runtimeError (ascii "HTTPRequest: does not support chunked requests"))
      else (ofHead firstLine headers).getHeaderValue (ascii "Content-Length") >>= fun value =>
        myatoi value 10 >>= fun z => .ok { ofHead firstLine headers with
          state := .bodyPending, expectedBodySize := (true, toUInt64 z) } := by
  have hnot : ¬ (firstLine.take 4 = ascii "GET " ∨ firstLine.take 5 = ascii "HEAD ") := by
    rintro (hget | hhead)
    · have htake : (firstLine.take 5).take 4 = ascii "GET " := by
        rw [List.take_take]
        exact hget
      rw [hpost] at htake
      exact absurd htake (by decide)
    · rw [hpost] at hhead
      exact absurd hhead (by decide)
  have hst : (ofHead firstLine headers).state = .headersPending := rfl
  have hst' : ({ ofHead firstLine headers with state := .bodyPending } : HTTPRequest).state =
      .bodyPending := rfl
  rw [HTTPMessage.doneWithHeaders, assert_of hst, ok_bind]
  change calculateExpectedBodySize { ofHead firstLine headers with state := .bodyPending } = _
  rw [calculateExpectedBodySize, assert_of hst', ok_bind]
  exact (if_neg hnot).trans (if_pos hpost)

theorem HTTPRequest.ByContentLength.done {firstLine value : Bytes} {headers : List HTTPHeader}
    (h : (ofHead firstLine headers).ByContentLength value) :
    (ofHead firstLine headers).doneWithHeaders = myatoi value 10 >>= fun z =>
      .ok { ofHead firstLine headers with
        state := .bodyPending, expectedBodySize := (true, toUInt64 z) } := by
  have hhas : ¬ (ofHead firstLine headers).hasHeader (ascii "Content-Length") = false := by
    rw [HTTPMessage.hasHeader_of_value h.value]
    decide
  have hpost : firstLine.take 5 = ascii "POST " := h.post
  rw [doneWithHeaders_post headers hpost, if_neg hhas, h.value, ok_bind]

theorem HTTPResponse.ByContentLength.done {request : HTTPRequest} {firstLine value : Bytes}
    {headers : List HTTPHeader} (h : (ofHead request firstLine headers).ByContentLength value) :
    (ofHead request firstLine headers).doneWithHeaders = myatoi value 10 >>= fun z =>
      .ok { ofHead request firstLine headers with
        state := .bodyPending, expectedBodySize := (true, toUInt64 z) } := by
  have hst : (ofHead request firstLine headers).state = .headersPending := rfl
  have hst' : ({ ofHead request firstLine headers with state := .bodyPending } : HTTPResponse).state =
      .bodyPending := rfl
  have hbody : hasNoBody { ofHead request firstLine headers with state := .bodyPending } =
      .ok false := h.hasBody
  have hchunked : isChunked { ofHead request firstLine headers with state := .bodyPending } =
      .ok false := by
    have hno : ¬ (ofHead request firstLine headers).hasHeader (ascii "Transfer-Encoding") = true := by
      rw [h.identity]
      decide
    exact if_neg hno
  have hhas := HTTPMessage.hasHeader_of_value h.value
  rw [HTTPMessage.doneWithHeaders, assert_of hst, ok_bind]
  change calculateExpectedBodySize { ofHead request firstLine headers with state := .bodyPending } = _
  rw [calculateExpectedBodySize, assert_of hst', ok_bind, hbody, ok_bind]
  refine (if_neg Bool.false_ne_true).trans ?_
  rw [hchunked, ok_bind]
  refine (if_neg Bool.false_ne_true).trans ((if_pos ⟨h.identity, hhas⟩).trans ?_)
  change (HTTPMessage.getHeaderValue (ofHead request firstLine headers) _ >>= _) = _
  rw [h.value, ok_bind]
  rcases myatoi value 10 with e | z <;> rfl

/-- **The expected size is the number in `Content-Length` if and only if that is refused or
not negative,** for requests and for responses. -/
theorem rightLength_iff (firstLine value : Bytes) (headers : List HTTPHeader) :
    ((HTTPRequest.ofHead firstLine headers).ByContentLength value →
      ((HTTPRequest.ofHead firstLine headers).RightLength value ↔
        ∀ z, Denotes 10 value z → -2 ^ 63 ≤ z → 0 ≤ z)) ∧
    ∀ request, (HTTPResponse.ofHead request firstLine headers).ByContentLength value →
      ((HTTPResponse.ofHead request firstLine headers).RightLength value ↔
        ∀ z, Denotes 10 value z → -2 ^ 63 ≤ z → 0 ≤ z) :=
  ⟨fun h => HTTPMessage.rightLength_iff_of_done rfl h.done,
    fun _ h => HTTPMessage.rightLength_iff_of_done rfl h.done⟩

/-- The headers with one length. -/
def lengthHeader (value : Bytes) : List HTTPHeader :=
  [{ key := ascii "Content-Length", value := value }]

/-- A length with white space and a sign. -/
theorem rightLength_iff_sign :
    (HTTPRequest.ofHead (ascii "POST / HTTP/1.1") (lengthHeader (ascii " +3"))).RightLength
        (ascii " +3") ∧
      (HTTPResponse.ofHead (HTTPRequest.ofHead (ascii "GET / HTTP/1.1") []) (ascii "HTTP/1.1 200 OK")
        (lengthHeader (ascii " +3"))).RightLength (ascii " +3") := by
  have hthree : ∀ z, Denotes 10 (ascii " +3") z → -2 ^ 63 ≤ z → 0 ≤ z := by
    intro z hz hlow
    by_contra hneg
    have hread : myatoi (ascii " +3") 10 = .ok 3 := by decide +kernel
    rw [myatoi_eq_ok_iff.2 ⟨hz, hlow, by omega⟩] at hread
    cases hread
    exact hneg (by decide)
  exact ⟨((rightLength_iff _ _ _).1 ⟨by decide +kernel, by decide +kernel⟩).2 hthree,
    ((rightLength_iff _ _ _).2 _ ⟨by decide +kernel, by decide +kernel, by decide +kernel⟩).2 hthree⟩

/-- **A length of minus one is `2 ^ 64 - 1`:** a request, and a response, that swallow all
that follows them. -/
theorem negative_wraps :
    (HTTPRequest.ofHead (ascii "POST / HTTP/1.1") (lengthHeader (ascii "-1"))).ByContentLength
        (ascii "-1") ∧
      ((HTTPRequest.ofHead (ascii "POST / HTTP/1.1")
        (lengthHeader (ascii "-1"))).doneWithHeaders.map HTTPMessage.expectedBodySize) =
          .ok (true, 2 ^ 64 - 1) ∧
      ((HTTPResponse.ofHead (HTTPRequest.ofHead (ascii "GET / HTTP/1.1") []) (ascii "HTTP/1.1 200 OK")
        (lengthHeader (ascii "-1"))).doneWithHeaders.map HTTPMessage.expectedBodySize) =
          .ok (true, 2 ^ 64 - 1) ∧
      ¬ (HTTPRequest.ofHead (ascii "POST / HTTP/1.1") (lengthHeader (ascii "-1"))).RightLength
        (ascii "-1") := by
  have hsize : ((HTTPRequest.ofHead (ascii "POST / HTTP/1.1")
      (lengthHeader (ascii "-1"))).doneWithHeaders.map HTTPMessage.expectedBodySize) =
        .ok (true, 2 ^ 64 - 1) := by decide +kernel
  refine ⟨⟨by decide +kernel, by decide +kernel⟩, hsize, by decide +kernel, ?_⟩
  rintro (⟨e, he, -⟩ | ⟨m', n, hm', hn, -, -, -⟩)
  · rw [he] at hsize
    cases hsize
  · have hread : myatoi (ascii "-1") 10 = .ok (-1) := by decide +kernel
    obtain ⟨hminus, -, -⟩ := myatoi_eq_ok_iff.1 hread
    have heq := hminus.unique hn (by decide) (by decide)
    omega

end V2Proxy
