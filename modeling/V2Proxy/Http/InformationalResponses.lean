/-
# Informational responses

A server may send informational responses (1xx) before the response that answers a
request.  `HTTPResponseParser` takes the next request for every status line, so an
informational response uses the request up, and the final one finds the next request or
none.  However requests and buffers come in, the final responses are paired with their
requests just if there are no informational ones (`paired_iff`).
-/

import V2Proxy.Http.ResponseStream

namespace V2Proxy

open Foundations HTTPMessageSequence HTTPResponseParser

/-- The status is 1xx. -/
def HTTPResponse.isInformational (m : HTTPResponse) : Bool :=
  match HTTPResponse.statusCode m with
  | .ok (49 :: _) => true
  | _ => false

/-- A request and what the server sends for it. -/
structure Exchange where
  request : HTTPRequest
  informational : List (Bytes × HTTPResponse)
  final : Bytes
  response : HTTPResponse

namespace Exchange

/-- What the server sends. -/
def text (x : Exchange) : Bytes := (x.informational.map Prod.fst).flatten ++ x.final

/-- Informational responses and a final one, which ends as `ends` says. -/
structure WellFormed (ends : HTTPRequest → Bytes → HTTPResponse → Prop) (x : Exchange) : Prop where
  informational : ∀ i ∈ x.informational, Answers x.request i.1 i.2 ∧ i.2.isInformational = true
  final : ends x.request x.final x.response
  status : x.response.isInformational = false

end Exchange

/-- Every request is answered; the last response may end with the connection. -/
inductive Answered : List Exchange → Prop
  | nil : Answered []
  | last {x : Exchange} : x.WellFormed AnswersAtEof → Answered [x]
  | cons {x : Exchange} {xs : List Exchange} : x.WellFormed Answers → Answered xs →
      Answered (x :: xs)

/-- What happens to a response parser: a request is announced, or a buffer is read. -/
inductive ParserEvent
  | announce (request : HTTPRequest)
  | read (buffer : Bytes)

namespace ParserEvent

/-- `new_request_arrived` or `parse`. -/
def handle (s : HTTPResponseParser) : ParserEvent → Except Fault HTTPResponseParser
  | .announce request => .ok (s.newRequestArrived request)
  | .read buffer => s.parse buffer

end ParserEvent

/-- The ways in which the exchanges can go on when `owed` bytes of the responses to
earlier requests are still to be read: requests are announced in their order, no response
is read before its request is announced, and the buffers may be cut anywhere.  At the end
the connection may be closed. -/
inductive Timely : Bytes → List Exchange → List ParserEvent → Prop
  | done : Timely [] [] []
  | eof : Timely [] [] [.read []]
  | announce {x : Exchange} {xs : List Exchange} {owed : Bytes} {events : List ParserEvent} :
      x.WellFormed Answers → Timely (owed ++ x.text) xs events →
      Timely owed (x :: xs) (.announce x.request :: events)
  | read {buffer owed : Bytes} {xs : List Exchange} {events : List ParserEvent} :
      buffer ≠ [] → buffer.length ≤ bufferSize → Timely owed xs events →
      Timely (buffer ++ owed) xs (.read buffer :: events)
  | last {x : Exchange} {owed : Bytes} {pieces : List Bytes} :
      x.WellFormed AnswersAtEof → (∀ p ∈ pieces, p ≠ [] ∧ p.length ≤ bufferSize) →
      pieces.flatten = owed ++ x.text →
      Timely owed [x] (.announce x.request :: (pieces.map .read ++ [.read []]))

/-- No exception is raised, and the final responses are those to the requests, in order. -/
def Paired (xs : List Exchange) (events : List ParserEvent) : Prop :=
  ∃ s, events.foldlM ParserEvent.handle HTTPResponseParser.new = .ok s ∧
    s.completeMessages.filter (! HTTPResponse.isInformational ·) = xs.map Exchange.response ∧
    (s.completeMessages.filter (! HTTPResponse.isInformational ·)).map HTTPResponse.request =
      xs.map Exchange.request

/-- Reading buffers is parsing them. -/
theorem foldlM_read (pieces : List Bytes) (s : HTTPResponseParser) :
    (pieces.map ParserEvent.read).foldlM ParserEvent.handle s = pieces.foldlM parse s := by
  rw [List.foldlM_map]
  rfl

/-- Reading single bytes is feeding them. -/
theorem foldlM_bytes (w : Bytes) (s : HTTPResponseParser) :
    (w.map fun c => ParserEvent.read [c]).foldlM ParserEvent.handle s = s.feedBytes w := by
  rw [List.foldlM_map]
  rfl

/-! ### Without informational responses -/

/-- **The final responses alone are parsed to the messages that answer the requests.** -/
theorem Timely.leads {owed : Bytes} {xs : List Exchange} {events : List ParserEvent}
    (h : Timely owed xs events) (hplain : ∀ x ∈ xs, x.informational = [])
    {s : HTTPResponseParser} {ms : List HTTPResponse} (hs : Owes s owed ms) :
    ∃ s', events.foldlM ParserEvent.handle s = .ok s' ∧
      s'.completeMessages = ms ++ xs.map Exchange.response := by
  have htext : ∀ {x : Exchange}, x.informational = [] → x.text = x.final := by
    intro x hx
    rw [Exchange.text, hx]
    rfl
  induction h generalizing s ms with
  | done =>
      refine ⟨s, rfl, ?_⟩
      rw [hs.done]
      rfl
  | eof =>
      refine ⟨HTTPResponseParser.new.carry ms, ?_, rfl⟩
      rw [hs.done, List.foldlM_cons]
      change (HTTPMessageSequence.parse (HTTPResponseParser.new.carry ms) [] >>= _) = _
      rw [carry_eof]
      rfl
  | @announce x xs owed events hx _ ih =>
      obtain ⟨hnil, hplain⟩ := List.forall_mem_cons.1 hplain
      rw [htext hnil] at ih
      obtain ⟨s', hs', hmessages⟩ := ih hplain (hs.announce hx.final)
      refine ⟨s', ?_, ?_⟩
      · rw [List.foldlM_cons]
        exact hs'
      · rw [hmessages, List.append_assoc]
        rfl
  | read hne hlen _ ih =>
      obtain ⟨s₁, hs₁, howes⟩ := hs.read hne hlen
      obtain ⟨s', hs', hmessages⟩ := ih hplain howes
      refine ⟨s', ?_, hmessages⟩
      rw [List.foldlM_cons]
      change (HTTPMessageSequence.parse s _ >>= _) = _
      rw [hs₁, ok_bind, hs']
  | @last x owed pieces hx hp hflatten =>
      have hcloses := hs.announceLast hx.final
      rw [← htext (hplain x List.mem_cons_self), ← hflatten, ← List.append_nil pieces.flatten]
        at hcloses
      obtain ⟨s₁, hs₁, hcloses⟩ := hcloses.readAll hp
      obtain ⟨requests, heof⟩ := hcloses.eof
      refine ⟨(pending requests).carry (ms ++ [x.response]), ?_, List.append_nil _⟩
      rw [List.foldlM_cons]
      change List.foldlM ParserEvent.handle (s.newRequestArrived x.request) _ = _
      rw [List.foldlM_append, foldlM_read, hs₁, ok_bind, List.foldlM_cons]
      change (HTTPMessageSequence.parse s₁ [] >>= _) = _
      rw [heof, ok_bind]
      rfl

/-- What every exchange of answered ones is. -/
theorem Answered.wellFormed {xs : List Exchange} (h : Answered xs) :
    ∀ x ∈ xs, x.WellFormed AnswersAtEof := by
  induction h with
  | nil => exact fun _ h => absurd h List.not_mem_nil
  | last hx =>
      intro x hmem
      rw [List.mem_singleton.1 hmem]
      exact hx
  | cons hx _ ih =>
      exact List.forall_mem_cons.2 ⟨⟨hx.informational, hx.final.atEof, hx.status⟩, ih⟩

/-- Without informational responses all goes well. -/
theorem paired_of_plain {xs : List Exchange} (h : Answered xs)
    (hplain : ∀ x ∈ xs, x.informational = []) {events : List ParserEvent}
    (htimely : Timely [] xs events) : Paired xs events := by
  obtain ⟨s, hs, hmessages⟩ := htimely.leads hplain owes_new
  have hfinal : s.completeMessages.filter (! HTTPResponse.isInformational ·) =
      xs.map Exchange.response := by
    rw [hmessages, List.nil_append, List.filter_eq_self]
    intro m hm
    obtain ⟨x, hx, rfl⟩ := List.mem_map.1 hm
    rw [(h.wellFormed x hx).status]
    rfl
  refine ⟨s, hs, hfinal, ?_⟩
  rw [hfinal, List.map_map]
  exact List.map_congr_left fun x hx => (h.wellFormed x hx).final.request

/-! ### With an informational response -/

/-- All requests are announced, and the bytes are read one by one. -/
def allFirst (owed : Bytes) (xs : List Exchange) : List ParserEvent :=
  xs.map (fun x => ParserEvent.announce x.request) ++
    (owed ++ xs.flatMap Exchange.text).map fun c => .read [c]

/-- There is a way in which the exchanges can go on. -/
theorem Answered.exists_timely {xs : List Exchange} (h : Answered xs) (owed : Bytes) :
    ∃ tail, Timely owed xs (allFirst owed xs ++ tail) := by
  have hbytes : ∀ owed : Bytes, Timely owed [] (owed.map fun c => .read [c]) := by
    intro owed
    induction owed with
    | nil => exact .done
    | cons c owed ih =>
        have hlength : [c].length ≤ bufferSize := by
          rw [List.length_singleton]
          decide
        exact .read (List.cons_ne_nil c []) hlength ih
  induction h generalizing owed with
  | nil =>
      refine ⟨[], ?_⟩
      have howed := hbytes owed
      simpa [allFirst] using howed
  | @last x hx =>
      refine ⟨[.read []], ?_⟩
      have hpieces : ∀ p ∈ (owed ++ x.text).map fun c => [c], p ≠ [] ∧ p.length ≤ bufferSize := by
        intro p hp
        obtain ⟨c, -, rfl⟩ := List.mem_map.1 hp
        exact ⟨List.cons_ne_nil _ _, by rw [List.length_singleton]; decide⟩
      have hflatten : ((owed ++ x.text).map fun c => [c]).flatten = owed ++ x.text := by
        rw [← List.flatMap_def, List.flatMap_singleton']
      have hlast := Timely.last hx hpieces hflatten
      simpa [allFirst, List.map_map, Function.comp_def] using hlast
  | @cons x xs hx _ ih =>
      obtain ⟨tail, htail⟩ := ih (owed ++ x.text)
      refine ⟨tail, ?_⟩
      have hannounce := Timely.announce hx htail
      simpa [allFirst] using hannounce

/-- No event takes a message off the queue. -/
theorem foldlM_handle_grows {events : List ParserEvent} {s s' : HTTPResponseParser}
    (h : events.foldlM ParserEvent.handle s = .ok s') :
    s.completeMessages <+: s'.completeMessages := by
  refine foldlM_invariant (I := fun t => s.completeMessages <+: t.completeMessages)
    (fun s₁ event s₂ hs₁ hs₂ => ?_) (List.prefix_refl _) h
  cases event with
  | announce request =>
      obtain rfl := Except.ok.inj hs₂
      exact hs₁
  | read buffer => exact hs₁.trans <| completeMessages_prefix hs₂

theorem foldlM_parse_requests {pieces : List Bytes} {s s' : HTTPResponseParser}
    (h : pieces.foldlM parse s = .ok s') : requests s' = requests s :=
  foldlM_invariant (I := fun t => requests t = requests s)
    (fun _ _ _ hs hs' => (parse_requests hs').trans hs) rfl h

/-- The requests of the exchanges arrive, and no others. -/
theorem Timely.requests {owed : Bytes} {xs : List Exchange} {events : List ParserEvent}
    (h : Timely owed xs events) {s s' : HTTPResponseParser}
    (hs : events.foldlM ParserEvent.handle s = .ok s') :
    HTTPResponseParser.requests s' = HTTPResponseParser.requests s ++ xs.map Exchange.request := by
  induction h generalizing s with
  | done =>
      cases hs
      rw [List.map_nil, List.append_nil]
  | eof =>
      rw [← List.map_singleton (f := ParserEvent.read), foldlM_read] at hs
      rw [foldlM_parse_requests hs, List.map_nil, List.append_nil]
  | @announce x xs owed events _ _ ih =>
      rw [List.foldlM_cons] at hs
      rw [ih hs, newRequestArrived_requests, List.append_assoc]
      rfl
  | read _ _ _ ih =>
      rw [List.foldlM_cons] at hs
      obtain ⟨s₁, hs₁, hs⟩ := bind_eq_ok.1 hs
      rw [ih hs, parse_requests hs₁]
  | @last x owed pieces _ _ _ =>
      rw [List.foldlM_cons, ← List.map_singleton (f := ParserEvent.read), ← List.map_append] at hs
      change List.foldlM ParserEvent.handle (s.newRequestArrived x.request) _ = _ at hs
      rw [foldlM_read] at hs
      rw [foldlM_parse_requests hs, newRequestArrived_requests]
      rfl

/-- The requests of the exchanges are announced. -/
def announceAll (s : HTTPResponseParser) (xs : List Exchange) : HTTPResponseParser :=
  xs.foldl (fun s x => s.newRequestArrived x.request) s

theorem foldlM_announce (xs : List Exchange) (s : HTTPResponseParser) :
    (xs.map fun x => ParserEvent.announce x.request).foldlM ParserEvent.handle s =
      .ok (announceAll s xs) := by
  induction xs generalizing s with
  | nil => rfl
  | cons x xs ih =>
      rw [List.map_cons, List.foldlM_cons]
      exact ih _

theorem feedBytes_announceAll {s s' : HTTPResponseParser} {w : Bytes} (h : s.feedBytes w = .ok s')
    (xs : List Exchange) : (announceAll s xs).feedBytes w = .ok (announceAll s' xs) := by
  induction xs generalizing s s' with
  | nil => exact h
  | cons x xs ih => exact ih (feedBytes_newRequestArrived h x.request)

theorem completeMessages_announceAll (xs : List Exchange) (s : HTTPResponseParser) :
    (announceAll s xs).completeMessages = s.completeMessages := by
  induction xs generalizing s with
  | nil => rfl
  | cons x xs ih => exact ih _

/-- The responses to some requests are owed once these are announced. -/
theorem owes_announceAll {xs : List Exchange} (h : ∀ x ∈ xs, x.WellFormed Answers)
    (hplain : ∀ x ∈ xs, x.informational = []) {s : HTTPResponseParser} {owed : Bytes}
    {ms : List HTTPResponse} (hs : Owes s owed ms) :
    Owes (announceAll s xs) (owed ++ xs.flatMap Exchange.text) (ms ++ xs.map Exchange.response) := by
  induction xs generalizing s owed ms with
  | nil => simpa [announceAll] using hs
  | cons x xs ih =>
      obtain ⟨hx, h⟩ := List.forall_mem_cons.1 h
      obtain ⟨hnil, hplain⟩ := List.forall_mem_cons.1 hplain
      have htext : x.text = x.final := by
        rw [Exchange.text, hnil]
        rfl
      have hrest := ih h hplain (hs.announce hx.final)
      rw [List.flatMap_cons, List.map_cons, htext]
      simpa [announceAll] using hrest

/-- Only the last response may end with the connection. -/
theorem Answered.closed {before after : List Exchange} {x : Exchange}
    (h : Answered (before ++ x :: after)) : ∀ y ∈ before, y.WellFormed Answers := by
  induction before with
  | nil => exact fun _ h => absurd h List.not_mem_nil
  | cons y before ih =>
      rw [List.cons_append] at h
      generalize hrest : before ++ x :: after = rest at h ih
      cases h with
      | last => simp at hrest
      | cons hy h => exact List.forall_mem_cons.2 ⟨hy, ih h⟩

/-- **With an informational response, not all final responses can come out:** a message
comes out for each request at most, and the informational response is one of them. -/
theorem not_paired_of_informational {xs : List Exchange} (h : Answered xs)
    (hsome : ∃ x ∈ xs, x.informational ≠ []) :
    ∃ events, Timely [] xs events ∧ ¬ Paired xs events := by
  obtain ⟨tail, htimely⟩ := h.exists_timely []
  refine ⟨_, htimely, ?_⟩
  rintro ⟨s, hs, hfinal, -⟩
  -- the first request that gets an informational response
  obtain ⟨x, hfind⟩ : ∃ x, xs.find? (! List.isEmpty ·.informational) = some x := by
    refine Option.isSome_iff_exists.1 (List.find?_isSome.2 ?_)
    obtain ⟨x, hx, hne⟩ := hsome
    exact ⟨x, hx, by simpa using hne⟩
  obtain ⟨hx, before, after, hsplit, hbefore⟩ := List.find?_eq_some_iff_append.1 hfind
  have hplain : ∀ y ∈ before, y.informational = [] := by
    intro y hy
    have hnone := hbefore y hy
    simpa using hnone
  obtain ⟨i, is, hcons⟩ : ∃ i is, x.informational = i :: is :=
    List.exists_cons_of_ne_nil (by simpa using hx)
  obtain ⟨hanswers, hinfo⟩ := (h.wellFormed x (by simp [hsplit])).informational i (by simp [hcons])
  -- it comes out
  have howes := (owes_announceAll (hsplit ▸ h).closed hplain owes_new).announce hanswers
  have hfeed := feedBytes_announceAll howes.leads after
  have hannounce : announceAll ((announceAll .new before).newRequestArrived x.request) after =
      announceAll .new xs := by
    rw [hsplit, announceAll, announceAll, announceAll, List.foldl_append]
    rfl
  rw [hannounce] at hfeed
  have hmem : i.2 ∈ s.completeMessages := by
    have htext : xs.flatMap Exchange.text = before.flatMap Exchange.text ++ i.1 ++
        ((is.map Prod.fst).flatten ++ x.final ++ after.flatMap Exchange.text) := by
      rw [hsplit, List.flatMap_append, List.flatMap_cons, Exchange.text, hcons]
      simp
    rw [allFirst, List.foldlM_append, List.foldlM_append, foldlM_announce, ok_bind,
      List.nil_append, htext, List.map_append, List.foldlM_append, foldlM_bytes] at hs
    rw [List.nil_append] at hfeed
    rw [hfeed, ok_bind] at hs
    obtain ⟨s₁, hs₁, hs⟩ := bind_eq_ok.1 hs
    have hprefix := (foldlM_handle_grows hs₁).trans (foldlM_handle_grows hs)
    rw [completeMessages_announceAll] at hprefix
    exact hprefix.subset (by simp)
  -- and there are no more messages than requests
  have hrequests := htimely.requests hs
  have hle : s.completeMessages.length ≤ xs.length := by
    have hnew : requests HTTPResponseParser.new = [] := requests_carry []
    have hlength := congrArg List.length hrequests
    rw [hnew, HTTPResponseParser.requests, List.nil_append, List.length_append, List.length_map,
      List.length_map] at hlength
    omega
  have hlt : (s.completeMessages.filter (! HTTPResponse.isInformational ·)).length <
      s.completeMessages.length :=
    List.length_filter_lt_length_iff_exists.2 ⟨i.2, hmem, by simp [hinfo]⟩
  rw [hfinal, List.length_map] at hlt
  omega

/-- **The final responses are paired with their requests just if there are no
informational ones.** -/
theorem paired_iff {xs : List Exchange} (h : Answered xs) :
    (∀ events, Timely [] xs events → Paired xs events) ↔ ∀ x ∈ xs, x.informational = [] := by
  constructor
  · intro hpaired
    by_contra hsome
    push Not at hsome
    obtain ⟨events, htimely, hnot⟩ := not_paired_of_informational h hsome
    exact hnot (hpaired events htimely)
  · exact fun hplain events htimely => paired_of_plain h hplain htimely

/-- A request with a given first line. -/
def requestOf (firstLine : Bytes) : HTTPRequest where
  expectedBodySize := (true, 0)
  firstLine := firstLine
  state := .complete
  derived := {}

/-- The response to a `HEAD`, which has no body whatever its headers say. -/
def headExchange : Exchange where
  request := requestOf (ascii "HEAD / HTTP/1.1")
  informational := []
  final := ascii "HTTP/1.1 200 OK\r\nContent-Length: 5\r\n\r\n"
  response := {
    expectedBodySize := (true, 0)
    firstLine := ascii "HTTP/1.1 200 OK"
    headers := [{ key := ascii "Content-Length", value := ascii "5" }]
    state := .complete
    derived := { request := requestOf (ascii "HEAD / HTTP/1.1") } }

/-- A response that ends with the connection, behind the given ones. -/
def eofExchange (informational : List (Bytes × HTTPResponse)) : Exchange where
  request := requestOf (ascii "GET / HTTP/1.1")
  informational := informational
  final := ascii "HTTP/1.1 200 OK\r\n\r\nab"
  response := {
    firstLine := ascii "HTTP/1.1 200 OK"
    body := ascii "ab"
    state := .complete
    derived := {
      request := requestOf (ascii "GET / HTTP/1.1")
      bodyParser := some .rule5 } }

theorem answered_eofExchange {informational : List (Bytes × HTTPResponse)}
    (h : ∀ i ∈ informational, Answers (requestOf (ascii "GET / HTTP/1.1")) i.1 i.2 ∧
      i.2.isInformational = true) : (eofExchange informational).WellFormed AnswersAtEof := by
  have hfinal : ((HTTPResponseParser.new.newRequestArrived
      (requestOf (ascii "GET / HTTP/1.1"))).feedBytes
        (ascii "HTTP/1.1 200 OK\r\n\r\nab") >>= fun s => s.parse []) =
        .ok (HTTPResponseParser.new.carry [(eofExchange []).response]) := by decide +kernel
  have hstatus : (eofExchange []).response.isInformational = false := by decide +kernel
  exact ⟨h, bind_eq_ok.1 hfinal, hstatus⟩

/-- Two requests and two responses. -/
theorem paired_iff_head : ¬ ∃ events, Timely [] [headExchange, eofExchange []] events ∧
    ¬ Paired [headExchange, eofExchange []] events := by
  have hhead : headExchange.WellFormed Answers :=
    ⟨fun _ h => absurd h List.not_mem_nil, by unfold Answers; decide +kernel, by decide +kernel⟩
  have hanswered : Answered [headExchange, eofExchange []] :=
    .cons hhead (.last (answered_eofExchange fun _ h => absurd h List.not_mem_nil))
  rintro ⟨events, htimely, hnot⟩
  exact hnot ((paired_iff hanswered).2 (by decide) events htimely)

/-- The informational response that lets a client go on. -/
def continueText : Bytes := ascii "HTTP/1.1 100 Continue\r\n\r\n"

/-- The message it is parsed to. -/
def continueMessage : HTTPResponse where
  expectedBodySize := (true, 0)
  firstLine := ascii "HTTP/1.1 100 Continue"
  state := .complete
  derived := { request := requestOf (ascii "GET / HTTP/1.1") }

/-- **An informational response unpairs:** the final one finds no request, which is an
exception. -/
theorem continue_unpairs :
    Answered [eofExchange [(continueText, continueMessage)]] ∧
      Timely [] [eofExchange [(continueText, continueMessage)]]
        [.announce (requestOf (ascii "GET / HTTP/1.1")),
          .read (eofExchange [(continueText, continueMessage)]).text, .read []] ∧
      ¬ Paired [eofExchange [(continueText, continueMessage)]]
        [.announce (requestOf (ascii "GET / HTTP/1.1")),
          .read (eofExchange [(continueText, continueMessage)]).text, .read []] := by
  have hx : (eofExchange [(continueText, continueMessage)]).WellFormed AnswersAtEof := by
    refine answered_eofExchange fun i hi => ?_
    rw [List.mem_singleton.1 hi]
    exact ⟨by unfold Answers; decide +kernel, by decide +kernel⟩
  have hpieces : ∀ p ∈ [(eofExchange [(continueText, continueMessage)]).text],
      p ≠ [] ∧ p.length ≤ bufferSize := by decide +kernel
  have hflatten : [(eofExchange [(continueText, continueMessage)]).text].flatten =
      [] ++ (eofExchange [(continueText, continueMessage)]).text := List.append_nil _
  have htimely := Timely.last hx hpieces hflatten
  refine ⟨.last hx, htimely, ?_⟩
  rintro ⟨s, hs, -⟩
  have hraised : [ParserEvent.announce (requestOf (ascii "GET / HTTP/1.1")),
      .read (eofExchange [(continueText, continueMessage)]).text, .read []].foldlM
        ParserEvent.handle HTTPResponseParser.new =
      .error (.runtimeError (ascii "HTTPResponseParser: response without matching request")) := by
    decide +kernel
  rw [hraised] at hs
  cases hs

end V2Proxy
