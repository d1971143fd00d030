/-
# The client's stream, cut in different ways

The client-in action of `HTTPProxy::loop`, run on one buffer after the other:
each goes through `v2filter_client`, and what comes out goes to `request_parser`;
of a blocked buffer the request in front of the queue is taken off again for the
canned response.  The resources invoked and the requests in the queue are the same
for all cuts of a stream of complete requests exactly when no buffer that could be
cut out of the stream is `Touched` (`cuts_agree_iff`).

One direction is that untouched buffers pass unchanged.  For the other, a touched
buffer is read between single bytes, which are not touched.  Where it is granted
something the invoked list is longer, where it is refused one request is gone from
the queue, and where the action throws the buffer has not come out of the parser.
-/

import V2Proxy.Http.FilterSegmentation
import V2Proxy.HttpServer.BlockedRequests

namespace V2Proxy

open Foundations HTTPMessageSequence

namespace HTTPProxy

/-- Buffers read from the client, one after the other: rounds of `Poller::poll` in
which nothing else is ready. -/
def readAll (s : HTTPProxy) (buffers : List Bytes) : HTTPProxy :=
  buffers.foldl (fun s buffer => s.poll (readClient buffer)) s

/-- What is left of it: the resources invoked, and the requests in the queue.  An
action that throws leaves the queue as it was before. -/
def outcome (s : HTTPProxy) : List CloudResource × List HTTPRequest :=
  (s.list.invoked, s.requestParser.completeMessages)

/-- The thread runs, and neither side has had EOF. -/
structure Open (s : HTTPProxy) : Prop where
  running : s.status = .running
  serverOpen : s.serverEof = false
  clientOpen : s.clientEof = false

variable {s s' : HTTPProxy} {buffer : Bytes}

/-- A connection begins open. -/
theorem open_start (list : CloudResourceList) : (start list).Open := ⟨rfl, rfl, rfl⟩

/-- An entry that is not ready does nothing. -/
theorem act_idle (s : HTTPProxy) (i : Bool) (callback : HTTPProxy → Except Thrown HTTPProxy) :
    s.act {} i callback = s := by
  simp [act, calls]

/-- **What a round is in which only the client has something to read:** the
client-in action. -/
theorem Open.poll_readClient (h : s.Open) (buffer : Bytes) :
    s.poll (readClient buffer) = s.act { ready := true } true (clientIn buffer) := by
  have hinterest : s.interest.clientIn = true := by
    simp only [interest, h.serverOpen, h.clientOpen]
    rfl
  have hsome : ¬ s.interest.none = true := by
    simp only [Interest.none, hinterest, Bool.or_true, Bool.true_or]
    decide
  rw [poll, if_neg (not_not_intro h.running), if_neg hsome, afterServerOut, afterClientIn,
    afterServerIn]
  simp only [readClient, act_idle]
  rw [hinterest]

/-- The action is called. -/
theorem Open.calls (h : s.Open) : s.calls { ready := true } true = true := by
  simp only [HTTPProxy.calls, h.running]
  rfl

/-- The action succeeds. -/
theorem Open.poll_of_ok (h : s.Open) (hs : clientIn buffer s = .ok s') :
    s.poll (readClient buffer) = s' := by
  rw [h.poll_readClient, act, if_pos h.calls, hs]

/-- The action throws, and the thread ends. -/
theorem Open.poll_of_error {t : Thrown} (h : s.Open) (hs : clientIn buffer s = .error t) :
    s.poll (readClient buffer) = { s with list := t.list, status := .died t.fault } := by
  rw [h.poll_readClient, act, if_pos h.calls, hs]

/-- A thread that has ended reads nothing. -/
theorem readAll_ended (h : s.status ≠ .running) (buffers : List Bytes) : s.readAll buffers = s := by
  induction buffers with
  | nil => rfl
  | cons buffer buffers ih =>
      rw [readAll, List.foldl_cons, poll, if_pos h]
      exact ih

/-- Reading goes on where it stopped. -/
theorem readAll_append (s : HTTPProxy) (a b : List Bytes) :
    s.readAll (a ++ b) = (s.readAll a).readAll b :=
  List.foldl_append

/-- The first buffer is read in the first round. -/
theorem readAll_cons (s : HTTPProxy) (buffer : Bytes) (buffers : List Bytes) :
    s.readAll (buffer :: buffers) = (s.poll (readClient buffer)).readAll buffers := rfl

/-- The action on an untouched buffer hands it to the request parser. -/
theorem clientIn_of_not_touched (h : ¬ Touched buffer) (s : HTTPProxy) :
    clientIn buffer s = throwing s.list (s.pass buffer buffer s.list) := by
  have hne : buffer ≠ BLOCKED := fun h' => h (Or.inr (Or.inr h'))
  rw [clientIn, v2filterClient_of_not_touched h]
  exact if_pos hne

/-- An untouched buffer that is parsed without an error. -/
theorem Open.poll_of_not_touched (h : s.Open) (hbuffer : ¬ Touched buffer) (hne : buffer ≠ [])
    {p : HTTPRequestParser} (hp : s.requestParser.parse buffer = .ok p) :
    s.poll (readClient buffer) =
      { s with requestParser := p, verdicts := s.verdicts ++ [(buffer, buffer)] } := by
  refine h.poll_of_ok ?_
  rw [clientIn_of_not_touched hbuffer, pass, hp]
  simp only [ok_bind, hne, decide_false, Bool.or_false]
  rfl

/-- **Untouched buffers go to the parser** and leave the rest alone. -/
theorem Open.readAll_of_not_touched {buffers : List Bytes}
    (hbuffers : ∀ b ∈ buffers, ¬ Touched b ∧ b ≠ []) (h : s.Open) {p : HTTPRequestParser}
    (hp : buffers.foldlM parse s.requestParser = .ok p) :
    s.readAll buffers = { s with
      requestParser := p
      verdicts := s.verdicts ++ buffers.map fun b => (b, b) } := by
  induction buffers generalizing s with
  | nil =>
      cases hp
      rw [List.map_nil, List.append_nil]
      rfl
  | cons b buffers ih =>
      rw [List.foldlM_cons] at hp
      obtain ⟨p₁, hp₁, hp⟩ := bind_eq_ok.1 hp
      obtain ⟨hb, hne⟩ := hbuffers b (by simp)
      have hopen : Open { s with requestParser := p₁, verdicts := s.verdicts ++ [(b, b)] } :=
        ⟨h.running, h.serverOpen, h.clientOpen⟩
      rw [readAll_cons, h.poll_of_not_touched hb hne hp₁,
        ih (fun b hb => hbuffers b (List.mem_cons_of_mem _ hb)) hopen hp, List.map_cons,
        List.append_assoc, List.singleton_append]

/-- Untouched buffers invoke nothing, whatever the parser makes of them. -/
theorem Open.list_readAll {buffers : List Bytes}
    (hbuffers : ∀ b ∈ buffers, ¬ Touched b ∧ b ≠ []) (h : s.Open) :
    (s.readAll buffers).list = s.list := by
  induction buffers generalizing s with
  | nil => rfl
  | cons b buffers ih =>
      obtain ⟨hb, hne⟩ := hbuffers b (by simp)
      rw [readAll_cons]
      rcases hp : s.requestParser.parse b with e | p
      · have hs : clientIn b s = .error ⟨e, s.list⟩ := by
          rw [clientIn_of_not_touched hb, pass, hp]
          rfl
        rw [h.poll_of_error hs, readAll_ended (by rintro ⟨⟩)]
      · rw [h.poll_of_not_touched hb hne hp]
        exact ih (fun b hb => hbuffers b (List.mem_cons_of_mem _ hb))
          ⟨h.running, h.serverOpen, h.clientOpen⟩

/-- Single bytes are untouched buffers. -/
theorem not_touched_bytes (w : Bytes) : ∀ b ∈ w.map fun c => [c], ¬ Touched b ∧ b ≠ [] := by
  intro b hb
  obtain ⟨c, -, rfl⟩ := List.mem_map.1 hb
  exact ⟨not_touched_singleton c, List.cons_ne_nil _ _⟩

/-- The stream, byte by byte, is let through. -/
theorem Open.readAll_bytes {u : Bytes} {p : HTTPRequestParser} (h : s.Open)
    (hu : s.requestParser.feedBytes u = .ok p) :
    s.readAll (u.map fun c => [c]) = { s with
      requestParser := p
      verdicts := s.verdicts ++ (u.map fun c => [c]).map fun b => (b, b) } := by
  refine h.readAll_of_not_touched (not_touched_bytes u) ?_
  rw [List.foldlM_map]
  exact hu

end HTTPProxy

variable {ws : List Bytes} {ms : List HTTPRequest}

/-- The cut into single bytes lets every request through. -/
theorem outcome_bytes (hw : List.Forall₂ CompleteRequest ws ms) (list : CloudResourceList) :
    (HTTPProxy.readAll (.start list) (ws.flatten.map fun c => [c])).outcome =
      (list.invoked, ms) := by
  have hstream : (HTTPProxy.start list).requestParser.feedBytes ws.flatten =
      .ok (HTTPRequestParser.queued ms) := feedBytes_stream hw []
  rw [(HTTPProxy.open_start list).readAll_bytes hstream, HTTPProxy.outcome]
  dsimp only
  rw [HTTPRequestParser.completeMessages_queued]
  rfl

/-- **No cut matters when nothing that could be cut out is touched.** -/
theorem outcome_of_not_touched (hw : List.Forall₂ CompleteRequest ws ms)
    (h : ∀ x, x <:+: ws.flatten → x.length ≤ bufferSize → ¬ Touched x)
    (list : CloudResourceList) {pieces : List Bytes} (hc : IsCut ws.flatten pieces) :
    (HTTPProxy.readAll (.start list) pieces).outcome = (list.invoked, ms) := by
  have hpieces : ∀ b ∈ pieces, ¬ Touched b ∧ b ≠ [] := by
    intro b hb
    exact ⟨h b (hc.infix_of_mem hb) (hc.bounded b hb).2, (hc.bounded b hb).1⟩
  have hparse : pieces.foldlM parse (HTTPProxy.start list).requestParser =
      .ok (HTTPRequestParser.queued ms) := by
    have hsettled : (HTTPProxy.start list).requestParser.Settled := HTTPRequestParser.settled_new
    rw [hsettled.foldlM_parse_eq_feedBytes hc.bounded, hc.flatten]
    exact feedBytes_stream hw []
  rw [(HTTPProxy.open_start list).readAll_of_not_touched hpieces hparse, HTTPProxy.outcome]
  dsimp only
  rw [HTTPRequestParser.completeMessages_queued]
  rfl

/-- Every byte but the delimiters of a stream of complete requests is in their
messages. -/
theorem sum_weight_stream {c : UInt8} (hc : c ∉ dropped) (hw : List.Forall₂ CompleteRequest ws ms) :
    (ms.map (HTTPMessage.weight c)).sum = ws.flatten.count c := by
  have := ((holds_new c).feedBytes hc (feedBytes_stream hw [])).weight
  simpa [HTTPMessageSequence.weight, HTTPRequestParser.queued, carry, HTTPRequestParser.new,
    weight_fresh] using this

/-- A stream that has not been parsed as far as `x` has not given all its
requests. -/
theorem completeMessages_ne_of_prefix {u x v : Bytes} (hw : List.Forall₂ CompleteRequest ws ms)
    (hx : ws.flatten = u ++ x ++ v) {c : UInt8} (hc : c ∉ dropped) (hmem : c ∈ x)
    {p : HTTPRequestParser} (hp : HTTPRequestParser.new.feedBytes u = .ok p) :
    p.completeMessages ≠ ms := by
  intro h
  have hpos := List.count_pos_iff.2 hmem
  have hall := sum_weight_stream hc hw
  rw [hx, List.count_append, List.count_append] at hall
  have hle := ((holds_new c).feedBytes hc hp).completeMessages_le
  rw [h] at hle
  omega

/-- A request that has been taken off the queue is missing at the end. -/
theorem completeMessages_ne_of_carry {p q : HTTPRequestParser} {request : HTTPRequest}
    {v : Bytes} (hall : (p.carry [request]).feedBytes v = .ok (HTTPRequestParser.queued ms))
    (hv : p.feedBytes v = .ok q) : q.completeMessages ≠ ms := by
  intro h
  rw [feedBytes_carry, hv] at hall
  have hqueued := congrArg completeMessages (Except.ok.inj hall)
  rw [completeMessages_carry, HTTPRequestParser.completeMessages_queued] at hqueued
  have hlength := congrArg List.length hqueued
  rw [List.length_append, List.length_singleton, h] at hlength
  omega

/-- **A touched buffer that is passed on** has been granted something, and the bytes behind
it leave the list alone. -/
theorem HTTPProxy.Open.invoked_of_pass {s s' : HTTPProxy} (h : s.Open) {x text : Bytes}
    {list : CloudResourceList} (hne : x ≠ []) (htouched : Touched x)
    (hfilter : v2filterClient x s.list = .ok (text, list)) (htext : text ≠ BLOCKED)
    (hpass : s.pass x text list = .ok s') (v : Bytes) :
    (s'.readAll (v.map fun c => [c])).outcome.1 ≠ s.list.invoked := by
  have hgrown := (htouched.decided hfilter).resolve_left htext
  obtain ⟨requestParser, -, rfl⟩ := HTTPProxy.pass_eq_ok hpass
  have hopen : HTTPProxy.Open { s with
      list := list
      requestParser := requestParser
      clientEof := s.clientEof || x = []
      verdicts := s.verdicts ++ [(x, text)] } :=
    ⟨h.running, h.serverOpen, by simp only [h.clientOpen, hne, decide_false, Bool.or_false]⟩
  intro hinvoked
  rw [HTTPProxy.outcome, hopen.list_readAll (HTTPProxy.not_touched_bytes v)] at hinvoked
  dsimp only at hinvoked
  rw [hinvoked] at hgrown
  exact lt_irrefl _ hgrown

/-- **Of a buffer that is refused,** a request is missing at the end of the stream. -/
theorem HTTPProxy.Open.requests_of_spoof {s s' : HTTPProxy} (h : s.Open)
    (hsettled : s.requestParser.Settled) {x text v : Bytes} {list : CloudResourceList} (hne : x ≠ [])
    (hlen : x.length ≤ bufferSize) (hspoof : s.spoof x text list = .ok s')
    (hstream : s.requestParser.feedBytes (x ++ v) = .ok (HTTPRequestParser.queued ms)) :
    (s'.readAll (v.map fun c => [c])).outcome.2 ≠ ms := by
  obtain ⟨request, requestParser, canned, responseParser, hparse, -, -, rfl⟩ :=
    HTTPProxy.spoof_eq_ok hspoof
  rw [parse_of_ne_nil _ hne, hsettled.feed_eq_feedBytes hne hlen] at hparse
  rw [feedBytes_append, hparse, ok_bind] at hstream
  obtain ⟨q, hq, -⟩ : ∃ q, requestParser.feedBytes v = .ok q ∧
      q.carry [request] = HTTPRequestParser.queued ms := by
    rw [feedBytes_carry] at hstream
    obtain ⟨q, hq, hcarry⟩ := bind_eq_ok.1 hstream
    exact ⟨q, hq, Except.ok.inj hcarry⟩
  have hopen : HTTPProxy.Open { s with
      list := list
      requestParser := requestParser
      responseParser := responseParser
      clientEof := s.clientEof || x = []
      verdicts := s.verdicts ++ [(x, text)]
      announced := s.announced ++ [(request, true)]
      parsed := s.parsed ++ [canned]
      spoofed := s.spoofed ++ (responseParser.completeMessages.drop
        s.responseParser.completeMessages.length).map HTTPResponse.request } :=
    ⟨h.running, h.serverOpen, by simp only [h.clientOpen, hne, decide_false, Bool.or_false]⟩
  rw [hopen.readAll_bytes hq]
  exact completeMessages_ne_of_carry hstream hq

/-- **What a touched buffer changes,** where the parser is in the middle of the
stream: fewer requests come out, or more resources are invoked. -/
theorem HTTPProxy.Open.outcome_of_touched {s : HTTPProxy} (h : s.Open)
    (hsettled : s.requestParser.Settled) (hbefore : s.requestParser.completeMessages ≠ ms)
    {x v : Bytes} (hne : x ≠ []) (hlen : x.length ≤ bufferSize) (htouched : Touched x)
    (hstream : s.requestParser.feedBytes (x ++ v) = .ok (HTTPRequestParser.queued ms)) :
    (s.readAll (x :: v.map fun c => [c])).outcome ≠ (s.list.invoked, ms) := by
  intro hout
  rw [HTTPProxy.readAll_cons] at hout
  rcases hs : HTTPProxy.clientIn x s with t | s'
  · -- the action throws: the queue stays as it was
    rw [h.poll_of_error hs, HTTPProxy.readAll_ended (by rintro ⟨⟩)] at hout
    exact hbefore (congrArg Prod.snd hout)
  · rw [h.poll_of_ok hs] at hout
    obtain ⟨text, list, hfilter, ⟨htext, hpass⟩ | ⟨-, hspoof⟩⟩ := HTTPProxy.clientIn_eq_ok hs
    · exact h.invoked_of_pass hne htouched hfilter htext hpass v (congrArg Prod.fst hout)
    · exact h.requests_of_spoof hsettled hne hlen hspoof hstream (congrArg Prod.snd hout)

/-- **A touched buffer makes a difference:** the cut that has it as a buffer, and
single bytes around it, does not lead where single bytes alone lead. -/
theorem outcome_of_touched (hw : List.Forall₂ CompleteRequest ws ms) {u x v : Bytes}
    (hx : ws.flatten = u ++ x ++ v) (hlen : x.length ≤ bufferSize) (htouched : Touched x)
    (list : CloudResourceList) :
    (HTTPProxy.readAll (.start list)
      (u.map (fun c => [c]) ++ x :: v.map fun c => [c])).outcome ≠ (list.invoked, ms) := by
  obtain ⟨c, hc, hmem⟩ := htouched.letter
  -- the bytes before `x` are let through, and the parser could go on to the end
  have hstream : HTTPRequestParser.new.feedBytes ws.flatten = .ok (HTTPRequestParser.queued ms) :=
    feedBytes_stream hw []
  rw [hx, List.append_assoc, feedBytes_append] at hstream
  obtain ⟨p, hp, hrest⟩ := bind_eq_ok.1 hstream
  have hsettled : p.Settled := HTTPRequestParser.settled_new.feedBytes hp
  have hbefore := completeMessages_ne_of_prefix hw hx hc hmem hp
  have hread := (HTTPProxy.open_start list).readAll_bytes hp
  have hopen : ((HTTPProxy.start list).readAll (u.map fun c => [c])).Open := by
    rw [hread]
    exact ⟨rfl, rfl, rfl⟩
  have hlist : ((HTTPProxy.start list).readAll (u.map fun c => [c])).list = list := by
    rw [hread]
    rfl
  have hparser : ((HTTPProxy.start list).readAll (u.map fun c => [c])).requestParser = p := by
    rw [hread]
  rw [← hparser] at hsettled hbefore hrest
  have hne := hopen.outcome_of_touched hsettled hbefore (List.ne_nil_of_mem hmem) hlen htouched hrest
  rw [hlist] at hne
  rw [HTTPProxy.readAll_append]
  exact hne

/-- **The outcome is independent of segmentation exactly when no buffer that could
be cut out of the stream is touched.** -/
theorem cuts_agree_iff (hw : List.Forall₂ CompleteRequest ws ms) (list : CloudResourceList) :
    (∀ pieces pieces', IsCut ws.flatten pieces → IsCut ws.flatten pieces' →
      (HTTPProxy.readAll (.start list) pieces).outcome =
        (HTTPProxy.readAll (.start list) pieces').outcome) ↔
    ∀ x, x <:+: ws.flatten → x.length ≤ bufferSize → ¬ Touched x := by
  constructor
  · rintro h x ⟨u, v, hx⟩ hlen htouched
    obtain ⟨c, -, hmem⟩ := htouched.letter
    have hcut := isCut_around hx (List.ne_nil_of_mem hmem) hlen
    exact outcome_of_touched hw hx.symm hlen htouched list
      ((h _ _ hcut (isCut_bytes _)).trans (outcome_bytes hw list))
  · intro h pieces pieces' hc hc'
    rw [outcome_of_not_touched hw h list hc, outcome_of_not_touched hw h list hc']

/-- A stream that the filter passes however it is cut. -/
theorem cuts_agree_plain :
    ¬ ∃ pieces pieces', IsCut [ascii "GET / HTTP/1.1\r\nHost: a\r\n\r\n"].flatten pieces ∧
      IsCut [ascii "GET / HTTP/1.1\r\nHost: a\r\n\r\n"].flatten pieces' ∧
      (HTTPProxy.readAll (.start {}) pieces).outcome ≠
        (HTTPProxy.readAll (.start {}) pieces').outcome := by
  obtain ⟨m, hm⟩ := exists_completeRequest (w := ascii "GET / HTTP/1.1\r\nHost: a\r\n\r\n")
    (by decide +kernel) (by decide +kernel)
  rintro ⟨pieces, pieces', hc, hc', hne⟩
  have hagree := (cuts_agree_iff (.cons hm .nil) {}).2 fun x hx _ =>
    not_touched_of_infix hx (by decide +kernel)
  exact hne (hagree pieces pieces' hc hc')

/-- **The outcome depends on segmentation:** the word `lambda` in one buffer is
counted, and cut in two it is not. -/
theorem cuts_disagree :
    ¬ ∀ (ws : List Bytes) (ms : List HTTPRequest) (list : CloudResourceList),
      List.Forall₂ CompleteRequest ws ms → ∀ pieces pieces',
      IsCut ws.flatten pieces → IsCut ws.flatten pieces' →
      (HTTPProxy.readAll (.start list) pieces).outcome =
        (HTTPProxy.readAll (.start list) pieces').outcome := by
  intro h
  obtain ⟨m, hm⟩ := exists_completeRequest (w := ascii "GET /lambda HTTP/1.1\r\n\r\n")
    (by decide +kernel) (by decide +kernel)
  have heq := h [ascii "GET /lambda HTTP/1.1\r\n\r\n"] [m] {} (.cons hm .nil)
    [ascii "GET /lambda HTTP/1.1\r\n\r\n"] [ascii "GET /lam", ascii "bda HTTP/1.1\r\n\r\n"]
    ⟨by decide +kernel, by decide +kernel⟩ ⟨by decide +kernel, by decide +kernel⟩
  have hlist := congrArg (·.1.length) heq
  revert hlist
  decide +kernel

end V2Proxy
