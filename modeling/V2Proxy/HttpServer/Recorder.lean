/-
# `HTTPDiskStore` and the recorder

`src/http/backing_store.cc` and the recording process of `src/frontend/recordshell.cc`: each
connection has a thread of its own, and all of them save to one directory.  A response is sent to
the client first and saved then, in a file of a name that no other file has.  A save that fails
throws, which ends the thread: the response has been sent, and the file, if there is one, is left
empty or cut off.

The threads share the list of resources, too.  A callback may find it changed at any time, so here
it runs with any list and with any verdict of the filter (`Acts`); what one thread does in a round
of `HTTPProxy.poll` is a sequence of these (`does_poll`).

In every run the files are the exchanges that were saved, in order, and what failing saves have
left: each of the first reads back as the request and the response, every one of them once, and no
assertion of `toprotobuf` fails (`recorded`).
-/

import V2Proxy.Http.HTTPRecord
import V2Proxy.HttpServer.HTTPProxy
import Mathlib.Logic.Relation

namespace V2Proxy

open Foundations HTTPMessageSequence

/-! ### Complete messages -/

namespace HTTPMessageSequence

variable {X Q : Type} [ParserType X Q] {s s' : HTTPMessageSequence X Q}

/-- Every message in the queue is complete. -/
def Completed (s : HTTPMessageSequence X Q) : Prop := ∀ m ∈ s.completeMessages, m.state = .complete

/-- A round of the parser completes messages only. -/
theorem Round.completed (h : Round s s') (hs : s.Completed) : s'.Completed := by
  cases h with
  | firstLine _ _ _ _ => exact hs
  | header _ _ _ => exact hs
  | body _ _ _ _ => exact hs
  | complete hst =>
      intro m hm
      rcases List.mem_append.1 hm with hm | hm
      · exact hs m hm
      · rw [List.mem_singleton.1 hm, hst]

/-- Where it pauses, it completes none. -/
theorem Pause.completed (h : Pause s s') (hs : s.Completed) : s'.Completed := by
  cases h with
  | line _ _ => exact hs
  | body _ _ _ => exact hs

/-- So does a buffer that is fed. -/
theorem Completed.feed {b : Bytes} (hs : s.Completed) (h : s.feed b = .ok s') : s'.Completed := by
  refine Loop.run_post (L := parseLoop) (I := Completed) (Q := Completed) (fun s₁ s₂ hs₁ hn => ?_)
    (fun s₁ s₂ hs₁ hl => ?_) (s := { s with buffer := s.buffer ++ b }) hs h
  · exact (parseRound_next hn).completed hs₁
  · exact (parseRound_leave hl).completed hs₁

/-- **Parsing completes messages only.** -/
theorem Completed.parse {b : Bytes} (hs : s.Completed) (h : s.parse b = .ok s') : s'.Completed := by
  rw [HTTPMessageSequence.parse] at h
  split_ifs at h
  · obtain ⟨m, -, h⟩ := bind_eq_ok.1 h
    exact feed (s := { s with messageInProgress := m }) hs h
  · exact hs.feed h

omit [ParserType X Q] in
/-- The front of the queue can be taken off. -/
theorem front_eq_ok {m : HTTPMessage X} (h : s.front = .ok m) :
    ∃ s' : HTTPMessageSequence X Q, s = s'.carry [m] := by
  obtain ⟨buffer, messages, messageInProgress, derived⟩ := s
  cases messages with
  | nil => cases h
  | cons m' messages =>
      cases h
      exact ⟨⟨buffer, messages, messageInProgress, derived⟩, rfl⟩

omit [ParserType X Q] in
/-- The messages of a queue are complete if the first ones and the others are. -/
theorem completed_carry {ms : List (HTTPMessage X)} :
    Completed (s.carry ms) ↔ (∀ m ∈ ms, m.state = .complete) ∧ s.Completed := List.forall_mem_append

end HTTPMessageSequence

/-! ### A thread -/

namespace HTTPProxy

/-- What a thread does without sending a response. -/
inductive Acts : HTTPProxy → HTTPProxy → Prop
  | serverIn {s s' : HTTPProxy} {buffer : Bytes} (list list' : CloudResourceList) :
      serverIn buffer { s with list := list } = .ok s' → Acts s { s' with list := list' }
  | pass {s s' : HTTPProxy} {buffer text : Bytes} {list : CloudResourceList} :
      s.pass buffer text list = .ok s' → Acts s s'
  | spoof {s s' : HTTPProxy} {buffer text : Bytes} {list : CloudResourceList} :
      s.spoof buffer text list = .ok s' → Acts s s'
  | serverOut {s s' : HTTPProxy} : serverOut s = .ok s' → Acts s s'
  | ends {s : HTTPProxy} (list : CloudResourceList) (status : ThreadStatus) :
      Acts s { s with list := list, status := status }

/-- **What can be saved.**  The requests of the responses that are there or expected are complete;
they and those of the responses that were saved are the requests that were announced. -/
structure Savable (s : HTTPProxy) : Prop where
  requests : s.requestParser.Completed
  responses : s.responseParser.Completed
  announced : s.saved.map HTTPResponse.request ++ s.responseParser.requests = s.announced.map Prod.fst
  complete : ∀ request ∈ s.announced.map Prod.fst, request.state = .complete
  saved : ∀ response ∈ s.saved, response.state = .complete

variable {s s' : HTTPProxy}

/-- Nothing is there to be saved at the start. -/
theorem savable_start (list : CloudResourceList) : (start list).Savable :=
  ⟨fun _ h => absurd h List.not_mem_nil, fun _ h => absurd h List.not_mem_nil, rfl,
    fun _ h => absurd h List.not_mem_nil, fun _ h => absurd h List.not_mem_nil⟩

/-- A request that arrives is announced. -/
theorem Savable.arrives (h : s.Savable) {request : HTTPRequest} {b : Bool}
    {responseParser : HTTPResponseParser}
    (hrequests : responseParser.requests = s.responseParser.requests ++ [request]) :
    s.saved.map HTTPResponse.request ++ responseParser.requests =
      (s.announced ++ [(request, b)]).map Prod.fst := by
  rw [hrequests, ← List.append_assoc, h.announced, List.map_append]
  rfl

/-- What is announced is complete if the request that arrives is. -/
theorem Savable.complete_append (h : s.Savable) {request : HTTPRequest} (b : Bool)
    (hrequest : request.state = .complete) :
    ∀ r ∈ (s.announced ++ [(request, b)]).map Prod.fst, r.state = .complete := by
  rw [List.map_append]
  exact List.forall_mem_append.2 ⟨h.complete, fun r hr => List.mem_singleton.1 hr ▸ hrequest⟩

/-- **Every callback keeps what can be saved so.** -/
theorem Savable.acts (h : s.Savable) (hs : Acts s s') : s'.Savable := by
  cases hs with
  | serverIn list list' hs =>
      obtain ⟨list₁, responseParser, -, hparse, rfl⟩ := serverIn_eq_ok hs
      have hrequests := HTTPResponseParser.parse_requests hparse
      exact ⟨h.requests, h.responses.parse hparse, hrequests ▸ h.announced, h.complete, h.saved⟩
  | pass hs =>
      obtain ⟨requestParser, hparse, rfl⟩ := pass_eq_ok hs
      exact ⟨h.requests.parse hparse, h.responses, h.announced, h.complete, h.saved⟩
  | spoof hs =>
      obtain ⟨request, requestParser, canned, responseParser, hparse, -, hresponse, rfl⟩ :=
        spoof_eq_ok hs
      obtain ⟨hrequest, hrequests⟩ := completed_carry.1 (h.requests.parse hparse)
      have hmoved := HTTPResponseParser.parse_requests hresponse
      rw [HTTPResponseParser.newRequestArrived_requests] at hmoved
      have hresponses : (s.responseParser.newRequestArrived request).Completed := h.responses
      exact ⟨hrequests, hresponses.parse hresponse, h.arrives hmoved,
        h.complete_append true (hrequest request List.mem_cons_self), h.saved⟩
  | serverOut hs =>
      obtain ⟨request, requestParser, hfront, rfl⟩ := serverOut_eq_ok hs
      obtain ⟨hrequest, hrequests⟩ := completed_carry.1 (hfront ▸ h.requests)
      exact ⟨hrequests, h.responses,
        h.arrives (HTTPResponseParser.newRequestArrived_requests _ request),
        h.complete_append false (hrequest request List.mem_cons_self), h.saved⟩
  | ends list status => exact ⟨h.requests, h.responses, h.announced, h.complete, h.saved⟩

/-- The request of a response in the queue has been announced. -/
theorem Savable.request_complete (h : s.Savable) {response : HTTPResponse}
    (hresponse : response ∈ s.responseParser.completeMessages) :
    response.state = .complete ∧ response.request.state = .complete := by
  refine ⟨h.responses response hresponse, h.complete _ ?_⟩
  rw [← h.announced]
  exact List.mem_append_right _ (List.mem_append_left _ (List.mem_map_of_mem hresponse))

/-- A response that is sent can be saved. -/
theorem Savable.clientOut (h : s.Savable) (hs : clientOut s = .ok s') : s'.Savable := by
  obtain ⟨response, responseParser, hfront, rfl⟩ := clientOut_eq_ok hs
  obtain ⟨hresponse, hresponses⟩ := completed_carry.1 (hfront ▸ h.responses)
  refine ⟨h.requests, hresponses, ?_, h.complete, ?_⟩
  · have hannounced := h.announced
    rw [hfront] at hannounced
    rw [← hannounced]
    change (s.saved ++ [response]).map HTTPResponse.request ++ _ =
      _ ++ (([response] ++ responseParser.completeMessages).map HTTPResponse.request ++ _)
    rw [List.map_append, List.map_append, List.append_assoc, List.append_assoc]
    rfl
  · exact List.forall_mem_append.2 ⟨h.saved, fun m hm => hresponse m hm⟩

/-- **Nothing is sent to the client otherwise,** nor saved. -/
theorem Acts.sends_nothing (h : Acts s s') : s'.saved = s.saved ∧ s'.toClient = s.toClient := by
  cases h with
  | serverIn list list' hs =>
      obtain ⟨_, _, -, -, rfl⟩ := serverIn_eq_ok hs
      exact ⟨rfl, rfl⟩
  | pass hs =>
      obtain ⟨_, -, rfl⟩ := pass_eq_ok hs
      exact ⟨rfl, rfl⟩
  | spoof hs =>
      obtain ⟨_, _, _, _, -, -, -, rfl⟩ := spoof_eq_ok hs
      exact ⟨rfl, rfl⟩
  | serverOut hs =>
      obtain ⟨_, _, -, rfl⟩ := serverOut_eq_ok hs
      exact ⟨rfl, rfl⟩
  | ends list status => exact ⟨rfl, rfl⟩

/-- What a thread does as long as it runs. -/
def Does (s s' : HTTPProxy) : Prop := s.status = .running ∧ (Acts s s' ∨ clientOut s = .ok s')

/-- An entry of the poller does what its callback does, or ends the thread. -/
theorem does_act {r : Revents} {i : Bool} {callback : HTTPProxy → Except Thrown HTTPProxy}
    (h : ∀ s', callback s = .ok s' → Acts s s' ∨ clientOut s = .ok s') :
    Relation.ReflTransGen Does s (s.act r i callback) := by
  unfold act
  by_cases hcalls : s.calls r i = true
  · rw [if_pos hcalls]
    have hrunning : s.status = .running := by
      rw [calls, Bool.and_eq_true, Bool.and_eq_true, decide_eq_true_eq] at hcalls
      exact hcalls.1.1
    rcases hcb : callback s with t | s'
    · exact .single ⟨hrunning, Or.inl (.ends _ _)⟩
    · exact .single ⟨hrunning, h s' hcb⟩
  · rw [if_neg hcalls]
    split_ifs with hup
    · exact .single ⟨hup.1, Or.inl (.ends s.list _)⟩
    · exact .refl

/-- **A round is a sequence of callbacks,** each of them of a thread that runs. -/
theorem does_poll (s : HTTPProxy) (p : Polled) : Relation.ReflTransGen Does s (s.poll p) := by
  unfold poll
  split_ifs with hstopped hnone
  · exact .refl
  · exact .single ⟨not_not.1 hstopped, Or.inl (.ends s.list _)⟩
  · have hserverIn : Relation.ReflTransGen Does s (s.afterServerIn p) :=
      does_act fun s' hs' => Or.inl (.serverIn s.list s'.list hs')
    have hclientIn : Relation.ReflTransGen Does (s.afterServerIn p) (s.afterClientIn p) := by
      refine does_act fun s' hs' => Or.inl ?_
      obtain ⟨text, list, -, hpass | hspoof⟩ := clientIn_eq_ok hs'
      · exact .pass hpass.2
      · exact .spoof hspoof.2
    have hserverOut : Relation.ReflTransGen Does (s.afterClientIn p) (s.afterServerOut p) :=
      does_act fun s' hs' => Or.inl (.serverOut (throwing_eq_ok.1 hs'))
    refine ((hserverIn.trans hclientIn).trans hserverOut).trans ?_
    exact does_act fun s' hs' => Or.inr (throwing_eq_ok.1 hs')

end HTTPProxy

/-! ### The store -/

/-- An `Address`. -/
structure Address where
  ip : Bytes
  port : UInt16
deriving DecidableEq

/-- The files of a directory, and what is in them. -/
abbrev Directory : Type := List (Bytes × Bytes)


/-- What the system calls of a save do.  `suffix` is what `mkstemp` puts for the `XXXXXX` of its
template, or nothing when it fails; `cutOff` is how much has been written when a `write` fails. -/
structure StoreCalls where
  suffix : Option Bytes
  cutOff : Option ℕ := none

/-- An exception of a save, and the files that it leaves. -/
structure StoreThrown where
  fault : Fault
  left : Directory

/-- `mkstemp`, of the names in a directory.  It makes a file that has not been there. -/
def mkstemp (directory : Directory) (template : Bytes) (suffix : Option Bytes) : Except Fault Bytes :=
  match suffix with
  | none => .error (.unixError (ascii "mkstemp"))
  | some suffix =>
      if directory.any (·.1 = template ++ suffix) then .error (.unixError (ascii "mkstemp"))
      else .ok (template ++ suffix)

/-- **A file that is made is new.** -/
theorem mkstemp_eq_ok {directory : Directory} {template file : Bytes} {suffix : Option Bytes}
    (h : mkstemp directory template suffix = .ok file) : file ∉ directory.map Prod.fst := by
  cases suffix with
  | none => cases h
  | some suffix =>
      rw [mkstemp] at h
      split_ifs at h with hany
      cases h
      intro hmem
      obtain ⟨other, hother, heq⟩ := List.mem_map.1 hmem
      exact hany (List.any_eq_true.2 ⟨other, hother, decide_eq_true heq⟩)

namespace HTTPDiskStore

/-- The protocol buffer that `HTTPDiskStore::save` constructs. -/
def output (response : HTTPResponse) (serverAddress : Address) :
    Except Fault MahimahiProtobufs.RequestResponse := do
  let request ← response.request.toprotobuf
  let proto ← response.toprotobuf
  return {
    ip := some serverAddress.ip
    port := some serverAddress.port.toUInt32
    scheme := some (if serverAddress.port = 443 then .HTTPS else .HTTP)
    request := some request
    response := some proto }

/-- The exception of a file that could not be written. -/
def failure : Fault :=
  .runtimeError (ascii "save_to_disk: failure to serialize HTTP request/response pair")

/-- `HTTPDiskStore::save`.  The names of the files are those in `record_folder_`.  The file is made
first: whatever fails after that leaves it there, with what has been written to it. -/
def save (format : RecordFormat) (calls : StoreCalls) (response : HTTPResponse)
    (serverAddress : Address) (directory : Directory) : Except StoreThrown Directory := do
  let file ← (mkstemp directory (ascii "save" ++ ascii ".") calls.suffix).mapError (⟨·, []⟩)
  let output ← (output response serverAddress).mapError (⟨·, [(file, [])]⟩)
  match format.serialize output with
  | none => .error ⟨failure, [(file, [])]⟩
  | some contents =>
      match calls.cutOff with
      | some n => .error ⟨failure, [(file, contents.take n)]⟩
      | none => .ok (directory ++ [(file, contents)])

/-- What a file that is left may hold: nothing, or the beginning of the record. -/
def CutOff (format : RecordFormat) (response : HTTPResponse) (serverAddress : Address)
    (text : Bytes) : Prop :=
  text = [] ∨ ∃ record contents, output response serverAddress = .ok record ∧
    format.serialize record = some contents ∧ text <+: contents

variable {response : HTTPResponse} {serverAddress : Address} {directory directory' : Directory}
  {format : RecordFormat} {calls : StoreCalls} {thrown : StoreThrown}

/-- **Complete messages have a protocol buffer.** -/
theorem output_of_complete (hresponse : response.state = .complete)
    (hrequest : response.request.state = .complete) (serverAddress : Address) :
    ∃ output, HTTPDiskStore.output response serverAddress = .ok output := by
  rw [output, HTTPMessage.toprotobuf_of_complete hrequest, ok_bind,
    HTTPMessage.toprotobuf_of_complete hresponse, ok_bind]
  exact ⟨_, rfl⟩

/-- **A save adds one file,** which reads back as what was saved, under a new name. -/
theorem save_eq_ok (h : save format calls response serverAddress directory = .ok directory') :
    ∃ file contents record, directory' = directory ++ [(file, contents)] ∧
      file ∉ directory.map Prod.fst ∧ output response serverAddress = .ok record ∧
      format.parse contents = some record := by
  obtain ⟨file, hfile, h⟩ := bind_eq_ok.1 h
  obtain ⟨record, hrecord, h⟩ := bind_eq_ok.1 h
  split at h
  · cases h
  · rename_i contents hcontents
    split at h
    · cases h
    · cases h
      exact ⟨file, contents, record, rfl, mkstemp_eq_ok (mapError_eq_ok.1 hfile),
        mapError_eq_ok.1 hrecord, format.parse_serialize hcontents⟩

/-- **A save that fails leaves at most one file,** which is new and cut off. -/
theorem save_eq_error (h : save format calls response serverAddress directory = .error thrown) :
    thrown.left = [] ∨ ∃ file text, thrown.left = [(file, text)] ∧
      file ∉ directory.map Prod.fst ∧ CutOff format response serverAddress text := by
  rw [save] at h
  rcases hfile : mkstemp directory (ascii "save" ++ ascii ".") calls.suffix with fault | file
  · rw [hfile] at h
    cases h
    exact Or.inl rfl
  · have hnew := mkstemp_eq_ok hfile
    rw [hfile] at h
    refine Or.inr ⟨file, ?_⟩
    rcases hrecord : output response serverAddress with fault | record
    · rw [hrecord] at h
      cases h
      exact ⟨[], rfl, hnew, Or.inl rfl⟩
    · rw [hrecord] at h
      change (match format.serialize record with
        | none => _
        | some contents => _) = _ at h
      split at h
      · cases h
        exact ⟨[], rfl, hnew, Or.inl rfl⟩
      · rename_i contents hcontents
        split at h
        · rename_i n _
          cases h
          exact ⟨contents.take n, rfl, hnew,
            Or.inr ⟨record, contents, hrecord, hcontents, List.take_prefix n contents⟩⟩
        · cases h

end HTTPDiskStore

/-! ### The recorder -/

/-- A connection: what `original_dest` has said, and its thread. -/
structure Connection where
  serverAddress : Address
  thread : HTTPProxy

/-- A response that was sent, the server's address and the number of its connection. -/
structure SavedExchange where
  connection : ℕ
  serverAddress : Address
  response : HTTPResponse

/-- The process that records.  `exchanges` says what has been saved, and `unsaved` which saves have
failed, with the files that they have left. -/
structure Recorder where
  connections : List Connection := []
  recordFolder : Directory := []
  exchanges : List SavedExchange := []
  unsaved : List (SavedExchange × Directory) := []

namespace Recorder

/-- The files that failing saves have left. -/
def left (x : Recorder) : Directory := (x.unsaved.map Prod.snd).flatten

/-- What was saved for a connection. -/
def exchangesOf (x : Recorder) (i : ℕ) : List SavedExchange := x.exchanges.filter (·.connection = i)

/-- What was sent for a connection and not saved. -/
def unsavedOf (x : Recorder) (i : ℕ) : List SavedExchange :=
  (x.unsaved.map Prod.fst).filter (·.connection = i)

/-- What was sent for a connection. -/
def sentOf (x : Recorder) (i : ℕ) : List SavedExchange := x.exchangesOf i ++ x.unsavedOf i

/-- The callback that sends a response to the client, in the thread of a connection.  The response
is written, saved and then popped; an exception of `save` ends the thread in between. -/
def clientOut (format : RecordFormat) (i : ℕ) (calls : StoreCalls) (c : Connection)
    (x : Recorder) : Except Fault Recorder := do
  let response ← c.thread.responseParser.front
  let bytes ← response.str
  match HTTPDiskStore.save format calls response c.serverAddress x.recordFolder with
  | .ok recordFolder =>
      let thread ← c.thread.clientOut
      return { x with
        connections := x.connections.set i { c with thread := thread }
        recordFolder := recordFolder
        exchanges := x.exchanges ++ [⟨i, c.serverAddress, response⟩] }
  | .error thrown =>
      let thread := { c.thread with
        toClient := c.thread.toClient ++ [bytes]
        status := .died thrown.fault }
      return { x with
        connections := x.connections.set i { c with thread := thread }
        recordFolder := x.recordFolder ++ thrown.left
        unsaved := x.unsaved ++ [(⟨i, c.serverAddress, response⟩, thrown.left)] }

/-- What happens to the recorder. -/
inductive Event
  | accept (serverAddress : Address)
  | act (i : ℕ)
  | clientOut (i : ℕ) (calls : StoreCalls)

/-- **A step of the recorder:** a connection is accepted, or a callback of one of the threads
returns or throws. -/
inductive Step (format : RecordFormat) : Recorder → Event → Recorder → Prop
  | accept {x : Recorder} {serverAddress : Address} (list : CloudResourceList) :
      Step format x (.accept serverAddress)
        { x with connections := x.connections ++ [⟨serverAddress, .start list⟩] }
  | act {x : Recorder} {i : ℕ} {c : Connection} {thread : HTTPProxy} :
      x.connections[i]? = some c → c.thread.status = .running → HTTPProxy.Acts c.thread thread →
      Step format x (.act i) { x with connections := x.connections.set i { c with thread := thread } }
  | clientOut {x x' : Recorder} {i : ℕ} {calls : StoreCalls} {c : Connection} :
      x.connections[i]? = some c → c.thread.status = .running →
      clientOut format i calls c x = .ok x' → Step format x (.clientOut i calls) x'

/-- The file reads back as the exchange. -/
def Holds (format : RecordFormat) (file : Bytes × Bytes) (e : SavedExchange) : Prop :=
  ∃ record, HTTPDiskStore.output e.response e.serverAddress = .ok record ∧
    format.parse file.2 = some record

/-- A save of the exchange that failed may leave these files: at most one, and that is cut off. -/
def Leaves (format : RecordFormat) (e : SavedExchange) (files : Directory) : Prop :=
  files = [] ∨ ∃ file text, files = [(file, text)] ∧
    HTTPDiskStore.CutOff format e.response e.serverAddress text

variable {format : RecordFormat} {x x' : Recorder} {i : ℕ} {c : Connection} {calls : StoreCalls}

/-- **What sending a response can do.**  The first response of the queue is sent.  Either a new file
holds it, or the save has failed, which ends the thread, and there is at most one new file, cut
off. -/
theorem clientOut_cases (h : clientOut format i calls c x = .ok x') :
    ∃ (response : HTTPResponse) (responseParser : HTTPResponseParser),
      c.thread.responseParser = responseParser.carry [response] ∧
      ((∃ file thread, file.1 ∉ x.recordFolder.map Prod.fst ∧
        Holds format file ⟨i, c.serverAddress, response⟩ ∧ c.thread.clientOut = .ok thread ∧
        thread.saved = c.thread.saved ++ [response] ∧
        thread.toClient = c.thread.toClient ++ [response.serialize] ∧
        thread.announced = c.thread.announced ∧ x' = { x with
          connections := x.connections.set i { c with thread := thread }
          recordFolder := x.recordFolder ++ [file]
          exchanges := x.exchanges ++ [⟨i, c.serverAddress, response⟩] }) ∨
      ∃ thrown : StoreThrown, Leaves format ⟨i, c.serverAddress, response⟩ thrown.left ∧
        (∀ file ∈ thrown.left, file.1 ∉ x.recordFolder.map Prod.fst) ∧ x' = { x with
          connections := x.connections.set i { c with thread := { c.thread with
            toClient := c.thread.toClient ++ [response.serialize]
            status := .died thrown.fault } }
          recordFolder := x.recordFolder ++ thrown.left
          unsaved := x.unsaved ++ [(⟨i, c.serverAddress, response⟩, thrown.left)] }) := by
  obtain ⟨response, hfront, h⟩ := bind_eq_ok.1 h
  obtain ⟨bytes, hbytes, h⟩ := bind_eq_ok.1 h
  obtain rfl := HTTPMessage.str_eq_ok hbytes
  obtain ⟨responseParser, hqueue⟩ := front_eq_ok hfront
  refine ⟨response, responseParser, hqueue, ?_⟩
  rcases hsave : HTTPDiskStore.save format calls response c.serverAddress x.recordFolder with
    thrown | recordFolder
  · rw [hsave] at h
    obtain rfl := Except.ok.inj h
    refine Or.inr ⟨thrown, ?_⟩
    obtain hleft | ⟨file, text, hleft, hnew, hcut⟩ := HTTPDiskStore.save_eq_error hsave
    · exact ⟨Or.inl hleft, fun file hfile => absurd (hleft ▸ hfile) List.not_mem_nil, rfl⟩
    · refine ⟨Or.inr ⟨file, text, hleft, hcut⟩, fun other hother => ?_, rfl⟩
      rw [hleft, List.mem_singleton] at hother
      exact hother ▸ hnew
  · rw [hsave] at h
    obtain ⟨thread, hthread, h⟩ := bind_eq_ok.1 h
    obtain rfl := Except.ok.inj h
    obtain ⟨file, contents, record, rfl, hnew, hrecord, hparse⟩ := HTTPDiskStore.save_eq_ok hsave
    refine Or.inl ⟨(file, contents), thread, hnew, ⟨record, hrecord, hparse⟩, hthread, ?_⟩
    obtain ⟨response', _, hqueue', rfl⟩ := HTTPProxy.clientOut_eq_ok hthread
    rw [hqueue'] at hfront
    cases hfront
    exact ⟨rfl, rfl, rfl, rfl⟩

/-- **What holds of a connection:** what its thread has saved was saved for it, and what was sent for
it was sent to its client, in order, for the first of the requests that were announced.  One response
may have been sent and not saved, and that has ended the thread. -/
structure Sends (x : Recorder) (i : ℕ) (c : Connection) : Prop where
  saved : c.thread.saved = (x.exchangesOf i).map SavedExchange.response
  address : ∀ e ∈ x.sentOf i, e.serverAddress = c.serverAddress
  sent : c.thread.toClient = (x.sentOf i).map fun e => e.response.serialize
  answers : (x.sentOf i).map (fun e => e.response.request) <+: c.thread.announced.map Prod.fst
  unsaved : x.unsavedOf i = [] ∨
    ∃ e fault, x.unsavedOf i = [e] ∧ c.thread.status = .died fault

/-- **What holds of the recorder.** -/
structure Records (format : RecordFormat) (x : Recorder) : Prop where
  savable : ∀ c ∈ x.connections, c.thread.Savable
  nodup : (x.recordFolder.map Prod.fst).Nodup
  files : ∃ files, files.Sublist x.recordFolder ∧ x.recordFolder.Perm (files ++ x.left) ∧
    List.Forall₂ (Holds format) files x.exchanges
  leaves : ∀ u ∈ x.unsaved, Leaves format u.1 u.2
  sends : ∀ i c, x.connections[i]? = some c → Sends x i c
  connection : ∀ e ∈ x.exchanges ++ x.unsaved.map Prod.fst, e.connection < x.connections.length

/-- Nothing has been recorded at the start. -/
theorem records_start (format : RecordFormat) : Records format {} where
  savable _ h := absurd h List.not_mem_nil
  nodup := List.nodup_nil
  files := ⟨[], List.Sublist.refl [], .refl [], .nil⟩
  leaves _ h := absurd h List.not_mem_nil
  sends _ _ h := by cases h
  connection _ h := absurd h List.not_mem_nil

/-- A connection that has not sent anything. -/
theorem sends_new {list : CloudResourceList} {serverAddress : Address}
    (h : ∀ e ∈ x.exchanges ++ x.unsaved.map Prod.fst, e.connection < i) :
    Sends x i ⟨serverAddress, .start list⟩ := by
  obtain ⟨hexchanges, hunsaved⟩ := List.forall_mem_append.1 h
  have hnone : x.exchangesOf i = [] :=
    List.filter_eq_nil_iff.2 fun e he => by simpa using (hexchanges e he).ne
  have hnone' : x.unsavedOf i = [] :=
    List.filter_eq_nil_iff.2 fun e he => by simpa using (hunsaved e he).ne
  have hsent : x.sentOf i = [] := by rw [sentOf, hnone, hnone', List.append_nil]
  constructor
  case saved =>
    rw [hnone]
    rfl
  case address =>
    rw [hsent]
    exact fun e he => absurd he List.not_mem_nil
  case sent =>
    rw [hsent]
    rfl
  case answers =>
    rw [hsent]
    exact List.nil_prefix
  case unsaved => exact Or.inl hnone'

/-- Only what is sent for a connection matters to it. -/
theorem Sends.congr (h : Sends x i c) (hexchanges : x'.exchangesOf i = x.exchangesOf i)
    (hunsaved : x'.unsavedOf i = x.unsavedOf i) : Sends x' i c := by
  have hsent : x'.sentOf i = x.sentOf i := by rw [sentOf, sentOf, hexchanges, hunsaved]
  exact ⟨hexchanges ▸ h.saved, hsent ▸ h.address, hsent ▸ h.sent, hsent ▸ h.answers,
    hunsaved ▸ h.unsaved⟩

/-- A thread that runs has saved what it has sent. -/
theorem Sends.running (h : Sends x i c) (hrunning : c.thread.status = .running) :
    x.unsavedOf i = [] := by
  obtain hnone | ⟨e, fault, -, hdied⟩ := h.unsaved
  · exact hnone
  · rw [hdied] at hrunning
    cases hrunning

/-- **A new connection.** -/
theorem Records.accept (h : Records format x) (list : CloudResourceList) (serverAddress : Address) :
    Records format { x with connections := x.connections ++ [⟨serverAddress, .start list⟩] } := by
  refine ⟨?_, h.nodup, h.files, h.leaves, fun i c hc => ?_, fun e he => ?_⟩
  · refine List.forall_mem_append.2 ⟨h.savable, fun c hc => ?_⟩
    rw [List.mem_singleton.1 hc]
    exact HTTPProxy.savable_start list
  · rcases lt_or_ge i x.connections.length with hi | hi
    · rw [List.getElem?_append_left hi] at hc
      exact (h.sends i c hc).congr rfl rfl
    · obtain ⟨hlt, rfl⟩ := List.getElem?_eq_some_iff.1 hc
      have hlast : i = x.connections.length := by
        rw [List.length_append, List.length_singleton] at hlt
        omega
      subst hlast
      rw [List.getElem_concat_length rfl]
      exact sends_new (x := { x with connections := _ }) h.connection
  · exact (h.connection e he).trans_le (by simp)

/-- The connections that a callback leaves. -/
theorem forall_set {thread : HTTPProxy} {P : ℕ → Connection → Prop}
    (h : ∀ j c, x.connections[j]? = some c → j ≠ i → P j c)
    (hi : P i { c with thread := thread }) :
    ∀ j c', (x.connections.set i { c with thread := thread })[j]? = some c' → P j c' := by
  intro j c' hc'
  rw [List.getElem?_set] at hc'
  split_ifs at hc' with hij hlt
  · cases hc'
    exact hij ▸ hi
  · exact h j c' hc' (Ne.symm hij)

/-- What every thread keeps, a callback has to keep. -/
theorem forall_mem_set {thread : HTTPProxy} (h : ∀ c ∈ x.connections, c.thread.Savable)
    (hthread : thread.Savable) :
    ∀ c' ∈ x.connections.set i { c with thread := thread }, c'.thread.Savable := by
  intro c' hc'
  rcases List.mem_or_eq_of_mem_set hc' with hmem | rfl
  · exact h c' hmem
  · exact hthread

/-- **A callback that sends nothing.** -/
theorem Records.act (h : Records format x) {thread : HTTPProxy} (hc : x.connections[i]? = some c)
    (hrunning : c.thread.status = .running) (hs : HTTPProxy.Acts c.thread thread) :
    Records format { x with connections := x.connections.set i { c with thread := thread } } := by
  have hthread := (h.savable c (List.mem_of_getElem? hc)).acts hs
  obtain ⟨hsaved, htoClient⟩ := hs.sends_nothing
  refine ⟨forall_mem_set h.savable hthread, h.nodup, h.files, h.leaves, ?_, fun e he => ?_⟩
  · refine forall_set (fun j c' hc' _ => (h.sends j c' hc').congr rfl rfl) ?_
    have hi := h.sends i c hc
    have hnone := hi.running hrunning
    have hsent : x.sentOf i = x.exchangesOf i := by rw [sentOf, hnone, List.append_nil]
    refine ⟨hsaved.trans hi.saved, hi.address, htoClient.trans hi.sent, ?_, Or.inl hnone⟩
    change (x.sentOf i).map _ <+: _
    rw [hsent, ← hthread.announced, hsaved, hi.saved, List.map_map]
    exact List.prefix_append _ _
  · rw [List.length_set]
    exact h.connection e he

/-- **New files keep the names different.** -/
theorem nodup_names {folder files : Directory} (h : (folder.map Prod.fst).Nodup)
    (hfiles : (files.map Prod.fst).Nodup) (hnew : ∀ file ∈ files, file.1 ∉ folder.map Prod.fst) :
    ((folder ++ files).map Prod.fst).Nodup := by
  rw [List.map_append]
  refine List.nodup_append.2 ⟨h, hfiles, fun a ha b hb heq => ?_⟩
  obtain ⟨file, hfile, rfl⟩ := List.mem_map.1 hb
  exact hnew file hfile (heq ▸ ha)

/-- A failing save leaves no two files of one name. -/
theorem Leaves.nodup {e : SavedExchange} {files : Directory} (h : Leaves format e files) :
    (files.map Prod.fst).Nodup := by
  obtain rfl | ⟨file, text, rfl, -⟩ := h
  · exact List.nodup_nil
  · exact List.nodup_singleton file

/-- What was saved for the other connections is as it was. -/
theorem filter_concat_of_ne {es : List SavedExchange} {e : SavedExchange} {j : ℕ}
    (hj : e.connection ≠ j) : (es ++ [e]).filter (·.connection = j) = es.filter (·.connection = j) := by
  rw [List.filter_append, List.filter_singleton]
  simp [hj]

/-- What was saved for this connection is one more. -/
theorem filter_concat_self (es : List SavedExchange) (e : SavedExchange) :
    (es ++ [e]).filter (·.connection = e.connection) =
      es.filter (·.connection = e.connection) ++ [e] := by
  rw [List.filter_append, List.filter_singleton]
  simp

/-- What a failing save leaves is added to what has been left. -/
theorem left_concat (x : Recorder) (e : SavedExchange) (files : Directory) :
    left { x with unsaved := x.unsaved ++ [(e, files)] } = x.left ++ files := by
  rw [left, left, List.map_append, List.flatten_append]
  exact congrArg (_ ++ ·) List.flatten_singleton

/-- A response that is saved is one more of the connection. -/
theorem exchangesOf_concat (x : Recorder) (e : SavedExchange) :
    exchangesOf { x with exchanges := x.exchanges ++ [e] } e.connection =
      x.exchangesOf e.connection ++ [e] := filter_concat_self x.exchanges e

/-- So is one that is not saved. -/
theorem unsavedOf_concat (x : Recorder) (e : SavedExchange) (files : Directory) :
    unsavedOf { x with unsaved := x.unsaved ++ [(e, files)] } e.connection =
      x.unsavedOf e.connection ++ [e] := by
  rw [unsavedOf, List.map_append]
  exact filter_concat_self (x.unsaved.map Prod.fst) e

/-- **A response that is sent** is one more for the connection, whether or not it is saved. -/
theorem Sends.send (h : Sends x i c) (hsavable : c.thread.Savable)
    (hrunning : c.thread.status = .running) {response : HTTPResponse}
    {responseParser : HTTPResponseParser}
    (hqueue : c.thread.responseParser = responseParser.carry [response])
    (hsent : x'.sentOf i = x.sentOf i ++ [⟨i, c.serverAddress, response⟩]) :
    (∀ e ∈ x'.sentOf i, e.serverAddress = c.serverAddress) ∧
    c.thread.toClient ++ [response.serialize] =
      (x'.sentOf i).map (fun e => e.response.serialize) ∧
    (x'.sentOf i).map (fun e => e.response.request) <+: c.thread.announced.map Prod.fst := by
  rw [hsent]
  refine ⟨List.forall_mem_append.2 ⟨h.address, fun e he => ?_⟩, ?_, ?_⟩
  · rw [List.mem_singleton.1 he]
  · rw [h.sent, List.map_append]
    rfl
  · have hall : x.sentOf i = x.exchangesOf i := by rw [sentOf, h.running hrunning, List.append_nil]
    have hannounced := hsavable.announced
    rw [hqueue, h.saved, List.map_map] at hannounced
    rw [hall, ← hannounced, List.map_append]
    refine (List.prefix_append_right_inj _).2 ?_
    exact ⟨_, rfl⟩

/-- **A response that is saved.** -/
theorem Records.saves (h : Records format x) (hc : x.connections[i]? = some c)
    (hrunning : c.thread.status = .running) {response : HTTPResponse}
    {responseParser : HTTPResponseParser} {file : Bytes × Bytes} {thread : HTTPProxy}
    (hqueue : c.thread.responseParser = responseParser.carry [response])
    (hnew : file.1 ∉ x.recordFolder.map Prod.fst)
    (hholds : Holds format file ⟨i, c.serverAddress, response⟩)
    (hthread : c.thread.clientOut = .ok thread)
    (hsaved : thread.saved = c.thread.saved ++ [response])
    (htoClient : thread.toClient = c.thread.toClient ++ [response.serialize])
    (hannounced : thread.announced = c.thread.announced) :
    Records format { x with
      connections := x.connections.set i { c with thread := thread }
      recordFolder := x.recordFolder ++ [file]
      exchanges := x.exchanges ++ [⟨i, c.serverAddress, response⟩] } := by
  have hi := h.sends i c hc
  have hnone := hi.running hrunning
  have hsavable := h.savable c (List.mem_of_getElem? hc)
  have hexchanges := exchangesOf_concat x ⟨i, c.serverAddress, response⟩
  refine ⟨forall_mem_set h.savable (hsavable.clientOut hthread), ?_, ?_, h.leaves, ?_, ?_⟩
  · refine nodup_names h.nodup (List.nodup_singleton file.1) fun other hother => ?_
    rw [List.mem_singleton.1 hother]
    exact hnew
  · obtain ⟨files, hsub, hperm, hfiles⟩ := h.files
    refine ⟨files ++ [file], hsub.append_right _, ?_, List.rel_append hfiles (.cons hholds .nil)⟩
    refine (hperm.append_right [file]).trans ?_
    rw [List.append_assoc, List.append_assoc]
    exact List.perm_append_comm.append_left files
  · refine forall_set (fun j c' hc' hj => (h.sends j c' hc').congr ?_ rfl) ?_
    · exact filter_concat_of_ne (Ne.symm hj)
    · have hsentOf : sentOf { x with
          exchanges := x.exchanges ++ [⟨i, c.serverAddress, response⟩] } i =
            x.sentOf i ++ [⟨i, c.serverAddress, response⟩] := by
        rw [sentOf, sentOf, hexchanges, hnone, List.append_nil]
        change _ ++ x.unsavedOf i = _
        rw [hnone, List.append_nil]
      obtain ⟨haddress, hsent, hanswers⟩ := hi.send hsavable hrunning hqueue hsentOf
      refine ⟨?_, haddress, htoClient.trans hsent, hannounced ▸ hanswers, Or.inl hnone⟩
      refine Eq.trans ?_ (congrArg (List.map SavedExchange.response) hexchanges).symm
      rw [List.map_append, ← hi.saved]
      exact hsaved
  · obtain ⟨hconnection, hconnection'⟩ := List.forall_mem_append.1 h.connection
    rw [List.length_set]
    refine List.forall_mem_append.2
      ⟨List.forall_mem_append.2 ⟨hconnection, fun e he => ?_⟩, hconnection'⟩
    rw [List.mem_singleton.1 he]
    exact (List.getElem?_eq_some_iff.1 hc).1

/-- **A response that is sent and not saved.** -/
theorem Records.fails (h : Records format x) (hc : x.connections[i]? = some c)
    (hrunning : c.thread.status = .running) {response : HTTPResponse}
    {responseParser : HTTPResponseParser} {thrown : StoreThrown}
    (hqueue : c.thread.responseParser = responseParser.carry [response])
    (hleaves : Leaves format ⟨i, c.serverAddress, response⟩ thrown.left)
    (hnew : ∀ file ∈ thrown.left, file.1 ∉ x.recordFolder.map Prod.fst) :
    Records format { x with
      connections := x.connections.set i { c with thread := { c.thread with
        toClient := c.thread.toClient ++ [response.serialize]
        status := .died thrown.fault } }
      recordFolder := x.recordFolder ++ thrown.left
      unsaved := x.unsaved ++ [(⟨i, c.serverAddress, response⟩, thrown.left)] } := by
  have hi := h.sends i c hc
  have hnone := hi.running hrunning
  have hsavable := h.savable c (List.mem_of_getElem? hc)
  refine ⟨forall_mem_set h.savable ?_, ?_, ?_, ?_, ?_, ?_⟩
  · exact ⟨hsavable.requests, hsavable.responses, hsavable.announced, hsavable.complete,
      hsavable.saved⟩
  · exact nodup_names h.nodup hleaves.nodup hnew
  · obtain ⟨files, hsub, hperm, hfiles⟩ := h.files
    refine ⟨files, hsub.trans (List.sublist_append_left _ _), ?_, hfiles⟩
    refine (hperm.append_right thrown.left).trans ?_
    rw [List.append_assoc, ← left_concat]
    exact .refl _
  · refine List.forall_mem_append.2 ⟨h.leaves, fun u hu => ?_⟩
    rw [List.mem_singleton.1 hu]
    exact hleaves
  · refine forall_set (fun j c' hc' hj => (h.sends j c' hc').congr rfl ?_) ?_
    · rw [unsavedOf, unsavedOf, List.map_append]
      exact filter_concat_of_ne (Ne.symm hj)
    · have hunsavedOf : unsavedOf { x with
          unsaved := x.unsaved ++ [(⟨i, c.serverAddress, response⟩, thrown.left)] } i =
            [⟨i, c.serverAddress, response⟩] := by
        refine (unsavedOf_concat x ⟨i, c.serverAddress, response⟩ thrown.left).trans ?_
        exact congrArg (· ++ _) hnone
      have hsentOf : sentOf { x with
          unsaved := x.unsaved ++ [(⟨i, c.serverAddress, response⟩, thrown.left)] } i =
            x.sentOf i ++ [⟨i, c.serverAddress, response⟩] := by
        rw [sentOf, sentOf, hunsavedOf, hnone, List.append_nil]
        rfl
      obtain ⟨haddress, hsent, hanswers⟩ := hi.send hsavable hrunning hqueue hsentOf
      exact ⟨hi.saved, haddress, hsent, hanswers, Or.inr ⟨_, _, hunsavedOf, rfl⟩⟩
  · rw [List.length_set, List.map_append, ← List.append_assoc]
    refine List.forall_mem_append.2 ⟨h.connection, fun e he => ?_⟩
    rw [List.mem_singleton.1 he]
    exact (List.getElem?_eq_some_iff.1 hc).1

/-- **Every step keeps what holds of the recorder.** -/
theorem Records.step {e : Event} (h : Records format x) (hx : Step format x e x') :
    Records format x' := by
  cases hx with
  | accept list => exact h.accept list _
  | act hc hrunning hs => exact h.act hc hrunning hs
  | clientOut hc hrunning hx =>
      obtain ⟨response, responseParser, hqueue, hcase⟩ := clientOut_cases hx
      rcases hcase with ⟨file, thread, hnew, hholds, hthread, hsaved, htoClient, hannounced, rfl⟩ |
        ⟨thrown, hleaves, hnew, rfl⟩
      · exact h.saves hc hrunning hqueue hnew hholds hthread hsaved htoClient hannounced
      · exact h.fails hc hrunning hqueue hleaves hnew

/-- So does a run. -/
theorem records_of_run {events : List Event} (hrun : Run (Step format) {} events x) :
    Records format x :=
  hrun.invariant (fun _ _ _ h hx => h.step hx) (records_start format)

/-- **The recording is what was sent.**  However the threads interleave, and whichever saves fail:

* the files have different names; there is one for each response that was saved, in order, which
  reads back as the request, the response and the address of the server;
* every other file was left by a save that failed, at most one by each, and is empty or the
  beginning of the record;
* the bytes that a client was sent are those of the responses that were saved for its connection, in
  order, and then at most one more, of which the save has failed and ended the thread; these answer
  the first of the requests that its thread has announced;
* the next response can be saved: it and its request have a protocol buffer. -/
theorem recorded {events : List Event} (hrun : Run (Step format) {} events x) :
    (x.recordFolder.map Prod.fst).Nodup ∧
    (∃ files, files.Sublist x.recordFolder ∧ x.recordFolder.Perm (files ++ x.left) ∧
      List.Forall₂ (Holds format) files x.exchanges) ∧
    (∀ u ∈ x.unsaved, Leaves format u.1 u.2) ∧
    ∀ i c, x.connections[i]? = some c →
      (∀ e ∈ x.sentOf i, e.serverAddress = c.serverAddress) ∧
      c.thread.toClient = (x.sentOf i).map (fun e => e.response.serialize) ∧
      (x.sentOf i).map (fun e => e.response.request) <+: c.thread.announced.map Prod.fst ∧
      (x.unsavedOf i = [] ∨ ∃ e fault, x.unsavedOf i = [e] ∧ c.thread.status = .died fault) ∧
      ∀ response, c.thread.responseParser.front = .ok response →
        ∃ output, HTTPDiskStore.output response c.serverAddress = .ok output := by
  have h := records_of_run hrun
  refine ⟨h.nodup, h.files, h.leaves, fun i c hc => ?_⟩
  obtain ⟨-, haddress, hsent, hanswers, hunsaved⟩ := h.sends i c hc
  refine ⟨haddress, hsent, hanswers, hunsaved, fun response hfront => ?_⟩
  obtain ⟨responseParser, hqueue⟩ := front_eq_ok hfront
  have hmem : response ∈ c.thread.responseParser.completeMessages := hqueue ▸ List.mem_cons_self
  obtain ⟨hresponse, hrequest⟩ := (h.savable c (List.mem_of_getElem? hc)).request_complete hmem
  exact HTTPDiskStore.output_of_complete hresponse hrequest _

/-- A client asks for `http://a/` and is sent `ok`; then the response is saved, or that fails. -/
def recording (calls : StoreCalls) : Except Fault Recorder := do
  let request := ascii "GET / HTTP/1.1\r\nHost: a\r\n\r\n"
  let asked ← (HTTPProxy.start {}).pass request request {}
  let forwarded ← asked.serverOut
  let answered ← (HTTPProxy.serverIn (ascii "HTTP/1.1 200 OK\r\nContent-Length: 2\r\n\r\nok")
    forwarded).mapError Thrown.fault
  let c : Connection := ⟨⟨ascii "10.0.0.1", 80⟩, answered⟩
  clientOut MahimahiProtobufs.wireFormat 0 calls c { connections := [c] }

/-- Nothing fails. -/
def okRecording : Except Fault Recorder := recording { suffix := some (ascii "abcdef") }

/-- The third byte of the file is the last one. -/
def cutRecording : Except Fault Recorder :=
  recording { suffix := some (ascii "abcdef"), cutOff := some 3 }

/-- These are steps of the recorder. -/
theorem run_recording (h : recording calls = .ok x) :
    ∃ events, Run (Step MahimahiProtobufs.wireFormat) {} events x := by
  obtain ⟨asked, hasked, h⟩ := bind_eq_ok.1 h
  obtain ⟨forwarded, hforwarded, h⟩ := bind_eq_ok.1 h
  obtain ⟨answered, hanswered, h⟩ := bind_eq_ok.1 h
  have hserverIn := mapError_eq_ok.1 hanswered
  have hrunning : asked.status = .running := HTTPProxy.status_pass hasked
  have hrunning' := (HTTPProxy.status_serverOut hforwarded).trans hrunning
  have hrunning'' := (HTTPProxy.status_serverIn hserverIn).trans hrunning'
  exact ⟨[.accept ⟨ascii "10.0.0.1", 80⟩, .act 0, .act 0, .act 0, .clientOut 0 calls],
    .cons (.accept {}) (.cons (.act rfl rfl (.pass hasked))
      (.cons (.act rfl hrunning (.serverOut hforwarded))
        (.cons (.act rfl hrunning' (.serverIn _ _ hserverIn))
          (.cons (.clientOut rfl hrunning'' h) (.nil _)))))⟩

/-- What a computation gives as an option, it returns. -/
theorem exists_of_toOption {α β : Type} {r : Except Fault α} {f : α → β} {b : β}
    (h : r.toOption.map f = some b) : ∃ a, r = .ok a ∧ f a = b := by
  rcases r with e | a
  · cases h
  · exact ⟨a, rfl, Option.some.inj h⟩

/-- The client is sent what the file holds; or else the file is the beginning of it. -/
theorem recorded_ok : ∃ x y, okRecording = .ok x ∧ cutRecording = .ok y ∧
    (x.recordFolder.map Prod.fst = [ascii "save.abcdef"] ∧ x.left = []) ∧
    (∃ files, files.Sublist x.recordFolder ∧ x.recordFolder.Perm (files ++ x.left) ∧
      List.Forall₂ (Holds MahimahiProtobufs.wireFormat) files x.exchanges) ∧
    (y.recordFolder.map (fun file => file.2.length) = [3] ∧ y.exchanges.length = 0) ∧
    ∀ u ∈ y.unsaved, Leaves MahimahiProtobufs.wireFormat u.1 u.2 := by
  obtain ⟨x, hx, hfolder⟩ := exists_of_toOption (r := okRecording)
    (f := fun x => (x.recordFolder.map Prod.fst, x.left)) (b := ([ascii "save.abcdef"], []))
    (by decide +kernel)
  obtain ⟨y, hy, hcut⟩ := exists_of_toOption (r := cutRecording)
    (f := fun x => (x.recordFolder.map fun file => file.2.length, x.exchanges.length))
    (b := ([3], 0)) (by decide +kernel)
  obtain ⟨events, hrun⟩ := run_recording hx
  obtain ⟨events', hrun'⟩ := run_recording hy
  exact ⟨x, y, hx, hy, Prod.mk.inj hfolder, (recorded hrun).2.1, Prod.mk.inj hcut,
    (recorded hrun').2.2.1⟩

end Recorder

end V2Proxy
