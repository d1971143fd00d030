/-
# `DNSProxy::handle_tcp`

`src/util/dns_proxy.cc`: the thread of one connection relays bytes between the client and the
nameserver, through two `ByteStreamQueue`s and the four actions of a `Poller`.  A side that
ends is not polled for input any more, and the thread goes on until nothing is left to relay.

Each callback has its precondition from the interest of its action: a push needs space in its
queue, a pop needs a byte.  The only other callback that touches the queue moves it the other
way, so the precondition still holds when the callback is called (`outline`).  Hence no
assertion of the queues fails and no round is a busy wait, and unless a descriptor shows an
error the thread leaves only when it has delivered all it has read (`handleTcp_delivers`).

Opening the connection is left out; a system call that fails throws, which ends the thread.
-/

import V2Proxy.Util.BytestreamQueue
import V2Proxy.Util.Poller

namespace V2Proxy

open Foundations Poller

namespace Transfer

/-- `ByteStreamQueue::push`, with what `read` has to offer.  The assertions before the `read` do
not look at what it changes. -/
def pushFrom (t : Transfer) (fd : FileDescriptor) (offered : Option Bytes) :
    Except Fault (ByteStreamQueue.Result × Transfer × FileDescriptor) := do
  let (newChunk, fd) ← fd.read t.queue.contiguousSpaceToPush offered
  let (result, queue) ← t.queue.push newChunk
  return (result, { t with queue := queue, pushed := t.pushed ++ newChunk }, fd)

/-- `ByteStreamQueue::pop`, with how many bytes the system call `write` would take, or nothing
when it fails. -/
def popTo (t : Transfer) (fd : FileDescriptor) (accepted : Option ℕ) :
    Except Fault (Transfer × FileDescriptor) :=
  match accepted with
  | none => .error (.unixError (ascii "write"))
  | some n => do
      let (bytes, queue) ← t.queue.pop (min n t.queue.contiguousSpaceToPop)
      return ({ t with queue := queue, popped := t.popped ++ bytes }, fd.registerWrite)

/-- The exceptions of system calls. -/
def SystemCallFails (e : Fault) : Prop :=
  e = .unixError (ascii "read") ∨ e = .unixError (ascii "write") ∨
    e = .runtimeError (ascii "write returned 0")

variable {n : ℕ} {t : Transfer}

/-- **A push where there is space** adds what was read to the bytes held. -/
theorem Relays.pushFrom (h : Relays n t) (hspace : t.queue.spaceAvailable = true)
    (fd : FileDescriptor) (offered : Option Bytes) :
    (∃ e, t.pushFrom fd offered = .error e ∧ SystemCallFails e) ∨
    ∃ r t' newChunk, t.pushFrom fd offered = .ok (r, t', { fd with
        eof := fd.eof || newChunk = [], readCount := fd.readCount + 1 }) ∧
      (r = .EndOfFile ↔ newChunk = []) ∧ Relays n t' ∧
      t'.queue.held = t.queue.held ++ newChunk ∧ t'.popped = t.popped := by
  cases offered with
  | none => exact Or.inl ⟨_, rfl, Or.inl rfl⟩
  | some bytes =>
      obtain ⟨newChunk, hchunk⟩ : ∃ newChunk,
          newChunk = bytes.take (min bufferSize t.queue.contiguousSpaceToPush) := ⟨_, rfl⟩
      have hlength : newChunk.length ≤ t.queue.contiguousSpaceToPush :=
        hchunk ▸ (List.length_take_le _ _).trans (min_le_right _ _)
      obtain ⟨r, q, hpush, hr, hbuffer, hsize, hheld⟩ := h.inBuffer.push hspace hlength
      refine Or.inr ⟨r, { t with queue := q, pushed := t.pushed ++ newChunk }, newChunk, ?_, hr,
        ⟨hbuffer, hsize.trans h.length, ?_⟩, hheld, rfl⟩
      · rw [Transfer.pushFrom, FileDescriptor.read]
        dsimp only
        rw [← hchunk, ok_bind]
        dsimp only
        rw [hpush]
        rfl
      · change t.pushed ++ newChunk = t.popped ++ q.held
        rw [hheld, h.pushed, List.append_assoc]

/-- **A pop where there is a byte** writes the first bytes held. -/
theorem Relays.popTo (h : Relays n t) (hne : t.queue.nonEmpty = true)
    (fd : FileDescriptor) (accepted : Option ℕ) :
    (∃ e, t.popTo fd accepted = .error e ∧ SystemCallFails e) ∨
    ∃ t' written, t.popTo fd accepted = .ok (t', fd.registerWrite) ∧ Relays n t' ∧
      t'.queue.held = t.queue.held.drop written ∧ t'.pushed = t.pushed := by
  cases accepted with
  | none => exact Or.inl ⟨_, rfl, Or.inr (Or.inl rfl)⟩
  | some m =>
      have hspace := h.inBuffer.contiguousSpaceToPop_pos hne
      rcases Nat.eq_zero_or_pos m with rfl | hm
      · refine Or.inl ⟨_, ?_, Or.inr (Or.inr rfl)⟩
        rw [Transfer.popTo, Nat.zero_min, ByteStreamQueue.pop, assert_of hne, ok_bind]
        dsimp only
        rw [assert_of (Nat.le_add_right _ _), ok_bind, if_neg (by omega), if_pos rfl]
        rfl
      · obtain ⟨written, hwritten⟩ : ∃ written,
            written = min m t.queue.contiguousSpaceToPop := ⟨_, rfl⟩
        have hle : written ≤ t.queue.contiguousSpaceToPop := hwritten ▸ min_le_right _ _
        have hpos : 0 < written := hwritten ▸ lt_min hm hspace
        obtain ⟨q, hpop, hbuffer, hsize, hheld⟩ := h.inBuffer.pop hne hpos hle
        refine Or.inr ⟨{ t with queue := q, popped := t.popped ++ t.queue.held.take written },
          written, ?_, ⟨hbuffer, hsize.trans h.length, ?_⟩, hheld, rfl⟩
        · rw [Transfer.popTo, ← hwritten, hpop]
          rfl
        · change t.pushed = t.popped ++ t.queue.held.take written ++ q.held
          rw [hheld, List.append_assoc, List.take_append_drop, h.pushed]

/-- There is space just if the bytes held do not fill the queue. -/
theorem Relays.spaceAvailable_iff (h : Relays n t) :
    t.queue.spaceAvailable = true ↔ t.queue.held.length < n - 1 := by
  rw [ByteStreamQueue.spaceAvailable, decide_eq_true_iff, h.inBuffer.availableToPush,
    ← h.inBuffer.length_held, h.length]
  omega

theorem Relays.nonEmpty_iff (h : Relays n t) :
    t.queue.nonEmpty = true ↔ t.queue.held ≠ [] := by
  rw [ByteStreamQueue.nonEmpty, decide_eq_true_iff, ← h.inBuffer.length_held,
    List.length_pos_iff]

/-- All that was pushed has been popped. -/
theorem Relays.delivered_iff (h : Relays n t) :
    t.popped = t.pushed ↔ t.queue.nonEmpty = false := by
  rw [← Bool.not_eq_true, h.nonEmpty_iff, not_not, h.pushed, eq_comm, List.append_right_eq_self]

end Transfer

/-- What the callbacks of one connection share. -/
structure DNSConnection where
  fromServer : Transfer
  fromClient : Transfer
  dnsServer : FileDescriptor := {}
  client : FileDescriptor := {}

namespace DNSProxy

open Transfer

/-- `BUFFER_SIZE` of `src/util/dns_proxy.cc`. -/
def BUFFER_SIZE : ℕ := 1024 * 1024

/-- The two sockets of a connection. -/
inductive Socket
  | dnsServer
  | client

/-- The four actions. -/
inductive Handler
  | serverIn
  | clientIn
  | serverOut
  | clientOut
deriving DecidableEq

/-- What a callback meets: the bytes that `read` has to offer, or how many `write` would take;
nothing if the system call fails. -/
structure Input where
  offered : Option Bytes := none
  accepted : Option ℕ := none

/-- The callback's result after a `push`. -/
def afterPush (result : ByteStreamQueue.Result) : CallbackResult :=
  if result = .EndOfFile then .Cancel else .Continue

/-- The actions of `DNSProxy::handle_tcp`. -/
def action : Handler → Action Socket DNSConnection Input Fault
  | .serverIn => {
      fd := .dnsServer
      direction := .In
      callback := fun i s => do
        let (result, fromServer, dnsServer) ← s.fromServer.pushFrom s.dnsServer i.offered
        return (afterPush result, { s with fromServer := fromServer, dnsServer := dnsServer })
      whenInterested := fun s => (s.fromServer.queue.spaceAvailable, s) }
  | .clientIn => {
      fd := .client
      direction := .In
      callback := fun i s => do
        let (result, fromClient, client) ← s.fromClient.pushFrom s.client i.offered
        return (afterPush result, { s with fromClient := fromClient, client := client })
      whenInterested := fun s => (s.fromClient.queue.spaceAvailable, s) }
  | .serverOut => {
      fd := .dnsServer
      direction := .Out
      callback := fun i s => do
        let (fromClient, dnsServer) ← s.fromClient.popTo s.dnsServer i.accepted
        return (.Continue, { s with fromClient := fromClient, dnsServer := dnsServer })
      whenInterested := fun s => (s.fromClient.queue.nonEmpty, s) }
  | .clientOut => {
      fd := .client
      direction := .Out
      callback := fun i s => do
        let (fromServer, client) ← s.fromServer.popTo s.client i.accepted
        return (.Continue, { s with fromServer := fromServer, client := client })
      whenInterested := fun s => (s.fromServer.queue.nonEmpty, s) }

/-- The poller of `DNSProxy::handle_tcp`. -/
def handleTcp : Poller Handler Socket DNSConnection Input Fault where
  actions := [.serverIn, .clientIn, .serverOut, .clientOut]
  action := action
  descriptor
    | .dnsServer => DNSConnection.dnsServer
    | .client => DNSConnection.client
  throwing e _ := e

/-- The bytestreams of a new connection. -/
def connect (size : ℕ) : Except Fault DNSConnection := do
  let fromClient ← ByteStreamQueue.new size
  let fromServer ← ByteStreamQueue.new size
  return { fromServer := { queue := fromServer }, fromClient := { queue := fromClient } }

variable {n : ℕ} {s : DNSConnection}

/-- Both directions relay. -/
structure RelaysBoth (n : ℕ) (s : DNSConnection) : Prop where
  fromServer : Relays n s.fromServer
  fromClient : Relays n s.fromClient

/-- What a callback needs of the queues. -/
def Pre : Handler → DNSConnection → Prop
  | .serverIn, s => s.fromServer.queue.spaceAvailable = true
  | .clientIn, s => s.fromClient.queue.spaceAvailable = true
  | .serverOut, s => s.fromClient.queue.nonEmpty = true
  | .clientOut, s => s.fromServer.queue.nonEmpty = true

/-- An action is cancelled only at the end of its file. -/
def Gone : Handler → DNSConnection → Prop
  | .serverIn, s => s.dnsServer.eof = true
  | .clientIn, s => s.client.eof = true
  | .serverOut, _ => False
  | .clientOut, _ => False

/-- A queue in which only bytes were added is still not empty. -/
theorem nonEmpty_of_append {t t' : Transfer} {newChunk : Bytes} (h : Relays n t) (h' : Relays n t')
    (hheld : t'.queue.held = t.queue.held ++ newChunk) (hne : t.queue.nonEmpty = true) :
    t'.queue.nonEmpty = true := by
  rw [h'.nonEmpty_iff, hheld]
  exact List.append_ne_nil_of_left_ne_nil (h.nonEmpty_iff.1 hne) newChunk

/-- A queue from which only bytes were taken still has space. -/
theorem spaceAvailable_of_drop {t t' : Transfer} {written : ℕ} (h : Relays n t) (h' : Relays n t')
    (hheld : t'.queue.held = t.queue.held.drop written) (hspace : t.queue.spaceAvailable = true) :
    t'.queue.spaceAvailable = true := by
  rw [h'.spaceAvailable_iff, hheld, List.length_drop]
  have := h.spaceAvailable_iff.1 hspace
  omega

/-- A descriptor whose read returned nothing has had EOF, and one that had it still has. -/
theorem eof_afterPush {r : ByteStreamQueue.Result} {newChunk : Bytes} {eof : Bool}
    (hr : r = .EndOfFile ↔ newChunk = []) :
    (afterPush r = .Cancel → (eof || decide (newChunk = [])) = true) ∧
      (eof = true → (eof || decide (newChunk = [])) = true) := by
  refine ⟨fun h => ?_, fun h => by rw [h, Bool.true_or]⟩
  by_cases hend : r = .EndOfFile
  · rw [decide_eq_true (hr.1 hend), Bool.or_true]
  · rw [afterPush, if_neg hend] at h
    cases h

/-- The proof outline of the four actions: a callback leaves the queue that it does not touch, and
what it does to its own queue is no harm to the callback at the other end. -/
def outline (n : ℕ) : handleTcp.Outline where
  inv := RelaysBoth n
  pre := Pre
  gone := Gone
  throws := SystemCallFails
  nodup := by decide
  ask k _ s hs := by
    refine ⟨?_, ?_, ?_, ?_⟩ <;> cases k <;> intros <;> assumption
  call k _ i s hs hk := by
    cases k with
    | serverIn =>
        rcases hs.fromServer.pushFrom hk s.dnsServer i.offered with
          ⟨e, he, hfails⟩ | ⟨r, t, newChunk, ht, hr, hrelays, hheld, -⟩
        · exact Or.inl ⟨e, congrArg (· >>= _) he, hfails⟩
        refine Or.inr ⟨_, _, congrArg (· >>= _) ht, ⟨hrelays, hs.fromClient⟩,
          fun _ => Or.inl (FileDescriptor.count_ne _), (eof_afterPush hr).1, fun k' hk' hpre => ?_,
          fun k' hgone => ?_⟩
        · cases k' with
          | serverIn => exact absurd rfl hk'
          | clientIn => exact hpre
          | serverOut => exact hpre
          | clientOut => exact nonEmpty_of_append hs.fromServer hrelays hheld hpre
        · cases k' with
          | serverIn => exact (eof_afterPush hr).2 hgone
          | clientIn => exact hgone
          | serverOut => exact hgone
          | clientOut => exact hgone
    | clientIn =>
        rcases hs.fromClient.pushFrom hk s.client i.offered with
          ⟨e, he, hfails⟩ | ⟨r, t, newChunk, ht, hr, hrelays, hheld, -⟩
        · exact Or.inl ⟨e, congrArg (· >>= _) he, hfails⟩
        refine Or.inr ⟨_, _, congrArg (· >>= _) ht, ⟨hs.fromServer, hrelays⟩,
          fun _ => Or.inl (FileDescriptor.count_ne _), (eof_afterPush hr).1, fun k' hk' hpre => ?_,
          fun k' hgone => ?_⟩
        · cases k' with
          | serverIn => exact hpre
          | clientIn => exact absurd rfl hk'
          | serverOut => exact nonEmpty_of_append hs.fromClient hrelays hheld hpre
          | clientOut => exact hpre
        · cases k' with
          | serverIn => exact hgone
          | clientIn => exact (eof_afterPush hr).2 hgone
          | serverOut => exact hgone
          | clientOut => exact hgone
    | serverOut =>
        rcases hs.fromClient.popTo hk s.dnsServer i.accepted with
          ⟨e, he, hfails⟩ | ⟨t, written, ht, hrelays, hheld, -⟩
        · exact Or.inl ⟨e, congrArg (· >>= _) he, hfails⟩
        refine Or.inr ⟨_, _, congrArg (· >>= _) ht, ⟨hs.fromServer, hrelays⟩,
          fun _ => Or.inl (FileDescriptor.count_ne _), fun h => (by cases h), fun k' hk' hpre => ?_,
          fun k' hgone => ?_⟩
        · cases k' with
          | serverIn => exact hpre
          | clientIn => exact spaceAvailable_of_drop hs.fromClient hrelays hheld hpre
          | serverOut => exact absurd rfl hk'
          | clientOut => exact hpre
        · cases k' <;> exact hgone
    | clientOut =>
        rcases hs.fromServer.popTo hk s.client i.accepted with
          ⟨e, he, hfails⟩ | ⟨t, written, ht, hrelays, hheld, -⟩
        · exact Or.inl ⟨e, congrArg (· >>= _) he, hfails⟩
        refine Or.inr ⟨_, _, congrArg (· >>= _) ht, ⟨hrelays, hs.fromClient⟩,
          fun _ => Or.inl (FileDescriptor.count_ne _), fun h => (by cases h), fun k' hk' hpre => ?_,
          fun k' hgone => ?_⟩
        · cases k' with
          | serverIn => exact spaceAvailable_of_drop hs.fromServer hrelays hheld hpre
          | clientIn => exact hpre
          | serverOut => exact hpre
          | clientOut => exact absurd rfl hk'
        · cases k' <;> exact hgone

/-- What a handler polls for, whether it was cancelled or not. -/
def wants (s : DNSConnection) : Handler → Bool
  | .serverIn => s.fromServer.queue.spaceAvailable && !s.dnsServer.eof
  | .clientIn => s.fromClient.queue.spaceAvailable && !s.client.eof
  | .serverOut => s.fromClient.queue.nonEmpty
  | .clientOut => s.fromServer.queue.nonEmpty

theorem askOne_eq {active : Handler → Bool} (hgone : ∀ k, active k = false → Gone k s) (k : Handler) :
    handleTcp.askOne active k s = (wants s k, s) := by
  by_cases hactive : active k = true
  · rw [askOne_of_active hactive]
    cases k with
    | serverIn => rfl
    | clientIn => rfl
    | serverOut => exact congrArg (·, s) (Bool.and_true _)
    | clientOut => exact congrArg (·, s) (Bool.and_true _)
  · rw [askOne_of_not_active hactive]
    have hk := hgone k (Bool.eq_false_iff.2 hactive)
    cases k with
    | serverIn =>
        rw [wants, show s.dnsServer.eof = true from hk, Bool.not_true, Bool.and_false]
    | clientIn =>
        rw [wants, show s.client.eof = true from hk, Bool.not_true, Bool.and_false]
    | serverOut => exact hk.elim
    | clientOut => exact hk.elim

/-- Both sides have ended, and all that was read from them has been written. -/
structure Done (s : DNSConnection) : Prop where
  serverEof : s.dnsServer.eof = true
  clientEof : s.client.eof = true
  fromServer : s.fromServer.popped = s.fromServer.pushed
  fromClient : s.fromClient.popped = s.fromClient.pushed

/-- **No action is interested just if nothing is left to do.**  A queue that is not empty is
written out, and one that is empty has space. -/
theorem ask_eq_nil_iff (hn : 1 < n) {active : Handler → Bool} (hs : RelaysBoth n s)
    (hgone : ∀ k, active k = false → Gone k s) :
    (handleTcp.ask active handleTcp.actions s).1 = [] ↔ Done s := by
  rw [ask_eq_filter (fun k _ => askOne_eq hgone k)]
  have hspace : ∀ t : Transfer, Relays n t → t.queue.nonEmpty = false →
      t.queue.spaceAvailable = true := by
    intro t ht hempty
    have hnil : t.queue.held = [] := by
      by_contra hne
      rw [ht.nonEmpty_iff.2 hne] at hempty
      cases hempty
    rw [ht.spaceAvailable_iff, hnil, List.length_nil]
    omega
  have hwants : List.filter (wants s) handleTcp.actions = [] ↔ ∀ k, wants s k = false := by
    rw [List.filter_eq_nil_iff]
    refine ⟨fun h k => ?_, fun h k _ => by rw [h k]; exact Bool.false_ne_true⟩
    have hk : k ∈ handleTcp.actions := by cases k <;> decide
    exact Bool.eq_false_iff.2 (h k hk)
  rw [hwants]
  constructor
  · intro h
    have hserver : s.fromServer.queue.nonEmpty = false := h .clientOut
    have hclient : s.fromClient.queue.nonEmpty = false := h .serverOut
    have hserverIn := h .serverIn
    have hclientIn := h .clientIn
    rw [wants, hspace _ hs.fromServer hserver, Bool.true_and, Bool.not_eq_false'] at hserverIn
    rw [wants, hspace _ hs.fromClient hclient, Bool.true_and, Bool.not_eq_false'] at hclientIn
    exact ⟨hserverIn, hclientIn, hs.fromServer.delivered_iff.2 hserver,
      hs.fromClient.delivered_iff.2 hclient⟩
  · rintro ⟨hserverEof, hclientEof, hserver, hclient⟩ k
    cases k with
    | serverIn => rw [wants, hserverEof, Bool.not_true, Bool.and_false]
    | clientIn => rw [wants, hclientEof, Bool.not_true, Bool.and_false]
    | serverOut => exact hs.fromClient.delivered_iff.1 hclient
    | clientOut => exact hs.fromServer.delivered_iff.1 hserver

/-- No callback ends the loop. -/
theorem callback_continues {k : Handler} {i : Input} {s' : DNSConnection} {exitStatus : UInt32} :
    (handleTcp.action k).callback i s ≠ .ok (.Exit exitStatus, s') := by
  intro h
  cases k with
  | serverIn =>
      obtain ⟨⟨r, t, fd⟩, -, h⟩ := bind_eq_ok.1 h
      cases r <;> cases h
  | clientIn =>
      obtain ⟨⟨r, t, fd⟩, -, h⟩ := bind_eq_ok.1 h
      cases r <;> cases h
  | serverOut =>
      obtain ⟨⟨t, fd⟩, -, h⟩ := bind_eq_ok.1 h
      cases h
  | clientOut =>
      obtain ⟨⟨t, fd⟩, -, h⟩ := bind_eq_ok.1 h
      cases h

theorem holds_start (hmax : n < maxSize) {c : DNSConnection} (h : connect n = .ok c) :
    (outline n).Holds (Poller.start c) := by
  obtain ⟨q, hq, h⟩ := bind_eq_ok.1 h
  obtain ⟨q', hq', h⟩ := bind_eq_ok.1 h
  cases h
  exact ⟨⟨relays_new hmax hq', relays_new hmax hq⟩, fun k hk => by cases hk⟩

/-- **A proxied connection delivers what it reads.**  In every state in which the thread polls,
each side has been written the first bytes that were read from the other one.  The next round
throws only if a system call fails; otherwise it is the last one if a descriptor shows an error,
or if both sides have ended and everything read from them has been written, and only then. -/
theorem handleTcp_delivers : ∃ c, connect BUFFER_SIZE = .ok c ∧
    ∀ (reports : List (Option (Handler → Report Input))) (s : State Handler DNSConnection),
      Run handleTcp.Continues (Poller.start c) reports s →
        s.shared.fromServer.popped <+: s.shared.fromServer.pushed ∧
        s.shared.fromClient.popped <+: s.shared.fromClient.pushed ∧
        ∀ report, (∃ e, handleTcp.poll report s = .error e ∧ SystemCallFails e) ∨
          ∃ r s', handleTcp.poll report s = .ok (r, s') ∧
            ((∃ exitStatus, r = .Exit exitStatus) ↔ Done s.shared ∨
              ∃ reported k, report = some reported ∧ (reported k).revents.hangUp = true) := by
  have hconnect : connect BUFFER_SIZE = .ok
      { fromServer := { queue := { buffer := List.replicate BUFFER_SIZE 0 } }
        fromClient := { queue := { buffer := List.replicate BUFFER_SIZE 0 } } } := by
    have hsize : 1 < BUFFER_SIZE := by decide
    rw [connect, ByteStreamQueue.new, assert_of hsize]
    rfl
  have hmax : BUFFER_SIZE < maxSize := by decide
  refine ⟨_, hconnect, fun reports s hrun => ?_⟩
  have hs := Outline.holds_of_run (holds_start hmax hconnect) hrun
  have hdone := ask_eq_nil_iff (by decide) hs.inv hs.gone
  refine ⟨⟨_, hs.inv.fromServer.pushed.symm⟩, ⟨_, hs.inv.fromClient.pushed.symm⟩, fun report => ?_⟩
  rcases Outline.poll hs report with ⟨e, he, hfails⟩ | ⟨r, s', hr, -⟩
  · exact Or.inl ⟨e, he, hfails⟩
  refine Or.inr ⟨r, s', hr, ?_⟩
  rw [poll_eq] at hr
  constructor
  · rintro ⟨exitStatus, rfl⟩
    split_ifs at hr with hnil
    · exact Or.inl (hdone.1 hnil)
    · cases report with
      | none => cases hr
      | some reported =>
          obtain ⟨k, -, ⟨hhang, -⟩ | ⟨-, _, _, hcallback⟩⟩ := serve_exit hr
          · exact Or.inr ⟨reported, k, rfl, hhang⟩
          · exact absurd hcallback callback_continues
  · rintro (h | ⟨reported, k, rfl, hhang⟩)
    · rw [if_pos (hdone.2 h)] at hr
      cases hr
      exact ⟨0, rfl⟩
    · split_ifs at hr with hnil
      · cases hr
        exact ⟨0, rfl⟩
      · exact serve_of_hangUp ⟨k, by cases k <;> decide, hhang⟩ hr

end DNSProxy

end V2Proxy
