/-
# `PacketShell::Ferry::loop`

`src/packet/packetshell.cc`: a ferry reads packets from its TUN device into a queue, and writes
what the queue gives out to the device on the other side.  The queue is the one of the shell
(`FerryQueueType`): it says how long to wait, whether it has output pending and whether it has
finished.

`Laws` is what a ferry relies on: a queue gives out what it was given, in order, and once it
says that output is pending, a call of `write_packets` writes some, also when a packet was read
in between.  A ferry with such a queue delivers the packets in order, and its poller sees no
busy wait before 2^32 packets have been read (`ferry_delivers`).

The handlers of the DNS proxies, which touch nothing of this, are left out, and a write is
taken to write everything.  What `handle_signal` does is `EventLoop.handleSignal`; here it is an
input.
-/

import V2Proxy.Util.EventLoop
import V2Proxy.Util.Poller

namespace V2Proxy

open Foundations Poller
open scoped List

/-- A `FerryQueueType`.  A call is given what it reads of the clock; it throws, or, with `none`,
has not returned. -/
structure FerryQueue (Q α : Type) where
  readPacket : α → Bytes → Q → Except (Option Fault) Q
  writePackets : Q → List Bytes × Q
  waitTime : α → Q → Except (Option Fault) (ℕ × Q)
  pendingOutput : Q → Bool × Q
  finished : Q → Bool

/-- What the callbacks of a ferry share, with the packets read and those written. -/
structure Ferry (Q : Type) where
  queue : Q
  tun : FileDescriptor := {}
  sibling : FileDescriptor := {}
  signals : FileDescriptor := {}
  read : List Bytes := []
  written : List Bytes := []

namespace Ferry

/-- The descriptors of a ferry. -/
inductive Device
  | tun
  | sibling
  | signals

/-- The actions of a ferry. -/
inductive Handler
  | readTun
  | writeSibling
  | finish
  | readSignal
deriving DecidableEq

/-- What a callback meets: the clock, the packet that `read` returns, nothing if it fails, and
what `handle_signal` does about the signal that was read. -/
structure Input (α : Type) where
  reading : α
  packet : Option Bytes := none
  handled : Except Fault ResultType := .ok .Continue

/-- What has stopped a ferry: a system call, an exception of the queue or a call of it that has
not returned, a write, a signal, or the poller. -/
inductive Cause
  | read (fault : Fault)
  | queue (fault : Option Fault)
  | write (fault : Fault)
  | signal (fault : Fault)
  | poller (fault : Fault)

/-- What has stopped a ferry, and what it leaves. -/
structure Stopped (Q : Type) where
  cause : Cause
  ferry : Ferry Q

variable {Q α : Type} (F : FerryQueue Q α)

/-- The TUN device gets a datagram: read it, and give it to the queue. -/
def readTun (i : Input α) (s : Ferry Q) : Except (Stopped Q) (CallbackResult × Ferry Q) :=
  match s.tun.read bufferSize i.packet with
  | .error e => .error { cause := .read e, ferry := s }
  | .ok (contents, tun) =>
      let s : Ferry Q := { s with tun := tun, read := s.read ++ [contents] }
      match F.readPacket i.reading contents s.queue with
      | .error e => .error { cause := .queue e, ferry := s }
      | .ok queue => .ok (.Continue, { s with queue := queue })

/-- What `FileDescriptor::write` throws for an empty packet. -/
def nothingToWrite : Fault := .runtimeError (ascii "nothing to write")

/-- The queue is ready to write: send to the sibling's TUN device. -/
def writeSibling (s : Ferry Q) : Except (Stopped Q) (CallbackResult × Ferry Q) :=
  let (packets, queue) := F.writePackets s.queue
  if [] ∈ packets then .error { cause := .write nothingToWrite, ferry := s }
  else .ok (.Continue, { s with
    queue := queue
    sibling := s.sibling.registerWrites packets.length
    written := s.written ++ packets })

/-- A signal is read and handled. -/
def readSignal (i : Input α) (s : Ferry Q) : Except (Stopped Q) (CallbackResult × Ferry Q) :=
  let s := { s with signals := { s.signals with readCount := s.signals.readCount + 1 } }
  match i.handled with
  | .error e => .error { cause := .signal e, ferry := s }
  | .ok .Exit => .ok (.Exit 0, s)
  | .ok .Continue => .ok (.Continue, s)

/-- The poller of a ferry. -/
def poller : Poller Handler Device (Ferry Q) (Input α) (Stopped Q) where
  actions := [.readTun, .writeSibling, .finish, .readSignal]
  action
    | .readTun => {
        fd := .tun
        direction := .In
        callback := readTun F }
    | .writeSibling => {
        fd := .sibling
        direction := .Out
        callback := fun _ s => writeSibling F s
        whenInterested := fun s =>
          ((F.pendingOutput s.queue).1, { s with queue := (F.pendingOutput s.queue).2 }) }
    | .finish => {
        fd := .sibling
        direction := .Out
        callback := fun _ s => .ok (.Exit 77, s)
        whenInterested := fun s => (F.finished s.queue, s) }
    | .readSignal => {
        fd := .signals
        direction := .In
        callback := readSignal }
  descriptor
    | .tun => Ferry.tun
    | .sibling => Ferry.sibling
    | .signals => Ferry.signals
  throwing e s := { cause := .poller e, ferry := s }

/-- A round of `internal_loop`: `poller_.poll( wait_time() )`. -/
def round (reading : α) (report : Option (Handler → Report (Input α)))
    (x : State Handler (Ferry Q)) : Except (Stopped Q) (Result × State Handler (Ferry Q)) :=
  match F.waitTime reading x.shared.queue with
  | .error e => .error { cause := .queue e, ferry := x.shared }
  | .ok (_, queue) => (poller F).poll report { x with shared := { x.shared with queue := queue } }

/-- A round after which the loop goes on. -/
def Continues (x : State Handler (Ferry Q)) (e : α × Option (Handler → Report (Input α)))
    (x' : State Handler (Ferry Q)) : Prop :=
  ∃ r, round F e.1 e.2 x = .ok (r, x') ∧ ∀ exitStatus, r ≠ .Exit exitStatus

end Ferry

/-- What a ferry relies on.  A queue has a record of the packets that it was given and of those
that it gave out; `held` are those in it, in the order of their arrival, and a `lossless` queue
drops none.  It is `drained` when it has nothing more to write, and one that has finished stays
so. -/
structure FerryQueue.Laws {Q α : Type} (F : FerryQueue Q α) where
  inv : Q → Prop
  read : Q → List Bytes
  written : Q → List Bytes
  held : Q → List Bytes
  pending : Q → Prop
  drained : Q → Prop
  lossless : Prop
  order : ∀ {q}, inv q → written q ++ held q <+ read q ∧ (lossless → written q ++ held q = read q)
  readPacket : ∀ {a contents q q'}, inv q → F.readPacket a contents q = .ok q' →
    inv q' ∧ read q' = read q ++ [contents] ∧ written q' = written q ∧ (pending q → pending q')
  writePackets : ∀ {q}, inv q → inv (F.writePackets q).2 ∧ read (F.writePackets q).2 = read q ∧
    written (F.writePackets q).2 = written q ++ (F.writePackets q).1 ∧
      (F.writePackets q).1 <+ held q ∧ (pending q → (F.writePackets q).1 ≠ [])
  waitTime : ∀ {a n q q'}, inv q → F.waitTime a q = .ok (n, q') →
    inv q' ∧ read q' = read q ∧ written q' = written q
  pendingOutput : ∀ {q}, inv q → inv (F.pendingOutput q).2 ∧ read (F.pendingOutput q).2 = read q ∧
    written (F.pendingOutput q).2 = written q ∧
      ((F.pendingOutput q).1 = true → pending (F.pendingOutput q).2) ∧
        (pending q → pending (F.pendingOutput q).2)
  drained_of_not_pending : ∀ {q}, inv q → (F.pendingOutput q).1 = false → drained (F.pendingOutput q).2
  drained_writePackets : ∀ {q}, inv q → F.finished q = true → drained (F.writePackets q).2
  drained_readPacket : ∀ {a contents q q'}, inv q → F.finished q = true →
    F.readPacket a contents q = .ok q' → F.finished q' = true ∧ (drained q → drained q')

namespace Ferry

variable {Q α : Type} {F : FerryQueue Q α} (L : F.Laws)

/-- The packets read and written are those that the queue was given and that it gave out. -/
structure Delivers (s : Ferry Q) : Prop where
  inv : L.inv s.queue
  /-- there is always a next signal to wait for -/
  signals : s.signals.eof = false
  read : s.read = L.read s.queue
  written : s.written = L.written s.queue

/-- A write is called with output pending. -/
def Pre : Handler → Ferry Q → Prop
  | .writeSibling, s => L.pending s.queue
  | _, _ => True

/-- What may stop a ferry, failing system calls apart: a write only of an empty packet, the poller
only for a write of 2^32 packets at once. -/
def Throws (e : Stopped Q) : Prop :=
  match e.cause with
  | .write _ => [] ∈ e.ferry.read
  | .poller _ => 2 ^ 32 ≤ e.ferry.read.length
  | _ => True

variable {L} {s : Ferry Q}

theorem Delivers.order (h : Delivers L s) : s.written ++ L.held s.queue <+ s.read ∧
    (L.lossless → s.written ++ L.held s.queue = s.read) := by
  rw [h.read, h.written]
  exact L.order h.inv

theorem Delivers.readTun (h : Delivers L s) (i : Input α) :
    (∃ e, readTun F i s = .error e ∧ Throws e) ∨
    ∃ queue contents tun, readTun F i s = .ok (.Continue, { s with
        queue := queue, tun := tun, read := s.read ++ [contents] }) ∧
      tun.readCount = s.tun.readCount + 1 ∧ (L.pending s.queue → L.pending queue) ∧
      Delivers L { s with queue := queue, tun := tun, read := s.read ++ [contents] } := by
  rcases htun : s.tun.read bufferSize i.packet with e | ⟨contents, tun⟩
  · refine Or.inl ⟨{ cause := .read e, ferry := s }, ?_, trivial⟩
    rw [Ferry.readTun, htun]
  rcases hqueue : F.readPacket i.reading contents s.queue with e | queue
  · refine Or.inl ⟨{ cause := .queue e, ferry := { s with tun := tun, read := s.read ++ [contents] } },
      ?_, trivial⟩
    rw [Ferry.readTun, htun]
    dsimp only
    rw [hqueue]
  obtain ⟨hinv, hread, hwritten, hpending⟩ := L.readPacket h.inv hqueue
  refine Or.inr ⟨queue, contents, tun, ?_, ?_, hpending, hinv, h.signals, ?_, ?_⟩
  · rw [Ferry.readTun, htun]
    dsimp only
    rw [hqueue]
  · rcases hpacket : i.packet with _ | bytes
    · rw [hpacket] at htun
      cases htun
    · rw [hpacket] at htun
      cases htun
      rfl
  · change s.read ++ [contents] = L.read queue
    rw [hread, h.read]
  · exact h.written.trans hwritten.symm

theorem Delivers.writeSibling (h : Delivers L s) (hpending : L.pending s.queue) :
    (∃ e, writeSibling F s = .error e ∧ Throws e) ∨
    ∃ queue sibling packets, writeSibling F s = .ok (.Continue, { s with
        queue := queue, sibling := sibling, written := s.written ++ packets }) ∧
      (s.sibling.writeCount ≠ sibling.writeCount ∨ 2 ^ 32 ≤ s.read.length) ∧
      Delivers L { s with queue := queue, sibling := sibling, written := s.written ++ packets } := by
  obtain ⟨hinv, hread, hwritten, hheld, hne⟩ := L.writePackets h.inv
  have hsub : (F.writePackets s.queue).1 <+ s.read :=
    (hheld.trans (List.sublist_append_right _ _)).trans h.order.1
  by_cases hempty : [] ∈ (F.writePackets s.queue).1
  · exact Or.inl ⟨{ cause := .write nothingToWrite, ferry := s }, if_pos hempty, hsub.subset hempty⟩
  refine Or.inr ⟨_, s.sibling.registerWrites (F.writePackets s.queue).1.length, _, if_neg hempty,
    ?_, hinv, h.signals, h.read.trans hread.symm, ?_⟩
  · have hpos := List.length_pos_iff.2 (hne hpending)
    rcases Nat.lt_or_ge (F.writePackets s.queue).1.length (2 ^ 32) with hlt | hge
    · exact Or.inl (FileDescriptor.registerWrites_ne _ hpos hlt)
    · exact Or.inr (hge.trans hsub.length_le)
  · rw [hwritten, ← h.written]

/-- Asking whether output is pending leaves the packets where they are. -/
theorem Delivers.pendingOutput (h : Delivers L s) :
    Delivers L { s with queue := (F.pendingOutput s.queue).2 } := by
  obtain ⟨hinv, hread, hwritten, -, -⟩ := L.pendingOutput h.inv
  exact ⟨hinv, h.signals, h.read.trans hread.symm, h.written.trans hwritten.symm⟩

/-- A signal that is handled ends the loop, or it goes on. -/
theorem Delivers.readSignal (h : Delivers L s) (i : Input α) :
    (∃ e, readSignal i s = .error e ∧ Throws e) ∨
    ∃ r, readSignal i s = .ok (r, { s with
        signals := { s.signals with readCount := s.signals.readCount + 1 } }) ∧ r ≠ .Cancel ∧
      Delivers L { s with signals := { s.signals with readCount := s.signals.readCount + 1 } } := by
  rw [Ferry.readSignal]
  rcases i.handled with e | _ | _
  · exact Or.inl ⟨_, rfl, trivial⟩
  · exact Or.inr ⟨_, rfl, by rintro ⟨⟩, h.inv, h.signals, h.read, h.written⟩
  · exact Or.inr ⟨_, rfl, by rintro ⟨⟩, h.inv, h.signals, h.read, h.written⟩

/-- The preconditions of the other callbacks hold anyway. -/
theorem pre_of {s s' : Ferry Q} (h : L.pending s.queue → L.pending s'.queue) {k : Handler}
    (hk : Pre L k s) : Pre L k s' := by
  cases k with
  | writeSibling => exact h hk
  | readTun => trivial
  | finish => trivial
  | readSignal => trivial

/-- The proof outline of a ferry. -/
def outline (L : F.Laws) : (poller F).Outline where
  inv := Delivers L
  pre := Pre L
  gone _ _ := False
  throws := Throws
  nodup := by
    change [Handler.readTun, .writeSibling, .finish, .readSignal].Nodup
    decide
  ask k _ s hs := by
    cases k with
    | writeSibling =>
        obtain ⟨-, -, -, hpending, hkeeps⟩ := L.pendingOutput hs.inv
        exact ⟨hs.pendingOutput, fun hinterested _ => hpending hinterested, fun _ => pre_of hkeeps,
          fun _ h => h⟩
    | readTun => exact ⟨hs, fun _ _ => trivial, fun _ h => h, fun _ h => h⟩
    | finish => exact ⟨hs, fun _ _ => trivial, fun _ h => h, fun _ h => h⟩
    | readSignal => exact ⟨hs, fun _ _ => trivial, fun _ h => h, fun _ h => h⟩
  call k _ i s hs hk := by
    cases k with
    | readTun =>
        rcases hs.readTun i with h | ⟨queue, contents, tun, hcallback, hcount, hpending, hdelivers⟩
        · exact Or.inl h
        refine Or.inr ⟨_, _, hcallback, hdelivers, fun _ => Or.inl ?_, fun h => (by cases h),
          fun _ _ => pre_of hpending, fun _ h => h⟩
        change s.tun.readCount ≠ tun.readCount
        rw [hcount]
        exact FileDescriptor.count_ne _
    | writeSibling =>
        rcases hs.writeSibling hk with h | ⟨queue, sibling, packets, hcallback, hcount, hdelivers⟩
        · exact Or.inl h
        refine Or.inr ⟨_, _, hcallback, hdelivers, fun _ => hcount, fun h => (by cases h),
          fun k' hne _ => ?_, fun _ h => h⟩
        cases k' with
        | writeSibling => exact absurd rfl hne
        | readTun => trivial
        | finish => trivial
        | readSignal => trivial
    | finish =>
        exact Or.inr ⟨_, _, rfl, hs, fun h => absurd rfl (h 77), fun h => (by cases h),
          fun _ _ h => h, fun _ h => h⟩
    | readSignal =>
        rcases hs.readSignal i with h | ⟨r, hcallback, hcancel, hdelivers⟩
        · exact Or.inl h
        refine Or.inr ⟨_, _, hcallback, hdelivers, fun _ => Or.inl (FileDescriptor.count_ne _),
          fun h => absurd h hcancel, fun k' _ hk' => ?_, fun _ h => h⟩
        cases k' <;> exact hk'

/-- What the poller asks before it polls. -/
theorem ask_eq {active : Handler → Bool} (hactive : ∀ k, active k = true)
    (hsignals : s.signals.eof = false) :
    ((poller F).ask active (poller F).actions s).2 =
        { s with queue := (F.pendingOutput s.queue).2 } ∧
      Handler.readSignal ∈ ((poller F).ask active (poller F).actions s).1 ∧
      (.writeSibling ∈ ((poller F).ask active (poller F).actions s).1 ↔
        (F.pendingOutput s.queue).1 = true) ∧
      (.finish ∈ ((poller F).ask active (poller F).actions s).1 ↔
        F.finished (F.pendingOutput s.queue).2 = true) := by
  have hread : (poller F).askOne active .readTun s = (!s.tun.eof, s) :=
    askOne_of_active (hactive _) s
  have hwrite : (poller F).askOne active .writeSibling s =
      ((F.pendingOutput s.queue).1, { s with queue := (F.pendingOutput s.queue).2 }) := by
    rw [askOne_of_active (hactive _)]
    exact congrArg (·, _) (Bool.and_true _)
  have hfinish : ∀ s : Ferry Q, (poller F).askOne active .finish s = (F.finished s.queue, s) := by
    intro s
    rw [askOne_of_active (hactive _)]
    exact congrArg (·, s) (Bool.and_true _)
  have hsignal : ∀ s : Ferry Q, (poller F).askOne active .readSignal s = (!s.signals.eof, s) :=
    fun s => askOne_of_active (hactive _) s
  have hactions : (poller F).actions = [.readTun, .writeSibling, .finish, .readSignal] := rfl
  simp only [hactions, Poller.ask, hread, hwrite, hfinish, hsignal, hsignals, Bool.not_false, if_true]
  refine ⟨trivial, ?_, ?_, ?_⟩
  · split_ifs <;> simp
  · split_ifs <;> simp_all
  · split_ifs <;> simp_all

/-- Only the action for the end of the queue exits with 77, and only a signal with 0. -/
theorem callback_exit {k : Handler} {i : Input α} {s s' : Ferry Q} {exitStatus : UInt32}
    (h : ((poller F).action k).callback i s = .ok (.Exit exitStatus, s')) :
    exitStatus = 0 ∨ exitStatus = 77 ∧ k = .finish := by
  cases k with
  | readTun =>
      change Ferry.readTun F i s = _ at h
      rw [Ferry.readTun] at h
      split at h
      · cases h
      · dsimp only at h
        split at h <;> cases h
  | writeSibling =>
      obtain ⟨-, h⟩ := ite_error_eq_ok.1 h
      cases h
  | finish =>
      cases h
      exact Or.inr ⟨rfl, rfl⟩
  | readSignal =>
      change Ferry.readSignal i s = _ at h
      rw [Ferry.readSignal] at h
      split at h <;> cases h
      exact Or.inl rfl

/-- **A round delivers,** and its exit status says why it was the last one. -/
theorem round_spec {x : State Handler (Ferry Q)} (hx : (outline L).Holds x) (reading : α)
    (report : Option (Handler → Report (Input α))) :
    (∃ e, round F reading report x = .error e ∧ Throws e) ∨
    ∃ r x', round F reading report x = .ok (r, x') ∧ (outline L).Holds x' ∧
      ∀ exitStatus, r = .Exit exitStatus → exitStatus = 0 ∨ exitStatus = 77 ∧
        ∃ n queue, F.waitTime reading x.shared.queue = .ok (n, queue) ∧
          F.finished (F.pendingOutput queue).2 = true := by
  rcases hwait : F.waitTime reading x.shared.queue with e | ⟨n, queue⟩
  · refine Or.inl ⟨{ cause := .queue e, ferry := x.shared }, ?_, trivial⟩
    rw [round, hwait]
  obtain ⟨hinv, hread, hwritten⟩ := L.waitTime hx.inv.inv hwait
  have hwaited : Delivers L { x.shared with queue := queue } :=
    ⟨hinv, hx.inv.signals, hx.inv.read.trans hread.symm, hx.inv.written.trans hwritten.symm⟩
  have hround : round F reading report x =
      (poller F).poll report { x with shared := { x.shared with queue := queue } } := by
    rw [round, hwait]
  have hholds : (outline L).Holds { x with shared := { x.shared with queue := queue } } :=
    ⟨hwaited, fun k hk => hx.gone k hk⟩
  rcases Outline.poll hholds report with ⟨e, he, hthrows⟩ | ⟨r, x', hr, hx'⟩
  · exact Or.inl ⟨e, hround.trans he, hthrows⟩
  refine Or.inr ⟨r, x', hround.trans hr, hx', ?_⟩
  rintro exitStatus rfl
  have hactive : ∀ k, x.active k = true := fun k => Bool.of_not_eq_false fun h => hx.gone k h
  obtain ⟨-, hsignal, -, hfinish⟩ := ask_eq (F := F) (s := { x.shared with queue := queue }) hactive
    hx.inv.signals
  rw [poll_eq, if_neg (List.ne_nil_of_mem hsignal)] at hr
  cases report with
  | none => cases hr
  | some report =>
      obtain ⟨k, -, ⟨-, rfl⟩ | ⟨hk, s, s', hcallback⟩⟩ := serve_exit hr
      · exact Or.inl rfl
      rcases callback_exit hcallback with hzero | ⟨h77, rfl⟩
      · exact Or.inl hzero
      · exact Or.inr ⟨h77, n, queue, rfl, hfinish.1 hk⟩

/-- A read keeps the end of the queue. -/
theorem readTun_finished {i : Input α} {r : CallbackResult} {s' : Ferry Q} (hs : L.inv s.queue)
    (hfinished : F.finished s.queue = true) (h : Ferry.readTun F i s = .ok (r, s')) :
    L.inv s'.queue ∧ F.finished s'.queue = true ∧ (L.drained s.queue → L.drained s'.queue) := by
  rw [Ferry.readTun] at h
  split at h
  · cases h
  · dsimp only at h
    split at h
    · cases h
    · rename_i hqueue
      cases h
      exact ⟨(L.readPacket hs hqueue).1, L.drained_readPacket hs hfinished hqueue⟩

/-- **A ferry that ends with its queue has written all that the queue had to write,** if the two
entries of the sibling's device report the same. -/
theorem drained_of_exit {x x' : State Handler (Ferry Q)} (hx : (outline L).Holds x) {reading : α}
    {report : Handler → Report (Input α)}
    (hsame : (report .writeSibling).revents.ready = (report .finish).revents.ready)
    (h : round F reading (some report) x = .ok (.Exit 77, x')) : L.drained x'.shared.queue := by
  rcases hwait : F.waitTime reading x.shared.queue with e | ⟨n, queue⟩
  · rw [round, hwait] at h
    cases h
  rw [round, hwait] at h
  obtain ⟨hinv, -, -⟩ := L.waitTime hx.inv.inv hwait
  have hactive : ∀ k, x.active k = true := fun k => Bool.of_not_eq_false fun h => hx.gone k h
  obtain ⟨hasked, hsignal, hwrite, hfinish⟩ := ask_eq (F := F)
    (s := { x.shared with queue := queue }) hactive hx.inv.signals
  dsimp only at h
  rw [poll_eq, if_neg (List.ne_nil_of_mem hsignal)] at h
  dsimp only at h
  rw [hasked] at h
  -- the callbacks in turn, from the state in which the queue was asked
  set wanted := ((poller F).ask x.active (poller F).actions { x.shared with queue := queue }).1
  obtain ⟨hinv₀, -⟩ := L.pendingOutput hinv
  have hwanted : .finish ∈ wanted := by
    obtain ⟨k, -, ⟨-, h⟩ | ⟨hk, _, _, hcallback⟩⟩ := serve_exit h
    · cases h
    · rcases callback_exit hcallback with h | ⟨-, rfl⟩
      · cases h
      · exact hk
  have hfinished := hfinish.1 hwanted
  obtain ⟨x₁, hinv₁, hfinished₁, hdrained₁, h⟩ : ∃ x₁ : State Handler (Ferry Q), L.inv x₁.shared.queue ∧
      F.finished x₁.shared.queue = true ∧
      (L.drained (F.pendingOutput queue).2 → L.drained x₁.shared.queue) ∧
      (poller F).serve wanted report [.writeSibling, .finish, .readSignal] x₁ = .ok (.Exit 77, x') := by
    rcases serve_cons_ok _ h with ⟨-, h, -⟩ | ⟨-, -, h⟩ | ⟨-, -, -, r, s₁, hcallback, h⟩
    · cases h
    · exact ⟨_, hinv₀, hfinished, id, h⟩
    · obtain ⟨hinv₁, hfinished₁, hdrained₁⟩ := readTun_finished hinv₀ hfinished hcallback
      rcases h with ⟨_, rfl, hr, -⟩ | ⟨-, active, h⟩
      · cases hr
        rcases callback_exit hcallback with h | ⟨-, h⟩ <;> cases h
      · exact ⟨_, hinv₁, hfinished₁, hdrained₁, h⟩
  obtain ⟨x₂, hdrained₂, h⟩ : ∃ x₂ : State Handler (Ferry Q),
      ((report .finish).revents.ready = true → L.drained x₂.shared.queue) ∧
      (poller F).serve wanted report [.finish, .readSignal] x₂ = .ok (.Exit 77, x') := by
    rcases serve_cons_ok _ h with ⟨-, h, -⟩ | ⟨-, hnot, h⟩ | ⟨-, -, -, r, s₂, hcallback, h⟩
    · cases h
    · refine ⟨x₁, fun hready => hdrained₁ (L.drained_of_not_pending hinv ?_), h⟩
      exact Bool.eq_false_iff.2 fun hpending => hnot ⟨hsame.trans hready, hwrite.2 hpending⟩
    · obtain ⟨-, hcallback⟩ := ite_error_eq_ok.1 hcallback
      cases hcallback
      rcases h with ⟨_, h, -, -⟩ | ⟨-, active, h⟩
      · cases h
      · exact ⟨_, fun _ => L.drained_writePackets hinv₁ hfinished₁, h⟩
  rcases serve_cons_ok _ h with ⟨-, h, -⟩ | ⟨-, -, h⟩ | ⟨-, hready, -, r, s₃, hcallback, h⟩
  · cases h
  · obtain ⟨k, hk, ⟨-, h⟩ | ⟨-, _, _, hcallback⟩⟩ := serve_exit h
    · cases h
    · obtain rfl := List.mem_singleton.1 hk
      rcases callback_exit hcallback with h | ⟨-, h⟩ <;> cases h
  · cases hcallback
    rcases h with ⟨_, -, -, rfl⟩ | ⟨hcontinues, -⟩
    · exact hdrained₂ hready
    · exact absurd rfl (hcontinues 77)

/-- What holds in every state in which the loop polls. -/
theorem holds_of_run {q : Q} (hq : L.inv q) (hread : L.read q = []) (hwritten : L.written q = [])
    {events : List (α × Option (Handler → Report (Input α)))} {x : State Handler (Ferry Q)}
    (hrun : Run (Continues F) (Poller.start { queue := q }) events x) : (outline L).Holds x := by
  have hstart : (outline L).Holds (Poller.start { queue := q }) :=
    ⟨⟨hq, rfl, hread.symm, hwritten.symm⟩, fun _ h => by cases h⟩
  refine hrun.invariant (I := (outline L).Holds) (fun x e x' hx hround => ?_) hstart
  obtain ⟨r, hr, -⟩ := hround
  rcases round_spec hx e.1 e.2 with ⟨e', he', -⟩ | ⟨r', x'', hr', hx', -⟩
  · rw [hr] at he'
    cases he'
  · rw [hr] at hr'
    cases hr'
    exact hx'

end Ferry

end V2Proxy
