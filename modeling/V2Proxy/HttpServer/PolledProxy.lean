/-
# The thread of a connection as a client of `Poller`

`HTTPProxy.poll` describes a round of `HTTPProxy::loop` for the four actions that the source
adds to its `Poller`.  Here the same callbacks and interests are given to the model of
`src/util/poller.cc` itself, with the descriptors and the counts of their reads and writes.

Every round of that poller is the round that `HTTPProxy.poll` describes (`poller_refines`): it
throws what a callback throws and leaves what `HTTPProxy.poll` leaves, no action is ever
cancelled, and the exception for a busy wait is never thrown, since each callback reads or
writes its descriptor once.
-/

import V2Proxy.HttpServer.HTTPProxy

namespace V2Proxy

open Foundations Poller

namespace HTTPProxy

/-- The sockets of a connection. -/
inductive Socket
  | server
  | client

/-- The four actions, in the order in which they are added. -/
inductive Handler
  | serverIn
  | clientIn
  | serverOut
  | clientOut
deriving DecidableEq

/-- What the callbacks share, with the counts of the descriptors. -/
structure Served where
  proxy : HTTPProxy
  serverReads : UInt32 := 0
  serverWrites : UInt32 := 0
  clientReads : UInt32 := 0
  clientWrites : UInt32 := 0

/-- What a callback does, with what its read returns. -/
def handle : Handler → Bytes → HTTPProxy → Except Thrown HTTPProxy
  | .serverIn, buffer, s => serverIn buffer s
  | .clientIn, buffer, s => clientIn buffer s
  | .serverOut, _, s => throwing s.list s.serverOut
  | .clientOut, _, s => throwing s.list s.clientOut

/-- The descriptor of an action is read or written once. -/
def Served.count (s : Served) : Handler → Served
  | .serverIn => { s with serverReads := s.serverReads + 1 }
  | .clientIn => { s with clientReads := s.clientReads + 1 }
  | .serverOut => { s with serverWrites := s.serverWrites + 1 }
  | .clientOut => { s with clientWrites := s.clientWrites + 1 }

/-- The callback of an action.  An exception leaves what was done to the resource list. -/
def callback (k : Handler) (buffer : Bytes) (s : Served) :
    Except (HTTPProxy ⊕ Fault) (CallbackResult × Served) :=
  match handle k buffer s.proxy with
  | .error t => .error (.inl { s.proxy with list := t.list, status := .died t.fault })
  | .ok proxy => .ok (.Continue, { s with proxy := proxy }.count k)

/-- The poller of `HTTPProxy::loop`. -/
def poller : Poller Handler Socket Served Bytes (HTTPProxy ⊕ Fault) where
  actions := [.serverIn, .clientIn, .serverOut, .clientOut]
  action
    | .serverIn => {
        fd := .server
        direction := .In
        callback := callback .serverIn
        whenInterested := fun s => (!s.proxy.clientEof, s) }
    | .clientIn => {
        fd := .client
        direction := .In
        callback := callback .clientIn
        whenInterested := fun s => (!s.proxy.serverEof, s) }
    | .serverOut => {
        fd := .server
        direction := .Out
        callback := callback .serverOut
        whenInterested := fun s => (!s.proxy.requestParser.empty, s) }
    | .clientOut => {
        fd := .client
        direction := .Out
        callback := callback .clientOut
        whenInterested := fun s => (!s.proxy.responseParser.empty, s) }
  descriptor
    | .server, s => {
        eof := s.proxy.serverEof
        readCount := s.serverReads
        writeCount := s.serverWrites }
    | .client, s => {
        eof := s.proxy.clientEof
        readCount := s.clientReads
        writeCount := s.clientWrites }
  throwing e _ := .inr e

/-- What a round reports of an action. -/
def reported (p : Polled) : Handler → Report Bytes
  | .serverIn => { revents := p.serverIn, input := p.serverBuffer }
  | .clientIn => { revents := p.clientIn, input := p.clientBuffer }
  | .serverOut => { revents := p.serverOut, input := [] }
  | .clientOut => { revents := p.clientOut, input := [] }

/-- The interest in an action. -/
def Interest.of (i : Interest) : Handler → Bool
  | .serverIn => i.serverIn
  | .clientIn => i.clientIn
  | .serverOut => i.serverOut
  | .clientOut => i.clientOut

/-- The entry of an action. -/
def entry (i : Interest) (p : Polled) (s : HTTPProxy) (k : Handler) : HTTPProxy :=
  s.act (reported p k).revents (i.of k) (handle k (reported p k).input)

/-- Every action is active, and the thread is running. -/
structure Polls (x : Poller.State Handler Served) : Prop where
  active : ∀ k, x.active k = true
  running : x.shared.proxy.status = .running

/-- What `poll` leaves is what the thread is left with. -/
def Leaves : Except (HTTPProxy ⊕ Fault) (Result × Poller.State Handler Served) → HTTPProxy → Prop
  | .error (.inl e), s => s = e ∧ s.status ≠ .running
  | .error (.inr _), _ => False
  | .ok (.Exit _, x), s => s = { x.shared.proxy with status := .exited }
  | .ok (_, x), s => s = x.shared.proxy ∧ Polls x

variable {s s' : HTTPProxy} {x x' : Poller.State Handler Served} {p : Polled} {k : Handler}

/-- A callback that returns leaves the thread running. -/
theorem handle_status {buffer : Bytes} (h : handle k buffer s = .ok s') : s'.status = s.status := by
  cases k with
  | serverIn =>
      obtain ⟨list, responseParser, -, -, rfl⟩ := serverIn_eq_ok h
      rfl
  | clientIn =>
      obtain ⟨text, list, -, ⟨-, h⟩ | ⟨-, h⟩⟩ := clientIn_eq_ok h
      · obtain ⟨requestParser, -, rfl⟩ := pass_eq_ok h
        rfl
      · obtain ⟨request, requestParser, canned, responseParser, -, -, -, rfl⟩ := spoof_eq_ok h
        rfl
  | serverOut =>
      obtain ⟨request, requestParser, -, rfl⟩ := serverOut_eq_ok (throwing_eq_ok.1 h)
      rfl
  | clientOut =>
      obtain ⟨response, responseParser, -, rfl⟩ := clientOut_eq_ok (throwing_eq_ok.1 h)
      rfl

/-- Every callback that returns has used its descriptor. -/
theorem serviceCount_count (k : Handler) (s : Served) (proxy : HTTPProxy) :
    poller.serviceCount k s ≠ poller.serviceCount k ({ s with proxy := proxy }.count k) := by
  cases k <;> exact FileDescriptor.count_ne _

/-- A thread that does not run any more ignores the rest of a round. -/
theorem foldl_entry_of_not_running {i : Interest} {ks : List Handler} (h : s.status ≠ .running) :
    ks.foldl (entry i p) s = s := by
  induction ks with
  | nil => rfl
  | cons k ks ih =>
      have hentry : entry i p s k = s := by
        rw [entry, act, calls, decide_eq_false h, Bool.false_and, Bool.false_and,
          if_neg Bool.false_ne_true, if_neg fun h' => h h'.1]
      rw [List.foldl_cons, hentry, ih]

/-- **The second loop of `poll` goes through the entries of `HTTPProxy.poll`.** -/
theorem serve_refines {i : Interest} {wanted ks : List Handler}
    (hwanted : ∀ k, k ∈ wanted ↔ i.of k = true) (hx : Polls x) :
    Leaves (poller.serve wanted (reported p) ks x) (ks.foldl (entry i p) x.shared.proxy) := by
  induction ks generalizing x with
  | nil => exact ⟨rfl, hx⟩
  | cons k ks ih =>
      rw [serve_cons, List.foldl_cons]
      by_cases hhang : (reported p k).revents.hangUp = true
      · have hentry : entry i p x.shared.proxy k = { x.shared.proxy with status := .exited } := by
          rw [entry, act, calls, hhang, Bool.not_true, Bool.and_false, Bool.false_and,
            if_neg Bool.false_ne_true, if_pos ⟨hx.running, rfl⟩]
        rw [if_pos hhang, hentry, foldl_entry_of_not_running (by rintro ⟨⟩)]
        rfl
      rw [if_neg hhang]
      rw [Bool.not_eq_true] at hhang
      have hcalls : x.shared.proxy.calls (reported p k).revents (i.of k) = true ↔
          (reported p k).revents.ready = true ∧ k ∈ wanted := by
        rw [calls, hhang, decide_eq_true hx.running, Bool.not_false, Bool.true_and, Bool.true_and,
          Bool.and_eq_true, hwanted]
      by_cases hready : (reported p k).revents.ready = true ∧ k ∈ wanted
      · have hcallback : (poller.action k).callback (reported p k).input x.shared =
            callback k (reported p k).input x.shared := by
          cases k <;> rfl
        rw [if_pos hready, entry, act, if_pos (hcalls.2 hready), hcallback, callback]
        rcases hhandle : handle k (reported p k).input x.shared.proxy with t | s'
        · dsimp only
          rw [foldl_entry_of_not_running (by rintro ⟨⟩)]
          exact ⟨rfl, by rintro ⟨⟩⟩
        · dsimp only
          rw [ok_bind]
          dsimp only
          rw [if_neg (serviceCount_count k _ s'), if_neg (by rintro ⟨⟩)]
          have hproxy : ({ x.shared with proxy := s' }.count k).proxy = s' := by
            cases k <;> rfl
          have hpolls : Polls { active := x.active, shared := { x.shared with proxy := s' }.count k } :=
            ⟨hx.active, by rw [hproxy, handle_status hhandle, hx.running]⟩
          have hrest := ih hpolls
          rw [hproxy] at hrest
          exact hrest
      · rw [if_neg hready, entry, act, if_neg (mt hcalls.1 hready), hhang,
          if_neg fun h => Bool.false_ne_true h.2]
        exact ih hx

/-- The first loop of `poll` finds the interest of `HTTPProxy.poll`. -/
theorem ask_eq (hx : Polls x) : poller.ask x.active poller.actions x.shared =
    (poller.actions.filter x.shared.proxy.interest.of, x.shared) := by
  refine ask_eq_filter fun k _ => ?_
  rw [askOne_of_active (hx.active k)]
  cases k with
  | serverIn => rfl
  | clientIn => rfl
  | serverOut => exact congrArg (·, x.shared) (Bool.and_true _)
  | clientOut => exact congrArg (·, x.shared) (Bool.and_true _)

theorem mem_filter_interest (i : Interest) (k : Handler) :
    k ∈ poller.actions.filter i.of ↔ i.of k = true := by
  have hk : k ∈ poller.actions := by cases k <;> decide
  rw [List.mem_filter, and_iff_right hk]

/-- **A round of the poller is the round of `HTTPProxy.poll`.** -/
theorem poll_refines (hx : Polls x) (p : Polled) :
    Leaves (poller.poll (some (reported p)) x) (x.shared.proxy.poll p) := by
  rw [poll_eq, ask_eq hx, HTTPProxy.poll, if_neg (not_not.2 hx.running)]
  have hnone : poller.actions.filter x.shared.proxy.interest.of = [] ↔
      x.shared.proxy.interest.none = true := by
    rw [Interest.none, Bool.not_eq_true', Bool.or_eq_false_iff, Bool.or_eq_false_iff,
      Bool.or_eq_false_iff, List.filter_eq_nil_iff]
    constructor
    · intro h
      have hk : ∀ k ∈ poller.actions, x.shared.proxy.interest.of k = false :=
        fun k hk => Bool.eq_false_iff.2 (h k hk)
      exact ⟨⟨⟨hk .serverIn (by decide), hk .clientIn (by decide)⟩, hk .serverOut (by decide)⟩,
        hk .clientOut (by decide)⟩
    · rintro ⟨⟨⟨hserverIn, hclientIn⟩, hserverOut⟩, hclientOut⟩ k - hk
      cases k with
      | serverIn => exact Bool.false_ne_true (hserverIn.symm.trans hk)
      | clientIn => exact Bool.false_ne_true (hclientIn.symm.trans hk)
      | serverOut => exact Bool.false_ne_true (hserverOut.symm.trans hk)
      | clientOut => exact Bool.false_ne_true (hclientOut.symm.trans hk)
  by_cases hempty : x.shared.proxy.interest.none = true
  · rw [if_pos hempty, if_pos (hnone.2 hempty)]
    rfl
  · rw [if_neg hempty, if_neg (mt hnone.1 hempty)]
    exact serve_refines (mem_filter_interest _) hx

/-- A round that goes on leaves the thread running, where `HTTPProxy.poll` does. -/
theorem continues_refines (hx : Polls x) (h : poller.Continues x (some (reported p)) x') :
    Polls x' ∧ x'.shared.proxy = x.shared.proxy.poll p := by
  obtain ⟨r, hr, hcontinues⟩ := h
  have hleaves := poll_refines hx p
  rw [hr] at hleaves
  cases r with
  | Exit exitStatus => exact absurd rfl (hcontinues exitStatus)
  | Success => exact ⟨hleaves.2, hleaves.1.symm⟩
  | Timeout => exact ⟨hleaves.2, hleaves.1.symm⟩

/-- Where `HTTPProxy.poll` leaves the thread running, the poller goes on. -/
theorem continues_of_running (hx : Polls x) (h : (x.shared.proxy.poll p).status = .running) :
    ∃ x', poller.Continues x (some (reported p)) x' := by
  have hleaves := poll_refines hx p
  rcases hr : poller.poll (some (reported p)) x with (e | e) | ⟨r, x'⟩
  · rw [hr] at hleaves
    exact absurd h hleaves.2
  · rw [hr] at hleaves
    exact hleaves.elim
  · refine ⟨x', r, hr, ?_⟩
    rintro exitStatus rfl
    rw [hr] at hleaves
    have hstatus := congrArg HTTPProxy.status (show x.shared.proxy.poll p = _ from hleaves)
    rw [h] at hstatus
    cases hstatus

/-- A thread that does not run any more stays where it is. -/
theorem eq_of_run_of_not_running {rounds : List Polled}
    (h : Run (fun s p s' => s' = HTTPProxy.poll s p) s rounds s') (hs : s.status ≠ .running) :
    s' = s := by
  refine h.invariant (I := (· = s)) (fun s₁ p s₂ hs₁ hs₂ => ?_) rfl
  rw [hs₂, hs₁, HTTPProxy.poll, if_pos hs]

theorem run_refines {rounds : List Polled} (hx : Polls x)
    (hrun : Run poller.Continues x (rounds.map fun p => some (reported p)) x') :
    Polls x' ∧ Run (fun s p s' => s' = HTTPProxy.poll s p) x.shared.proxy rounds x'.shared.proxy := by
  induction rounds generalizing x with
  | nil =>
      obtain rfl := Run.nil_iff.1 hrun
      exact ⟨hx, .nil _⟩
  | cons p rounds ih =>
      obtain ⟨x₁, hround, hrun⟩ := Run.cons_iff.1 hrun
      obtain ⟨hx₁, hproxy⟩ := continues_refines hx hround
      obtain ⟨hx', hrun'⟩ := ih hx₁ hrun
      exact ⟨hx', .cons hproxy hrun'⟩

theorem run_of_running {rounds : List Polled} (hx : Polls x)
    (hrun : Run (fun s p s' => s' = HTTPProxy.poll s p) x.shared.proxy rounds s)
    (hs : s.status = .running) :
    ∃ x', Run poller.Continues x (rounds.map fun p => some (reported p)) x' ∧ x'.shared.proxy = s := by
  induction rounds generalizing x with
  | nil => exact ⟨x, .nil x, Run.nil_iff.1 hrun⟩
  | cons p rounds ih =>
      obtain ⟨s₁, rfl, hrun⟩ := Run.cons_iff.1 hrun
      have hrunning : (x.shared.proxy.poll p).status = .running := by
        by_contra hnot
        rw [eq_of_run_of_not_running hrun hnot] at hs
        exact hnot hs
      obtain ⟨x₁, hround⟩ := continues_of_running hx hrunning
      obtain ⟨hx₁, hproxy⟩ := continues_refines hx hround
      rw [← hproxy] at hrun
      obtain ⟨x', hrun', hs'⟩ := ih hx₁ hrun
      exact ⟨x', .cons hround hrun', hs'⟩

/-- **`HTTPProxy.poll` is `Poller::poll`.**  The rounds of the poller that go on lead where those
of `HTTPProxy.poll` lead, and in every state that they reach the next round, whatever it meets,
leaves what `HTTPProxy.poll` leaves: it throws what a callback threw, and never for a busy wait.
Conversely, rounds of `HTTPProxy.poll` after which the thread runs are rounds of the poller. -/
theorem poller_refines (list : CloudResourceList) (rounds : List Polled) :
    (∀ x, Run poller.Continues (Poller.start { proxy := start list })
        (rounds.map fun p => some (reported p)) x →
      Run (fun s p s' => s' = HTTPProxy.poll s p) (start list) rounds x.shared.proxy ∧
        x.shared.proxy.status = .running ∧
        ∀ p, Leaves (poller.poll (some (reported p)) x) (x.shared.proxy.poll p)) ∧
    ∀ s, Run (fun s p s' => s' = HTTPProxy.poll s p) (start list) rounds s → s.status = .running →
      ∃ x, Run poller.Continues (Poller.start { proxy := start list })
        (rounds.map fun p => some (reported p)) x ∧ x.shared.proxy = s := by
  have hstart : Polls (Poller.start { proxy := start list }) := ⟨fun _ => rfl, rfl⟩
  constructor
  · intro x hrun
    obtain ⟨hx, hrun'⟩ := run_refines hstart hrun
    exact ⟨hrun', hx.running, poll_refines hx⟩
  · intro s hrun hs
    exact run_of_running hstart hrun hs

end HTTPProxy

end V2Proxy
