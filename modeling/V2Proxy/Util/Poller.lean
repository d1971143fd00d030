/-
# `Poller`

`src/util/poller.cc`: one round asks every action whether it is interested, hands the answers
to the system call `poll`, and then calls the callbacks of the actions that are ready, in the
order in which they were added.  An action that is interested when it is asked may not be any
more when its callback is called: the callbacks before it have run in between.

`Outline` is what has to be shown of the callbacks for a poller to work.  Each one has a
precondition that follows from the interest of its action and that the other callbacks keep;
then no round throws, neither from a callback nor for a busy wait, and what the callbacks keep
holds after it (`Outline.poll`).  `poll_run` is the rule for what the rounds that return have
called.

The actions are named by `κ`; their order stands for `actions_`.  `pollfds_` is left out: it
has the same descriptors in the same order.
-/

import V2Proxy.Foundations.Runs
import V2Proxy.Util.Bytes
import Mathlib.Logic.Function.Basic
import Mathlib.Data.List.Nodup

namespace V2Proxy

open Foundations

/-- What `poll` reports of one entry: the event asked for, or an error. -/
structure Revents where
  ready : Bool := false
  /-- `POLLERR | POLLHUP | POLLNVAL` -/
  hangUp : Bool := false

/-- What a poller reads of a `FileDescriptor`. -/
structure FileDescriptor where
  eof : Bool := false
  /-- an `unsigned int`, as `writeCount` -/
  readCount : UInt32 := 0
  writeCount : UInt32 := 0
deriving DecidableEq

namespace FileDescriptor

/-- `FileDescriptor::read`, with the bytes that the system call has to offer, none at the end of
the file, or nothing when it fails. -/
def read (fd : FileDescriptor) (limit : ℕ) (offered : Option Bytes) :
    Except Fault (Bytes × FileDescriptor) :=
  match offered with
  | none => .error (.unixError (ascii "read"))
  | some bytes =>
      let buffer := bytes.take (min bufferSize limit)
      .ok (buffer, { fd with eof := fd.eof || buffer = [], readCount := fd.readCount + 1 })

/-- A count that was raised once has changed, also where it wraps. -/
theorem count_ne (c : UInt32) : c ≠ c + 1 := fun h => absurd (UInt32.left_eq_add.1 h) (by decide)

/-- `register_write`. -/
def registerWrite (fd : FileDescriptor) : FileDescriptor :=
  { fd with writeCount := fd.writeCount + 1 }

/-- `register_write`, once for each of `n` writes. -/
def registerWrites (fd : FileDescriptor) (n : ℕ) : FileDescriptor :=
  { fd with writeCount := fd.writeCount + UInt32.ofNat n }

theorem registerWrites_ne (fd : FileDescriptor) {n : ℕ} (hpos : 0 < n) (hn : n < 2 ^ 32) :
    fd.writeCount ≠ (fd.registerWrites n).writeCount := by
  intro h
  have hzero := congrArg UInt32.toNat (UInt32.left_eq_add.1 h)
  rw [UInt32.toNat_ofNat', Nat.mod_eq_of_lt hn] at hzero
  exact hpos.ne' hzero

end FileDescriptor

namespace Poller

/-- `Poller::Action::PollDirection`. -/
inductive Direction
  | In
  | Out
deriving DecidableEq

/-- `Poller::Action::Result`.  The exit status is read only of an `Exit`. -/
inductive CallbackResult
  | Continue
  | Exit (exitStatus : UInt32)
  | Cancel
deriving DecidableEq

/-- `Poller::Result`. -/
inductive Result
  | Success
  | Timeout
  | Exit (exitStatus : UInt32)
deriving DecidableEq

/-- `Poller::Action`, without `active`.  The callback is given what its system calls return. -/
structure Action (F σ ι ε : Type) where
  fd : F
  direction : Direction
  callback : ι → σ → Except ε (CallbackResult × σ)
  whenInterested : σ → Bool × σ := fun s => (true, s)

/-- What a poller throws for a callback that has not used its descriptor. -/
def busyWait : Fault :=
  .runtimeError (ascii "Poller: busy wait detected: callback did not read/write fd")

/-- What `poll` reports of an action, and what the system calls of its callback return. -/
structure Report (ι : Type) where
  revents : Revents
  input : ι

/-- What a round starts from: which actions are `active`, and what the callbacks share. -/
structure State (κ σ : Type) where
  active : κ → Bool
  shared : σ

end Poller

open Poller

/-- The actions of a poller, and where in the state of its callbacks the descriptors are.  An
exception of the poller is one of type `ε`. -/
structure Poller (κ F σ ι ε : Type) where
  actions : List κ
  action : κ → Action F σ ι ε
  descriptor : F → σ → FileDescriptor
  throwing : Fault → σ → ε

namespace Poller

variable {κ F σ ι ε : Type} (P : Poller κ F σ ι ε)

/-- The descriptor of an action. -/
def descriptorOf (k : κ) (s : σ) : FileDescriptor := P.descriptor (P.action k).fd s

/-- `Poller::Action::service_count`. -/
def serviceCount (k : κ) (s : σ) : UInt32 :=
  match (P.action k).direction with
  | .In => (P.descriptorOf k s).readCount
  | .Out => (P.descriptorOf k s).writeCount

/-- There is no polling in on descriptors that have had EOF. -/
def hadEof (k : κ) (s : σ) : Bool := (P.action k).direction = .In && (P.descriptorOf k s).eof

/-- One action is asked. -/
def askOne (active : κ → Bool) (k : κ) (s : σ) : Bool × σ :=
  if active k then
    let (interested, s) := (P.action k).whenInterested s
    (interested && !P.hadEof k s, s)
  else (false, s)

/-- The first loop of `poll`: the actions that have events to poll for. -/
def ask (active : κ → Bool) : List κ → σ → List κ × σ
  | [], s => ([], s)
  | k :: ks, s =>
      let (polled, s) := P.askOne active k s
      let (rest, s) := ask active ks s
      (if polled then k :: rest else rest, s)

/-- The second loop of `poll`: the callbacks of the actions that are ready. -/
def serve [DecidableEq κ] (wanted : List κ) (report : κ → Report ι) :
    List κ → State κ σ → Except ε (Result × State κ σ)
  | [], s => .ok (.Success, s)
  | k :: ks, s =>
      if (report k).revents.hangUp then .ok (.Exit 0, s)
      else if (report k).revents.ready ∧ k ∈ wanted then do
        let (result, shared) ← (P.action k).callback (report k).input s.shared
        match result with
        | .Exit exitStatus => .ok (.Exit exitStatus, { s with shared := shared })
        | _ =>
          if P.serviceCount k s.shared = P.serviceCount k shared then
            .error (P.throwing busyWait shared)
          else
            let active := if result = .Cancel then Function.update s.active k false else s.active
            serve wanted report ks { active := active, shared := shared }
      else serve wanted report ks s

/-- `Poller::poll`, with what the system call reports, or nothing when it times out. -/
def poll [DecidableEq κ] (report : Option (κ → Report ι)) (s : State κ σ) :
    Except ε (Result × State κ σ) :=
  let (wanted, shared) := P.ask s.active P.actions s.shared
  if wanted = [] then .ok (.Exit 0, { s with shared := shared })
  else
    match report with
    | none => .ok (.Timeout, { s with shared := shared })
    | some report => P.serve wanted report P.actions { s with shared := shared }

/-- A new poller: every action is active. -/
def start (s : σ) : State κ σ := { active := fun _ => true, shared := s }

/-- A round after which `poll` is called again. -/
def Continues [DecidableEq κ] (s : State κ σ) (report : Option (κ → Report ι)) (s' : State κ σ) : Prop :=
  ∃ r, P.poll report s = .ok (r, s') ∧ ∀ exitStatus, r ≠ .Exit exitStatus

section Rules

variable {P} {ks : List κ}

theorem askOne_of_active {active : κ → Bool} {k : κ} (h : active k = true) (s : σ) :
    P.askOne active k s = (((P.action k).whenInterested s).1 &&
      !P.hadEof k ((P.action k).whenInterested s).2, ((P.action k).whenInterested s).2) :=
  if_pos h

theorem askOne_of_not_active {active : κ → Bool} {k : κ} (h : ¬ active k = true) (s : σ) :
    P.askOne active k s = (false, s) :=
  if_neg h

/-- Actions that only answer are chosen by their answers. -/
theorem ask_eq_filter {active : κ → Bool} {s : σ} {w : κ → Bool}
    (h : ∀ k ∈ ks, P.askOne active k s = (w k, s)) : P.ask active ks s = (ks.filter w, s) := by
  induction ks with
  | nil => rfl
  | cons k ks ih =>
      rw [ask, h k List.mem_cons_self]
      dsimp only
      rw [ih fun k' hk' => h k' (List.mem_cons_of_mem k hk'), List.filter_cons]

variable [DecidableEq κ] {wanted : List κ} {report : κ → Report ι} {s s' : State κ σ} {r : Result}

theorem poll_eq (report : Option (κ → Report ι)) : P.poll report s =
    if (P.ask s.active P.actions s.shared).1 = [] then
      .ok (.Exit 0, { s with shared := (P.ask s.active P.actions s.shared).2 })
    else
      match report with
      | none => .ok (.Timeout, { s with shared := (P.ask s.active P.actions s.shared).2 })
      | some report => P.serve (P.ask s.active P.actions s.shared).1 report P.actions
          { s with shared := (P.ask s.active P.actions s.shared).2 } := rfl

theorem serve_cons (k : κ) : P.serve wanted report (k :: ks) s =
    if (report k).revents.hangUp then .ok (.Exit 0, s)
    else if (report k).revents.ready ∧ k ∈ wanted then
      (P.action k).callback (report k).input s.shared >>= fun out =>
        match out.1 with
        | .Exit exitStatus => .ok (.Exit exitStatus, { s with shared := out.2 })
        | _ =>
          if P.serviceCount k s.shared = P.serviceCount k out.2 then
            .error (P.throwing busyWait out.2)
          else
            P.serve wanted report ks
              { active := if out.1 = .Cancel then Function.update s.active k false else s.active
                shared := out.2 }
    else P.serve wanted report ks s := rfl

/-- **What an entry does when the round goes on:** its callback is called, or it is not ready. -/
theorem serve_cons_ok (k : κ) (h : P.serve wanted report (k :: ks) s = .ok (r, s')) :
    ((report k).revents.hangUp = true ∧ r = .Exit 0 ∧ s' = s) ∨
    ((report k).revents.hangUp = false ∧ ¬ ((report k).revents.ready = true ∧ k ∈ wanted) ∧
      P.serve wanted report ks s = .ok (r, s')) ∨
    ((report k).revents.hangUp = false ∧ (report k).revents.ready = true ∧ k ∈ wanted ∧
      ∃ result shared,
      (P.action k).callback (report k).input s.shared = .ok (result, shared) ∧
      ((∃ exitStatus, result = .Exit exitStatus ∧ r = .Exit exitStatus ∧
          s' = { s with shared := shared }) ∨
        (∀ exitStatus, result ≠ .Exit exitStatus) ∧
          ∃ active, P.serve wanted report ks { active := active, shared := shared } = .ok (r, s'))) := by
  rw [serve_cons] at h
  by_cases hhang : (report k).revents.hangUp = true
  · rw [if_pos hhang] at h
    cases h
    exact Or.inl ⟨hhang, rfl, rfl⟩
  rw [if_neg hhang] at h
  rw [Bool.not_eq_true] at hhang
  by_cases hready : (report k).revents.ready ∧ k ∈ wanted
  · rw [if_pos hready] at h
    obtain ⟨⟨result, shared⟩, hcallback, h⟩ := bind_eq_ok.1 h
    refine Or.inr (Or.inr ⟨hhang, hready.1, hready.2, result, shared, hcallback, ?_⟩)
    cases result with
    | Exit exitStatus =>
        cases h
        exact Or.inl ⟨exitStatus, rfl, rfl, rfl⟩
    | Continue =>
        obtain ⟨-, h⟩ := ite_error_eq_ok.1 h
        exact Or.inr ⟨fun _ h => (by cases h), _, h⟩
    | Cancel =>
        obtain ⟨-, h⟩ := ite_error_eq_ok.1 h
        exact Or.inr ⟨fun _ h => (by cases h), _, h⟩
  · rw [if_neg hready] at h
    exact Or.inr (Or.inl ⟨hhang, hready, h⟩)

/-- A round ends the loop only for an error on a descriptor, or because a callback says so. -/
theorem serve_exit {exitStatus : UInt32}
    (h : P.serve wanted report ks s = .ok (.Exit exitStatus, s')) :
    ∃ k ∈ ks, ((report k).revents.hangUp = true ∧ exitStatus = 0) ∨ (k ∈ wanted ∧ ∃ s s',
      (P.action k).callback (report k).input s = .ok (.Exit exitStatus, s')) := by
  induction ks generalizing s with
  | nil => cases h
  | cons k ks ih =>
      rcases serve_cons_ok k h with
        ⟨hhang, hr, -⟩ | ⟨-, -, h⟩ | ⟨-, -, hk, result, shared, hcallback, h⟩
      · cases hr
        exact ⟨k, List.mem_cons_self, Or.inl ⟨hhang, rfl⟩⟩
      · obtain ⟨k', hk', hexit⟩ := ih h
        exact ⟨k', List.mem_cons_of_mem k hk', hexit⟩
      · rcases h with ⟨_, rfl, hr, -⟩ | ⟨-, active, h⟩
        · cases hr
          exact ⟨k, List.mem_cons_self, Or.inr ⟨hk, _, _, hcallback⟩⟩
        · obtain ⟨k', hk', hexit⟩ := ih h
          exact ⟨k', List.mem_cons_of_mem k hk', hexit⟩

/-- An error on a descriptor ends the loop. -/
theorem serve_of_hangUp (hhang : ∃ k ∈ ks, (report k).revents.hangUp = true)
    (h : P.serve wanted report ks s = .ok (r, s')) : ∃ exitStatus, r = .Exit exitStatus := by
  induction ks generalizing s with
  | nil => exact absurd hhang.choose_spec.1 List.not_mem_nil
  | cons k ks ih =>
      have hrest : (report k).revents.hangUp = false →
          ∃ k ∈ ks, (report k).revents.hangUp = true := by
        obtain ⟨k', hk', hhang⟩ := hhang
        rintro hfalse
        rcases List.mem_cons.1 hk' with rfl | hk'
        · rw [hhang] at hfalse
          cases hfalse
        · exact ⟨k', hk', hhang⟩
      rcases serve_cons_ok k h with ⟨-, rfl, -⟩ | ⟨hno, -, h⟩ | ⟨hno, -, -, _, _, -, h⟩
      · exact ⟨0, rfl⟩
      · exact ih (hrest hno) h
      · rcases h with ⟨exitStatus, -, rfl, -⟩ | ⟨-, active, h⟩
        · exact ⟨exitStatus, rfl⟩
        · exact ih (hrest hno) h

end Rules

/-- What a callback does that is called under its precondition. -/
structure Serves (inv : σ → Prop) (pre gone : κ → σ → Prop) (throws : ε → Prop) (k : κ) (s : σ)
    (r : CallbackResult) (s' : σ) : Prop where
  inv : inv s'
  /-- the descriptor is read or written, or a busy wait may be thrown -/
  serves : (∀ exitStatus, r ≠ .Exit exitStatus) →
    P.serviceCount k s ≠ P.serviceCount k s' ∨ throws (P.throwing busyWait s')
  cancel : r = .Cancel → gone k s'
  /-- the other actions are not disturbed -/
  pre : ∀ k', k' ≠ k → pre k' s → pre k' s'
  gone : ∀ k', gone k' s → gone k' s'

/-- What asking an action does. -/
structure Asks (inv : σ → Prop) (pre gone : κ → σ → Prop) (k : κ) (s : σ) (interested : Bool)
    (s' : σ) : Prop where
  inv : inv s'
  wanted : interested = true → P.hadEof k s' = false → pre k s'
  pre : ∀ k', pre k' s → pre k' s'
  gone : ∀ k', gone k' s → gone k' s'

/-- A proof outline of a poller: an invariant, the preconditions of the callbacks, what holds once
an action is cancelled, and the exceptions that the callbacks may throw. -/
structure Outline where
  inv : σ → Prop
  pre : κ → σ → Prop
  gone : κ → σ → Prop
  throws : ε → Prop
  nodup : P.actions.Nodup
  ask : ∀ k ∈ P.actions, ∀ s, inv s →
    P.Asks inv pre gone k s ((P.action k).whenInterested s).1 ((P.action k).whenInterested s).2
  call : ∀ k ∈ P.actions, ∀ i s, inv s → pre k s →
    (∃ e, (P.action k).callback i s = .error e ∧ throws e) ∨
      ∃ r s', (P.action k).callback i s = .ok (r, s') ∧ P.Serves inv pre gone throws k s r s'

namespace Outline

variable {P} (O : P.Outline) {s : State κ σ}

/-- What holds between two rounds. -/
structure Holds (s : State κ σ) : Prop where
  inv : O.inv s.shared
  gone : ∀ k, s.active k = false → O.gone k s.shared

/-- A loop or a round throws what the callbacks may throw, or returns to where the outline
holds. -/
def Leaves (out : Except ε (Result × State κ σ)) : Prop :=
  (∃ e, out = .error e ∧ O.throws e) ∨ ∃ r s', out = .ok (r, s') ∧ O.Holds s'

variable {O}

/-- **The first loop finds the preconditions of the actions it chooses.** -/
theorem ask_spec {active : κ → Bool} {ks : List κ} (hks : ∀ k ∈ ks, k ∈ P.actions) {s : σ}
    (hs : O.inv s) : O.inv (P.ask active ks s).2 ∧
      (∀ k ∈ (P.ask active ks s).1, O.pre k (P.ask active ks s).2) ∧
      (∀ k, O.pre k s → O.pre k (P.ask active ks s).2) ∧
      ∀ k, O.gone k s → O.gone k (P.ask active ks s).2 := by
  induction ks generalizing s with
  | nil => exact ⟨hs, fun _ h => absurd h List.not_mem_nil, fun _ h => h, fun _ h => h⟩
  | cons k ks ih =>
      have hks' : ∀ k ∈ ks, k ∈ P.actions := fun k' hk' => hks k' (List.mem_cons_of_mem k hk')
      have hk := O.ask k (hks k List.mem_cons_self) s hs
      obtain ⟨hinv, hwanted, hpre, hgone⟩ : O.inv (P.askOne active k s).2 ∧
          ((P.askOne active k s).1 = true → O.pre k (P.askOne active k s).2) ∧
          (∀ k', O.pre k' s → O.pre k' (P.askOne active k s).2) ∧
          ∀ k', O.gone k' s → O.gone k' (P.askOne active k s).2 := by
        by_cases hactive : active k = true
        · rw [askOne_of_active hactive]
          refine ⟨hk.inv, fun h => ?_, hk.pre, hk.gone⟩
          obtain ⟨hinterested, heof⟩ := Bool.and_eq_true_iff.1 h
          rw [Bool.not_eq_true'] at heof
          exact hk.wanted hinterested heof
        · rw [askOne_of_not_active hactive]
          exact ⟨hs, fun h => (by cases h), fun _ h => h, fun _ h => h⟩
      obtain ⟨ihinv, ihwanted, ihpre, ihgone⟩ := ih hks' hinv
      refine ⟨ihinv, fun k' hk' => ?_, fun k' h => ihpre k' (hpre k' h),
        fun k' h => ihgone k' (hgone k' h)⟩
      rw [Poller.ask] at hk'
      dsimp only at hk'
      split_ifs at hk' with hpolled
      · rcases List.mem_cons.1 hk' with rfl | hk'
        · exact ihpre k' (hwanted hpolled)
        · exact ihwanted k' hk'
      · exact ihwanted k' hk'

variable [DecidableEq κ]

/-- **The second loop finds no action idle,** because a callback that has not been called yet still
has its precondition. -/
theorem serve {wanted ks : List κ} {report : κ → Report ι} (hnodup : ks.Nodup)
    (hks : ∀ k ∈ ks, k ∈ P.actions) (hpre : ∀ k ∈ ks, k ∈ wanted → O.pre k s.shared)
    (hs : O.Holds s) : O.Leaves (P.serve wanted report ks s) := by
  induction ks generalizing s with
  | nil => exact Or.inr ⟨_, _, rfl, hs⟩
  | cons k ks ih =>
      obtain ⟨hk, hnodup⟩ := List.nodup_cons.1 hnodup
      have hks' : ∀ k ∈ ks, k ∈ P.actions := fun k' hk' => hks k' (List.mem_cons_of_mem k hk')
      rw [serve_cons]
      split_ifs with hhang hready
      · exact Or.inr ⟨_, _, rfl, hs⟩
      · rcases O.call k (hks k List.mem_cons_self) (report k).input s.shared hs.inv
          (hpre k List.mem_cons_self hready.2) with
          ⟨e, hcallback, he⟩ | ⟨result, shared, hcallback, hserves⟩
        · rw [hcallback]
          exact Or.inl ⟨e, rfl, he⟩
        rw [hcallback, ok_bind]
        have hrest : ∀ active : κ → Bool, (∀ k', active k' = false → O.gone k' shared) →
            O.Leaves (P.serve wanted report ks { active := active, shared := shared }) := by
          intro active hactive
          refine ih hnodup hks' (fun k' hk' hwanted => ?_) ⟨hserves.inv, hactive⟩
          refine hserves.pre k' ?_ (hpre k' (List.mem_cons_of_mem k hk') hwanted)
          rintro rfl
          exact hk hk'
        have hgone : ∀ k', s.active k' = false → O.gone k' shared :=
          fun k' hk' => hserves.gone k' (hs.gone k' hk')
        cases result with
        | Exit exitStatus => exact Or.inr ⟨_, _, rfl, hserves.inv, hgone⟩
        | Continue =>
            dsimp only
            by_cases hcount : P.serviceCount k s.shared = P.serviceCount k shared
            · rw [if_pos hcount]
              exact Or.inl ⟨_, rfl, (hserves.serves fun _ h => by cases h).resolve_left (· hcount)⟩
            · rw [if_neg hcount]
              exact hrest _ hgone
        | Cancel =>
            dsimp only
            by_cases hcount : P.serviceCount k s.shared = P.serviceCount k shared
            · rw [if_pos hcount]
              exact Or.inl ⟨_, rfl, (hserves.serves fun _ h => by cases h).resolve_left (· hcount)⟩
            rw [if_neg hcount, if_pos rfl]
            refine hrest _ fun k' hk' => ?_
            by_cases heq : k' = k
            · exact heq ▸ hserves.cancel rfl
            · rw [Function.update_of_ne heq] at hk'
              exact hgone k' hk'
      · exact ih hnodup hks' (fun k' hk' => hpre k' (List.mem_cons_of_mem k hk')) hs

/-- **A poller with a proof outline throws only what its callbacks may throw,** and the outline
holds after every round that returns. -/
theorem poll (hs : O.Holds s) (report : Option (κ → Report ι)) : O.Leaves (P.poll report s) := by
  obtain ⟨hinv, hwanted, -, hgone⟩ : O.inv (P.ask s.active P.actions s.shared).2 ∧ _ :=
    O.ask_spec (fun _ h => h) hs.inv
  have hasked : O.Holds { s with shared := (P.ask s.active P.actions s.shared).2 } :=
    ⟨hinv, fun k hk => hgone k (hs.gone k hk)⟩
  rw [poll_eq]
  split_ifs
  · exact Or.inr ⟨_, _, rfl, hasked⟩
  · cases report with
    | none => exact Or.inr ⟨_, _, rfl, hasked⟩
    | some report => exact serve O.nodup (fun _ h => h) (fun k _ hk => hwanted k hk) hasked

theorem holds_of_poll {report : Option (κ → Report ι)} {s' : State κ σ} {r : Result}
    (hs : O.Holds s) (h : P.poll report s = .ok (r, s')) : O.Holds s' := by
  rcases poll hs report with ⟨e, he, -⟩ | ⟨r', s'', hr', hs''⟩
  · rw [h] at he
    cases he
  · rw [h] at hr'
    cases hr'
    exact hs''

/-- **The outline holds in every state in which `poll` is called.** -/
theorem holds_of_run {reports : List (Option (κ → Report ι))} {s' : State κ σ} (hs : O.Holds s)
    (hrun : Run P.Continues s reports s') : O.Holds s' := by
  refine hrun.invariant (I := O.Holds) (fun s report s' hs hnext => ?_) hs
  obtain ⟨r, hr, -⟩ := hnext
  exact holds_of_poll hs hr

end Outline

end Poller

end V2Proxy
