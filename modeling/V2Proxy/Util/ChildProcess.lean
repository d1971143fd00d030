/-
# `ChildProcess`

`src/util/child_process.cc`: a handle on a child, which learns what became of it by
`waitid`.  The kernel keeps one change of state for each child until it is waited for: a
later one takes its place, and none follows the end of the process.

How a child is started, signalled and destroyed is not modelled, nor are the answers of
`waitid` that its documentation excludes.
-/

import V2Proxy.Util.Ezio

namespace V2Proxy

open Foundations

/-- How a child changed its state: `si_code` and `si_status`. -/
inductive Change
  | exited (status : ℤ)
  | killed (signal : ℤ)
  | dumped (signal : ℤ)
  | stopped
  | continued
deriving DecidableEq

/-- The status of a child that has ended. -/
def Change.status : Change → Option ℤ
  | .exited status => some status
  | .killed signal => some signal
  | .dumped signal => some signal
  | .stopped => none
  | .continued => none

structure ChildProcess where
  name : Bytes
  running : Bool := true
  terminated : Bool := false
  exitStatus : ℤ := 0
  diedOnSignal : Bool := false
  /-- the kernel's: the change that `waitid` reports -/
  change : Option Change := none
  /-- the kernel's: the process has ended -/
  gone : Bool := false
deriving DecidableEq

namespace ChildProcess

/-- `ChildProcess::waitable`. -/
def waitable (p : ChildProcess) : Except Fault Bool := do
  assert (p.terminated = false) "!terminated_"
  return p.change.isSome

/-- The process has changed its state as `waitid` reports. -/
def record (p : ChildProcess) : Change → ChildProcess
  | .exited status => { p with change := none, terminated := true, exitStatus := status }
  | .killed signal =>
      { p with change := none, terminated := true, exitStatus := signal, diedOnSignal := true }
  | .dumped signal =>
      { p with change := none, terminated := true, exitStatus := signal, diedOnSignal := true }
  | .stopped => { p with change := none, running := false }
  | .continued => { p with change := none, running := true }

/-- `ChildProcess::wait( true )`. -/
def wait (p : ChildProcess) : Except Fault ChildProcess := do
  assert (p.terminated = false) "!terminated_"
  match p.change with
  | some change => return p.record change
  | none => .error (.runtimeError (ascii "nonblocking wait: process was not waitable"))

/-- `ChildProcess::exit_status`. -/
def getExitStatus (p : ChildProcess) : Except Fault ℤ := do
  assert (p.terminated = true) "terminated_"
  return p.exitStatus

/-- `ChildProcess::throw_exception`. -/
def throwException (p : ChildProcess) : Fault :=
  .runtimeError (ascii "`" ++ p.name ++ ascii "': process " ++
    (if p.diedOnSignal then ascii "died on signal " else ascii "exited with failure status ") ++
    toDecimal p.exitStatus)

/-- The kernel's side of a change of state. -/
def changeState (p : ChildProcess) (change : Change) : ChildProcess :=
  { p with change := some change, gone := change.status.isSome }

theorem waitable_eq {p : ChildProcess} (h : p.terminated = false) :
    p.waitable = .ok p.change.isSome := by
  rw [waitable, assert_of h]
  rfl

theorem getExitStatus_eq {p : ChildProcess} (h : p.terminated = true) :
    p.getExitStatus = .ok p.exitStatus := by
  rw [getExitStatus, assert_of h]
  rfl

/-- There is a change that is not recorded. -/
def Unhandled (p : ChildProcess) : Prop := p.terminated = false ∧ p.change ≠ none

instance (p : ChildProcess) : Decidable p.Unhandled :=
  inferInstanceAs (Decidable (p.terminated = false ∧ p.change ≠ none))

/-- The process has ended with a status that is not recorded. -/
def EndedWith (p : ChildProcess) (status : ℤ) : Prop :=
  p.terminated = false ∧ ∃ change, p.change = some change ∧ change.status = some status

theorem EndedWith.unhandled {p : ChildProcess} {status : ℤ} (h : p.EndedWith status) :
    p.Unhandled := by
  obtain ⟨hterminated, change, hchange, -⟩ := h
  refine ⟨hterminated, ?_⟩
  rw [hchange]
  exact Option.some_ne_none _

/-- **What `wait` does to a child that has ended:** its status is recorded. -/
theorem EndedWith.wait {p : ChildProcess} {status : ℤ} (h : p.EndedWith status) :
    ∃ p', p.wait = .ok p' ∧ p'.terminated = true ∧ p'.exitStatus = status := by
  obtain ⟨hterminated, change, hchange, hstatus⟩ := h
  rw [ChildProcess.wait, assert_of hterminated, ok_bind, hchange]
  cases change with
  | exited s =>
      cases hstatus
      exact ⟨_, rfl, rfl, rfl⟩
  | killed s =>
      cases hstatus
      exact ⟨_, rfl, rfl, rfl⟩
  | dumped s =>
      cases hstatus
      exact ⟨_, rfl, rfl, rfl⟩
  | stopped => cases hstatus
  | continued => cases hstatus

/-- **What `wait` does to a child that goes on:** its change is recorded. -/
theorem wait_of_not_ended {p : ChildProcess} (h : p.Unhandled) (hend : ∀ status, ¬ p.EndedWith status) :
    ∃ p', p.wait = .ok p' ∧ p'.terminated = false ∧ p'.change = none ∧ p'.gone = p.gone := by
  obtain ⟨hterminated, hchange⟩ := h
  obtain ⟨change, hchange⟩ := Option.ne_none_iff_exists'.1 hchange
  have hstatus : ∀ status, change.status ≠ some status := fun status hstatus =>
    hend status ⟨hterminated, change, hchange, hstatus⟩
  rw [ChildProcess.wait, assert_of hterminated, ok_bind, hchange]
  cases change with
  | exited s => exact absurd rfl (hstatus s)
  | killed s => exact absurd rfl (hstatus s)
  | dumped s => exact absurd rfl (hstatus s)
  | stopped => exact ⟨_, rfl, hterminated, rfl, rfl⟩
  | continued => exact ⟨_, rfl, hterminated, rfl, rfl⟩

end ChildProcess

end V2Proxy
