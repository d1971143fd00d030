/-
# `EventLoop`

`src/util/event_loop.cc`: a program that waits for its children.  A `SIGCHLD` says that
some of them have changed their state, not how many, so `handle_signal` looks at all of
them.

It stops looking at the first one that has ended, and goes on with the loop if that one
ended with its continue status.  What the children after it did is then never read,
unless there is another `SIGCHLD` (`Skips`); in every other case nothing is left behind
(`leavesNothing_iff`), and the loop ends with the last of its children
(`ends_of_not_skips`).

That the parent suspends itself with a child (`raise( SIGSTOP )`) and resumes the children
after it (`SIGCONT`) does not touch what is modelled.
-/

import V2Proxy.Foundations.Runs
import V2Proxy.Util.ChildProcess

namespace V2Proxy

open Foundations

/-- The signals that the loop reads. -/
inductive Signal
  | SIGCHLD
  | SIGCONT
  | SIGHUP
  | SIGTERM
  | SIGQUIT
  | SIGINT
deriving DecidableEq

/-- `ResultType`. -/
inductive ResultType
  | Exit
  | Continue
deriving DecidableEq

/-- An entry of `child_processes_`: the continue status and the process. -/
abbrev Managed : Type := ℤ × ChildProcess

namespace EventLoop

/-- What `handle_signal` does about a child that has ended. -/
def ended (before : List Managed) (continueStatus : ℤ) (proc : ChildProcess)
    (after : List Managed) : Except Fault (ResultType × List Managed) := do
  let status ← proc.getExitStatus
  if status ≠ 0 ∧ status ≠ continueStatus then .error proc.throwException
  else
    let childProcesses := before ++ (continueStatus, proc) :: after
    -- quit if all children have quit
    if childProcesses.all fun x => x.2.terminated then return (.Exit, childProcesses)
    else return (if status = continueStatus then .Continue else .Exit, childProcesses)

/-- The loop over `child_processes_`, with those it has been over. -/
def search (before : List Managed) : List Managed → Except Fault (ResultType × List Managed)
  | [] => return (.Continue, before)
  | (continueStatus, proc) :: rest =>
      if proc.terminated then search (before ++ [(continueStatus, proc)]) rest
      else do
        if (← proc.waitable) = false then search (before ++ [(continueStatus, proc)]) rest
        else
          let proc ← proc.wait
          if proc.terminated then ended before continueStatus proc rest
          else search (before ++ [(continueStatus, proc)]) rest

/-- `EventLoop::handle_signal`. -/
def handleSignal (childProcesses : List Managed) :
    Signal → Except Fault (ResultType × List Managed)
  | .SIGCONT => return (.Continue, childProcesses)
  | .SIGCHLD =>
      if childProcesses = [] then
        .error (.runtimeError (ascii "received SIGCHLD without any managed children"))
      else search [] childProcesses
  | .SIGHUP => return (.Exit, childProcesses)
  | .SIGTERM => return (.Exit, childProcesses)
  | .SIGQUIT => return (.Exit, childProcesses)
  | .SIGINT => return (.Exit, childProcesses)

/-! ### What the loop over the children does -/

/-- The process as the loop leaves it, if it goes on. -/
structure Settled (p p' : Managed) : Prop where
  continueStatus : p'.1 = p.1
  terminated : p'.2.terminated = p.2.terminated
  handled : ¬ p'.2.Unhandled
  gone : p'.2.gone = p.2.gone

/-- No child has ended without a record of it. -/
def NoneEnded (children : List Managed) : Prop :=
  ∀ p ∈ children, ∀ status, ¬ ChildProcess.EndedWith p.2 status

/-- A child that has not ended is looked at, and the loop goes on. -/
theorem search_cons {p : Managed} (hend : ∀ status, ¬ ChildProcess.EndedWith p.2 status) :
    ∃ p', Settled p p' ∧
      ∀ before rest, search before (p :: rest) = search (before ++ [p']) rest := by
  obtain ⟨continueStatus, proc⟩ := p
  by_cases hterminated : proc.terminated = true
  · refine ⟨(continueStatus, proc), ⟨rfl, rfl, fun h => ?_, rfl⟩, fun before rest => ?_⟩
    · rw [h.1] at hterminated
      cases hterminated
    · rw [search, if_pos hterminated]
  have hfalse : proc.terminated = false := Bool.eq_false_iff.2 hterminated
  rcases hchange : proc.change with _ | change
  · refine ⟨(continueStatus, proc), ⟨rfl, rfl, fun h => h.2 hchange, rfl⟩, fun before rest => ?_⟩
    rw [search, if_neg hterminated, ChildProcess.waitable_eq hfalse, ok_bind, hchange,
      Option.isSome_none, if_pos rfl]
  · have hunhandled : proc.Unhandled := ⟨hfalse, by rw [hchange]; exact Option.some_ne_none _⟩
    obtain ⟨proc', hwait, hterminated', hnone, hgone⟩ :=
      ChildProcess.wait_of_not_ended hunhandled hend
    refine ⟨(continueStatus, proc'), ⟨rfl, hterminated'.trans hfalse.symm, fun h => h.2 hnone, hgone⟩,
      fun before rest => ?_⟩
    rw [search, if_neg hterminated, ChildProcess.waitable_eq hfalse, ok_bind, hchange,
      Option.isSome_some, if_neg (by decide), hwait, ok_bind, hterminated', if_neg (by decide)]

/-- A child that has ended is where the loop stops. -/
theorem search_ended {p : Managed} {status : ℤ} (hend : p.2.EndedWith status)
    (before rest : List Managed) :
    ∃ proc, proc.terminated = true ∧ proc.exitStatus = status ∧
      search before (p :: rest) = ended before p.1 proc rest := by
  obtain ⟨continueStatus, proc⟩ := p
  obtain ⟨proc', hwait, hterminated, hstatus⟩ := hend.wait
  have hfalse : proc.terminated = false := hend.1
  have hsome : proc.change.isSome = true := by
    obtain ⟨change, hchange, -⟩ := hend.2
    have hchange' : proc.change = some change := hchange
    rw [hchange']
    rfl
  refine ⟨proc', hterminated, hstatus, ?_⟩
  rw [search, hfalse, if_neg (by decide), ChildProcess.waitable_eq hfalse, ok_bind, hsome,
    if_neg (by decide), hwait, ok_bind, hterminated, if_pos rfl]

/-- **As long as no child has ended, the loop goes on,** and leaves nothing unhandled. -/
theorem search_append {children : List Managed} (h : NoneEnded children) (before : List Managed) :
    ∃ l, List.Forall₂ Settled children l ∧
      ∀ rest, search before (children ++ rest) = search (before ++ l) rest := by
  induction children generalizing before with
  | nil => exact ⟨[], .nil, fun rest => by rw [List.append_nil]; rfl⟩
  | cons p children ih =>
      obtain ⟨hp, hchildren⟩ := List.forall_mem_cons.1 h
      obtain ⟨p', hsettled, hcons⟩ := search_cons hp
      obtain ⟨l, hl, heq⟩ := ih hchildren (before ++ [p'])
      refine ⟨p' :: l, .cons hsettled hl, fun rest => ?_⟩
      rw [List.cons_append, hcons, heq, List.append_assoc]
      rfl

/-- Either no child has ended, or there is a first one that has. -/
theorem first_ended (children : List Managed) :
    NoneEnded children ∨ ∃ before p after status, children = before ++ p :: after ∧
      NoneEnded before ∧ ChildProcess.EndedWith p.2 status := by
  induction children with
  | nil => exact Or.inl fun _ h => absurd h List.not_mem_nil
  | cons p children ih =>
      by_cases hend : ∃ status, p.2.EndedWith status
      · obtain ⟨status, hend⟩ := hend
        exact Or.inr ⟨[], p, children, status, rfl, fun _ h => absurd h List.not_mem_nil, hend⟩
      · have hnot : ∀ status, ¬ p.2.EndedWith status := fun status h => hend ⟨status, h⟩
        rcases ih with hnone | ⟨before, q, after, status, rfl, hbefore, hq⟩
        · exact Or.inl (List.forall_mem_cons.2 ⟨hnot, hnone⟩)
        · exact Or.inr ⟨p :: before, q, after, status, rfl,
            List.forall_mem_cons.2 ⟨hnot, hbefore⟩, hq⟩

/-- The search when no child has ended. -/
theorem search_of_noneEnded {children : List Managed} (h : NoneEnded children) :
    ∃ l, List.Forall₂ Settled children l ∧ search [] children = .ok (.Continue, l) := by
  obtain ⟨l, hl, hsearch⟩ := search_append h []
  refine ⟨l, hl, ?_⟩
  have heq := hsearch []
  rw [List.append_nil, List.nil_append] at heq
  rw [heq, search]
  rfl

/-- The search when a child has ended: what is done about the first one. -/
theorem search_of_ended {before : List Managed} {p : Managed} {status : ℤ}
    (hbefore : NoneEnded before) (hp : p.2.EndedWith status) (after : List Managed) :
    ∃ l proc, List.Forall₂ Settled before l ∧ proc.terminated = true ∧ proc.exitStatus = status ∧
      search [] (before ++ p :: after) = ended l p.1 proc after := by
  obtain ⟨l, hl, hsearch⟩ := search_append hbefore []
  obtain ⟨proc, hterminated, hstatus, heq⟩ := search_ended hp l after
  exact ⟨l, proc, hl, hterminated, hstatus, by rw [hsearch, List.nil_append, heq]⟩

/-! ### What a call leaves behind -/

/-- The call returns `Exit`, or throws, or leaves no child that is not recorded as
terminated and still waitable. -/
def LeavesNothing (children : List Managed) : Prop :=
  match handleSignal children .SIGCHLD with
  | .error _ => True
  | .ok (.Exit, _) => True
  | .ok (.Continue, children') => ∀ p ∈ children', ¬ ChildProcess.Unhandled p.2

/-- The first child that has ended did so with its continue status, and one behind it has
changed its state as well. -/
def Skips (children : List Managed) : Prop :=
  ∃ before p after, children = before ++ p :: after ∧ NoneEnded before ∧
    ChildProcess.EndedWith p.2 p.1 ∧ ∃ q ∈ after, ChildProcess.Unhandled q.2

theorem not_unhandled_of_settled {children l : List Managed} (h : List.Forall₂ Settled children l) :
    ∀ p ∈ l, ¬ ChildProcess.Unhandled p.2 := by
  induction h with
  | nil => exact fun _ h => absurd h List.not_mem_nil
  | cons hp _ ih => exact List.forall_mem_cons.2 ⟨hp.handled, ih⟩

/-- What is done about a child that has ended with its continue status, when others
have not. -/
theorem ended_continue {l after : List Managed} {continueStatus : ℤ} {proc : ChildProcess}
    (hterminated : proc.terminated = true) (hstatus : proc.exitStatus = continueStatus)
    (hsome : ∃ q ∈ l ++ (continueStatus, proc) :: after, q.2.terminated = false) :
    ended l continueStatus proc after = .ok (.Continue, l ++ (continueStatus, proc) :: after) := by
  have hall : (l ++ (continueStatus, proc) :: after).all (fun x => x.2.terminated) = false := by
    obtain ⟨q, hq, hfalse⟩ := hsome
    exact List.all_eq_false.2 ⟨q, hq, by rw [hfalse]; decide⟩
  rw [ended, ChildProcess.getExitStatus_eq hterminated, ok_bind, if_neg fun h => h.2 hstatus]
  dsimp only
  rw [hall, if_neg (by decide), if_pos hstatus]
  rfl

/-- The other ways: an exception, the end, or nobody is left. -/
theorem ended_cases {l after l' : List Managed} {continueStatus : ℤ} {proc : ChildProcess}
    (hterminated : proc.terminated = true)
    (h : ended l continueStatus proc after = .ok (.Continue, l')) :
    proc.exitStatus = continueStatus ∧ l' = l ++ (continueStatus, proc) :: after ∧
      ∃ q ∈ l', q.2.terminated = false := by
  rw [ended, ChildProcess.getExitStatus_eq hterminated, ok_bind] at h
  dsimp only at h
  split_ifs at h with hthrow hall hcontinue
  · cases h
  · cases h
    refine ⟨hcontinue, rfl, ?_⟩
    obtain ⟨q, hq, hfalse⟩ := List.all_eq_false.1 (Bool.eq_false_iff.2 hall)
    exact ⟨q, hq, Bool.eq_false_iff.2 hfalse⟩
  · cases h

/-- **A call leaves nothing behind just if it skips nothing.** -/
theorem leavesNothing_iff (children : List Managed) : LeavesNothing children ↔ ¬ Skips children := by
  rw [LeavesNothing, handleSignal]
  constructor
  · rintro h ⟨before, p, after, rfl, hbefore, hp, q, hq, hunhandled⟩
    obtain ⟨l, proc, hl, hterminated, hstatus, hsearch⟩ := search_of_ended hbefore hp after
    have hmem : q ∈ l ++ (p.1, proc) :: after := by simp [hq]
    rw [if_neg (by simp), hsearch, ended_continue hterminated hstatus ⟨q, hmem, hunhandled.1⟩] at h
    exact h q hmem hunhandled
  · intro hskips
    by_cases hempty : children = []
    · rw [if_pos hempty]
      trivial
    rw [if_neg hempty]
    rcases first_ended children with hnone | ⟨before, p, after, status, rfl, hbefore, hp⟩
    · obtain ⟨l, hl, hsearch⟩ := search_of_noneEnded hnone
      rw [hsearch]
      exact not_unhandled_of_settled hl
    · obtain ⟨l, proc, hl, hterminated, hstatus, hsearch⟩ :=
        search_of_ended hbefore hp after
      rw [hsearch]
      rcases hended : ended l p.1 proc after with e | ⟨_ | _, l'⟩
      · trivial
      · trivial
      · obtain ⟨hcontinue, rfl, -⟩ := ended_cases hterminated hended
        rw [← hstatus, hcontinue] at hp
        intro q hq hunhandled
        rcases List.mem_append.1 hq with hq | hq
        · exact not_unhandled_of_settled hl q hq hunhandled
        rcases List.mem_cons.1 hq with rfl | hq
        · rw [hunhandled.1] at hterminated
          cases hterminated
        · exact hskips ⟨before, p, after, rfl, hbefore, hp, q, hq, hunhandled⟩

end EventLoop

/-! ### Runs of the loop -/

/-- Whether `internal_loop` goes on, has returned or has thrown. -/
inductive LoopStatus
  | running
  | exited
  | threw (fault : Fault)

/-- The loop: its children, whether a `SIGCHLD` is pending, and whether it goes on.
Signals of one number coalesce. -/
structure EventLoop where
  childProcesses : List Managed
  sigchld : Bool := false
  status : LoopStatus := .running

namespace EventLoop

/-- What happens: a child changes its state, the loop reads a signal, or it ends by
another of its actions. -/
inductive Happens
  | changes (change : Change)
  | reads (signal : Signal)
  | ends

/-- The loop once it has handled a signal. -/
def handled (s : EventLoop) (signal : Signal) : EventLoop :=
  let sigchld := if signal = .SIGCHLD then false else s.sigchld
  match handleSignal s.childProcesses signal with
  | .error fault => { s with sigchld := sigchld, status := .threw fault }
  | .ok (.Exit, childProcesses) =>
      { childProcesses := childProcesses, sigchld := sigchld, status := .exited }
  | .ok (.Continue, childProcesses) =>
      { childProcesses := childProcesses, sigchld := sigchld, status := s.status }

/-- The steps of the loop and of its children. -/
inductive Step : EventLoop → Happens → EventLoop → Prop
  | changes (before after : List Managed) (p : Managed) (change : Change) (sigchld : Bool)
      (status : LoopStatus) (hgone : p.2.gone = false) :
      Step { childProcesses := before ++ p :: after, sigchld := sigchld, status := status }
        (.changes change)
        { childProcesses := before ++ (p.1, p.2.changeState change) :: after, sigchld := true,
          status := status }
  | reads (s : EventLoop) (signal : Signal) (hrunning : s.status = .running)
      (hpending : signal = .SIGCHLD → s.sigchld = true) : Step s (.reads signal) (s.handled signal)
  | ends (s : EventLoop) (hrunning : s.status = .running) :
      Step s .ends { s with status := .exited }

/-- The loop as it starts, with children of given names and continue statuses. -/
def start (children : List (ℤ × Bytes)) : EventLoop where
  childProcesses := children.map fun c => (c.1, { name := c.2 })

/-- Every child has ended, and every `SIGCHLD` has been handled. -/
structure AllDone (s : EventLoop) : Prop where
  some : s.childProcesses ≠ []
  gone : ∀ p ∈ s.childProcesses, p.2.gone = true
  handled : s.sigchld = false

/-- What holds as long as the loop goes on: a change that is not recorded has a signal
pending, a child that has ended without a record still shows it, and there is one to wait
for. -/
structure Waiting (s : EventLoop) : Prop where
  pending : ∀ p ∈ s.childProcesses, ChildProcess.Unhandled p.2 → s.sigchld = true
  shows : ∀ p ∈ s.childProcesses, p.2.terminated = false → p.2.gone = true →
    ∃ status, ChildProcess.EndedWith p.2 status
  one : s.childProcesses ≠ [] → ∃ p ∈ s.childProcesses, p.2.terminated = false

theorem waiting_start (children : List (ℤ × Bytes)) : (start children).Waiting := by
  have hfresh : ∀ p ∈ (start children).childProcesses,
      p.2.terminated = false ∧ p.2.change = none ∧ p.2.gone = false := by
    intro p hp
    obtain ⟨c, -, rfl⟩ := List.mem_map.1 hp
    exact ⟨rfl, rfl, rfl⟩
  refine ⟨fun p hp h => absurd (hfresh p hp).2.1 h.2, fun p hp _ hgone => ?_, fun hne => ?_⟩
  · rw [(hfresh p hp).2.2] at hgone
    cases hgone
  · obtain ⟨p, l, heq⟩ := List.exists_cons_of_ne_nil hne
    have hp : p ∈ (start children).childProcesses := by simp [heq]
    exact ⟨p, hp, (hfresh p hp).1⟩

/-- **A change of a child keeps what holds.** -/
theorem Waiting.changes {before after : List Managed} {p : Managed} {sigchld : Bool}
    {status : LoopStatus}
    (h : Waiting { childProcesses := before ++ p :: after, sigchld := sigchld, status := status })
    (change : Change) : Waiting { childProcesses := before ++ (p.1, p.2.changeState change) :: after,
                                  sigchld := true, status := status } := by
  have hold : ∀ q ∈ before ++ (p.1, p.2.changeState change) :: after,
      q ∈ before ++ p :: after ∨ q = (p.1, p.2.changeState change) := by
    intro q hq
    simp only [List.mem_append, List.mem_cons] at hq ⊢
    tauto
  refine ⟨fun _ _ _ => rfl, fun q hq hterminated hgone => ?_, fun _ => ?_⟩
  · rcases hold q hq with hq | rfl
    · exact h.shows q hq hterminated hgone
    · obtain ⟨status, hstatus⟩ := Option.isSome_iff_exists.1 hgone
      exact ⟨status, hterminated, change, rfl, hstatus⟩
  · obtain ⟨q, hq, hterminated⟩ := h.one (by simp)
    simp only [List.mem_append, List.mem_cons] at hq
    rcases hq with hq | rfl | hq
    · exact ⟨q, by simp [hq], hterminated⟩
    · exact ⟨(q.1, q.2.changeState change), by simp, hterminated⟩
    · exact ⟨q, by simp [hq], hterminated⟩

/-- The children before and after the loop has gone over them. -/
theorem settled_mem {children l : List Managed} (hl : List.Forall₂ Settled children l) :
    (∀ q ∈ l, ∃ p ∈ children, Settled p q) ∧ ∀ p ∈ children, ∃ q ∈ l, Settled p q := by
  induction hl with
  | nil => exact ⟨fun _ h => absurd h List.not_mem_nil, fun _ h => absurd h List.not_mem_nil⟩
  | cons h _ ih =>
      refine ⟨List.forall_mem_cons.2 ⟨⟨_, List.mem_cons_self, h⟩, fun q hq => ?_⟩,
        List.forall_mem_cons.2 ⟨⟨_, List.mem_cons_self, h⟩, fun p hp => ?_⟩⟩
      · obtain ⟨p, hp, hsettled⟩ := ih.1 q hq
        exact ⟨p, List.mem_cons_of_mem _ hp, hsettled⟩
      · obtain ⟨q, hq, hsettled⟩ := ih.2 p hp
        exact ⟨q, List.mem_cons_of_mem _ hq, hsettled⟩

/-- What a child shows, it shows after the loop has gone over it. -/
theorem settled_shows {children l : List Managed} (hl : List.Forall₂ Settled children l)
    (hnone : NoneEnded children)
    (h : ∀ p ∈ children, p.2.terminated = false → p.2.gone = true →
      ∃ status, ChildProcess.EndedWith p.2 status) :
    ∀ p ∈ l, p.2.terminated = false → p.2.gone = true →
      ∃ status, ChildProcess.EndedWith p.2 status := by
  intro p hp hterminated hgone
  obtain ⟨q, hq, hsettled⟩ := (settled_mem hl).1 p hp
  rw [hsettled.terminated] at hterminated
  rw [hsettled.gone] at hgone
  obtain ⟨status, hend⟩ := h q hq hterminated hgone
  exact absurd hend (hnone q hq status)

/-- **A `SIGCHLD` that skips nothing keeps what holds,** if the loop goes on. -/
theorem Waiting.handled {s : EventLoop} (h : s.Waiting) (hskips : ¬ Skips s.childProcesses)
    {children' : List Managed}
    (heq : handleSignal s.childProcesses .SIGCHLD = .ok (.Continue, children')) :
    Waiting { childProcesses := children', sigchld := false, status := s.status } := by
  have hnothing := (leavesNothing_iff s.childProcesses).2 hskips
  rw [LeavesNothing, heq] at hnothing
  have hpending : ∀ p ∈ children', ChildProcess.Unhandled p.2 → false = true := fun p hp hunhandled =>
    absurd hunhandled (hnothing p hp)
  rw [handleSignal] at heq
  split_ifs at heq with hempty
  rcases first_ended s.childProcesses with hnone | ⟨before, p, after, status, hsplit, hbefore, hp⟩
  · obtain ⟨l, hl, hsearch⟩ := search_of_noneEnded hnone
    rw [hsearch] at heq
    cases heq
    refine ⟨hpending, settled_shows hl hnone h.shows, fun _ => ?_⟩
    obtain ⟨p, hp, hterminated⟩ := h.one hempty
    obtain ⟨q, hq, hsettled⟩ := (settled_mem hl).2 p hp
    exact ⟨q, hq, hsettled.terminated.trans hterminated⟩
  · obtain ⟨l, proc, hl, hterminated, hstatus, hsearch⟩ :=
      search_of_ended hbefore hp after
    rw [hsplit, hsearch] at heq
    obtain ⟨-, rfl, hone⟩ := ended_cases hterminated heq
    refine ⟨hpending, fun q hq hq' hgone => ?_, fun _ => hone⟩
    have hshows := h.shows
    rw [hsplit] at hshows
    rcases List.mem_append.1 hq with hq | hq
    · exact settled_shows hl hbefore (fun r hr => hshows r (by simp [hr])) q hq hq' hgone
    rcases List.mem_cons.1 hq with rfl | hq
    · rw [hq'] at hterminated
      cases hterminated
    · exact hshows q (by simp [hq]) hq' hgone

/-- What holds in a run that skips nothing. -/
theorem waiting_of_run {children : List (ℤ × Bytes)} {events : List Happens} {s : EventLoop}
    (hrun : Run (fun s e s' => Step s e s' ∧ (e = .reads .SIGCHLD → ¬ Skips s.childProcesses))
      (start children) events s) : s.status = .running → s.Waiting := by
  refine hrun.invariant (I := fun s => s.status = .running → s.Waiting) ?_
    (fun _ => waiting_start children)
  rintro s e s' ih ⟨hstep, hskips⟩ hrunning
  cases hstep with
  | changes before after p change sigchld status hgone => exact (ih hrunning).changes change
  | ends hs => cases hrunning
  | reads _ signal hs hpending =>
      cases signal with
      | SIGCHLD =>
          rw [EventLoop.handled] at hrunning ⊢
          rcases heq : handleSignal s.childProcesses .SIGCHLD with fault | ⟨_ | _, children'⟩
          · rw [heq] at hrunning
            cases hrunning
          · rw [heq] at hrunning
            cases hrunning
          · exact (ih hs).handled (hskips rfl) heq
      | SIGCONT => exact ih hs
      | SIGHUP => cases hrunning
      | SIGTERM => cases hrunning
      | SIGQUIT => cases hrunning
      | SIGINT => cases hrunning

/-- **A call leaves nothing behind just if it skips nothing, and a run of calls that skip
nothing has ended** once every child has ended and every `SIGCHLD` has been handled. -/
theorem ends_of_not_skips (children : List Managed) :
    (LeavesNothing children ↔ ¬ Skips children) ∧
    ∀ (started : List (ℤ × Bytes)) (events : List Happens) (s : EventLoop),
      Run (fun s e s' => Step s e s' ∧ (e = .reads .SIGCHLD → ¬ Skips s.childProcesses))
        (start started) events s → s.AllDone → ¬ s.status = .running := by
  refine ⟨leavesNothing_iff children, fun started events s hrun hdone hrunning => ?_⟩
  have hwaiting := waiting_of_run hrun hrunning
  obtain ⟨p, hp, hterminated⟩ := hwaiting.one hdone.some
  obtain ⟨status, hend⟩ := hwaiting.shows p hp hterminated (hdone.gone p hp)
  have hpending := hwaiting.pending p hp hend.unhandled
  rw [hdone.handled] at hpending
  cases hpending

/-- A child of a `PacketShell`, which ends with its continue status. -/
def ferry (name : Bytes) (change : Option Change) : Managed :=
  (77, { name := name, change := change, gone := change.isSome })

/-- A child whose end is recorded. -/
def reaped (name : Bytes) : Managed :=
  (77, { name := name, terminated := true, exitStatus := 77, gone := true })

/-- The children of a `PacketShell`. -/
def packetShell : List (ℤ × Bytes) := [(77, ascii "packetshell"), (77, ascii "downlink")]

/-- The two children end one after the other, and the loop with them. -/
theorem ends_of_not_skips_packetShell :
    ∃ events s, Run (fun s e s' => Step s e s' ∧ (e = .reads .SIGCHLD → ¬ Skips s.childProcesses))
      (start packetShell) events s ∧ s.AllDone ∧ ¬ s.status = .running := by
  obtain ⟨s, hs⟩ : ∃ s : EventLoop, s =
      { childProcesses := [reaped (ascii "packetshell"), reaped (ascii "downlink")],
        status := .exited } := ⟨_, rfl⟩
  have hrun : Run (fun s e s' => Step s e s' ∧ (e = .reads .SIGCHLD → ¬ Skips s.childProcesses))
      (start packetShell)
      [.changes (.exited 77), .reads .SIGCHLD, .changes (.exited 77), .reads .SIGCHLD] s := by
    refine .cons ⟨.changes [] [ferry (ascii "downlink") none] (ferry (ascii "packetshell") none)
      (.exited 77) false .running rfl, fun h => by cases h⟩ ?_
    refine .cons ⟨.reads _ .SIGCHLD rfl fun _ => rfl, fun _ => ?_⟩ ?_
    · refine (leavesNothing_iff _).1 ?_
      change ∀ p ∈ [reaped (ascii "packetshell"), ferry (ascii "downlink") none],
        ¬ ChildProcess.Unhandled p.2
      decide
    refine .cons ⟨.changes [reaped (ascii "packetshell")] [] (ferry (ascii "downlink") none)
      (.exited 77) false .running rfl, fun h => by cases h⟩ ?_
    refine .cons ⟨.reads _ .SIGCHLD rfl fun _ => rfl, fun _ => ?_⟩ ?_
    · exact (leavesNothing_iff _).1 trivial
    · rw [hs]
      exact .nil _
  have hdone : s.AllDone := by
    rw [hs]
    exact ⟨by decide, by decide, by decide⟩
  exact ⟨_, s, hrun, hdone, (ends_of_not_skips []).2 _ _ _ hrun hdone⟩

/-- **A `SIGCHLD` for two leaves one behind:** both children of a `PacketShell` end before
it is read, and the loop goes on for ever. -/
theorem skips_downlink :
    ¬ LeavesNothing [ferry (ascii "packetshell") (some (.exited 77)),
        ferry (ascii "downlink") (some (.exited 77))] ∧
      ∃ events s, Run Step (start packetShell) events s ∧ s.AllDone ∧ s.status = .running := by
  refine ⟨fun h => ?_, ?_⟩
  · rw [leavesNothing_iff] at h
    exact h ⟨[], _, _, rfl, fun _ h => absurd h List.not_mem_nil, ⟨rfl, _, rfl, rfl⟩,
      _, List.mem_singleton_self _, by decide⟩
  · have hrun : Run Step (start packetShell)
        [.changes (.exited 77), .changes (.exited 77), .reads .SIGCHLD]
        { childProcesses := [reaped (ascii "packetshell"),
            ferry (ascii "downlink") (some (.exited 77))] } := by
      refine .cons (.changes [] [ferry (ascii "downlink") none] (ferry (ascii "packetshell") none)
        (.exited 77) false .running rfl) ?_
      refine .cons (.changes [ferry (ascii "packetshell") (some (.exited 77))] []
        (ferry (ascii "downlink") none) (.exited 77) true .running rfl) ?_
      exact .cons (.reads _ .SIGCHLD rfl fun _ => rfl) (.nil _)
    exact ⟨_, _, hrun, ⟨by decide, by decide, by decide⟩, rfl⟩

end EventLoop

end V2Proxy
