/-
# `MeterQueue` and `IIDLoss` behind a ferry

`src/frontend/meter_queue.cc` and `src/frontend/loss_queue.cc`: two queues that pass on at once
what they keep.  A `MeterQueue` keeps every packet, and an `IIDLoss` drops each one by a draw of
its own.

Whatever `drop_packet` does, what a ferry has written and what waits in its queue are the packets
that were kept, in the order in which they were read (`passing_ferry`).  For a `MeterQueue` these
are all of them (`meter_ferry`), and for an `IIDLoss` those whose draw was not to drop
(`iid_ferry`).  The live graph of a `MeterQueue`, which reads nothing of it, is left out.
-/

import V2Proxy.Frontend.LossQueue
import Mathlib.Data.List.Basic

namespace V2Proxy

open Foundations Poller
open scoped List

/-- A `MeterQueue` has the members of a `LossQueue`, which do the same here: its `read_packet` is
that of a `LossQueue` from which nothing is dropped. -/
def MeterQueue.dropPacket (_ : Bytes) (s : Unit) : Bool × Unit := (false, s)

namespace LossQueue

variable {S : Type} (dropPacket : Bytes → S → Bool × S)

/-- A queue that was given some packets, before it has written one. -/
def given (s : S) (packets : List Bytes) : LossQueue S :=
  packets.foldl (fun q contents => q.readPacket dropPacket contents) { loss := s }

@[simp] theorem given_append_singleton (s : S) (packets : List Bytes) (contents : Bytes) :
    given dropPacket s (packets ++ [contents]) =
      (given dropPacket s packets).readPacket dropPacket contents :=
  List.foldl_concat ..

variable {dropPacket}

/-- What is read is appended, or dropped. -/
theorem packetQueue_readPacket (contents : Bytes) (q : LossQueue S) :
    (q.readPacket dropPacket contents).packetQueue =
      q.packetQueue ++ if (dropPacket contents q.loss).1 then [] else [contents] := by
  change (if (dropPacket contents q.loss).1 then q.packetQueue else q.packetQueue ++ [contents]) = _
  split_ifs <;> simp

/-- The packets that are kept, in order. -/
theorem given_sublist (s : S) (packets : List Bytes) :
    (given dropPacket s packets).packetQueue <+ packets := by
  induction packets using List.reverseRecOn with
  | nil => exact List.Sublist.refl []
  | append_singleton packets contents ih =>
      rw [given_append_singleton, packetQueue_readPacket]
      refine ih.append ?_
      split_ifs
      · exact List.nil_sublist _
      · exact List.Sublist.refl _

end LossQueue

/-- A queue of a ferry, with the packets that it was given and those that it gave out. -/
structure PassingLink (S : Type) where
  queue : LossQueue S
  read : List Bytes := []
  written : List Bytes := []

namespace PassingLink

open LossQueue

variable {S : Type}

/-- The queue of a ferry of `mm-loss`, and of `mm-meter`. -/
def ferryQueue (dropPacket : Bytes → S → Bool × S) : FerryQueue (PassingLink S) Unit where
  readPacket _ contents k := .ok { k with
    queue := k.queue.readPacket dropPacket contents
    read := k.read ++ [contents] }
  writePackets k := (k.queue.writePackets.1, { k with
    queue := k.queue.writePackets.2
    written := k.written ++ k.queue.writePackets.1 })
  waitTime _ k := .ok (k.queue.waitTime, k)
  pendingOutput k := (k.queue.pendingOutput, k)
  finished _ := false

/-- **What every call maintains:** the packets that were kept are written or wait. -/
structure Passes (dropPacket : Bytes → S → Bool × S) (s : S) (k : PassingLink S) : Prop where
  kept : k.written ++ k.queue.packetQueue = (given dropPacket s k.read).packetQueue
  loss : k.queue.loss = (given dropPacket s k.read).loss

variable {dropPacket : Bytes → S → Bool × S} {s : S} {k : PassingLink S}

theorem Passes.of_readPacket (h : Passes dropPacket s k) (contents : Bytes) :
    Passes dropPacket s { k with
      queue := k.queue.readPacket dropPacket contents
      read := k.read ++ [contents] } := by
  constructor
  · rw [given_append_singleton, packetQueue_readPacket, packetQueue_readPacket, h.loss,
      ← List.append_assoc, h.kept]
  · rw [given_append_singleton]
    change (dropPacket contents k.queue.loss).2 = (dropPacket contents (given dropPacket s k.read).loss).2
    rw [h.loss]

theorem Passes.of_writePackets (h : Passes dropPacket s k) : Passes dropPacket s { k with
    queue := k.queue.writePackets.2
    written := k.written ++ k.queue.writePackets.1 } := by
  refine ⟨?_, h.loss⟩
  change (k.written ++ k.queue.packetQueue) ++ [] = _
  rw [List.append_nil, h.kept]

/-- A ferry can rely on a queue that passes packets on. -/
def laws (dropPacket : Bytes → S → Bool × S) (s : S) : (ferryQueue dropPacket).Laws where
  inv := Passes dropPacket s
  read := PassingLink.read
  written := PassingLink.written
  held k := k.queue.packetQueue
  pending k := k.queue.packetQueue ≠ []
  drained _ := True
  lossless := False
  order hk := by
    refine ⟨?_, False.elim⟩
    rw [hk.kept]
    exact given_sublist s _
  readPacket {a contents k k'} hk h := by
    cases h
    refine ⟨hk.of_readPacket contents, rfl, rfl, fun hne => ?_⟩
    show (k.queue.readPacket dropPacket contents).packetQueue ≠ []
    rw [packetQueue_readPacket]
    exact List.append_ne_nil_of_left_ne_nil hne _
  writePackets hk := ⟨hk.of_writePackets, rfl, rfl, List.Sublist.refl _, id⟩
  waitTime hk h := by
    cases h
    exact ⟨hk, rfl, rfl⟩
  pendingOutput hk := ⟨hk, rfl, rfl, of_decide_eq_true, id⟩
  drained_of_not_pending _ _ := trivial
  drained_writePackets _ _ := trivial
  drained_readPacket _ h _ := by cases h

/-- **A ferry passes on what its queue keeps,** in order.  The loop waits only while nothing is
queued.  Failing system calls apart, a further round goes on, exits with status 0 (for a signal, an
error or a hang-up) or throws: a write only for an empty packet, the poller only once 2^32 packets
have been read. -/
theorem passing_ferry {events : List (Unit × Option (Ferry.Handler → Report (Ferry.Input Unit)))}
    {x : State Ferry.Handler (Ferry (PassingLink S))}
    (hrun : Run (Ferry.Continues (ferryQueue dropPacket))
      (Poller.start { queue := { queue := { loss := s } } }) events x) :
    x.shared.written ++ x.shared.queue.queue.packetQueue =
        (given dropPacket s x.shared.read).packetQueue ∧
    (x.shared.queue.queue.waitTime = 0 ↔ x.shared.queue.queue.packetQueue ≠ []) ∧
    ∀ report, (∃ e, Ferry.round (ferryQueue dropPacket) () report x = .error e ∧ Ferry.Throws e) ∨
      ∃ r x', Ferry.round (ferryQueue dropPacket) () report x = .ok (r, x') ∧
        ∀ exitStatus, r = .Exit exitStatus → exitStatus = 0 := by
  have hstart : Passes dropPacket s { queue := { loss := s } } := ⟨rfl, rfl⟩
  have hx := Ferry.holds_of_run (L := laws dropPacket s) hstart rfl rfl hrun
  refine ⟨?_, ?_, fun report => ?_⟩
  · rw [hx.inv.written, hx.inv.read]
    exact hx.inv.inv.kept
  · rw [LossQueue.waitTime]
    split_ifs with hempty
    · simp [hempty]
    · simp [hempty]
  · rcases Ferry.round_spec hx () report with h | ⟨r, x', hr, -, hexit⟩
    · exact Or.inl h
    refine Or.inr ⟨r, x', hr, fun exitStatus h => ?_⟩
    rcases hexit exitStatus h with hzero | ⟨-, n, queue, -, hfinished⟩
    · exact hzero
    · cases hfinished

end PassingLink

namespace MeterQueue

open LossQueue

/-- Nothing is dropped. -/
theorem given_packetQueue (packets : List Bytes) :
    (given MeterQueue.dropPacket () packets).packetQueue = packets := by
  induction packets using List.reverseRecOn with
  | nil => rfl
  | append_singleton packets contents ih =>
      rw [given_append_singleton, packetQueue_readPacket, ih]
      rfl

/-- **The ferry of `mm-meter`** writes all that it reads, in order. -/
theorem meter_ferry {events : List (Unit × Option (Ferry.Handler → Report (Ferry.Input Unit)))}
    {x : State Ferry.Handler (Ferry (PassingLink Unit))}
    (hrun : Run (Ferry.Continues (PassingLink.ferryQueue MeterQueue.dropPacket))
      (Poller.start { queue := { queue := { loss := () } } }) events x) :
    x.shared.written ++ x.shared.queue.queue.packetQueue = x.shared.read := by
  rw [(PassingLink.passing_ferry hrun).1, given_packetQueue]

end MeterQueue

namespace IIDLoss

open LossQueue

/-- The packets whose draw was not to drop. -/
def kept (draws : Stream' Bool) (packets : List Bytes) : List Bytes :=
  (packets.zipIdx.filter fun p => !draws.get p.2).map Prod.fst

/-- Each packet has a draw of its own. -/
theorem given_eq (draws : Stream' Bool) (packets : List Bytes) :
    given IIDLoss.dropPacket draws packets =
      { packetQueue := kept draws packets, loss := draws.drop packets.length } := by
  induction packets using List.reverseRecOn with
  | nil => rfl
  | append_singleton packets contents ih =>
      have hkept : kept draws (packets ++ [contents]) =
          kept draws packets ++ if draws.get packets.length then [] else [contents] := by
        rw [kept, List.zipIdx_append, List.filter_append, List.map_append, Nat.zero_add]
        cases hdraw : draws.get packets.length with
        | true => simp [kept, hdraw]
        | false => simp [kept, hdraw]
      have hdraw : (draws.drop packets.length).head = draws.get packets.length := Stream'.head_drop ..
      rw [given_append_singleton, ih, hkept, LossQueue.readPacket]
      dsimp only [IIDLoss.dropPacket]
      rw [hdraw, List.length_append, List.length_singleton, Stream'.tail_drop']
      split_ifs <;> simp

/-- **The ferry of `mm-loss`.**  After any run, the packets that it has written and those in its
queue are the packets that were read and whose draws were not to drop, in order.  It waits only
while its queue is empty.  Failing system calls apart, a further round goes on, exits with status 0
(for a signal, an error or a hang-up) or throws: a write only for an empty packet, the poller only
once 2^32 packets have been read. -/
theorem iid_ferry {draws : Stream' Bool}
    {events : List (Unit × Option (Ferry.Handler → Report (Ferry.Input Unit)))}
    {x : State Ferry.Handler (Ferry (PassingLink (Stream' Bool)))}
    (hrun : Run (Ferry.Continues (PassingLink.ferryQueue IIDLoss.dropPacket))
      (Poller.start { queue := { queue := { loss := draws } } }) events x) :
    x.shared.written ++ x.shared.queue.queue.packetQueue = kept draws x.shared.read ∧
    (x.shared.queue.queue.waitTime = 0 ↔ x.shared.queue.queue.packetQueue ≠ []) ∧
    ∀ report, (∃ e, Ferry.round (PassingLink.ferryQueue IIDLoss.dropPacket) () report x = .error e ∧
        Ferry.Throws e) ∨
      ∃ r x', Ferry.round (PassingLink.ferryQueue IIDLoss.dropPacket) () report x = .ok (r, x') ∧
        ∀ exitStatus, r = .Exit exitStatus → exitStatus = 0 := by
  obtain ⟨hpassed, hwait, hround⟩ := PassingLink.passing_ferry hrun
  refine ⟨?_, hwait, hround⟩
  rw [hpassed, given_eq]

/-- Two packets are read, and the draw drops the second one. -/
theorem iid_ferry_second :
    ∃ events x, Run (Ferry.Continues (PassingLink.ferryQueue IIDLoss.dropPacket))
        (Poller.start { queue := { queue := { loss := fun n => n = 1 } } }) events x ∧
      x.shared.read = [[7], [8]] ∧
      x.shared.written ++ x.shared.queue.queue.packetQueue = kept (fun n => n = 1) x.shared.read := by
  have hrun : Run (Ferry.Continues (PassingLink.ferryQueue IIDLoss.dropPacket))
      (Poller.start { queue := { queue := { loss := fun n => n = 1 } } })
      [((), some fun k => if k = .readTun then
          { revents := { ready := true }, input := { reading := (), packet := some [7] } }
          else { revents := {}, input := { reading := () } }),
        ((), some fun k => if k = .readTun then
          { revents := { ready := true }, input := { reading := (), packet := some [8] } }
          else { revents := { ready := k = .writeSibling }, input := { reading := () } })] _ :=
    .cons ⟨.Success, rfl, by rintro _ ⟨⟩⟩ (.cons ⟨.Success, rfl, by rintro _ ⟨⟩⟩ (.nil _))
  exact ⟨_, _, hrun, rfl, (iid_ferry hrun).1⟩

end IIDLoss

end V2Proxy
