/-
# `AbstractPacketQueue` and its five disciplines

`src/packet/abstract_packet_queue.hh` and `get_packet_queue` of
`src/frontend/linkshell.cc`.  What a link relies on, whatever the discipline: a
queue drops packets but does not reorder, change or duplicate them
(`enqueue_sublist`, `dequeue_sublist`), and the infinite one does not drop
(`enqueue_infinite`, `dequeue_infinite`).
-/

import V2Proxy.Packet.CODELCalls
import V2Proxy.Packet.PIEPacketQueue

namespace V2Proxy

open Foundations
open scoped List

/-- A `unique_ptr< AbstractPacketQueue >`. -/
inductive AbstractPacketQueue where
  | infinite (q : InfinitePacketQueue)
  | droptail (q : DroppingPacketQueue)
  | drophead (q : DroppingPacketQueue)
  | codel (q : CODELPacketQueue)
  | pie (q : PIEPacketQueue)

/-- `get_packet_queue`, for a type that it knows; `clock` and `draws` are what the
clock and the random generator are going to return to the queue. -/
def getPacketQueue (type args : Bytes) (clock : Stream' ℕ) (draws : Stream' Float) :
    Except Fault AbstractPacketQueue :=
  if type = ascii "infinite" then (InfinitePacketQueue.new args).map .infinite
  else if type = ascii "droptail" then (DroppingPacketQueue.new args).map .droptail
  else if type = ascii "drophead" then (DroppingPacketQueue.new args).map .drophead
  else if type = ascii "codel" then (CODELPacketQueue.new args clock).map .codel
  else if type = ascii "pie" then (PIEPacketQueue.new args clock draws).map .pie
  else .error (.runtimeError (ascii "invalid arguments"))

namespace AbstractPacketQueue

/-- The virtual function `enqueue`. -/
def enqueue (q : AbstractPacketQueue) (p : QueuedPacket) : Except Fault AbstractPacketQueue :=
  match q with
  | .infinite q => .ok (.infinite (q.enqueue p))
  | .droptail q => (DropTailPacketQueue.enqueue q p).map .droptail
  | .drophead q => (DropHeadPacketQueue.enqueue q p).map .drophead
  | .codel q => (q.enqueue p).map .codel
  | .pie q => (q.enqueue p).map .pie

/-- The virtual function `dequeue`. -/
def dequeue (q : AbstractPacketQueue) : Except Fault (QueuedPacket × AbstractPacketQueue) :=
  match q with
  | .infinite q => q.dequeue.map fun (p, q) => (p, .infinite q)
  | .droptail q => q.dequeue.map fun (p, q) => (p, .droptail q)
  | .drophead q => q.dequeue.map fun (p, q) => (p, .drophead q)
  | .codel q => q.dequeue.map fun (p, q) => (p, .codel q)
  | .pie q => q.dequeue.map fun (p, q) => (p, .pie q)

/-- The packets in the queue, the next one first. -/
def packets : AbstractPacketQueue → List QueuedPacket
  | .infinite q => q.internalQueue
  | .droptail q => q.internalQueue
  | .drophead q => q.internalQueue
  | .codel q => q.internalQueue
  | .pie q => q.internalQueue

/-- The virtual function `empty`. -/
def empty (q : AbstractPacketQueue) : Bool := q.packets = []

/-- The infinite discipline. -/
def isInfinite : AbstractPacketQueue → Bool
  | .infinite _ => true
  | _ => false

variable {q q' : AbstractPacketQueue} {p : QueuedPacket}

/-- **No discipline reorders or duplicates when a packet arrives.** -/
theorem enqueue_sublist (h : q.enqueue p = .ok q') : q'.packets <+ q.packets ++ [p] := by
  have hback : ∀ {l l' : List QueuedPacket}, l' = l ++ [p] ∨ l' = l → l' <+ l ++ [p] := by
    rintro l l' (rfl | rfl)
    · exact List.Sublist.refl _
    · exact List.sublist_append_left _ _
  cases q with
  | infinite q =>
      cases h
      exact List.Sublist.refl _
  | droptail q =>
      obtain ⟨q₁, hq₁, rfl⟩ := map_eq_ok.1 h
      exact hback (DroppingPacketQueue.acceptWithin_eq_ok hq₁)
  | drophead q =>
      obtain ⟨q₁, hq₁, rfl⟩ := map_eq_ok.1 h
      exact (DropHeadPacketQueue.enqueue_eq_ok hq₁).sublist
  | codel q =>
      obtain ⟨q₁, hq₁, rfl⟩ := map_eq_ok.1 h
      exact hback (CODELPacketQueue.enqueue_eq_ok hq₁)
  | pie q =>
      obtain ⟨q₁, hq₁, rfl⟩ := map_eq_ok.1 h
      exact hback (PIEPacketQueue.enqueue_eq_ok hq₁)

/-- **Nor when one is taken off.** -/
theorem dequeue_sublist (h : q.dequeue = .ok (p, q')) : p :: q'.packets <+ q.packets := by
  cases q with
  | infinite q =>
      obtain ⟨⟨p₁, q₁⟩, hq₁, h⟩ := map_eq_ok.1 h
      cases h
      rw [InfinitePacketQueue.dequeue] at hq₁
      split at hq₁
      · cases hq₁
      · rename_i ret rest hq
        cases hq₁
        change _ <+ q.internalQueue
        rw [hq]
        exact List.Sublist.refl _
  | droptail q | drophead q =>
      obtain ⟨⟨p₁, q₁⟩, hq₁, h⟩ := map_eq_ok.1 h
      cases h
      exact (DroppingPacketQueue.dequeue_eq_ok hq₁).symm ▸ List.Sublist.refl _
  | codel q =>
      obtain ⟨⟨p₁, q₁⟩, hq₁, h⟩ := map_eq_ok.1 h
      cases h
      exact CODELPacketQueue.dequeue_eq_ok hq₁
  | pie q =>
      obtain ⟨⟨p₁, q₁⟩, hq₁, h⟩ := map_eq_ok.1 h
      cases h
      exact (PIEPacketQueue.dequeue_eq_ok hq₁).symm ▸ List.Sublist.refl _

/-- **The infinite discipline keeps every packet that arrives.** -/
theorem enqueue_infinite (hq : q.isInfinite = true) (h : q.enqueue p = .ok q') :
    q'.isInfinite = true ∧ q'.packets = q.packets ++ [p] := by
  cases q <;> cases hq
  cases h
  exact ⟨rfl, rfl⟩

theorem dequeue_infinite (hq : q.isInfinite = true) (h : q.dequeue = .ok (p, q')) :
    q'.isInfinite = true ∧ p :: q'.packets = q.packets := by
  cases q <;> cases hq
  rename_i q
  obtain ⟨⟨p₁, q₁⟩, hq₁, h⟩ := map_eq_ok.1 h
  cases h
  rw [InfinitePacketQueue.dequeue] at hq₁
  split at hq₁
  · cases hq₁
  · rename_i ret rest hq
    cases hq₁
    exact ⟨rfl, hq.symm⟩

/-- What every discipline maintains of its counters. -/
def Sound : AbstractPacketQueue → Prop
  | .infinite _ => True
  | .droptail q => q.Sound
  | .drophead q => q.Sound
  | .codel q => q.toDroppingPacketQueue.Sound
  | .pie q => q.toDroppingPacketQueue.Sound

/-- **A sound queue with a packet can be dequeued, and stays sound.** -/
theorem Sound.dequeue (h : q.Sound) (hne : q.packets ≠ []) :
    ∃ p q', q.dequeue = .ok (p, q') ∧ q'.Sound := by
  cases q with
  | infinite q =>
      obtain ⟨p, rest, hq⟩ := List.exists_cons_of_ne_nil hne
      change q.internalQueue = _ at hq
      refine ⟨p, .infinite { internalQueue := rest }, ?_, trivial⟩
      rw [AbstractPacketQueue.dequeue, InfinitePacketQueue.dequeue, hq]
      rfl
  | droptail q =>
      obtain ⟨p, rest, hq⟩ := List.exists_cons_of_ne_nil hne
      obtain ⟨q₁, hq₁, hs, -⟩ := DroppingPacketQueue.Sound.dequeue h hq
      exact ⟨p, .droptail q₁, by rw [AbstractPacketQueue.dequeue, hq₁]; rfl, hs⟩
  | drophead q =>
      obtain ⟨p, rest, hq⟩ := List.exists_cons_of_ne_nil hne
      obtain ⟨q₁, hq₁, hs, -⟩ := DroppingPacketQueue.Sound.dequeue h hq
      exact ⟨p, .drophead q₁, by rw [AbstractPacketQueue.dequeue, hq₁]; rfl, hs⟩
  | codel q =>
      obtain ⟨p, q₁, hq₁, hs⟩ := CODELPacketQueue.dequeue_of_sound h hne
      exact ⟨p, .codel q₁, by rw [AbstractPacketQueue.dequeue, hq₁]; rfl, hs⟩
  | pie q =>
      obtain ⟨p, q₁, hq₁, hs⟩ := PIEPacketQueue.dequeue_of_sound h hne
      exact ⟨p, .pie q₁, by rw [AbstractPacketQueue.dequeue, hq₁]; rfl, hs⟩

/-- **A sound queue that takes a packet, or drops it, stays sound.** -/
theorem Sound.enqueue (h : q.Sound) (hp : p.contents.length < 2 ^ 31)
    (hq : q.enqueue p = .ok q') : q'.Sound := by
  cases q with
  | infinite q =>
      cases hq
      trivial
  | droptail q =>
      obtain ⟨q₁, hq₁, rfl⟩ := map_eq_ok.1 hq
      exact DroppingPacketQueue.Sound.acceptWithin h hp hq₁
  | drophead q =>
      obtain ⟨q₁, hq₁, rfl⟩ := map_eq_ok.1 hq
      exact DropHeadPacketQueue.enqueue_of_sound h hp hq₁
  | codel q =>
      obtain ⟨q₁, hq₁, rfl⟩ := map_eq_ok.1 hq
      obtain ⟨base, hbase, hq₁⟩ := bind_eq_ok.1 hq₁
      cases hq₁
      exact DroppingPacketQueue.Sound.acceptWithin h hp hbase
  | pie q =>
      obtain ⟨q₁, hq₁, rfl⟩ := map_eq_ok.1 hq
      exact PIEPacketQueue.enqueue_of_sound h hp hq₁

end AbstractPacketQueue

/-- **A queue that the program is given is empty and sound.** -/
theorem getPacketQueue_spec {type args : Bytes} {clock : Stream' ℕ} {draws : Stream' Float}
    {q : AbstractPacketQueue} (h : getPacketQueue type args clock draws = .ok q) :
    q.packets = [] ∧ q.Sound ∧
      (type = ascii "infinite" → q.isInfinite = true) := by
  unfold getPacketQueue at h
  split_ifs at h with h₁ h₂ h₃ h₄ h₅
  · obtain ⟨q₁, hq₁, rfl⟩ := map_eq_ok.1 h
    rw [InfinitePacketQueue.new] at hq₁
    split_ifs at hq₁
    cases hq₁
    exact ⟨rfl, trivial, fun _ => rfl⟩
  · obtain ⟨q₁, hq₁, rfl⟩ := map_eq_ok.1 h
    obtain ⟨hs, hq⟩ := DroppingPacketQueue.sound_new hq₁
    exact ⟨hq, hs, fun h => absurd h h₁⟩
  · obtain ⟨q₁, hq₁, rfl⟩ := map_eq_ok.1 h
    obtain ⟨hs, hq⟩ := DroppingPacketQueue.sound_new hq₁
    exact ⟨hq, hs, fun h => absurd h h₁⟩
  · obtain ⟨q₁, hq₁, rfl⟩ := map_eq_ok.1 h
    obtain ⟨base, target, interval, hbase, rfl⟩ := CODELPacketQueue.new_eq_ok hq₁
    obtain ⟨hs, hq⟩ := DroppingPacketQueue.sound_new hbase
    exact ⟨hq, hs, fun h => absurd h h₁⟩
  · obtain ⟨q₁, hq₁, rfl⟩ := map_eq_ok.1 h
    obtain ⟨base, qdelayRef, maxBurst, hbase, rfl⟩ := PIEPacketQueue.new_eq_ok hq₁
    obtain ⟨hs, hq⟩ := DroppingPacketQueue.sound_new hbase
    exact ⟨hq, hs, fun h => absurd h h₁⟩

end V2Proxy
